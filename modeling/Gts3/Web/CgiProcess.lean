import Gts3.Lib.Transition
import Gts3.Lib.Cxx
import Mathlib.Data.List.Basic

/-!
# `gts/web/service/cgi/process_unix.cpp`: the processes and their children

`SIGCHLD` says that there are children to wait for, and not how many; a run of `signal_hander` waits for at most one,
throws its status away and resets the `m_pid` of its process.  `join` waits for the child of its own process, unless
`m_pid` has been reset: then it makes up a status, or waits for any child.  `processes_accounted` says in which runs no
child is forgotten and every `join` reports what has become of the child.  The descriptors are left out.
-/

namespace Gts3.Web

open Lib.Transition

/-! ## One process -/

/-- What has become of a child. -/
inductive ExitStatus
  | exited (code : UInt8)
  | signaled
  deriving DecidableEq

/-- The child of a process, for the kernel. -/
inductive Child
  | running
  | exited (status : ExitStatus)
  | reaped (status : ExitStatus)
  deriving DecidableEq

/-- Whether it has exited, and nobody has waited for it. -/
def Child.isZombie : Child → Bool
  | exited _ => true
  | _ => false

/-- What has become of it. -/
def Child.status : Child → Option ExitStatus
  | running => none
  | exited status | reaped status => some status

/-- What a call of `join` returns, and what it puts in `*ret_val`. -/
structure JoinResult where
  ok : Bool
  retVal : Option UInt8
  deriving DecidableEq

/-- Where a call of `join` is. -/
inductive Joining
  | no
  /-- Behind the test of `m_pid`. -/
  | tested
  /-- In `waitpid`, with the pid of the child. -/
  | waiting
  /-- In `waitpid`, with -1 for any child. -/
  | waitingAny
  deriving DecidableEq

/-- A `process` that is started once, with its child, whose pid no other child gets: whether `start` has returned,
whether the pid is in `g_process_map`, `m_pid > 0`, whether a run of `signal_hander` has reaped the child and not yet
looked it up, where a call of `join` is, and what calls of `join` have returned. -/
structure CgiProcess where
  started : Bool
  inMap : Bool
  isRunning : Bool
  child : Child
  handled : Bool
  joining : Joining
  results : List JoinResult
  deriving DecidableEq

namespace CgiProcess

/-- `start` up to the `vfork`. -/
def fork : CgiProcess := ⟨false, false, true, .running, false, .no, []⟩

/-- `g_process_map.emplace`, and `start` returns. -/
def register (p : CgiProcess) : CgiProcess := { p with started := true, inMap := true }

/-- What `join` makes of the status of `waitpid`. -/
def joinResult : ExitStatus → JoinResult
  | .exited code => ⟨true, some code⟩
  | .signaled => ⟨false, none⟩

/-- `join`, up to its `waitpid`. -/
def join (p : CgiProcess) : CgiProcess :=
  if p.isRunning then { p with joining := .tested } else { p with results := p.results ++ [⟨false, some 0⟩] }

/-- The call of `waitpid`, which reads `m_pid` again. -/
def joinWait (p : CgiProcess) : CgiProcess := { p with joining := if p.isRunning then .waiting else .waitingAny }

/-- `join` behind its `waitpid`, with the status that it has. -/
def joined (p : CgiProcess) (status : ExitStatus) : CgiProcess :=
  { p with isRunning := false, joining := .no, results := p.results ++ [joinResult status] }

/-- Somebody has reaped the child, and takes its pid out of the map. -/
def resetWriter (p : CgiProcess) (status : ExitStatus) : CgiProcess :=
  { p with child := .reaped status, inMap := false }

/-- `join` behind its `waitpid` for its child: the status is 0 when that has failed, because somebody else has reaped
the child. -/
def joinWaited (p : CgiProcess) : CgiProcess :=
  match p.child with
  | .running => p
  | .exited status => (p.resetWriter status).joined status
  | .reaped _ => p.joined (.exited 0)

/-- `waitpid` in `signal_hander`, when it has reaped this child. -/
def reap (p : CgiProcess) : CgiProcess :=
  match p.child with
  | .exited status => { p with child := .reaped status, handled := true }
  | _ => p

/-- `signal_hander` behind its `waitpid`. -/
def account (p : CgiProcess) : CgiProcess :=
  if p.inMap then { p with handled := false, isRunning := false, inMap := false } else { p with handled := false }

end CgiProcess

/-! ## Steps -/

/-- All processes that have been created; whether `SIGCHLD` is pending; and the number of runs of `signal_hander`
before their `waitpid`. -/
structure CgiProcesses where
  processes : List CgiProcess
  pending : Bool
  entered : ℕ
  deriving DecidableEq

/-- What happens to processes. -/
inductive ProcessEvent
  /-- `start` creates a child. -/
  | fork
  /-- `start` puts the process into the map. -/
  | register (x : ℕ)
  /-- A child exits, or is killed. -/
  | exit (x : ℕ) (status : ExitStatus)
  /-- `SIGCHLD` is delivered. -/
  | deliver
  /-- The `waitpid` of `signal_hander` reaps a child. -/
  | reap (x : ℕ)
  /-- The `waitpid` of `signal_hander` finds no child. -/
  | reapNone
  /-- `signal_hander` goes on with the child that it has reaped. -/
  | account (x : ℕ)
  /-- `join` is called. -/
  | join (x : ℕ)
  /-- `join` calls `waitpid`. -/
  | joinWait (x : ℕ)
  /-- The `waitpid` of `join` for its child returns. -/
  | joinWaited (x : ℕ)
  /-- The `waitpid` of `join` for any child reaps this one. -/
  | joinWaitedAny (x y : ℕ) (status : ExitStatus)
  /-- The `waitpid` of `join` for any child fails, because there is none. -/
  | joinWaitedNone (x : ℕ)
  deriving DecidableEq

namespace CgiProcesses

/-- No process. -/
def new : CgiProcesses := ⟨[], false, 0⟩

/-- A process is changed. -/
def modify (s : CgiProcesses) (x : ℕ) (f : CgiProcess → CgiProcess) : CgiProcesses :=
  { s with processes := s.processes.modify x f }

/-- What holds of a process. -/
def Of (s : CgiProcesses) (x : ℕ) (P : CgiProcess → Prop) : Prop := ∃ p ∈ s.processes[x]?, P p

instance (s : CgiProcesses) (x : ℕ) (P : CgiProcess → Prop) [DecidablePred P] : Decidable (s.Of x P) :=
  inferInstanceAs (Decidable (∃ p ∈ s.processes[x]?, P p))

/-- What can happen.  A process is joined by one thread at a time. -/
def Enabled (s : CgiProcesses) : ProcessEvent → Prop
  | .fork => True
  | .register x => s.Of x fun p => p.started = false
  | .exit x _ => s.Of x fun p => p.child = .running
  | .deliver => s.pending = true
  | .reap x => s.entered > 0 ∧ s.Of x fun p => p.child.isZombie = true
  | .reapNone => s.entered > 0 ∧ ∀ p ∈ s.processes, p.child.isZombie = false
  | .account x => s.Of x fun p => p.handled = true
  | .join x => s.Of x fun p => p.started = true ∧ p.joining = .no
  | .joinWait x => s.Of x fun p => p.joining = .tested
  | .joinWaited x => s.Of x fun p => p.joining = .waiting ∧ p.child ≠ .running
  | .joinWaitedAny x y status => s.Of x (fun p => p.joining = .waitingAny) ∧ s.Of y fun p => p.child = .exited status
  | .joinWaitedNone x => s.Of x (fun p => p.joining = .waitingAny) ∧
      ∀ p ∈ s.processes, p.child ≠ .running ∧ p.child.isZombie = false

instance (s : CgiProcesses) (e : ProcessEvent) : Decidable (s.Enabled e) := by
  cases e <;> unfold Enabled <;> infer_instance

/-- What becomes of the processes. -/
def next (s : CgiProcesses) : ProcessEvent → CgiProcesses
  | .fork => { s with processes := s.processes ++ [.fork] }
  | .register x => s.modify x CgiProcess.register
  | .exit x status => { s.modify x ({ · with child := .exited status }) with pending := true }
  | .deliver => { s with pending := false, entered := s.entered + 1 }
  | .reap x => { s.modify x CgiProcess.reap with entered := s.entered - 1 }
  | .reapNone => { s with entered := s.entered - 1 }
  | .account x => s.modify x CgiProcess.account
  | .join x => s.modify x CgiProcess.join
  | .joinWait x => s.modify x CgiProcess.joinWait
  | .joinWaited x => s.modify x CgiProcess.joinWaited
  | .joinWaitedAny x y status => (s.modify y (·.resetWriter status)).modify x (·.joined status)
  | .joinWaitedNone x => s.modify x (·.joined (.exited 0))

/-- Processes, in every order of steps. -/
def system : System CgiProcesses ProcessEvent := ⟨new, Enabled, next⟩

instance (s : CgiProcesses) (e : ProcessEvent) : Decidable (system.Enabled s e) :=
  inferInstanceAs (Decidable (s.Enabled e))

/-! ## What signals and joins are for -/

/-- What a call of `join` should report of a child. -/
def Reports (r : JoinResult) : ExitStatus → Prop
  | .exited code => r = ⟨true, some code⟩
  | .signaled => r.ok = false

/-- All children have exited, no `SIGCHLD` is pending, and no run of `signal_hander` is under way. -/
structure Quiet (s : CgiProcesses) : Prop where
  exited : ∀ p ∈ s.processes, p.child ≠ .running
  pending : s.pending = false
  entered : s.entered = 0
  handled : ∀ p ∈ s.processes, p.handled = false

/-- Quiet processes have their `m_pid` reset, and what `join` has reported is true. -/
structure Accounted (s : CgiProcesses) : Prop where
  reset : s.Quiet → ∀ p ∈ s.processes, p.isRunning = false
  joins : ∀ p ∈ s.processes, ∀ r ∈ p.results, ∃ status, p.child.status = some status ∧ Reports r status

/-- The last run of `signal_hander` that is due finds no second child, and none whose process is being joined; the
process of its child is in the map; `join` is called before the child has been reaped; and `m_pid` is not reset between
its test and its `waitpid`.  Where the child has ended with the status that `join` then makes up, this does no harm. -/
def Timely (s : CgiProcesses) : ProcessEvent → Prop
  | .reap x =>
    (s.pending = true ∨ s.entered > 1 ∨ ∀ y, s.Of y (fun p => p.child.isZombie = true) → y = x) ∧
      s.Of x fun p => p.joining ≠ .no → p.child = .exited (.exited 0)
  | .account x => s.Of x fun p => p.inMap = true
  | .join x => s.Of x fun p => ∀ status, p.child = .reaped status →
      if p.isRunning then status = .exited 0 else status = .signaled
  | .joinWait x => s.Of x fun p => p.isRunning = true
  | _ => True

/-! ## Step by step -/

/-- A process that is in order: its child is there as long as `m_pid` says so, nobody else has reaped a child that
`join` waits for, and what `join` has reported is true. -/
structure InOrder (p : CgiProcess) : Prop where
  alive : (∀ status, p.child ≠ .reaped status) → p.isRunning = true ∧ p.handled = false ∧ p.results = []
  reset : ∀ status, p.child = .reaped status → p.handled = false → p.isRunning = false
  joining : p.joining ≠ .no → ∀ status, p.child = .reaped status → status = .exited 0
  own : p.joining ≠ .waitingAny
  results : ∀ r ∈ p.results, ∃ status, p.child.status = some status ∧ Reports r status

theorem reports_joinResult (status : ExitStatus) : Reports (CgiProcess.joinResult status) status := by
  cases status <;> rfl

theorem inOrder_fork : InOrder .fork where
  alive _ := ⟨rfl, rfl, rfl⟩
  reset _ h := nomatch h
  joining h := absurd rfl h
  own := nofun
  results _ h := nomatch h

theorem InOrder.register {p : CgiProcess} (H : InOrder p) : InOrder p.register :=
  ⟨H.alive, H.reset, H.joining, H.own, H.results⟩

theorem InOrder.exit {p : CgiProcess} (H : InOrder p) (hp : p.child = .running) (status : ExitStatus) :
    InOrder { p with child := .exited status } := by
  have halive := H.alive fun status h => by rw [hp] at h; cases h
  refine ⟨fun _ => halive, nofun, fun _ => nofun, H.own, fun r hr => ?_⟩
  exact absurd (halive.2.2 ▸ hr) List.not_mem_nil

theorem InOrder.reap {p : CgiProcess} (H : InOrder p) (hok : p.joining ≠ .no → p.child = .exited (.exited 0)) :
    InOrder p.reap := by
  unfold CgiProcess.reap
  cases hp : p.child with
  | running => exact H
  | reaped status => exact H
  | exited status =>
    have halive := H.alive fun status h => by rw [hp] at h; cases h
    refine ⟨fun h => absurd rfl (h status), fun _ _ => nofun, fun hjoin st hst => ?_, H.own, fun r hr => ?_⟩
    · have hzero := hok hjoin
      rw [hp] at hzero
      cases hst
      cases hzero
      rfl
    · exact absurd (halive.2.2 ▸ hr) List.not_mem_nil

theorem InOrder.account {p : CgiProcess} (H : InOrder p) (hhandled : p.handled = true) (hok : p.inMap = true) :
    InOrder p.account := by
  rw [CgiProcess.account, if_pos hok]
  refine ⟨fun h => ?_, fun _ _ _ => rfl, H.joining, H.own, H.results⟩
  rw [(H.alive h).2.1] at hhandled
  cases hhandled

/-- What `join` reports when it does not wait, or waits in vain. -/
theorem InOrder.report {p : CgiProcess} (H : InOrder p) {status : ExitStatus} (hp : p.child = .reaped status)
    {r : JoinResult} (hr : Reports r status) :
    ∀ r' ∈ p.results ++ [r], ∃ status, p.child.status = some status ∧ Reports r' status := by
  intro r' hr'
  rcases List.mem_append.mp hr' with hr' | hr'
  · exact H.results r' hr'
  · rw [List.mem_singleton.mp hr']
    exact ⟨status, by rw [hp]; rfl, hr⟩

theorem InOrder.join {p : CgiProcess} (H : InOrder p)
    (hok : ∀ status, p.child = .reaped status → if p.isRunning then status = .exited 0 else status = .signaled) :
    InOrder p.join := by
  unfold CgiProcess.join
  by_cases hrun : p.isRunning = true
  · rw [if_pos hrun]
    refine ⟨H.alive, H.reset, fun _ status hp => ?_, nofun, H.results⟩
    have := hok status hp
    rwa [if_pos hrun] at this
  · rw [if_neg hrun]
    obtain ⟨status, hp⟩ : ∃ status, p.child = .reaped status := by
      by_contra h
      exact hrun (H.alive (not_exists.mp h)).1
    have hsignaled := hok status hp
    rw [if_neg hrun] at hsignaled
    have hreports : Reports ⟨false, some 0⟩ status := by rw [hsignaled]; rfl
    exact ⟨fun h => absurd hp (h status), H.reset, H.joining, H.own, H.report hp hreports⟩

theorem InOrder.joinWait {p : CgiProcess} (H : InOrder p) (htested : p.joining = .tested) (hok : p.isRunning = true) :
    InOrder p.joinWait := by
  rw [CgiProcess.joinWait, if_pos hok]
  exact ⟨H.alive, H.reset, fun _ => H.joining (by rw [htested]; nofun), nofun, H.results⟩

theorem InOrder.joinWaited {p : CgiProcess} (H : InOrder p) (hwaiting : p.joining = .waiting) :
    InOrder p.joinWaited := by
  unfold CgiProcess.joinWaited
  cases hp : p.child with
  | running => exact H
  | exited status =>
    have halive := H.alive fun status h => by rw [hp] at h; cases h
    refine ⟨fun h => absurd rfl (h status), fun _ _ _ => rfl, fun h => absurd rfl h, nofun, ?_⟩
    intro r hr
    have hr' : r ∈ p.results ++ [CgiProcess.joinResult status] := hr
    rw [halive.2.2, List.nil_append, List.mem_singleton] at hr'
    exact ⟨status, rfl, hr' ▸ reports_joinResult status⟩
  | reaped status =>
    have hzero := H.joining (by rw [hwaiting]; nofun) status hp
    refine ⟨fun h => (h status hp).elim, fun _ _ _ => rfl, fun h => absurd rfl h, nofun, ?_⟩
    exact H.report hp (hzero ▸ reports_joinResult _)

/-- What holds of the other processes, and of one that is changed. -/
theorem forall_modify {P : CgiProcess → Prop} {s : CgiProcesses} {x : ℕ} {f : CgiProcess → CgiProcess}
    (hother : ∀ y, y ≠ x → ∀ p ∈ s.processes[y]?, P p) (hf : ∀ p ∈ s.processes[x]?, P (f p)) :
    ∀ p ∈ (s.modify x f).processes, P p := by
  intro q hq
  obtain ⟨y, hy⟩ := List.mem_iff_getElem?.mp hq
  rw [modify, List.getElem?_modify] at hy
  obtain ⟨p, hp, rfl⟩ := Option.map_eq_some_iff.mp hy
  by_cases hxy : x = y
  · rw [if_pos hxy]
    exact hf p (hxy ▸ hp)
  · rw [if_neg hxy]
    exact hother y (Ne.symm hxy) p hp

theorem modify_all {P : CgiProcess → Prop} {s : CgiProcesses} (hs : ∀ p ∈ s.processes, P p) {x : ℕ}
    {f : CgiProcess → CgiProcess} (hf : ∀ p ∈ s.processes[x]?, P p → P (f p)) :
    ∀ p ∈ (s.modify x f).processes, P p :=
  forall_modify (fun _ _ p hp => hs p (List.mem_of_getElem? hp)) fun p hp => hf p hp (hs p (List.mem_of_getElem? hp))

/-- The processes are in order, and a child that nobody has waited for has a run of `signal_hander` ahead. -/
structure Counted (s : CgiProcesses) : Prop where
  inOrder : ∀ p ∈ s.processes, InOrder p
  ahead : s.pending = true ∨ s.entered > 0 ∨ ∀ p ∈ s.processes, p.child.isZombie = false

theorem counted_new : new.Counted := ⟨nofun, .inr (.inr nofun)⟩

theorem Counted.accounted {s : CgiProcesses} (H : s.Counted) : s.Accounted where
  reset hquiet p hp := by
    have hzombie : p.child.isZombie = false := by
      rcases H.ahead with h | h | h
      · rw [hquiet.pending] at h
        cases h
      · exact absurd hquiet.entered (Nat.pos_iff_ne_zero.mp h)
      · exact h p hp
    cases hchild : p.child with
    | running => exact absurd hchild (hquiet.exited p hp)
    | exited status => rw [hchild] at hzombie; cases hzombie
    | reaped status => exact (H.inOrder p hp).reset status hchild (hquiet.handled p hp)
  joins p hp := (H.inOrder p hp).results

/-- A step that changes one process, and makes no child a zombie. -/
theorem Counted.modify {s : CgiProcesses} (H : s.Counted) {x : ℕ} {f : CgiProcess → CgiProcess}
    (hinOrder : ∀ p ∈ s.processes[x]?, InOrder p → InOrder (f p))
    (hzombie : ∀ p, p.child.isZombie = false → (f p).child.isZombie = false) : (s.modify x f).Counted where
  inOrder := modify_all H.inOrder hinOrder
  ahead := H.ahead.imp_right fun h => h.imp_right fun h => modify_all h fun p _ => hzombie p

theorem isZombie_reap (p : CgiProcess) : p.reap.child.isZombie = false := by
  unfold CgiProcess.reap
  cases h : p.child <;> simp only [h] <;> rfl

theorem isZombie_joinWaited (p : CgiProcess) (h : p.child.isZombie = false) : p.joinWaited.child.isZombie = false := by
  unfold CgiProcess.joinWaited
  cases hp : p.child with
  | running => exact h
  | exited status => rfl
  | reaped status => rw [CgiProcess.joined, hp]; rfl

/-- **One step** that is timely. -/
theorem Counted.next {s : CgiProcesses} (H : s.Counted) {e : ProcessEvent} (he : s.Enabled e) (hok : s.Timely e) :
    (s.next e).Counted := by
  have hof : ∀ {x : ℕ} {P : CgiProcess → Prop}, s.Of x P → ∀ p ∈ s.processes[x]?, P p := by
    intro x P ⟨p, hp, hP⟩ q hq
    rw [hp] at hq
    cases hq
    exact hP
  cases e with
  | fork =>
    refine ⟨fun p hp => ?_, H.ahead.imp_right fun h => h.imp_right fun h p hp => ?_⟩
    · rcases List.mem_append.mp hp with hp | hp
      · exact H.inOrder p hp
      · exact List.mem_singleton.mp hp ▸ inOrder_fork
    · rcases List.mem_append.mp hp with hp | hp
      · exact h p hp
      · exact List.mem_singleton.mp hp ▸ rfl
  | register x => exact H.modify (fun p _ hp => hp.register) fun p hp => hp
  | exit x status =>
    exact ⟨modify_all H.inOrder fun p hp hin => hin.exit (hof he p hp) status, .inl rfl⟩
  | deliver => exact ⟨H.inOrder, .inr (.inl (Nat.succ_pos _))⟩
  | reap x =>
    refine ⟨modify_all H.inOrder fun p hp hin => hin.reap (hof hok.2 p hp), ?_⟩
    rcases hok.1 with h | h | h
    · exact .inl h
    · exact .inr (.inl (Nat.sub_pos_of_lt h))
    · -- no other child has exited
      refine .inr (.inr (forall_modify (fun y hy p hp => ?_) fun p _ => isZombie_reap p))
      exact eq_false_of_ne_true fun hzombie => hy (h y ⟨p, hp, hzombie⟩)
  | reapNone => exact ⟨H.inOrder, .inr (.inr he.2)⟩
  | account x =>
    refine H.modify (fun p hp hin => hin.account (hof he p hp) (hof hok p hp)) fun p hp => ?_
    unfold CgiProcess.account
    split_ifs <;> exact hp
  | join x =>
    refine H.modify (fun p hp hin => hin.join (hof hok p hp)) fun p hp => ?_
    unfold CgiProcess.join
    split_ifs <;> exact hp
  | joinWait x => exact H.modify (fun p hp hin => hin.joinWait (hof he p hp) (hof hok p hp)) fun p hp => hp
  | joinWaited x => exact H.modify (fun p hp hin => hin.joinWaited (hof he p hp).1) isZombie_joinWaited
  | joinWaitedAny x y status =>
    obtain ⟨p, hp, hany⟩ := he.1
    exact absurd hany (H.inOrder p (List.mem_of_getElem? hp)).own
  | joinWaitedNone x =>
    obtain ⟨p, hp, hany⟩ := he.1
    exact absurd hany (H.inOrder p (List.mem_of_getElem? hp)).own

/-! ## Every order of steps -/

/-- **Children**, over a run: as long as all steps are timely, quiet processes have no child left that is not accounted
for, and every `join` reports what has become of the child. -/
theorem processes_accounted (s : CgiProcesses) (hs : (system.restrict Timely).Reachable s) : s.Accounted :=
  (System.Reachable.inv (S := system.restrict Timely) counted_new
    (fun s e H (he : s.Enabled e ∧ s.Timely e) => Counted.next H he.1 he.2) hs).accounted

/-- A program that exits while it is joined, and is reaped there. -/
theorem processes_accounted_joined :
    Accounted ⟨[⟨true, false, false, .reaped (.exited 3), false, .no, [⟨true, some 3⟩]⟩], false, 0⟩ := by
  have hnew : (system.restrict Timely).Reachable new := System.Reachable.init
  have hfork := hnew.next (e := .fork) ⟨trivial, trivial⟩
  have hstarted := hfork.next (e := .register 0) ⟨⟨_, rfl, rfl⟩, trivial⟩
  have htested := hstarted.next (e := .join 0) ⟨⟨_, rfl, rfl, rfl⟩, ⟨_, rfl, nofun⟩⟩
  have hwaiting := htested.next (e := .joinWait 0) ⟨⟨_, rfl, rfl⟩, ⟨_, rfl, rfl⟩⟩
  have hexited := hwaiting.next (e := .exit 0 (.exited 3)) ⟨⟨_, rfl, rfl⟩, trivial⟩
  have hjoined := hexited.next (e := .joinWaited 0) ⟨⟨_, rfl, rfl, nofun⟩, trivial⟩
  have hdelivered := hjoined.next (e := .deliver) ⟨rfl, trivial⟩
  have hlast := hdelivered.next (e := .reapNone) ⟨⟨Nat.one_pos, by decide⟩, trivial⟩
  exact processes_accounted _ hlast

/-- Two children exit before the signal is delivered, and one of them is never waited for; or the only child is waited
for in the handler, and `join` reports another end. -/
theorem not_accounted_twoRuns :
    (¬∀ s, system.Reachable s → s.Quiet → ∀ p ∈ s.processes, p.isRunning = false) ∧
    ¬∀ s, system.Reachable s → ∀ p ∈ s.processes, ∀ r ∈ p.results,
      ∃ status, p.child.status = some status ∧ Reports r status := by
  refine ⟨fun hall => ?_, fun hall => ?_⟩
  · have hreplay : system.replay new
        [.fork, .register 0, .fork, .register 1, .exit 0 (.exited 0), .exit 1 (.exited 0), .deliver, .reap 0,
          .account 0] =
        some ⟨[⟨true, false, false, .reaped (.exited 0), false, .no, []⟩,
          ⟨true, true, true, .exited (.exited 0), false, .no, []⟩], false, 0⟩ := by decide
    have hquiet := hall _ (System.reachable_of_replay hreplay)
      ⟨by decide, rfl, rfl, by decide⟩ ⟨true, true, true, .exited (.exited 0), false, .no, []⟩ (by decide)
    exact absurd hquiet (by decide)
  · have hreplay : system.replay new
        [.fork, .register 0, .exit 0 (.exited 0), .deliver, .reap 0, .account 0, .join 0] =
        some ⟨[⟨true, false, false, .reaped (.exited 0), false, .no, [⟨false, some 0⟩]⟩], false, 0⟩ := by decide
    obtain ⟨status, hstatus, hreports⟩ := hall _ (System.reachable_of_replay hreplay) _ List.mem_cons_self
      ⟨false, some 0⟩ List.mem_cons_self
    cases hstatus
    cases hreports

end CgiProcesses

end Gts3.Web
