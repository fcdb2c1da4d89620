import Gts3.Lib.Transition
import Mathlib.Data.Finset.Basic

/-!
# `gts/web/service/connection.cpp`: idle connections

Every connection goes through one chain of operations: it waits in `async_read_some`, its task runs, and in the end its
deletion is posted.  Beside that chain its timer puts it into `g_timeout_set`, from where `new_connection` takes
connections to close.  A handler that is queued is not affected by a cancellation any more, so an idle handler can put
a connection into the set that has stopped waiting: exactly the runs without such a step keep the set right
(`timeoutSet_run_iff`).
-/

namespace Gts3.Web

open Lib.Transition

/-! ## Connections -/

/-- What the handler of `async_read_some` finds. -/
inductive Received
  /-- An error, or no bytes. -/
  | failed
  /-- Bytes, and the request is not complete. -/
  | partialRequest
  | invalidRequest
  | request
  deriving DecidableEq, Repr

/-- Where a connection is in its chain of operations. -/
inductive Activity
  /-- `async_read_some` is under way. -/
  | reading
  /-- The handler of `async_read_some` is queued. -/
  | readDone (outcome : Received)
  /-- The task runs in the thread pool. -/
  | processing
  /-- The handler of the task is queued. -/
  | taskDone (cont : Bool)
  /-- `delete_later` has posted the deletion. -/
  | deleting
  | destroyed
  deriving DecidableEq, Repr

/-- The two waits on the timer of a connection. -/
inductive TimeOut
  | allowPreemptionx
  | destory
  deriving DecidableEq, Repr

/-- A `connection`: its chain of operations, whether its socket is open, and the wait on its timer. -/
structure TimedConnection where
  activity : Activity
  isOpen : Bool
  timer : Option TimeOut
  deriving DecidableEq, Repr

/-- A queued handler of a timer. -/
structure TimeOutHandler where
  connection : ℕ
  timeOut : TimeOut
  wasCancel : Bool
  deriving DecidableEq, Repr

/-- All connections that have been created, `g_timeout_set` and the queued handlers of timers. -/
structure TimedConnections where
  all : List TimedConnection
  timeoutSet : Finset ℕ
  queue : List TimeOutHandler

namespace TimedConnections

def new : TimedConnections := ⟨[], ∅, []⟩

/-- `g_counter`. -/
def counter (s : TimedConnections) : ℕ := s.all.countP (·.activity ≠ .destroyed)

/-- A connection is changed. -/
def modify (s : TimedConnections) (x : ℕ) (f : TimedConnection → TimedConnection) : TimedConnections :=
  { s with all := s.all.modify x f }

/-- The wait on the timer of a connection ends, and its handler is queued. -/
def endWait (s : TimedConnections) (x : ℕ) (wasCancel : Bool) : TimedConnections :=
  match (s.all[x]?).bind TimedConnection.timer with
  | none => s
  | some t => { s.modify x ({ · with timer := none }) with queue := s.queue ++ [⟨x, t, wasCancel⟩] }

/-- `m_timer.expires_after` and `m_timer.async_wait`. -/
def startWait (s : TimedConnections) (x : ℕ) (t : TimeOut) : TimedConnections :=
  (s.endWait x true).modify x ({ · with timer := some t })

/-- The chain of operations goes on. -/
def goOn (s : TimedConnections) (x : ℕ) (activity : Activity) : TimedConnections :=
  s.modify x ({ · with activity := activity })

/-- `connection::do_recv`. -/
def doRecv (s : TimedConnections) (x : ℕ) : TimedConnections :=
  if ((s.all[x]?).map TimedConnection.isOpen).getD false then (s.startWait x .allowPreemptionx).goOn x .reading
  else s.goOn x .deleting

/-- `g_timeout_set.erase`. -/
def eraseTimeout (s : TimedConnections) (x : ℕ) : TimedConnections :=
  { s with timeoutSet := s.timeoutSet.erase x }

/-- `connection::cancel`. -/
def cancel (s : TimedConnections) (x : ℕ) : TimedConnections := s.modify x ({ · with isOpen := false })

/-- The constructor of `connection`. -/
def construct (s : TimedConnections) (isOpen : Bool) : TimedConnections :=
  doRecv { s with all := s.all ++ [⟨.reading, isOpen, none⟩] } s.all.length

/-- `connection::new_connection`, with the first element of the set. -/
def newConnection (s : TimedConnections) (maxCount : ℕ) (isOpen : Bool) (first : ℕ) : TimedConnections :=
  if s.counter < maxCount then s.construct isOpen
  else if first ∈ s.timeoutSet then ((s.cancel first).eraseTimeout first).construct isOpen
  else s

/-- The handler of `async_read_some`. -/
def onRead (s : TimedConnections) (x : ℕ) (outcome : Received) : TimedConnections :=
  let s := (s.endWait x true).eraseTimeout x
  match outcome with
  | .failed => s.goOn x .deleting
  | .partialRequest => s.doRecv x
  | .invalidRequest => (s.cancel x).goOn x .deleting
  | .request => s.goOn x .processing

/-- The handler of the task. -/
def onTask (s : TimedConnections) (x : ℕ) (cont : Bool) : TimedConnections :=
  if cont then s.doRecv x else s.goOn x .deleting

/-- `connection::time_out_allow_preemptionx`. -/
def timeOutAllowPreemptionx (s : TimedConnections) (x : ℕ) (wasCancel : Bool) : TimedConnections :=
  if wasCancel then s else startWait { s with timeoutSet := insert x s.timeoutSet } x .destory

/-- `connection::time_out_destory`. -/
def timeOutDestory (s : TimedConnections) (x : ℕ) (wasCancel : Bool) : TimedConnections :=
  if wasCancel then s else (s.eraseTimeout x).cancel x

/-- The destructor of `connection`. -/
def destruct (s : TimedConnections) (x : ℕ) : TimedConnections := (s.endWait x true).goOn x .destroyed

end TimedConnections

/-! ## Steps -/

/-- What happens to connections. -/
inductive ConnectionEvent
  /-- A socket is accepted, with the element that `g_timeout_set` begins with, if there is one. -/
  | accept (isOpen : Bool) (first : ℕ)
  /-- `async_read_some` completes. -/
  | readComplete (x : ℕ) (outcome : Received)
  /-- The handler of `async_read_some` runs. -/
  | read (x : ℕ)
  /-- The task completes. -/
  | taskComplete (x : ℕ) (cont : Bool)
  /-- The handler of the task runs. -/
  | task (x : ℕ)
  /-- A posted deletion runs. -/
  | delete (x : ℕ)
  /-- The wait on a timer expires. -/
  | expire (x : ℕ)
  /-- A queued handler of a timer runs. -/
  | timeOut (h : TimeOutHandler)
  deriving DecidableEq, Repr

namespace TimedConnections

/-- What a connection does. -/
def activity (s : TimedConnections) (x : ℕ) : Option Activity := (s.all[x]?).map TimedConnection.activity

/-- What can happen. -/
def Enabled (s : TimedConnections) : ConnectionEvent → Prop
  | .accept _ first => s.timeoutSet = ∅ ∨ first ∈ s.timeoutSet
  | .readComplete x _ => s.activity x = some .reading
  | .read x => ∃ outcome ∈ [Received.failed, .partialRequest, .invalidRequest, .request],
      s.activity x = some (.readDone outcome)
  | .taskComplete x _ => s.activity x = some .processing
  | .task x => ∃ cont ∈ [true, false], s.activity x = some (.taskDone cont)
  | .delete x => s.activity x = some .deleting
  | .expire x => ((s.all[x]?).bind TimedConnection.timer).isSome = true
  | .timeOut h => h ∈ s.queue

instance (s : TimedConnections) (e : ConnectionEvent) : Decidable (s.Enabled e) := by
  cases e <;> unfold Enabled <;> infer_instance

/-- What becomes of the connections. -/
def next (maxCount : ℕ) (s : TimedConnections) : ConnectionEvent → TimedConnections
  | .accept isOpen first => s.newConnection maxCount isOpen first
  | .readComplete x outcome => s.goOn x (.readDone outcome)
  | .read x =>
    match s.activity x with
    | some (.readDone outcome) => s.onRead x outcome
    | _ => s
  | .taskComplete x cont => s.goOn x (.taskDone cont)
  | .task x =>
    match s.activity x with
    | some (.taskDone cont) => s.onTask x cont
    | _ => s
  | .delete x => s.destruct x
  | .expire x => s.endWait x false
  | .timeOut h =>
    let s := { s with queue := s.queue.erase h }
    match h.timeOut with
    | .allowPreemptionx => s.timeOutAllowPreemptionx h.connection h.wasCancel
    | .destory => s.timeOutDestory h.connection h.wasCancel

/-- The connections of a server with `g_max_count`, in every order of steps. -/
def system (maxCount : ℕ) : System TimedConnections ConnectionEvent := ⟨new, Enabled, next maxCount⟩

instance (maxCount : ℕ) (s : TimedConnections) (e : ConnectionEvent) : Decidable ((system maxCount).Enabled s e) :=
  inferInstanceAs (Decidable (s.Enabled e))

/-! ## What the operations change -/

/-- A connection waits in `async_read_some`: it is there, and its handler has not run. -/
def Waiting (s : TimedConnections) (x : ℕ) : Prop :=
  s.activity x = some .reading ∨ ∃ outcome, s.activity x = some (.readDone outcome)

section Operations

variable (s : TimedConnections) (x : ℕ)

theorem activity_modify (f : TimedConnection → TimedConnection) (y : ℕ) :
    (s.modify x f).activity y = if x = y then (s.all[y]?).map (fun c => (f c).activity) else s.activity y := by
  rw [activity, modify, List.getElem?_modify]
  split_ifs
  · cases s.all[y]? <;> rfl
  · cases h : s.all[y]? <;> simp [activity, h]

theorem activity_modify_same {f : TimedConnection → TimedConnection} (hf : ∀ c, (f c).activity = c.activity) (y : ℕ) :
    (s.modify x f).activity y = s.activity y := by
  rw [activity_modify, activity]
  split_ifs
  · cases s.all[y]? <;> simp [hf]
  · rfl

@[simp] theorem activity_endWait (b : Bool) (y : ℕ) : (s.endWait x b).activity y = s.activity y := by
  unfold endWait
  split
  · rfl
  · exact activity_modify_same s x (f := ({ · with timer := none })) (fun _ => rfl) y

@[simp] theorem activity_startWait (t : TimeOut) (y : ℕ) : (s.startWait x t).activity y = s.activity y := by
  have h := activity_modify_same (s.endWait x true) x (f := ({ · with timer := some t })) (fun _ => rfl) y
  exact h.trans (activity_endWait s x true y)

@[simp] theorem activity_cancel (y : ℕ) : (s.cancel x).activity y = s.activity y :=
  activity_modify_same s x (f := ({ · with isOpen := false })) (fun _ => rfl) y

@[simp] theorem activity_eraseTimeout (y : ℕ) : (s.eraseTimeout x).activity y = s.activity y := rfl

theorem activity_goOn (a : Activity) (y : ℕ) :
    (s.goOn x a).activity y = if x = y then (s.activity y).map (fun _ => a) else s.activity y := by
  rw [goOn, activity_modify, activity]
  split_ifs
  · rw [Option.map_map]
    rfl
  · rfl

@[simp] theorem timeoutSet_endWait (b : Bool) : (s.endWait x b).timeoutSet = s.timeoutSet := by
  unfold endWait
  split <;> rfl

@[simp] theorem timeoutSet_startWait (t : TimeOut) : (s.startWait x t).timeoutSet = s.timeoutSet :=
  timeoutSet_endWait s x true

@[simp] theorem timeoutSet_goOn (a : Activity) : (s.goOn x a).timeoutSet = s.timeoutSet := rfl

@[simp] theorem timeoutSet_cancel : (s.cancel x).timeoutSet = s.timeoutSet := rfl

@[simp] theorem timeoutSet_eraseTimeout : (s.eraseTimeout x).timeoutSet = s.timeoutSet.erase x := rfl

@[simp] theorem timeoutSet_doRecv : (s.doRecv x).timeoutSet = s.timeoutSet := by
  unfold doRecv
  split_ifs <;> simp

theorem activity_doRecv {y : ℕ} (hy : y ≠ x) : (s.doRecv x).activity y = s.activity y := by
  unfold doRecv
  split_ifs
  · rw [activity_goOn, if_neg (Ne.symm hy), activity_startWait]
  · rw [activity_goOn, if_neg (Ne.symm hy)]

end Operations

/-! ## The set of idle connections -/

/-- **The set is right**: every pointer in it is a live connection that waits in `async_read_some`. -/
def Good (s : TimedConnections) : Prop := ∀ x ∈ s.timeoutSet, s.Waiting x

/-- An idle handler that is not cancelled runs while its connection waits. -/
def IdleWaits (s : TimedConnections) : ConnectionEvent → Prop
  | .timeOut h => h.timeOut = .allowPreemptionx → h.wasCancel = false → s.Waiting h.connection
  | _ => True

section Steps

variable {s s' : TimedConnections}

theorem Waiting.of_activity {x : ℕ} (h : s.Waiting x) (heq : s'.activity x = s.activity x) : s'.Waiting x := by
  rw [Waiting, heq]
  exact h

theorem Waiting.lt {x : ℕ} (h : s.Waiting x) : x < s.all.length := by
  by_contra hlt
  have hnone : s.activity x = none := by rw [activity, List.getElem?_eq_none (Nat.le_of_not_lt hlt), Option.map_none]
  rw [Waiting, hnone] at h
  simp at h

/-- **One connection** changes, and the set keeps the others. -/
theorem Good.frame (x : ℕ) (h : s.Good) (hactivity : ∀ y, y ≠ x → s'.activity y = s.activity y)
    (hset : ∀ y ∈ s'.timeoutSet, y ≠ x → y ∈ s.timeoutSet) (hx : x ∈ s'.timeoutSet → s'.Waiting x) : s'.Good := by
  intro y hy
  by_cases hyx : y = x
  · subst hyx
    exact hx hy
  · exact (h y (hset y hy hyx)).of_activity (hactivity y hyx)

/-- A connection that does not wait is not in the set. -/
theorem Good.not_mem (h : s.Good) {x : ℕ} {a : Activity} (ha : s.activity x = some a) (hr : a ≠ .reading)
    (hd : ∀ outcome, a ≠ .readDone outcome) : x ∉ s.timeoutSet := by
  intro hx
  rcases h x hx with h | ⟨outcome, h⟩
  · exact hr (Option.some.inj (ha.symm.trans h))
  · exact hd outcome (Option.some.inj (ha.symm.trans h))

theorem Good.construct (h : s.Good) (isOpen : Bool) : (s.construct isOpen).Good := by
  intro x hx
  rw [TimedConnections.construct, timeoutSet_doRecv] at hx
  have hlt := (h x hx).lt
  refine (h x hx).of_activity ?_
  rw [TimedConnections.construct, activity_doRecv _ _ hlt.ne, activity, activity, List.getElem?_append_left hlt]

/-- A connection that does not wait does something else. -/
theorem Good.goOn (h : s.Good) {x : ℕ} (hx : x ∉ s.timeoutSet) (a : Activity) : (s.goOn x a).Good :=
  h.frame x (fun y hy => by rw [activity_goOn, if_neg (Ne.symm hy)]) (fun y hy _ => hy) fun hmem => absurd hmem hx

theorem Good.doRecv (h : s.Good) {x : ℕ} (hx : x ∉ s.timeoutSet) : (s.doRecv x).Good :=
  h.frame x (fun y hy => activity_doRecv _ _ hy) (fun y hy _ => by rwa [timeoutSet_doRecv] at hy)
    fun hmem => absurd (by rwa [timeoutSet_doRecv] at hmem) hx

theorem Good.newConnection (h : s.Good) (maxCount : ℕ) (isOpen : Bool) (first : ℕ) :
    (s.newConnection maxCount isOpen first).Good := by
  rw [TimedConnections.newConnection]
  split_ifs with hcount hfirst
  · exact h.construct isOpen
  · refine Good.construct (h.frame first (fun y _ => by simp) (fun y hy _ => ?_) fun hx => ?_) isOpen
    · exact Finset.mem_of_mem_erase (by simpa using hy)
    · simp at hx
  · exact h

/-- A connection that receives is taken out of the set. -/
theorem Good.onRead (h : s.Good) (x : ℕ) (outcome : Received) : (s.onRead x outcome).Good := by
  have hnot : x ∉ ((s.endWait x true).eraseTimeout x).timeoutSet := by simp
  have hout : ((s.endWait x true).eraseTimeout x).Good := by
    refine h.frame x (fun y _ => ?_) (fun y hy _ => ?_) fun hx => absurd hx hnot
    · rw [activity_eraseTimeout, activity_endWait]
    · exact Finset.mem_of_mem_erase (by simpa using hy)
  cases outcome with
  | failed | request => exact hout.goOn hnot _
  | partialRequest => exact hout.doRecv hnot
  | invalidRequest =>
    have hcancel : (((s.endWait x true).eraseTimeout x).cancel x).Good :=
      hout.frame x (fun y _ => by rw [activity_cancel]) (fun y hy _ => hy) fun hx => absurd hx hnot
    exact hcancel.goOn hnot _

theorem Good.onTask (h : s.Good) {x : ℕ} (hx : x ∉ s.timeoutSet) (cont : Bool) : (s.onTask x cont).Good := by
  rw [TimedConnections.onTask]
  split_ifs
  · exact h.doRecv hx
  · exact h.goOn hx _

theorem Good.destruct (h : s.Good) {x : ℕ} (hx : x ∉ s.timeoutSet) : (s.destruct x).Good := by
  have hend : (s.endWait x true).Good :=
    h.frame x (fun y _ => by rw [activity_endWait]) (fun y hy _ => by simpa using hy)
      fun hmem => absurd (by simpa using hmem) hx
  exact hend.goOn (by simpa using hx) _

theorem Good.timeOutDestory (h : s.Good) (x : ℕ) (wasCancel : Bool) : (s.timeOutDestory x wasCancel).Good := by
  rw [TimedConnections.timeOutDestory]
  split_ifs
  · exact h
  · refine h.frame x (fun y _ => ?_) (fun y hy _ => ?_) fun hx => ?_
    · rw [activity_cancel, activity_eraseTimeout]
    · rw [timeoutSet_cancel, timeoutSet_eraseTimeout] at hy
      exact Finset.mem_of_mem_erase hy
    · simp at hx

/-- The idle handler puts its connection into the set. -/
theorem Good.timeOutAllowPreemptionx_iff (h : s.Good) (x : ℕ) (wasCancel : Bool) :
    (s.timeOutAllowPreemptionx x wasCancel).Good ↔ (wasCancel = false → s.Waiting x) := by
  cases wasCancel with
  | true => exact iff_of_true h fun hb => by cases hb
  | false =>
    have hsame : ∀ y, (s.timeOutAllowPreemptionx x false).activity y = s.activity y := by
      intro y
      rw [timeOutAllowPreemptionx, if_neg Bool.false_ne_true, activity_startWait]
      rfl
    have hset : (s.timeOutAllowPreemptionx x false).timeoutSet = insert x s.timeoutSet := by
      simp [timeOutAllowPreemptionx]
    constructor
    · intro hgood _
      exact (hgood x (by rw [hset]; exact Finset.mem_insert_self x _)).of_activity (hsame x).symm
    · intro hwait
      refine h.frame x (fun y _ => hsame y) (fun y hy hyx => ?_) fun _ => (hwait rfl).of_activity (hsame x)
      rw [hset] at hy
      exact (Finset.mem_insert.mp hy).resolve_left hyx

/-- **One step** keeps the set right exactly when an idle handler finds its connection waiting. -/
theorem Good.next_iff (h : s.Good) {maxCount : ℕ} {e : ConnectionEvent} (he : s.Enabled e) :
    s.IdleWaits e ↔ (s.next maxCount e).Good := by
  cases e with
  | accept isOpen first => exact iff_of_true trivial (h.newConnection maxCount isOpen first)
  | readComplete x outcome =>
    have hx : s.activity x = some .reading := he
    refine iff_of_true trivial (h.frame x (fun y hy => ?_) (fun y hy _ => hy) fun _ => Or.inr ⟨outcome, ?_⟩)
    · rw [next, activity_goOn, if_neg (Ne.symm hy)]
    · rw [next, activity_goOn, if_pos rfl, hx, Option.map_some]
  | read x =>
    obtain ⟨outcome, -, hx⟩ := he
    refine iff_of_true trivial ?_
    simp only [next, hx]
    exact h.onRead x outcome
  | taskComplete x cont => exact iff_of_true trivial (h.goOn (h.not_mem he (by simp) (by simp)) _)
  | task x =>
    obtain ⟨cont, -, hx⟩ := he
    refine iff_of_true trivial ?_
    simp only [next, hx]
    exact h.onTask (h.not_mem hx (by simp) (by simp)) cont
  | delete x => exact iff_of_true trivial (h.destruct (h.not_mem he (by simp) (by simp)))
  | expire x =>
    refine iff_of_true trivial (h.frame x (fun y _ => by simp [next]) (fun y hy _ => ?_) fun hx => ?_)
    · simpa [next] using hy
    · exact (h x (by simpa [next] using hx)).of_activity (by simp [next])
  | timeOut k =>
    obtain ⟨x, t, b⟩ := k
    have hqueue (queue : List TimeOutHandler) : Good { s with queue } := h
    cases t with
    | allowPreemptionx =>
      refine Iff.trans ?_ ((hqueue _).timeOutAllowPreemptionx_iff x b).symm
      exact ⟨fun hwait => hwait rfl, fun hwait _ => hwait⟩
    | destory => exact iff_of_true (fun ht => by cases ht) ((hqueue _).timeOutDestory x b)

end Steps

/-! ## Every run -/

/-- **The set over a run**: it is right in every state as long as idle handlers find their connections waiting, and
these are the only runs in which it stays right. -/
theorem timeoutSet_run_iff (maxCount : ℕ) :
    (∀ s, ((system maxCount).restrict IdleWaits).Reachable s → s.Good) ∧
    ∀ es s, ((system maxCount).restrict IdleWaits).Run new es s ↔ ((system maxCount).keeping Good).Run new es s := by
  have hinit : Good new := fun _ hx => absurd hx (Finset.notMem_empty _)
  have hrun : ∀ es s, ((system maxCount).restrict IdleWaits).Run new es s ↔
      ((system maxCount).keeping Good).Run new es s :=
    System.restrict_run_iff (I := Good) (fun _ _ h he => Good.next_iff h he)
      (fun _ _ h he hok => (Good.next_iff h he).mp hok) hinit
  refine ⟨fun s hs => ?_, hrun⟩
  obtain ⟨es, hes⟩ := hs
  exact System.keeping_reachable hinit ⟨es, (hrun es s).mp hes⟩

/-- The read completes with a request, the idle wait expires behind it, and both handlers run. -/
def idleBehindRead : List ConnectionEvent :=
  [.accept true 0, .readComplete 0 .request, .expire 0, .read 0, .timeOut ⟨0, .allowPreemptionx, false⟩]

/-- A connection whose task runs is in the set. -/
theorem not_good_idleBehindRead : ¬ ∀ maxCount s, (system maxCount).Reachable s → s.Good := by
  intro hall
  have hreplay : ((system 1024).replay new idleBehindRead).any
      (fun s => 0 ∈ s.timeoutSet ∧ s.activity 0 = some .processing) = true := by decide
  obtain ⟨s, hs, hbusy⟩ := (Option.any_eq_true _ _).mp hreplay
  obtain ⟨hmem, hactivity⟩ : 0 ∈ s.timeoutSet ∧ s.activity 0 = some .processing := by simpa using hbusy
  have hgood := hall 1024 s (System.reachable_of_replay hs)
  exact hgood.not_mem hactivity (by simp) (by simp) hmem

end TimedConnections

end Gts3.Web
