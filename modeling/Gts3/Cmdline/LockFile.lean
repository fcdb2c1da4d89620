import Gts3.Lib.Transition
import Gts3.Value

/-!
# `cmdline/private/app_core_unix.cpp`: the lock file

A server opens `pid.lock`, locks it with `flock` and writes its process number into it; when it ends it closes the file,
which gives up the lock, and then removes whatever is at the path.  `stop_app` of another process reads the number.
Any number of processes, one call of the system at a time; a process may also be killed at any moment.

Opening truncates the file, also for a process that is then refused, and a process may be about to lock the file that
another one removes.  `oneServer_safe` and `stopApp_iff` say what follows.
-/

namespace Gts3.Cmdline

open Lib Lib.Cxx Lib.Transition

/-! ## The process number as text -/

/-- A `pid_t` that a process has. -/
structure Pid where
  number : ℕ
  pos : 0 < number
  lt : number < 2 ^ 31
  deriving DecidableEq

/-- `fmt::format("{}", getpid())`. -/
def Pid.text (p : Pid) : Bytes := formatInt p.number

/-- `trimmed` of this file: blanks are erased wherever they are. -/
def trimmed : Bytes → Bytes
  | [] => []
  | c :: str => if c = 32 ∨ c = 9 ∨ c = 10 then trimmed str else c :: trimmed str

/-- What `stop_app` makes of the file. -/
inductive StopResult
  /-- "The server is not running." -/
  | notRunning
  /-- "PID error, server may have stopped. (auto rm pid-file)" -/
  | pidError
  /-- `kill(pid, SIGTERM)`. -/
  | signal (pid : ℤ)
  deriving DecidableEq

/-- `stop_app` from the reading on. -/
def stopApp (m : DataModel) (content : Bytes) : StopResult :=
  let buf := content.take 1024
  -- the buffer is zeroed, so that an empty file leaves '\0' in front
  if buf.head?.getD 0 = 0 then .notRunning
  else
    let pid := (stoi32 m (trimmed (cStr buf)) 10).toInt
    if pid < 1 then .pidError else .signal pid

/-! ## The processes -/

/-- Where a process is; `fd` is the file that it has open. -/
inductive LockPlace
  /-- Not in one of the functions; also when it has ended, and after it the next process with the number. -/
  | outside
  /-- `open` was called in `startup`. -/
  | opened (fd : ℕ)
  /-- `flock` has succeeded. -/
  | locked (fd : ℕ)
  /-- The number is written: the server runs. -/
  | serving (fd : ℕ)
  /-- `close` was called in `app_unlock`. -/
  | closed
  /-- `stop_app` has found the file and opened it. -/
  | finding (fd : ℕ)
  /-- `stop_app` has read the file. -/
  | told (buf : Bytes)
  deriving DecidableEq

namespace LockPlace

/-- The file that the process has opened as a server. -/
def fd : LockPlace → Option ℕ
  | .opened i | .locked i | .serving i => some i
  | _ => none

/-- The file that the process has locked. -/
def holds : LockPlace → Option ℕ
  | .locked i | .serving i => some i
  | _ => none

theorem fd_of_holds {w : LockPlace} {i : ℕ} (h : w.holds = some i) : w.fd = some i := by
  cases w <;> simp_all [fd, holds]

end LockPlace

/-- The files that are or were at the path, numbered in the order in which they were made, and the processes. -/
structure LockFile where
  /-- The file at the path. -/
  file : Option ℕ
  content : ℕ → Bytes
  /-- Who has the `flock` of a file. -/
  owner : ℕ → Option Pid
  /-- The next file. -/
  fresh : ℕ
  place : Pid → LockPlace

/-- What may happen next; `fd` is the descriptor that the call is given. -/
inductive LockEvent
  /-- `open(…, O_RDWR | O_CREAT | O_TRUNC)`. -/
  | openFile (p : Pid)
  /-- `flock(…, LOCK_EX | LOCK_NB)`, and the end of the process when it is refused. -/
  | flock (p : Pid) (fd : ℕ)
  /-- `write` of the number. -/
  | writePid (p : Pid) (fd : ℕ)
  /-- `close` in `app_unlock`. -/
  | close (p : Pid) (fd : ℕ)
  /-- `fs::remove` in `app_unlock`. -/
  | remove (p : Pid)
  /-- `stop_app` looks for the file and opens it. -/
  | find (p : Pid)
  /-- `file.read` in `stop_app`. -/
  | read (p : Pid) (fd : ℕ)
  /-- `stop_app` goes on with what it has read. -/
  | act (p : Pid) (buf : Bytes)
  /-- The process ends, wherever it is. -/
  | kill (p : Pid)
  deriving DecidableEq

namespace LockFile

/-- Before the first start. -/
def new : LockFile := ⟨none, fun _ => [], fun _ => none, 0, fun _ => .outside⟩

/-- A process goes on. -/
def move (s : LockFile) (p : Pid) (w : LockPlace) : LockFile := { s with place := Function.update s.place p w }

/-- A write at the start of a file; what was behind it stays. -/
def overwrite (content str : Bytes) : Bytes := str ++ content.drop str.length

def openFile (s : LockFile) (p : Pid) : LockFile :=
  match s.file with
  | some i => { s with content := Function.update s.content i [] }.move p (.opened i)
  | none =>
    { s with
      file := some s.fresh, content := Function.update s.content s.fresh [], fresh := s.fresh + 1 }.move p
      (.opened s.fresh)

def flock (s : LockFile) (p : Pid) (fd : ℕ) : LockFile :=
  match s.owner fd with
  | none => { s with owner := Function.update s.owner fd (some p) }.move p (.locked fd)
  -- "The server is running."
  | some _ => s.move p .outside

def writePid (s : LockFile) (p : Pid) (fd : ℕ) : LockFile :=
  { s with content := Function.update s.content fd (overwrite (s.content fd) p.text) }.move p (.serving fd)

def close (s : LockFile) (p : Pid) (fd : ℕ) : LockFile :=
  { s with owner := Function.update s.owner fd none }.move p .closed

def remove (s : LockFile) (p : Pid) : LockFile := { s with file := none }.move p .outside

def find (s : LockFile) (p : Pid) : LockFile :=
  match s.file with
  | some i => s.move p (.finding i)
  | none => s

def read (s : LockFile) (p : Pid) (fd : ℕ) : LockFile := s.move p (.told (s.content fd))

/-- A file without a process number is removed. -/
def act (m : DataModel) (s : LockFile) (p : Pid) (buf : Bytes) : LockFile :=
  match stopApp m buf with
  | .pidError => s.remove p
  | _ => s.move p .outside

/-- The file that the process has open is closed, and its lock with it. -/
def kill (s : LockFile) (p : Pid) : LockFile :=
  match (s.place p).holds with
  | some fd => { s with owner := Function.update s.owner fd none }.move p .outside
  | none => s.move p .outside

def Enabled (s : LockFile) : LockEvent → Prop
  | .openFile p | .find p => s.place p = .outside
  | .flock p fd => s.place p = .opened fd
  | .writePid p fd => s.place p = .locked fd
  | .close p fd => s.place p = .serving fd
  | .remove p => s.place p = .closed
  | .read p fd => s.place p = .finding fd
  | .act p buf => s.place p = .told buf
  | .kill p => s.place p ≠ .outside

/-- What an event does. -/
def next (m : DataModel) (s : LockFile) : LockEvent → LockFile
  | .openFile p => s.openFile p
  | .flock p fd => s.flock p fd
  | .writePid p fd => s.writePid p fd
  | .close p fd => s.close p fd
  | .remove p => s.remove p
  | .find p => s.find p
  | .read p fd => s.read p fd
  | .act p buf => s.act m p buf
  | .kill p => s.kill p

/-- All interleavings. -/
def system (m : DataModel) : System LockFile LockEvent where
  init := new
  Enabled := Enabled
  next := next m

instance (m : DataModel) (s : LockFile) (e : LockEvent) : Decidable ((system m).Enabled s e) := by
  show Decidable (Enabled s e)
  cases e <;> unfold Enabled <;> infer_instance

/-- The step removes the file at the path. -/
def Removes (m : DataModel) : LockEvent → Prop
  | .remove _ => True
  | .act _ buf => stopApp m buf = .pidError
  | _ => False

/-! ## Locks -/

/-- Who has a file locked, and that files which are open or at the path exist. -/
structure Inv (s : LockFile) : Prop where
  owner_iff (i : ℕ) (p : Pid) : s.owner i = some p ↔ (s.place p).holds = some i
  fd_lt (p : Pid) (i : ℕ) : (s.place p).fd = some i → i < s.fresh
  file_lt (i : ℕ) : s.file = some i → i < s.fresh

theorem inv_new : new.Inv where
  owner_iff _ _ := by simp [new, LockPlace.holds]
  fd_lt _ _ h := by simp [new, LockPlace.fd] at h
  file_lt _ h := by simp [new] at h

section Steps

variable {s : LockFile}

@[simp] theorem move_place_self (s : LockFile) (p : Pid) (w : LockPlace) : (s.move p w).place p = w :=
  Function.update_self ..

theorem move_place_of_ne (s : LockFile) {p q : Pid} (w : LockPlace) (h : q ≠ p) : (s.move p w).place q = s.place q :=
  Function.update_of_ne h ..

theorem move_place (s : LockFile) (p q : Pid) (w : LockPlace) :
    (s.move p w).place q = if q = p then w else s.place q := by
  split_ifs with h
  · rw [h, move_place_self]
  · exact s.move_place_of_ne w h

@[simp] theorem move_file (s : LockFile) (p : Pid) (w : LockPlace) : (s.move p w).file = s.file := rfl

@[simp] theorem move_content (s : LockFile) (p : Pid) (w : LockPlace) : (s.move p w).content = s.content := rfl

@[simp] theorem move_owner (s : LockFile) (p : Pid) (w : LockPlace) : (s.move p w).owner = s.owner := rfl

@[simp] theorem move_fresh (s : LockFile) (p : Pid) (w : LockPlace) : (s.move p w).fresh = s.fresh := rfl

theorem Inv.owner_fresh (h : s.Inv) : s.owner s.fresh = none := by
  cases howner : s.owner s.fresh with
  | none => rfl
  | some p =>
    have hlt := h.fd_lt p _ (LockPlace.fd_of_holds ((h.owner_iff _ p).mp howner))
    exact absurd hlt (lt_irrefl _)

/-- A process goes on and keeps what it has locked. -/
theorem Inv.move (h : s.Inv) {p : Pid} {w : LockPlace} (hholds : w.holds = (s.place p).holds)
    (hfd : ∀ i, w.fd = some i → i < s.fresh) : (s.move p w).Inv where
  owner_iff i q := by
    rw [move_owner, h.owner_iff, move_place]
    split_ifs with hq
    · rw [hq, hholds]
    · rfl
  fd_lt q i hi := by
    rw [move_place] at hi
    split_ifs at hi with hq
    · exact hfd i hi
    · exact h.fd_lt q i hi
  file_lt := h.file_lt

theorem Inv.withContent (h : s.Inv) (content : ℕ → Bytes) : ({ s with content } : LockFile).Inv :=
  ⟨h.owner_iff, h.fd_lt, h.file_lt⟩

theorem Inv.withoutFile (h : s.Inv) : ({ s with file := none } : LockFile).Inv where
  owner_iff := h.owner_iff
  fd_lt := h.fd_lt
  file_lt _ hi := by simp at hi

theorem Inv.withFresh (h : s.Inv) :
    ({ s with file := some s.fresh, fresh := s.fresh + 1 } : LockFile).Inv where
  owner_iff := h.owner_iff
  fd_lt p i hi := (h.fd_lt p i hi).trans (Nat.lt_succ_self _)
  file_lt i hi := by
    obtain rfl : s.fresh = i := by simpa using hi
    exact Nat.lt_succ_self _

theorem Inv.unlock (h : s.Inv) {p : Pid} {fd : ℕ} (hp : (s.place p).holds = some fd) {w : LockPlace}
    (hw : w.fd = none) : ({ s with owner := Function.update s.owner fd none }.move p w : LockFile).Inv where
  owner_iff i q := by
    have hno : w.holds ≠ some i := fun hw' => by simp [LockPlace.fd_of_holds hw'] at hw
    rw [move_place, move_owner]
    simp only [Function.update_apply]
    by_cases hq : q = p
    · subst hq
      by_cases hi : i = fd
      · simp [hi, hi ▸ hno]
      · simp only [hi, if_false, if_true, hno, iff_false, h.owner_iff, hp, Option.some.injEq]
        exact fun heq => hi heq.symm
    · by_cases hi : i = fd
      · subst hi
        have hother : (s.place q).holds ≠ some i := fun hq' => by
          have heq := (h.owner_iff i q).mpr hq'
          rw [(h.owner_iff i p).mpr hp, Option.some.injEq] at heq
          exact hq heq.symm
        simp [hq, hother]
      · simp only [hi, if_false, hq, h.owner_iff]
  fd_lt q i hi := by
    rw [move_place] at hi
    split_ifs at hi with hq
    · rw [hw] at hi
      cases hi
    · exact h.fd_lt q i hi
  file_lt := h.file_lt

/-- A process locks a file that nobody has locked. -/
theorem Inv.lock (h : s.Inv) {p : Pid} {fd : ℕ} (hp : s.place p = .opened fd) (hfree : s.owner fd = none) :
    ({ s with owner := Function.update s.owner fd (some p) }.move p (.locked fd) : LockFile).Inv where
  owner_iff i q := by
    rw [move_place, move_owner]
    simp only [Function.update_apply]
    by_cases hq : q = p
    · subst hq
      by_cases hi : i = fd
      · simp [hi, LockPlace.holds]
      · have hno := (h.owner_iff i q).not
        rw [hp] at hno
        simp only [hi, if_false, if_true]
        refine iff_of_false (hno.mpr (by simp [LockPlace.holds])) ?_
        simpa [LockPlace.holds] using fun heq => hi heq.symm
    · by_cases hi : i = fd
      · subst hi
        have hother : (s.place q).holds ≠ some i := fun hq' => by
          rw [(h.owner_iff i q).mpr hq'] at hfree
          cases hfree
        simpa [hq, hother] using fun heq : p = q => hq heq.symm
      · simp only [hi, if_false, hq, h.owner_iff]
  fd_lt q i hi := by
    rw [move_place] at hi
    split_ifs at hi with hq
    · exact h.fd_lt p i (by rw [hp]; exact hi)
    · exact h.fd_lt q i hi
  file_lt := h.file_lt

/-- **Every step keeps the locks apart.** -/
theorem Inv.next (m : DataModel) (h : s.Inv) {e : LockEvent} (he : Enabled s e) : (s.next m e).Inv := by
  cases e with
  | openFile p =>
    have hp : s.place p = .outside := he
    simp only [LockFile.next, openFile]
    split
    · rename_i i hfile
      refine (h.withContent _).move (by simp [hp, LockPlace.holds]) fun j hj => ?_
      obtain rfl : i = j := by simpa [LockPlace.fd] using hj
      exact h.file_lt i hfile
    · refine (h.withFresh.withContent _).move (by simp [hp, LockPlace.holds]) fun j hj => ?_
      obtain rfl : s.fresh = j := by simpa [LockPlace.fd] using hj
      exact Nat.lt_succ_self _
  | flock p fd =>
    have hp : s.place p = .opened fd := he
    simp only [LockFile.next, flock]
    split
    · rename_i hfree
      exact h.lock hp hfree
    · exact h.move (by simp [hp, LockPlace.holds]) (by simp [LockPlace.fd])
  | writePid p fd =>
    have hp : s.place p = .locked fd := he
    refine (h.withContent _).move (by simp [hp, LockPlace.holds]) fun j hj => h.fd_lt p j ?_
    rw [hp]
    exact hj
  | close p fd =>
    have hp : s.place p = .serving fd := he
    exact h.unlock (by rw [hp]; rfl) rfl
  | remove p =>
    have hp : s.place p = .closed := he
    exact h.withoutFile.move (by simp [hp, LockPlace.holds]) (by simp [LockPlace.fd])
  | find p =>
    have hp : s.place p = .outside := he
    simp only [LockFile.next, find]
    split
    · exact h.move (by simp [hp, LockPlace.holds]) (by simp [LockPlace.fd])
    · exact h
  | read p fd =>
    have hp : s.place p = .finding fd := he
    exact h.move (by simp [hp, LockPlace.holds]) (by simp [LockPlace.fd])
  | act p buf =>
    have hp : s.place p = .told buf := he
    simp only [LockFile.next, act]
    split
    · exact h.withoutFile.move (by simp [hp, LockPlace.holds]) (by simp [LockPlace.fd])
    · exact h.move (by simp [hp, LockPlace.holds]) (by simp [LockPlace.fd])
  | kill p =>
    simp only [LockFile.next, kill]
    split
    · rename_i fd hfd
      exact h.unlock hfd rfl
    · rename_i hnone
      exact h.move (by rw [hnone]; rfl) (by simp [LockPlace.fd])

end Steps

theorem inv_of_reachable {m : DataModel} {s : LockFile} (h : (system m).Reachable s) : s.Inv :=
  h.inv inv_new fun _ _ hs he => hs.next m he

/-! ## One server -/

/-- At most one process has locked a file of the path, now there or removed. -/
def Exclusive (s : LockFile) : Prop :=
  ∀ p q i j, (s.place p).holds = some i → (s.place q).holds = some j → p = q

/-- Whoever has opened the lock file has the file that is at the path. -/
def Linked (s : LockFile) : Prop := ∀ p i, (s.place p).fd = some i → s.file = some i

/-- The file is removed only when no process has it open. -/
def Safe (m : DataModel) (s : LockFile) (e : LockEvent) : Prop := Removes m e → ∀ q, (s.place q).fd = none

theorem linked_new : new.Linked := fun _ _ h => by simp [new, LockPlace.fd] at h

section OneServer

variable {m : DataModel} {s : LockFile}

theorem Linked.exclusive (h : s.Linked) (hinv : s.Inv) : s.Exclusive := by
  intro p q i j hp hq
  have hi := h p i (LockPlace.fd_of_holds hp)
  have hj := h q j (LockPlace.fd_of_holds hq)
  obtain rfl : i = j := by
    rw [hi] at hj
    exact Option.some.inj hj
  have howner := (hinv.owner_iff i p).mpr hp
  rw [(hinv.owner_iff i q).mpr hq] at howner
  exact (Option.some.inj howner).symm

/-- A process goes on with the file that it has, or with none. -/
theorem Linked.move (h : s.Linked) {p : Pid} {w : LockPlace} (hw : ∀ i, w.fd = some i → s.file = some i) :
    (s.move p w).Linked := by
  intro q i hi
  rw [move_place] at hi
  split_ifs at hi with hq
  · exact hw i hi
  · exact h q i hi

theorem linked_remove_iff {p : Pid} (hp : (s.place p).fd = none) :
    (s.remove p).Linked ↔ ∀ q, (s.place q).fd = none := by
  have hplace (q : Pid) : ((s.remove p).place q).fd = (s.place q).fd := by
    rw [remove, move_place]
    split_ifs with hq
    · rw [hq, hp]
      rfl
    · rfl
  constructor
  · intro h q
    cases hfd : (s.place q).fd with
    | none => rfl
    | some i =>
      have hfile := h q i (by rw [hplace, hfd])
      simp [remove] at hfile
  · intro h q i hi
    rw [hplace, h q] at hi
    cases hi

/-- **What a step does to the file at the path.** -/
theorem linked_next_iff (h : s.Linked) {e : LockEvent} (he : Enabled s e) :
    Safe m s e ↔ (s.next m e).Linked := by
  cases e with
  | openFile p =>
    have hp : s.place p = .outside := he
    refine iff_of_true (fun hno => hno.elim) ?_
    simp only [LockFile.next, openFile]
    split
    · rename_i i hfile
      exact Linked.move (s := { s with content := _ }) h fun j hj => hfile.trans hj
    · rename_i hnone
      -- nobody has a file open when there is none at the path
      have hclosed (q : Pid) (j : ℕ) (hj : (s.place q).fd = some j) : False := by simp [h q j hj] at hnone
      have hfresh : ({ s with
          file := some s.fresh, content := Function.update s.content s.fresh [], fresh := s.fresh + 1 } :
          LockFile).Linked := fun q j hj => (hclosed q j hj).elim
      exact hfresh.move fun j hj => hj
  | flock p fd =>
    have hp : s.place p = .opened fd := he
    refine iff_of_true (fun hno => hno.elim) ?_
    simp only [LockFile.next, flock]
    split
    · exact Linked.move (s := { s with owner := _ }) h fun j hj => h p j (by rw [hp]; exact hj)
    · exact h.move fun j hj => by simp [LockPlace.fd] at hj
  | writePid p fd =>
    have hp : s.place p = .locked fd := he
    refine iff_of_true (fun hno => hno.elim) ?_
    exact Linked.move (s := { s with content := _ }) h fun j hj => h p j (by rw [hp]; exact hj)
  | close p fd =>
    refine iff_of_true (fun hno => hno.elim) ?_
    exact Linked.move (s := { s with owner := _ }) h fun j hj => by simp [LockPlace.fd] at hj
  | remove p =>
    have hp : s.place p = .closed := he
    rw [LockFile.next, linked_remove_iff (by rw [hp]; rfl)]
    exact ⟨fun hsafe => hsafe trivial, fun hall _ => hall⟩
  | find p =>
    refine iff_of_true (fun hno => hno.elim) ?_
    simp only [LockFile.next, find]
    split
    · exact h.move fun j hj => by simp [LockPlace.fd] at hj
    · exact h
  | read p fd =>
    refine iff_of_true (fun hno => hno.elim) ?_
    exact h.move fun j hj => by simp [LockPlace.fd] at hj
  | act p buf =>
    have hp : s.place p = .told buf := he
    simp only [LockFile.next, act, Safe, Removes]
    split
    · rename_i herror
      rw [linked_remove_iff (by rw [hp]; rfl)]
      exact ⟨fun hsafe => hsafe herror, fun hall _ => hall⟩
    · rename_i hother
      exact iff_of_true (fun herror => (hother herror).elim) (h.move fun j hj => by simp [LockPlace.fd] at hj)
  | kill p =>
    refine iff_of_true (fun hno => hno.elim) ?_
    simp only [LockFile.next, kill]
    split
    · exact Linked.move (s := { s with owner := _ }) h fun j hj => by simp [LockPlace.fd] at hj
    · exact h.move fun j hj => by simp [LockPlace.fd] at hj

/-- **Runs that remove the file only when no process has it open.** -/
theorem safe_run_iff (es : List LockEvent) (s : LockFile) :
    ((system m).restrict (Safe m)).Run new es s ↔ ((system m).keeping Linked).Run new es s := by
  have hiff : ∀ s e, s.Inv ∧ s.Linked → (system m).Enabled s e → (Safe m s e ↔ ((system m).next s e).Linked) :=
    fun s e h he => linked_next_iff h.2 he
  exact System.restrict_run_iff hiff (fun s e h he hok => ⟨h.1.next m he, (hiff s e h he).mp hok⟩)
    ⟨inv_new, linked_new⟩ es s

/-- A process that has locked its file writes its number. -/
theorem exists_serving {p : Pid} {i : ℕ} (h : (s.place p).holds = some i) :
    ∃ es s', (system m).Run s es s' ∧ s'.place p = .serving i ∧ s'.file = s.file ∧
      ∀ q, q ≠ p → s'.place q = s.place q := by
  cases hp : s.place p with
  | locked fd =>
    obtain rfl : fd = i := by simpa [hp, LockPlace.holds] using h
    have hstep : (system m).Enabled s (.writePid p fd) := hp
    exact ⟨_, _, (System.Run.nil s).snoc hstep, by simp [system, LockFile.next, writePid], rfl,
      fun q hq => move_place_of_ne _ _ hq⟩
  | serving fd =>
    obtain rfl : fd = i := by simpa [hp, LockPlace.holds] using h
    exact ⟨[], s, .nil s, hp, rfl, fun _ _ => rfl⟩
  | outside | opened _ | closed | finding _ | told _ => simp [hp, LockPlace.holds] at h

/-- A file that a process has opened is locked by some process, or will be. -/
theorem exists_holder (hinv : s.Inv) {q : Pid} {i : ℕ} (hq : (s.place q).fd = some i) :
    ∃ es s' h, (system m).Run s es s' ∧ (s'.place h).holds = some i ∧ s'.file = s.file ∧
      ∀ r, s.place r = .outside → s'.place r = .outside := by
  cases howner : s.owner i with
  | some h => exact ⟨[], s, h, .nil s, (hinv.owner_iff i h).mp howner, rfl, fun _ hr => hr⟩
  | none =>
    have hno : (s.place q).holds ≠ some i := fun hholds => by simp [(hinv.owner_iff i q).mpr hholds] at howner
    have hplace : s.place q = .opened i := by
      cases hp : s.place q with
      | opened fd => simpa [hp, LockPlace.fd] using hq
      | locked fd | serving fd => simp_all [LockPlace.fd, LockPlace.holds]
      | outside | closed | finding _ | told _ => simp [hp, LockPlace.fd] at hq
    have hstep : (system m).Enabled s (.flock q i) := hplace
    have hnext : (system m).next s (.flock q i) =
        { s with owner := Function.update s.owner i (some q) }.move q (.locked i) := by
      simp [system, LockFile.next, flock, howner]
    refine ⟨_, _, q, (System.Run.nil s).snoc hstep, ?_, ?_, fun r hr => ?_⟩
    · rw [hnext, move_place_self]
      rfl
    · rw [hnext, move_file]
    · have hne : r ≠ q := by
        rintro rfl
        rw [hr] at hplace
        cases hplace
      rw [hnext, move_place_of_ne _ _ hne]
      exact hr

/-- Without a file at the path a start makes a server. -/
theorem exists_start (hinv : s.Inv) (hfile : s.file = none) {r : Pid} (hr : s.place r = .outside) :
    ∃ es s' j, (system m).Run s es s' ∧ s'.place r = .serving j ∧ ∀ q, q ≠ r → s'.place q = s.place q := by
  set s₁ : LockFile := s.openFile r with hs₁
  have hopen : s₁ = { s with
      file := some s.fresh, content := Function.update s.content s.fresh [], fresh := s.fresh + 1 }.move r
      (.opened s.fresh) := by
    rw [hs₁, openFile, hfile]
  have hfree : s₁.owner s.fresh = none := by
    rw [hopen, move_owner]
    exact hinv.owner_fresh
  set s₂ : LockFile := s₁.flock r s.fresh with hs₂
  have hlock : s₂ = { s₁ with owner := Function.update s₁.owner s.fresh (some r) }.move r (.locked s.fresh) := by
    rw [hs₂, flock, hfree]
  have hrun₁ : (system m).Run s [.openFile r] s₁ := (System.Run.nil s).snoc (e := LockEvent.openFile r) hr
  have hrun₂ : (system m).Run s [.openFile r, .flock r s.fresh] s₂ :=
    hrun₁.snoc (e := LockEvent.flock r s.fresh) (show s₁.place r = .opened s.fresh by rw [hopen, move_place_self])
  have hrun₃ : (system m).Run s [.openFile r, .flock r s.fresh, .writePid r s.fresh] (s₂.writePid r s.fresh) :=
    hrun₂.snoc (e := LockEvent.writePid r s.fresh) (show s₂.place r = .locked s.fresh by rw [hlock, move_place_self])
  refine ⟨_, _, s.fresh, hrun₃, move_place_self .., fun q hq => ?_⟩
  rw [writePid, move_place_of_ne _ _ hq]
  show s₂.place q = _
  rw [hlock, move_place_of_ne _ _ hq]
  show s₁.place q = _
  rw [hopen, move_place_of_ne _ _ hq]

theorem file_of_removes {e : LockEvent} (h : Removes m e) : (s.next m e).file = none := by
  cases e with
  | remove p => rfl
  | act p buf =>
    have herror : stopApp m buf = .pidError := h
    simp [LockFile.next, act, herror, remove]
  | openFile | flock | writePid | close | find | read | kill => exact h.elim

/-- Whoever removes the file has not opened it as a server. -/
theorem fd_of_removes {e : LockEvent} (he : Enabled s e) (h : Removes m e) (q : Pid) :
    ((s.next m e).place q).fd = (s.place q).fd ∧ (s.place q = .outside → (s.next m e).place q = .outside) := by
  have hremove (p : Pid) (hp : (s.place p).fd = none) : ((s.remove p).place q).fd = (s.place q).fd ∧
      (s.place q = .outside → (s.remove p).place q = .outside) := by
    rw [remove, move_place]
    split_ifs with hq
    · rw [hq, hp]
      exact ⟨rfl, fun _ => rfl⟩
    · exact ⟨rfl, id⟩
  cases e with
  | remove p =>
    have hp : s.place p = .closed := he
    exact hremove p (by rw [hp]; rfl)
  | act p buf =>
    have hp : s.place p = .told buf := he
    have herror : stopApp m buf = .pidError := h
    simp only [LockFile.next, act, herror]
    exact hremove p (by rw [hp]; rfl)
  | openFile | flock | writePid | close | find | read | kill => exact h.elim

/-- A removal under a process that has the file open lets another one start beside it. -/
theorem twoServers_of_removes (hinv : s.Inv) {e : LockEvent} (he : Enabled s e) (hremoves : Removes m e)
    {q : Pid} {i : ℕ} (hq : (s.place q).fd = some i) {r : Pid} (hr : s.place r = .outside) :
    ∃ es s', (system m).Run (s.next m e) es s' ∧
      ∃ p i j, p ≠ r ∧ s'.place p = .serving i ∧ s'.place r = .serving j := by
  have hplace := fd_of_removes (m := m) he hremoves
  have hfile := file_of_removes (s := s) hremoves
  obtain ⟨es₁, s₁, p, hrun₁, hp₁, hfile₁, hout₁⟩ :=
    exists_holder (m := m) (hinv.next m he) (q := q) (i := i) (by rw [(hplace q).1, hq])
  obtain ⟨es₂, s₂, hrun₂, hp₂, hfile₂, hother₂⟩ := exists_serving (m := m) hp₁
  have hne : r ≠ p := by
    rintro rfl
    simp [hout₁ r ((hplace r).2 hr), LockPlace.holds] at hp₁
  have hr₂ : s₂.place r = .outside := by rw [hother₂ r hne, hout₁ r ((hplace r).2 hr)]
  have hinv₂ : s₂.Inv :=
    (hrun₁.trans hrun₂).inv (P := Inv) (fun _ _ hs he => hs.next m he) (hinv.next m he)
  obtain ⟨es₃, s₃, j, hrun₃, hr₃, hother₃⟩ :=
    exists_start (m := m) hinv₂ (by rw [hfile₂, hfile₁, hfile]) hr₂
  exact ⟨_, s₃, (hrun₁.trans hrun₂).trans hrun₃, p, i, j, hne.symm, by rw [hother₃ p hne.symm, hp₂], hr₃⟩

/-- **One server.**  While the lock file is removed only when no process has it open, at most one process has locked
it, and has the file that is at the path; the first other removal lets any process that is not running yet become a
second server. -/
theorem oneServer_safe (m : DataModel) :
    (∀ es s, ((system m).restrict (Safe m)).Run new es s → s.Exclusive ∧ s.Linked) ∧
      ∀ s e r, ((system m).restrict (Safe m)).Reachable s → Enabled s e → ¬ Safe m s e → s.place r = .outside →
        ∃ es s', (system m).Run (s.next m e) es s' ∧
          ∃ p i j, p ≠ r ∧ s'.place p = .serving i ∧ s'.place r = .serving j := by
  constructor
  · intro es s hrun
    have hinv : s.Inv :=
      hrun.inv (P := Inv) (fun s e hs (he : Enabled s e ∧ Safe m s e) => hs.next m he.1) inv_new
    have hlinked : s.Linked := System.keeping_reachable linked_new ⟨es, (safe_run_iff es s).mp hrun⟩
    exact ⟨hlinked.exclusive hinv, hlinked⟩
  · intro s e r hreach he hunsafe hr
    have hinv : s.Inv :=
      System.Reachable.inv (S := (system m).restrict (Safe m)) inv_new
        (fun s e hs (he : Enabled s e ∧ Safe m s e) => hs.next m he.1) hreach
    simp only [Safe, Classical.not_imp, not_forall] at hunsafe
    obtain ⟨hremoves, q, hq⟩ := hunsafe
    obtain ⟨i, hi⟩ := Option.ne_none_iff_exists'.mp hq
    exact twoServers_of_removes hinv he hremoves hi hr

end OneServer

def first : Pid := ⟨7, by decide, by decide⟩

def second : Pid := ⟨9, by decide, by decide⟩

def third : Pid := ⟨11, by decide, by decide⟩

/-- The second process has opened the file of the first one, which closes it. -/
def overlapping : List LockEvent :=
  [.openFile first, .flock first 0, .writePid first 0, .openFile second, .close first 0]

theorem exists_overlapping : ∃ s, ((system .lp64).restrict (Safe .lp64)).Reachable s ∧
    s.place first = .closed ∧ s.place second = .opened 0 ∧ s.place third = .outside := by
  have hrun := System.run_of_replay (show (system .lp64).replay new overlapping = some _ from rfl)
  exact ⟨_, ⟨overlapping, hrun.restrict (by simp [overlapping, Safe, Removes])⟩, rfl, rfl, rfl⟩

/-- The first process removes the file, the second one locks it, and the third one makes another. -/
theorem oneServer_safe_overlapping : ∃ (s s' : LockFile) (es : List LockEvent), (system .lp64).Run s es s' ∧
    ∃ p q i j, p ≠ q ∧ s'.place p = .serving i ∧ s'.place q = .serving j := by
  obtain ⟨s, hreach, hclosed, hopened, hout⟩ := exists_overlapping
  have hunsafe : ¬ Safe .lp64 s (.remove first) := fun hsafe => by
    simpa [hopened, LockPlace.fd] using hsafe trivial second
  obtain ⟨es, s', hrun, p, i, j, hne, hp, hr⟩ :=
    (oneServer_safe .lp64).2 s (.remove first) third hreach hclosed hunsafe hout
  exact ⟨_, s', es, hrun, p, _, i, j, hne, hp, hr⟩

/-! ## What `stop` finds -/

theorem digits_text (p : Pid) : ∀ c ∈ p.text, digitVal c < 10 := by
  have hpos : ¬ (p.number : ℤ) < 0 := by omega
  intro c hc
  rw [Pid.text, formatInt, if_neg hpos, Int.natAbs_natCast] at hc
  exact digitVal_lt_of_mem_formatNat (by decide) (by decide) p.number c hc

theorem text_ne_nil (p : Pid) : p.text ≠ [] := by
  have hpos : ¬ (p.number : ℤ) < 0 := by omega
  rw [Pid.text, formatInt, if_neg hpos]
  exact formatNat_ne_nil _

theorem length_text_le (p : Pid) : p.text.length ≤ 10 := by
  have hpos : ¬ (p.number : ℤ) < 0 := by omega
  have hlt : p.number < 10 ^ 10 := p.lt.trans_le (by decide)
  rw [Pid.text, formatInt, if_neg hpos, Int.natAbs_natCast]
  exact length_formatNat_le (by decide) (by decide) hlt

theorem trimmed_of_digits {str : Bytes} (h : ∀ c ∈ str, digitVal c < 10) : trimmed str = str := by
  induction str with
  | nil => rfl
  | cons c str ih =>
    have hblank : ¬ (c = 32 ∨ c = 9 ∨ c = 10) := by
      have hdigit := h c (List.mem_cons_self ..)
      rintro (rfl | rfl | rfl) <;> exact absurd hdigit (by decide)
    rw [trimmed, if_neg hblank, ih fun d hd => h d (List.mem_cons_of_mem _ hd)]

/-- **The number comes back.** -/
theorem stopApp_text (m : DataModel) (p : Pid) : stopApp m p.text = .signal p.number := by
  have hint : (IntType.cast m .int p.number).toInt = (p.number : ℤ) := by
    have hlt := p.lt
    refine IntType.toInt_cast_of_mem ?_ ?_
    · simp only [IntType.min, IntType.isSigned, IntType.half, IntType.lowBits, if_true]
      omega
    · simp only [IntType.max, IntType.isSigned, IntType.half, IntType.lowBits, if_true]
      omega
  have hback : (stoi32 m p.text 10).toInt = p.number := by
    have hget := Value.get_ofInteger m .int (IntType.cast m .int p.number)
    rw [Value.get, Value.ofInteger, hint] at hget
    rw [Pid.text, hget, hint]
  have hzero : p.text.head?.getD 0 ≠ 0 := by
    obtain ⟨c, str, htext⟩ := List.exists_cons_of_ne_nil (text_ne_nil p)
    have hdigit := digits_text p c (by rw [htext]; exact List.mem_cons_self ..)
    rw [htext]
    rintro (rfl : c = 0)
    exact absurd hdigit (by decide)
  have hcstr : cStr p.text = p.text := cStr_formatInt _
  have hlen : p.text.length ≤ 1024 := (length_text_le p).trans (by decide)
  have hpos : ¬ (p.number : ℤ) < 1 := by
    have := p.pos
    omega
  simp only [stopApp, List.take_of_length_le hlen, if_neg hzero, hcstr,
    trimmed_of_digits (digits_text p), hback, if_neg hpos]

theorem stopApp_nil (m : DataModel) : stopApp m [] = .notRunning := rfl

theorem overwrite_of_length_le {content str : Bytes} (h : content.length ≤ str.length) :
    overwrite content str = str := by
  rw [overwrite, List.drop_of_length_le h, List.append_nil]

/-- The process goes on as a server, and nobody removes the file. -/
def Stays (m : DataModel) (p : Pid) (e : LockEvent) : Prop :=
  ¬ Removes m e ∧ e ≠ .kill p ∧ ∀ fd, e ≠ .close p fd

/-- A start begins. -/
def Opens (e : LockEvent) : Prop := ∃ q, e = .openFile q

section Stop

variable {m : DataModel} {s : LockFile} {p : Pid} {i : ℕ}

/-- What a step leaves of the file of a server: only a start touches it. -/
theorem content_next (hinv : s.Inv) (hp : s.place p = .serving i) (hfile : s.file = some i) {e : LockEvent}
    (he : Enabled s e) (hstays : Stays m p e) :
    (s.next m e).place p = .serving i ∧ (s.next m e).file = some i ∧
      (Opens e → (s.next m e).content i = []) ∧ (¬ Opens e → (s.next m e).content i = s.content i) := by
  -- the steps that move another process and leave the files alone
  have hmove (q : Pid) (w : LockPlace) (hq : q ≠ p) (owner : ℕ → Option Pid) :
      ({ s with owner }.move q w).place p = .serving i ∧ ({ s with owner }.move q w).file = some i ∧
        ({ s with owner }.move q w).content i = s.content i :=
    ⟨by rw [move_place_of_ne _ _ hq.symm, hp], hfile, rfl⟩
  have hother {q : Pid} {w : LockPlace} (hq : s.place q = w) (hw : w ≠ .serving i) : q ≠ p := by
    rintro rfl
    exact hw (hq.symm.trans hp)
  cases e with
  | openFile q =>
    have hq : q ≠ p := hother (show s.place q = .outside from he) (by simp)
    have hnext : s.next m (.openFile q) =
        { s with content := Function.update s.content i [] }.move q (.opened i) := by
      simp only [LockFile.next, openFile, hfile]
    rw [hnext]
    refine ⟨by rw [move_place_of_ne _ _ hq.symm, hp], hfile, fun _ => Function.update_self ..,
      fun hno => absurd ⟨q, rfl⟩ hno⟩
  | flock q fd =>
    have hq : q ≠ p := hother (show s.place q = .opened fd from he) (by simp)
    have hno : ¬ Opens (.flock q fd) := by simp [Opens]
    simp only [LockFile.next, flock]
    split
    · exact ⟨(hmove q _ hq _).1, (hmove q _ hq _).2.1, fun h => absurd h hno, fun _ => rfl⟩
    · exact ⟨(hmove q _ hq s.owner).1, (hmove q _ hq s.owner).2.1, fun h => absurd h hno, fun _ => rfl⟩
  | writePid q fd =>
    have hplace : s.place q = .locked fd := he
    have hq : q ≠ p := hother hplace (by simp)
    have hno : ¬ Opens (.writePid q fd) := by simp [Opens]
    -- the other process has locked another file
    have hfd : i ≠ fd := by
      rintro rfl
      have howner := (hinv.owner_iff i p).mpr (by rw [hp]; rfl)
      rw [(hinv.owner_iff i q).mpr (by rw [hplace]; rfl)] at howner
      exact hq (Option.some.inj howner)
    refine ⟨?_, hfile, fun h => absurd h hno, fun _ => Function.update_of_ne hfd ..⟩
    rw [LockFile.next, writePid, move_place_of_ne _ _ hq.symm, hp]
  | close q fd =>
    have hq : q ≠ p := by
      rintro rfl
      exact hstays.2.2 fd rfl
    have hno : ¬ Opens (.close q fd) := by simp [Opens]
    exact ⟨(hmove q _ hq _).1, (hmove q _ hq _).2.1, fun h => absurd h hno, fun _ => rfl⟩
  | remove q => exact absurd trivial hstays.1
  | find q =>
    have hq : q ≠ p := hother (show s.place q = .outside from he) (by simp)
    have hno : ¬ Opens (.find q) := by simp [Opens]
    simp only [LockFile.next, find, hfile]
    exact ⟨(hmove q _ hq s.owner).1, hfile, fun h => absurd h hno, fun _ => rfl⟩
  | read q fd =>
    have hq : q ≠ p := hother (show s.place q = .finding fd from he) (by simp)
    have hno : ¬ Opens (.read q fd) := by simp [Opens]
    exact ⟨(hmove q _ hq s.owner).1, hfile, fun h => absurd h hno, fun _ => rfl⟩
  | act q buf =>
    have hq : q ≠ p := hother (show s.place q = .told buf from he) (by simp)
    have hno : ¬ Opens (.act q buf) := by simp [Opens]
    simp only [LockFile.next, act]
    split
    · rename_i herror
      exact absurd herror hstays.1
    · exact ⟨(hmove q _ hq s.owner).1, hfile, fun h => absurd h hno, fun _ => rfl⟩
  | kill q =>
    have hq : q ≠ p := by
      rintro rfl
      exact hstays.2.1 rfl
    have hno : ¬ Opens (.kill q) := by simp [Opens]
    simp only [LockFile.next, kill]
    split
    · exact ⟨(hmove q _ hq _).1, (hmove q _ hq _).2.1, fun h => absurd h hno, fun _ => rfl⟩
    · exact ⟨(hmove q _ hq s.owner).1, hfile, fun h => absurd h hno, fun _ => rfl⟩

/-- **What the file of a server holds**: its number until the first start, and nothing from then on. -/
theorem content_run (hinv : s.Inv) (hp : s.place p = .serving i) (hfile : s.file = some i)
    (htext : s.content i = p.text) {es : List LockEvent} {s' : LockFile}
    (hrun : ((system m).restrict fun _ => Stays m p).Run s es s') :
    (s'.Inv ∧ s'.place p = .serving i ∧ s'.file = some i) ∧
      ((∀ e ∈ es, ¬ Opens e) → s'.content i = p.text) ∧ ((∃ e ∈ es, Opens e) → s'.content i = []) := by
  induction hrun with
  | nil => exact ⟨⟨hinv, hp, hfile⟩, fun _ => htext, fun ⟨_, hno, _⟩ => by simp at hno⟩
  | @snoc s' es e _ he ih =>
    obtain ⟨⟨hinv', hp', hfile'⟩, hkept, hempty⟩ := ih
    obtain ⟨hplace, hsame, hopens, hrest⟩ := content_next hinv' hp' hfile' he.1 he.2
    refine ⟨⟨hinv'.next m he.1, hplace, hsame⟩, fun hnone => ?_, fun hsome => ?_⟩
    · have hlast : ¬ Opens e := hnone e (by simp)
      exact (hrest hlast).trans (hkept fun e' he' => hnone e' (List.mem_append_left _ he'))
    · by_cases hlast : Opens e
      · exact hopens hlast
      · obtain ⟨e', he', hopen⟩ := hsome
        refine (hrest hlast).trans (hempty ⟨e', ?_, hopen⟩)
        rcases List.mem_append.mp he' with hmem | hmem
        · exact hmem
        · obtain rfl : e' = e := by simpa using hmem
          exact absurd hopen hlast

/-- **Stopping a server.**  From the moment a server has written its number, over no longer one, and while it runs and
nobody removes the file, `stop` signals that server exactly until somebody tries to start another one; after that it
answers that no server is running. -/
theorem stopApp_iff (hs : (system m).Reachable s) (hp : s.place p = .locked i) (hfile : s.file = some i)
    (hshort : (s.content i).length ≤ p.text.length) {es : List LockEvent} {s' : LockFile}
    (hrun : ((system m).restrict fun _ => Stays m p).Run (s.writePid p i) es s') :
    s'.file = some i ∧ (stopApp m (s'.content i) = .signal p.number ↔ ∀ q, LockEvent.openFile q ∉ es) ∧
      (stopApp m (s'.content i) = .notRunning ↔ ∃ q, LockEvent.openFile q ∈ es) := by
  have hinv : (s.writePid p i).Inv := (inv_of_reachable hs).next m (e := LockEvent.writePid p i) hp
  have htext : (s.writePid p i).content i = p.text :=
    (Function.update_self ..).trans (overwrite_of_length_le hshort)
  obtain ⟨⟨-, -, hfile'⟩, hkept, hempty⟩ := content_run hinv (move_place_self ..) hfile htext hrun
  by_cases hopen : ∃ q, LockEvent.openFile q ∈ es
  · obtain ⟨q, hq⟩ := hopen
    rw [hempty ⟨_, hq, q, rfl⟩, stopApp_nil]
    exact ⟨hfile', iff_of_false (by simp) fun hno => hno q hq, iff_of_true rfl ⟨q, hq⟩⟩
  · have hnone : ∀ e ∈ es, ¬ Opens e := by
      rintro e he ⟨q, rfl⟩
      exact hopen ⟨q, he⟩
    rw [hkept hnone, stopApp_text]
    exact ⟨hfile', iff_of_true rfl fun q hq => hopen ⟨q, hq⟩, iff_of_false (by simp) hopen⟩

/-- The first process is about to write its number. -/
def started : LockFile := (new.openFile first).flock first 0

/-- The second process is refused, and `stop` does not find the first one any more. -/
theorem stopApp_iff_refused : ∃ s, ((system .lp64).restrict fun _ => Stays .lp64 first).Run (started.writePid first 0)
    [.openFile second, .flock second 0] s ∧ stopApp .lp64 (s.content 0) = .notRunning := by
  have hstart : (system .lp64).Reachable started :=
    ⟨[.openFile first, .flock first 0], System.run_of_replay rfl⟩
  have hrun : (system .lp64).Run (started.writePid first 0) [.openFile second, .flock second 0]
      (((started.writePid first 0).openFile second).flock second 0) := System.run_of_replay rfl
  have hrefused : ((system .lp64).restrict fun _ => Stays .lp64 first).Run _ _ _ :=
    hrun.restrict (by simp [Stays, Removes])
  exact ⟨_, hrefused, (stopApp_iff hstart rfl rfl (by decide) hrefused).2.2.mpr ⟨second, by simp⟩⟩

end Stop

end LockFile

end Gts3.Cmdline
