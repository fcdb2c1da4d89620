import Gts3.Lib.Transition
import Mathlib.Data.List.Basic
import Mathlib.Algebra.Order.Ring.Nat

/-!
# `gts/rw_mutex.h`: the reader-writer lock

A state of the lock is its three fields, and beside them which threads have acquired it.  `lock_shared` takes the
inner mutex only when there is a writer, so it keeps nobody from `lock`, and the last reader unlocks a mutex that it
does not hold.  `rwMutex_run_iff` says in which runs none of this goes wrong.
-/

namespace Gts3

open Lib.Transition

/-! ## The lock -/

/-- `basic_rw_mutex` with the thread that holds `m_mutex`; the threads that have acquired the lock, and whether a
thread has unlocked `m_mutex` without holding it. -/
structure RwMutex (T : Type) where
  reader : ℕ
  writer : Bool
  owner : Option T
  readers : List T
  writers : List T
  foreignUnlock : Bool
  deriving DecidableEq

namespace RwMutex

variable {T : Type} [DecidableEq T]

/-- A lock that nobody has acquired. -/
def new : RwMutex T := ⟨0, false, none, [], [], false⟩

/-- `m_mutex.unlock()` of a thread. -/
def mutexUnlock (s : RwMutex T) (t : T) : RwMutex T :=
  { s with owner := none, foreignUnlock := s.foreignUnlock || s.owner ≠ some t }

/-- `m_reader++`, in 32 bits. -/
def addReader (s : RwMutex T) (t : T) : RwMutex T :=
  { s with reader := (s.reader + 1) % 2 ^ 32, readers := t :: s.readers }

/-- `lock_shared`, once it can go on. -/
def lockShared (s : RwMutex T) (t : T) : RwMutex T :=
  addReader (if s.writer then { s with owner := some t } else s) t

/-- `try_lock_shared`. -/
def tryLockShared (s : RwMutex T) (t : T) : RwMutex T := if s.writer then s else s.addReader t

/-- `lock`, once it can go on. -/
def lock (s : RwMutex T) (t : T) : RwMutex T := { s with owner := some t, writer := true, writers := t :: s.writers }

/-- `try_lock`. -/
def tryLock (s : RwMutex T) (t : T) : RwMutex T := if s.owner = none then s.lock t else s

/-- `unlock`. -/
def unlock (s : RwMutex T) (t : T) : RwMutex T :=
  if s.writer then mutexUnlock { s with writer := false } t
  else if s.reader > 0 then
    if s.reader - 1 = 0 then mutexUnlock { s with reader := s.reader - 1 } t else { s with reader := s.reader - 1 }
  else s

/-! ## Steps -/

/-- What a thread does; an `unlock` gives back a shared lock or an exclusive one. -/
inductive Event (T : Type)
  | lockShared (t : T)
  | tryLockShared (t : T)
  | lock (t : T)
  | tryLock (t : T)
  | unlockShared (t : T)
  | unlock (t : T)
  deriving DecidableEq

/-- A thread blocks in `m_mutex.lock()` while the mutex is held, and gives back only what it has acquired. -/
def Enabled (s : RwMutex T) : Event T → Prop
  | .lockShared _ => s.writer = true → s.owner = none
  | .lock _ => s.owner = none
  | .tryLockShared _ | .tryLock _ => True
  | .unlockShared t => t ∈ s.readers
  | .unlock t => t ∈ s.writers

instance (s : RwMutex T) (e : Event T) : Decidable (s.Enabled e) := by
  cases e <;> unfold Enabled <;> infer_instance

/-- What becomes of the lock. -/
def next (s : RwMutex T) : Event T → RwMutex T
  | .lockShared t => s.lockShared t
  | .tryLockShared t => s.tryLockShared t
  | .lock t => s.lock t
  | .tryLock t => s.tryLock t
  | .unlockShared t => { s.unlock t with readers := s.readers.erase t }
  | .unlock t => { s.unlock t with writers := s.writers.erase t }

variable (T) in
/-- The lock and its threads, in every order of steps. -/
def system : System (RwMutex T) (Event T) := ⟨new, Enabled, next⟩

instance (s : RwMutex T) (e : Event T) : Decidable ((system T).Enabled s e) := inferInstanceAs (Decidable (s.Enabled e))

/-! ## What a lock is for -/

/-- **Exclusion**: a writer is alone, and nobody has unlocked a mutex that it does not hold. -/
structure Exclusive (s : RwMutex T) : Prop where
  writers : s.writers.length ≤ 1
  readers : s.writers ≠ [] → s.readers = []
  unlock : s.foreignUnlock = false

/-- A writer does not come in beside readers, and no reader is the last one to leave. -/
def Apart (s : RwMutex T) : Event T → Prop
  | .lock _ => s.readers = []
  | .tryLock _ => s.owner = none → s.readers = []
  | .unlockShared _ => s.reader ≠ 1
  | _ => True

/-- The three fields agree with the threads: there is a writer, which holds the mutex, or nobody holds it. -/
inductive Agree (s : RwMutex T) : Prop
  | free (hwriters : s.writers = []) (hwriter : s.writer = false) (howner : s.owner = none)
      (hunlock : s.foreignUnlock = false)
  | held (t : T) (hwriters : s.writers = [t]) (hwriter : s.writer = true) (howner : s.owner = some t)
      (hreaders : s.readers = []) (hunlock : s.foreignUnlock = false)

omit [DecidableEq T] in
theorem Agree.exclusive {s : RwMutex T} (h : s.Agree) : s.Exclusive := by
  cases h with
  | free hwriters _ _ hunlock => exact ⟨by simp [hwriters], fun h => absurd hwriters h, hunlock⟩
  | held t hwriters _ _ hreaders hunlock => exact ⟨by simp [hwriters], fun _ => hreaders, hunlock⟩

omit [DecidableEq T] in
/-- A step that keeps the fields in agreement, whatever it is. -/
theorem Agree.stays {s' : RwMutex T} {p : Prop} (hp : p) (h : s'.Agree) : (p ↔ s'.Exclusive) ∧ (p → s'.Agree) :=
  ⟨iff_of_true hp h.exclusive, fun _ => h⟩

omit [DecidableEq T] in
theorem lock_iff {s : RwMutex T} (hwriters : s.writers = []) (hunlock : s.foreignUnlock = false) (t : T) :
    (s.readers = [] ↔ (s.lock t).Exclusive) ∧ (s.readers = [] → (s.lock t).Agree) := by
  have hkeep : s.readers = [] → (s.lock t).Agree := fun hreaders =>
    .held t (by simp [lock, hwriters]) rfl rfl hreaders hunlock
  exact ⟨⟨fun h => (hkeep h).exclusive, fun h => h.readers (by simp [lock])⟩, hkeep⟩

/-- **One step** from a state in which the fields agree: it keeps the exclusion exactly when it keeps apart. -/
theorem Agree.next_iff {s : RwMutex T} (h : s.Agree) {e : Event T} (he : s.Enabled e) :
    (s.Apart e ↔ (s.next e).Exclusive) ∧ (s.Apart e → (s.next e).Agree) := by
  cases h with
  | free hwriters hwriter howner hunlock =>
    have hadd : ∀ t, (s.addReader t).Agree := fun t => .free hwriters hwriter howner hunlock
    cases e with
    | lockShared t =>
      refine stays trivial ?_
      rw [next, lockShared, if_neg (by simp [hwriter])]
      exact hadd t
    | tryLockShared t =>
      refine stays trivial ?_
      rw [next, tryLockShared, if_neg (by simp [hwriter])]
      exact hadd t
    | lock t => exact lock_iff hwriters hunlock t
    | tryLock t =>
      have hiff := lock_iff hwriters hunlock t
      rw [next, tryLock, if_pos howner]
      exact ⟨⟨fun h => hiff.1.mp (h howner), fun h _ => hiff.1.mpr h⟩, fun h => hiff.2 (h howner)⟩
    | unlockShared t =>
      rw [next, RwMutex.unlock, if_neg (by simp [hwriter]), Apart]
      split_ifs with hpos hlast
      · -- the last reader unlocks a mutex that nobody holds
        have hone : s.reader = 1 := by omega
        refine ⟨iff_of_false (not_not.mpr hone) fun hex => ?_, fun hne => absurd hone hne⟩
        have := hex.unlock
        simp [mutexUnlock, howner] at this
      · exact stays (by omega) (.free hwriters hwriter howner hunlock)
      · exact stays (by omega) (.free hwriters hwriter howner hunlock)
    | unlock t =>
      have ht : t ∈ s.writers := he
      simp [hwriters] at ht
  | held t₀ hwriters hwriter howner hreaders hunlock =>
    have hs : s.Agree := .held t₀ hwriters hwriter howner hreaders hunlock
    cases e with
    | lockShared t =>
      have hfree := he hwriter
      simp [howner] at hfree
    | tryLockShared t =>
      refine stays trivial ?_
      rw [next, tryLockShared, if_pos hwriter]
      exact hs
    | lock t =>
      have hfree : s.owner = none := he
      simp [howner] at hfree
    | tryLock t =>
      have hbusy : s.owner ≠ none := by simp [howner]
      refine stays (fun h => absurd h hbusy) ?_
      rw [next, tryLock, if_neg hbusy]
      exact hs
    | unlockShared t =>
      have ht : t ∈ s.readers := he
      simp [hreaders] at ht
    | unlock t =>
      have ht : t ∈ s.writers := he
      obtain rfl : t = t₀ := by simpa [hwriters] using ht
      refine stays trivial ?_
      rw [next, RwMutex.unlock, if_pos hwriter]
      exact .free (by simp [hwriters]) rfl rfl (by simp [mutexUnlock, howner, hunlock])

/-! ## Every run -/

variable (T) in
/-- **Exclusion over a run**, for any threads: it holds in every state as long as no writer comes in beside readers
and no reader is the last one to leave, and in no other run. -/
theorem rwMutex_run_iff :
    (∀ s, ((system T).restrict Apart).Reachable s → s.Exclusive) ∧
    ∀ es s, ((system T).restrict Apart).Run new es s ↔ ((system T).keeping Exclusive).Run new es s := by
  have hinit : (new : RwMutex T).Agree := .free rfl rfl rfl rfl
  have hrun : ∀ es s, ((system T).restrict Apart).Run new es s ↔ ((system T).keeping Exclusive).Run new es s :=
    System.restrict_run_iff (I := Agree) (fun _ _ h he => (Agree.next_iff h he).1)
      (fun _ _ h he => (Agree.next_iff h he).2) hinit
  refine ⟨fun s hs => ?_, hrun⟩
  obtain ⟨es, hes⟩ := hs
  exact System.keeping_reachable hinit.exclusive ⟨es, (hrun es s).mp hes⟩

/-- A writer comes in while a reader is there. -/
theorem not_exclusive_readerAndWriter : ¬ ∀ s, (system ℕ).Reachable s → s.Exclusive := by
  intro hall
  have hreplay : (system ℕ).replay new [.lockShared 0, .lock 1] = some ⟨1, true, some 1, [0], [1], false⟩ := by decide
  have hex := hall _ (System.reachable_of_replay hreplay)
  simpa using hex.readers (by simp)

end RwMutex

end Gts3
