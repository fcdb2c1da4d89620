import Gts3.Lib.Transition
import Mathlib.Logic.Function.Basic
import Mathlib.Order.Nat
import Mathlib.Tactic.Common

/-!
# `gts/rw_mutex.h`: the guard `basic_shared_lock`

A guard is a pointer to a mutex and a flag that says whether it owns it; beside them stands what the guard has done to
the mutex.  The destructor looks at the pointer only, so a guard that does not own its mutex any more, or never has,
unlocks it all the same, also the temporary that takes the old value in a move assignment.
`sharedLock_run_iff` says in which runs every guard unlocks as often as it has acquired.

`swap` is read with `m_owns` where it names `_M_owns`, and the atomic flag as copied.
-/

namespace Gts3

open Lib.Transition

/-! ## One guard -/

/-- `basic_shared_lock`, with the number of its successful acquisitions and of its calls of `unlock` on the mutex, and
whether the mutex has been released to the caller. -/
structure SharedLock (M : Type) where
  mutex : Option M
  owns : Bool
  acquired : ℕ
  unlocked : ℕ
  released : Bool
  deriving DecidableEq, Repr

namespace SharedLock

variable {M : Type}

/-- A guard that has been moved from. -/
def null : SharedLock M := ⟨none, false, 0, 0, false⟩

/-- `m_mutex->lock_shared()`, or `try_lock_shared()` with the answer of the mutex. -/
def acquire (g : SharedLock M) (ok : Bool) : SharedLock M :=
  { g with owns := ok, acquired := if ok then g.acquired + 1 else g.acquired }

/-- `m_mutex->unlock()`. -/
def mutexUnlock (g : SharedLock M) : SharedLock M := { g with unlocked := g.unlocked + 1 }

/-- The constructors: the blocking one acquires, the other one tries to. -/
def construct (m : M) (ok : Bool) : SharedLock M := acquire ⟨some m, false, 0, 0, false⟩ ok

/-- `lock_shared`, which throws without a mutex or with one that is owned. -/
def lockShared (g : SharedLock M) : SharedLock M :=
  if g.mutex.isNone then g else if g.owns then g else g.acquire true

/-- `unlock`, which throws without a mutex. -/
def unlock (g : SharedLock M) : SharedLock M :=
  if g.mutex.isNone then g else if g.owns then { g.mutexUnlock with owns := false } else g

/-- `release`. -/
def release (g : SharedLock M) : SharedLock M := { g with mutex := none, owns := false, released := true }

/-- `other.m_mutex = nullptr; other.m_owns = false;` -/
def reset (g : SharedLock M) : SharedLock M := { g with mutex := none, owns := false }

/-- The destructor. -/
def destroy (g : SharedLock M) : SharedLock M := if g.mutex.isSome then g.mutexUnlock else g

/-- No more calls of `unlock` than acquisitions. -/
def Within (g : SharedLock M) : Prop := g.unlocked ≤ g.acquired

instance (g : SharedLock M) : Decidable g.Within := inferInstanceAs (Decidable (_ ≤ _))

/-- As many, unless the mutex was released. -/
def Settled (g : SharedLock M) : Prop := g.Within ∧ (g.released = false → g.unlocked = g.acquired)

/-- The flag agrees with the calls. -/
inductive Agree (g : SharedLock M) : Prop
  | owning (m : M) (hmutex : g.mutex = some m) (howns : g.owns = true) (hcount : g.acquired = g.unlocked + 1)
      (hreleased : g.released = false)
  | idle (howns : g.owns = false) (hcount : g.acquired = g.unlocked) (hreleased : g.released = false)
  | released (hmutex : g.mutex = none) (howns : g.owns = false) (hcount : g.unlocked ≤ g.acquired)
      (hreleased : g.released = true)

theorem Agree.within {g : SharedLock M} (h : g.Agree) : g.Within := by
  cases h with
  | owning m hmutex howns hcount hreleased => rw [Within]; omega
  | idle howns hcount hreleased => rw [Within]; omega
  | released hmutex howns hcount hreleased => exact hcount

theorem agree_null : (null : SharedLock M).Agree := .idle rfl rfl rfl

theorem agree_construct (m : M) (ok : Bool) : (construct m ok).Agree := by
  cases ok with
  | false => exact .idle rfl rfl rfl
  | true => exact .owning m rfl rfl rfl rfl

/-- **Acquisitions** of a guard that has a mutex and does not own it. -/
theorem Agree.acquire {g : SharedLock M} (h : g.Agree) {m : M} (hmutex : g.mutex = some m) (howns : g.owns = false)
    (ok : Bool) : (g.acquire ok).Agree := by
  cases h with
  | owning _ _ hown => exact absurd (hown.symm.trans howns) (by decide)
  | idle _ hcount hreleased =>
    cases ok with
    | false => exact .idle rfl hcount hreleased
    | true => exact .owning m hmutex rfl (by simp [SharedLock.acquire, hcount]) hreleased
  | released hnone => simp [hnone] at hmutex

theorem Agree.lockShared {g : SharedLock M} (h : g.Agree) : g.lockShared.Agree := by
  rw [SharedLock.lockShared]
  cases hmutex : g.mutex with
  | none => exact h
  | some m =>
    cases howns : g.owns with
    | true => exact h
    | false => exact h.acquire hmutex howns true

/-- `unlock` leaves a guard that does not own its mutex. -/
theorem Agree.unlock {g : SharedLock M} (h : g.Agree) :
    g.unlock.Agree ∧ g.unlock.owns = false ∧ g.unlock.mutex = g.mutex := by
  rw [SharedLock.unlock]
  cases h with
  | owning m hmutex howns hcount hreleased =>
    rw [if_neg (by simp [hmutex]), if_pos howns]
    exact ⟨.idle rfl hcount hreleased, rfl, rfl⟩
  | idle howns hcount hreleased =>
    have hsame : (if g.mutex.isNone then g else if g.owns then { g.mutexUnlock with owns := false } else g) = g := by
      simp [howns]
    rw [hsame]
    exact ⟨.idle howns hcount hreleased, howns, rfl⟩
  | released hmutex howns hcount hreleased =>
    rw [if_pos (by simp [hmutex])]
    exact ⟨.released hmutex howns hcount hreleased, howns, rfl⟩

theorem Agree.release {g : SharedLock M} (h : g.Agree) : g.release.Agree := .released rfl rfl h.within rfl

theorem Agree.reset {g : SharedLock M} (h : g.Agree) (howns : g.owns = false) : g.reset.Agree := by
  cases h with
  | owning m _ hown => exact absurd (hown.symm.trans howns) (by decide)
  | idle _ hcount hreleased => exact .idle rfl hcount hreleased
  | released _ _ hcount hreleased => exact .released rfl rfl hcount hreleased

/-- **The destructor** settles a guard exactly when the guard has no mutex or owns it. -/
theorem Agree.destroy_iff {g : SharedLock M} (h : g.Agree) : g.destroy.Settled ↔ g.mutex = none ∨ g.owns = true := by
  cases h with
  | owning m hmutex howns hcount hreleased =>
    refine iff_of_true ?_ (Or.inr howns)
    rw [destroy, if_pos (by simp [hmutex])]
    exact ⟨hcount.ge, fun _ => hcount.symm⟩
  | idle howns hcount hreleased =>
    cases hmutex : g.mutex with
    | none =>
      rw [destroy, if_neg (by simp [hmutex])]
      exact iff_of_true ⟨hcount.ge, fun _ => hcount.symm⟩ (Or.inl rfl)
    | some m =>
      rw [destroy, if_pos (by simp [hmutex])]
      refine iff_of_false (fun hsettled => ?_) (by simp [howns])
      -- one call more than acquisitions
      have hwithin : g.unlocked + 1 ≤ g.acquired := hsettled.1
      omega
  | released hmutex howns hcount hreleased =>
    refine iff_of_true ?_ (Or.inl hmutex)
    rw [destroy, if_neg (by simp [hmutex])]
    exact ⟨hcount, fun hnot => absurd (hreleased.symm.trans hnot) (by decide)⟩

end SharedLock

/-! ## The guards of a program -/

/-- The guards, by name, and those that are gone, as their destructors have left them. -/
structure Guards (G M : Type) where
  guards : G → Option (SharedLock M)
  gone : List (SharedLock M)

namespace Guards

variable {G M : Type} [DecidableEq G]

/-- No guards yet. -/
def empty : Guards G M := ⟨fun _ => none, []⟩

/-- The guard of a name. -/
def get (s : Guards G M) (x : G) : SharedLock M := (s.guards x).getD .null

/-- The guard of a name, set. -/
def set (s : Guards G M) (x : G) (g : SharedLock M) : Guards G M :=
  { s with guards := Function.update s.guards x (some g) }

/-- A guard that goes away. -/
def bury (s : Guards G M) (g : SharedLock M) : Guards G M := { s with gone := g.destroy :: s.gone }

/-- `basic_shared_lock(basic_shared_lock &&other)`: the new guard, and what is left of the other one. -/
def moveConstruct (s : Guards G M) (x other : G) : Guards G M := (s.set x (s.get other)).set other .null

/-- `operator=(basic_shared_lock &&other)`: the temporary takes the value of the other guard and is swapped with this
one, whose old value goes away with it. -/
def moveAssign (s : Guards G M) (x other : G) : Guards G M :=
  let s := if (s.get x).owns then s.set x (s.get x).unlock else s
  let tmp := s.get other
  let s := s.set other .null
  let old := s.get x
  let s := (s.set x tmp).bury old
  s.set other (s.get other).reset

/-- `swap(other)`. -/
def swap (s : Guards G M) (x other : G) : Guards G M := (s.set x (s.get other)).set other (s.get x)

/-- What a program does with its guards. -/
inductive Event (G M : Type)
  | construct (x : G) (m : M)
  | tryConstruct (x : G) (m : M) (ok : Bool)
  | moveConstruct (x other : G)
  | moveAssign (x other : G)
  | lockShared (x : G)
  | tryLockShared (x : G) (ok : Bool)
  | unlock (x : G)
  | release (x : G)
  | swap (x other : G)
  | destroy (x : G)
  deriving DecidableEq

/-- There is a guard of this name. -/
def Alive (s : Guards G M) (x : G) : Prop := (s.guards x).isSome = true

instance (s : Guards G M) (x : G) : Decidable (s.Alive x) := inferInstanceAs (Decidable (_ = _))

/-- Guards are used between their construction and their destruction; `try_lock_shared` is `noexcept`, so the program
ends where it would throw. -/
def Enabled (s : Guards G M) : Event G M → Prop
  | .construct x _ | .tryConstruct x _ _ => ¬ s.Alive x
  | .moveConstruct x other => ¬ s.Alive x ∧ s.Alive other
  | .moveAssign x other | .swap x other => s.Alive x ∧ s.Alive other
  | .lockShared x | .unlock x | .release x | .destroy x => s.Alive x
  | .tryLockShared x _ => s.Alive x ∧ (s.get x).mutex.isSome = true ∧ (s.get x).owns = false

/-- What becomes of the guards. -/
def next (s : Guards G M) : Event G M → Guards G M
  | .construct x m => s.set x (.construct m true)
  | .tryConstruct x m ok => s.set x (.construct m ok)
  | .moveConstruct x other => s.moveConstruct x other
  | .moveAssign x other => s.moveAssign x other
  | .lockShared x => s.set x (s.get x).lockShared
  | .tryLockShared x ok => s.set x ((s.get x).acquire ok)
  | .unlock x => s.set x (s.get x).unlock
  | .release x => s.set x (s.get x).release
  | .swap x other => s.swap x other
  | .destroy x => { s.bury (s.get x) with guards := Function.update s.guards x none }

instance (s : Guards G M) (e : Event G M) : Decidable (s.Enabled e) := by
  cases e <;> unfold Enabled <;> infer_instance

variable (G M) in
/-- The guards of a program, in every order of operations. -/
def system : System (Guards G M) (Event G M) := ⟨empty, Enabled, next⟩

instance (s : Guards G M) (e : Event G M) : Decidable ((system G M).Enabled s e) :=
  inferInstanceAs (Decidable (s.Enabled e))

/-! ## Acquisitions and unlocks -/

/-- **The balance**: no guard unlocks more often than it has acquired, and those that are gone and were not released
have unlocked as often. -/
structure Balanced (s : Guards G M) : Prop where
  guards : ∀ x g, s.guards x = some g → g.Within
  gone : ∀ g ∈ s.gone, g.Settled

/-- The guard that goes away has no mutex, or owns it. -/
def Sound (s : Guards G M) : Event G M → Prop
  | .destroy x => (s.get x).mutex = none ∨ (s.get x).owns = true
  | .moveAssign x other => x = other ∨ (s.get x).mutex = none
  | _ => True

/-- The flags agree with the calls. -/
structure Agree (s : Guards G M) : Prop where
  guards : ∀ x, (s.get x).Agree
  gone : ∀ g ∈ s.gone, g.Settled

omit [DecidableEq G] in
theorem Agree.balanced {s : Guards G M} (h : s.Agree) : s.Balanced := by
  refine ⟨fun x g hx => ?_, h.gone⟩
  have hagree := h.guards x
  rw [get, hx] at hagree
  exact hagree.within

omit [DecidableEq G] in
theorem agree_empty : (empty : Guards G M).Agree := ⟨fun _ => SharedLock.agree_null, fun _ hg => by cases hg⟩

theorem get_set_self (s : Guards G M) (x : G) (g : SharedLock M) : (s.set x g).get x = g := by simp [get, set]

theorem get_set_of_ne (s : Guards G M) {x y : G} (h : y ≠ x) (g : SharedLock M) : (s.set x g).get y = s.get y := by
  simp [get, set, h]

@[simp] theorem gone_set (s : Guards G M) (x : G) (g : SharedLock M) : (s.set x g).gone = s.gone := rfl

theorem Agree.set {s : Guards G M} (h : s.Agree) (x : G) {g : SharedLock M} (hg : g.Agree) : (s.set x g).Agree := by
  refine ⟨fun y => ?_, h.gone⟩
  by_cases hy : y = x
  · subst hy
    rwa [get_set_self]
  · rw [get_set_of_ne s hy]
    exact h.guards y

omit [DecidableEq G] in
theorem Agree.bury {s : Guards G M} (h : s.Agree) {g : SharedLock M} (hg : g.destroy.Settled) : (s.bury g).Agree := by
  refine ⟨h.guards, fun g' hg' => ?_⟩
  rcases List.mem_cons.mp hg' with rfl | hg'
  · exact hg
  · exact h.gone g' hg'

omit [DecidableEq G] in
/-- A step that keeps the flags in agreement, whatever it is. -/
theorem Agree.stays {s' : Guards G M} {p : Prop} (hp : p) (h : s'.Agree) : (p ↔ s'.Balanced) ∧ (p → s'.Agree) :=
  ⟨iff_of_true hp h.balanced, fun _ => h⟩

/-- `if( m_owns ) unlock();` -/
theorem Agree.unlockFirst {s : Guards G M} (h : s.Agree) (x : G) :
    ∃ s₁, (if (s.get x).owns then s.set x (s.get x).unlock else s) = s₁ ∧ s₁.Agree ∧ (s₁.get x).owns = false ∧
      (s₁.get x).mutex = (s.get x).mutex := by
  obtain ⟨hagree, howns, hmutex⟩ := (h.guards x).unlock
  cases hown : (s.get x).owns with
  | true => exact ⟨_, if_pos rfl, h.set x hagree, by rwa [get_set_self], by rwa [get_set_self]⟩
  | false => exact ⟨s, if_neg (by simp), h, hown, rfl⟩

/-- **Move assignments**: what matters is what the temporary takes away. -/
theorem Agree.moveAssign_iff {s : Guards G M} (h : s.Agree) (x other : G) :
    ((x = other ∨ (s.get x).mutex = none) ↔ (s.moveAssign x other).Balanced) ∧
      ((x = other ∨ (s.get x).mutex = none) → (s.moveAssign x other).Agree) := by
  obtain ⟨s₁, hs₁, hagree, howns, hmutex⟩ := h.unlockFirst x
  rw [moveAssign, hs₁, ← hmutex]
  have hmoved : (s₁.set other .null).Agree := hagree.set other SharedLock.agree_null
  by_cases hx : x = other
  · subst hx
    refine stays (Or.inl rfl) ?_
    rw [get_set_self]
    have hnull : (SharedLock.null : SharedLock M).destroy.Settled := ⟨le_refl 0, fun _ => rfl⟩
    refine Agree.set ((hmoved.set x (hagree.guards x)).bury hnull) x ?_
    show SharedLock.Agree (SharedLock.reset (get ((s₁.set x .null).set x (s₁.get x)) x))
    rw [get_set_self]
    exact (hagree.guards x).reset howns
  · rw [get_set_of_ne s₁ hx]
    have hdestroy : (s₁.get x).destroy.Settled ↔ (s₁.get x).mutex = none := by
      rw [(hagree.guards x).destroy_iff, howns]
      simp
    have hkeep : (x = other ∨ (s₁.get x).mutex = none) →
        (((((s₁.set other .null).set x (s₁.get other)).bury (s₁.get x)).set other
          ((((s₁.set other .null).set x (s₁.get other)).bury (s₁.get x)).get other).reset).Agree) := by
      intro hnone
      have hsettled := hdestroy.mpr (hnone.resolve_left hx)
      refine Agree.set ((hmoved.set x (hagree.guards other)).bury hsettled) other ?_
      show SharedLock.Agree (SharedLock.reset (get ((s₁.set other .null).set x (s₁.get other)) other))
      rw [get_set_of_ne _ (Ne.symm hx), get_set_self]
      exact SharedLock.agree_null
    exact ⟨⟨fun hnone => (hkeep hnone).balanced,
      fun hb => Or.inr (hdestroy.mp (hb.gone _ List.mem_cons_self))⟩, hkeep⟩

/-- **Destructions.** -/
theorem Agree.destroy_iff {s : Guards G M} (h : s.Agree) (x : G) :
    (s.Sound (.destroy x) ↔ (s.next (.destroy x)).Balanced) ∧ (s.Sound (.destroy x) → (s.next (.destroy x)).Agree) := by
  have hiff := (h.guards x).destroy_iff
  have hkeep : s.Sound (.destroy x) → (s.next (.destroy x)).Agree := by
    intro hsound
    refine ⟨fun y => ?_, (h.bury (hiff.mpr hsound)).gone⟩
    by_cases hy : y = x
    · subst hy
      show ((Function.update s.guards y none y).getD .null).Agree
      rw [Function.update_self]
      exact SharedLock.agree_null
    · show ((Function.update s.guards x none y).getD .null).Agree
      rw [Function.update_of_ne hy]
      exact h.guards y
  exact ⟨⟨fun hsound => (hkeep hsound).balanced, fun hb => hiff.mp (hb.gone _ List.mem_cons_self)⟩, hkeep⟩

/-- **One step** from a state in which the flags agree: it keeps the balance exactly when it is sound. -/
theorem Agree.next_iff {s : Guards G M} (h : s.Agree) {e : Event G M} (he : s.Enabled e) :
    (s.Sound e ↔ (s.next e).Balanced) ∧ (s.Sound e → (s.next e).Agree) := by
  cases e with
  | construct x m => exact stays trivial (h.set x (SharedLock.agree_construct m true))
  | tryConstruct x m ok => exact stays trivial (h.set x (SharedLock.agree_construct m ok))
  | moveConstruct x other =>
    exact stays trivial ((h.set x (h.guards other)).set other SharedLock.agree_null)
  | moveAssign x other => exact h.moveAssign_iff x other
  | lockShared x => exact stays trivial (h.set x (h.guards x).lockShared)
  | tryLockShared x ok =>
    obtain ⟨-, hmutex, howns⟩ := he
    obtain ⟨m, hm⟩ := Option.isSome_iff_exists.mp hmutex
    exact stays trivial (h.set x ((h.guards x).acquire hm howns ok))
  | unlock x => exact stays trivial (h.set x (h.guards x).unlock.1)
  | release x => exact stays trivial (h.set x (h.guards x).release)
  | swap x other => exact stays trivial ((h.set x (h.guards other)).set other (h.guards x))
  | destroy x => exact h.destroy_iff x

/-! ## Every run -/

variable (G M) in
/-- **The balance over a run**, for any guards and mutexes: it holds in every state as long as no guard goes away with
a mutex that it does not own, and in no other run. -/
theorem sharedLock_run_iff :
    (∀ s, ((system G M).restrict Sound).Reachable s → s.Balanced) ∧
    ∀ es s, ((system G M).restrict Sound).Run empty es s ↔ ((system G M).keeping Balanced).Run empty es s := by
  have hrun : ∀ es s, ((system G M).restrict Sound).Run empty es s ↔ ((system G M).keeping Balanced).Run empty es s :=
    System.restrict_run_iff (I := Agree) (fun _ _ h he => (Agree.next_iff h he).1)
      (fun _ _ h he => (Agree.next_iff h he).2) agree_empty
  refine ⟨fun s hs => ?_, hrun⟩
  obtain ⟨es, hes⟩ := hs
  exact System.keeping_reachable agree_empty.balanced ⟨es, (hrun es s).mp hes⟩

/-- Guards are destroyed, one after an attempt that has failed and one after its `unlock`. -/
theorem not_balanced_destroyed :
    (∃ s, (system ℕ ℕ).Run empty [.tryConstruct 0 7 false, .destroy 0] s ∧ ¬ s.Balanced) ∧
      ∃ s, (system ℕ ℕ).Run empty [.construct 0 7, .unlock 0, .destroy 0] s ∧ ¬ s.Balanced := by
  refine ⟨⟨_, System.run_of_replay rfl, fun hb => ?_⟩, _, System.run_of_replay rfl, fun hb => ?_⟩
  · have hgone := hb.gone ⟨some 7, false, 0, 1, false⟩ List.mem_cons_self
    exact absurd hgone.1 (by decide)
  · have hgone := hb.gone ⟨some 7, false, 1, 2, false⟩ List.mem_cons_self
    exact absurd hgone.1 (by decide)

end Guards

end Gts3
