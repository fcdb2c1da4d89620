import Mathlib.Logic.Basic
import Mathlib.Tactic.Common

/-!
# Transition systems

A `System` starts in `init`; an event that is enabled takes it to the next state.  A `Run` is a sequence of events
that are enabled one after the other, and the reachable states are where the runs from the start end.  What the start
has and every step keeps, all reachable states have (`Reachable.inv`).
-/

namespace Lib.Transition

/-- States `σ` and events `ε`. -/
structure System (σ ε : Type*) where
  init : σ
  Enabled : σ → ε → Prop
  next : σ → ε → σ

variable {σ ε : Type*}

/-! ## One party of many -/

section Parties

variable {α : Type*} {f : α → α}

theorem modify_concat (before : List α) (a : α) : (before ++ [a]).modify before.length f = before ++ [f a] := by
  induction before with
  | nil => rfl
  | cons b before ih => exact congrArg (b :: ·) ih

/-- After a step of one party, a party is an old one or the one that has moved. -/
theorem mem_modify {parties : List α} {i : ℕ} {a : α} (h : a ∈ parties.modify i f) :
    a ∈ parties ∨ ∃ b, parties[i]? = some b ∧ a = f b := by
  obtain ⟨j, hj⟩ := List.mem_iff_getElem?.mp h
  rw [List.getElem?_modify] at hj
  split_ifs at hj with hij
  · subst hij
    obtain ⟨b, hb, rfl⟩ := Option.map_eq_some_iff.mp hj
    exact Or.inr ⟨b, hb, rfl⟩
  · have hold : parties[j]? = some a := by simpa using hj
    exact Or.inl (List.mem_of_getElem? hold)

end Parties

namespace System

/-- The steps that meet a condition. -/
def restrict (S : System σ ε) (ok : σ → ε → Prop) : System σ ε where
  init := S.init
  Enabled s e := S.Enabled s e ∧ ok s e
  next := S.next

/-- A run, with its events. -/
inductive Run (S : System σ ε) : σ → List ε → σ → Prop
  | nil (s : σ) : Run S s [] s
  | snoc {s s' : σ} {es : List ε} {e : ε} (h : Run S s es s') (he : S.Enabled s' e) : Run S s (es ++ [e]) (S.next s' e)

/-- Where the runs from the start end. -/
def Reachable (S : System σ ε) (s : σ) : Prop := ∃ es, S.Run S.init es s

variable {S : System σ ε}

/-- **What every step keeps**, a run keeps. -/
theorem Run.inv {P : σ → Prop} (hstep : ∀ s e, P s → S.Enabled s e → P (S.next s e)) {s s' : σ} {es : List ε}
    (h : S.Run s es s') (hs : P s) : P s' := by
  induction h with
  | nil => exact hs
  | snoc _ he ih => exact hstep _ _ ih he

/-- **Invariants**: what the start has and every step keeps. -/
theorem Reachable.inv {P : σ → Prop} (hinit : P S.init) (hstep : ∀ s e, P s → S.Enabled s e → P (S.next s e)) {s : σ}
    (h : S.Reachable s) : P s := by
  obtain ⟨es, hrun⟩ := h
  exact hrun.inv hstep hinit

theorem Reachable.init : S.Reachable S.init := ⟨[], .nil _⟩

theorem Reachable.next {s : σ} (h : S.Reachable s) {e : ε} (he : S.Enabled s e) : S.Reachable (S.next s e) := by
  obtain ⟨es, hrun⟩ := h
  exact ⟨es ++ [e], hrun.snoc he⟩

theorem Run.trans {s s' s'' : σ} {es es' : List ε} (h : S.Run s es s') (h' : S.Run s' es' s'') :
    S.Run s (es ++ es') s'' := by
  induction h' with
  | nil => simpa using h
  | snoc _ he ih =>
    rw [← List.append_assoc]
    exact ih.snoc he

theorem Reachable.run {s s' : σ} {es : List ε} (h : S.Reachable s) (hrun : S.Run s es s') : S.Reachable s' := by
  obtain ⟨es₀, h₀⟩ := h
  exact ⟨es₀ ++ es, h₀.trans hrun⟩

/-! ## Conditions on runs -/

/-- The runs whose states all have a property. -/
def keeping (S : System σ ε) (P : σ → Prop) : System σ ε := S.restrict fun s e => P (S.next s e)

/-- A run whose events meet the condition in every state. -/
theorem Run.restrict {ok : σ → ε → Prop} {s s' : σ} {es : List ε} (h : S.Run s es s') (hok : ∀ e ∈ es, ∀ s, ok s e) :
    (S.restrict ok).Run s es s' := by
  induction h with
  | nil => exact .nil _
  | @snoc s₁ _ e _ he ih =>
    have hpre := ih fun e' he' => hok e' (List.mem_append_left _ he')
    exact hpre.snoc ⟨he, hok e (by simp) s₁⟩

/-- **Exact conditions**: where a step from a state with the invariant meets the condition exactly when the next state
has the property, and then keeps the invariant, the runs that meet the condition are those that keep the property. -/
theorem restrict_run_iff {I P : σ → Prop} {ok : σ → ε → Prop}
    (hiff : ∀ s e, I s → S.Enabled s e → (ok s e ↔ P (S.next s e)))
    (hinv : ∀ s e, I s → S.Enabled s e → ok s e → I (S.next s e)) {s : σ} (hs : I s) (es : List ε) (s' : σ) :
    (S.restrict ok).Run s es s' ↔ (S.keeping P).Run s es s' := by
  constructor
  · intro h
    have hmain : (S.keeping P).Run s es s' ∧ I s' := by
      induction h with
      | nil => exact ⟨.nil s, hs⟩
      | snoc _ he ih => exact ⟨ih.1.snoc ⟨he.1, (hiff _ _ ih.2 he.1).mp he.2⟩, hinv _ _ ih.2 he.1 he.2⟩
    exact hmain.1
  · intro h
    have hmain : (S.restrict ok).Run s es s' ∧ I s' := by
      induction h with
      | nil => exact ⟨.nil s, hs⟩
      | snoc _ he ih =>
        have hok := (hiff _ _ ih.2 he.1).mpr he.2
        exact ⟨ih.1.snoc ⟨he.1, hok⟩, hinv _ _ ih.2 he.1 hok⟩
    exact hmain.1

/-- Every state of a run that keeps a property has it. -/
theorem keeping_reachable {P : σ → Prop} (hinit : P S.init) {s : σ} (h : (S.keeping P).Reachable s) : P s :=
  Reachable.inv (S := S.keeping P) hinit (fun s e _ (he : S.Enabled s e ∧ P (S.next s e)) => he.2) h

/-- **Conditions that decide how a run goes on**: `D` are the states that come to a bad end.  From the others a step
that meets the condition is good and leads to no such state; a good step that does not meet it leads to one, and good
steps never lead out.  So the runs that meet the condition are good, and of those that end outside `D` there are no
others. -/
theorem restrict_run_iff_of_bad_end {I D P : σ → Prop} {ok : σ → ε → Prop}
    (hok : ∀ s e, I s → ¬ D s → S.Enabled s e → ok s e → I (S.next s e) ∧ ¬ D (S.next s e) ∧ P (S.next s e))
    (hinv : ∀ s e, I s → S.Enabled s e → P (S.next s e) → I (S.next s e))
    (hbad : ∀ s e, I s → S.Enabled s e → P (S.next s e) → D s ∨ ¬ ok s e → D (S.next s e)) {s : σ} (hs : I s)
    (hgood : ¬ D s) {es : List ε} {s' : σ} :
    ((S.restrict ok).Run s es s' → (S.keeping P).Run s es s' ∧ ¬ D s') ∧
      ((S.keeping P).Run s es s' → ¬ D s' → (S.restrict ok).Run s es s') := by
  constructor
  · intro h
    have hmain : (S.keeping P).Run s es s' ∧ I s' ∧ ¬ D s' := by
      induction h with
      | nil => exact ⟨.nil s, hs, hgood⟩
      | snoc _ he ih =>
        obtain ⟨hI, hD, hP⟩ := hok _ _ ih.2.1 ih.2.2 he.1 he.2
        exact ⟨ih.1.snoc ⟨he.1, hP⟩, hI, hD⟩
    exact ⟨hmain.1, hmain.2.2⟩
  · intro h
    have hmain : I s' ∧ ((S.restrict ok).Run s es s' ∨ D s') := by
      induction h with
      | nil => exact ⟨hs, .inl (.nil s)⟩
      | @snoc s₁ _ e _ he ih =>
        refine ⟨hinv _ _ ih.1 he.1 he.2, ?_⟩
        rcases ih.2 with hrun | hD
        · by_cases hstep : ok s₁ e
          · exact .inl (hrun.snoc ⟨he.1, hstep⟩)
          · exact .inr (hbad _ _ ih.1 he.1 he.2 (.inr hstep))
        · exact .inr (hbad _ _ ih.1 he.1 he.2 (.inl hD))
    exact hmain.2.resolve_right

/-! ## Replaying events -/

section Replay

variable [∀ s e, Decidable (S.Enabled s e)]

variable (S) in
/-- The state after events, if each is enabled. -/
def replay (s : σ) : List ε → Option σ
  | [] => some s
  | e :: es => if S.Enabled s e then replay (S.next s e) es else none

theorem run_of_replay {s s' : σ} {es : List ε} (h : S.replay s es = some s') : S.Run s es s' := by
  induction es generalizing s with
  | nil =>
    obtain rfl : s = s' := by simpa [replay] using h
    exact .nil s
  | cons e es ih =>
    rw [replay] at h
    split_ifs at h with he
    exact (Run.snoc (.nil s) he).trans (ih h)

theorem reachable_of_replay {s : σ} {es : List ε} (h : S.replay S.init es = some s) : S.Reachable s :=
  ⟨es, run_of_replay h⟩

end Replay

end System

end Lib.Transition
