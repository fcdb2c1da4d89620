import Mathlib.Data.List.Basic
import Mathlib.Tactic.Common

/-!
# Binary search by the beginning of a text

`search` asks a three-way comparison at the middle of the positions that are left.  It needs no order to be right about
what it finds (`search_eq_some`), only to find it.  Where some comparisons are not known, `always` follows every way
that the search can take, so that a search for any text with a known beginning is decided by looking at that beginning
(`always_sound`, `comparePrefix_of_known`). -/

namespace Lib.BinarySearch

/-! ## Search -/

/-- The search of the positions from `lo` up to `hi`.  The comparison says `.gt` at a position when the place is behind
it. -/
def search (cmp : ℕ → Ordering) : ℕ → ℕ → ℕ → Option ℕ
  | 0, _, _ => none
  | fuel + 1, lo, hi =>
    if lo < hi then
      match cmp ((lo + hi - 1) / 2) with
      | .eq => some ((lo + hi - 1) / 2)
      | .gt => search cmp fuel ((lo + hi - 1) / 2 + 1) hi
      | .lt => search cmp fuel lo ((lo + hi - 1) / 2)
    else none

/-- **What is found compares equal**, and is one of the positions, whatever the order is. -/
theorem search_eq_some {cmp : ℕ → Ordering} {fuel lo hi k : ℕ} (h : search cmp fuel lo hi = some k) :
    cmp k = .eq ∧ lo ≤ k ∧ k < hi := by
  induction fuel generalizing lo hi with
  | zero => cases h
  | succ fuel ih =>
    rw [search] at h
    split_ifs at h with hlt
    cases hcmp : cmp ((lo + hi - 1) / 2) with
    | eq =>
      rw [hcmp] at h
      obtain rfl := Option.some.inj h
      exact ⟨hcmp, by omega, by omega⟩
    | gt =>
      rw [hcmp] at h
      obtain ⟨heq, hlo, hhi⟩ := ih h
      exact ⟨heq, by omega, hhi⟩
    | lt =>
      rw [hcmp] at h
      obtain ⟨heq, hlo, hhi⟩ := ih h
      exact ⟨heq, hlo, by omega⟩

/-! ## Comparisons that are not all known -/

/-- Every result that the search can have has the property, where the comparison is known at some positions. -/
def always (P : Option ℕ → Bool) (known : ℕ → Option Ordering) : ℕ → ℕ → ℕ → Bool
  | 0, _, _ => P none
  | fuel + 1, lo, hi =>
    if lo < hi then
      match known ((lo + hi - 1) / 2) with
      | some .eq => P (some ((lo + hi - 1) / 2))
      | some .gt => always P known fuel ((lo + hi - 1) / 2 + 1) hi
      | some .lt => always P known fuel lo ((lo + hi - 1) / 2)
      | none => P (some ((lo + hi - 1) / 2)) && always P known fuel ((lo + hi - 1) / 2 + 1) hi &&
          always P known fuel lo ((lo + hi - 1) / 2)
    else P none

/-- **A search whose comparisons agree with the known ones** has a result with the property. -/
theorem always_sound {P : Option ℕ → Bool} {known : ℕ → Option Ordering} {cmp : ℕ → Ordering}
    (hcmp : ∀ k o, known k = some o → cmp k = o) {fuel lo hi : ℕ} (h : always P known fuel lo hi = true) :
    P (search cmp fuel lo hi) = true := by
  induction fuel generalizing lo hi with
  | zero => exact h
  | succ fuel ih =>
    rw [always] at h
    rw [search]
    split_ifs at h ⊢ with hlt
    · cases hknown : known ((lo + hi - 1) / 2) with
      | none =>
        rw [hknown] at h
        simp only [Bool.and_eq_true] at h
        obtain ⟨⟨heq, hgt⟩, hlt⟩ := h
        cases cmp ((lo + hi - 1) / 2) with
        | eq => exact heq
        | gt => exact ih hgt
        | lt => exact ih hlt
      | some o =>
        rw [hknown] at h
        rw [hcmp _ _ hknown]
        cases o with
        | eq => exact h
        | gt => exact ih h
        | lt => exact ih h
    · exact h

/-! ## The comparison with a beginning -/

section Prefix

variable {α : Type*} [DecidableEq α] [LT α] [DecidableLT α]

/-- How a text compares with what it should begin with. -/
def comparePrefix : List α → List α → Ordering
  | _, [] => .eq
  | [], _ :: _ => .lt
  | a :: s, b :: q => if a = b then comparePrefix s q else if a < b then .lt else .gt

theorem comparePrefix_eq_iff {s q : List α} : comparePrefix s q = .eq ↔ q <+: s := by
  induction q generalizing s with
  | nil => cases s <;> simp [comparePrefix]
  | cons b q ih =>
    cases s with
    | nil => simp [comparePrefix]
    | cons a s =>
      rw [comparePrefix, List.cons_prefix_cons]
      split_ifs with hab hlt
      · rw [ih, eq_comm, and_iff_right hab]
      · simp [Ne.symm hab]
      · simp [Ne.symm hab]

/-- What the beginning `p` of a text says of the comparison. -/
def knownPrefix : List α → List α → Option Ordering
  | _, [] => some .eq
  | [], _ :: _ => none
  | a :: p, b :: q => if a = b then knownPrefix p q else if a < b then some .lt else some .gt

/-- **What is known holds** of every text with this beginning. -/
theorem comparePrefix_of_known {p s q : List α} (hp : p <+: s) {o : Ordering} (h : knownPrefix p q = some o) :
    comparePrefix s q = o := by
  induction q generalizing p s with
  | nil =>
    obtain rfl : .eq = o := by cases p <;> simpa [knownPrefix] using h
    cases s <;> rfl
  | cons b q ih =>
    cases p with
    | nil => cases h
    | cons a p =>
      obtain ⟨t, rfl⟩ := hp
      rw [knownPrefix] at h
      rw [List.cons_append, comparePrefix]
      split_ifs at h ⊢ with hab hlt
      · exact ih (List.prefix_append p t) h
      · exact Option.some.inj h
      · exact Option.some.inj h

end Prefix

end Lib.BinarySearch
