import Mathlib.Data.List.Infix
import Mathlib.Tactic.Common

/-!
# Leaving out the shortest front of a list

`dropUntil good l` leaves out elements from the front until what is left is good, or nothing is left.  What is left is
the longest good end of the list (`dropUntil_eq_iff`).
-/

namespace Lib.DropUntil

variable {α : Type*}

/-- What is left when elements are left out from the front until the rest is good. -/
def dropUntil (good : List α → Bool) : List α → List α
  | [] => []
  | a :: l => if good (a :: l) then a :: l else dropUntil good l

variable {good good' : List α → Bool} {l r : List α}

theorem dropUntil_suffix (good : List α → Bool) (l : List α) : dropUntil good l <:+ l := by
  induction l with
  | nil => exact List.suffix_rfl
  | cons a l ih =>
    rw [dropUntil]
    split_ifs
    · exact List.suffix_rfl
    · exact ih.trans (List.suffix_cons a l)

theorem dropUntil_good (good : List α → Bool) (l : List α) :
    good (dropUntil good l) = true ∨ dropUntil good l = [] := by
  induction l with
  | nil => exact Or.inr rfl
  | cons a l ih =>
    rw [dropUntil]
    split_ifs with h
    · exact Or.inl h
    · exact ih

theorem dropUntil_longest {rest : List α} (h : rest <:+ l) (hlen : (dropUntil good l).length < rest.length) :
    good rest = false := by
  induction l with
  | nil => simp [List.suffix_nil.mp h] at hlen
  | cons a l ih =>
    rw [dropUntil] at hlen
    split_ifs at hlen with hgood
    · exact absurd h.length_le (by omega)
    · rcases List.suffix_cons_iff.mp h with rfl | h
      · simpa using hgood
      · exact ih h hlen

theorem dropUntil_of_good (h : good l = true) : dropUntil good l = l := by
  cases l with
  | nil => rfl
  | cons a l => rw [dropUntil, if_pos h]

theorem dropUntil_of_not_good (h : good l = false) : dropUntil good l = dropUntil good l.tail := by
  cases l with
  | nil => rfl
  | cons a l => rw [dropUntil, if_neg (Bool.eq_false_iff.mp h), List.tail_cons]

/-- **The longest good end** of the list. -/
theorem dropUntil_eq_iff : dropUntil good l = r ↔
    r <:+ l ∧ (good r = true ∨ r = []) ∧ ∀ rest, rest <:+ l → r.length < rest.length → good rest = false := by
  constructor
  · rintro rfl
    exact ⟨dropUntil_suffix good l, dropUntil_good good l, fun _ h hlen => dropUntil_longest h hlen⟩
  · rintro ⟨hsuffix, hgood, hlongest⟩
    have hsuffix' := dropUntil_suffix good l
    -- of two ends of the list one is an end of the other
    rcases lt_trichotomy r.length (dropUntil good l).length with hlt | heq | hgt
    · rcases dropUntil_good good l with h | h
      · rw [hlongest _ hsuffix' hlt] at h
        cases h
      · rw [h] at hlt
        exact absurd hlt (Nat.not_lt_zero _)
    · exact (List.suffix_of_suffix_length_le hsuffix' hsuffix heq.ge).eq_of_length heq.symm
    · rcases hgood with h | h
      · rw [dropUntil_longest hsuffix hgt] at h
        cases h
      · rw [h] at hgt
        exact absurd hgt (Nat.not_lt_zero _)

/-- **Two tests** lead to the same end exactly when no end passes the weaker one only; the other one passes with an end
all shorter ones. -/
theorem dropUntil_eq_dropUntil_iff (hweak : ∀ rest, rest <:+ l → good' rest = true → good rest = true)
    (hshorter : ∀ rest rest', rest' <:+ rest → good' rest = true → good' rest' = true) :
    dropUntil good l = dropUntil good' l ↔
      ∀ rest, rest <:+ l → rest ≠ [] → good rest = true → good' rest = true := by
  constructor
  · intro h rest hrest hne hgood
    by_contra hnot
    rcases Nat.lt_or_ge (dropUntil good' l).length rest.length with hlt | hge
    · rw [← h] at hlt
      have hbad : good rest = false := dropUntil_longest hrest hlt
      rw [hbad] at hgood
      cases hgood
    · have hend : rest <:+ dropUntil good' l :=
        List.suffix_of_suffix_length_le hrest (dropUntil_suffix good' l) hge
      rcases dropUntil_good good' l with hgood' | hnil
      · exact hnot (hshorter _ _ hend hgood')
      · exact hne (List.suffix_nil.mp (hnil ▸ hend))
  · intro h
    refine dropUntil_eq_iff.mpr ⟨dropUntil_suffix good' l, ?_, fun rest hrest hlen => ?_⟩
    · exact (dropUntil_good good' l).imp_left (hweak _ (dropUntil_suffix good' l))
    · have hne : rest ≠ [] := List.length_pos_iff.mp (by omega)
      have hnot : good' rest = false := dropUntil_longest hrest hlen
      refine Bool.eq_false_iff.mpr fun hgood => ?_
      rw [h rest hrest hne hgood] at hnot
      cases hnot

end Lib.DropUntil
