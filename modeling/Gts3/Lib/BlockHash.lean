import Mathlib.Algebra.NeZero
import Mathlib.Algebra.Order.Ring.Nat
import Mathlib.Data.List.Basic

/-!
# Hashing block by block

`absorb` takes the blocks of a text, one after the other, into a state, and keeps what is left of the text.  How the
text arrives does not matter (`absorb_append`), so a hash with a buffer for an unfinished block is in the same state
for every way of cutting the text.
-/

namespace Lib.BlockHash

variable {α σ : Type*}

/-- The state after all complete blocks of `n` elements, and the elements that are left. -/
def absorb (n : ℕ) [NeZero n] (f : σ → List α → σ) (s : σ) (l : List α) : σ × List α :=
  if n ≤ l.length then absorb n f (f s (l.take n)) (l.drop n) else (s, l)
termination_by l.length
decreasing_by
  have := NeZero.pos n
  rw [List.length_drop]
  omega

variable {n : ℕ} [NeZero n] {f : σ → List α → σ}

theorem absorb_short {s : σ} {l : List α} (h : l.length < n) : absorb n f s l = (s, l) := by
  rw [absorb, if_neg (Nat.not_le.mpr h)]

theorem absorb_block {s : σ} {b : List α} (hb : b.length = n) (l : List α) :
    absorb n f s (b ++ l) = absorb n f (f s b) l := by
  rw [absorb, if_pos (by rw [List.length_append]; omega), List.take_left' hb, List.drop_left' hb]

/-- **Cutting** a text changes nothing: what was left stands before what comes. -/
theorem absorb_append (s : σ) (l l' : List α) :
    absorb n f s (l ++ l') = absorb n f (absorb n f s l).1 ((absorb n f s l).2 ++ l') := by
  induction hlen : l.length using Nat.strong_induction_on generalizing s l with
  | _ k ih =>
    by_cases h : n ≤ l.length
    · have hpos := NeZero.pos n
      have htake : (l.take n).length = n := by rw [List.length_take]; omega
      have hsplit : l = l.take n ++ l.drop n := (List.take_append_drop n l).symm
      rw [hsplit, List.append_assoc, absorb_block htake, absorb_block htake]
      exact ih _ (by rw [List.length_drop]; omega) _ _ rfl
    · rw [absorb_short (Nat.lt_of_not_le h)]

theorem length_absorb_mod (s : σ) (l : List α) : (absorb n f s l).2.length = l.length % n := by
  induction hlen : l.length using Nat.strong_induction_on generalizing s l with
  | _ k ih =>
    rw [absorb]
    split_ifs with h
    · have hpos := NeZero.pos n
      rw [ih _ (by rw [List.length_drop]; omega) _ _ rfl, List.length_drop, ← hlen, Nat.mod_eq_sub_mod h]
    · rw [← hlen, Nat.mod_eq_of_lt (Nat.lt_of_not_le h)]

end Lib.BlockHash
