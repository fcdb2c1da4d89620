import Gts3.Lib.Cxx

/-!
# `gts/algorithm.cpp`: `str_replace` and `str_remove`

`str_replace` searches behind what it has inserted, so the text it leaves is the one in which the leftmost occurrences
are replaced (`strReplace_text`), as long as an `int` holds the positions.  It counts nothing: `sum` stays zero, and the
number of replacements is returned only where there are none (`replacesAll_iff`).
-/

namespace Gts3

open Lib Lib.Search Lib.Cxx

/-- `str.replace(pos, n, s)`. -/
def replaceAt (str : Bytes) (pos n : ℕ) (s : Bytes) : Run Bytes :=
  if pos ≤ str.length then .ok (str.take pos ++ s ++ str.drop (pos + n)) else .error .outOfRange

/-- The loop of `str_replace`.  The position goes through an `int`; a negative one is behind every string. -/
def strReplaceLoop (old new : Bytes) : ℕ → Bytes → ℕ → ℕ → Run (Bytes × ℕ)
  | 0, _, _, _ => .error .diverge
  | fuel + 1, str, sum, oldPos =>
    match findFrom old str oldPos with
    | none => .ok (str, sum)
    | some pos =>
      match toInt32 pos with
      | none => .error .outOfRange
      | some start => do
        let str ← replaceAt str start old.length new
        strReplaceLoop old new fuel str sum (start + new.length)

/-- `str_replace(str, _old, _new)`, with a bound on the rounds of its loop: the text it leaves and what it returns. -/
def strReplace (fuel : ℕ) (str old new : Bytes) : Run (Bytes × ℕ) := strReplaceLoop old new fuel str 0 0

/-- `str_remove(str, find)`. -/
def strRemove (fuel : ℕ) (str find : Bytes) : Run Bytes := do
  let (res, _) ← strReplace fuel str find []
  .ok res

/-! ## The text -/

/-- **The loop** has its position behind what is done, `front`, and replaces in what is left. -/
theorem strReplaceLoop_eq {old new s t : Bytes} {n : ℕ} (h : Replaces old new s t n) :
    ∀ (front : Bytes) (sum fuel : ℕ), n < fuel → front.length + t.length < 2147483648 →
      strReplaceLoop old new fuel (front ++ s) sum front.length = .ok (front ++ t, sum) := by
  induction h with
  | @done s h =>
    intro front sum fuel hfuel hlen
    obtain ⟨fuel, rfl⟩ : ∃ k, fuel = k + 1 := ⟨fuel - 1, by omega⟩
    rw [strReplaceLoop, findFrom_append, h]
    rfl
  | @next a b t n h _ ih =>
    intro front sum fuel hfuel hlen
    obtain ⟨fuel, rfl⟩ : ∃ k, fuel = k + 1 := ⟨fuel - 1, by omega⟩
    simp only [List.length_append] at hlen
    have hstart : toInt32 (front.length + a.length) = some (front.length + a.length) := toInt32_of_lt (by omega)
    have hreplace : replaceAt (front ++ (a ++ old ++ b)) (front.length + a.length) old.length new =
        .ok ((front ++ a ++ new) ++ b) := by
      have hfront : front ++ (a ++ old ++ b) = (front ++ a) ++ (old ++ b) := by simp
      rw [hfront, ← List.length_append, replaceAt, if_pos (by simp), List.take_left, ← List.drop_drop, List.drop_left,
        List.drop_left]
    have hnext := ih (front ++ a ++ new) sum fuel (by omega) (by simp only [List.length_append]; omega)
    simp only [List.length_append] at hnext
    rw [strReplaceLoop, findFrom_append, h, Option.map_some]
    simp only [hstart, hreplace, ok_bind, hnext]
    simp

/-- **The text** that `str_replace` leaves, up to the size an `int` can count. -/
theorem strReplace_text {str old new text : Bytes} {n : ℕ} (h : Replaces old new str text n)
    (hlen : text.length < 2147483648) : strReplace (n + 1) str old new = .ok (text, 0) := by
  simpa [strReplace] using strReplaceLoop_eq h [] 0 (n + 1) (Nat.lt_succ_self n) (by simpa using hlen)

theorem strRemove_text {str old text : Bytes} {n : ℕ} (h : Replaces old [] str text n)
    (hlen : text.length < 2147483648) : strRemove (n + 1) str old = .ok text := by
  rw [strRemove, strReplace_text h hlen]
  rfl

/-! ## The count -/

theorem strReplaceLoop_sum {old new : Bytes} {fuel : ℕ} {str : Bytes} {sum oldPos : ℕ} {res : Bytes × ℕ}
    (h : strReplaceLoop old new fuel str sum oldPos = .ok res) : res.2 = sum := by
  induction fuel generalizing str oldPos with
  | zero => cases h
  | succ fuel ih =>
    rw [strReplaceLoop] at h
    split at h
    · obtain rfl := Except.ok.inj h
      rfl
    · split at h
      · cases h
      · obtain ⟨str', -, h⟩ := run_bind_eq_ok.mp h
        exact ih h

/-- The function comes to an end, with the leftmost occurrences replaced, and returns how many there were. -/
def ReplacesAll (str old new : Bytes) : Prop :=
  ∃ fuel text n, strReplace fuel str old new = .ok (text, n) ∧ Replaces old new str text n

theorem ReplacesAll.find_eq_none {str old new : Bytes} (h : ReplacesAll str old new) : find old str = none := by
  obtain ⟨fuel, text, n, hrun, hreplaces⟩ := h
  have hsum : n = 0 := strReplaceLoop_sum hrun
  exact hreplaces.count_eq_zero.mp hsum

/-- **`str_replace` does what it is for** if and only if there is nothing to replace. -/
theorem replacesAll_iff (str old new : Bytes) : ReplacesAll str old new ↔ ¬ old <:+: str := by
  rw [← find_eq_none_iff]
  constructor
  · exact ReplacesAll.find_eq_none
  · intro h
    refine ⟨1, str, 0, ?_, .done h⟩
    rw [strReplace, strReplaceLoop, findFrom_zero, h]

/-- Two dots are doubled, and the number returned is zero. -/
theorem not_replacesAll_dots :
    strReplace 3 (lit "a.b.c") (lit ".") (lit "..") = .ok (lit "a..b..c", 0) ∧
      ¬ ReplacesAll (lit "a.b.c") (lit ".") (lit "..") := by
  refine ⟨by decide +kernel, fun h => ?_⟩
  have hfind : find (lit ".") (lit "a.b.c") = some 1 := by decide +kernel
  have hnone := h.find_eq_none
  rw [hfind] at hnone
  cases hnone

end Gts3
