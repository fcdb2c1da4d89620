import Mathlib.Data.List.Nodup
import Mathlib.Data.List.Count

/-!
# Unordered multimaps as lists

The list of the pairs is the order in which a loop comes by them; the container promises no order, so what is said
about a loop has to hold for all of them.
-/

namespace Lib

/-- A multimap: its pairs. -/
abbrev MultiMap (κ ν : Type*) := List (κ × ν)

namespace MultiMap

variable {κ ν : Type*} [DecidableEq κ]

/-- `m.count(k)`. -/
def count (m : MultiMap κ ν) (k : κ) : ℕ := m.countP (fun p => p.1 = k)

/-- `m.find(k) != m.end()`. -/
def contains (m : MultiMap κ ν) (k : κ) : Bool := m.any (fun p => p.1 = k)

/-- `m.emplace(k, v)`. -/
def emplace (m : MultiMap κ ν) (k : κ) (v : ν) : MultiMap κ ν := m ++ [(k, v)]

/-- `m.erase(k)`: all pairs with the key. -/
def erase (m : MultiMap κ ν) (k : κ) : MultiMap κ ν := m.filter (fun p => p.1 ≠ k)

theorem contains_iff {m : MultiMap κ ν} {k : κ} : m.contains k = true ↔ 0 < m.count k := by
  simp [contains, count, List.countP_pos_iff]

theorem contains_iff_mem {m : MultiMap κ ν} {k : κ} : m.contains k = true ↔ k ∈ m.map Prod.fst := by
  simp [contains]

theorem count_pos_of_mem {m : MultiMap κ ν} {p : κ × ν} (h : p ∈ m) : 0 < m.count p.1 :=
  List.countP_pos_iff.mpr ⟨p, h, by simp⟩

theorem count_append (m m' : MultiMap κ ν) (k : κ) : count (m ++ m') k = m.count k + m'.count k :=
  List.countP_append

theorem count_erase_of_ne (m : MultiMap κ ν) {k k' : κ} (h : k' ≠ k) : (m.erase k).count k' = m.count k' := by
  rw [count, erase, List.countP_filter, count]
  refine List.countP_congr fun p _ => ?_
  simp only [decide_eq_true_eq, Bool.and_eq_true, and_iff_left_iff_imp]
  rintro rfl
  exact h

theorem filter_erase (m : MultiMap κ ν) (k : κ) (P : κ × ν → Bool) :
    (m.erase k).filter P = m.filter (fun p => P p && decide (p.1 ≠ k)) := List.filter_filter

/-- Among distinct keys, every key counts once. -/
theorem count_eq_one {m : MultiMap κ ν} (h : (m.map Prod.fst).Nodup) {p : κ × ν} (hp : p ∈ m) : m.count p.1 = 1 := by
  have hcount : m.count p.1 = (m.map Prod.fst).count p.1 := by
    rw [count, List.count, List.countP_map]
    exact List.countP_congr fun q _ => by simp
  rw [hcount]
  exact List.count_eq_one_of_mem h (List.mem_map_of_mem hp)

/-- Erase every key of the list that counts more than once. -/
def eraseRepeated (keys : List κ) (m : MultiMap κ ν) : MultiMap κ ν :=
  keys.foldl (fun m k => if 1 < m.count k then m.erase k else m) m

/-- **What is left**: the keys that are not in the list, and those that counted once. -/
theorem eraseRepeated_eq (keys : List κ) (m : MultiMap κ ν) :
    eraseRepeated keys m = m.filter (fun p => ¬ (p.1 ∈ keys ∧ 1 < m.count p.1)) := by
  induction keys generalizing m with
  | nil => simp [eraseRepeated]
  | cons k keys ih =>
    rw [eraseRepeated, List.foldl_cons, ← eraseRepeated, ih]
    by_cases hk : 1 < m.count k
    · rw [if_pos hk, filter_erase]
      refine List.filter_congr fun p _ => ?_
      by_cases hp : p.1 = k
      · simp [hp, hk]
      · rw [count_erase_of_ne m hp]
        simp [hp]
    · rw [if_neg hk]
      refine List.filter_congr fun p _ => ?_
      by_cases hp : p.1 = k
      · simp [hp, Nat.le_of_not_lt hk]
      · simp [hp]

/-- When the list has all keys, what counted once is left. -/
theorem eraseRepeated_of_forall {keys : List κ} {m : MultiMap κ ν} (h : ∀ p ∈ m, p.1 ∈ keys) :
    eraseRepeated keys m = m.filter (fun p => m.count p.1 ≤ 1) := by
  rw [eraseRepeated_eq]
  refine List.filter_congr fun p hp => ?_
  simp [h p hp]

end MultiMap

end Lib
