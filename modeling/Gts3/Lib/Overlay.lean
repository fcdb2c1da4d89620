import Gts3.Lib.Maps
import Mathlib.Logic.Function.Basic

/-!
# Assignments over a base

`overlay base l` is a function after the assignments of a list, one after the other.  A key has the value of the last
assignment to it, and its value in the base when there is none (`overlay_apply`).  The entries of a map may be assigned
in any order (`lastValue_entries`).
-/

namespace Lib.Overlay

variable {κ ν : Type*} [DecidableEq κ]

/-- The function after assignments. -/
def overlay (base : κ → Option ν) (l : List (κ × ν)) : κ → Option ν :=
  l.foldl (fun f p => Function.update f p.1 (some p.2)) base

/-- The value of the last assignment to a key. -/
def lastValue (k : κ) : List (κ × ν) → Option ν
  | [] => none
  | p :: l => (lastValue k l).or (if p.1 = k then some p.2 else none)

theorem lastValue_append (k : κ) (l l' : List (κ × ν)) :
    lastValue k (l ++ l') = (lastValue k l').or (lastValue k l) := by
  induction l with
  | nil => simp [lastValue]
  | cons p l ih => rw [List.cons_append, lastValue, ih, lastValue, Option.or_assoc]

/-- **The last assignment counts.** -/
theorem overlay_apply (base : κ → Option ν) (l : List (κ × ν)) (k : κ) :
    overlay base l k = (lastValue k l).or (base k) := by
  induction l generalizing base with
  | nil => rfl
  | cons p l ih =>
    have hcons : overlay base (p :: l) = overlay (Function.update base p.1 (some p.2)) l := rfl
    rw [hcons, ih, lastValue, Option.or_assoc]
    by_cases h : p.1 = k
    · rw [← h, Function.update_self, if_pos rfl, Option.some_or]
    · rw [Function.update_of_ne (Ne.symm h), if_neg h, Option.none_or]

theorem mem_of_lastValue {k : κ} {l : List (κ × ν)} {v : ν} (h : lastValue k l = some v) : (k, v) ∈ l := by
  induction l with
  | nil => cases h
  | cons p l ih =>
    rw [lastValue, Option.or_eq_some_iff] at h
    rcases h with h | ⟨-, h⟩
    · exact List.mem_cons_of_mem _ (ih h)
    · rw [Option.ite_none_right_eq_some] at h
      obtain ⟨rfl, hv⟩ := h
      rw [Option.some.injEq] at hv
      exact hv ▸ List.mem_cons_self

theorem lastValue_eq_none_iff {k : κ} {l : List (κ × ν)} : lastValue k l = none ↔ k ∉ l.map Prod.fst := by
  induction l with
  | nil => simp [lastValue]
  | cons p l ih =>
    rw [lastValue, Option.or_eq_none_iff, ih, List.map_cons, List.mem_cons, not_or, and_comm]
    simp [eq_comm]

/-- An assignment to a key that no later one concerns. -/
theorem lastValue_cons_of_not_mem {p : κ × ν} {l : List (κ × ν)} (h : p.1 ∉ l.map Prod.fst) :
    lastValue p.1 (p :: l) = some p.2 := by
  rw [lastValue, lastValue_eq_none_iff.mpr h, Option.none_or, if_pos rfl]

theorem lastValue_spec {k : κ} {l : List (κ × ν)} {P : ν → Prop} (hmem : k ∈ l.map Prod.fst)
    (h : ∀ p ∈ l, p.1 = k → P p.2) : ∃ v, lastValue k l = some v ∧ P v := by
  cases hlast : lastValue k l with
  | none => exact absurd hmem (lastValue_eq_none_iff.mp hlast)
  | some v => exact ⟨v, rfl, h _ (mem_of_lastValue hlast) rfl⟩

theorem lastValue_of_forall {k : κ} {v : ν} {l : List (κ × ν)} (hmem : k ∈ l.map Prod.fst)
    (h : ∀ p ∈ l, p.1 = k → p.2 = v) : lastValue k l = some v := by
  obtain ⟨w, hlast, rfl⟩ := lastValue_spec (P := (· = v)) hmem h
  exact hlast

theorem lastValue_of_nodup {k : κ} {v : ν} {l : List (κ × ν)} (hnodup : (l.map Prod.fst).Nodup) (h : (k, v) ∈ l) :
    lastValue k l = some v :=
  lastValue_of_forall (List.mem_map_of_mem h) fun p hp hk => by
    have hsame := List.inj_on_of_nodup_map hnodup hp h hk
    exact congrArg Prod.snd hsame

/-- Of the entries of an ordered list whose keys become the same, the greatest counts. -/
theorem lastValue_map_of_last {α : Type*} {lt : α → α → Bool} {f : α → κ} {l : List (α × ν)}
    (hsorted : l.Pairwise fun p q => lt p.1 q.1 = true) {p : α × ν} (hp : p ∈ l)
    (hlast : ∀ q ∈ l, f q.1 = f p.1 → lt p.1 q.1 = false) :
    lastValue (f p.1) (l.map fun q => (f q.1, q.2)) = some p.2 := by
  induction l with
  | nil => cases hp
  | cons q l ih =>
    obtain ⟨hhead, htail⟩ := List.pairwise_cons.mp hsorted
    rw [List.map_cons]
    rcases List.mem_cons.mp hp with rfl | hp
    · refine lastValue_cons_of_not_mem (p := (f p.1, p.2)) fun hmem => ?_
      obtain ⟨e, he, hkey⟩ := List.mem_map.mp hmem
      obtain ⟨q, hq, rfl⟩ := List.mem_map.mp he
      have hless := hlast q (List.mem_cons_of_mem _ hq) hkey
      rw [hhead q hq] at hless
      cases hless
    · rw [lastValue, ih htail hp fun q' hq' => hlast q' (List.mem_cons_of_mem _ hq'), Option.some_or]

theorem lastValue_entries {m : UMap κ ν} {l : List (κ × ν)} (h : l.Perm m.entries) (k : κ) :
    lastValue k l = m.find? k := by
  have hnodup : (l.map Prod.fst).Nodup := (h.map Prod.fst).nodup_iff.mpr m.nodup
  cases hfind : m.find? k with
  | some v => exact lastValue_of_nodup hnodup (h.mem_iff.mpr (UMap.find?_eq_some_iff.mp hfind))
  | none =>
    rw [lastValue_eq_none_iff, (h.map Prod.fst).mem_iff, ← UMap.find?_isSome_iff, hfind]
    simp

/-- **Assigning to a map** is assigning to what it finds. -/
theorem find?_foldl_assign (m : UMap κ ν) (l : List (κ × ν)) :
    (l.foldl (fun m p => m.assign p.1 p.2) m).find? = overlay m.find? l := by
  induction l generalizing m with
  | nil => rfl
  | cons p l ih =>
    have hstep : (m.assign p.1 p.2).find? = Function.update m.find? p.1 (some p.2) := by
      funext k
      rw [UMap.find?_assign, Function.update_apply]
    rw [List.foldl_cons, ih, hstep]
    rfl

end Lib.Overlay
