import Gts3.Lib.Cxx

/-!
# Normal forms of paths

A path is a text with separators; its parts are the nonempty texts between them.  `normalForm` collapses runs of
separators, puts one in front and takes one off the end, unless nothing else is left.  It depends on the parts only
(`normalForm_eq`), so paths that are joined have the parts of both (`parts_join`).
-/

namespace Lib.SlashPath

open Cxx

variable {α : Type} [DecidableEq α] (sep : α)

/-- Both are the separator. -/
def sameSep (a b : α) : Bool := a == b && a == sep

/-- Runs of separators become one. -/
def collapse (s : List α) : List α := unique (sameSep sep) s

/-- One separator is taken off the end, unless nothing else is left. -/
def strip (s : List α) : List α := if s.length > 1 ∧ s.getLast? = some sep then s.dropLast else s

/-- One separator in front, none at the end, and no two of them in a row. -/
def normalForm (s : List α) : List α := strip sep (collapse sep (sep :: s))

/-- The parts of a path. -/
def parts (s : List α) : List (List α) := (s.splitOn sep).filter (· ≠ [])

/-- A path from its parts, with a separator in front of each. -/
def render (ps : List (List α)) : List α := ps.flatMap (sep :: ·)

variable {sep}

/-! ## Parts -/

@[simp] theorem parts_nil : parts sep [] = [] := by simp [parts, List.splitOn_nil]

@[simp] theorem parts_cons_sep (s : List α) : parts sep (sep :: s) = parts sep s := by
  have h : ([] ++ sep :: s).splitOn sep = _ := List.splitOn_append_cons_self_of_not_mem (by simp) s
  rw [parts, parts, ← List.nil_append (sep :: s), h]
  rfl

theorem parts_of_not_mem {t : List α} (ht : sep ∉ t) (hne : t ≠ []) : parts sep t = [t] := by
  simp [parts, List.splitOn_eq_singleton ht, hne]

theorem parts_append_cons {t : List α} (ht : sep ∉ t) (hne : t ≠ []) (s : List α) :
    parts sep (t ++ sep :: s) = t :: parts sep s := by
  rw [parts, List.splitOn_append_cons_self_of_not_mem ht, List.filter_cons_of_pos (by simpa using hne), parts]

/-- **Joined paths** have the parts of both. -/
theorem parts_join (s t : List α) : parts sep (s ++ sep :: t) = parts sep s ++ parts sep t := by
  simp [parts, List.splitOn_append_cons_self]

theorem not_mem_of_mem_parts {s t : List α} (h : t ∈ parts sep s) : sep ∉ t := by
  induction hn : s.length using Nat.strong_induction_on generalizing s with
  | _ n ih =>
    by_cases hs : sep ∈ s
    · obtain ⟨a, b, rfl, ha⟩ := List.eq_append_cons_of_mem hs
      have hb : b.length < n := by
        rw [← hn, List.length_append, List.length_cons]
        omega
      rw [parts_join] at h
      rcases List.mem_append.mp h with h | h
      · by_cases hne : a = []
        · simp [hne] at h
        · rw [parts_of_not_mem ha hne, List.mem_singleton] at h
          rwa [h]
      · exact ih _ hb h rfl
    · by_cases hne : s = []
      · simp [hne] at h
      · rw [parts_of_not_mem hs hne, List.mem_singleton] at h
        rwa [h]

/-- A path without parts has nothing but separators. -/
theorem parts_eq_nil_iff {s : List α} : parts sep s = [] ↔ ∀ a ∈ s, a = sep := by
  induction hn : s.length using Nat.strong_induction_on generalizing s with
  | _ n ih =>
    by_cases hs : sep ∈ s
    · obtain ⟨a, b, rfl, ha⟩ := List.eq_append_cons_of_mem hs
      have hb : b.length < n := by
        rw [← hn, List.length_append, List.length_cons]
        omega
      by_cases hne : a = []
      · subst hne
        simpa using ih _ hb rfl
      · obtain ⟨x, t, rfl⟩ := List.exists_cons_of_ne_nil hne
        rw [parts_append_cons ha hne]
        simpa using fun h : x = sep => absurd h (fun h => ha (by simp [h]))
    · by_cases hne : s = []
      · simp [hne]
      · rw [parts_of_not_mem hs hne]
        obtain ⟨x, t, rfl⟩ := List.exists_cons_of_ne_nil hne
        simpa using fun h : x = sep => absurd h (fun h => hs (by simp [h]))

theorem ne_nil_of_mem_parts {s t : List α} (h : t ∈ parts sep s) : t ≠ [] := by
  simpa using (List.mem_filter.mp h).2

/-! ## Collapsing -/

theorem collapse_cons (a : α) (s : List α) : collapse sep (a :: s) = a :: uniqueFrom (sameSep sep) a s := rfl

theorem collapse_cons_cons (s : List α) : collapse sep (sep :: sep :: s) = collapse sep (sep :: s) := by
  simp [collapse, unique, uniqueFrom, sameSep]

/-- Behind anything but a separator nothing is left out. -/
theorem uniqueFrom_of_ne {a : α} (ha : a ≠ sep) (s : List α) : uniqueFrom (sameSep sep) a s = collapse sep s := by
  cases s with
  | nil => rfl
  | cons b s => simp [uniqueFrom, sameSep, ha, collapse, unique]

theorem collapse_append {t : List α} (ht : sep ∉ t) (s : List α) : collapse sep (t ++ s) = t ++ collapse sep s := by
  induction t with
  | nil => rfl
  | cons a t ih =>
    have ha : a ≠ sep := fun h => ht (by simp [h])
    rw [List.cons_append, collapse_cons, uniqueFrom_of_ne ha, ih fun h => ht (by simp [h])]
    rfl

theorem collapse_sep_append {t : List α} (ht : sep ∉ t) (hne : t ≠ []) (s : List α) :
    collapse sep (sep :: (t ++ s)) = sep :: t ++ collapse sep s := by
  obtain ⟨a, t, rfl⟩ := List.exists_cons_of_ne_nil hne
  have ha : a ≠ sep := fun h => ht (by simp [h])
  have hkeep : uniqueFrom (sameSep sep) sep (a :: (t ++ s)) = collapse sep (a :: t ++ s) := by
    simp [uniqueFrom, sameSep, Ne.symm ha, collapse, unique]
  rw [collapse_cons, List.cons_append, hkeep, collapse_append ht]
  rfl

theorem collapse_sep_cons (s : List α) :
    collapse sep (sep :: s) = if s.head? = some sep then collapse sep s else sep :: collapse sep s := by
  cases s with
  | nil => simp [collapse, unique, uniqueFrom]
  | cons a s =>
    by_cases ha : a = sep
    · rw [ha, collapse_cons_cons, List.head?_cons, if_pos rfl]
    · have hs : sameSep sep sep a = false := by simp [sameSep, Ne.symm ha]
      rw [List.head?_cons, if_neg (by simpa using ha), collapse_cons, uniqueFrom, hs, if_neg (by simp), collapse_cons]

theorem head?_collapse (s : List α) : (collapse sep s).head? = s.head? := by
  cases s <;> rfl

theorem not_double_uniqueFrom (a : α) (s : List α) : ¬ [sep, sep] <:+: a :: uniqueFrom (sameSep sep) a s := by
  induction s generalizing a with
  | nil =>
    intro h
    simpa [uniqueFrom] using h.length_le
  | cons b s ih =>
    rw [uniqueFrom]
    split_ifs with hs
    · exact ih a
    · intro h
      rcases List.infix_cons_iff.mp h with hp | hi
      · obtain ⟨ha, hp⟩ := List.cons_prefix_cons.mp hp
        obtain ⟨hb, -⟩ := List.cons_prefix_cons.mp hp
        simp [sameSep, ← ha, ← hb] at hs
      · exact ih b hi

/-- **No two separators in a row** are left. -/
theorem not_double_collapse (s : List α) : ¬ [sep, sep] <:+: collapse sep s := by
  cases s with
  | nil => simp [collapse, unique]
  | cons a s => exact not_double_uniqueFrom a s

/-- A path without two separators in a row is left as it is. -/
theorem collapse_eq_self {s : List α} (h : ¬ [sep, sep] <:+: s) : collapse sep s = s := by
  have key : ∀ (a : α) (s : List α), ¬ [sep, sep] <:+: a :: s → uniqueFrom (sameSep sep) a s = s := by
    intro a s h
    induction s generalizing a with
    | nil => rfl
    | cons b s ih =>
      have hs : sameSep sep a b = false := by
        by_contra hc
        simp only [sameSep, Bool.not_eq_false, Bool.and_eq_true, beq_iff_eq] at hc
        obtain ⟨rfl, rfl⟩ := hc
        exact h (List.prefix_append [a, a] s).isInfix
      rw [uniqueFrom, hs, if_neg (by simp), ih b fun hc => h (hc.trans (List.suffix_cons _ _).isInfix)]
  cases s with
  | nil => rfl
  | cons a s => rw [collapse_cons, key a s h]

theorem collapse_collapse (s : List α) : collapse sep (collapse sep s) = collapse sep s :=
  collapse_eq_self (not_double_collapse s)

/-! ## Normal forms -/

/-- The separator that collapsing leaves at the end. -/
def trail (sep : α) (s : List α) : List α := if s = [] ∨ s.getLast? = some sep then [sep] else []

/-- **Collapsing** leaves the parts, each behind a separator, and perhaps a separator at the end. -/
theorem collapse_eq (s : List α) : collapse sep (sep :: s) = render sep (parts sep s) ++ trail sep s := by
  induction hn : s.length using Nat.strong_induction_on generalizing s with
  | _ n ih =>
    by_cases hs : sep ∈ s
    · obtain ⟨t, s', rfl, ht⟩ := List.eq_append_cons_of_mem hs
      have hlen : s'.length < n := by
        rw [← hn, List.length_append, List.length_cons]
        omega
      have htrail : trail sep (t ++ sep :: s') = trail sep s' := by
        simp only [trail, List.append_eq_nil_iff, reduceCtorEq, and_false, false_or, List.getLast?_append,
          List.getLast?_cons]
        cases s' using List.reverseRecOn <;> simp
      rw [parts_join, htrail]
      by_cases hne : t = []
      · rw [hne, List.nil_append, collapse_cons_cons, ih _ hlen s' rfl, parts_nil, List.nil_append]
      · rw [collapse_sep_append ht hne, ih _ hlen s' rfl, parts_of_not_mem ht hne]
        simp [render]
    · by_cases hne : s = []
      · simp [hne, render, trail, collapse, unique, uniqueFrom]
      · have hlast : s.getLast? ≠ some sep := fun h => hs (List.mem_of_getLast? h)
        have := collapse_sep_append hs hne []
        rw [List.append_nil] at this
        rw [this, parts_of_not_mem hs hne]
        simp [render, trail, hne, hlast, collapse, unique]

theorem trail_of_parts_nil {s : List α} (h : parts sep s = []) : trail sep s = [sep] := by
  have hc : collapse sep (sep :: s) = _ := collapse_eq s
  rw [h, render, List.flatMap_nil, List.nil_append, collapse_cons] at hc
  unfold trail at hc ⊢
  split_ifs at hc ⊢ with hs
  rfl

omit [DecidableEq α] in
theorem getLast?_render {ps : List (List α)} (hps : ∀ p ∈ ps, p ≠ [] ∧ sep ∉ p) :
    (render sep ps).getLast? ≠ some sep := by
  induction ps using List.reverseRecOn with
  | nil => simp [render]
  | append_singleton ps p =>
    obtain ⟨hne, hp⟩ := hps p (by simp)
    have hlast : (render sep (ps ++ [p])).getLast? = p.getLast? := by
      obtain ⟨a, p, rfl⟩ := List.exists_cons_of_ne_nil hne
      simp [render, List.getLast?_append, List.getLast?_cons]
    rw [hlast]
    exact fun h => hp (List.mem_of_getLast? h)

theorem parts_ok (s : List α) : ∀ p ∈ parts sep s, p ≠ [] ∧ sep ∉ p := fun _ hp =>
  ⟨ne_nil_of_mem_parts hp, not_mem_of_mem_parts hp⟩

omit [DecidableEq α] in
theorem length_render_pos (sep : α) {ps : List (List α)} (h : ps ≠ []) : 0 < (render sep ps).length := by
  obtain ⟨p, ps, rfl⟩ := List.exists_cons_of_ne_nil h
  simp [render]

/-- Without the separator at its end, a collapsed path is that of its parts; the one in front may be missing. -/
theorem dropLast_drop_render (sep : α) (s : List α) {k : ℕ} (hk : k ≤ 1) :
    (if (render sep (parts sep s) ++ trail sep s).drop k ≠ [] ∧
        ((render sep (parts sep s) ++ trail sep s).drop k).getLast? = some sep then
      ((render sep (parts sep s) ++ trail sep s).drop k).dropLast
    else (render sep (parts sep s) ++ trail sep s).drop k) = (render sep (parts sep s)).drop k := by
  by_cases hp : parts sep s = []
  · rw [trail_of_parts_nil hp, hp]
    obtain rfl | rfl : k = 0 ∨ k = 1 := by omega
    · simp [render]
    · simp [render]
  · have hlen := length_render_pos sep hp
    have hsplit : ∀ t : List α, (render sep (parts sep s) ++ t).drop k = (render sep (parts sep s)).drop k ++ t :=
      fun t => List.drop_append_of_le_length (by omega)
    unfold trail
    split_ifs with hs hl hl
    · rw [hsplit, List.dropLast_append_of_ne_nil (by simp)]
      simp
    · exact absurd ⟨by simp [hsplit], by simp [hsplit]⟩ hl
    · -- the last part does not end with a separator
      rw [List.append_nil] at hl
      obtain ⟨hne, hlast⟩ := hl
      have hend : (render sep (parts sep s)).getLast? = some sep := by
        rw [← List.take_append_drop k (render sep (parts sep s)), List.getLast?_append, hlast]
        rfl
      exact absurd hend (getLast?_render (parts_ok s))
    · rw [List.append_nil]

/-- **The normal form** depends on the parts only. -/
theorem normalForm_eq (s : List α) :
    normalForm sep s = if parts sep s = [] then [sep] else render sep (parts sep s) := by
  rw [normalForm, collapse_eq]
  by_cases hp : parts sep s = []
  · rw [if_pos hp, hp, trail_of_parts_nil hp]
    simp [strip, render]
  · rw [if_neg hp]
    have hpos := length_render_pos sep hp
    unfold trail strip
    split_ifs with hs hl hl
    · rw [List.dropLast_append_of_ne_nil (by simp)]
      simp
    · exact absurd ⟨by simp; omega, by simp⟩ hl
    · rw [List.append_nil] at hl
      exact absurd hl.2 (getLast?_render (parts_ok s))
    · rw [List.append_nil]

theorem parts_render {ps : List (List α)} (hps : ∀ p ∈ ps, p ≠ [] ∧ sep ∉ p) : parts sep (render sep ps) = ps := by
  induction ps with
  | nil => simp [render]
  | cons p ps ih =>
    obtain ⟨hne, hp⟩ := hps p (by simp)
    have ih := ih fun q hq => hps q (by simp [hq])
    have hcons : render sep (p :: ps) = sep :: (p ++ render sep ps) := by simp [render]
    rw [hcons, parts_cons_sep]
    cases ps with
    | nil => simpa [render] using parts_of_not_mem hp hne
    | cons q ps =>
      have hq : render sep (q :: ps) = sep :: (q ++ render sep ps) := by simp [render]
      rw [hq, parts_append_cons hp hne, ← parts_cons_sep, ← hq, ih]

/-- A collapsed path that starts with a separator only loses a separator at its end. -/
theorem normalForm_of_collapsed {s : List α} (h : collapse sep s = s) (hhead : s.head? = some sep) :
    normalForm sep s = strip sep s := by
  obtain ⟨t, rfl⟩ : ∃ t, s = sep :: t := by
    cases s with
    | nil => simp at hhead
    | cons a t => exact ⟨t, by simpa using hhead⟩
  rw [normalForm, collapse_cons_cons, h]

theorem not_double_render {s : List α} : ¬ [sep, sep] <:+: render sep (parts sep s) := fun h =>
  not_double_collapse (sep :: s) (by
    rw [collapse_eq]
    exact h.trans (List.prefix_append _ _).isInfix)

end Lib.SlashPath
