import Mathlib.Data.List.Infix

/-!
# Searching a list for a pattern

`find pat s` is the index of the first occurrence of `pat` in `s`.  The search is stable under appending
(`find_append_of_some`), and for a *borderless* pattern (no proper suffix of it is a prefix of it, such as two
different letters) the first occurrence in `c ++ pat ++ t` is at `c.length` when `c` holds none
(`find_append_pat`).  `Replaces` says what replacing the leftmost occurrences makes of a list.
-/

namespace Lib.Search

variable {α : Type*}

/-- No proper nonempty suffix of the pattern is a prefix of it. -/
def Borderless (pat : List α) : Prop :=
  ∀ k, 0 < k → k < pat.length → ¬ pat.drop k <+: pat

theorem borderless_singleton (a : α) : Borderless [a] := by
  intro k h0 h1
  simp at h1
  omega

theorem borderless_pair {a b : α} (hab : a ≠ b) : Borderless [a, b] := by
  intro k h0 h1
  simp only [List.length_cons, List.length_nil] at h1
  obtain rfl : k = 1 := by omega
  simpa using hab.symm

variable [DecidableEq α]

/-- The index of the first occurrence of `pat`. -/
def find (pat : List α) : List α → Option ℕ
  | [] => if pat = [] then some 0 else none
  | a :: s => if pat <+: a :: s then some 0 else (find pat s).map (· + 1)

/-! ## What a result says -/

theorem find_eq_some {pat s : List α} {i : ℕ} (h : find pat s = some i) :
    ∃ a b, s = a ++ pat ++ b ∧ a.length = i := by
  induction s generalizing i with
  | nil =>
    simp only [find] at h
    split_ifs at h with hp
    obtain rfl : 0 = i := by simpa using h
    exact ⟨[], [], by simp [hp], rfl⟩
  | cons x s ih =>
    simp only [find] at h
    split_ifs at h with hp
    · obtain rfl : 0 = i := by simpa using h
      obtain ⟨t, ht⟩ := hp
      exact ⟨[], t, by simp [ht], rfl⟩
    · obtain ⟨j, hj, rfl⟩ := Option.map_eq_some_iff.mp h
      obtain ⟨a, b, rfl, rfl⟩ := ih hj
      exact ⟨x :: a, b, by simp, rfl⟩

theorem find_le {pat s : List α} {i : ℕ} (h : find pat s = some i) : i + pat.length ≤ s.length := by
  obtain ⟨a, b, rfl, rfl⟩ := find_eq_some h
  simp

theorem find_eq_none_iff {pat s : List α} : find pat s = none ↔ ¬ pat <:+: s := by
  induction s with
  | nil => simp [find]
  | cons x s ih =>
    simp only [find]
    split_ifs with hp
    · simpa using hp.isInfix
    · rw [Option.map_eq_none_iff, ih, List.infix_cons_iff]
      simp [hp]

theorem find_singleton_eq_none {a : α} {s : List α} : find [a] s = none ↔ a ∉ s := by
  rw [find_eq_none_iff, List.singleton_infix_iff]

/-! ## Searching a longer list -/

theorem find_append_of_some {pat s : List α} {i : ℕ} (h : find pat s = some i) (t : List α) :
    find pat (s ++ t) = some i := by
  induction s generalizing i with
  | nil =>
    simp only [find] at h
    split_ifs at h with hp
    subst hp
    cases t <;> simpa [find] using h
  | cons x s ih =>
    simp only [find, List.cons_append] at h ⊢
    split_ifs at h with hp
    · rwa [if_pos (show pat <+: x :: (s ++ t) from hp.trans (List.prefix_append (x :: s) t))]
    · obtain ⟨j, hj, rfl⟩ := Option.map_eq_some_iff.mp h
      have hlen := find_le hj
      -- the pattern fits into `x :: s`, so it does not straddle the border
      have hn : ¬ pat <+: x :: (s ++ t) := fun hp' =>
        hp (List.prefix_of_prefix_length_le hp' (List.prefix_append (x :: s) t) (by simp; omega))
      rw [if_neg hn, ih hj]
      rfl

/-- What stands before the first occurrence holds no other one. -/
theorem find_front {pat a b : List α} (h : find pat (a ++ pat ++ b) = some a.length) (hp : 0 < pat.length) :
    find pat a = none := by
  cases hf : find pat a with
  | none => rfl
  | some i =>
    have hle := find_le hf
    have hi := find_append_of_some hf (pat ++ b)
    rw [← List.append_assoc, h, Option.some.injEq] at hi
    omega

/-- **The first occurrence** of a borderless pattern behind a text without one. -/
theorem find_append_pat {pat : List α} (hb : Borderless pat) {c : List α} (hc : find pat c = none)
    (t : List α) : find pat (c ++ pat ++ t) = some c.length := by
  induction c with
  | nil =>
    cases hpt : pat ++ t with
    | nil => simp only [List.append_eq_nil_iff] at hpt; simp [hpt, find]
    | cons y u =>
      rw [List.nil_append, hpt, find, if_pos (hpt ▸ List.prefix_append pat t)]
      rfl
  | cons x c ih =>
    simp only [find] at hc
    split_ifs at hc with hp
    have hn : ¬ pat <+: x :: (c ++ pat ++ t) := by
      intro hp'
      rcases Nat.lt_or_ge (c.length + 1) pat.length with hlt | hge
      · -- an occurrence at the front would overlap the appended pattern
        refine hb (c.length + 1) (by omega) hlt ?_
        obtain ⟨u, hu⟩ := hp'
        have hd := congrArg (List.drop (c.length + 1)) hu
        rw [List.drop_append_of_le_length (by omega)] at hd
        have hd' : pat.drop (c.length + 1) ++ u = pat ++ t := by simpa using hd
        exact List.prefix_of_prefix_length_le ⟨u, hd'⟩ (List.prefix_append pat t) (by simp)
      · exact hp (List.prefix_of_prefix_length_le hp'
          ⟨pat ++ t, by simp⟩ (by simp; omega))
    rw [List.cons_append, List.cons_append, find, if_neg hn, ih (by simpa using hc)]
    rfl

theorem find_singleton_append {a : α} {c : List α} (hc : a ∉ c) (t : List α) :
    find [a] (c ++ a :: t) = some c.length := by
  simpa using find_append_pat (borderless_singleton a) (find_singleton_eq_none.mpr hc) t

/-- A text cut off before the end of its first pattern holds no pattern. -/
theorem find_of_prefix {pat : List α} (hb : Borderless pat) {c q : List α} (hc : find pat c = none)
    (hq : q <+: c ++ pat) (hne : q ≠ c ++ pat) : find pat q = none := by
  obtain ⟨t, ht⟩ := hq
  cases hf : find pat q with
  | none => rfl
  | some i =>
    have h1 := find_append_of_some hf t
    have h2 := find_append_pat hb hc []
    rw [List.append_nil, ← ht, h1] at h2
    obtain rfl : i = c.length := by simpa using h2
    have hlen := congrArg List.length ht
    have hle := find_le hf
    have ht0 : t = [] := List.length_eq_zero_iff.mp (by simp at hlen; omega)
    exact absurd (by simpa [ht0] using ht) hne

/-- Two texts without the pattern that are both followed by it are the same text. -/
theorem append_pat_inj {pat : List α} (hb : Borderless pat) {c c' t t' : List α}
    (hc : find pat c = none) (hc' : find pat c' = none) (h : c ++ pat ++ t = c' ++ pat ++ t') :
    c = c' ∧ t = t' := by
  have h1 := find_append_pat hb hc t
  rw [h, find_append_pat hb hc' t'] at h1
  have hlen : c'.length = c.length := by simpa using h1
  have h2 := List.append_inj h (by simp [hlen])
  exact ⟨List.append_cancel_right h2.1, h2.2⟩

/-! ## Searching from a position on -/

/-- The index of the first occurrence of `pat` from `pos` on. -/
def findFrom (pat s : List α) (pos : ℕ) : Option ℕ :=
  if pos ≤ s.length then (find pat (s.drop pos)).map (pos + ·) else none

@[simp] theorem findFrom_zero (pat s : List α) : findFrom pat s 0 = find pat s := by
  simp [findFrom]

theorem findFrom_append (pat a b : List α) : findFrom pat (a ++ b) a.length = (find pat b).map (a.length + ·) := by
  rw [findFrom, if_pos (by simp), List.drop_left]

/-! ## Replacing -/

/-- The leftmost occurrences of `old`, none of which overlaps another, are replaced by `new`; the number counts them. -/
inductive Replaces (old new : List α) : List α → List α → ℕ → Prop
  | done {s : List α} (h : find old s = none) : Replaces old new s s 0
  | next {a b t : List α} {n : ℕ} (h : find old (a ++ old ++ b) = some a.length) (ht : Replaces old new b t n) :
      Replaces old new (a ++ old ++ b) (a ++ new ++ t) (n + 1)

theorem Replaces.count_eq_zero {old new s t : List α} {n : ℕ} (h : Replaces old new s t n) :
    n = 0 ↔ find old s = none := by
  cases h with
  | done h => exact iff_of_true rfl h
  | next h _ => exact iff_of_false (Nat.succ_ne_zero _) (by rw [h]; nofun)

/-- A nonempty pattern can be replaced everywhere. -/
theorem exists_replaces {old : List α} (hold : old ≠ []) (new s : List α) : ∃ t n, Replaces old new s t n := by
  induction hn : s.length using Nat.strong_induction_on generalizing s with
  | _ n ih =>
    cases hf : find old s with
    | none => exact ⟨s, 0, .done hf⟩
    | some i =>
      obtain ⟨a, b, rfl, rfl⟩ := find_eq_some hf
      have hpos := List.length_pos_iff.mpr hold
      obtain ⟨t, k, ht⟩ := ih b.length (by simp at hn; omega) b rfl
      exact ⟨a ++ new ++ t, k + 1, .next hf ht⟩

/-- There is one way of doing so. -/
theorem Replaces.unique {old new s t t' : List α} {n n' : ℕ} (h : Replaces old new s t n)
    (h' : Replaces old new s t' n') : t = t' ∧ n = n' := by
  induction h generalizing t' n' with
  | done h =>
    cases h' with
    | done => exact ⟨rfl, rfl⟩
    | next h' => cases h.symm.trans h'
  | @next a b t n h ht ih =>
    generalize hs : a ++ old ++ b = s at h h'
    cases h' with
    | done h' => cases h.symm.trans h'
    | @next a' b' t' n' h' ht' =>
      have hlen : a.length = a'.length := Option.some.inj (h.symm.trans h')
      obtain ⟨hao, rfl⟩ := List.append_inj hs (by simp [hlen])
      obtain ⟨rfl, -⟩ := List.append_inj hao hlen
      obtain ⟨rfl, rfl⟩ := ih ht'
      exact ⟨rfl, rfl⟩

end Lib.Search
