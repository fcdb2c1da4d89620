import Gts3.Lib.LineMachine

/-!
# Reading in rounds

A reader that keeps nothing of a segment but the state behind it: before the next segment the state is changed by
`again`, and an unfinished line is never completed.  `Rounds m again r s p ps ss` says that the segment `p` and then
the segments `ps` are read in this way, up to the result `r`; the states behind the segments are `ss`.
-/

namespace Lib.LineMachine

open Search

variable {α σ ρ : Type*} [DecidableEq α]

/-- The segments are read in rounds; all but the last one hold whole lines. -/
inductive Rounds (m : Machine α σ ρ) (again : σ → σ) (r : ρ) : σ → List α → List (List α) → List σ → Prop
  | last {s s' : σ} {p rest : List α} (ps : List (List α)) (h : drain m s p = .done s' r rest) :
      Rounds m again r s p ps [s']
  | next {s s' : σ} {p q : List α} {ps : List (List α)} {ss : List σ} (h : drain m s p = .more s' [])
      (hrest : Rounds m again r (again s') q ps ss) : Rounds m again r s p (q :: ps) (s' :: ss)

variable {m : Machine α σ ρ} {again : σ → σ} {r : ρ} {s : σ} {p : List α} {ps : List (List α)} {ss : List σ}

theorem Rounds.nil (hm : 0 < m.limit) (h : Rounds m again r s [] ps ss) :
    ∃ q qs ss', ps = q :: qs ∧ ss = s :: ss' ∧ Rounds m again r (again s) q qs ss' := by
  have hdrain : drain m s [] = .more s [] := drain_short (by simp [find, m.delim_ne_nil]) hm
  cases h with
  | last ps h =>
    rw [hdrain] at h
    cases h
  | next h hrest =>
    rw [hdrain] at h
    obtain ⟨rfl, -⟩ := Outcome.more.inj h
    exact ⟨_, _, _, rfl, rfl, hrest⟩

/-- **No segment ends inside a line**, unless it is empty. -/
theorem Rounds.find_ne_none (hover : ∀ s, ∃ s' r', m.overlong s = (s', some r') ∧ r' ≠ r)
    (h : Rounds m again r s p ps ss) (hp : p ≠ []) : find m.delim p ≠ none := by
  intro hf
  obtain ⟨s', r', ho, hr⟩ := hover s
  -- the segment stays in the buffer, or is too long
  have hdrain : drain m s p = .more s p ∨ drain m s p = .done s' r' p := by
    rcases Nat.lt_or_ge p.length m.limit with hl | hl
    · exact Or.inl (drain_short hf hl)
    · right
      rw [drain_overlong hf hl, ho]
  cases h with
  | last ps h =>
    rcases hdrain with hd | hd
    · rw [hd] at h
      cases h
    · rw [hd] at h
      exact hr (Outcome.done.inj h).2.1
  | next h hrest =>
    rcases hdrain with hd | hd
    · rw [hd] at h
      exact hp (Outcome.more.inj h).2
    · rw [hd] at h
      cases h

/-- **A line** is in one segment, and the rounds go on behind it. -/
theorem Rounds.line (hover : ∀ s, ∃ s' r', m.overlong s = (s', some r') ∧ r' ≠ r)
    (h : Rounds m again r s p ps ss) (hp : p ≠ []) {l rest : List α} (hl : IsLine m.delim l)
    (htext : p ++ ps.flatten = l ++ rest) :
    ∃ p', p = l ++ p' ∧ p' ++ ps.flatten = rest ∧
      (∀ s', m.line s l = .next s' → Rounds m again r s' p' ps ss) ∧
      ∀ s' r', m.line s l = .stop s' r' → r' = r ∧ ss = [s'] := by
  obtain ⟨p', rfl⟩ : l <+: p := by
    refine List.prefix_of_prefix_length_le ⟨rest, htext.symm⟩ (List.prefix_append p _) (Nat.le_of_not_lt fun hlt => ?_)
    obtain ⟨c, hc, rfl⟩ := hl
    have hpre : p <+: c ++ m.delim :=
      List.prefix_of_prefix_length_le ⟨_, htext⟩ (List.prefix_append _ rest) hlt.le
    have hnone : find m.delim p = none :=
      find_of_prefix m.borderless hc hpre (by rintro rfl; exact Nat.lt_irrefl _ hlt)
    exact h.find_ne_none hover hp hnone
  refine ⟨p', rfl, List.append_cancel_left (by rw [← List.append_assoc, htext]), fun s' hs' => ?_, fun s' r' hs' => ?_⟩
  · have hdrain : drain m s (l ++ p') = drain m s' p' := by rw [drain_line hl, hs']
    cases h with
    | last ps h => exact .last ps (hdrain ▸ h)
    | next h hrest => exact .next (hdrain ▸ h) hrest
  · have hdrain : drain m s (l ++ p') = .done s' r' p' := by rw [drain_line hl, hs']
    cases h with
    | last ps h =>
      rw [hdrain] at h
      obtain ⟨rfl, rfl, -⟩ := Outcome.done.inj h
      exact ⟨rfl, rfl⟩
    | next h hrest =>
      rw [hdrain] at h
      cases h

/-! ## The lines that are read -/

variable (m again r) in
/-- The lines one by one: `n` is what is left of the segment, `sizes` are the lengths of the next ones. -/
inductive Turns : σ → ℕ → List (List α) → List ℕ → List σ → Prop
  | turn {s : σ} {n : ℕ} {ls : List (List α)} {sizes : List ℕ} {ss : List σ} (h : Turns (again s) n ls sizes ss) :
      Turns s 0 ls (n :: sizes) (s :: ss)
  | line {s s' : σ} {n : ℕ} {l : List α} {ls : List (List α)} {sizes : List ℕ} {ss : List σ}
      (hl : m.line s l = .next s') (h : Turns s' n ls sizes ss) : Turns s (l.length + n) (l :: ls) sizes ss
  | stop {s s' : σ} {n : ℕ} {l : List α} {ls : List (List α)} {sizes : List ℕ} (hl : m.line s l = .stop s' r) :
      Turns s (l.length + n) (l :: ls) sizes [s']

/-- **Rounds are turns**: no line is cut. -/
theorem Rounds.turns (hm : 0 < m.limit) (hover : ∀ s, ∃ s' r', m.overlong s = (s', some r') ∧ r' ≠ r)
    (hdrop : ∀ s l s', m.line s l ≠ .drop s') {ls : List (List α)} (hls : ∀ l ∈ ls, IsLine m.delim l)
    (h : Rounds m again r s p ps ss) (htext : p ++ ps.flatten = ls.flatten) :
    Turns m again r s p.length ls (ps.map List.length) ss := by
  induction hn : ps.length + ls.length using Nat.strong_induction_on generalizing s p ps ss ls with
  | _ n ih =>
    rcases eq_or_ne p [] with rfl | hp
    · obtain ⟨q, qs, ss', rfl, rfl, hrest⟩ := h.nil hm
      exact .turn (ih _ (by simp only [List.length_cons] at hn; omega) hls hrest (by simpa using htext) rfl)
    · cases ls with
      | nil => exact absurd (List.append_eq_nil_iff.mp htext).1 hp
      | cons l ls =>
        obtain ⟨p', rfl, hrest, hnext, hstop⟩ := h.line hover hp (hls l (by simp)) htext
        rw [List.length_append]
        cases hv : m.line s l with
        | next s' =>
          exact .line hv (ih _ (by simp only [List.length_cons] at hn; omega) (fun l' hl' => hls l' (by simp [hl']))
            (hnext s' hv) hrest rfl)
        | drop s' => exact absurd hv (hdrop s l s')
        | stop s' r' =>
          obtain ⟨rfl, rfl⟩ := hstop s' r' hv
          exact .stop hv

end Lib.LineMachine
