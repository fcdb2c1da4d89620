import Mathlib.Data.List.DropRight

/-!
# Trimmed lists

`trim p` takes away what `p` holds of at both ends.  A list is `Trimmed` when nothing is taken away
(`trim_eq_self_iff`), which is so of every result (`trimmed_trim`).
-/

namespace Lib.Trim

variable {α : Type*} {p : α → Bool} {s t : List α}

/-- The list without the ends that `p` holds of. -/
def trim (p : α → Bool) (s : List α) : List α := (s.rdropWhile p).dropWhile p

/-- Blanks and tabs. -/
def isBlank (c : UInt8) : Bool := c = 32 ∨ c = 9

/-- `p` does not hold of the first element and not of the last one. -/
def Trimmed (p : α → Bool) (s : List α) : Prop := (∀ a ∈ s.head?, p a = false) ∧ ∀ a ∈ s.getLast?, p a = false

instance (p : α → Bool) (s : List α) : Decidable (Trimmed p s) := inferInstanceAs (Decidable (_ ∧ _))

@[simp] theorem trim_nil : trim p [] = [] := rfl

@[simp] theorem trimmed_nil : Trimmed p [] := ⟨fun _ h => by simp at h, fun _ h => by simp at h⟩

theorem trim_sublist (s : List α) : (trim p s).Sublist s :=
  (List.dropWhile_sublist _).trans (List.rdropWhile_prefix p s).sublist

theorem trimmed_trim (s : List α) : Trimmed p (trim p s) := by
  refine ⟨fun a ha => ?_, fun a ha => ?_⟩
  · have hhead := List.head?_dropWhile_not p (s.rdropWhile p)
    rw [← trim, ha] at hhead
    simpa using hhead
  · -- what is left at the front is a suffix, with the same last element
    have hne : trim p s ≠ [] := by
      rintro hnil
      rw [hnil] at ha
      cases ha
    have hsuffix : trim p s <:+ s.rdropWhile p := List.dropWhile_suffix p
    have hlast : (s.rdropWhile p).getLast? = some a := by
      obtain ⟨u, hu⟩ := hsuffix
      rw [← hu, List.getLast?_append, Option.mem_def.mp ha, Option.some_or]
    have hne' : s.rdropWhile p ≠ [] := by
      rintro hnil
      rw [hnil] at hlast
      cases hlast
    have hnot := List.rdropWhile_last_not p s hne'
    rw [List.getLast?_eq_some_getLast hne'] at hlast
    rw [← Option.some.inj hlast]
    simpa using hnot

/-- **Nothing is taken away** from a trimmed list, and from no other. -/
theorem trim_eq_self_iff : trim p s = s ↔ Trimmed p s := by
  constructor
  · intro h
    exact h ▸ trimmed_trim s
  · rintro ⟨hhead, hlast⟩
    have hright : s.rdropWhile p = s := by
      rw [List.rdropWhile_eq_self_iff]
      intro hne
      simpa using hlast _ (List.getLast?_eq_some_getLast hne)
    rw [trim, hright]
    cases s with
    | nil => rfl
    | cons a s =>
      have ha : p a = false := hhead a rfl
      rw [List.dropWhile_cons_of_neg (by simp [ha])]

theorem Trimmed.trim_eq (h : Trimmed p s) : trim p s = s := trim_eq_self_iff.mpr h

/-- What is taken away in front is counted on the whole list. -/
theorem trim_eq_drop (s : List α) : trim p s = (s.rdropWhile p).drop (s.takeWhile p).length := by
  obtain ⟨t, ht⟩ := List.rdropWhile_prefix p s
  by_cases hnil : s.rdropWhile p = []
  · rw [trim, hnil, List.dropWhile_nil, List.drop_nil]
  · -- the last element that is left ends the search in front
    have hstop : (s.rdropWhile p).takeWhile p ≠ s.rdropWhile p := fun hall =>
      List.rdropWhile_last_not p s hnil (List.takeWhile_eq_self_iff.mp hall _ (List.getLast_mem hnil))
    have hlen : ((s.rdropWhile p).takeWhile p).length ≠ (s.rdropWhile p).length := fun hlen =>
      hstop ((List.takeWhile_prefix p).eq_of_length hlen)
    have htake : s.takeWhile p = (s.rdropWhile p).takeWhile p := by
      conv_lhs => rw [← ht, List.takeWhile_append, if_neg hlen]
    have hsplit := List.takeWhile_append_dropWhile (p := p) (l := s.rdropWhile p)
    rw [trim, htake]
    calc (s.rdropWhile p).dropWhile p
        = ((s.rdropWhile p).takeWhile p ++ (s.rdropWhile p).dropWhile p).drop ((s.rdropWhile p).takeWhile p).length :=
          List.drop_left.symm
      _ = (s.rdropWhile p).drop ((s.rdropWhile p).takeWhile p).length := by rw [hsplit]

theorem trim_concat_of_pos {a : α} (ha : p a = true) : trim p (s ++ [a]) = trim p s := by
  rw [trim, List.rdropWhile_concat_pos p s a ha, trim]

theorem trim_cons_of_pos {a : α} (ha : p a = true) : trim p (a :: s) = trim p s := by
  induction s using List.reverseRecOn with
  | nil => rw [← List.nil_append [a], trim_concat_of_pos ha]
  | append_singleton s b ih =>
    by_cases hb : p b = true
    · rw [← List.cons_append, trim_concat_of_pos hb, ih, trim_concat_of_pos hb]
    · rw [trim, trim, ← List.cons_append, List.rdropWhile_concat_neg p _ b hb, List.rdropWhile_concat_neg p _ b hb,
        List.cons_append, List.dropWhile_cons_of_pos ha]

/-- Where the first element stays, it is the first element. -/
theorem head?_trim_of_head? {a : α} (ha : p a = false) (h : s.head? = some a) : (trim p s).head? = some a := by
  obtain ⟨s, rfl⟩ : ∃ t, s = a :: t := by
    cases s with
    | nil => cases h
    | cons b t => exact ⟨t, by rw [Option.some.inj h]⟩
  have hprefix := List.rdropWhile_prefix p (a :: s)
  have hne : (a :: s).rdropWhile p ≠ [] := by
    rw [Ne, List.rdropWhile_eq_nil_iff]
    intro hall
    exact absurd (hall a List.mem_cons_self) (by simp [ha])
  cases hr : (a :: s).rdropWhile p with
  | nil => exact absurd hr hne
  | cons b t =>
    rw [hr] at hprefix
    obtain rfl : b = a := (List.cons_prefix_cons.mp hprefix).1
    rw [trim, hr, List.dropWhile_cons_of_neg (by simp [ha]), List.head?_cons]

theorem trimmed_of_forall (h : ∀ a ∈ s, p a = false) : Trimmed p s :=
  ⟨fun a ha => h a (List.mem_of_mem_head? ha), fun a ha => h a (List.mem_of_getLast? ha)⟩

theorem Trimmed.append (hs : Trimmed p s) (hs' : s ≠ []) (u : List α) (ht : Trimmed p t) (ht' : t ≠ []) :
    Trimmed p (s ++ u ++ t) := by
  refine ⟨fun a ha => hs.1 a ?_, fun a ha => ht.2 a ?_⟩
  · rwa [List.append_assoc, List.head?_append_of_ne_nil _ hs'] at ha
  · rwa [List.getLast?_append_of_ne_nil _ ht'] at ha

theorem trimmed_intercalate {sep : List α} {ts : List (List α)} (h : ∀ t ∈ ts, t ≠ [] ∧ Trimmed p t) :
    Trimmed p (sep.intercalate ts) := by
  have key : Trimmed p (sep.intercalate ts) ∧ (ts ≠ [] → sep.intercalate ts ≠ []) := by
    induction ts with
    | nil => exact ⟨trimmed_nil, fun hne => absurd rfl hne⟩
    | cons t ts ih =>
      obtain ⟨hne, ht⟩ := h t List.mem_cons_self
      cases ts with
      | nil =>
        rw [List.intercalate_singleton]
        exact ⟨ht, fun _ => hne⟩
      | cons t' ts =>
        obtain ⟨hrest, hrest'⟩ := ih fun x hx => h x (List.mem_cons_of_mem t hx)
        rw [List.intercalate_cons_cons]
        exact ⟨ht.append hne sep hrest (hrest' (by simp)), fun _ => by simp [hne]⟩
  exact key.1

theorem Trimmed.append_cons {a : α} (hs : Trimmed p s) (ha : p a = false) (ht : Trimmed p t) :
    Trimmed p (s ++ a :: t) := by
  refine ⟨fun b hb => ?_, fun b hb => ?_⟩
  · cases s with
    | nil =>
      obtain rfl : a = b := by simpa using hb
      exact ha
    | cons c s => exact hs.1 b (by simpa using hb)
  · cases t using List.reverseRecOn with
    | nil =>
      obtain rfl : a = b := by simpa using hb
      exact ha
    | append_singleton t c =>
      refine ht.2 b ?_
      rw [List.getLast?_append, List.getLast?_cons] at hb
      simpa using hb

end Lib.Trim
