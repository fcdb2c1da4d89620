import Mathlib.Data.List.Pairwise
import Mathlib.Data.List.Nodup

/-!
# Ordered and unordered maps as lists

`OrdMap κ ν lt` is a map kept in the order of a strict weak order `lt`, at most one entry for each class of
incomparable keys.  An assignment to a key that is there keeps the old spelling of the key and changes the value.
`UMap κ ν` is a map with at most one entry for each key; its list order carries no meaning, and no operation
depends on it.  `USet κ` is a set of keys.
-/

namespace Lib

/-! ## Ordered maps -/

/-- A strict weak order, as a comparison function of an ordered container must be. -/
class StrictWeak {κ : Type*} (lt : κ → κ → Bool) : Prop where
  irrefl : ∀ a, lt a a = false
  trans : ∀ {a b c}, lt a b = true → lt b c = true → lt a c = true
  incomp_trans : ∀ {a b c}, lt a b = false → lt b a = false → lt b c = false → lt c b = false →
    lt a c = false ∧ lt c a = false

/-- The keys are incomparable: the container does not tell them apart. -/
def Same {κ : Type*} (lt : κ → κ → Bool) (a b : κ) : Prop := lt a b = false ∧ lt b a = false

instance {κ : Type*} (lt : κ → κ → Bool) (a b : κ) : Decidable (Same lt a b) :=
  inferInstanceAs (Decidable (_ ∧ _))

section Same

variable {κ : Type*} {lt : κ → κ → Bool} [StrictWeak lt] {a b c : κ}

theorem Same.refl (a : κ) : Same lt a a := ⟨StrictWeak.irrefl a, StrictWeak.irrefl a⟩

omit [StrictWeak lt] in
theorem Same.symm (h : Same lt a b) : Same lt b a := ⟨h.2, h.1⟩

theorem Same.trans (h : Same lt a b) (h' : Same lt b c) : Same lt a c :=
  StrictWeak.incomp_trans h.1 h.2 h'.1 h'.2

omit [StrictWeak lt] in
theorem not_same_of_lt (h : lt a b = true) : ¬ Same lt a b := by
  rintro ⟨h1, -⟩
  simp [h] at h1

end Same

/-- A map in the order of its keys. -/
structure OrdMap (κ ν : Type*) (lt : κ → κ → Bool) where
  entries : List (κ × ν)
  sorted : entries.Pairwise (fun a b => lt a.1 b.1 = true)
  deriving DecidableEq

namespace OrdMap

variable {κ ν : Type*} {lt : κ → κ → Bool}

/-- The empty map. -/
def empty : OrdMap κ ν lt := ⟨[], List.Pairwise.nil⟩

instance : Inhabited (OrdMap κ ν lt) := ⟨empty⟩

/-- Assignment on the list of entries. -/
def insertEntries (lt : κ → κ → Bool) (k : κ) (v : ν) : List (κ × ν) → List (κ × ν)
  | [] => [(k, v)]
  | e :: m =>
    if lt k e.1 then (k, v) :: e :: m
    else if lt e.1 k then e :: insertEntries lt k v m
    else (e.1, v) :: m

theorem mem_insertEntries {k : κ} {v : ν} {m : List (κ × ν)} {x : κ × ν}
    (h : x ∈ insertEntries lt k v m) : x = (k, v) ∨ (x.2 = v ∧ ∃ e ∈ m, x.1 = e.1) ∨ x ∈ m := by
  induction m with
  | nil => exact Or.inl (by simpa [insertEntries] using h)
  | cons e m ih =>
    simp only [insertEntries] at h
    split_ifs at h with h1 h2
    · rcases List.mem_cons.mp h with h | h
      · exact Or.inl h
      · exact Or.inr (Or.inr h)
    · rcases List.mem_cons.mp h with h | h
      · exact Or.inr (Or.inr (by simp [h]))
      · rcases ih h with h | ⟨h, e', he', hx⟩ | h
        · exact Or.inl h
        · exact Or.inr (Or.inl ⟨h, e', by simp [he'], hx⟩)
        · exact Or.inr (Or.inr (by simp [h]))
    · rcases List.mem_cons.mp h with h | h
      · exact Or.inr (Or.inl ⟨by simp [h], e, by simp, by simp [h]⟩)
      · exact Or.inr (Or.inr (by simp [h]))

theorem sorted_insertEntries [StrictWeak lt] {k : κ} {v : ν} {m : List (κ × ν)}
    (h : m.Pairwise (fun a b => lt a.1 b.1 = true)) :
    (insertEntries lt k v m).Pairwise (fun a b => lt a.1 b.1 = true) := by
  induction m with
  | nil => simp [insertEntries]
  | cons e m ih =>
    obtain ⟨he, hm⟩ := List.pairwise_cons.mp h
    simp only [insertEntries]
    split_ifs with h1 h2
    · refine List.pairwise_cons.mpr ⟨?_, h⟩
      rintro x (_ | ⟨_, hx⟩)
      · exact h1
      · exact StrictWeak.trans h1 (he x hx)
    · refine List.pairwise_cons.mpr ⟨?_, ih hm⟩
      intro x hx
      rcases mem_insertEntries hx with rfl | ⟨-, e', he', hxe⟩ | hx
      · exact h2
      · exact hxe ▸ he e' he'
      · exact he x hx
    · exact List.pairwise_cons.mpr ⟨he, hm⟩

/-- `m[k] = v`. -/
def assign [StrictWeak lt] (m : OrdMap κ ν lt) (k : κ) (v : ν) : OrdMap κ ν lt :=
  ⟨insertEntries lt k v m.entries, sorted_insertEntries m.sorted⟩

/-- `m.find(k)`: the value under the key. -/
def find? (m : OrdMap κ ν lt) (k : κ) : Option ν :=
  (m.entries.find? (fun e => decide (Same lt e.1 k))).map Prod.snd

/-- `m.erase(k)`. -/
def erase (m : OrdMap κ ν lt) (k : κ) : OrdMap κ ν lt :=
  ⟨m.entries.filter (fun e => !decide (Same lt e.1 k)), m.sorted.filter _⟩

@[simp] theorem find?_empty (k : κ) : (empty : OrdMap κ ν lt).find? k = none := rfl

theorem find?_entries_insert [StrictWeak lt] (m : List (κ × ν)) (k k' : κ) (v : ν) :
    ((insertEntries lt k v m).find? (fun e => decide (Same lt e.1 k'))).map Prod.snd =
      if Same lt k k' then some v else (m.find? (fun e => decide (Same lt e.1 k'))).map Prod.snd := by
  induction m with
  | nil => by_cases h : Same lt k k' <;> simp [insertEntries, h]
  | cons e m ih =>
    simp only [insertEntries]
    by_cases h1 : lt k e.1 = true
    · rw [if_pos h1]
      by_cases hs : Same lt k k'
      · rw [List.find?_cons_of_pos (by simpa using hs), if_pos hs]
        rfl
      · rw [List.find?_cons_of_neg (by simpa using hs), if_neg hs]
    rw [if_neg h1]
    by_cases h2 : lt e.1 k = true
    · rw [if_pos h2]
      by_cases he : Same lt e.1 k'
      · have hs : ¬ Same lt k k' := fun hs => not_same_of_lt h2 (he.trans hs.symm)
        rw [List.find?_cons_of_pos (by simpa using he), List.find?_cons_of_pos (by simpa using he), if_neg hs]
      · rw [List.find?_cons_of_neg (by simpa using he), List.find?_cons_of_neg (by simpa using he), ih]
    · -- the entry is kept under its old spelling
      have hek : Same lt e.1 k := ⟨by simpa using h2, by simpa using h1⟩
      rw [if_neg h2]
      by_cases hs : Same lt k k'
      · rw [List.find?_cons_of_pos (by simpa using hek.trans hs), if_pos hs]
        rfl
      · have hne : ¬ Same lt e.1 k' := fun h => hs (hek.symm.trans h)
        rw [List.find?_cons_of_neg (by simpa using hne), List.find?_cons_of_neg (by simpa using hne), if_neg hs]

/-- **Assignment and lookup.** -/
theorem find?_assign [StrictWeak lt] (m : OrdMap κ ν lt) (k k' : κ) (v : ν) :
    (m.assign k v).find? k' = if Same lt k k' then some v else m.find? k' :=
  find?_entries_insert m.entries k k' v

@[simp] theorem find?_assign_self [StrictWeak lt] (m : OrdMap κ ν lt) (k : κ) (v : ν) :
    (m.assign k v).find? k = some v := by
  rw [find?_assign, if_pos (Same.refl k)]

theorem find?_erase [StrictWeak lt] (m : OrdMap κ ν lt) (k k' : κ) :
    (m.erase k).find? k' = if Same lt k k' then none else m.find? k' := by
  simp only [find?, erase, List.find?_filter]
  split_ifs with h
  · rw [Option.map_eq_none_iff, List.find?_eq_none]
    intro e _
    simp only [Bool.not_eq_true', decide_eq_false_iff_not, decide_eq_true_eq, not_and]
    exact fun hne hs => hne (hs.trans h.symm)
  · congr 2
    funext e
    by_cases hs : Same lt e.1 k'
    · have hne : ¬ Same lt e.1 k := fun he => h (he.symm.trans hs)
      simp [hs, hne]
    · simp [hs]

theorem mem_assign [StrictWeak lt] {m : OrdMap κ ν lt} {k : κ} {v : ν} {x : κ × ν}
    (h : x ∈ (m.assign k v).entries) : x = (k, v) ∨ (x.2 = v ∧ ∃ e ∈ m.entries, x.1 = e.1) ∨ x ∈ m.entries :=
  mem_insertEntries h

theorem mem_erase {m : OrdMap κ ν lt} {k : κ} {x : κ × ν} (h : x ∈ (m.erase k).entries) : x ∈ m.entries :=
  (List.mem_filter.mp h).1

theorem find?_eq_some_mem {m : OrdMap κ ν lt} {k : κ} {v : ν} (h : m.find? k = some v) :
    ∃ e ∈ m.entries, Same lt e.1 k ∧ e.2 = v := by
  obtain ⟨e, he, rfl⟩ := Option.map_eq_some_iff.mp h
  exact ⟨e, List.mem_of_find?_eq_some he, by simpa using List.find?_some he, rfl⟩

theorem find?_eq_none {m : OrdMap κ ν lt} {k : κ} : m.find? k = none ↔ ∀ e ∈ m.entries, ¬ Same lt e.1 k := by
  simp [find?]

/-- **An entry is found** under every spelling of its key. -/
theorem find?_of_mem [StrictWeak lt] {m : OrdMap κ ν lt} {e : κ × ν} (he : e ∈ m.entries) {k : κ}
    (hs : Same lt e.1 k) : m.find? k = some e.2 := by
  obtain ⟨l, hl⟩ := m
  simp only [find?] at he ⊢
  induction l with
  | nil => cases he
  | cons x l ih =>
    obtain ⟨hx, hl'⟩ := List.pairwise_cons.mp hl
    rcases List.mem_cons.mp he with rfl | he
    · rw [List.find?_cons_of_pos (by simpa using hs)]
      rfl
    · have hne : ¬ Same lt x.1 k := fun h => not_same_of_lt (hx e he) (h.trans hs.symm)
      rw [List.find?_cons_of_neg (by simpa using hne)]
      exact ih hl' he

/-- `m.emplace(k, v)`: an entry that is there stays as it is. -/
def emplace [StrictWeak lt] (m : OrdMap κ ν lt) (k : κ) (v : ν) : OrdMap κ ν lt :=
  match m.find? k with
  | some _ => m
  | none => m.assign k v

theorem find?_emplace [StrictWeak lt] (m : OrdMap κ ν lt) (k k' : κ) (v : ν) :
    (m.emplace k v).find? k' = if Same lt k k' ∧ m.find? k = none then some v else m.find? k' := by
  unfold emplace
  cases hf : m.find? k with
  | some w =>
    rw [if_neg]
    rintro ⟨-, h⟩
    cases h
  | none =>
    simp only [find?_assign, and_true]

theorem mem_emplace [StrictWeak lt] {m : OrdMap κ ν lt} {k : κ} {v : ν} {x : κ × ν} (h : x ∈ (m.emplace k v).entries) :
    x = (k, v) ∨ x ∈ m.entries := by
  unfold emplace at h
  cases hf : m.find? k with
  | some w =>
    rw [hf] at h
    exact Or.inr h
  | none =>
    rw [hf] at h
    -- an entry with another spelling of the key would be found
    have hnew : ∀ l : List (κ × ν), (∀ e ∈ l, ¬ Same lt e.1 k) → ∀ x ∈ insertEntries lt k v l, x = (k, v) ∨ x ∈ l := by
      intro l hl x hx
      induction l with
      | nil => exact Or.inl (by simpa [insertEntries] using hx)
      | cons e l ih =>
        simp only [insertEntries] at hx
        split_ifs at hx with h1 h2
        · rcases List.mem_cons.mp hx with rfl | hx
          · exact Or.inl rfl
          · exact Or.inr hx
        · rcases List.mem_cons.mp hx with rfl | hx
          · exact Or.inr List.mem_cons_self
          · exact (ih (fun e' he' => hl e' (List.mem_cons_of_mem _ he')) hx).imp_right (List.mem_cons_of_mem _)
        · exact absurd ⟨by simpa using h2, by simpa using h1⟩ (hl e List.mem_cons_self)
    exact hnew m.entries (find?_eq_none.mp hf) x h

/-! ### Entries in order -/

theorem not_lt_of_lt [StrictWeak lt] {a b : κ} (h : lt a b = true) : lt b a = false := by
  cases hba : lt b a with
  | false => rfl
  | true => exact absurd (StrictWeak.trans h hba) (by simp [StrictWeak.irrefl])

/-- A key behind all others. -/
theorem insertEntries_last [StrictWeak lt] {k : κ} {v : ν} {l : List (κ × ν)} (h : ∀ e ∈ l, lt e.1 k = true) :
    insertEntries lt k v l = l ++ [(k, v)] := by
  induction l with
  | nil => rfl
  | cons e l ih =>
    have he := h e List.mem_cons_self
    rw [insertEntries, if_neg (by simp [not_lt_of_lt he]), if_pos he,
      ih fun e' he' => h e' (List.mem_cons_of_mem _ he'), List.cons_append]

/-- The last key again. -/
theorem insertEntries_last_self [StrictWeak lt] {k : κ} {v w : ν} {l : List (κ × ν)} (h : ∀ e ∈ l, lt e.1 k = true) :
    insertEntries lt k w (l ++ [(k, v)]) = l ++ [(k, w)] := by
  induction l with
  | nil => simp [insertEntries, StrictWeak.irrefl]
  | cons e l ih =>
    have he := h e List.mem_cons_self
    rw [List.cons_append, insertEntries, if_neg (by simp [not_lt_of_lt he]), if_pos he,
      ih fun e' he' => h e' (List.mem_cons_of_mem _ he'), List.cons_append]

end OrdMap

/-! ## Unordered maps -/

/-- A map with at most one entry for each key. -/
structure UMap (κ ν : Type*) where
  entries : List (κ × ν)
  nodup : (entries.map Prod.fst).Nodup
  deriving DecidableEq

namespace UMap

variable {κ ν : Type*}

/-- The empty map. -/
def empty : UMap κ ν := ⟨[], List.nodup_nil⟩

instance : Inhabited (UMap κ ν) := ⟨empty⟩

variable [DecidableEq κ]

/-- `m.find(k)`: the value under the key. -/
def find? (m : UMap κ ν) (k : κ) : Option ν := m.entries.lookup k

/-- `m.emplace(k, v)`: an entry that is there stays as it is. -/
def emplace (m : UMap κ ν) (k : κ) (v : ν) : UMap κ ν :=
  if h : k ∈ m.entries.map Prod.fst then m
  else ⟨m.entries ++ [(k, v)], by
    rw [List.map_append]
    exact List.Nodup.append m.nodup (by simp) (by simpa using h)⟩

theorem map_fst_update (l : List (κ × ν)) (k : κ) (v : ν) :
    (l.map (fun e => if e.1 = k then (e.1, v) else e)).map Prod.fst = l.map Prod.fst := by
  rw [List.map_map]
  refine List.map_congr_left fun e _ => ?_
  by_cases h : e.1 = k <;> simp [h]

/-- `m[k] = v`. -/
def assign (m : UMap κ ν) (k : κ) (v : ν) : UMap κ ν :=
  if h : k ∈ m.entries.map Prod.fst then
    ⟨m.entries.map (fun e => if e.1 = k then (e.1, v) else e), by rw [map_fst_update]; exact m.nodup⟩
  else ⟨m.entries ++ [(k, v)], by
    rw [List.map_append]
    exact List.Nodup.append m.nodup (by simp) (by simpa using h)⟩

/-- `m.erase(k)`. -/
def erase (m : UMap κ ν) (k : κ) : UMap κ ν :=
  ⟨m.entries.filter (fun e => e.1 ≠ k), m.nodup.sublist (List.Sublist.map _ List.filter_sublist)⟩

theorem emplace_entries {m : UMap κ ν} {k : κ} (h : k ∉ m.entries.map Prod.fst) (v : ν) :
    (m.emplace k v).entries = m.entries ++ [(k, v)] := by
  rw [emplace, dif_neg h]

theorem mem_erase {m : UMap κ ν} {k : κ} {x : κ × ν} (h : x ∈ (m.erase k).entries) : x ∈ m.entries :=
  (List.mem_filter.mp h).1

theorem mem_assign {m : UMap κ ν} {k : κ} {v : ν} {x : κ × ν} (h : x ∈ (m.assign k v).entries) :
    x = (k, v) ∨ ((∃ e ∈ m.entries, x.1 = e.1) ∧ x.2 = v) ∨ x ∈ m.entries := by
  rw [assign] at h
  split_ifs at h with hk
  · obtain ⟨e, he, rfl⟩ := List.mem_map.mp h
    by_cases hek : e.1 = k
    · rw [if_pos hek]
      exact Or.inr (Or.inl ⟨⟨e, he, rfl⟩, rfl⟩)
    · rw [if_neg hek]
      exact Or.inr (Or.inr he)
  · rcases List.mem_append.mp h with h | h
    · exact Or.inr (Or.inr h)
    · exact Or.inl (by simpa using h)

theorem mem_emplace {m : UMap κ ν} {k : κ} {v : ν} {x : κ × ν} (h : x ∈ (m.emplace k v).entries) :
    x ∈ m.entries ∨ x = (k, v) := by
  rw [emplace] at h
  split_ifs at h with hk
  · exact Or.inl h
  · simpa using h

/-- Emplacing entries with keys of their own appends them. -/
theorem foldl_emplace_entries {l : List (κ × ν)} {m : UMap κ ν}
    (h : (m.entries.map Prod.fst ++ l.map Prod.fst).Nodup) :
    (l.foldl (fun m e => m.emplace e.1 e.2) m).entries = m.entries ++ l := by
  induction l generalizing m with
  | nil => simp
  | cons e l ih =>
    have hk : e.1 ∉ m.entries.map Prod.fst := by
      rw [List.map_cons, List.nodup_append] at h
      exact fun hm => h.2.2 _ hm _ (by simp) rfl
    have hent := emplace_entries hk e.2
    rw [List.foldl_cons, ih (by rw [hent]; simpa using h), hent]
    simp

theorem find?_eq_some_iff {m : UMap κ ν} {k : κ} {v : ν} : m.find? k = some v ↔ (k, v) ∈ m.entries := by
  obtain ⟨l, hl⟩ := m
  simp only [find?]
  induction l with
  | nil => simp
  | cons e l ih =>
    simp only [List.map_cons, List.nodup_cons] at hl
    rw [List.lookup_cons, List.mem_cons]
    by_cases hk : k = e.1
    · subst hk
      have hn : (e.1, v) ∉ l := fun hm => hl.1 (List.mem_map.mpr ⟨_, hm, rfl⟩)
      simp only [beq_self_eq_true, Option.some.injEq, hn, or_false, Prod.ext_iff, true_and]
      exact eq_comm
    · have hb : (k == e.1) = false := by simpa using hk
      simp only [hb, ih hl.2, Prod.ext_iff, hk, false_and, false_or]

theorem find?_isSome_iff {m : UMap κ ν} {k : κ} : (m.find? k).isSome = true ↔ k ∈ m.entries.map Prod.fst := by
  simp only [Option.isSome_iff_exists, find?_eq_some_iff, List.mem_map, Prod.exists]
  exact ⟨fun ⟨v, h⟩ => ⟨k, v, h, rfl⟩, fun ⟨_, v, h, hk⟩ => ⟨v, hk ▸ h⟩⟩

/-- What is found behind an assignment. -/
theorem find?_assign (m : UMap κ ν) (k k' : κ) (v : ν) :
    (m.assign k v).find? k' = if k' = k then some v else m.find? k' := by
  rw [Option.ext_iff]
  intro w
  rw [find?_eq_some_iff, assign]
  split_ifs with h hk hk
  · rw [hk, Option.some.injEq]
    obtain ⟨e, he, hek⟩ := List.mem_map.mp h
    simp only [List.mem_map]
    constructor
    · rintro ⟨x, -, hx⟩
      split_ifs at hx with hxk
      · exact (Prod.ext_iff.mp hx).2
      · exact absurd (congrArg Prod.fst hx) hxk
    · rintro rfl
      exact ⟨e, he, by rw [if_pos hek, hek]⟩
  · rw [find?_eq_some_iff, List.mem_map]
    constructor
    · rintro ⟨x, hx, hxe⟩
      split_ifs at hxe with hxk
      · exact absurd (by rw [← hxk]; exact (congrArg Prod.fst hxe).symm) hk
      · exact hxe ▸ hx
    · intro hmem
      exact ⟨_, hmem, if_neg hk⟩
  · rw [hk, Option.some.injEq, List.mem_append, List.mem_singleton, Prod.ext_iff]
    constructor
    · rintro (hmem | ⟨-, hv⟩)
      · exact absurd (List.mem_map.mpr ⟨_, hmem, rfl⟩) h
      · exact hv.symm
    · rintro rfl
      exact Or.inr ⟨rfl, rfl⟩
  · rw [find?_eq_some_iff, List.mem_append, List.mem_singleton, Prod.ext_iff]
    exact or_iff_left fun hv => hk hv.1

/-- What is found behind an emplacement. -/
theorem find?_emplace (m : UMap κ ν) (k k' : κ) (v : ν) :
    (m.emplace k v).find? k' = if k' = k then some ((m.find? k).getD v) else m.find? k' := by
  have hmem := find?_isSome_iff (m := m) (k := k)
  rw [emplace]
  by_cases h : k ∈ m.entries.map Prod.fst
  · obtain ⟨w, hw⟩ := Option.isSome_iff_exists.mp (hmem.mpr h)
    rw [dif_pos h, hw]
    split_ifs with hk
    · rw [hk, hw]
      rfl
    · rfl
  · have hnone : m.find? k = none := by simpa [h] using hmem
    have hassign := find?_assign m k k' v
    rw [assign, dif_neg h] at hassign
    rw [dif_neg h, hassign, hnone]
    rfl

/-- What is found behind an erasure. -/
theorem find?_erase (m : UMap κ ν) (k k' : κ) : (m.erase k).find? k' = if k' = k then none else m.find? k' := by
  rw [Option.ext_iff]
  intro w
  rw [find?_eq_some_iff, erase, List.mem_filter]
  split_ifs with h
  · simp [h]
  · rw [find?_eq_some_iff]
    simp [h]

end UMap

/-! ## Hash sets -/

/-- `std::unordered_set`: every key at most once. -/
structure USet (κ : Type*) where
  elems : List κ
  nodup : elems.Nodup

namespace USet

variable {κ : Type*}

/-- The empty set. -/
def empty : USet κ := ⟨[], List.nodup_nil⟩

variable [DecidableEq κ]

/-- `s.emplace(k)`: the larger set, unless the key was there. -/
def emplace? (s : USet κ) (k : κ) : Option (USet κ) :=
  if h : k ∈ s.elems then none
  else some ⟨s.elems ++ [k], s.nodup.append (List.nodup_singleton k) (by simpa using h)⟩

theorem emplace?_eq_none_iff {s : USet κ} {k : κ} : s.emplace? k = none ↔ k ∈ s.elems := by
  rw [emplace?]
  split_ifs with h <;> simp [h]

theorem elems_of_emplace? {s t : USet κ} {k : κ} (h : s.emplace? k = some t) : t.elems = s.elems ++ [k] := by
  rw [emplace?] at h
  split_ifs at h with hk
  obtain rfl := Option.some.inj h
  rfl

end USet

end Lib
