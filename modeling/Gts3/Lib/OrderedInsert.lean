import Gts3.Lib.Maps
import Mathlib.Algebra.BigOperators.Group.List.Basic
import Mathlib.Algebra.Order.Ring.Nat
import Mathlib.Data.List.Perm.Basic
import Mathlib.Data.List.Sort

/-!
# Ordered containers as lists

The elements of a set, a multiset, a map or a multimap stand in the order of a strict weak order.  `emplace` inserts
an element: into a container of unique elements only when none is like it, into one with repetitions behind all those
that are like it.  Elements that come in order are appended (`foldl_emplace_nil`), and elements that are there already
change nothing (`foldl_emplace_of_subset`).
-/

namespace Lib.Ordered

variable {α : Type*} {multi : Bool} {lt : α → α → Bool}

/-- The elements are in order, and no two are alike when they must be unique. -/
def Sorted (multi : Bool) (lt : α → α → Bool) (l : List α) : Prop :=
  l.Pairwise fun a b => if multi then lt b a = false else lt a b = true

instance (multi : Bool) (lt : α → α → Bool) (l : List α) : Decidable (Sorted multi lt l) :=
  inferInstanceAs (Decidable (List.Pairwise _ _))

theorem strictWeak_comap {β : Type*} (lt : α → α → Bool) (f : β → α) [StrictWeak lt] :
    StrictWeak fun a b : β => lt (f a) (f b) where
  irrefl a := StrictWeak.irrefl (f a)
  trans h h' := StrictWeak.trans h h'
  incomp_trans h1 h2 h3 h4 := StrictWeak.incomp_trans h1 h2 h3 h4

/-- Insertion of an element. -/
def emplace (multi : Bool) (lt : α → α → Bool) (x : α) : List α → List α
  | [] => [x]
  | y :: l => if lt x y then x :: y :: l else if multi || lt y x then y :: emplace multi lt x l else y :: l

theorem mem_emplace {x z : α} {l : List α} (h : z ∈ emplace multi lt x l) : z = x ∨ z ∈ l := by
  induction l with
  | nil => simpa [emplace] using h
  | cons y l ih =>
    simp only [emplace] at h
    split_ifs at h with h1 h2
    · simpa using h
    · rcases List.mem_cons.mp h with rfl | h
      · exact Or.inr List.mem_cons_self
      · exact (ih h).imp_right (List.mem_cons_of_mem _)
    · exact Or.inr h

theorem subset_emplace (x : α) (l : List α) : l ⊆ emplace multi lt x l := by
  induction l with
  | nil => exact List.nil_subset _
  | cons y l ih =>
    simp only [emplace]
    split_ifs with h1 h2
    · exact List.subset_cons_self _ _
    · exact List.cons_subset_cons _ ih
    · exact List.Subset.refl _

/-- The element is there then, or one that is like it was there before. -/
theorem exists_same_emplace (multi : Bool) (lt : α → α → Bool) [StrictWeak lt] (x : α) (l : List α) :
    x ∈ emplace multi lt x l ∨ ∃ y ∈ l, Same lt x y := by
  induction l with
  | nil => exact Or.inl (by simp [emplace])
  | cons y l ih =>
    simp only [emplace]
    split_ifs with h1 h2
    · exact Or.inl List.mem_cons_self
    · rcases ih with h | ⟨z, hz, hs⟩
      · exact Or.inl (List.mem_cons_of_mem _ h)
      · exact Or.inr ⟨z, List.mem_cons_of_mem _ hz, hs⟩
    · simp only [Bool.or_eq_true, not_or, Bool.not_eq_true] at h2
      exact Or.inr ⟨y, List.mem_cons_self, by simpa using h1, h2.2⟩

/-- **Unique elements stay in order.** -/
theorem sorted_emplace [StrictWeak lt] {x : α} {l : List α} (h : Sorted false lt l) :
    Sorted false lt (emplace false lt x l) := by
  induction l with
  | nil => exact List.pairwise_singleton _ _
  | cons y l ih =>
    obtain ⟨hy, hl⟩ := List.pairwise_cons.mp h
    simp only [Bool.false_eq_true, if_false] at hy
    simp only [emplace, Bool.false_or]
    split_ifs with h1 h2
    · refine List.pairwise_cons.mpr ⟨?_, h⟩
      rintro z (_ | ⟨_, hz⟩)
      · exact h1
      · exact StrictWeak.trans h1 (hy z hz)
    · refine List.pairwise_cons.mpr ⟨?_, ih hl⟩
      intro z hz
      rcases mem_emplace hz with rfl | hz
      · exact h2
      · exact hy z hz
    · exact h

theorem emplace_append {x : α} {l : List α} (h : ∀ y ∈ l, if multi then lt x y = false else lt y x = true)
    [StrictWeak lt] : emplace multi lt x l = l ++ [x] := by
  induction l with
  | nil => rfl
  | cons y l ih =>
    have hy := h y List.mem_cons_self
    have hl := ih fun z hz => h z (List.mem_cons_of_mem _ hz)
    have hxy : ¬ lt x y = true := by
      cases multi with
      | true => simpa using hy
      | false => exact fun hxy => absurd (StrictWeak.trans hxy (by simpa using hy)) (by simp [StrictWeak.irrefl])
    have hor : (multi || lt y x) = true := by
      cases multi with
      | true => rfl
      | false => simpa using hy
    rw [emplace, if_neg hxy, if_pos hor, hl]
    rfl

/-- **Elements in order** are appended one after the other. -/
theorem foldl_emplace_append [StrictWeak lt] :
    ∀ (l acc : List α), Sorted multi lt (acc ++ l) → l.foldl (fun acc x => emplace multi lt x acc) acc = acc ++ l
  | [], acc, _ => (List.append_nil acc).symm
  | x :: l, acc, h => by
    have hx : ∀ y ∈ acc, if multi then lt x y = false else lt y x = true :=
      fun y hy => (List.pairwise_append.mp h).2.2 y hy x List.mem_cons_self
    rw [List.foldl_cons, emplace_append hx, foldl_emplace_append l (acc ++ [x]) (by simpa using h)]
    simp

theorem foldl_emplace_nil [StrictWeak lt] {l : List α} (h : Sorted multi lt l) :
    l.foldl (fun acc x => emplace multi lt x acc) [] = l :=
  foldl_emplace_append l [] h

/-- Unique elements that are alike are the same one. -/
theorem Sorted.eq_of_same [StrictWeak lt] {l : List α} (h : Sorted false lt l) {x y : α} (hx : x ∈ l) (hy : y ∈ l)
    (hs : Same lt x y) : x = y := by
  induction l with
  | nil => cases hx
  | cons z l ih =>
    obtain ⟨hz, hl⟩ := List.pairwise_cons.mp h
    simp only [Bool.false_eq_true, if_false] at hz
    rcases List.mem_cons.mp hx with rfl | hxl <;> rcases List.mem_cons.mp hy with rfl | hyl
    · rfl
    · exact absurd hs (not_same_of_lt (hz y hyl))
    · exact absurd hs.symm (not_same_of_lt (hz x hxl))
    · exact ih hl hxl hyl

/-- Unique elements in order are determined by which they are. -/
theorem Sorted.eq_of_subset [StrictWeak lt] {l l' : List α} (h : Sorted false lt l) (h' : Sorted false lt l')
    (h1 : l ⊆ l') (h2 : l' ⊆ l) : l = l' := by
  have hnodup : ∀ {l : List α}, Sorted false lt l → l.Nodup := by
    intro l h
    refine List.Pairwise.imp ?_ h
    rintro a b hab rfl
    simp [StrictWeak.irrefl] at hab
  have hperm : l.Perm l' :=
    (List.perm_ext_iff_of_nodup (hnodup h) (hnodup h')).mpr fun a => ⟨fun ha => h1 ha, fun ha => h2 ha⟩
  refine List.Perm.eq_of_pairwise ?_ h h' hperm
  intro a b _ _ hab hba
  simp only [Bool.false_eq_true, if_false] at hab hba
  exact absurd (StrictWeak.trans hab hba) (by simp [StrictWeak.irrefl])

/-- **Elements that are there already** change nothing. -/
theorem foldl_emplace_of_subset [StrictWeak lt] {l d : List α} (hl : Sorted false lt l) (hd : Sorted false lt d)
    (hdl : d ⊆ l) : l.foldl (fun acc x => emplace false lt x acc) d = l := by
  have key : ∀ (xs acc : List α), Sorted false lt acc → acc ⊆ l → xs ⊆ l →
      Sorted false lt (xs.foldl (fun acc x => emplace false lt x acc) acc) ∧
        acc ⊆ xs.foldl (fun acc x => emplace false lt x acc) acc ∧
        xs.foldl (fun acc x => emplace false lt x acc) acc ⊆ l ∧
        xs ⊆ xs.foldl (fun acc x => emplace false lt x acc) acc := by
    intro xs
    induction xs with
    | nil => exact fun acc hs ha _ => ⟨hs, List.Subset.refl _, ha, List.nil_subset _⟩
    | cons x xs ih =>
      intro acc hs ha hx
      obtain ⟨hxl, hxs⟩ := List.cons_subset.mp hx
      have hsub : emplace false lt x acc ⊆ l := by
        intro z hz
        rcases mem_emplace hz with rfl | hz
        · exact hxl
        · exact ha hz
      obtain ⟨h1, h2, h3, h4⟩ := ih (emplace false lt x acc) (sorted_emplace hs) hsub hxs
      have hmem : x ∈ emplace false lt x acc := by
        rcases exists_same_emplace false lt x acc with h | ⟨y, hy, hsame⟩
        · exact h
        · obtain rfl := hl.eq_of_same hxl (ha hy) hsame
          exact subset_emplace _ acc hy
      exact ⟨h1, List.Subset.trans (subset_emplace x acc) h2, h3, List.cons_subset.mpr ⟨h2 hmem, h4⟩⟩
  obtain ⟨h1, -, h3, h4⟩ := key l d hd hdl (List.Subset.refl l)
  exact h1.eq_of_subset hl h3 h4

/-- An insertion makes a sum over the elements larger by the new element at most. -/
theorem sum_emplace_le (size : α → ℕ) (x : α) (l : List α) :
    ((emplace multi lt x l).map size).sum ≤ size x + (l.map size).sum := by
  induction l with
  | nil => simp [emplace]
  | cons y l ih =>
    simp only [emplace]
    split_ifs <;> simp only [List.map_cons, List.sum_cons] <;> omega

end Lib.Ordered
