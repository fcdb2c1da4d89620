import Gts3.Web.Routes

/-!
# The keys of the members of a class

A class path ends with a slash (`classPath_eq`), and the paths of members are put behind it.  The key of a route is
the path of the class and of the member in normal form, unless nothing is left of one of them (`classRoute_iff`);
the key of a filter has two slashes in a row as soon as the member has a path (`classFilter_iff`).
-/

namespace Gts3.Web

open Lib Lib.Cxx Lib.SlashPath Gts3.Http

/-! ## Keys -/

/-- The key of a route of a class. -/
def classRouteKey (path methodPath : Bytes) : Bytes := classRequestPath (classPath path) methodPath

/-- The key of a filter of a class. -/
def classFilterKey (path methodPath : Bytes) : Bytes := classFilterPath (classPath path) methodPath

/-- The path of a member, below the path of its class. -/
def memberPath (path methodPath : Bytes) : Bytes := path ++ 47 :: methodPath

theorem parts_memberPath (path methodPath : Bytes) :
    parts 47 (memberPath path methodPath) = parts 47 path ++ parts 47 methodPath := parts_join path methodPath

theorem unique_ne_nil {path : Bytes} (h : path ≠ []) : unique sameSlash path ≠ [] := by
  obtain ⟨c, path, rfl⟩ := List.exists_cons_of_ne_nil h
  simp [unique]

/-- **The path of a class**: its parts, and a slash at the end. -/
theorem classPath_eq (path : Bytes) : classPath path = render 47 (parts 47 path) ++ [47] := by
  rw [classPath]
  split_ifs with hroot hnil
  · subst hroot
    rfl
  · subst hnil
    rfl
  · have hcollapse : collapse 47 (47 :: path) = _ := collapse_eq path
    rw [collapse_slash] at hcollapse
    obtain ⟨c, u, hu⟩ := List.exists_cons_of_ne_nil (unique_ne_nil hnil)
    rw [hu] at hcollapse ⊢
    have hlast : (if (c :: u).head? ≠ some 47 then 47 :: c :: u else c :: u).getLast? = (c :: u).getLast? := by
      split_ifs
      · rw [List.getLast?_cons_cons]
      · rfl
    rw [hcollapse] at hlast
    by_cases ht : path = [] ∨ path.getLast? = some 47
    · -- the slash at the end is there
      rw [trail, if_pos ht] at hcollapse hlast
      rw [List.getLast?_concat] at hlast
      simp only [← hlast, ne_eq, not_true_eq_false, if_false]
      exact hcollapse
    · -- the slash at the end is put there
      rw [trail, if_neg ht, List.append_nil] at hcollapse hlast
      have hno : (c :: u).getLast? ≠ some 47 := by
        rw [← hlast]
        exact getLast?_render (parts_ok path)
      simp only [if_pos hno]
      rw [← hcollapse]
      by_cases hc : c = 47 <;> simp [hc]

/-- The path of a member, as it is put behind the path of the class. -/
theorem classRequestPath_eq (mPath path : Bytes) :
    classRequestPath mPath path =
      if path = [] then mPath.dropLast else mPath ++ (render 47 (parts 47 path)).drop 1 := by
  rw [classRequestPath, ite_not]
  split_ifs with hnil
  · rfl
  · have hcollapse : collapse 47 (47 :: path) = _ := collapse_eq path
    rw [collapse_slash] at hcollapse
    have hdrop : (if (unique sameSlash path).head? = some 47 then (unique sameSlash path).drop 1
        else unique sameSlash path) = (render 47 (parts 47 path) ++ trail 47 path).drop 1 := by
      rw [← hcollapse]
      by_cases hh : (unique sameSlash path).head? = some 47 <;> simp [hh]
    simp only [hdrop]
    rw [dropLast_drop_render 47 path le_rfl]

/-- The path of a filter, as it is put behind the path of the class. -/
theorem classFilterPath_eq (mPath path : Bytes) (hhead : mPath.head? = some 47) :
    classFilterPath mPath path =
      if path = [] then (if mPath = [47] then [47] else mPath.dropLast) else mPath ++ render 47 (parts 47 path) := by
  obtain ⟨m, rfl⟩ : ∃ m, mPath = 47 :: m := by
    cases mPath with
    | nil => simp at hhead
    | cons c m => exact ⟨m, by simpa using hhead⟩
  rw [classFilterPath]
  by_cases hnil : path = []
  · simp only [if_pos hnil]
    cases m <;> simp
  · have hcollapse : collapse 47 (47 :: path) = _ := collapse_eq path
    rw [collapse_slash] at hcollapse
    have hstrip := dropLast_drop_render (47 : UInt8) path (Nat.zero_le 1)
    simp only [List.drop_zero] at hstrip
    simp only [if_neg hnil, hcollapse, hstrip]
    simp

/-! ## Routes -/

/-- The route of a member: its key is the normal form of its path, and requests for the path find it. -/
structure ClassRoute (path methodPath : Bytes) : Prop where
  key : classRouteKey path methodPath = normalForm 47 (memberPath path methodPath)
  reached : ∀ g g' classType func httpMethods,
    classRequestHandleMethod g classType (classPath path) methodPath func httpMethods = .ok g' →
    ∀ s : TaskState, unique sameSlash s.urlName = s.urlName → s.urlName.head? = some 47 →
      normalForm 47 s.urlName = normalForm 47 (memberPath path methodPath) →
      (PluginsService.checkServices g' s).1.isSome = true

/-- A member without a path needs a class path with more than slashes; a member path of slashes only needs a class path
of slashes only. -/
def RouteFits (path methodPath : Bytes) : Prop :=
  if methodPath = [] then ∃ c ∈ path, c ≠ 47 else (∃ c ∈ methodPath, c ≠ 47) ∨ ∀ c ∈ path, c = 47

theorem parts_ne_nil_iff {path : Bytes} : parts 47 path ≠ [] ↔ ∃ c ∈ path, c ≠ 47 := by
  rw [Ne, parts_eq_nil_iff]
  simp

theorem classRouteKey_eq (path methodPath : Bytes) :
    classRouteKey path methodPath = if methodPath = [] then render 47 (parts 47 path)
      else render 47 (parts 47 path) ++ 47 :: (render 47 (parts 47 methodPath)).drop 1 := by
  rw [classRouteKey, classRequestPath_eq, classPath_eq]
  split_ifs <;> simp

/-- The key of a route is the normal form exactly when the paths fit. -/
theorem classRouteKey_iff (path methodPath : Bytes) :
    classRouteKey path methodPath = normalForm 47 (memberPath path methodPath) ↔ RouteFits path methodPath := by
  rw [classRouteKey_eq, normalForm_eq, parts_memberPath, RouteFits, ← parts_ne_nil_iff, ← parts_ne_nil_iff,
    ← parts_eq_nil_iff]
  by_cases hnil : methodPath = []
  · subst hnil
    by_cases hp : parts 47 path = [] <;> simp [hp, render]
  · simp only [if_neg hnil]
    by_cases hm : parts 47 methodPath = []
    · by_cases hp : parts 47 path = [] <;> simp [hp, hm, render]
    · have hslash : render 47 (parts 47 methodPath) = 47 :: (render 47 (parts 47 methodPath)).drop 1 := by
        obtain ⟨p, ps, hps⟩ := List.exists_cons_of_ne_nil hm
        simp [hps, render]
      rw [if_neg (by simp [hm]), ← hslash]
      simp [render, hm]

theorem classRoute_iff (path methodPath : Bytes) : ClassRoute path methodPath ↔ RouteFits path methodPath := by
  rw [← classRouteKey_iff]
  refine ⟨ClassRoute.key, fun hkey => ⟨hkey, fun g g' classType func httpMethods hreg s hs hhead hnormal => ?_⟩⟩
  rw [checkServices_eq g' s hs hhead, hnormal, ← hkey]
  exact ((insertServices_method hreg).1 _).mpr (Or.inl rfl)

/-! ## Filters -/

/-- The filter of a member: no two slashes in a row in its key, and it is asked about a request below its path. -/
structure ClassFilter (path methodPath : Bytes) : Prop where
  key : ¬ [47, 47] <:+: classFilterKey path methodPath
  reached : ∃ url, unique sameSlash url = url ∧ url.head? = some 47 ∧
    normalForm 47 (memberPath path methodPath) <+: url ∧
    Matches (classFilterKey path methodPath) (normalForm 47 url)

theorem classFilterKey_eq (path methodPath : Bytes) :
    classFilterKey path methodPath =
      if methodPath = [] then normalForm 47 path
      else render 47 (parts 47 path) ++ 47 :: render 47 (parts 47 methodPath) := by
  have hhead : (classPath path).head? = some 47 := by
    rw [classPath_eq]
    cases parts 47 path <;> simp [render]
  rw [classFilterKey, classFilterPath_eq _ _ hhead, classPath_eq, normalForm_eq]
  by_cases hp : parts 47 path = []
  · simp [hp, render]
  · have hpos := length_render_pos (47 : UInt8) hp
    have hne : render 47 (parts 47 path) ≠ [] := List.length_pos_iff.mp hpos
    simp [hp, hne]

theorem classFilter_iff (path methodPath : Bytes) : ClassFilter path methodPath ↔ ∀ c ∈ methodPath, c = 47 := by
  rw [← parts_eq_nil_iff]
  constructor
  · intro h
    by_contra hm
    obtain ⟨p, ps, hps⟩ := List.exists_cons_of_ne_nil hm
    have hnil : methodPath ≠ [] := fun h0 => by simp [h0] at hps
    refine h.key ⟨render 47 (parts 47 path), p ++ render 47 ps, ?_⟩
    rw [classFilterKey_eq, if_neg hnil, hps]
    simp [render]
  · intro hm
    -- the path of a request below the class
    have hok : ∀ p ∈ parts 47 path ++ [[120]], p ≠ [] ∧ (47 : UInt8) ∉ p := by
      intro p hp
      rcases List.mem_append.mp hp with hp | hp
      · exact parts_ok path p hp
      · obtain rfl := List.mem_singleton.mp hp
        decide
    have hparts : parts 47 (render 47 (parts 47 path ++ [[120]])) = parts 47 path ++ [[120]] := parts_render hok
    have hcollapsed : unique sameSlash (render 47 (parts 47 path ++ [[120]])) =
        render 47 (parts 47 path ++ [[120]]) := by
      refine collapse_eq_self ?_
      rw [← hparts]
      exact not_double_render
    have hnormal : normalForm 47 (render 47 (parts 47 path ++ [[120]])) = render 47 (parts 47 path ++ [[120]]) := by
      rw [normalForm_eq, hparts, if_neg (by simp)]
    have hsplit : render 47 (parts 47 path ++ [[120]]) = render 47 (parts 47 path) ++ [47, 120] := by simp [render]
    have hkey : ∃ t, classFilterKey path methodPath = render 47 (parts 47 path) ++ t ∧ (t = [] ∨ t = [47]) := by
      rw [classFilterKey_eq, normalForm_eq, hm]
      split_ifs with hnil hp
      · exact ⟨[47], by simp [hp, render], Or.inr rfl⟩
      · exact ⟨[], by simp, Or.inl rfl⟩
      · exact ⟨[47], by simp [render], Or.inr rfl⟩
    obtain ⟨t, hkey, ht⟩ := hkey
    have hpre : classFilterKey path methodPath <+: render 47 (parts 47 path ++ [[120]]) := by
      rw [hsplit, hkey]
      rcases ht with rfl | rfl <;> simp
    refine ⟨fun h => ?_, render 47 (parts 47 path ++ [[120]]), hcollapsed, ?_, ?_, ?_⟩
    · rw [← hparts] at hpre
      exact not_double_render (h.trans hpre.isInfix)
    · rw [hsplit]
      cases parts 47 path <;> simp [render]
    · rw [normalForm_eq, parts_memberPath, hm, List.append_nil, hsplit]
      split_ifs with hp
      · simp [hp, render]
      · exact List.prefix_append _ _
    · rw [hnormal]
      refine ⟨hpre, fun _ heq => ?_⟩
      rw [hsplit, hkey] at heq
      rcases ht with rfl | rfl <;> simp at heq

/-! ## Both -/

/-- **The keys of a class**: that of a route is right exactly when something is left of the path of the class and of
the member, and that of a filter exactly when its path is empty or nothing but slashes. -/
theorem classKeys_iff (path methodPath : Bytes) :
    (ClassRoute path methodPath ↔ RouteFits path methodPath) ∧
      (ClassFilter path methodPath ↔ ∀ c ∈ methodPath, c = 47) :=
  ⟨classRoute_iff path methodPath, classFilter_iff path methodPath⟩

/-- The key of the filter `/b` of the class `/a` is `/a//b`. -/
theorem not_classKeys_filterBelow :
    ¬ ∀ path methodPath, ClassRoute path methodPath ∧ ClassFilter path methodPath := by
  intro h
  have hkey : classFilterKey (lit "/a") (lit "/b") = lit "/a//b" := by decide
  refine (h (lit "/a") (lit "/b")).2.key ?_
  rw [hkey]
  exact ⟨lit "/a", lit "b", by decide⟩

end Gts3.Web
