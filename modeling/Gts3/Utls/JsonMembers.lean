import Gts3.Utls.Json

/-!
# `gts/utls/json.cpp`: what the writers put where

`content` is what `write_variant` puts under a name, `contents` the members of a struct; under a name the writers are
these functions (`writeVariant_object`, `toJsonRecursively_object`).  Inside an array only atomic values and structs
without a name are written (`writeVariant_array_nil`, `toJsonRecursively_array`).  Two lemmas about a loop that writes
and the loop that reads it again serve the sets and the maps (`fold_keep`, `fold_loss`).
-/

namespace Gts3.Utls

open Lib Lib.Cxx

/-! ## What the writers put where -/

/-- What is written for a value of an enumeration. -/
def enumerationJson (underlying : IntType) (values : List (Bytes × ℤ)) (v : underlying.Value) : Njson :=
  match enumerationName values v.1 with
  | some text => .string text
  | none =>
    match enumerationNumber underlying v.1 with
    | some n => .number n
    | none => .string []

/-- What `write_variant` writes for an entry of a map. -/
def writeEntry (k t : CxxType) (array : Njson) (e : Val k × Val t) : Result Njson := do
  let sub ← writeVariant k (lit "key") (.object []) e.1
  let sub ← writeVariant t (lit "value") sub e.2
  array.emplaceBack sub

/-- What `write_variant` puts under a name, if anything. -/
def content : (t : CxxType) → Bytes → Val t → Result (Option Njson)
  | .int k, _, v => .ok (if k.written then some (k.toJson v) else none)
  | .string, _, s => .ok (some (.string s))
  | .enumeration _ underlying values, _, v => .ok (some (enumerationJson underlying values v))
  | .sequence kind t, name, items => some <$> List.foldlM (writeItem t kind name) (.array []) items
  | .set _ t, _, keys => some <$> List.foldlM (writeVariant t []) (.array []) keys
  | .map _ k t, _, entries => some <$> List.foldlM (writeEntry k t) (.array []) entries
  | .struct className .nil, _, _ => .error (.invalidType (.struct className .nil))
  | .struct _ (.cons property t rest), _, v => some <$> toJsonRecursively (.cons property t rest) v (.object [])

/-- The members of an object, with what is put under a name. -/
def addMember (name : Bytes) : Option Njson → List (Bytes × Njson) → List (Bytes × Njson)
  | some e, m => Njson.setMember name e m
  | none, m => m

theorem setMember_of_lookup {name : Bytes} {value : Njson} {m : List (Bytes × Njson)} (h : m.lookup name = none) :
    Njson.setMember name value m = m ++ [(name, value)] := by
  induction m with
  | nil => rfl
  | cons e m ih =>
    rw [List.lookup_cons] at h
    split at h
    · cases h
    · rename_i hne
      have hne' : e.1 ≠ name := fun he => by simp [he] at hne
      rw [Njson.setMember, if_neg hne', ih h, List.cons_append]

/-- The members of a struct. -/
def contents : (ps : Properties) → Vals ps → Result (List (Bytes × Njson))
  | .nil, _ => .ok []
  | .cons name t rest, v => do
    let o ← content t name v.1
    let l ← contents rest v.2
    return (o.map fun e => (name, e)).toList ++ l

theorem put_object {name : Bytes} (hname : name ≠ []) (m : List (Bytes × Njson)) (e : Njson) :
    (Njson.object m).put name e = .ok (.object (addMember name (some e) m)) :=
  if_neg hname

theorem writeArithmetic_object {name : Bytes} (hname : name ≠ []) (m : List (Bytes × Njson)) (k : IntType)
    (v : k.Value) : writeArithmetic k v name (.object m) =
      .ok (.object (addMember name (if k.written then some (k.toJson v) else none) m)) := by
  unfold writeArithmetic
  cases k.written with
  | true => exact put_object hname m _
  | false => rfl

theorem writeEnumeration_object {name : Bytes} (hname : name ≠ []) (m : List (Bytes × Njson)) (underlying : IntType)
    (values : List (Bytes × ℤ)) (v : underlying.Value) :
    writeEnumeration underlying values v name (.object m) =
      .ok (.object (addMember name (some (enumerationJson underlying values v)) m)) := by
  unfold writeEnumeration enumerationJson
  cases enumerationName values v.1 with
  | some text => rfl
  | none => cases enumerationNumber underlying v.1 <;> exact put_object hname m _

theorem writeArray_object {α : Type} (body : Njson → α → Result Njson) (items : List α) (name : Bytes)
    (m : List (Bytes × Njson)) :
    writeArray body items name (.object m) = do
      let o ← some <$> items.foldlM body (.array [])
      return .object (addMember name o m) := by
  unfold writeArray
  cases items.foldlM body (.array []) <;> rfl

/-- **Under a name**, `write_variant` puts the content. -/
theorem writeVariant_object {name : Bytes} (hname : name ≠ []) (m : List (Bytes × Njson)) :
    ∀ (t : CxxType) (v : Val t), writeVariant t name (.object m) v = do
      let o ← content t name v
      return .object (addMember name o m)
  | .int k, v => writeArithmetic_object hname m k v
  | .string, s => put_object hname m (.string s)
  | .enumeration _ underlying values, v => writeEnumeration_object hname m underlying values v
  | .sequence kind t, items => writeArray_object (writeItem t kind name) items name m
  | .set _ t, keys => writeArray_object (writeVariant t []) keys name m
  | .map _ k t, entries => writeArray_object (writeEntry k t) entries name m
  | .struct _ .nil, _ => rfl
  | .struct _ (.cons property t rest), v => by
    show (toJsonRecursively (.cons property t rest) v (.object []) >>= fun sub => (Njson.object m).put name sub) =
      (some <$> toJsonRecursively (.cons property t rest) v (.object []) >>= _)
    cases toJsonRecursively (.cons property t rest) v (.object []) with
    | error e => rfl
    | ok sub => exact put_object hname m sub

theorem lookup_contents {name : Bytes} :
    ∀ (ps : Properties) (v : Vals ps) {l : List (Bytes × Njson)}, contents ps v = .ok l → name ∉ ps.names →
      l.lookup name = none
  | .nil, _, l, h, _ => by
    cases h
    rfl
  | .cons property t rest, v, l, h, hname => by
    obtain ⟨o, -, h⟩ := bind_eq_ok.mp h
    obtain ⟨l', hl', h⟩ := bind_eq_ok.mp h
    cases h
    simp only [Properties.names, List.mem_cons, not_or] at hname
    have ih := lookup_contents rest v.2 hl' hname.2
    cases o with
    | none => exact ih
    | some e => simpa [List.lookup_cons, beq_eq_false_iff_ne.mpr hname.1] using ih

/-- **The members** are written behind those that are there. -/
theorem toJsonRecursively_object :
    ∀ (ps : Properties) (v : Vals ps) (m : List (Bytes × Njson)), ps.Registered →
      (∀ name ∈ ps.names, m.lookup name = none) →
      toJsonRecursively ps v (.object m) = do
        let l ← contents ps v
        return .object (m ++ l)
  | .nil, _, m, _, _ => by simp [toJsonRecursively, contents]
  | .cons name t rest, v, m, hps, hm => by
    obtain ⟨hname, hnew, -, hrest⟩ := hps
    rw [toJsonRecursively, writeVariant_object hname m t v.1, contents]
    cases ho : content t name v.1 with
    | error e => rfl
    | ok o =>
      have hadd : addMember name o m = m ++ (o.map fun e => (name, e)).toList := by
        cases o with
        | none => exact (List.append_nil m).symm
        | some e => exact setMember_of_lookup (hm name List.mem_cons_self)
      have hm' : ∀ name' ∈ rest.names, (addMember name o m).lookup name' = none := by
        intro name' hname'
        have hne : name' ≠ name := fun h => hnew (h ▸ hname')
        rw [hadd, List.lookup_append, hm name' (List.mem_cons_of_mem _ hname')]
        cases o with
        | none => rfl
        | some e => simp [List.lookup_cons, beq_eq_false_iff_ne.mpr hne]
      simp only [result_ok_bind, result_pure]
      rw [toJsonRecursively_object rest v.2 _ hrest hm', hadd]
      cases contents rest v.2 <;> simp

/-! ## Inside an array -/

/-- **A container inside an array** is not written: its name is assigned to the array. -/
theorem writeArray_array {α : Type} {body : Njson → α → Result Njson} {items : List α} {name : Bytes}
    {js : List Njson} {j : Njson} : writeArray body items name (.array js) ≠ .ok j := by
  intro h
  obtain ⟨array, -, h⟩ := bind_eq_ok.mp h
  cases h

theorem put_array {name : Bytes} (hname : name ≠ []) {js : List Njson} {e j : Njson} :
    (Njson.array js).put name e ≠ .ok j := by
  rw [Njson.put, if_neg hname]
  nofun

theorem writeVariant_array_nil {js : List Njson} {j : Njson} :
    ∀ (t : CxxType) (v : Val t), writeVariant t [] (.array js) v = .ok j →
      ∃ o, content t [] v = .ok o ∧ j = .array (js ++ o.toList)
  | .int k, v, h => by
    refine ⟨_, rfl, ?_⟩
    change writeArithmetic k v [] (.array js) = .ok j at h
    unfold writeArithmetic at h
    split_ifs at h ⊢ with hk
    · cases h
      rfl
    · cases h
      exact congrArg _ (List.append_nil js).symm
  | .string, s, h => by
    cases h
    exact ⟨_, rfl, rfl⟩
  | .enumeration _ underlying values, v, h => by
    refine ⟨_, rfl, ?_⟩
    change writeEnumeration underlying values v [] (.array js) = .ok j at h
    unfold writeEnumeration at h
    unfold enumerationJson
    cases hn : enumerationName values v.1 with
    | some text =>
      rw [hn] at h
      cases h
    | none =>
      rw [hn] at h
      cases hu : enumerationNumber underlying v.1 <;>
      · rw [hu] at h
        cases h
        rfl
  | .sequence kind t, items, h => absurd h writeArray_array
  | .set _ t, keys, h => absurd h writeArray_array
  | .map _ k t, entries, h => absurd h writeArray_array
  | .struct _ .nil, _, h => by cases h
  | .struct _ (.cons property t rest), v, h => by
    obtain ⟨sub, hsub, h⟩ := bind_eq_ok.mp h
    cases h
    refine ⟨some sub, ?_, rfl⟩
    change some <$> toJsonRecursively (.cons property t rest) v (.object []) = _
    rw [hsub]
    rfl

/-- With a name, nothing but the missing branches of `write_atomic_types_to_json` return. -/
theorem writeVariant_array {name : Bytes} (hname : name ≠ []) {js : List Njson} {j : Njson} :
    ∀ (t : CxxType) (v : Val t), writeVariant t name (.array js) v = .ok j →
      j = .array js ∧ ∃ k : IntType, t = .int k ∧ k.written = false
  | .int k, v, h => by
    change writeArithmetic k v name (.array js) = .ok j at h
    unfold writeArithmetic at h
    split_ifs at h with hk
    · exact absurd h (put_array hname)
    · cases h
      exact ⟨rfl, k, rfl, by simpa using hk⟩
  | .string, s, h => absurd h (put_array hname)
  | .enumeration _ underlying values, v, h => by
    change writeEnumeration underlying values v name (.array js) = .ok j at h
    unfold writeEnumeration at h
    cases hn : enumerationName values v.1 with
    | some text =>
      rw [hn] at h
      cases h
    | none =>
      rw [hn] at h
      cases hu : enumerationNumber underlying v.1 <;>
      · rw [hu] at h
        exact absurd h (put_array hname)
  | .sequence kind t, items, h => absurd h writeArray_array
  | .set _ t, keys, h => absurd h writeArray_array
  | .map _ k t, entries, h => absurd h writeArray_array
  | .struct _ .nil, _, h => by cases h
  | .struct _ (.cons property t rest), v, h => by
    obtain ⟨sub, -, h⟩ := bind_eq_ok.mp h
    exact absurd h (put_array hname)

/-- None of the properties has a branch of `write_atomic_types_to_json`, so none is written. -/
def Properties.Silent : Properties → Prop
  | .nil => True
  | .cons _ t rest => (∃ k : IntType, t = .int k ∧ k.written = false) ∧ rest.Silent

/-- **A struct inside an array**: as soon as a property is written, the writer throws. -/
theorem toJsonRecursively_array {js : List Njson} {j : Njson} :
    ∀ (ps : Properties) (v : Vals ps), ps.Registered → toJsonRecursively ps v (.array js) = .ok j →
      j = .array js ∧ ps.Silent
  | .nil, _, _, h => by
    cases h
    exact ⟨rfl, trivial⟩
  | .cons name t rest, v, hps, h => by
    obtain ⟨hname, -, -, hrest⟩ := hps
    obtain ⟨j', hj', h⟩ := bind_eq_ok.mp h
    obtain ⟨rfl, hk⟩ := writeVariant_array hname t v.1 hj'
    obtain ⟨rfl, hs⟩ := toJsonRecursively_array rest v.2 hrest h
    exact ⟨rfl, hk, hs⟩

theorem toJsonRecursively_silent (js : List Njson) :
    ∀ (ps : Properties) (v : Vals ps), ps.Silent → toJsonRecursively ps v (.array js) = .ok (.array js)
  | .nil, _, _ => rfl
  | .cons name t rest, v, h => by
    obtain ⟨⟨k, rfl, hk⟩, hs⟩ := h
    have hv : writeVariant (.int k) name (.array js) v.1 = .ok (.array js) :=
      if_neg (by simp [hk])
    rw [toJsonRecursively, hv]
    exact toJsonRecursively_silent js rest v.2 hs

/-- Nothing is written for an element of this type, or it is the type of a struct without written properties. -/
def CxxType.Silent : CxxType → Prop
  | .int k => k.written = false
  | .set _ _ | .map _ _ _ => True
  | .struct _ ps => ps.Silent
  | .string | .enumeration _ _ _ | .sequence _ _ => False

/-- The elements of this type are written by value. -/
def CxxType.Kept (kind : SeqKind) : CxxType → Prop
  | .int k => k.written = true ∧ ¬ (kind = .vector ∧ k = .bool)
  | .string => True
  | _ => False

theorem writeItem_silent {t : CxxType} (ht : t.Silent) (kind : SeqKind) (name : Bytes) (js : List Njson) (v : Val t) :
    writeItem t kind name (.array js) v = .ok (.array js) := by
  cases t with
  | int k =>
    have hk : ¬ k.written = true := by simpa [CxxType.Silent] using ht
    have hv : writeArithmetic k v [] (.array js) = .ok (.array js) := if_neg hk
    show (if kind = .vector ∧ k = .bool then _ else writeArithmetic k v [] (.array js)) = _
    rw [hv, ite_self]
  | string => cases ht
  | enumeration _ _ _ => cases ht
  | sequence _ _ => cases ht
  | set _ _ => rfl
  | map _ _ _ => rfl
  | struct _ ps => exact toJsonRecursively_silent js ps v ht

/-! ## What the readers see -/

theorem ofBool_ne_zero (v : IntType.bool.Value) : IntType.ofBool (decide (v.1 ≠ 0)) = v := by
  obtain ⟨n, hn⟩ := v
  have h01 : 0 ≤ n ∧ n < 2 := hn
  obtain rfl | rfl : n = 0 ∨ n = 1 := by omega
  · rfl
  · rfl

/-- **A number that is written** is read again. -/
theorem extractBasicTypes_toJson {k : IntType} (hk : k.written = true) (v : k.Value) :
    extractBasicTypes (.int k) (k.toJson v) = .ok (some v) := by
  by_cases hb : k = .bool
  · subst hb
    exact congrArg (fun w => Except.ok (some w)) (ofBool_ne_zero v)
  · have hj : k.toJson v = .number v.1 := by
      cases k <;> first | exact absurd rfl hb | rfl
    have hr : k.read = true := by
      cases k <;> first | exact absurd rfl hb | rfl | exact absurd hk (by decide)
    rw [hj]
    exact (if_pos hr).trans (congrArg (fun w => Except.ok (some w)) (IntType.cast_val v))

/-- What is written for an enumeration does not have the type of an enumeration. -/
theorem extractBasicTypes_enumerationJson (name : Bytes) (underlying : IntType) (values : List (Bytes × ℤ))
    (v : underlying.Value) : ∃ e, extractBasicTypes (.enumeration name underlying values)
      (enumerationJson underlying values v) = .error e := by
  unfold enumerationJson
  cases enumerationName values v.1 with
  | some text => exact ⟨_, rfl⟩
  | none => cases enumerationNumber underlying v.1 <;> exact ⟨_, rfl⟩

theorem fromJsonRecursively_append (C : Classes) {m : List (Bytes × Njson)} (l : List (Bytes × Njson)) :
    ∀ (ps : Properties) (d : Vals ps), (∀ name ∈ ps.names, m.lookup name = none) →
      fromJsonRecursively C ps d (.object (m ++ l)) = fromJsonRecursively C ps d (.object l)
  | .nil, _, _ => rfl
  | .cons name t rest, d, hm => by
    have hmem : (Njson.object (m ++ l)).member name = (Njson.object l).member name := by
      simp only [Njson.member, List.lookup_append, hm name List.mem_cons_self, Option.none_or]
    rw [fromJsonRecursively, fromJsonRecursively, hmem,
      fromJsonRecursively_append C l rest d.2 fun name' h => hm name' (List.mem_cons_of_mem _ h)]

theorem fromJsonRecursively_cons (C : Classes) {name : Bytes} {t : CxxType} {rest : Properties}
    (hnew : name ∉ rest.names) (d : Vals (.cons name t rest)) (e : Njson) (l : List (Bytes × Njson)) :
    fromJsonRecursively C (.cons name t rest) d (.object ((name, e) :: l)) = do
      let v ← readProperty C t d.1 e
      let vs ← fromJsonRecursively C rest d.2 (.object l)
      return (v, vs) := by
  have hmem : (Njson.object ((name, e) :: l)).member name = .ok e := by
    simp [Njson.member]
  have hrest : fromJsonRecursively C rest d.2 (.object ((name, e) :: l)) =
      fromJsonRecursively C rest d.2 (.object l) := by
    refine fromJsonRecursively_append C (m := [(name, e)]) l rest d.2 fun name' h => ?_
    have hne : name' ≠ name := fun h' => hnew (h' ▸ h)
    simp [List.lookup_cons, beq_eq_false_iff_ne.mpr hne]
  rw [fromJsonRecursively, hmem, result_ok_bind, hrest]

/-- A property that is missing fails the assertion. -/
theorem fromJsonRecursively_missing (C : Classes) {name : Bytes} {t : CxxType} {rest : Properties}
    (d : Vals (.cons name t rest)) {l : List (Bytes × Njson)} (h : l.lookup name = none) :
    fromJsonRecursively C (.cons name t rest) d (.object l) = .error .assertion := by
  rw [fromJsonRecursively, Njson.member, h]
  rfl

/-! ## Loops -/

/-- **A loop that keeps every element**: what is written for the elements one by one is read one by one. -/
theorem fold_keep {α β : Type} (step : Njson → α → Result Njson) (read : β → Njson → Result β)
    (insert : β → α → β) :
    ∀ items : List α,
      (∀ x ∈ items, ∃ e, (∀ js, step (.array js) x = .ok (.array (js ++ [e]))) ∧
        ∀ acc, read acc e = .ok (insert acc x)) →
      ∃ es, (∀ js, items.foldlM step (.array js) = .ok (.array (js ++ es))) ∧
        ∀ acc, es.foldlM read acc = .ok (items.foldl insert acc)
  | [], _ => ⟨[], fun js => by simp, fun acc => rfl⟩
  | x :: items, h => by
    obtain ⟨e, hw, hr⟩ := h x List.mem_cons_self
    obtain ⟨es, hws, hrs⟩ := fold_keep step read insert items fun y hy => h y (List.mem_cons_of_mem _ hy)
    refine ⟨e :: es, fun js => ?_, fun acc => ?_⟩
    · rw [List.foldlM_cons, hw, result_ok_bind, hws, List.append_assoc]
      rfl
    · rw [List.foldlM_cons, hr, result_ok_bind, hrs, List.foldl_cons]

/-- **A loop that may lose elements**: the count of what is read stays below the count of what was there, and when
it does not, every element is a good one. -/
theorem fold_loss {α β : Type} (step : Njson → α → Result Njson) (read : β → Njson → Result β) (size : β → ℕ)
    (cost : α → ℕ) (good : α → Prop) :
    ∀ items : List α,
      (∀ x ∈ items, ∀ js j, step (.array js) x = .ok j → ∃ es, j = .array (js ++ es) ∧
        ∀ acc r, es.foldlM read acc = .ok r → size r ≤ size acc + cost x ∧ (size r = size acc + cost x → good x)) →
      ∀ js j, items.foldlM step (.array js) = .ok j → ∃ es, j = .array (js ++ es) ∧
        ∀ acc r, es.foldlM read acc = .ok r → size r ≤ size acc + (items.map cost).sum ∧
          (size r = size acc + (items.map cost).sum → ∀ x ∈ items, good x)
  | [], _, js, j, hj => by
    cases hj
    refine ⟨[], by simp, fun acc r hr => ?_⟩
    cases hr
    exact ⟨le_refl _, fun _ => by simp⟩
  | x :: items, h, js, j, hj => by
    rw [List.foldlM_cons] at hj
    obtain ⟨j1, hj1, hj⟩ := bind_eq_ok.mp hj
    obtain ⟨e1, rfl, hx⟩ := h x List.mem_cons_self js j1 hj1
    have hitems := fun y hy => h y (List.mem_cons_of_mem x hy)
    obtain ⟨es, rfl, hxs⟩ := fold_loss step read size cost good items hitems _ _ hj
    refine ⟨e1 ++ es, by simp, fun acc r hr => ?_⟩
    rw [List.foldlM_append] at hr
    obtain ⟨acc1, hacc1, hr⟩ := bind_eq_ok.mp hr
    obtain ⟨h1, h1'⟩ := hx acc acc1 hacc1
    obtain ⟨h2, h2'⟩ := hxs acc1 r hr
    simp only [List.map_cons, List.sum_cons]
    refine ⟨by omega, fun heq => ?_⟩
    rw [List.forall_mem_cons]
    exact ⟨h1' (by omega), h2' (by omega)⟩

end Gts3.Utls
