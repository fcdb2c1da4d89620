import Gts3.Utls.JsonFits

/-!
# `gts/utls/json.cpp`: which values come back

What fits comes back; here is that nothing else does, when default construction leaves sets and maps empty.  Reading
can lose elements and never adds any: `extent` counts them, no round trip makes the count larger, and it stays the same
only for a value that fits (`back_property`, `back_all`).  A value that comes back has the count it had.
-/

namespace Gts3.Utls

open Lib Lib.Cxx

/-! ## No other value comes back -/

/-- The container is empty. -/
def Vacant {α : Type} (l : List α) : Prop := l = []

mutual

/-- The sets and maps of the object are empty. -/
def Unfilled : (t : CxxType) → Val t → Prop
  | .int _, _ | .string, _ | .enumeration _ _ _, _ | .sequence _ _, _ => True
  | .set _ _, d => Vacant d
  | .map _ _ _, d => Vacant d
  | .struct _ ps, d => UnfilledAll ps d

/-- The same for the properties. -/
def UnfilledAll : (ps : Properties) → Vals ps → Prop
  | .nil, _ => True
  | .cons _ t rest, d => Unfilled t d.1 ∧ UnfilledAll rest d.2

end

/-- The count of a sequence: its elements, or whether a fixed array differs from the default. -/
noncomputable def seqExtent {α : Type} (kind : SeqKind) (d items : List α) : ℕ :=
  open Classical in
  match kind with
  | .array _ => if items = d then 0 else 1
  | _ => items.length

/-- The sum over the elements. -/
def sumOver {α : Type} (count : α → ℕ) (l : List α) : ℕ := (l.map count).sum

mutual

/-- A count of what reading can lose: elements, and fixed arrays that differ from those of the default object. -/
noncomputable def extent (C : Classes) : (t : CxxType) → (d v : Val t) → ℕ
  | .int _, _, _ => 0
  | .string, _, _ => 0
  | .enumeration _ _ _, _, _ => 0
  | .sequence kind _, d, items => seqExtent kind d items
  | .set _ t, _, keys => sumOver (fun x : Val t => 1 + extent C t (C.create t) x) keys
  | .map _ k t, _, entries =>
    sumOver (fun e : Val k × Val t => 1 + extent C k (C.create k) e.1 + extent C t (C.create t) e.2) entries
  | .struct _ ps, d, v => extentAll C ps d v

/-- The same for the properties. -/
noncomputable def extentAll (C : Classes) : (ps : Properties) → (d v : Vals ps) → ℕ
  | .nil, _, _ => 0
  | .cons _ t rest, d, v => extent C t d.1 v.1 + extentAll C rest d.2 v.2

end

/-- The elements of the types that are not written by value: nothing is written, or the readers throw. -/
theorem writeItem_lost {t : CxxType} {kind : SeqKind} {name : Bytes} {js : List Njson} {x : Val t} {j : Njson}
    (hps : t.Registered) (ht : ¬ t.Kept kind) (h : writeItem t kind name (.array js) x = .ok j) :
    (j = .array js ∧ (t.Silent ∨ kind = .vector)) ∨
      ∃ e, j = .array (js ++ [e]) ∧ ∀ (C : Classes) (old : Val t), ∃ err, readItem C t old e = .error err := by
  cases t with
  | int k =>
    change (if kind = .vector ∧ k = .bool then .ok (.array js) else writeArithmetic k x [] (.array js)) = .ok j at h
    split_ifs at h with hvec
    · cases h
      exact Or.inl ⟨rfl, Or.inr hvec.1⟩
    · have hk : ¬ k.written = true := fun hk => ht ⟨hk, hvec⟩
      have hw : writeArithmetic k x [] (.array js) = .ok (.array js) := if_neg hk
      rw [hw] at h
      cases h
      exact Or.inl ⟨rfl, Or.inl (by simpa [CxxType.Silent] using hk)⟩
  | string => exact absurd trivial ht
  | enumeration name underlying values =>
    obtain ⟨o, ho, rfl⟩ := writeVariant_array_nil (.enumeration name underlying values) x h
    obtain rfl : some (enumerationJson underlying values x) = o := Except.ok.inj ho
    refine Or.inr ⟨enumerationJson underlying values x, rfl, fun C old => ?_⟩
    obtain ⟨err, herr⟩ := extractBasicTypes_enumerationJson name underlying values x
    have hplain : readItem C (.enumeration name underlying values) old (enumerationJson underlying values x) =
        setBasic (.enumeration name underlying values) old (enumerationJson underlying values x) := by
      unfold enumerationJson
      cases enumerationName values x.1 with
      | some text => rfl
      | none => cases enumerationNumber underlying x.1 <;> rfl
    exact ⟨err, by rw [hplain, setBasic, herr]; rfl⟩
  | sequence kind' t => exact absurd h writeArray_array
  | set _ _ =>
    cases h
    exact Or.inl ⟨rfl, Or.inl trivial⟩
  | map _ _ _ =>
    cases h
    exact Or.inl ⟨rfl, Or.inl trivial⟩
  | struct _ ps =>
    obtain ⟨rfl, hs⟩ := toJsonRecursively_array ps x hps h
    exact Or.inl ⟨rfl, Or.inl hs⟩

/-- A sequence of such elements: none are written, or the first one cannot be read. -/
theorem items_lost {t : CxxType} {kind : SeqKind} {name : Bytes} (hps : t.Registered) (ht : ¬ t.Kept kind) :
    ∀ (items : List (Val t)) (js : List Njson) (j : Njson),
      items.foldlM (writeItem t kind name) (.array js) = .ok j →
      (j = .array js ∧ (items.length = 0 ∨ t.Silent ∨ kind = .vector)) ∨
        ∃ e es, j = .array (js ++ e :: es) ∧ ∀ (C : Classes) (old : Val t), ∃ err, readItem C t old e = .error err
  | [], js, j, h => by
    cases h
    exact Or.inl ⟨rfl, Or.inl rfl⟩
  | x :: items, js, j, h => by
    rw [List.foldlM_cons] at h
    obtain ⟨j1, hj1, h⟩ := bind_eq_ok.mp h
    rcases writeItem_lost hps ht hj1 with ⟨rfl, hs⟩ | ⟨e, rfl, herr⟩
    · rcases items_lost hps ht items js j h with ⟨rfl, -⟩ | hlost
      · exact Or.inl ⟨rfl, Or.inr hs⟩
      · exact Or.inr hlost
    · rcases items_lost hps ht items _ j h with ⟨rfl, -⟩ | ⟨e', es, rfl, -⟩
      · exact Or.inr ⟨e, [], rfl, herr⟩
      · exact Or.inr ⟨e, e' :: es, by simp, herr⟩

/-- **A sequence** comes back with its elements, or without any. -/
theorem sequence_back (C : Classes) {kind : SeqKind} {t : CxxType} {d items r : List (Val t)} (hps : t.Registered)
    (hd : kind.Admits d) (hitems : kind.Admits items) {name : Bytes} {es : List Njson}
    (hw : items.foldlM (writeItem t kind name) (.array []) = .ok (.array es))
    (hr : readItems (readItem C t) (kind.setSize (C.create t) es.length d) es = .ok r) :
    seqExtent kind d r ≤ seqExtent kind d items ∧
      (seqExtent kind d r = seqExtent kind d items →
        items.length = 0 ∨ t.Kept kind ∨ (kind.Fixed ∧ t.Silent ∧ items = d)) := by
  by_cases ht : t.Kept kind
  · obtain ⟨es', hlen, hw', hr'⟩ := items_kept C ht name items
    rw [hw' []] at hw
    cases hw
    have hback := hr' (kind.setSize (C.create t) items.length d) (length_setSize (C.create t) hd hitems)
    rw [List.nil_append, hlen, hback] at hr
    cases hr
    exact ⟨le_refl _, fun _ => Or.inr (Or.inl ht)⟩
  · rcases items_lost hps ht items [] _ hw with ⟨hj, hsilent⟩ | ⟨e, es', hj, herr⟩
    · cases hj
      cases kind with
      | vector =>
        have hnil : SeqKind.vector.setSize (C.create t) 0 d = [] := by simp [SeqKind.setSize]
        change readItems (readItem C t) (SeqKind.vector.setSize (C.create t) 0 d) [] = .ok r at hr
        rw [hnil] at hr
        cases hr
        exact ⟨Nat.zero_le _, fun heq => Or.inl heq.symm⟩
      | list =>
        have hnil : SeqKind.list.setSize (C.create t) 0 d = [] := by simp [SeqKind.setSize]
        change readItems (readItem C t) (SeqKind.list.setSize (C.create t) 0 d) [] = .ok r at hr
        rw [hnil] at hr
        cases hr
        exact ⟨Nat.zero_le _, fun heq => Or.inl heq.symm⟩
      | array n =>
        have hrd : r = d := by
          have hread : readItems (readItem C t) d [] = .ok r := hr
          cases d <;> exact (Except.ok.inj hread).symm
        have hzero : seqExtent (.array n) d r = 0 := if_pos hrd
        rw [hzero]
        refine ⟨Nat.zero_le _, fun heq => ?_⟩
        have hitemsd : items = d := by
          by_contra hne
          have hone : seqExtent (.array n) d items = 1 := if_neg hne
          omega
        rcases hsilent with h0 | hs | hv
        · exact Or.inl h0
        · exact Or.inr (Or.inr ⟨trivial, hs, hitemsd⟩)
        · cases hv
    · cases hj
      exfalso
      cases hset : kind.setSize (C.create t) (e :: es').length d with
      | nil =>
        rw [List.nil_append, hset] at hr
        cases hr
      | cons old olds =>
        obtain ⟨err, herr⟩ := herr C old
        rw [List.nil_append, hset, readItems, herr] at hr
        cases hr

/-- What `extract_value` gives is a value that the property would be given. -/
theorem readProperty_of_extract (C : Classes) {e : Njson} :
    ∀ (t : CxxType) (w : Val t), extractValue C t e = .ok (some w) →
      t.Single ∧ readProperty C t (C.create t) e = .ok w
  | .int k, w, h => by
    refine ⟨trivial, ?_⟩
    have hset := setBasic_of_extract (C.create (.int k)) h
    cases e <;> exact hset
  | .string, w, h => by
    refine ⟨trivial, ?_⟩
    have hset := setBasic_of_extract (C.create .string) h
    cases e <;> exact hset
  | .enumeration name underlying values, w, h => by
    refine ⟨trivial, ?_⟩
    have hset := setBasic_of_extract (C.create (.enumeration name underlying values)) h
    cases e <;> exact hset
  | .sequence _ _, w, h => by cases e <;> cases h
  | .set _ _, w, h => by cases e <;> cases h
  | .map _ _ _, w, h => by cases e <;> cases h
  | .struct name ps, w, h => by
    refine ⟨trivial, ?_⟩
    cases e with
    | object m =>
      obtain ⟨v, hv, h⟩ := bind_eq_ok.mp
        (show (fromJsonRecursively C ps (C.create (.struct name ps)) (.object m) >>= fun v => pure (some v)) = _ from h)
      cases h
      exact hv
    | null => cases h
    | boolean _ => cases h
    | number _ => cases h
    | string _ => cases h
    | array _ => cases h

theorem sumOver_emplace_le {α : Type} (multi : Bool) (lt : α → α → Bool) (count : α → ℕ) (x : α) (l : List α) :
    sumOver count (Ordered.emplace multi lt x l) ≤ count x + sumOver count l :=
  Ordered.sum_emplace_le count x l

/-- Reading a key adds its count at most, and a key that is not read adds nothing. -/
theorem readKey_back {κ : Type} {extract : Njson → Result (Option κ)} {multi : Bool} {lt : κ → κ → Bool}
    {count : κ → ℕ} {x : κ} {good : Prop} {e : Njson} {acc r : List κ}
    (h : ∀ w, extract e = .ok (some w) → count w ≤ count x ∧ (count w = count x → good))
    (hr : readKey extract (Ordered.emplace multi lt) acc e = .ok r) :
    sumOver (fun x => 1 + count x) r ≤ sumOver (fun x => 1 + count x) acc + (1 + count x) ∧
      (sumOver (fun x => 1 + count x) r = sumOver (fun x => 1 + count x) acc + (1 + count x) → good) := by
  obtain ⟨key, hkey, hr⟩ := bind_eq_ok.mp hr
  cases key with
  | none =>
    cases hr
    exact ⟨by omega, fun heq => by omega⟩
  | some w =>
    cases hr
    obtain ⟨hle, hgood⟩ := h w hkey
    have hsum := sumOver_emplace_le multi lt (fun x => 1 + count x) w acc
    exact ⟨by omega, fun heq => hgood (by omega)⟩

/-- The same for a key with its value; a part that is missing fails the assertion. -/
theorem readEntry_back {κ ν : Type} {extractKey : Njson → Result (Option κ)} {extractVal : Njson → Result (Option ν)}
    {multi : Bool} {lt : κ × ν → κ × ν → Bool} {count : κ → ℕ} {count' : ν → ℕ} {x : κ × ν} {good good' : Prop}
    {o o' : Option Njson} {acc r : List (κ × ν)}
    (h : ∀ e w, o = some e → extractKey e = .ok (some w) → count w ≤ count x.1 ∧ (count w = count x.1 → good))
    (h' : ∀ e w, o' = some e → extractVal e = .ok (some w) → count' w ≤ count' x.2 ∧ (count' w = count' x.2 → good'))
    (hr : readEntry extractKey extractVal (Ordered.emplace multi lt) acc
      (.object (addMember (lit "value") o' (addMember (lit "key") o []))) = .ok r) :
    sumOver (fun x => 1 + count x.1 + count' x.2) r ≤
        sumOver (fun x => 1 + count x.1 + count' x.2) acc + (1 + count x.1 + count' x.2) ∧
      (sumOver (fun x => 1 + count x.1 + count' x.2) r =
        sumOver (fun x => 1 + count x.1 + count' x.2) acc + (1 + count x.1 + count' x.2) → good ∧ good') := by
  obtain ⟨keyJson, hkj, hr⟩ := bind_eq_ok.mp hr
  obtain ⟨valueJson, hvj, hr⟩ := bind_eq_ok.mp hr
  obtain ⟨key, hkey, hr⟩ := bind_eq_ok.mp hr
  obtain ⟨value, hvalue, hr⟩ := bind_eq_ok.mp hr
  cases o with
  | none => cases o' <;> cases hkj
  | some e =>
    cases o' with
    | none => cases hvj
    | some e' =>
      cases hkj
      cases hvj
      cases key with
      | none =>
        cases hr
        exact ⟨by omega, fun heq => by omega⟩
      | some w =>
        cases value with
        | none =>
          cases hr
          exact ⟨by omega, fun heq => by omega⟩
        | some w' =>
          cases hr
          obtain ⟨hle, hgood⟩ := h _ w rfl hkey
          obtain ⟨hle', hgood'⟩ := h' _ w' rfl hvalue
          have hsum := sumOver_emplace_le multi lt
            (fun x => 1 + count x.1 + count' x.2) (w, w') acc
          simp only at hsum
          exact ⟨by omega, fun heq => ⟨hgood (by omega), hgood' (by omega)⟩⟩

/-- A key or a value comes back with a smaller count, or it fits. -/
def SingleBack (C : Classes) (t : CxxType) (x : Val t) : Prop :=
  ∀ name e w, content t name x = .ok (some e) → extractValue C t e = .ok (some w) →
    extent C t (C.create t) w ≤ extent C t (C.create t) x ∧
      (extent C t (C.create t) w = extent C t (C.create t) x → t.Single ∧ Fits C t (C.create t) x)

/-- What holds of a property of the type holds of a key or a value. -/
theorem singleBack_of_property (C : Classes) {t : CxxType} {x : Val t}
    (h : ∀ name e w, content t name x = .ok (some e) → readProperty C t (C.create t) e = .ok w →
      extent C t (C.create t) w ≤ extent C t (C.create t) x ∧
        (extent C t (C.create t) w = extent C t (C.create t) x → Fits C t (C.create t) x)) :
    SingleBack C t x := by
  intro name e w hc hw
  obtain ⟨hsingle, hread⟩ := readProperty_of_extract C t w hw
  obtain ⟨hle, hfit⟩ := h name e w hc hread
  exact ⟨hle, fun heq => ⟨hsingle, hfit heq⟩⟩

theorem merges_nil {α : Type} (multi : Bool) (l : List α) : Merges multi [] l := by
  cases multi with
  | true => rfl
  | false => exact List.nil_subset l

/-- **A set** that is read into an empty one. -/
theorem set_back (C : Classes) {multi : Bool} {t : CxxType} {keys r : List (Val t)} {e : Njson}
    (hkeys : ∀ x ∈ keys, SingleBack C t x) (hw : keys.foldlM (writeVariant t []) (.array []) = .ok e)
    (hr : readProperty C (.set multi t) ([] : List (Val t)) e = .ok r) :
    extent C (.set multi t) ([] : List (Val t)) r ≤ extent C (.set multi t) ([] : List (Val t)) keys ∧
      (extent C (.set multi t) ([] : List (Val t)) r = extent C (.set multi t) ([] : List (Val t)) keys →
        Fits C (.set multi t) ([] : List (Val t)) keys) := by
  have hloop := fold_loss (writeVariant t []) (readKey (extractValue C t) (Ordered.emplace multi (C.less t)))
    (sumOver fun x : Val t => 1 + extent C t (C.create t) x) (fun x => 1 + extent C t (C.create t) x)
    (fun x => t.Single ∧ Fits C t (C.create t) x) keys
  obtain ⟨es, rfl, hsum⟩ := hloop (fun x hx js j hj => by
    obtain ⟨o, ho, rfl⟩ := writeVariant_array_nil t x hj
    refine ⟨o.toList, rfl, fun acc r hr => ?_⟩
    cases o with
    | none =>
      -- nothing was written for the key
      cases hr
      exact ⟨by omega, fun heq => by omega⟩
    | some e =>
      obtain ⟨r', hr', hr⟩ := bind_eq_ok.mp hr
      cases hr
      exact readKey_back (fun w hw => hkeys x hx [] e w ho hw) hr') [] e hw
  obtain ⟨hle, hfit⟩ := hsum [] r hr
  have hnil : sumOver (fun x : Val t => 1 + extent C t (C.create t) x) [] = 0 := rfl
  rw [hnil, Nat.zero_add] at hle hfit
  exact ⟨hle, fun heq => ⟨hfit heq, merges_nil multi keys⟩⟩

/-- **A map** that is read into an empty one. -/
theorem map_back (C : Classes) {multi : Bool} {k t : CxxType} {entries r : List (Val k × Val t)} {e : Njson}
    (hentries : ∀ x ∈ entries, SingleBack C k x.1 ∧ SingleBack C t x.2)
    (hw : entries.foldlM (writeEntry k t) (.array []) = .ok e)
    (hr : readProperty C (.map multi k t) ([] : List (Val k × Val t)) e = .ok r) :
    extent C (.map multi k t) ([] : List (Val k × Val t)) r ≤
        extent C (.map multi k t) ([] : List (Val k × Val t)) entries ∧
      (extent C (.map multi k t) ([] : List (Val k × Val t)) r =
          extent C (.map multi k t) ([] : List (Val k × Val t)) entries →
        Fits C (.map multi k t) ([] : List (Val k × Val t)) entries) := by
  have hloop := fold_loss (writeEntry k t)
    (readEntry (extractValue C k) (extractValue C t) (Ordered.emplace multi fun a b => C.less k a.1 b.1))
    (sumOver fun x : Val k × Val t => 1 + extent C k (C.create k) x.1 + extent C t (C.create t) x.2)
    (fun x => 1 + extent C k (C.create k) x.1 + extent C t (C.create t) x.2)
    (fun x => (k.Single ∧ Fits C k (C.create k) x.1) ∧ t.Single ∧ Fits C t (C.create t) x.2) entries
  obtain ⟨es, rfl, hsum⟩ := hloop (fun x hx js j hj => by
    rw [writeEntry_eq] at hj
    obtain ⟨o, ho, hj⟩ := bind_eq_ok.mp hj
    obtain ⟨o', ho', hj⟩ := bind_eq_ok.mp hj
    cases hj
    refine ⟨_, rfl, fun acc r hr => ?_⟩
    obtain ⟨r', hr', hr⟩ := bind_eq_ok.mp hr
    cases hr
    obtain ⟨hk, ht⟩ := hentries x hx
    exact readEntry_back (fun e w he hw => hk (lit "key") e w (he ▸ ho) hw)
      (fun e w he hw => ht (lit "value") e w (he ▸ ho') hw) hr') [] e hw
  obtain ⟨hle, hfit⟩ := hsum [] r hr
  have hnil : sumOver (fun x : Val k × Val t =>
    1 + extent C k (C.create k) x.1 + extent C t (C.create t) x.2) [] = 0 := rfl
  rw [hnil, Nat.zero_add] at hle hfit
  exact ⟨hle, fun heq => ⟨hfit heq, merges_nil multi entries⟩⟩

/-- The loop over the items of a sequence makes an array. -/
theorem items_array (C : Classes) {t : CxxType} {kind : SeqKind} {name : Bytes} (ht : t.Registered)
    {items : List (Val t)} {j : Njson} (h : items.foldlM (writeItem t kind name) (.array []) = .ok j) :
    ∃ es, j = .array es := by
  by_cases hkept : t.Kept kind
  · obtain ⟨es, -, hw, -⟩ := items_kept C hkept name items
    rw [hw] at h
    exact ⟨_, (Except.ok.inj h).symm⟩
  · rcases items_lost ht hkept items [] j h with ⟨rfl, -⟩ | ⟨e, es, rfl, -⟩
    · exact ⟨_, rfl⟩
    · exact ⟨_, rfl⟩

theorem map_some_eq_ok {x : Result Njson} {e : Njson} (h : some <$> x = .ok (some e)) : x = .ok e := by
  cases x with
  | error err => cases h
  | ok j =>
    cases h
    rfl

mutual

/-- **Needed, for a property**: the count does not grow, and it stays the same only for what fits. -/
theorem back_property (C : Classes) (hC : ∀ t, Unfilled t (C.create t)) :
    ∀ (t : CxxType) (d v r : Val t), t.Registered → Sound C.less t d → Sound C.less t v → Unfilled t d →
      ∀ name e, content t name v = .ok (some e) → readProperty C t d e = .ok r →
        extent C t d r ≤ extent C t d v ∧ (extent C t d r = extent C t d v → Fits C t d v)
  | .int k, d, v, r, _, _, _, _, name, e, hc, _ => by
    refine ⟨le_refl _, fun _ => ?_⟩
    have he : (if k.written then some (k.toJson v) else none) = some e := Except.ok.inj hc
    show k.written = true
    by_contra hk
    rw [if_neg hk] at he
    cases he
  | .string, _, _, _, _, _, _, _, _, _, _, _ => ⟨le_refl _, fun _ => trivial⟩
  | .enumeration name underlying values, d, v, r, _, _, _, _, _, e, hc, hr => by
    cases hc
    obtain ⟨err, herr⟩ := extractBasicTypes_enumerationJson name underlying values v
    have hplain : readProperty C (.enumeration name underlying values) d (enumerationJson underlying values v) =
        setBasic (.enumeration name underlying values) d (enumerationJson underlying values v) := by
      unfold enumerationJson
      cases enumerationName values v.1 with
      | some text => rfl
      | none => cases enumerationNumber underlying v.1 <;> rfl
    rw [hplain, setBasic, herr] at hr
    cases hr
  | .sequence kind t, d, v, r, hps, hd, hv, _, name, e, hc, hr => by
    have ht : t.Registered := hps
    have hw : List.foldlM (writeItem t kind name) (.array []) v = .ok e := map_some_eq_ok hc
    obtain ⟨es, rfl⟩ := items_array C ht hw
    exact sequence_back C ht hd.1 hv.1 hw hr
  | .set multi t, d, v, r, ht, hd, hv, hfill, _, e, hc, hr => by
    obtain rfl : d = ([] : List (Val t)) := hfill
    refine set_back C (fun x hx => singleBack_of_property C fun name e w ho hread => ?_) (map_some_eq_ok hc) hr
    exact back_property C hC t (C.create t) x w ht (C.sound t) (hv.2 x hx) (hC t) name e ho hread
  | .map multi k t, d, v, r, hkt, hd, hv, hfill, _, e, hc, hr => by
    obtain ⟨hk, ht⟩ := hkt
    obtain rfl : d = ([] : List (Val k × Val t)) := hfill
    refine map_back C (fun x hx => ⟨singleBack_of_property C fun name e w ho hread => ?_,
      singleBack_of_property C fun name e w ho hread => ?_⟩) (map_some_eq_ok hc) hr
    · exact back_property C hC k (C.create k) x.1 w hk (C.sound k) (hv.2 x hx).1 (hC k) name e ho hread
    · exact back_property C hC t (C.create t) x.2 w ht (C.sound t) (hv.2 x hx).2 (hC t) name e ho hread
  | .struct className .nil, _, _, _, _, _, _, _, _, _, hc, _ => by cases hc
  | .struct className (.cons property t rest), d, v, r, hps, hd, hv, hfill, _, e, hc, hr => by
    rw [content_struct hps] at hc
    obtain ⟨l, hl, hc⟩ := bind_eq_ok.mp hc
    cases hc
    obtain ⟨hle, heq⟩ := back_all C hC (.cons property t rest) d v r hps hd hv hfill l hl hr
    exact ⟨hle, fun h => ⟨Properties.noConfusion, heq h⟩⟩

/-- **Needed, for a struct.** -/
theorem back_all (C : Classes) (hC : ∀ t, Unfilled t (C.create t)) :
    ∀ (ps : Properties) (d v r : Vals ps), ps.Registered → SoundAll C.less ps d → SoundAll C.less ps v →
      UnfilledAll ps d → ∀ l, contents ps v = .ok l → fromJsonRecursively C ps d (.object l) = .ok r →
        extentAll C ps d r ≤ extentAll C ps d v ∧ (extentAll C ps d r = extentAll C ps d v → FitsAll C ps d v)
  | .nil, _, _, _, _, _, _, _, _, _, _ => ⟨le_refl _, fun _ => trivial⟩
  | .cons name t rest, d, v, r, hps, hd, hv, hfill, l, hl, hr => by
    obtain ⟨-, hnew, ht, hrest⟩ := hps
    obtain ⟨o, ho, hl⟩ := bind_eq_ok.mp hl
    obtain ⟨l', hl', hl⟩ := bind_eq_ok.mp hl
    cases hl
    cases o with
    | none =>
      -- the property is not among the members
      rw [show (Option.map (fun e => (name, e)) none).toList ++ l' = l' from rfl,
        fromJsonRecursively_missing C d (lookup_contents rest v.2 hl' hnew)] at hr
      cases hr
    | some e =>
      rw [show (Option.map (fun e => (name, e)) (some e)).toList ++ l' = (name, e) :: l' from rfl,
        fromJsonRecursively_cons C hnew] at hr
      obtain ⟨w, hw, hr⟩ := bind_eq_ok.mp hr
      obtain ⟨ws, hws, hr⟩ := bind_eq_ok.mp hr
      cases hr
      obtain ⟨h1, h1'⟩ := back_property C hC t d.1 v.1 w ht hd.1 hv.1 hfill.1 name e ho hw
      obtain ⟨h2, h2'⟩ := back_all C hC rest d.2 v.2 ws hrest hd.2 hv.2 hfill.2 l' hl' hws
      simp only [extentAll]
      refine ⟨by omega, fun heq => ⟨h1' (by omega), h2' (by omega)⟩⟩

end

/-! ## Whole objects -/

/-- Default construction leaves the sets and maps empty. -/
def Classes.Fresh (C : Classes) : Prop := ∀ t, Unfilled t (C.create t)

/-- All properties of a struct fit; of another value there are none, and it is the default one. -/
def FitsWhole (C : Classes) : (t : CxxType) → Val t → Prop
  | .struct name ps, v => FitsAll C ps (C.create (.struct name ps)) v
  | t, v => v = C.create t

/-- A value without properties is written as an empty object, and nothing is read. -/
theorem roundTrips_plain (C : Classes) {t : CxxType} {v : Val t} (hw : fromStruct t v = .ok (.object []))
    (hr : ∀ json, toStruct C t (C.create t) json = .ok (C.create t)) : RoundTrips C t v ↔ v = C.create t := by
  constructor
  · rintro ⟨json, -, h⟩
    rw [hr json] at h
    exact (Except.ok.inj h).symm
  · intro h
    exact ⟨.object [], hw, h ▸ hr _⟩

/-- **`from_struct` and `to_struct`.**  A value that fits comes back, and no other one, unless the default-constructed
object has something in its sets and maps. -/
theorem struct_roundTrips_iff (C : Classes) (t : CxxType) (v : Val t) (ht : t.Registered) (hv : Sound C.less t v) :
    (FitsWhole C t v → RoundTrips C t v) ∧ (C.Fresh → (RoundTrips C t v ↔ FitsWhole C t v)) := by
  cases t
  case struct name ps =>
    have hobj := toJsonRecursively_object ps v [] ht fun _ _ => rfl
    have henough : FitsWhole C (.struct name ps) v → RoundTrips C (.struct name ps) v := by
      intro hfit
      obtain ⟨l, hl, hr⟩ := fits_all C ps (C.create (.struct name ps)) v ht (C.sound (.struct name ps)) hv hfit
      rw [hl] at hobj
      exact ⟨.object l, hobj, hr⟩
    refine ⟨henough, fun hC => ⟨?_, henough⟩⟩
    rintro ⟨json, hw, hr⟩
    change toJsonRecursively ps v (.object []) = .ok json at hw
    rw [hobj] at hw
    obtain ⟨l, hl, hw⟩ := bind_eq_ok.mp hw
    cases hw
    exact (back_all C hC ps (C.create (.struct name ps)) v v ht (C.sound (.struct name ps)) hv
      (hC (.struct name ps)) l hl hr).2 rfl
  all_goals
    have hplain := roundTrips_plain C (v := v) rfl fun _ => rfl
    exact ⟨hplain.mpr, fun _ => hplain⟩

/-! ## Classes without initialisers -/

/-- The elements of a default-constructed sequence. -/
def SeqKind.fresh {α : Type} (kind : SeqKind) (fill : α) : List α :=
  match kind with
  | array n => List.replicate n fill
  | _ => []

mutual

/-- Numbers are zero, and dynamic containers are empty. -/
def zero : (t : CxxType) → Val t
  | .int k => k.cast 0
  | .string => []
  | .enumeration _ underlying _ => underlying.cast 0
  | .sequence kind t => kind.fresh (zero t)
  | .set _ _ => []
  | .map _ _ _ => []
  | .struct _ ps => zeroAll ps

/-- The same for the properties. -/
def zeroAll : (ps : Properties) → Vals ps
  | .nil => ()
  | .cons _ t rest => (zero t, zeroAll rest)

end

/-- Numbers and strings are compared as C++ compares them; other types are no keys. -/
def plainLess : (t : CxxType) → Val t → Val t → Bool
  | .int _, a, b => decide (a.1 < b.1)
  | .string, a, b => stringLess a b
  | _, _, _ => false

theorem strictWeak_plainLess : ∀ t, StrictWeak (plainLess t)
  | .int k =>
    { irrefl := fun a => by simp [plainLess]
      trans := fun h h' => by
        simp only [plainLess, decide_eq_true_eq] at h h' ⊢
        exact h.trans h'
      incomp_trans := fun h1 h2 h3 h4 => by
        simp only [plainLess, decide_eq_false_iff_not, not_lt] at h1 h2 h3 h4 ⊢
        exact ⟨h3.trans h1, h2.trans h4⟩ }
  | .string => inferInstanceAs (StrictWeak stringLess)
  | .enumeration _ _ _ | .sequence _ _ | .set _ _ | .map _ _ _ | .struct _ _ =>
    { irrefl := fun _ => rfl
      trans := fun h _ => by cases h
      incomp_trans := fun _ _ _ _ => ⟨rfl, rfl⟩ }

mutual

theorem sound_zero : ∀ t, Sound plainLess t (zero t)
  | .int _ => trivial
  | .string => trivial
  | .enumeration _ _ _ => trivial
  | .sequence kind t => by
    cases kind with
    | vector => exact ⟨trivial, fun x hx => by cases hx⟩
    | list => exact ⟨trivial, fun x hx => by cases hx⟩
    | array n =>
      refine ⟨List.length_replicate, fun x hx => ?_⟩
      rw [List.eq_of_mem_replicate hx]
      exact sound_zero t
  | .set _ _ => ⟨List.Pairwise.nil, fun x hx => by cases hx⟩
  | .map _ _ _ => ⟨List.Pairwise.nil, fun x hx => by cases hx⟩
  | .struct _ ps => sound_zeroAll ps

theorem sound_zeroAll : ∀ ps, SoundAll plainLess ps (zeroAll ps)
  | .nil => trivial
  | .cons _ t rest => ⟨sound_zero t, sound_zeroAll rest⟩

end

mutual

theorem unfilled_zero : ∀ t, Unfilled t (zero t)
  | .int _ | .string | .enumeration _ _ _ | .sequence _ _ => trivial
  | .set _ _ => rfl
  | .map _ _ _ => rfl
  | .struct _ ps => unfilled_zeroAll ps

theorem unfilled_zeroAll : ∀ ps, UnfilledAll ps (zeroAll ps)
  | .nil => trivial
  | .cons _ t rest => ⟨unfilled_zero t, unfilled_zeroAll rest⟩

end

/-- Classes without initialisers and without comparisons of their own. -/
def plain : Classes := ⟨zero, plainLess, strictWeak_plainLess, sound_zero⟩

theorem fresh_plain : plain.Fresh := unfilled_zero

/-- A struct with a number, a vector, a map and a struct. -/
def config : CxxType :=
  .struct (lit "Config") (.cons (lit "port") (.int .unsignedShort)
    (.cons (lit "codes") (.sequence .vector (.int .int)) (.cons (lit "limits") (.map false .string (.int .long))
      (.cons (lit "owner") (.struct (lit "Owner") (.cons (lit "name") .string .nil)) .nil))))

/-- A value of it. -/
def configValue : Val config :=
  ((IntType.cast .unsignedShort 80, [IntType.cast .int 1, IntType.cast .int (-2)],
    [(lit "a", IntType.cast .long 3), (lit "b", IntType.cast .long 4)], (lit "gts", ()), ()) :
    IntType.Value .unsignedShort × List (IntType.Value .int) × List (Bytes × IntType.Value .long) ×
      (Bytes × Unit) × Unit)

/-- A struct with a `char`, which is not written. -/
def initial : CxxType := .struct (lit "Initial") (.cons (lit "letter") (.int .char) .nil)

/-- A value of it. -/
def initialValue : Val initial := ((IntType.cast .char 103, ()) : IntType.Value .char × Unit)

/-- The first struct comes back, and the second one does not. -/
theorem struct_roundTrips_iff_config :
    RoundTrips plain config configValue ∧ ¬ RoundTrips plain initial initialValue := by
  constructor
  · refine (struct_roundTrips_iff plain config configValue ?_ ?_).1 ?_
    · simp only [config, CxxType.Registered, Properties.Registered, Properties.names]
      decide
    · refine ⟨trivial, ⟨trivial, fun _ _ => trivial⟩, ⟨?_, fun _ _ => ⟨trivial, trivial⟩⟩, ⟨trivial, trivial⟩, trivial⟩
      show Ordered.Sorted false (fun a b : Bytes × IntType.Value .long => stringLess a.1 b.1)
        [(lit "a", IntType.cast .long 3), (lit "b", IntType.cast .long 4)]
      decide
    · refine ⟨rfl, Or.inr (Or.inl ⟨rfl, by decide⟩), ⟨fun _ _ => ⟨⟨trivial, trivial⟩, trivial, rfl⟩, ?_⟩,
        ⟨Properties.noConfusion, trivial, trivial⟩, trivial⟩
      exact List.nil_subset _
  · rw [(struct_roundTrips_iff plain initial initialValue ?_ ⟨trivial, trivial⟩).2 fresh_plain]
    · rintro ⟨hletter, -⟩
      cases hletter
    · simp only [initial, CxxType.Registered, Properties.Registered, Properties.names]
      decide

/-- A struct with a vector of vectors. -/
def grid : CxxType :=
  .struct (lit "Grid") (.cons (lit "rows") (.sequence .vector (.sequence .vector (.int .int))) .nil)

/-- One row with one number. -/
def gridValue : Val grid := (([[IntType.cast .int 1]], ()) : List (List (IntType.Value .int)) × Unit)

/-- **A vector of vectors does not come back**: the inner one is assigned to a member of the array. -/
theorem not_roundTrips_grid :
    grid.Registered ∧ Sound plain.less grid gridValue ∧ fromStruct grid gridValue = .error .operatorIndex ∧
      ¬ RoundTrips plain grid gridValue := by
  have hthrow : fromStruct grid gridValue = .error .operatorIndex := rfl
  refine ⟨?_, ?_, hthrow, ?_⟩
  · simp only [grid, CxxType.Registered, Properties.Registered, Properties.names]
    decide
  · exact ⟨⟨trivial, fun _ _ => ⟨trivial, fun _ _ => trivial⟩⟩, trivial⟩
  · rintro ⟨json, hw, -⟩
    rw [hthrow] at hw
    cases hw

end Gts3.Utls
