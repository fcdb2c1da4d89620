import Gts3.Utls.JsonMembers

/-!
# `gts/utls/json.cpp`: values that come back

`Fits` says of a value and of what the object holds before that the value comes back: numbers of the types that are
written, strings, sequences of these, sets and maps of these and of structs, and structs of all that.  The proof is an
induction on the type, with a property and all the properties of a struct in turn (`fits_property`, `fits_all`).
-/

namespace Gts3.Utls

open Lib Lib.Cxx

/-! ## The values that come back -/

/-- `std::array` and arrays. -/
def SeqKind.Fixed : SeqKind → Prop
  | array _ => True
  | vector | list => False

/-- The types that `extract_value` can give a value of. -/
def CxxType.Single : CxxType → Prop
  | .int _ | .string | .enumeration _ _ _ | .struct _ _ => True
  | .sequence _ _ | .set _ _ | .map _ _ _ => False

/-- What the default object holds already is among what is read. -/
def Merges {α : Type} (multi : Bool) (d l : List α) : Prop := if multi then d = [] else d ⊆ l

mutual

/-- **The value comes back** when it is read into an object that holds `d`. -/
def Fits (C : Classes) : (t : CxxType) → (d v : Val t) → Prop
  | .int k, _, _ => k.written = true
  | .string, _, _ => True
  | .enumeration _ _ _, _, _ => False
  | .sequence kind t, d, items =>
    List.length (show List (Val t) from items) = 0 ∨ t.Kept kind ∨ (kind.Fixed ∧ t.Silent ∧ items = d)
  | .set multi t, d, keys => Each (fun x : Val t => t.Single ∧ Fits C t (C.create t) x) keys ∧ Merges multi d keys
  | .map multi k t, d, entries =>
    Each (fun e : Val k × Val t => (k.Single ∧ Fits C k (C.create k) e.1) ∧ t.Single ∧ Fits C t (C.create t) e.2)
      entries ∧ Merges multi d entries
  | .struct _ ps, d, v => ps ≠ .nil ∧ FitsAll C ps d v

/-- The same for the properties. -/
def FitsAll (C : Classes) : (ps : Properties) → (d v : Vals ps) → Prop
  | .nil, _, _ => True
  | .cons _ t rest, d, v => Fits C t d.1 v.1 ∧ FitsAll C rest d.2 v.2

end

theorem setBasic_of_extract {t : CxxType} {v : Val t} {e : Njson} (old : Val t)
    (h : extractBasicTypes t e = .ok (some v)) : setBasic t old e = .ok v := by
  rw [setBasic, h]
  rfl

theorem foldl_emplace_merges {α : Type} {multi : Bool} {lt : α → α → Bool} [StrictWeak lt] {d l : List α}
    (hd : Ordered.Sorted multi lt d) (hl : Ordered.Sorted multi lt l) (h : Merges multi d l) :
    l.foldl (fun acc x => Ordered.emplace multi lt x acc) d = l := by
  cases multi with
  | true =>
    obtain rfl : d = [] := h
    exact Ordered.foldl_emplace_nil hl
  | false => exact Ordered.foldl_emplace_of_subset hl hd h

/-- Elements that are written by value are read again. -/
theorem item_kept (C : Classes) {t : CxxType} {kind : SeqKind} (ht : t.Kept kind) (name : Bytes) (v : Val t) :
    ∃ e, (∀ js, writeItem t kind name (.array js) v = .ok (.array (js ++ [e]))) ∧
      ∀ old, readItem C t old e = .ok v := by
  cases t with
  | int k =>
    obtain ⟨hk, hvec⟩ := ht
    refine ⟨k.toJson v, fun js => ?_, fun old => ?_⟩
    · exact (if_neg hvec).trans (if_pos hk)
    · have hplain : readPlain (.int k) old (k.toJson v) = setBasic (.int k) old (k.toJson v) := by
        cases k <;> rfl
      exact hplain.trans (setBasic_of_extract _ (extractBasicTypes_toJson hk v))
  | string => exact ⟨.string v, fun js => rfl, fun old => rfl⟩
  | enumeration _ _ _ => cases ht
  | sequence _ _ => cases ht
  | set _ _ => cases ht
  | map _ _ _ => cases ht
  | struct _ _ => cases ht

theorem items_kept (C : Classes) {t : CxxType} {kind : SeqKind} (ht : t.Kept kind) (name : Bytes) :
    ∀ items : List (Val t), ∃ es, es.length = items.length ∧
      (∀ js, items.foldlM (writeItem t kind name) (.array js) = .ok (.array (js ++ es))) ∧
      ∀ olds : List (Val t), olds.length = items.length → readItems (readItem C t) olds es = .ok items
  | [] => by
    refine ⟨[], rfl, fun js => by simp, fun olds h => ?_⟩
    rw [List.length_eq_zero_iff.mp h]
    rfl
  | x :: items => by
    obtain ⟨e, hw, hr⟩ := item_kept C ht name x
    obtain ⟨es, hlen, hws, hrs⟩ := items_kept C ht name items
    refine ⟨e :: es, by rw [List.length_cons, List.length_cons, hlen], fun js => ?_, fun olds h => ?_⟩
    · rw [List.foldlM_cons, hw, result_ok_bind, hws, List.append_assoc]
      rfl
    · cases olds with
      | nil => cases h
      | cons old olds =>
        rw [readItems, hr, result_ok_bind, hrs olds (Nat.succ.inj h)]
        rfl

theorem foldlM_silent {t : CxxType} (ht : t.Silent) (kind : SeqKind) (name : Bytes) (js : List Njson) :
    ∀ items : List (Val t), items.foldlM (writeItem t kind name) (.array js) = .ok (.array js)
  | [] => rfl
  | x :: items => by
    rw [List.foldlM_cons, writeItem_silent ht, result_ok_bind, foldlM_silent ht kind name js items]

theorem length_setSize {α : Type} {kind : SeqKind} {d items : List α} (fill : α) (hd : kind.Admits d)
    (hitems : kind.Admits items) : (kind.setSize fill items.length d).length = items.length := by
  cases kind with
  | vector => simp [SeqKind.setSize]; omega
  | list => simp [SeqKind.setSize]; omega
  | array n =>
    have h1 : d.length = n := hd
    have h2 : items.length = n := hitems
    exact h1.trans h2.symm

/-- **A sequence that fits** comes back. -/
theorem sequence_fits (C : Classes) (kind : SeqKind) (t : CxxType) (d items : List (Val t)) (hd : kind.Admits d)
    (hitems : kind.Admits items) (name : Bytes)
    (h : items.length = 0 ∨ t.Kept kind ∨ (kind.Fixed ∧ t.Silent ∧ items = d)) :
    ∃ es, items.foldlM (writeItem t kind name) (.array []) = .ok (.array es) ∧
      readItems (readItem C t) (kind.setSize (C.create t) es.length d) es = .ok items := by
  rcases h with h0 | hkept | ⟨hfixed, hsilent, rfl⟩
  · obtain rfl := List.length_eq_zero_iff.mp h0
    refine ⟨[], rfl, ?_⟩
    have hlen := length_setSize (C.create t) hd hitems
    have hnil : kind.setSize (C.create t) 0 d = [] := List.length_eq_zero_iff.mp (by simpa using hlen)
    show readItems _ (kind.setSize (C.create t) 0 d) [] = _
    rw [hnil]
    rfl
  · obtain ⟨es, hlen, hw, hr⟩ := items_kept C hkept name items
    refine ⟨es, hw [], hr _ ?_⟩
    rw [hlen]
    exact length_setSize (C.create t) hd hitems
  · refine ⟨[], foldlM_silent hsilent kind name [] items, ?_⟩
    cases kind with
    | vector => cases hfixed
    | list => cases hfixed
    | array n => cases items <;> rfl

theorem content_struct {className property : Bytes} {t : CxxType} {rest : Properties} {name : Bytes}
    (hps : (Properties.cons property t rest).Registered) (v : Val (.struct className (.cons property t rest))) :
    content (.struct className (.cons property t rest)) name v = do
      let l ← contents (.cons property t rest) v
      return some (.object l) := by
  show some <$> toJsonRecursively (.cons property t rest) v (.object []) = _
  rw [toJsonRecursively_object _ v [] hps fun _ _ => rfl]
  cases contents (.cons property t rest) v <;> rfl

/-- A key or a value that fits comes back by itself, also from an array. -/
theorem single_fits (C : Classes) {name : Bytes} {e : Njson} :
    ∀ (t : CxxType) (x : Val t), t.Registered → t.Single → Fits C t (C.create t) x →
      content t name x = .ok (some e) → readProperty C t (C.create t) e = .ok x →
      (∀ js, writeVariant t [] (.array js) x = .ok (.array (js ++ [e]))) ∧ extractValue C t e = .ok (some x)
  | .int k, x, _, _, hfit, hc, _ => by
    have hk : k.written = true := hfit
    have he : (if k.written then some (k.toJson x) else none) = some e := Except.ok.inj hc
    rw [if_pos hk] at he
    obtain rfl := Option.some.inj he
    exact ⟨fun js => if_pos hk, extractBasicTypes_toJson hk x⟩
  | .string, x, _, _, _, hc, _ => by
    cases hc
    exact ⟨fun js => rfl, rfl⟩
  | .enumeration _ _ _, _, _, _, hfit, _, _ => by cases hfit
  | .sequence _ _, _, _, hs, _, _, _ => by cases hs
  | .set _ _, _, _, hs, _, _, _ => by cases hs
  | .map _ _ _, _, _, hs, _, _, _ => by cases hs
  | .struct _ .nil, _, _, _, hfit, _, _ => absurd rfl hfit.1
  | .struct className (.cons property t rest), x, hps, _, _, hc, hr => by
    have hobj := toJsonRecursively_object (.cons property t rest) x [] hps fun _ _ => rfl
    rw [content_struct hps] at hc
    obtain ⟨l, hl, hc⟩ := bind_eq_ok.mp hc
    cases hc
    rw [hl] at hobj
    refine ⟨fun js => ?_, ?_⟩
    · show (toJsonRecursively (.cons property t rest) x (.object []) >>= _) = _
      rw [hobj]
      rfl
    · change fromJsonRecursively C (.cons property t rest) (C.create (.struct className (.cons property t rest)))
        (.object l) = .ok x at hr
      show (fromJsonRecursively C (.cons property t rest) (C.create (.struct className (.cons property t rest)))
        (.object l) >>= fun v => pure (some v)) = _
      rw [hr]
      rfl

/-- Both parts of an entry of a map, under their names. -/
theorem writeEntry_eq {k t : CxxType} {x : Val k × Val t} {js : List Njson} :
    writeEntry k t (.array js) x = do
      let o ← content k (lit "key") x.1
      let o' ← content t (lit "value") x.2
      return .array (js ++ [.object (addMember (lit "value") o' (addMember (lit "key") o []))]) := by
  have hkey : lit "key" ≠ [] := by decide
  have hvalue : lit "value" ≠ [] := by decide
  rw [writeEntry, writeVariant_object hkey [] k x.1]
  cases content k (lit "key") x.1 with
  | error e => rfl
  | ok o =>
    simp only [result_ok_bind, result_pure]
    rw [writeVariant_object hvalue _ t x.2]
    cases content t (lit "value") x.2 <;> rfl

mutual

/-- **Enough, for a property.** -/
theorem fits_property (C : Classes) :
    ∀ (t : CxxType) (d v : Val t), t.Registered → Sound C.less t d → Sound C.less t v → Fits C t d v →
      ∀ name, ∃ e, content t name v = .ok (some e) ∧ readProperty C t d e = .ok v
  | .int k, d, v, _, _, _, hfit, name => by
    have hk : k.written = true := hfit
    refine ⟨k.toJson v, congrArg Except.ok (if_pos hk), ?_⟩
    have hplain : readProperty C (.int k) d (k.toJson v) = setBasic (.int k) d (k.toJson v) := by
      cases k <;> rfl
    exact hplain.trans (setBasic_of_extract _ (extractBasicTypes_toJson hk v))
  | .string, d, v, _, _, _, _, _ => ⟨.string v, rfl, rfl⟩
  | .enumeration _ _ _, _, _, _, _, _, hfit, _ => by cases hfit
  | .sequence kind t, d, v, _, hd, hv, hfit, name => by
    obtain ⟨es, hw, hr⟩ := sequence_fits C kind t d v hd.1 hv.1 name hfit
    refine ⟨.array es, ?_, hr⟩
    show some <$> List.foldlM (writeItem t kind name) (.array []) v = _
    rw [hw]
    rfl
  | .set multi t, d, keys, ht, hd, hv, hfit, _ => by
    obtain ⟨hkeys, hmerge⟩ := hfit
    have := C.strictWeak t
    have hloop := fold_keep (writeVariant t []) (readKey (extractValue C t) (Ordered.emplace multi (C.less t)))
      (fun acc x => Ordered.emplace multi (C.less t) x acc) keys
    obtain ⟨es, hw, hr⟩ := hloop fun x hx => by
      obtain ⟨hsingle, hxfit⟩ := hkeys x hx
      obtain ⟨e, hc, hrd⟩ := fits_property C t (C.create t) x ht (C.sound t) (hv.2 x hx) hxfit []
      obtain ⟨hwx, hex⟩ := single_fits C t x ht hsingle hxfit hc hrd
      exact ⟨e, hwx, fun acc => by rw [readKey, hex]; rfl⟩
    refine ⟨.array es, ?_, ?_⟩
    · show some <$> List.foldlM (writeVariant t []) (.array []) keys = _
      rw [hw]
      rfl
    · exact (hr d).trans (congrArg Except.ok (foldl_emplace_merges hd.1 hv.1 hmerge))
  | .map multi k t, d, entries, ht, hd, hv, hfit, _ => by
    obtain ⟨hentries, hmerge⟩ := hfit
    have := C.strictWeak k
    have := Ordered.strictWeak_comap (C.less k) (Prod.fst : Val k × Val t → Val k)
    have hloop := fold_keep (writeEntry k t)
      (readEntry (extractValue C k) (extractValue C t) (Ordered.emplace multi fun a b => C.less k a.1 b.1))
      (fun acc x => Ordered.emplace multi (fun a b => C.less k a.1 b.1) x acc) entries
    obtain ⟨es, hw, hr⟩ := hloop fun x hx => by
      obtain ⟨⟨hk, hkfit⟩, hsingle, htfit⟩ := hentries x hx
      obtain ⟨hksound, htsound⟩ := hv.2 x hx
      obtain ⟨e, hc, hrd⟩ := fits_property C k (C.create k) x.1 ht.1 (C.sound k) hksound hkfit (lit "key")
      obtain ⟨e', hc', hrd'⟩ := fits_property C t (C.create t) x.2 ht.2 (C.sound t) htsound htfit (lit "value")
      have hex := (single_fits C k x.1 ht.1 hk hkfit hc hrd).2
      have hex' := (single_fits C t x.2 ht.2 hsingle htfit hc' hrd').2
      refine ⟨.object [(lit "key", e), (lit "value", e')], fun js => ?_, fun acc => ?_⟩
      · rw [writeEntry_eq, hc, hc']
        rfl
      · have hkey : (Njson.object [(lit "key", e), (lit "value", e')]).member (lit "key") = .ok e := rfl
        have hvalue : (Njson.object [(lit "key", e), (lit "value", e')]).member (lit "value") = .ok e' := rfl
        rw [readEntry, hkey, hvalue, result_ok_bind, result_ok_bind, hex, hex']
        rfl
    refine ⟨.array es, ?_, ?_⟩
    · show some <$> List.foldlM (writeEntry k t) (.array []) entries = _
      rw [hw]
      rfl
    · exact (hr d).trans (congrArg Except.ok (foldl_emplace_merges hd.1 hv.1 hmerge))
  | .struct className ps, d, v, hps, hd, hv, hfit, _ => by
    obtain ⟨hne, hall⟩ := hfit
    obtain ⟨l, hl, hr⟩ := fits_all C ps d v hps hd hv hall
    refine ⟨.object l, ?_, hr⟩
    cases ps with
    | nil => exact absurd rfl hne
    | cons property t rest =>
      rw [content_struct hps, hl]
      rfl

/-- **Enough, for a struct.** -/
theorem fits_all (C : Classes) :
    ∀ (ps : Properties) (d v : Vals ps), ps.Registered → SoundAll C.less ps d → SoundAll C.less ps v →
      FitsAll C ps d v → ∃ l, contents ps v = .ok l ∧ fromJsonRecursively C ps d (.object l) = .ok v
  | .nil, _, _, _, _, _, _ => ⟨[], rfl, rfl⟩
  | .cons name t rest, d, v, hps, hd, hv, hfit => by
    obtain ⟨-, hnew, ht, hrest⟩ := hps
    obtain ⟨e, hc, hr⟩ := fits_property C t d.1 v.1 ht hd.1 hv.1 hfit.1 name
    obtain ⟨l, hl, hrs⟩ := fits_all C rest d.2 v.2 hrest hd.2 hv.2 hfit.2
    refine ⟨(name, e) :: l, ?_, ?_⟩
    · rw [contents, hc, result_ok_bind, hl]
      rfl
    · rw [fromJsonRecursively_cons C hnew, hr, result_ok_bind, hrs]
      rfl

end

end Gts3.Utls
