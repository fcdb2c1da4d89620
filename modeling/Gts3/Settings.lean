import Gts3.Lib.Integers
import Gts3.Lib.MultiMap

/-!
# `gts/settings.cpp`: completing an ini file

`ini_file_check` completes a group from a sample.  It puts the entries of the group beside those of the sample into one
multimap, erases every key that is there twice, and writes what is left: the sample entries that the group lacks
(`checkList_eq`).  So the group keeps what it has and gets the rest, in whatever order the multimap gives its pairs
(`iniFileCheck_spec`).
-/

namespace Gts3

open Lib Lib.Cxx

/-! ## Values and fields -/

/-- `rttr::variant`, by its type. -/
inductive RttrVariant (m : DataModel)
  | int (v : IntType.int.Val m)
  /-- An enumeration, with what `get_value<int>()` gives of it. -/
  | enumeration (v : IntType.int.Val m)
  | bool (v : Bool)
  | string (v : Bytes)
  /-- `const char*`. -/
  | cString (v : Bytes)
  /-- `ini::IniField`, as the check itself puts it into its multimap. -/
  | iniField (v : Bytes)
  | other

/-- `ini::IniField::operator=`, at the types that the check writes: the text of the field.  Values of other types are
not written. -/
def RttrVariant.encode {m : DataModel} : RttrVariant m → Option Bytes
  | int v | enumeration v => some (formatInt v.toInt)
  | bool v => some (if v then lit "true" else lit "false")
  | string v => some v
  | cString v => some (cStr v)
  | iniField _ | other => none

/-- The value is an `int`, an enumeration, a `bool`, a `std::string` or a `const char*`. -/
def RttrVariant.IsPlain {m : DataModel} : RttrVariant m → Prop
  | int _ | enumeration _ | bool _ | string _ | cString _ => True
  | iniField _ | other => False

instance {m : DataModel} : (v : RttrVariant m) → Decidable v.IsPlain
  | .int _ | .enumeration _ | .bool _ | .string _ | .cString _ => inferInstanceAs (Decidable True)
  | .iniField _ | .other => inferInstanceAs (Decidable False)

theorem RttrVariant.IsPlain.encode {m : DataModel} {v : RttrVariant m} (h : v.IsPlain) :
    ∃ text, v.encode = some text := by
  cases v with
  | int v => exact ⟨_, rfl⟩
  | enumeration v => exact ⟨_, rfl⟩
  | bool v => exact ⟨_, rfl⟩
  | string v => exact ⟨_, rfl⟩
  | cString v => exact ⟨_, rfl⟩
  | iniField v => exact h.elim
  | other => exact h.elim

/-- `ini::IniSection`: the texts of the fields. -/
abbrev IniSection := OrdMap Bytes Bytes stringLess

/-- `ini::IniFile`. -/
abbrev IniFile := OrdMap Bytes IniSection stringLess

/-- `settings::ini_hash`. -/
abbrev IniHash (m : DataModel) := MultiMap Bytes (RttrVariant m)

/-- `settings`: the map, and what has been saved to the file. -/
structure Settings where
  iniMap : IniFile
  saved : List IniFile

/-- The order in which a loop comes by the pairs of a multimap. -/
structure LoopOrder (m : DataModel) where
  order : IniHash m → IniHash m
  perm : ∀ l, (order l).Perm l

namespace Settings

/-- The section of a group, empty when there is none. -/
def fieldsOf (s : Settings) (group : Bytes) : IniSection := (s.iniMap.find? group).getD OrdMap.empty

/-- The field under a key of a group. -/
def field (s : Settings) (group key : Bytes) : Option Bytes := (s.fieldsOf group).find? key

/-- `write(group, key, value)`, of a value with this text. -/
def write (s : Settings) (group key text : Bytes) : Settings :=
  { s with iniMap := s.iniMap.assign group ((s.fieldsOf group).assign key text) }

/-- `flush`. -/
def flush (s : Settings) : Settings := { s with saved := s.saved ++ [s.iniMap] }

variable {m : DataModel}

/-- The sample with the fields that the group has as well. -/
def withExisting (s : Settings) (group : Bytes) (sample : IniHash m) : IniHash m :=
  match s.iniMap.find? group with
  | none => sample
  | some fields => fields.entries.foldl
      (fun tmp pair => if sample.contains pair.1 then tmp.emplace pair.1 (.iniField pair.2) else tmp) sample

/-- The loop body of `ini_file_check` that writes a pair, if its value has one of the types. -/
def writePair (group : Bytes) (s : Settings) (pair : Bytes × RttrVariant m) : Settings :=
  match pair.2.encode with
  | some text => s.write group pair.1 text
  | none => s

/-- What `ini_file_check` is going to write. -/
def checkList (s : Settings) (group : Bytes) (sample : IniHash m) : IniHash m :=
  MultiMap.eraseRepeated (sample.map Prod.fst) (s.withExisting group sample)

/-- `ini_file_check(group, sample)`. -/
def iniFileCheck (order : LoopOrder m) (s : Settings) (group : Bytes) (sample : IniHash m) : Settings :=
  let tmp := s.checkList group sample
  let s := (order.order tmp).foldl (writePair group) s
  if 0 < tmp.length then s.flush else s

/-! ## What is missing -/

/-- The entries of a section that a sample has keys for, as they are put into the multimap. -/
def shared (fields : List (Bytes × Bytes)) (sample : IniHash m) : IniHash m :=
  (fields.filter fun e => sample.contains e.1).map fun e => (e.1, .iniField e.2)

theorem withExisting_eq (s : Settings) (group : Bytes) (sample : IniHash m) :
    s.withExisting group sample = sample ++ shared (s.fieldsOf group).entries sample := by
  have hfold : ∀ (fields : List (Bytes × Bytes)) (tmp : IniHash m), fields.foldl
      (fun tmp pair => if sample.contains pair.1 then tmp.emplace pair.1 (.iniField pair.2) else tmp) tmp =
        tmp ++ shared fields sample := by
    intro fields
    induction fields with
    | nil => simp [shared]
    | cons e fields ih =>
      intro tmp
      rw [List.foldl_cons, ih]
      by_cases h : sample.contains e.1 = true
      · simp [shared, h, MultiMap.emplace]
      · simp [shared, h]
  unfold withExisting fieldsOf
  cases s.iniMap.find? group with
  | none => simp [shared, OrdMap.empty]
  | some fields => exact hfold _ _

/-- A key of the sample is shared when the group has it. -/
theorem count_shared {fields : IniSection} {sample : IniHash m} {k : Bytes} (hk : sample.contains k = true) :
    0 < (shared fields.entries sample).count k ↔ fields.find? k ≠ none := by
  rw [← MultiMap.contains_iff, MultiMap.contains_iff_mem]
  simp only [shared, List.map_map, List.mem_map, List.mem_filter, Function.comp]
  constructor
  · rintro ⟨e, ⟨he, -⟩, rfl⟩
    rw [OrdMap.find?_of_mem he (Same.refl e.1)]
    nofun
  · intro h
    obtain ⟨v, hv⟩ := Option.ne_none_iff_exists'.mp h
    obtain ⟨e, he, hsame, -⟩ := OrdMap.find?_eq_some_mem hv
    obtain rfl := (same_stringLess e.1 k).mp hsame
    exact ⟨e, ⟨he, hk⟩, rfl⟩

/-- **What is left in the multimap**: the entries of the sample under a key that the sample has once and the group has
not. -/
theorem checkList_eq (s : Settings) (group : Bytes) (sample : IniHash m) :
    s.checkList group sample = sample.filter fun p => sample.count p.1 = 1 ∧ s.field group p.1 = none := by
  have hshared : ∀ p ∈ shared (s.fieldsOf group).entries sample, sample.contains p.1 = true := by
    intro p hp
    obtain ⟨e, he, rfl⟩ := List.mem_map.mp hp
    exact (List.mem_filter.mp he).2
  have hkeys : ∀ p ∈ sample ++ shared (s.fieldsOf group).entries sample, p.1 ∈ sample.map Prod.fst := by
    intro p hp
    rcases List.mem_append.mp hp with hp | hp
    · exact List.mem_map_of_mem hp
    · exact MultiMap.contains_iff_mem.mp (hshared p hp)
  rw [checkList, withExisting_eq, MultiMap.eraseRepeated_of_forall hkeys, List.filter_append]
  refine (congrArg₂ (· ++ ·) (List.filter_congr fun p hp => ?_) (List.filter_eq_nil_iff.mpr fun p hp => ?_)).trans
    (List.append_nil _)
  · -- an entry of the sample
    have hpos := MultiMap.count_pos_of_mem hp
    have hcount : 0 < (shared (s.fieldsOf group).entries sample).count p.1 ↔ (s.fieldsOf group).find? p.1 ≠ none :=
      count_shared (MultiMap.contains_iff.mpr hpos)
    rw [decide_eq_decide, MultiMap.count_append, field]
    by_cases hnone : (s.fieldsOf group).find? p.1 = none
    · have hzero : ¬ 0 < (shared (s.fieldsOf group).entries sample).count p.1 := by simp [hcount, hnone]
      simp only [hnone, and_true]
      omega
    · have hlt := hcount.mpr hnone
      simp only [hnone, and_false, iff_false]
      omega
  · -- a field of the group has its key in the sample as well
    have hpos := MultiMap.count_pos_of_mem hp
    have hpos' := MultiMap.contains_iff.mp (hshared p hp)
    rw [decide_eq_true_eq, MultiMap.count_append]
    omega

/-! ## Writing -/

theorem find?_write_of_ne (s : Settings) {group group' : Bytes} (h : group' ≠ group) (key text : Bytes) :
    (s.write group key text).iniMap.find? group' = s.iniMap.find? group' := by
  rw [write, OrdMap.find?_assign, if_neg]
  rw [same_stringLess]
  exact h.symm

theorem field_write (s : Settings) (group key text key' : Bytes) :
    (s.write group key text).field group key' = if key = key' then some text else s.field group key' := by
  rw [field, fieldsOf, write, OrdMap.find?_assign_self, Option.getD_some, OrdMap.find?_assign, field]
  simp only [same_stringLess]

variable {group : Bytes}

theorem find?_foldl_of_ne {group' : Bytes} (h : group' ≠ group) (l : IniHash m) (s : Settings) :
    (l.foldl (writePair group) s).iniMap.find? group' = s.iniMap.find? group' := by
  induction l generalizing s with
  | nil => rfl
  | cons p l ih =>
    rw [List.foldl_cons, ih, writePair]
    split
    · exact find?_write_of_ne s h _ _
    · rfl

theorem field_foldl_of_not_mem {key : Bytes} {l : IniHash m} (h : key ∉ l.map Prod.fst) (s : Settings) :
    (l.foldl (writePair group) s).field group key = s.field group key := by
  induction l generalizing s with
  | nil => rfl
  | cons p l ih =>
    obtain ⟨hp, hl⟩ := not_or.mp (fun hmem => h (List.mem_cons.mpr hmem))
    rw [List.foldl_cons, ih hl, writePair]
    split
    · rw [field_write, if_neg (fun heq => hp heq.symm)]
    · rfl

/-- **Of distinct keys**, each gets its value. -/
theorem field_foldl_of_mem {l : IniHash m} (hnodup : (l.map Prod.fst).Nodup) {p : Bytes × RttrVariant m} (hp : p ∈ l)
    {text : Bytes} (htext : p.2.encode = some text) (s : Settings) :
    (l.foldl (writePair group) s).field group p.1 = some text := by
  induction l generalizing s with
  | nil => cases hp
  | cons q l ih =>
    obtain ⟨hq, hl⟩ := List.nodup_cons.mp hnodup
    rw [List.foldl_cons]
    rcases List.mem_cons.mp hp with rfl | hp
    · rw [field_foldl_of_not_mem hq, writePair, htext]
      simp only
      rw [field_write, if_pos rfl]
    · exact ih hl hp _

theorem field_iniFileCheck (order : LoopOrder m) (s : Settings) (sample : IniHash m) (key : Bytes) :
    (s.iniFileCheck order group sample).field group key =
      ((order.order (s.checkList group sample)).foldl (writePair group) s).field group key := by
  rw [iniFileCheck]
  split_ifs <;> rfl

theorem iniFileCheck_of_nil (order : LoopOrder m) {s : Settings} {sample : IniHash m}
    (h : s.checkList group sample = []) : s.iniFileCheck order group sample = s := by
  have hnil : order.order [] = [] := (order.perm []).eq_nil
  rw [iniFileCheck, h, hnil]
  rfl

/-! ## The check -/

variable {sample : IniHash m}

theorem nodup_order (order : LoopOrder m) (s : Settings) (hnodup : (sample.map Prod.fst).Nodup) :
    ((order.order (s.checkList group sample)).map Prod.fst).Nodup := by
  rw [((order.perm _).map Prod.fst).nodup_iff, checkList_eq]
  exact hnodup.sublist (List.filter_sublist.map Prod.fst)

theorem mem_order (order : LoopOrder m) (s : Settings) {p : Bytes × RttrVariant m} :
    p ∈ order.order (s.checkList group sample) ↔ p ∈ sample ∧ sample.count p.1 = 1 ∧ s.field group p.1 = none := by
  rw [(order.perm _).mem_iff, checkList_eq, List.mem_filter, decide_eq_true_eq]

/-- A key that is there, or that the sample does not have, is not written. -/
theorem not_mem_order (order : LoopOrder m) (s : Settings) {key : Bytes}
    (h : s.field group key ≠ none ∨ key ∉ sample.map Prod.fst) :
    key ∉ (order.order (s.checkList group sample)).map Prod.fst := by
  intro hmem
  obtain ⟨p, hp, rfl⟩ := List.mem_map.mp hmem
  obtain ⟨hsample, -, hnone⟩ := (mem_order order s).mp hp
  rcases h with h | h
  · exact h hnone
  · exact h (List.mem_map_of_mem hsample)

theorem field_missing (order : LoopOrder m) (s : Settings) (hnodup : (sample.map Prod.fst).Nodup)
    {p : Bytes × RttrVariant m} (hp : p ∈ sample) (hnone : s.field group p.1 = none) {text : Bytes}
    (htext : p.2.encode = some text) : (s.iniFileCheck order group sample).field group p.1 = some text := by
  rw [field_iniFileCheck]
  exact field_foldl_of_mem (nodup_order order s hnodup)
    ((mem_order order s).mpr ⟨hp, MultiMap.count_eq_one hnodup hp, hnone⟩) htext s

/-- A key that is there keeps its value, and so does a key that the sample does not have. -/
theorem field_kept (order : LoopOrder m) (s : Settings) {key : Bytes}
    (h : s.field group key ≠ none ∨ key ∉ sample.map Prod.fst) :
    (s.iniFileCheck order group sample).field group key = s.field group key := by
  rw [field_iniFileCheck]
  exact field_foldl_of_not_mem (not_mem_order order s h) s

/-- **`ini_file_check`** with distinct keys and plain values, for every order of the multimap: every key of the sample
is there, with the value it had before or else with that of the sample; no other key and no other group changes; and a
second call changes nothing at all. -/
theorem iniFileCheck_spec (order : LoopOrder m) (s : Settings) (group : Bytes) (sample : IniHash m)
    (hnodup : (sample.map Prod.fst).Nodup) (hplain : ∀ p ∈ sample, p.2.IsPlain) :
    let s' := s.iniFileCheck order group sample
    (∀ key ∈ sample.map Prod.fst, s'.field group key ≠ none) ∧
    (∀ key text, s.field group key = some text → s'.field group key = some text) ∧
    (∀ p ∈ sample, s.field group p.1 = none → s'.field group p.1 = p.2.encode) ∧
    (∀ key, key ∉ sample.map Prod.fst → s'.field group key = s.field group key) ∧
    (∀ group', group' ≠ group → s'.iniMap.find? group' = s.iniMap.find? group') ∧
    ∀ order', s'.iniFileCheck order' group sample = s' := by
  intro s'
  have hkept : ∀ key text, s.field group key = some text → s'.field group key = some text := by
    intro key text h
    rw [field_kept order s (Or.inl (by rw [h]; nofun)), h]
  have hmissing : ∀ p ∈ sample, s.field group p.1 = none → s'.field group p.1 = p.2.encode := by
    intro p hp hnone
    obtain ⟨text, htext⟩ := (hplain p hp).encode
    rw [field_missing order s hnodup hp hnone htext, htext]
  have hpresent : ∀ key ∈ sample.map Prod.fst, s'.field group key ≠ none := by
    intro key hkey
    obtain ⟨p, hp, rfl⟩ := List.mem_map.mp hkey
    cases hfield : s.field group p.1 with
    | some text =>
      rw [hkept _ _ hfield]
      nofun
    | none =>
      obtain ⟨text, htext⟩ := (hplain p hp).encode
      rw [hmissing p hp hfield, htext]
      nofun
  refine ⟨hpresent, hkept, hmissing, fun key hkey => field_kept order s (Or.inr hkey), fun group' hgroup => ?_,
    fun order' => ?_⟩
  · show (s.iniFileCheck order group sample).iniMap.find? group' = _
    rw [iniFileCheck]
    split_ifs
    · exact find?_foldl_of_ne hgroup _ s
    · exact find?_foldl_of_ne hgroup _ s
  · refine iniFileCheck_of_nil order' ?_
    rw [checkList_eq, List.filter_eq_nil_iff]
    rintro p hp
    have hne := hpresent p.1 (List.mem_map_of_mem hp)
    simp [hne]

/-- A group with one of two keys. -/
def logSettings : Settings :=
  ⟨OrdMap.empty.assign (lit "gtslog") (OrdMap.empty.assign (lit "dir") (lit "/var/log")), []⟩

/-- Both keys. -/
def logSample : IniHash .lp64 :=
  [(lit "dir", .string []), (lit "level", .int (IntType.cast .lp64 .int 4))]

/-- A multimap that gives its pairs as they have come. -/
def arrivalOrder (m : DataModel) : LoopOrder m := ⟨id, fun l => .refl l⟩

/-- The level is added, the directory stays. -/
theorem iniFileCheck_spec_log :
    let s' := logSettings.iniFileCheck (arrivalOrder .lp64) (lit "gtslog") logSample
    s'.field (lit "gtslog") (lit "level") = some (lit "4") ∧
      s'.field (lit "gtslog") (lit "dir") = some (lit "/var/log") ∧
      s'.iniFileCheck (arrivalOrder .lp64) (lit "gtslog") logSample = s' := by
  have hplain : ∀ p ∈ logSample, p.2.IsPlain := by simp [logSample, RttrVariant.IsPlain]
  obtain ⟨-, hkept, hmissing, -, -, hagain⟩ :=
    iniFileCheck_spec (arrivalOrder .lp64) logSettings (lit "gtslog") logSample (by decide) hplain
  refine ⟨?_, hkept _ _ (by decide), hagain _⟩
  exact hmissing (lit "level", .int (IntType.cast .lp64 .int 4)) (by simp [logSample]) (by decide)

end Settings

end Gts3
