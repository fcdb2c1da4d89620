import Gts3.IniFormat
import Gts3.Value

/-!
# `gts/settings.h`: settings and their file

`settings` keeps an ini file in memory and writes it to disk at every `flush`.  Over the text stands the abstract store:
what is current and what is committed.  In every sequence of operations on values that a line can hold, the file on disk
reads as what is committed (`settings_refine`); so the second start of a server finds what the first one has completed,
and writes nothing (`startup_again`).
-/

namespace Gts3

open Lib Lib.Cxx Ini

/-! ## Fields of a type -/

/-- Where `strtol` and `strtoul` stop. -/
def strtolRest (base : ℕ) (s : Bytes) : Bytes :=
  let (_, t) := signOf (s.dropWhile isspace)
  let t := if base = 16 then skipHexPrefix t else t
  if t.takeWhile (fun c => digitVal c < base) = [] then s else t.dropWhile (fun c => digitVal c < base)

namespace Ini

/-- `strToLong`. -/
def strToLong (m : DataModel) (value : Bytes) : Option (IntType.long.Val m) :=
  if strtolRest 10 (cStr value) = [] then some (strtol m value 10)
  else if strtolRest 8 (cStr value) = [] then some (strtol m value 8)
  else if strtolRest 16 (cStr value) = [] then some (strtol m value 16)
  else none

/-- `strToULong`. -/
def strToULong (m : DataModel) (value : Bytes) : Option (IntType.unsignedLong.Val m) :=
  if strtolRest 10 (cStr value) = [] then some (strtoul m value 10)
  else if strtolRest 8 (cStr value) = [] then some (strtoul m value 8)
  else if strtolRest 16 (cStr value) = [] then some (strtoul m value 16)
  else none

/-- The types that `Convert` reads as numbers. -/
def numberTypes : List IntType := [.short, .unsignedShort, .int, .unsignedInt, .long, .unsignedLong]

/-- `Convert<T>::decode` of a number; `none` when it throws. -/
def decodeNumber (m : DataModel) (T : IntType) (value : Bytes) : Option (T.Val m) :=
  if T.isSigned then (strToLong m value).map fun n => IntType.cast m T n.toInt
  else (strToULong m value).map fun n => IntType.cast m T n.toInt

/-- `Convert<bool>::decode`; `none` when it throws. -/
def decodeBool (value : Bytes) : Option Bool :=
  if value.map toupper = lit "TRUE" then some true
  else if value.map toupper = lit "FALSE" then some false
  else none

end Ini

/-- A value of a type that is written and read. -/
inductive Setting (m : DataModel)
  | bool (v : Bool)
  | number (T : IntType) (hT : T ∈ numberTypes) (v : T.Val m)
  | string (v : Bytes)

/-- `ini::IniField::operator=`. -/
def Setting.encode {m : DataModel} : Setting m → Bytes
  | bool v => if v then lit "true" else lit "false"
  | number _ _ v => formatInt v.toInt
  | string v => v

/-- A line can hold the value. -/
def Setting.Legal {m : DataModel} : Setting m → Prop
  | string v => FieldValue v
  | _ => True

namespace Settings

variable {m : DataModel}

/-- `read<bool>`. -/
def readBool (s : Settings) (group key : Bytes) (defaultValue : Bool) : Bool :=
  ((s.field group key).bind decodeBool).getD defaultValue

/-- `read<T>` of a number. -/
def readNumber (s : Settings) (T : IntType) (group key : Bytes) (defaultValue : T.Val m) : T.Val m :=
  ((s.field group key).bind (decodeNumber m T)).getD defaultValue

/-- `read<std::string>`. -/
def readString (s : Settings) (group key defaultValue : Bytes) : Bytes := (s.field group key).getD defaultValue

/-- `read`, of the type that the value has, gives the value, whatever the default is. -/
def Reads (s : Settings) (group key : Bytes) : Setting m → Prop
  | .bool v => ∀ defaultValue, s.readBool group key defaultValue = v
  | .number T _ v => ∀ defaultValue, s.readNumber T group key defaultValue = v
  | .string v => ∀ defaultValue, s.readString group key defaultValue = v

end Settings

/-! ### Printed numbers -/

theorem mem_formatInt {v : ℤ} {c : UInt8} (h : c ∈ formatInt v) : isWhitespace c = false ∧ c ≠ 10 := by
  have hdigit : ∀ c ∈ formatNat 10 v.natAbs, isWhitespace c = false ∧ c ≠ 10 := by
    intro c hc
    have hdec : ∀ c : UInt8, digitVal c < 10 → isWhitespace c = false ∧ c ≠ 10 := forall_byte (by decide +kernel)
    exact hdec c (digitVal_lt_of_mem_formatNat (by decide) (by decide) _ c hc)
  unfold formatInt at h
  split_ifs at h
  · rcases List.mem_cons.mp h with rfl | h
    · decide
    · exact hdigit c h
  · exact hdigit c h

/-- **A printed number** is read to its end. -/
theorem strtolRest_formatInt (v : ℤ) : strtolRest 10 (formatInt v) = [] := by
  have hdigits := digitVal_lt_of_mem_formatNat (show 1 < 10 by decide) (by decide) v.natAbs
  have hdigits' : ∀ c ∈ formatNat 10 v.natAbs, digitVal c < 16 := fun c hc => lt_trans (hdigits c hc) (by decide)
  have hne : formatNat 10 v.natAbs ≠ [] := formatNat_ne_nil v.natAbs
  have htake : (formatNat 10 v.natAbs).takeWhile (fun c => digitVal c < 10) = formatNat 10 v.natAbs :=
    List.takeWhile_eq_self_iff.mpr fun c hc => by simpa using hdigits c hc
  have hdrop : (formatNat 10 v.natAbs).dropWhile (fun c => digitVal c < 10) = [] :=
    List.dropWhile_eq_nil_iff.mpr fun c hc => by simpa using hdigits c hc
  have hsign : (signOf ((formatInt v).dropWhile isspace)).2 = formatNat 10 v.natAbs := by
    unfold formatInt
    split_ifs with h
    · rw [List.dropWhile_cons_of_neg (by decide)]
      rfl
    · have hspace := dropWhile_isspace_digits hne hdigits' []
      rw [List.append_nil] at hspace
      rw [hspace, signOf_digits hdigits']
  simp only [strtolRest, hsign, Nat.reduceEqDiff, if_false, htake, if_neg hne, hdrop]

theorem strToLong_formatInt (m : DataModel) (v : ℤ) : strToLong m (formatInt v) = some (strtol m (formatInt v) 10) := by
  rw [strToLong, cStr_formatInt, if_pos (strtolRest_formatInt v)]

theorem strToULong_formatInt (m : DataModel) (v : ℤ) :
    strToULong m (formatInt v) = some (strtoul m (formatInt v) 10) := by
  rw [strToULong, cStr_formatInt, if_pos (strtolRest_formatInt v)]

/-- **A number that was written** is read. -/
theorem decodeNumber_formatInt {m : DataModel} {T : IntType} (hT : T ∈ numberTypes) (v : T.Val m) :
    decodeNumber m T (formatInt v.toInt) = some v := by
  have hsigned (hs : T.isSigned = true) (hwide : Value.Widens m T .long) :
      decodeNumber m T (formatInt v.toInt) = some v := by
    rw [decodeNumber, if_pos hs, strToLong_formatInt, Option.map_some]
    exact congrArg some (Value.cast_strtoSigned hwide v)
  have hunsigned (hs : T.isSigned = false) (hwide : Value.Widens m T .unsignedLong) (hpos : 0 ≤ T.min m) :
      decodeNumber m T (formatInt v.toInt) = some v := by
    rw [decodeNumber, if_neg (by simp [hs]), strToULong_formatInt, Option.map_some]
    exact congrArg some (Value.cast_strtoUnsigned hwide hpos v)
  simp only [numberTypes, List.mem_cons, List.not_mem_nil, or_false] at hT
  rcases hT with rfl | rfl | rfl | rfl | rfl | rfl
  · exact hsigned rfl (by cases m <;> decide)
  · exact hunsigned rfl (by cases m <;> decide) (by cases m <;> decide)
  · exact hsigned rfl (by cases m <;> decide)
  · exact hunsigned rfl (by cases m <;> decide) (by cases m <;> decide)
  · exact hsigned rfl (by cases m <;> decide)
  · exact hunsigned rfl (by cases m <;> decide) (by cases m <;> decide)

/-- **What was written is read**, as the type it was written with. -/
theorem Settings.reads_of_field {m : DataModel} {s : Settings} {group key : Bytes} {v : Setting m}
    (h : s.field group key = some v.encode) : s.Reads group key v := by
  cases v with
  | bool v =>
    intro defaultValue
    rw [readBool, h]
    cases v <;> rfl
  | number T hT v =>
    intro defaultValue
    rw [readNumber, h, Setting.encode, Option.bind_some, decodeNumber_formatInt hT, Option.getD_some]
  | string v =>
    intro defaultValue
    rw [readString, h]
    rfl

theorem fieldValue_bool (b : Bool) : FieldValue (if b then lit "true" else lit "false") := by
  revert b
  decide +kernel

/-- **A legal value** is written as the value of a field. -/
theorem Setting.fieldValue_iff {m : DataModel} {v : Setting m} : FieldValue v.encode ↔ v.Legal := by
  refine ⟨fun h => ?_, fun h => ?_⟩
  · cases v with
    | bool v => trivial
    | number T hT v => trivial
    | string v => exact h
  cases v with
  | bool v => exact fieldValue_bool v
  | number T hT v =>
    refine ⟨⟨fun c hc => ?_, fun c hc => ?_⟩, fun hmem => (mem_formatInt hmem).2 rfl⟩
    · exact (mem_formatInt (List.mem_of_mem_head? hc)).1
    · exact (mem_formatInt (List.mem_of_mem_getLast? hc)).1
  | string v => exact h

/-! ## Operations -/

/-- `settings` and its file. -/
structure SettingsFile where
  iniMap : IniFile
  text : Bytes

/-- What is done with settings. -/
inductive SettingsOp (m : DataModel)
  | write (group key : Bytes) (value : Setting m)
  | check (order : LoopOrder m) (group : Bytes) (sample : IniHash m)
  | flush
  | reload

namespace SettingsFile

variable {m : DataModel}

/-- The settings, before anything is saved. -/
def settings (f : SettingsFile) : Settings := ⟨f.iniMap, []⟩

/-- What becomes of the file when the settings are saved as they say. -/
def saved (f : SettingsFile) (s : Settings) : SettingsFile :=
  ⟨s.iniMap, match s.saved.getLast? with
    | some file => encode file
    | none => f.text⟩

/-- `set_file` of a file with this text, and `reload`. -/
def load (text : Bytes) : Except IniError SettingsFile := (decode text).map fun file => ⟨file, text⟩

/-- One operation. -/
def exec (f : SettingsFile) : SettingsOp m → Except IniError SettingsFile
  | .write group key value => .ok (f.saved (f.settings.write group key value.encode))
  | .check order group sample => .ok (f.saved (f.settings.iniFileCheck order group sample))
  | .flush => .ok (f.saved f.settings.flush)
  | .reload => load f.text

/-- One operation after the other. -/
def run (f : SettingsFile) (ops : List (SettingsOp m)) : Except IniError SettingsFile := ops.foldlM exec f

end SettingsFile

/-! ## The abstract store -/

/-- What a process sees, and what the next one will see. -/
structure Store where
  current : IniFile
  committed : IniFile

namespace Store

variable {m : DataModel}

/-- What an operation means. -/
def step (s : Store) : SettingsOp m → Store
  | .write group key value => { s with current := (Settings.write ⟨s.current, []⟩ group key value.encode).iniMap }
  | .check order group sample =>
    let current := (Settings.iniFileCheck order ⟨s.current, []⟩ group sample).iniMap
    if Settings.checkList ⟨s.current, []⟩ group sample = [] then { s with current := current } else ⟨current, current⟩
  | .flush => { s with committed := s.current }
  | .reload => { s with current := s.committed }

end Store

/-- A line can hold what the operation writes. -/
def SettingsOp.Legal {m : DataModel} : SettingsOp m → Prop
  | write group key value => SectionName group ∧ FieldName key ∧ value.Legal
  | check _ group sample =>
    SectionName group ∧ ∀ p ∈ sample, FieldName p.1 ∧ ∀ text ∈ p.2.encode, FieldValue text
  | _ => True

/-! ## Writing keeps files well formed -/

theorem Settings.wellFormed_fieldsOf {s : Settings} (h : WellFormed s.iniMap) (group : Bytes) :
    ∀ e ∈ (s.fieldsOf group).entries, FieldName e.1 ∧ FieldValue e.2 := by
  intro e he
  unfold Settings.fieldsOf at he
  cases hf : s.iniMap.find? group with
  | none =>
    rw [hf] at he
    exact absurd he List.not_mem_nil
  | some fields =>
    rw [hf] at he
    obtain ⟨x, hx, -, rfl⟩ := OrdMap.find?_eq_some_mem hf
    exact (h x hx).2 e he

/-- **One field** is written. -/
theorem Settings.wellFormed_write {s : Settings} (h : WellFormed s.iniMap) {group key text : Bytes}
    (hgroup : SectionName group) (hkey : FieldName key) (htext : FieldValue text) :
    WellFormed (s.write group key text).iniMap := by
  have hfields : ∀ e ∈ ((s.fieldsOf group).assign key text).entries, FieldName e.1 ∧ FieldValue e.2 := by
    intro e he
    rcases OrdMap.mem_assign he with rfl | ⟨hvalue, x, hx, hname⟩ | he
    · exact ⟨hkey, htext⟩
    · exact ⟨hname ▸ (s.wellFormed_fieldsOf h group x hx).1, hvalue ▸ htext⟩
    · exact s.wellFormed_fieldsOf h group e he
  intro filePair hmem
  rcases OrdMap.mem_assign hmem with rfl | ⟨hvalue, x, hx, hname⟩ | hmem
  · exact ⟨hgroup, hfields⟩
  · exact ⟨hname ▸ (h x hx).1, hvalue ▸ hfields⟩
  · exact h filePair hmem

theorem mem_entries_of_find? {ν : Type*} {file : OrdMap Bytes ν stringLess} {key : Bytes} {v : ν}
    (h : file.find? key = some v) : (key, v) ∈ file.entries := by
  obtain ⟨e, he, hsame, rfl⟩ := OrdMap.find?_eq_some_mem h
  obtain rfl := (same_stringLess e.1 key).mp hsame
  exact he

/-- **A name or a value that a line cannot hold** makes the file one that is not read back. -/
theorem Settings.wellFormed_write_iff {s : Settings} (h : WellFormed s.iniMap) {group key text : Bytes} :
    WellFormed (s.write group key text).iniMap ↔ SectionName group ∧ FieldName key ∧ FieldValue text := by
  refine ⟨fun hwell => ?_, fun ⟨hgroup, hkey, htext⟩ => Settings.wellFormed_write h hgroup hkey htext⟩
  have hsection := hwell _ (mem_entries_of_find? (OrdMap.find?_assign_self s.iniMap group _))
  exact ⟨hsection.1, hsection.2 _ (mem_entries_of_find? (OrdMap.find?_assign_self (s.fieldsOf group) key text))⟩

theorem Settings.wellFormed_foldl {m : DataModel} {group : Bytes} (hgroup : SectionName group) {l : IniHash m}
    (hl : ∀ p ∈ l, FieldName p.1 ∧ ∀ text ∈ p.2.encode, FieldValue text) {s : Settings} (h : WellFormed s.iniMap) :
    WellFormed (l.foldl (writePair group) s).iniMap := by
  induction l generalizing s with
  | nil => exact h
  | cons p l ih =>
    refine ih (fun q hq => hl q (List.mem_cons_of_mem _ hq)) ?_
    obtain ⟨hkey, htext⟩ := hl p List.mem_cons_self
    unfold writePair
    cases hencode : p.2.encode with
    | none => exact h
    | some text => exact Settings.wellFormed_write h hgroup hkey (htext text hencode)

theorem Settings.iniMap_iniFileCheck {m : DataModel} (order : LoopOrder m) (s : Settings) (group : Bytes)
    (sample : IniHash m) :
    (s.iniFileCheck order group sample).iniMap =
      ((order.order (s.checkList group sample)).foldl (writePair group) s).iniMap := by
  rw [iniFileCheck]
  split_ifs <;> rfl

/-- **The check** writes entries of the sample. -/
theorem Settings.wellFormed_iniFileCheck {m : DataModel} (order : LoopOrder m) {s : Settings} (h : WellFormed s.iniMap)
    {group : Bytes} (hgroup : SectionName group) {sample : IniHash m}
    (hsample : ∀ p ∈ sample, FieldName p.1 ∧ ∀ text ∈ p.2.encode, FieldValue text) :
    WellFormed (s.iniFileCheck order group sample).iniMap := by
  rw [s.iniMap_iniFileCheck order]
  exact Settings.wellFormed_foldl hgroup (fun p hp => hsample p ((mem_order order s).mp hp).1) h

/-! ## Refinement -/

/-- The settings and their file stand for the store. -/
structure Represents (f : SettingsFile) (s : Store) : Prop where
  current_eq : f.iniMap = s.current
  wellFormed : WellFormed s.current
  committed_eq : decode f.text = .ok s.committed

namespace SettingsFile

variable {m : DataModel} {f : SettingsFile} {s : Store}

theorem saved_foldl (group : Bytes) (l : IniHash m) (s : Settings) :
    (l.foldl (Settings.writePair group) s).saved = s.saved := by
  induction l generalizing s with
  | nil => rfl
  | cons p l ih =>
    rw [List.foldl_cons, ih, Settings.writePair]
    split <;> rfl

/-- A check that misses nothing leaves the file alone. -/
theorem saved_check_of_nil {order : LoopOrder m} {group : Bytes} {sample : IniHash m}
    (h : f.settings.checkList group sample = []) : f.saved (f.settings.iniFileCheck order group sample) = f := by
  rw [Settings.iniFileCheck_of_nil order h]
  rfl

/-- A check that misses something writes the file. -/
theorem saved_check {order : LoopOrder m} {group : Bytes} {sample : IniHash m}
    (h : f.settings.checkList group sample ≠ []) :
    let s := f.settings.iniFileCheck order group sample
    f.saved s = ⟨s.iniMap, encode s.iniMap⟩ := by
  intro s
  have hsaved : (f.settings.iniFileCheck order group sample).saved =
      [(f.settings.iniFileCheck order group sample).iniMap] := by
    rw [Settings.iniFileCheck]
    simp only [if_pos (List.length_pos_iff.mpr h), Settings.flush, saved_foldl]
    rfl
  simp only [saved, s, hsaved]
  rfl

/-- **One operation** does what it means, and throws nothing. -/
theorem exec_spec (h : Represents f s) {op : SettingsOp m} (hop : op.Legal) :
    ∃ f', f.exec op = .ok f' ∧ Represents f' (s.step op) := by
  obtain ⟨hcurrent, hwell, hfile⟩ := h
  have hsettings : f.settings = ⟨s.current, []⟩ := by rw [settings, hcurrent]
  cases op with
  | write group key value =>
    obtain ⟨hgroup, hkey, hvalue⟩ := hop
    refine ⟨_, rfl, ?_, ?_, hfile⟩
    · rw [hsettings]
      rfl
    · exact Settings.wellFormed_write hwell hgroup hkey (Setting.fieldValue_iff.mpr hvalue)
  | check order group sample =>
    obtain ⟨hgroup, hsample⟩ := hop
    have hwell' := Settings.wellFormed_iniFileCheck order (s := ⟨s.current, []⟩) hwell hgroup hsample
    refine ⟨_, rfl, ?_⟩
    by_cases hnil : Settings.checkList ⟨s.current, []⟩ group sample = []
    · have hsame := Settings.iniFileCheck_of_nil order hnil
      rw [saved_check_of_nil (hsettings ▸ hnil), Store.step, if_pos hnil, hsame]
      exact ⟨hcurrent, hwell, hfile⟩
    · rw [saved_check (hsettings ▸ hnil), Store.step, if_neg hnil, hsettings]
      exact ⟨rfl, hwell', hwell'.decode_encode⟩
  | flush =>
    refine ⟨_, rfl, hcurrent, hwell, ?_⟩
    change decode (encode f.iniMap) = _
    rw [hcurrent]
    exact hwell.decode_encode
  | reload =>
    refine ⟨⟨s.committed, f.text⟩, ?_, rfl, wellFormed_of_decode hfile, hfile⟩
    rw [exec, load, hfile]
    rfl

/-- **Every run** does what it means. -/
theorem run_spec (h : Represents f s) {ops : List (SettingsOp m)} (hops : ∀ op ∈ ops, op.Legal) :
    ∃ f', f.run ops = .ok f' ∧ Represents f' (ops.foldl Store.step s) := by
  induction ops generalizing f s with
  | nil => exact ⟨f, rfl, h⟩
  | cons op ops ih =>
    obtain ⟨f₁, hexec, h₁⟩ := exec_spec h (hops op List.mem_cons_self)
    obtain ⟨f', hrun, h'⟩ := ih h₁ fun o ho => hops o (List.mem_cons_of_mem _ ho)
    exact ⟨f', by rw [run, foldlM_cons_ok hexec, ← run, hrun], h'⟩

theorem represents_load {text : Bytes} {file : IniFile} (h : decode text = .ok file) :
    load text = .ok ⟨file, text⟩ ∧ Represents ⟨file, text⟩ ⟨file, file⟩ := by
  refine ⟨by rw [load, h]; rfl, rfl, wellFormed_of_decode h, h⟩

theorem run_write_flush (f : SettingsFile) (group key : Bytes) (value : Setting m) :
    let s := f.settings.write group key value.encode
    f.run [.write group key value, .flush] = .ok ⟨s.iniMap, encode s.iniMap⟩ := rfl

/-- What is saved is found by the next process exactly when it was legal. -/
theorem load_write_iff (h : Represents f s) {group key : Bytes} {value : Setting m} {f' : SettingsFile}
    (hrun : f.run [.write group key value, .flush] = .ok f') :
    load f'.text = .ok f' ↔ (SettingsOp.write group key value).Legal := by
  have hwell : WellFormed f.iniMap := h.current_eq ▸ h.wellFormed
  rw [run_write_flush] at hrun
  obtain rfl := Except.ok.inj hrun
  have hlegal : WellFormed (f.settings.write group key value.encode).iniMap ↔
      (SettingsOp.write group key value).Legal := by
    rw [Settings.wellFormed_write_iff hwell, Setting.fieldValue_iff]
    rfl
  refine Iff.trans ⟨fun hload => ?_, fun hw => ?_⟩ hlegal
  · rw [load] at hload
    cases hdecode : decode (encode (f.settings.write group key value.encode).iniMap) with
    | error e =>
      rw [hdecode] at hload
      cases hload
    | ok file =>
      rw [hdecode] at hload
      obtain rfl : file = _ := congrArg SettingsFile.iniMap (Except.ok.inj hload)
      exact wellFormed_of_decode hdecode
  · rw [load, hw.decode_encode]
    rfl

/-- **Refinement**: from any text that can be read, every sequence of operations with legal names and values does what
it means on the abstract store, and throws nothing.  The file always reads as what is committed, what was written with a
type is read with it, and what is written and saved next is found by the next process exactly when it is legal. -/
theorem settings_refine {text : Bytes} {file : IniFile} (h : decode text = .ok file) {ops : List (SettingsOp m)}
    (hops : ∀ op ∈ ops, op.Legal) :
    let s := ops.foldl Store.step ⟨file, file⟩
    ∃ f f', load text = .ok f ∧ f.run ops = .ok f' ∧ f'.iniMap = s.current ∧
      load f'.text = .ok ⟨s.committed, f'.text⟩ ∧
      (∀ group key, ∀ v : Setting m, Settings.field ⟨s.committed, []⟩ group key = some v.encode →
        Settings.Reads ⟨s.committed, []⟩ group key v) ∧
      ∀ group key, ∀ v : Setting m, ∀ f'', f'.run [.write group key v, .flush] = .ok f'' →
        (load f''.text = .ok f'' ↔ (SettingsOp.write group key v).Legal) := by
  obtain ⟨hload, hrep⟩ := represents_load h
  obtain ⟨f', hrun, hrep'⟩ := run_spec hrep hops
  exact ⟨_, f', hload, hrun, hrep'.current_eq, (represents_load hrep'.committed_eq).1,
    fun _ _ _ => Settings.reads_of_field, fun _ _ _ _ => load_write_iff hrep'⟩

theorem sectionName_gts : SectionName (lit "gts") := by decide

theorem fieldName_port : FieldName (lit "port") := by decide +kernel

/-- A port is written. -/
def portOps : List (SettingsOp .lp64) :=
  [.write (lit "gts") (lit "port") (.number .int (by decide) (IntType.cast .lp64 .int 8080)), .flush]

/-- From an empty file, the port is read by the next process. -/
theorem settings_refine_port :
    ∃ f f', load (encode OrdMap.empty) = .ok f ∧ f.run portOps = .ok f' ∧
      load f'.text = .ok ⟨(portOps.foldl Store.step ⟨OrdMap.empty, OrdMap.empty⟩).committed, f'.text⟩ ∧
      Settings.Reads ⟨(portOps.foldl Store.step ⟨OrdMap.empty, OrdMap.empty⟩).committed, []⟩ (lit "gts") (lit "port")
        (.number .int (by decide) (IntType.cast .lp64 .int 8080)) := by
  have hdecode : decode (encode OrdMap.empty) = .ok OrdMap.empty :=
    WellFormed.decode_encode fun _ hno => absurd hno List.not_mem_nil
  have hlegal : ∀ op ∈ portOps, op.Legal := by
    intro op hop
    rcases List.mem_cons.mp hop with rfl | hop
    · exact ⟨sectionName_gts, fieldName_port, trivial⟩
    · obtain rfl := List.mem_singleton.mp hop
      trivial
  obtain ⟨f, f', hload, hrun, -, hcommitted, hreads, -⟩ := settings_refine hdecode hlegal
  exact ⟨f, f', hload, hrun, hcommitted, hreads _ _ _ (by decide +kernel)⟩

end SettingsFile

/-! ## Starting again -/

/-- What a server expects in one group: different keys with plain values that a line can hold. -/
structure Sample (m : DataModel) where
  group : Bytes
  entries : IniHash m
  group_ok : SectionName group
  nodup : (entries.map Prod.fst).Nodup
  plain : ∀ p ∈ entries, p.2.IsPlain
  names : ∀ p ∈ entries, FieldName p.1
  values : ∀ p ∈ entries, ∀ text ∈ p.2.encode, FieldValue text

namespace SettingsFile

variable {m : DataModel}

/-- The start of a server: the file is read, and completed from every sample. -/
def startup (order : LoopOrder m) (text : Bytes) (samples : List (Sample m)) : Except IniError SettingsFile :=
  load text >>= fun f => f.run (samples.map fun p => .check order p.group p.entries)

/-- The field of an ini file. -/
def fieldOf (file : IniFile) (group key : Bytes) : Option Bytes := Settings.field ⟨file, []⟩ group key

/-- A file that is completed from a sample. -/
def complete (order : LoopOrder m) (file : IniFile) (p : Sample m) : IniFile :=
  (Settings.iniFileCheck order ⟨file, []⟩ p.group p.entries).iniMap

/-- Nothing of the sample is missing. -/
def HasAll (file : IniFile) (p : Sample m) : Prop := ∀ q ∈ p.entries, fieldOf file p.group q.1 ≠ none

section Complete

variable (order : LoopOrder m) (file : IniFile) (p : Sample m)

theorem fieldOf_complete_other {group : Bytes} (h : group ≠ p.group) (key : Bytes) :
    fieldOf (complete order file p) group key = fieldOf file group key := by
  have hgroup : (complete order file p).find? group = file.find? group := by
    rw [complete, Settings.iniMap_iniFileCheck]
    exact Settings.find?_foldl_of_ne h _ _
  simp only [fieldOf, Settings.field, Settings.fieldsOf, hgroup]

/-- A field that is there stays, and so does a key that the sample does not have. -/
theorem fieldOf_complete_kept {key : Bytes} (h : fieldOf file p.group key ≠ none ∨ key ∉ p.entries.map Prod.fst) :
    fieldOf (complete order file p) p.group key = fieldOf file p.group key :=
  Settings.field_kept order ⟨file, []⟩ h

/-- **A key of the sample** has the value that it had, or else that of the sample. -/
theorem fieldOf_complete {q : Bytes × RttrVariant m} (hq : q ∈ p.entries) :
    fieldOf (complete order file p) p.group q.1 = (fieldOf file p.group q.1).or q.2.encode := by
  cases hfield : fieldOf file p.group q.1 with
  | some text =>
    rw [fieldOf_complete_kept order file p (Or.inl (by simp [hfield])), hfield, Option.some_or]
  | none =>
    obtain ⟨text, htext⟩ := (p.plain q hq).encode
    rw [Option.none_or, htext]
    exact Settings.field_missing order ⟨file, []⟩ p.nodup hq hfield htext

theorem fieldOf_complete_ne {group key : Bytes} (h : fieldOf file group key ≠ none) :
    fieldOf (complete order file p) group key = fieldOf file group key := by
  by_cases hgroup : group = p.group
  · subst hgroup
    exact fieldOf_complete_kept order file p (Or.inl h)
  · exact fieldOf_complete_other order file p hgroup key

theorem hasAll_complete : HasAll (complete order file p) p := by
  intro q hq
  obtain ⟨text, htext⟩ := (p.plain q hq).encode
  rw [fieldOf_complete order file p hq, htext]
  cases fieldOf file p.group q.1 <;> simp

end Complete

theorem HasAll.complete {file : IniFile} {p : Sample m} (h : HasAll file p) (order : LoopOrder m) (q : Sample m) :
    HasAll (complete order file q) p := by
  intro e he
  rw [fieldOf_complete_ne order file q (h e he)]
  exact h e he

/-- Where nothing is missing, the check has nothing to do. -/
theorem HasAll.checkList {file : IniFile} {p : Sample m} (h : HasAll file p) :
    Settings.checkList ⟨file, []⟩ p.group p.entries = [] := by
  rw [Settings.checkList_eq, List.filter_eq_nil_iff]
  intro q hq
  have hfield := h q hq
  simp only [fieldOf] at hfield
  simp [hfield]

/-- The file completed from all samples. -/
def completeAll (order : LoopOrder m) (file : IniFile) (samples : List (Sample m)) : IniFile :=
  samples.foldl (complete order) file

theorem fieldOf_completeAll_ne (order : LoopOrder m) {file : IniFile} {samples : List (Sample m)} {group key : Bytes}
    (h : fieldOf file group key ≠ none) :
    fieldOf (completeAll order file samples) group key = fieldOf file group key := by
  induction samples generalizing file with
  | nil => rfl
  | cons p samples ih =>
    have hkept := fieldOf_complete_ne order file p h
    rw [completeAll, List.foldl_cons, ← completeAll, ih (hkept ▸ h), hkept]

theorem fieldOf_completeAll_other (order : LoopOrder m) {file : IniFile} {samples : List (Sample m)} {group key : Bytes}
    (h : ∀ p ∈ samples, p.group = group → key ∉ p.entries.map Prod.fst) :
    fieldOf (completeAll order file samples) group key = fieldOf file group key := by
  induction samples generalizing file with
  | nil => rfl
  | cons p samples ih =>
    rw [completeAll, List.foldl_cons, ← completeAll, ih fun q hq => h q (List.mem_cons_of_mem _ hq)]
    by_cases hgroup : group = p.group
    · subst hgroup
      exact fieldOf_complete_kept order file p (Or.inr (h p List.mem_cons_self rfl))
    · exact fieldOf_complete_other order file p hgroup key

/-- **Every key of every sample**, of different groups. -/
theorem fieldOf_completeAll (order : LoopOrder m) {file : IniFile} {samples : List (Sample m)}
    (hgroups : (samples.map Sample.group).Nodup) {p : Sample m} (hp : p ∈ samples) {q : Bytes × RttrVariant m}
    (hq : q ∈ p.entries) :
    fieldOf (completeAll order file samples) p.group q.1 = (fieldOf file p.group q.1).or q.2.encode := by
  induction samples generalizing file with
  | nil => cases hp
  | cons p' samples ih =>
    obtain ⟨hnew, hrest⟩ := List.nodup_cons.mp hgroups
    rw [completeAll, List.foldl_cons, ← completeAll]
    rcases List.mem_cons.mp hp with rfl | hp
    · have hall := hasAll_complete order file p q hq
      rw [fieldOf_completeAll_ne order hall, fieldOf_complete order file p hq]
    · have hne : p.group ≠ p'.group := fun heq => hnew (heq ▸ List.mem_map_of_mem hp)
      rw [ih hrest hp, fieldOf_complete_other order file p' hne]

theorem hasAll_completeAll (order : LoopOrder m) {file : IniFile} {samples : List (Sample m)} {p : Sample m}
    (hp : p ∈ samples ∨ HasAll file p) : HasAll (completeAll order file samples) p := by
  induction samples generalizing file with
  | nil => exact hp.resolve_left List.not_mem_nil
  | cons p' samples ih =>
    refine ih ?_
    rcases hp with hp | hall
    · rcases List.mem_cons.mp hp with rfl | hp
      · exact Or.inr (hasAll_complete order file p)
      · exact Or.inl hp
    · exact Or.inr (hall.complete order p')

/-- Checks that find everything leave settings and file alone. -/
theorem run_checks_of_hasAll (order : LoopOrder m) (f : SettingsFile) {samples : List (Sample m)}
    (h : ∀ p ∈ samples, HasAll f.iniMap p) :
    f.run (samples.map fun p => .check order p.group p.entries) = .ok f := by
  induction samples with
  | nil => rfl
  | cons p samples ih =>
    have hstep : f.exec (.check order p.group p.entries) = .ok f :=
      congrArg Except.ok (saved_check_of_nil (h p List.mem_cons_self).checkList)
    rw [List.map_cons, run, foldlM_cons_ok hstep, ← run, ih fun q hq => h q (List.mem_cons_of_mem _ hq)]

/-- What checks mean on a store with nothing uncommitted. -/
theorem foldl_checks (order : LoopOrder m) (file : IniFile) (samples : List (Sample m)) :
    (samples.map fun p => SettingsOp.check order p.group p.entries).foldl Store.step ⟨file, file⟩ =
      ⟨completeAll order file samples, completeAll order file samples⟩ := by
  induction samples generalizing file with
  | nil => rfl
  | cons p samples ih =>
    have hstep : Store.step ⟨file, file⟩ (.check order p.group p.entries) =
        ⟨complete order file p, complete order file p⟩ := by
      simp only [Store.step]
      split_ifs with hnil
      · rw [complete, Settings.iniFileCheck_of_nil order hnil]
      · rfl
    rw [List.map_cons, List.foldl_cons, hstep, ih]
    rfl

/-- **The first start and the next ones**, from any text that can be read, with whatever order the multimaps have: every
key of the samples has the value of the text or else that of the sample, all other fields are as they were, and a file
that misses nothing is not touched.  Whatever the order is the next time, the next start sees the same settings and
leaves the file as it is, byte for byte. -/
theorem startup_again {text : Bytes} {file : IniFile} (h : decode text = .ok file) (order : LoopOrder m)
    {samples : List (Sample m)} (hgroups : (samples.map Sample.group).Nodup) :
    ∃ f, startup order text samples = .ok f ∧
      (∀ p ∈ samples, ∀ q ∈ p.entries,
        f.settings.field p.group q.1 = (fieldOf file p.group q.1).or q.2.encode) ∧
      (∀ group key, (∀ p ∈ samples, p.group = group → key ∉ p.entries.map Prod.fst) →
        f.settings.field group key = fieldOf file group key) ∧
      ((∀ p ∈ samples, HasAll file p) → f.text = text) ∧
      ∀ order', startup order' f.text samples = .ok f := by
  obtain ⟨hload, hrep⟩ := represents_load h
  have hlegal : ∀ op ∈ samples.map fun p => SettingsOp.check order p.group p.entries, op.Legal := by
    intro op hop
    obtain ⟨p, -, rfl⟩ := List.mem_map.mp hop
    exact ⟨p.group_ok, fun q hq => ⟨p.names q hq, p.values q hq⟩⟩
  obtain ⟨f, hrun, hrep'⟩ := run_spec hrep hlegal
  rw [foldl_checks] at hrep'
  have hmap : f.iniMap = completeAll order file samples := hrep'.current_eq
  have hstart : startup order text samples = .ok f := by
    rw [startup, hload]
    exact hrun
  refine ⟨f, hstart, fun p hp q hq => ?_, fun group key hnone => ?_, fun hall => ?_, fun order' => ?_⟩
  · rw [settings, hmap]
    exact fieldOf_completeAll order hgroups hp hq
  · rw [settings, hmap]
    exact fieldOf_completeAll_other order hnone
  · have hsame := run_checks_of_hasAll order ⟨file, text⟩ hall
    rw [hrun] at hsame
    rw [Except.ok.inj hsame]
  · have hagain : load f.text = .ok f := by
      rw [(represents_load hrep'.committed_eq).1]
      exact congrArg (fun file => Except.ok (SettingsFile.mk file f.text)) hmap.symm
    rw [startup, hagain]
    exact run_checks_of_hasAll order' f fun p hp => hmap ▸ hasAll_completeAll order (Or.inl hp)

/-- The port that a server listens on. -/
def portSample : Sample .lp64 where
  group := lit "gts"
  entries := [(lit "port", .int (IntType.cast .lp64 .int 8080))]
  group_ok := sectionName_gts
  nodup := by decide
  plain := by decide
  names := by decide +kernel
  values := by decide +kernel

/-- Two of the settings for the web. -/
def webSample : Sample .lp64 where
  group := lit "web"
  entries := [(lit "cgi_access", .string (lit "/cgi-bin")), (lit "max_idle_time", .int (IntType.cast .lp64 .int 65536))]
  group_ok := by decide
  nodup := by decide
  plain := by decide
  names := by decide +kernel
  values := by decide +kernel

/-- A file with one of the settings. -/
def idleFile : IniFile := OrdMap.empty.assign (lit "web") (OrdMap.empty.assign (lit "max_idle_time") (lit "60"))

/-- The file is completed once, and what it says stays. -/
theorem startup_again_port : ∃ f,
    startup (Settings.arrivalOrder .lp64) (lit "[web]\nmax_idle_time=60\n") [portSample, webSample] = .ok f ∧
      f.settings.field (lit "gts") (lit "port") = some (lit "8080") ∧
      f.settings.field (lit "web") (lit "cgi_access") = some (lit "/cgi-bin") ∧
      f.settings.field (lit "web") (lit "max_idle_time") = some (lit "60") ∧
      startup (Settings.arrivalOrder .lp64) f.text [portSample, webSample] = .ok f := by
  have hdecode : decode (lit "[web]\nmax_idle_time=60\n") = .ok idleFile := by decide +kernel
  have hgroups : ([portSample, webSample].map Sample.group).Nodup := by decide
  obtain ⟨f, hstart, hfields, -, -, hagain⟩ := startup_again hdecode (Settings.arrivalOrder .lp64) hgroups
  have hport := hfields portSample (by simp) _ List.mem_cons_self
  have haccess := hfields webSample (by simp) _ List.mem_cons_self
  have hidle := hfields webSample (by simp) _ (List.mem_cons_of_mem _ List.mem_cons_self)
  exact ⟨f, hstart, hport, haccess, hidle, hagain _⟩

end SettingsFile

end Gts3
