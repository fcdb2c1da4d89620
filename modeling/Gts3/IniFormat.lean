import Gts3.Lib.Trim
import Gts3.Algorithm
import Gts3.Settings

/-!
# `3rd_party/inifile/inicpp.h`: ini files as text

`encode` writes every section and field on a line of its own and escapes the characters that begin comments.  `decode`
reads a text line by line.  What it gives for any text is well formed, and the well formed files are those that a text
keeps: writing and reading one gives it back (`decode_encode_iff`).
-/

namespace Gts3.Ini

open Lib Lib.Cxx Lib.Search Lib.Trim

/-! ## Characters -/

/-- `fieldSep_`. -/
def fieldSep : UInt8 := 61

/-- `esc_`. -/
def esc : UInt8 := 92

/-- `commentPrefixes_`, of one character each. -/
def commentPrefixes : List UInt8 := [35, 59]

/-- `whitespaces()`. -/
def isWhitespace (c : UInt8) : Bool := c ∈ ([32, 9, 10, 13, 12, 11] : Bytes)

/-- `trim`. -/
def trim (str : Bytes) : Bytes := Trim.trim isWhitespace str

/-- `eraseComment`: the rest of the line behind an escaped prefix is searched again, without the escape character. -/
def eraseComment (commentPrefix : UInt8) (str : Bytes) (startpos : ℕ) : Bytes :=
  match findFrom [commentPrefix] str startpos with
  | none => str
  | some prefixpos =>
    if 0 ≠ prefixpos ∧ str[prefixpos - 1]? = some esc then
      eraseComment commentPrefix (str.eraseIdx (prefixpos - 1)) (prefixpos - 1 + 1)
    else str.take prefixpos
termination_by str.length
decreasing_by
  rename_i h
  obtain ⟨hlt, -⟩ := List.getElem?_eq_some_iff.mp h.2
  rw [List.length_eraseIdx_of_lt hlt]
  omega

/-- `eraseComments`. -/
def eraseComments (str : Bytes) : Bytes :=
  commentPrefixes.foldl (fun str commentPrefix => eraseComment commentPrefix str 0) str

/-- `writeEscaped`. -/
def writeEscaped (str : Bytes) : Bytes := str.flatMap fun c => if c ∈ commentPrefixes then [esc, c] else [c]

/-! ## `encode` -/

/-- The text of one section. -/
def encodeSection (filePair : Bytes × IniSection) : Bytes :=
  91 :: (writeEscaped filePair.1 ++ [93, 10]) ++
    filePair.2.entries.flatMap fun secPair => writeEscaped secPair.1 ++ fieldSep :: (writeEscaped secPair.2 ++ [10])

/-- `IniFile::encode`. -/
def encode (file : IniFile) : Bytes := file.entries.flatMap encodeSection

/-! ## `decode` -/

/-- What `decode` throws, with the number of the line. -/
inductive IniError
  | notClosed (lineNo : ℕ)
  | emptyName (lineNo : ℕ)
  | noSection (lineNo : ℕ)
  | noSeparator (lineNo : ℕ)
  deriving DecidableEq, Repr

/-- The text of the exception. -/
def IniError.what : IniError → Bytes
  | notClosed lineNo => lit "l." ++ formatNat 10 lineNo ++ lit ": ini parsing failed, section not closed"
  | emptyName lineNo => lit "l." ++ formatNat 10 lineNo ++ lit ": ini parsing failed, section is empty"
  | noSection lineNo => lit "l." ++ formatNat 10 lineNo ++ lit ": ini parsing failed, field has no section"
  | noSeparator lineNo => lit "l." ++ formatNat 10 lineNo ++ lit ": ini parsing failed, no '=' found"

/-- Where `decode` is: what it has read, the name of the section that `currentSection` points to, the lines so far. -/
structure Decoding where
  file : IniFile
  currentSection : Option Bytes
  lineNo : ℕ

/-- A line that begins with a bracket. -/
def Decoding.sectionLine (d : Decoding) (line : Bytes) : Except IniError Decoding :=
  match find [93] line with
  | none => .error (.notClosed d.lineNo)
  | some pos =>
    if pos = 1 then .error (.emptyName d.lineNo)
    else
      let secName := (line.drop 1).take (pos - 1)
      .ok { d with file := d.file.emplace secName OrdMap.empty, currentSection := some secName }

/-- A line that defines a field. -/
def Decoding.fieldLine (d : Decoding) (line : Bytes) : Except IniError Decoding :=
  match d.currentSection with
  | none => .error (.noSection d.lineNo)
  | some secName =>
    match find [fieldSep] line with
    | none => .error (.noSeparator d.lineNo)
    | some pos =>
      let fields := (d.file.find? secName).getD OrdMap.empty
      .ok { d with file := d.file.assign secName (fields.assign (trim (line.take pos)) (trim (line.drop (pos + 1)))) }

/-- The loop body of `decode`. -/
def Decoding.line (d : Decoding) (line : Bytes) : Except IniError Decoding :=
  let line := trim (eraseComments line)
  let d := { d with lineNo := d.lineNo + 1 }
  if line = [] then .ok d
  else if line.head? = some 91 then d.sectionLine line
  else d.fieldLine line

/-- `IniFile::decode`, of a text that `getline` splits. -/
def decode (text : Bytes) : Except IniError IniFile :=
  ((text.splitOn 10).foldlM Decoding.line ⟨OrdMap.empty, none, 0⟩).map Decoding.file

/-! ## Well formed files -/

/-- A name between brackets. -/
def SectionName (name : Bytes) : Prop := name ≠ [] ∧ 93 ∉ name ∧ 10 ∉ name

instance (name : Bytes) : Decidable (SectionName name) := inferInstanceAs (Decidable (_ ∧ _))

/-- A name before the separator. -/
def FieldName (name : Bytes) : Prop :=
  Trimmed isWhitespace name ∧ fieldSep ∉ name ∧ 10 ∉ name ∧ name.head? ≠ some 91

instance (name : Bytes) : Decidable (FieldName name) := inferInstanceAs (Decidable (_ ∧ _))

/-- A value behind the separator. -/
def FieldValue (value : Bytes) : Prop := Trimmed isWhitespace value ∧ 10 ∉ value

instance (value : Bytes) : Decidable (FieldValue value) := inferInstanceAs (Decidable (_ ∧ _))

/-- A section with its fields that a text can hold. -/
def SectionOk (filePair : Bytes × IniSection) : Prop :=
  SectionName filePair.1 ∧ ∀ secPair ∈ filePair.2.entries, FieldName secPair.1 ∧ FieldValue secPair.2

/-- **The file can be written**: names and values are such as a line can hold. -/
def WellFormed (file : IniFile) : Prop := ∀ filePair ∈ file.entries, SectionOk filePair

/-! ## Escaping -/

/-- The escaped text of some of the comment characters. -/
def escaped (chars : List UInt8) (str : Bytes) : Bytes := str.flatMap fun c => if c ∈ chars then [esc, c] else [c]

theorem writeEscaped_eq (str : Bytes) : writeEscaped str = escaped commentPrefixes str := rfl

theorem escaped_append (chars : List UInt8) (s t : Bytes) :
    escaped chars (s ++ t) = escaped chars s ++ escaped chars t := List.flatMap_append

theorem escaped_cons (chars : List UInt8) (c : UInt8) (s : Bytes) :
    escaped chars (c :: s) = (if c ∈ chars then [esc, c] else [c]) ++ escaped chars s := List.flatMap_cons

theorem escaped_nil (s : Bytes) : escaped [] s = s := by simp [escaped]

/-- Characters that the text does not hold need not be escaped. -/
theorem escaped_congr {chars chars' : List UInt8} {s : Bytes} (h : ∀ c ∈ s, c ∈ chars ↔ c ∈ chars') :
    escaped chars s = escaped chars' s := by
  induction s with
  | nil => rfl
  | cons c s ih =>
    rw [escaped_cons, escaped_cons, ih fun d hd => h d (List.mem_cons_of_mem _ hd)]
    simp only [h c List.mem_cons_self]

theorem mem_escaped {chars : List UInt8} {c : UInt8} (hc : c ≠ esc) {str : Bytes} :
    c ∈ escaped chars str ↔ c ∈ str := by
  induction str with
  | nil => rfl
  | cons d str ih =>
    rw [escaped_cons, List.mem_append, ih, List.mem_cons]
    refine or_congr_left ?_
    split_ifs <;> simp [hc]

/-- **One comment character** of an escaped text loses its escape characters, and nothing is taken for a comment. -/
theorem eraseComment_escaped {p : UInt8} (hp : p ≠ esc) {chars : List UInt8} (hmem : p ∈ chars) (pre s : Bytes) :
    eraseComment p (pre ++ escaped chars s) pre.length = pre ++ escaped (chars.filter (· ≠ p)) s := by
  induction hn : s.length using Nat.strong_induction_on generalizing pre s with
  | _ n ih =>
    by_cases h : p ∈ s
    · obtain ⟨a, b, rfl, ha⟩ := List.eq_append_cons_of_mem h
      have hfirst : p ∉ escaped chars a ++ [esc] := by
        simp [mem_escaped hp, ha, hp]
      have htext : pre ++ escaped chars (a ++ p :: b) =
          pre ++ ((escaped chars a ++ [esc]) ++ p :: escaped chars b) := by
        simp [escaped_append, escaped_cons, hmem]
      have hfind : findFrom [p] (pre ++ escaped chars (a ++ p :: b)) pre.length =
          some (pre.length + ((escaped chars a).length + 1)) := by
        rw [htext, findFrom_append, find_singleton_append hfirst, Option.map_some, List.length_append,
          List.length_singleton]
      have hgroup : pre ++ ((escaped chars a ++ [esc]) ++ p :: escaped chars b) =
          (pre ++ escaped chars a) ++ esc :: p :: escaped chars b := by simp
      have hesc : (pre ++ escaped chars (a ++ p :: b))[pre.length + (escaped chars a).length]? = some esc := by
        rw [htext, hgroup, ← List.length_append, List.getElem?_append_right (le_refl _), Nat.sub_self]
        rfl
      have herase : (pre ++ escaped chars (a ++ p :: b)).eraseIdx (pre.length + (escaped chars a).length) =
          (pre ++ escaped chars a ++ [p]) ++ escaped chars b := by
        rw [htext, hgroup, ← List.length_append, List.eraseIdx_append_of_length_le (le_refl _), Nat.sub_self]
        simp
      have hsame : escaped chars a = escaped (chars.filter (· ≠ p)) a :=
        escaped_congr fun c hc => by
          have hne : c ≠ p := fun hcp => ha (hcp ▸ hc)
          simp [hne]
      -- behind the character, the search goes on
      have hrest := ih b.length (by simp at hn; omega) (pre ++ escaped chars a ++ [p]) b rfl
      rw [eraseComment, hfind]
      simp only [show pre.length + ((escaped chars a).length + 1) - 1 = pre.length + (escaped chars a).length by omega,
        hesc, herase]
      rw [if_pos ⟨by omega, trivial⟩]
      rw [List.length_append, List.length_append, List.length_singleton] at hrest
      rw [hrest, escaped_append, escaped_cons, if_neg (by simp), ← hsame]
      simp
    · have hnone : findFrom [p] (pre ++ escaped chars s) pre.length = none := by
        rw [findFrom_append, find_singleton_eq_none.mpr (by rwa [mem_escaped hp]), Option.map_none]
      rw [eraseComment, hnone]
      refine congrArg (pre ++ ·) (escaped_congr fun c hc => ?_)
      have hne : c ≠ p := fun hcp => h (hcp ▸ hc)
      simp [hne]

/-- **Reading what was escaped.** -/
theorem eraseComments_writeEscaped (s : Bytes) : eraseComments (writeEscaped s) = s := by
  have hhash : eraseComment 35 (escaped commentPrefixes s) 0 = escaped [59] s :=
    eraseComment_escaped (by decide) (by decide) [] s
  have hsemi : eraseComment 59 (escaped [59] s) 0 = escaped [] s :=
    eraseComment_escaped (by decide) (List.mem_singleton_self 59) [] s
  rw [eraseComments, commentPrefixes, List.foldl_cons, List.foldl_cons, List.foldl_nil, writeEscaped_eq, hhash, hsemi,
    escaped_nil]

theorem writeEscaped_append (s t : Bytes) : writeEscaped (s ++ t) = writeEscaped s ++ writeEscaped t :=
  escaped_append commentPrefixes s t

theorem newline_mem_writeEscaped {s : Bytes} : 10 ∈ writeEscaped s ↔ 10 ∈ s := mem_escaped (by decide)

/-! ## The lines of a file that was written -/

/-- The line of a section. -/
def sectionText (name : Bytes) : Bytes := 91 :: (name ++ [93])

/-- The line of a field. -/
def fieldText (secPair : Bytes × Bytes) : Bytes := secPair.1 ++ fieldSep :: secPair.2

/-- The lines of a section, before they are escaped. -/
def sectionLines (filePair : Bytes × IniSection) : List Bytes :=
  sectionText filePair.1 :: filePair.2.entries.map fieldText

/-- The lines of a file, before they are escaped. -/
def fileLines (file : IniFile) : List Bytes := file.entries.flatMap sectionLines

theorem encodeSection_eq (filePair : Bytes × IniSection) :
    encodeSection filePair = (sectionLines filePair).flatMap fun line => writeEscaped line ++ [10] := by
  have hsection : writeEscaped (sectionText filePair.1) = 91 :: (writeEscaped filePair.1 ++ [93]) := by
    rw [sectionText, ← List.singleton_append, writeEscaped_append, writeEscaped_append]
    rfl
  have hfield (secPair : Bytes × Bytes) :
      writeEscaped (fieldText secPair) = writeEscaped secPair.1 ++ fieldSep :: writeEscaped secPair.2 := by
    rw [fieldText, ← List.singleton_append, writeEscaped_append, writeEscaped_append]
    rfl
  rw [encodeSection, sectionLines, List.flatMap_cons, hsection, List.flatMap_map]
  simp only [hfield]
  simp

theorem encode_eq (file : IniFile) : encode file = (fileLines file).flatMap fun line => writeEscaped line ++ [10] := by
  rw [encode, fileLines, List.flatMap_assoc]
  exact congrArg (List.flatMap · file.entries) (funext encodeSection_eq)

/-- `getline` gives the lines back, and an empty one behind the last. -/
theorem splitOn_lines {lines : List Bytes} (h : ∀ line ∈ lines, 10 ∉ line) :
    (lines.flatMap fun line => writeEscaped line ++ [10]).splitOn 10 = lines.map writeEscaped ++ [[]] := by
  induction lines with
  | nil => exact List.splitOn_nil 10
  | cons line lines ih =>
    have hline : 10 ∉ writeEscaped line := mt newline_mem_writeEscaped.mp (h line List.mem_cons_self)
    rw [List.flatMap_cons, List.append_assoc, List.singleton_append, List.splitOn_append_cons_self_of_not_mem hline,
      ih fun l hl => h l (List.mem_cons_of_mem _ hl)]
    rfl

theorem SectionOk.newline {filePair : Bytes × IniSection} (h : SectionOk filePair) :
    ∀ line ∈ sectionLines filePair, 10 ∉ line := by
  obtain ⟨⟨-, -, hname⟩, hfields⟩ := h
  intro line hline
  rcases List.mem_cons.mp hline with rfl | hline
  · simp [sectionText, hname]
  · obtain ⟨secPair, hmem, rfl⟩ := List.mem_map.mp hline
    obtain ⟨⟨-, -, hkey, -⟩, -, hvalue⟩ := hfields secPair hmem
    simp [fieldText, fieldSep, hkey, hvalue]

/-! ## Reading a line -/

/-- **A section line.** -/
theorem line_section {name : Bytes} (h : SectionName name) (d : Decoding) :
    d.line (writeEscaped (sectionText name)) = .ok ⟨d.file.emplace name OrdMap.empty, some name, d.lineNo + 1⟩ := by
  obtain ⟨hne, hclose, -⟩ := h
  have htrimmed : Trimmed isWhitespace (sectionText name) := by
    refine ⟨fun c hc => ?_, fun c hc => ?_⟩
    · obtain rfl : 91 = c := by simpa [sectionText] using hc
      decide
    · rw [sectionText, ← List.cons_append, List.getLast?_concat] at hc
      obtain rfl : 93 = c := Option.some.inj hc
      decide
  have hfind : find [93] (sectionText name) = some (name.length + 1) :=
    find_singleton_append (c := 91 :: name) (by simp [hclose]) []
  have hpos : name.length + 1 ≠ 1 := by
    have := List.length_pos_iff.mpr hne
    omega
  rw [Decoding.line, eraseComments_writeEscaped, trim, htrimmed.trim_eq]
  simp only [Decoding.sectionLine, hfind, if_neg hpos]
  simp [sectionText]

/-- **A field line**, in a section that has been opened. -/
theorem line_field {secPair : Bytes × Bytes} (hname : FieldName secPair.1) (hvalue : FieldValue secPair.2)
    {d : Decoding} {secName : Bytes} (hsection : d.currentSection = some secName) :
    d.line (writeEscaped (fieldText secPair)) =
      .ok ⟨d.file.assign secName (((d.file.find? secName).getD OrdMap.empty).assign secPair.1 secPair.2), some secName,
        d.lineNo + 1⟩ := by
  obtain ⟨hleft, hsep, -, hbracket⟩ := hname
  have htrimmed : Trimmed isWhitespace (fieldText secPair) := hleft.append_cons (by decide) hvalue.1
  have hfind : find [fieldSep] (fieldText secPair) = some secPair.1.length := find_singleton_append hsep _
  have hne : fieldText secPair ≠ [] := by simp [fieldText]
  have hhead : (fieldText secPair).head? ≠ some 91 := by
    rw [fieldText, List.head?_append]
    cases hkey : secPair.1.head? with
    | none => simp [fieldSep]
    | some c =>
      rw [hkey] at hbracket
      simpa using hbracket
  rw [Decoding.line, eraseComments_writeEscaped, trim, htrimmed.trim_eq]
  simp only [if_neg hne, if_neg hhead, Decoding.fieldLine, hsection, hfind]
  simp [fieldText, trim, hleft.trim_eq, hvalue.1.trim_eq]

/-! ## Reading a file back -/

section Except

variable {ε σ α : Type*} {f : σ → α → Except ε σ} {s s' : σ}

theorem foldlM_cons_ok {a : α} {l : List α} (h : f s a = .ok s') : (a :: l).foldlM f s = l.foldlM f s' := by
  rw [List.foldlM_cons, h]
  rfl

theorem foldlM_append_ok {l l' : List α} (h : l.foldlM f s = .ok s') : (l ++ l').foldlM f s = l'.foldlM f s' := by
  rw [List.foldlM_append, h]
  rfl

end Except

/-- The field lines of a section, from the fields that have been read. -/
theorem foldlM_fields {secName : Bytes} {before : List (Bytes × IniSection)} {rest : List (Bytes × Bytes)}
    (hrest : ∀ secPair ∈ rest, FieldName secPair.1 ∧ FieldValue secPair.2) {d : Decoding} {fields : IniSection}
    (hsection : d.currentSection = some secName) (hfile : d.file.entries = before ++ [(secName, fields)])
    (hbefore : ∀ e ∈ before, stringLess e.1 secName = true)
    (hsorted : (fields.entries ++ rest).Pairwise fun a b => stringLess a.1 b.1 = true) :
    ∃ d', ((rest.map fieldText).map writeEscaped).foldlM Decoding.line d = .ok d' ∧ d'.currentSection = some secName ∧
      ∃ fields' : IniSection, fields'.entries = fields.entries ++ rest ∧
        d'.file.entries = before ++ [(secName, fields')] := by
  induction rest generalizing d fields with
  | nil => exact ⟨d, rfl, hsection, fields, (List.append_nil _).symm, hfile⟩
  | cons secPair rest ih =>
    obtain ⟨hname, hvalue⟩ := hrest secPair List.mem_cons_self
    have hmem : (secName, fields) ∈ d.file.entries := by simp [hfile]
    have hfound : d.file.find? secName = some fields := OrdMap.find?_of_mem hmem (Same.refl secName)
    have hbehind : ∀ e ∈ fields.entries, stringLess e.1 secPair.1 = true := fun e he =>
      (List.pairwise_append.mp hsorted).2.2 e he secPair List.mem_cons_self
    have hentries : (fields.assign secPair.1 secPair.2).entries = fields.entries ++ [secPair] :=
      OrdMap.insertEntries_last hbehind
    have hfile' : (d.file.assign secName (fields.assign secPair.1 secPair.2)).entries =
        before ++ [(secName, fields.assign secPair.1 secPair.2)] := by
      change OrdMap.insertEntries stringLess secName _ d.file.entries = _
      rw [hfile]
      exact OrdMap.insertEntries_last_self hbefore
    have hstep := line_field hname hvalue hsection
    rw [hfound, Option.getD_some] at hstep
    have hsorted' : ((fields.assign secPair.1 secPair.2).entries ++ rest).Pairwise
        fun a b => stringLess a.1 b.1 = true := by
      rw [hentries]
      simpa using hsorted
    obtain ⟨d', hrun, hcurrent, fields', hfields', hfile''⟩ :=
      ih (fun e he => hrest e (List.mem_cons_of_mem _ he))
        (d := ⟨d.file.assign secName (fields.assign secPair.1 secPair.2), some secName, d.lineNo + 1⟩) rfl hfile'
        hsorted'
    refine ⟨d', ?_, hcurrent, fields', by rw [hfields', hentries]; simp, hfile''⟩
    rw [List.map_cons, List.map_cons, foldlM_cons_ok hstep, hrun]

/-- The lines of sections, from the sections that have been read. -/
theorem foldlM_sections {rest : List (Bytes × IniSection)} (hrest : ∀ filePair ∈ rest, SectionOk filePair)
    {d : Decoding} (hsorted : (d.file.entries ++ rest).Pairwise fun a b => stringLess a.1 b.1 = true) :
    ∃ d', ((rest.flatMap sectionLines).map writeEscaped).foldlM Decoding.line d = .ok d' ∧
      d'.file.entries = d.file.entries ++ rest := by
  induction rest generalizing d with
  | nil => exact ⟨d, rfl, (List.append_nil _).symm⟩
  | cons filePair rest ih =>
    obtain ⟨name, sect⟩ := filePair
    obtain ⟨hname, hfields⟩ := hrest _ List.mem_cons_self
    have hbefore : ∀ e ∈ d.file.entries, stringLess e.1 name = true := fun e he =>
      (List.pairwise_append.mp hsorted).2.2 e he _ List.mem_cons_self
    -- the section is new
    have hnew : d.file.find? name = none := by
      rw [OrdMap.find?_eq_none]
      exact fun e he => not_same_of_lt (hbefore e he)
    have hopened : (d.file.emplace name OrdMap.empty).entries = d.file.entries ++ [(name, OrdMap.empty)] := by
      rw [OrdMap.emplace, hnew]
      exact OrdMap.insertEntries_last hbefore
    obtain ⟨d₁, hrun₁, -, fields', hfields', hfile₁⟩ :=
      foldlM_fields (d := ⟨d.file.emplace name OrdMap.empty, some name, d.lineNo + 1⟩) hfields rfl hopened hbefore
        sect.sorted
    have hsame : fields' = sect := by
      cases fields'
      cases sect
      simpa [OrdMap.empty] using hfields'
    rw [hsame] at hfile₁
    obtain ⟨d₂, hrun₂, hfile₂⟩ := ih (fun e he => hrest e (List.mem_cons_of_mem _ he)) (d := d₁)
      (by rw [hfile₁]; simpa using hsorted)
    refine ⟨d₂, ?_, by rw [hfile₂, hfile₁]; simp⟩
    rw [List.flatMap_cons, List.map_append, sectionLines, List.map_cons, List.cons_append,
      foldlM_cons_ok (line_section hname d), foldlM_append_ok hrun₁, hrun₂]

/-- **A well formed file** is read back. -/
theorem WellFormed.decode_encode {file : IniFile} (h : WellFormed file) : decode (encode file) = .ok file := by
  have hlines : ∀ line ∈ fileLines file, 10 ∉ line := by
    intro line hline
    obtain ⟨filePair, hmem, hline⟩ := List.mem_flatMap.mp hline
    exact (h filePair hmem).newline line hline
  obtain ⟨d, hrun, hfile⟩ := foldlM_sections h (d := ⟨OrdMap.empty, none, 0⟩) file.sorted
  have hlast : d.line [] = .ok { d with lineNo := d.lineNo + 1 } := by
    have hempty : trim (eraseComments []) = [] := by
      rw [show ([] : Bytes) = writeEscaped [] from rfl, eraseComments_writeEscaped]
      rfl
    rw [Decoding.line, hempty]
    rfl
  have hsame : d.file = file := by
    cases hd : d.file
    rw [hd] at hfile
    cases file
    simpa [OrdMap.empty] using hfile
  rw [decode, encode_eq, splitOn_lines hlines, fileLines, foldlM_append_ok hrun, foldlM_cons_ok hlast]
  exact congrArg Except.ok hsame

/-! ## What is read is well formed -/

theorem eraseComment_sublist (commentPrefix : UInt8) (str : Bytes) (startpos : ℕ) :
    (eraseComment commentPrefix str startpos).Sublist str := by
  induction str, startpos using eraseComment.induct commentPrefix with
  | case1 str startpos hfind =>
    rw [eraseComment, hfind]
  | case2 str startpos prefixpos hfind hesc ih =>
    rw [eraseComment, hfind]
    simp only [if_pos hesc]
    exact ih.trans (List.eraseIdx_sublist _ _)
  | case3 str startpos prefixpos hfind hesc =>
    rw [eraseComment, hfind]
    simp only [if_neg hesc]
    exact List.take_sublist _ _

theorem eraseComments_sublist (str : Bytes) : (eraseComments str).Sublist str :=
  (eraseComment_sublist 59 _ 0).trans (eraseComment_sublist 35 str 0)

theorem exists_of_find {c : UInt8} {s : Bytes} {pos : ℕ} (h : find [c] s = some pos) :
    ∃ a b, s = a ++ c :: b ∧ c ∉ a ∧ a.length = pos := by
  have hmem : c ∈ s := by
    by_contra hno
    rw [find_singleton_eq_none.mpr hno] at h
    cases h
  obtain ⟨a, b, rfl, ha⟩ := List.eq_append_cons_of_mem hmem
  rw [find_singleton_append ha] at h
  exact ⟨a, b, rfl, ha, Option.some.inj h⟩

/-- What has been read is well formed, and so is the name of the section that is open. -/
def Decoding.Ok (d : Decoding) : Prop := WellFormed d.file ∧ ∀ name ∈ d.currentSection, SectionName name

theorem Decoding.Ok.sectionLine {d d' : Decoding} (hd : d.Ok) {line : Bytes} (hline : 10 ∉ line)
    (hhead : line.head? = some 91) (h : d.sectionLine line = .ok d') : d'.Ok := by
  unfold Decoding.sectionLine at h
  split at h
  · cases h
  rename_i pos hfind
  split_ifs at h with hpos
  obtain rfl := Except.ok.inj h
  obtain ⟨a, b, rfl, hclose, rfl⟩ := exists_of_find hfind
  cases a with
  | nil => cases hhead
  | cons c name =>
    have hname : SectionName name := by
      refine ⟨?_, fun hmem => hclose (List.mem_cons_of_mem _ hmem), fun hmem => hline (by simp [hmem])⟩
      rintro rfl
      exact hpos rfl
    have hsame : ((c :: name ++ 93 :: b).drop 1).take ((c :: name).length - 1) = name := by simp
    simp only [hsame]
    refine ⟨fun filePair hmem => ?_, fun n hn => Option.some.inj hn ▸ hname⟩
    rcases OrdMap.mem_emplace hmem with rfl | hmem
    · exact ⟨hname, fun _ hno => absurd hno List.not_mem_nil⟩
    · exact hd.1 filePair hmem

theorem field_ok {a b : Bytes} (hline : 10 ∉ a ++ fieldSep :: b)
    (htrimmed : Trimmed isWhitespace (a ++ fieldSep :: b)) (hhead : (a ++ fieldSep :: b).head? ≠ some 91)
    (hsep : fieldSep ∉ a) : FieldName (trim a) ∧ FieldValue (trim b) := by
  have ha : 10 ∉ a := fun hmem => hline (List.mem_append_left _ hmem)
  have hb : 10 ∉ b := fun hmem => hline (List.mem_append_right _ (List.mem_cons_of_mem _ hmem))
  have hsubset (s : Bytes) : trim s ⊆ s := (trim_sublist s).subset
  have hbracket : (trim a).head? ≠ some 91 := by
    cases a with
    | nil => simp [trim]
    | cons c a =>
      have hc : isWhitespace c = false := htrimmed.1 c rfl
      rw [trim, head?_trim_of_head? hc rfl]
      exact hhead
  exact ⟨⟨trimmed_trim a, fun hmem => hsep (hsubset a hmem), fun hmem => ha (hsubset a hmem), hbracket⟩,
    trimmed_trim b, fun hmem => hb (hsubset b hmem)⟩

theorem Decoding.Ok.fieldLine {d d' : Decoding} (hd : d.Ok) {line : Bytes} (hline : 10 ∉ line)
    (htrimmed : Trimmed isWhitespace line) (hhead : line.head? ≠ some 91) (h : d.fieldLine line = .ok d') : d'.Ok := by
  unfold Decoding.fieldLine at h
  split at h
  · cases h
  rename_i secName hsection
  split at h
  · cases h
  rename_i pos hfind
  obtain rfl := Except.ok.inj h
  obtain ⟨a, b, rfl, hsep, rfl⟩ := exists_of_find hfind
  have htake : (a ++ fieldSep :: b).take a.length = a := List.take_left
  have hdrop : (a ++ fieldSep :: b).drop (a.length + 1) = b := by simp [← List.drop_drop]
  have hname : SectionName secName := hd.2 secName hsection
  simp only [htake, hdrop]
  refine ⟨fun filePair hmem => ?_, hd.2⟩
  -- the fields of the open section, with the new one
  have hfields : ∀ e ∈ (((d.file.find? secName).getD OrdMap.empty).assign (trim a) (trim b)).entries,
      FieldName e.1 ∧ FieldValue e.2 := by
    have hold : ∀ e ∈ ((d.file.find? secName).getD OrdMap.empty).entries, FieldName e.1 ∧ FieldValue e.2 := by
      intro e he
      cases hf : d.file.find? secName with
      | none =>
        rw [hf] at he
        exact absurd he List.not_mem_nil
      | some fields =>
        rw [hf] at he
        obtain ⟨x, hx, -, rfl⟩ := OrdMap.find?_eq_some_mem hf
        exact (hd.1 x hx).2 e he
    have hnew := field_ok hline htrimmed hhead hsep
    intro e he
    rcases OrdMap.mem_assign he with rfl | ⟨hvalue, x, hx, hkey⟩ | he
    · exact hnew
    · exact ⟨hkey ▸ (hold x hx).1, hvalue ▸ hnew.2⟩
    · exact hold e he
  rcases OrdMap.mem_assign hmem with rfl | ⟨hvalue, x, hx, hkey⟩ | hmem
  · exact ⟨hname, hfields⟩
  · exact ⟨hkey ▸ (hd.1 x hx).1, hvalue ▸ hfields⟩
  · exact hd.1 filePair hmem

/-- **One line** keeps what has been read well formed. -/
theorem Decoding.Ok.line {d d' : Decoding} (hd : d.Ok) {raw : Bytes} (hraw : 10 ∉ raw) (h : d.line raw = .ok d') :
    d'.Ok := by
  have hline : 10 ∉ trim (eraseComments raw) := fun hmem =>
    hraw ((eraseComments_sublist raw).subset ((trim_sublist _).subset hmem))
  have hnext : Decoding.Ok { d with lineNo := d.lineNo + 1 } := hd
  unfold Decoding.line at h
  dsimp only at h
  split_ifs at h with hempty hhead
  · obtain rfl := Except.ok.inj h
    exact hnext
  · exact hnext.sectionLine hline hhead h
  · exact hnext.fieldLine hline (trimmed_trim _) hhead h

theorem Decoding.Ok.foldlM {d d' : Decoding} (hd : d.Ok) {lines : List Bytes} (hlines : ∀ line ∈ lines, 10 ∉ line)
    (h : lines.foldlM Decoding.line d = .ok d') : d'.Ok := by
  induction lines generalizing d with
  | nil =>
    obtain rfl := Except.ok.inj h
    exact hd
  | cons line lines ih =>
    cases hstep : d.line line with
    | error e =>
      rw [List.foldlM_cons, hstep] at h
      cases h
    | ok d₁ =>
      rw [foldlM_cons_ok hstep] at h
      exact ih (hd.line (hlines line List.mem_cons_self) hstep) (fun l hl => hlines l (List.mem_cons_of_mem _ hl)) h

/-- **What `decode` gives** for any text is well formed. -/
theorem wellFormed_of_decode {text : Bytes} {file : IniFile} (h : decode text = .ok file) : WellFormed file := by
  have hstart : Decoding.Ok ⟨OrdMap.empty, none, 0⟩ :=
    ⟨fun _ hno => absurd hno List.not_mem_nil, fun _ hno => absurd hno (by simp)⟩
  rw [decode] at h
  cases hrun : (text.splitOn 10).foldlM Decoding.line ⟨OrdMap.empty, none, 0⟩ with
  | error e =>
    rw [hrun] at h
    cases h
  | ok d =>
    rw [hrun] at h
    obtain rfl := Except.ok.inj h
    exact (hstart.foldlM (fun _ hline => not_mem_of_mem_splitOn hline) hrun).1

/-- **Writing and reading**: a file is read back as it was written exactly when it is well formed, and every file that
has been read, from any text, is. -/
theorem decode_encode_iff :
    (∀ file, decode (encode file) = .ok file ↔ WellFormed file) ∧
    ∀ text file, decode text = .ok file → WellFormed file ∧ decode (encode file) = .ok file :=
  ⟨fun _ => ⟨wellFormed_of_decode, WellFormed.decode_encode⟩,
    fun _ _ h => ⟨wellFormed_of_decode h, (wellFormed_of_decode h).decode_encode⟩⟩

end Gts3.Ini
