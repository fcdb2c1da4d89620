import Gts3.Lib.LineRounds
import Gts3.Http.ChunkedBody

/-!
# Chunked bodies that arrive in segments

`read_body_chunked_mode` decodes one segment at a time, with `_size = 0` at its start, and the socket is not read as
long as an unfinished line is there: it reads in rounds.  A segment of whole lines is decoded to the data in them
(`loopResult_lines`), also when it begins behind the first one, unless it begins with a line of data; and when nothing
but the data comes out in the end, no segment ends inside a line or behind a size (`cuts_of_turns`).
-/

namespace Gts3.Http

open Lib Lib.Search Lib.Cxx Lib.LineMachine Lib.HttpMessage Request

/-! ## The lines of a body -/

/-- A line without its line end, and the status in which it is expected. -/
abbrev ChunkedLine := RbStatus × Bytes

/-- The bytes of lines. -/
def linesText (ls : List ChunkedLine) : Bytes := ls.flatMap fun x => x.2 ++ crlf

/-- The data in a line. -/
def lineData (x : ChunkedLine) : Bytes := if x.1 = .waitContent then x.2 else []

/-- The data in lines. -/
def linesData (ls : List ChunkedLine) : Bytes := ls.flatMap lineData

/-- The lines of chunks. -/
def chunkLines (cs : List (SentChunk × Extension)) : List ChunkedLine :=
  cs.flatMap fun c => [(.waitSize, c.1.digits ++ c.2.text), (.waitContent, c.1.data)]

/-- The lines behind the chunks. -/
def ChunkedBody.endLines (b : ChunkedBody) (e : Extension) : List ChunkedLine :=
  (.waitSize, b.zeros ++ e.text) :: (b.trailer.map (Prod.mk .waitHeaders) ++ [(.waitHeaders, [])])

/-- The lines of a body. -/
def ChunkedBody.lines (b : ChunkedBody) (cs : List (SentChunk × Extension)) (e : Extension) : List ChunkedLine :=
  chunkLines cs ++ b.endLines e

@[simp] theorem linesText_nil : linesText [] = [] := rfl

@[simp] theorem linesText_cons (x : ChunkedLine) (ls : List ChunkedLine) :
    linesText (x :: ls) = x.2 ++ crlf ++ linesText ls := List.flatMap_cons

@[simp] theorem linesText_append (ls ms : List ChunkedLine) : linesText (ls ++ ms) = linesText ls ++ linesText ms :=
  List.flatMap_append

@[simp] theorem linesData_nil : linesData [] = [] := rfl

@[simp] theorem linesData_cons (x : ChunkedLine) (ls : List ChunkedLine) :
    linesData (x :: ls) = lineData x ++ linesData ls := List.flatMap_cons

@[simp] theorem linesData_append (ls ms : List ChunkedLine) : linesData (ls ++ ms) = linesData ls ++ linesData ms :=
  List.flatMap_append

@[simp] theorem lineData_content (d : Bytes) : lineData (.waitContent, d) = d := rfl

theorem lineData_of_ne {x : ChunkedLine} (h : x.1 ≠ .waitContent) : lineData x = [] := if_neg h

theorem linesText_chunkLines (cs : List (SentChunk × Extension)) : linesText (chunkLines cs) = chunksText cs := by
  induction cs with
  | nil => rfl
  | cons c cs ih =>
    rw [show chunkLines (c :: cs) = _ ++ chunkLines cs from List.flatMap_cons, linesText_append, ih,
      show chunksText (c :: cs) = c.1.bytes c.2 ++ chunksText cs from List.flatMap_cons]
    simp [SentChunk.bytes]

theorem linesData_chunkLines (cs : List (SentChunk × Extension)) :
    linesData (chunkLines cs) = sentData (cs.map Prod.fst) := by
  induction cs with
  | nil => rfl
  | cons c cs ih =>
    rw [show chunkLines (c :: cs) = _ ++ chunkLines cs from List.flatMap_cons, linesData_append, ih]
    simp [lineData, sentData]

namespace ChunkedBody

theorem linesText_endLines (b : ChunkedBody) (e : Extension) : linesText (b.endLines e) = b.ending e := by
  simp [endLines, ending, linesText, List.flatMap_map]

theorem linesText_lines (b : ChunkedBody) (cs : List (SentChunk × Extension)) (e : Extension) :
    linesText (b.lines cs e) = b.text cs e := by
  rw [lines, linesText_append, linesText_chunkLines, linesText_endLines, text]

theorem endLines_noData (b : ChunkedBody) (e : Extension) : ∀ x ∈ b.endLines e, x.1 ≠ .waitContent := by
  intro x hx
  simp only [endLines, List.mem_cons, List.mem_append, List.mem_map, List.not_mem_nil, or_false] at hx
  rcases hx with rfl | ⟨l, -, rfl⟩ | rfl <;> simp

end ChunkedBody

theorem linesData_eq_nil {ls : List ChunkedLine} (h : ∀ x ∈ ls, x.1 ≠ .waitContent) : linesData ls = [] :=
  List.flatMap_eq_nil_iff.mpr fun x hx => lineData_of_ne (h x hx)

theorem ChunkedBody.linesData_lines (b : ChunkedBody) (cs : List (SentChunk × Extension)) (e : Extension) :
    linesData (b.lines cs e) = sentData (cs.map Prod.fst) := by
  rw [lines, linesData_append, linesData_chunkLines, linesData_eq_nil (b.endLines_noData e), List.append_nil]

/-- The bytes of lines are more than the data in them. -/
theorem length_linesData_le (ls : List ChunkedLine) :
    (linesData ls).length + 2 * ls.length ≤ (linesText ls).length := by
  induction ls with
  | nil => exact le_rfl
  | cons x ls ih =>
    have hx : (lineData x).length ≤ x.2.length := by
      unfold lineData
      split_ifs
      · exact le_rfl
      · exact Nat.zero_le _
    have hcrlf : crlf.length = 2 := rfl
    simp only [linesData_cons, linesText_cons, List.length_append, List.length_cons]
    omega

/-! ## Layouts -/

/-- The lengths of lines. -/
abbrev Layout := List (RbStatus × ℕ)

namespace Layout

/-- The number of bytes. -/
def bytes (ls : Layout) : ℕ := (ls.map fun x => x.2 + 2).sum

/-- The number of bytes of data. -/
def data (ls : Layout) : ℕ := (ls.map fun x => if x.1 = .waitContent then x.2 else 0).sum

/-- The first line holds no data. -/
def Fresh (ls : Layout) : Prop := ∀ x ∈ ls.head?, x.1 ≠ .waitContent

/-- Segments of these sizes hold whole lines, and none of them begins with data. -/
inductive Cuts : Layout → List ℕ → Prop
  | nil : Cuts [] []
  | cons (front : Layout) {back : Layout} {sizes : List ℕ} (hfresh : Fresh back) (h : Cuts back sizes) :
      Cuts (front ++ back) (bytes front :: sizes)

end Layout

/-- The lengths of the lines. -/
def layoutOf (ls : List ChunkedLine) : Layout := ls.map (Prod.map id List.length)

/-- The layout of a body. -/
def ChunkedBody.layout (b : ChunkedBody) (cs : List (SentChunk × Extension)) (e : Extension) : Layout :=
  layoutOf (b.lines cs e)

@[simp] theorem layoutOf_append (ls ms : List ChunkedLine) : layoutOf (ls ++ ms) = layoutOf ls ++ layoutOf ms :=
  List.map_append

theorem bytes_layoutOf (ls : List ChunkedLine) : (layoutOf ls).bytes = (linesText ls).length := by
  induction ls with
  | nil => rfl
  | cons x ls ih =>
    rw [linesText_cons, List.length_append, ← ih]
    simp [layoutOf, Layout.bytes, crlf]

theorem data_layoutOf (ls : List ChunkedLine) : (layoutOf ls).data = (linesData ls).length := by
  induction ls with
  | nil => rfl
  | cons x ls ih =>
    rw [linesData_cons, List.length_append, ← ih, lineData]
    simp only [layoutOf, Layout.data, List.map_cons, List.sum_cons, Prod.map_fst, Prod.map_snd, id_eq]
    split_ifs <;> rfl

theorem fresh_layoutOf {ls : List ChunkedLine} : (layoutOf ls).Fresh ↔ ∀ x ∈ ls.head?, x.1 ≠ .waitContent := by
  cases ls <;> simp [layoutOf, Layout.Fresh]

/-- **The segments of a cut** are made of whole lines. -/
theorem exists_lines_of_cuts {ls : List ChunkedLine} {p : Bytes} {ps : List Bytes}
    (htext : p ++ ps.flatten = linesText ls) (h : (layoutOf ls).Cuts ((p :: ps).map List.length)) :
    ∃ front back, ls = front ++ back ∧ p = linesText front ∧ ps.flatten = linesText back ∧ (layoutOf back).Fresh ∧
      (layoutOf back).Cuts (ps.map List.length) := by
  rw [List.map_cons] at h
  generalize hlay : layoutOf ls = lay at h
  generalize hsz : p.length = sz at h
  cases h with
  | @cons front' back' sizes hfresh hcuts =>
    obtain ⟨front, back, rfl, rfl, rfl⟩ := List.map_eq_append_iff.mp hlay
    rw [linesText_append] at htext
    rw [show (front.map (Prod.map id List.length)) = layoutOf front from rfl, bytes_layoutOf] at hsz
    obtain ⟨rfl, hback⟩ := List.append_inj htext hsz
    exact ⟨front, back, rfl, rfl, hback, hfresh, hcuts⟩

/-! ## The decoder on whole lines -/

/-- The loop behind a call: the size is forgotten, and the decoded bytes are elsewhere. -/
def again (l : ChunkLoop) : ChunkLoop := { l with size := 0, body := [] }

/-- The status of a loop that has not come to the end. -/
def Decoding (status : RbStatus) : Prop := status = .waitSize ∨ status = .waitContent ∨ status = .waitHeaders

theorem Decoding.ne {status : RbStatus} (h : Decoding status) :
    status ≠ .chunkedEnd ∧ status ≠ .finished ∧ status ≠ .length := by
  rcases h with rfl | rfl | rfl <;> decide

/-- The decoder expects these lines. -/
def Expects (l : ChunkLoop) : List ChunkedLine → Prop
  | [] => l.status = .chunkedEnd
  | x :: _ => l.status = x.1 ∧ (x.1 = .waitContent → x.2.length ≤ l.size)

/-- Lines that are read one by one when the first is expected, up to the last one. -/
def Legible : List ChunkedLine → Prop
  | [] => True
  | x :: ls =>
    (find crlf x.2 = none ∧ Decoding x.1 ∧ ∀ l, Expects l (x :: ls) → ∃ l',
      chunkLine l x.2 = (if ls = [] then .stop l' else .next l') ∧ Expects l' ls ∧ l'.body = l.body ++ lineData x ∧
        l'.headers.find? Header.contentLength = l.headers.find? Header.contentLength) ∧
      Legible ls

theorem Legible.of_append {ls ms : List ChunkedLine} (h : Legible (ls ++ ms)) : Legible ms := by
  induction ls with
  | nil => exact h
  | cons x ls ih => exact ih h.2

theorem Legible.noEnd {ls : List ChunkedLine} (h : Legible ls) : ∀ x ∈ ls, find crlf x.2 = none := by
  induction ls with
  | nil => simp
  | cons x ls ih => exact List.forall_mem_cons.mpr ⟨h.1.1, ih h.2⟩

/-- The size is needed for a line of data only. -/
theorem Expects.again {l : ChunkLoop} {ls : List ChunkedLine} (h : Expects l ls)
    (hfresh : ∀ x ∈ ls.head?, x.1 ≠ .waitContent) : Expects (again l) ls := by
  cases ls with
  | nil => exact h
  | cons x ls => exact ⟨h.1, fun hx => absurd hx (hfresh x rfl)⟩

theorem Expects.decoding {l : ChunkLoop} {ls : List ChunkedLine} (hls : Legible ls) (h : Expects l ls) (hne : ls ≠ []) :
    Decoding l.status := by
  cases ls with
  | nil => exact absurd rfl hne
  | cons x ls =>
    rw [h.1]
    exact hls.1.2.1

/-- **A segment of whole lines** is decoded to the data in it. -/
theorem loopResult_lines {front back : List ChunkedLine} (hls : Legible (front ++ back)) {l : ChunkLoop}
    (hl : Expects l (front ++ back)) :
    ∃ l', loopResult (drain chunkMachine l (linesText front)) = (l', [], false) ∧ Expects l' back ∧
      l'.body = l.body ++ linesData front ∧
      l'.headers.find? Header.contentLength = l.headers.find? Header.contentLength := by
  induction front generalizing l with
  | nil => exact ⟨l, by rw [linesText_nil, drain_short rfl (by decide)]; rfl, hl, by simp, rfl⟩
  | cons x front ih =>
    obtain ⟨⟨hnoEnd, -, hstep⟩, hrest⟩ := hls
    obtain ⟨l₁, hline, hl₁, hbody, hlength⟩ := hstep l hl
    rw [linesText_cons, drain_chunkLine l hnoEnd, hline]
    split_ifs with hnil
    · -- the last line
      obtain ⟨rfl, rfl⟩ := List.append_eq_nil_iff.mp hnil
      exact ⟨l₁, rfl, hl₁, by simpa using hbody, hlength⟩
    · obtain ⟨l', hrun, hl', hbody', hlength'⟩ := ih hrest hl₁
      exact ⟨l', hrun, hl', by rw [hbody', hbody, linesData_cons, List.append_assoc], hlength'.trans hlength⟩

/-! ## The lines of a valid body -/

/-- What a client sends when it keeps to the protocol: no line end in the data, right sizes, and no field in the
trailer that says how long the body is. -/
structure ChunkedBody.Valid (b : ChunkedBody) : Prop where
  plain : b.Plain
  matched : b.Matched
  noLength : ∀ l ∈ b.trailer, ∀ pos, find [58] (l ++ crlf) = some pos →
    ¬ SameName (headerKey (l ++ crlf) pos) Header.contentLength

theorem headerLine_contentLength {headers : Headers} {cookies : BasicCookies} {line : Bytes}
    (h : ∀ pos, find [58] line = some pos → ¬ SameName (headerKey line pos) Header.contentLength) :
    (headerLine headers cookies line).1.find? Header.contentLength = headers.find? Header.contentLength := by
  unfold headerLine
  cases hf : find [58] line with
  | none => rfl
  | some pos =>
    simp only
    split_ifs
    · rw [OrdMap.find?_assign, if_neg (mt (same_lessCaseInsensitive _ _).mp (h pos hf))]
    · rfl

/-- The first line behind chunks or behind nothing is a size. -/
theorem head_lines (b : ChunkedBody) (cs : List (SentChunk × Extension)) (e : Extension) :
    ∃ y rest, chunkLines cs ++ b.endLines e = y :: rest ∧ y.1 = .waitSize ∧ y.2 ≠ [] := by
  cases cs with
  | nil => exact ⟨_, _, rfl, rfl, by simp [b.zeros_ne]⟩
  | cons c cs => exact ⟨_, _, rfl, rfl, by simp [c.1.digits_ne]⟩

theorem legible_trailer {ls : List Bytes} (hnoEnd : ∀ l ∈ ls, find crlf l = none) (hcolon : ∀ l ∈ ls, 58 ∈ l)
    (hfits : ∀ l ∈ ls, CookieItemsFit (decodedItems (l ++ crlf)))
    (hlength : ∀ l ∈ ls, ∀ pos, find [58] (l ++ crlf) = some pos →
      ¬ SameName (headerKey (l ++ crlf) pos) Header.contentLength) :
    Legible (ls.map (Prod.mk .waitHeaders) ++ [(.waitHeaders, [])]) := by
  induction ls with
  | nil =>
    refine ⟨⟨rfl, Or.inr (Or.inr rfl), fun l hl => ?_⟩, trivial⟩
    refine ⟨{ l with status := .chunkedEnd }, ?_, rfl, by simp [lineData], rfl⟩
    rw [chunkLine, show l.status = .waitHeaders from hl.1]
    rfl
  | cons line ls ih =>
    refine ⟨⟨hnoEnd line (by simp), Or.inr (Or.inr rfl), fun l hl => ?_⟩,
      ih (fun l hl => hnoEnd l (by simp [hl])) (fun l hl => hcolon l (by simp [hl]))
        (fun l hl => hfits l (by simp [hl])) (fun l hl => hlength l (by simp [hl]))⟩
    have hc : 58 ∈ line := hcolon line (by simp)
    have hne : line ≠ [] := fun h => by simp [h] at hc
    have hgood : (headerLine l.headers l.cookies (line ++ crlf)).2.2 = true :=
      (headerLine_good { Request.new with headers := l.headers, cookies := l.cookies } (line ++ crlf)
        (by simp [hc])).mpr (hfits line (by simp))
    refine ⟨{ l with headers := (headerLine l.headers l.cookies (line ++ crlf)).1,
                     cookies := (headerLine l.headers l.cookies (line ++ crlf)).2.1 }, Eq.trans ?_ (if_neg ?_).symm, ?_,
      by simp [lineData], headerLine_contentLength (hlength line (by simp))⟩
    · rw [chunkLine, show l.status = .waitHeaders from hl.1]
      simp only [if_neg hne, hgood, if_true]
    · simp
    · -- another field, or the blank line
      cases ls with
      | nil => exact ⟨hl.1, fun h => by cases h⟩
      | cons line' ls => exact ⟨hl.1, fun h => by cases h⟩

theorem ChunkedBody.Valid.legible_endLines {b : ChunkedBody} (hb : b.Valid) (e : Extension) :
    Legible (b.endLines e) := by
  refine ⟨⟨find_crlf_sizeLine b.zeros_hex e, Or.inl rfl, fun l hl => ?_⟩,
    legible_trailer b.trailer_noEnd b.trailer_colon hb.plain.trailerFits hb.noLength⟩
  refine ⟨{ l with size := 0, status := .waitHeaders }, Eq.trans ?_ (if_neg ?_).symm, ?_, by simp [lineData], rfl⟩
  · rw [chunkLine, show l.status = .waitSize from hl.1]
    simp only [chunkSize_sizeLine b.zeros_ne b.zeros_hex e, if_pos hb.plain.zeros_short, b.numeral_zeros, if_true]
  · simp
  · cases b.trailer with
    | nil => exact ⟨rfl, fun h => by cases h⟩
    | cons line ls => exact ⟨rfl, fun h => by cases h⟩

/-- **The lines of a valid body** are read one by one. -/
theorem ChunkedBody.Valid.legible {b : ChunkedBody} (hb : b.Valid) {cs : List (SentChunk × Extension)}
    (hcs : ∀ c ∈ cs, c.1 ∈ b.chunks) (e : Extension) : Legible (b.lines cs e) := by
  unfold ChunkedBody.lines
  induction cs with
  | nil => exact hb.legible_endLines e
  | cons c cs ih =>
    have hc := hcs c (by simp)
    have hsize : c.1.data.length ≤ c.1.size := hb.matched.size_le c.1 hc
    obtain ⟨y, rest, hrest, hy, -⟩ := head_lines b cs e
    have ih := ih fun c' hc' => hcs c' (by simp [hc'])
    show Legible ((.waitSize, c.1.digits ++ c.2.text) :: (.waitContent, c.1.data) :: (chunkLines cs ++ b.endLines e))
    rw [hrest] at ih ⊢
    refine ⟨⟨find_crlf_sizeLine c.1.digits_hex c.2, Or.inl rfl, fun l hl => ?_⟩,
      ⟨hb.plain.data_noEnd c.1 hc, Or.inr (Or.inl rfl), fun l hl => ?_⟩, ih⟩
    · refine ⟨{ l with size := c.1.size, status := .waitContent }, Eq.trans ?_ (if_neg (List.cons_ne_nil _ _)).symm,
        ⟨rfl, fun _ => hsize⟩, by simp [lineData], rfl⟩
      rw [chunkLine, show l.status = .waitSize from hl.1]
      simp only [chunkSize_sizeLine c.1.digits_ne c.1.digits_hex c.2, if_pos (hb.plain.digits_short c.1 hc)]
      rw [if_neg (Nat.pos_iff_ne_zero.mp c.1.size_pos)]
      rfl
    · have hle : c.1.data.length ≤ l.size := hl.2 rfl
      refine ⟨{ l with body := l.body ++ c.1.data, status := .waitSize },
        Eq.trans ?_ (if_neg (List.cons_ne_nil _ _)).symm, ⟨hy.symm, fun h => ?_⟩, by simp, rfl⟩
      · rw [chunkLine, show l.status = .waitContent from hl.1]
        simp only [Nat.max_eq_left hle, if_neg (Nat.not_lt.mpr hle)]
      · rw [hy] at h
        cases h

/-! ## What comes out of lines that are cut -/

theorem chunkMachine_overlong_ne (l : ChunkLoop) :
    ∃ l' failed, chunkMachine.overlong l = (l', some failed) ∧ failed ≠ false := ⟨l, true, rfl, nofun⟩

theorem chunkMachine_ne_drop (l : ChunkLoop) (line : Bytes) (l' : ChunkLoop) : chunkMachine.line l line ≠ .drop l' := by
  show (chunkLine l _).verdict ≠ _
  cases chunkLine l (line.take (line.length - 2)) <;> nofun

theorem ChunkStep.verdict_eq_next {v : ChunkStep} {l : ChunkLoop} (h : v.verdict = .next l) : v = .next l := by
  cases v with
  | next l' => rw [Verdict.next.inj h]
  | stop l' => cases h
  | reset l' => cases h

theorem ChunkStep.verdict_eq_stop {v : ChunkStep} {l : ChunkLoop} (h : v.verdict = .stop l false) : v = .stop l := by
  cases v with
  | next l' => cases h
  | stop l' => rw [(Verdict.stop.inj h).1]
  | reset l' => exact absurd (Verdict.stop.inj h).2 (by decide)

theorem chunkLine_waitContent {l : ChunkLoop} (h : l.status = .waitContent) (line : Bytes) :
    ∃ l', chunkLine l line = .next l' ∧ l'.body = l.body ++ line ∧
      (l'.status = .waitSize ∨ l'.status = .waitContent) ∧ (l.size < line.length → l'.status = .waitContent) := by
  rw [chunkLine, h]
  refine ⟨_, rfl, rfl, ?_, fun hlt => if_pos hlt⟩
  split_ifs
  · exact Or.inr rfl
  · exact Or.inl rfl

theorem chunkLine_waitSize {l : ChunkLoop} (h : l.status = .waitSize) (line : Bytes) :
    chunkLine l line = match chunkSize line with
      | none => .reset l
      | some size => .next { l with size, status := if size = 0 then .waitHeaders else .waitContent } := by
  obtain ⟨status, size, body, headers, cookies⟩ := l
  obtain rfl : status = .waitSize := h
  rfl

/-- **The status** behind a segment. -/
theorem drain_status {l : ChunkLoop} (hl : Decoding l.status) (buf : Bytes) :
    (drain chunkMachine l buf).Meets (fun l => Decoding l.status)
      (fun l failed => failed = false → l.status = .chunkedEnd) := by
  refine drain_meets (P := fun l : ChunkLoop => Decoding l.status) (fun l line hl => ?_)
    (fun l _ => fun h => Bool.noConfusion h) hl buf
  show (chunkLine l _).verdict.Meets _ _
  generalize line.take (line.length - 2) = line
  rcases hl with hl | hl | hl
  · rw [chunkLine_waitSize hl]
    cases chunkSize line with
    | none => exact fun h => Bool.noConfusion h
    | some size =>
      show Decoding (if size = 0 then _ else _)
      split_ifs
      · exact Or.inr (Or.inr rfl)
      · exact Or.inr (Or.inl rfl)
  · obtain ⟨l', hl', -, hopen, -⟩ := chunkLine_waitContent hl line
    rw [hl']
    exact hopen.imp_right Or.inl
  · rw [chunkLine, hl]
    simp only
    split_ifs
    · exact fun _ => rfl
    · exact Or.inr (Or.inr rfl)
    · exact fun h => Bool.noConfusion h

/-- The number of decoded bytes. -/
def totalBody (ss : List ChunkLoop) : ℕ := (ss.map fun l => l.body.length).sum

@[simp] theorem totalBody_cons (l : ChunkLoop) (ss : List ChunkLoop) :
    totalBody (l :: ss) = l.body.length + totalBody ss := by
  simp [totalBody]

@[simp] theorem totalBody_nil : totalBody [] = 0 := rfl

/-- A line of a chunk that cannot be mistaken: the size is a positive number, the data is no number. -/
def Strict (x : ChunkedLine) : Prop :=
  x.1 = .waitSize ∧ (∃ n, 0 < n ∧ chunkSize x.2 = some n) ∨ x.1 = .waitContent ∧ chunkSize x.2 = none

section Turns

variable {l : ChunkLoop} {n : ℕ} {sizes : List ℕ} {ss : List ChunkLoop} {front tail : List ChunkedLine}

/-- What has been decoded comes out. -/
theorem body_le_of_turns {lines : List Bytes} (h : Turns chunkMachine again false l n lines sizes ss) :
    l.body.length ≤ totalBody ss := by
  have hbody : ∀ (l : ChunkLoop) (line : Bytes), l.body.length ≤ (chunkLine l line).loop.body.length := fun l line => by
    rw [chunkLine_body]
    split_ifs
    · rw [List.length_append]
      omega
    · exact le_rfl
  induction h with
  | turn h ih =>
    rw [totalBody_cons]
    omega
  | @line s s' n line ls sizes ss hl h ih =>
    have hle := hbody s (line.take (line.length - 2))
    rw [ChunkStep.verdict_eq_next hl] at hle
    exact hle.trans ih
  | @stop s s' n line ls sizes hl =>
    have hle := hbody s (line.take (line.length - 2))
    rw [ChunkStep.verdict_eq_stop hl] at hle
    rwa [totalBody_cons, totalBody_nil, Nat.add_zero]

/-- **The data of chunks comes out**, with whatever is taken for data beside it. -/
theorem open_le_of_turns (h : Turns chunkMachine again false l n ((front ++ tail).map fun x => x.2 ++ crlf) sizes ss)
    (hfront : ∀ x ∈ front, Strict x) (hopen : l.status = .waitSize ∨ l.status = .waitContent) :
    l.body.length + (linesData front).length ≤ totalBody ss := by
  generalize hlines : (front ++ tail).map (fun x => x.2 ++ crlf) = lines at h
  induction h generalizing front with
  | turn h ih =>
    have := ih hfront hopen hlines
    rw [totalBody_cons]
    simp only [again, List.length_nil] at this
    omega
  | @line s s' n line ls sizes ss hl h ih =>
    cases front with
    | nil => simpa using body_le_of_turns (Turns.line hl h)
    | cons x front =>
      obtain ⟨rfl, rfl⟩ := List.cons_eq_cons.mp hlines
      rw [chunkMachine_line] at hl
      have hl := ChunkStep.verdict_eq_next hl
      have hrest : ∀ y ∈ front, Strict y := fun y hy => hfront y (by simp [hy])
      rw [linesData_cons, List.length_append]
      rcases hopen with hs | hs
      · rw [chunkLine_waitSize hs] at hl
        rcases hfront x (by simp) with ⟨hx, size, hpos, hsize⟩ | ⟨-, hsize⟩
        · -- a size where one is expected
          rw [hsize] at hl
          simp only [if_neg hpos.ne'] at hl
          obtain rfl := ChunkStep.next.inj hl
          have := ih hrest (Or.inr rfl) rfl
          rw [lineData_of_ne (by rw [hx]; decide)]
          simpa using this
        · rw [hsize] at hl
          cases hl
      · -- the line is taken for data
        obtain ⟨l', hl', hbody, hopen', -⟩ := chunkLine_waitContent hs x.2
        obtain rfl := ChunkStep.next.inj (hl.symm.trans hl')
        have := ih hrest hopen' rfl
        rw [hbody, List.length_append] at this
        have hle : (lineData x).length ≤ x.2.length := by
          unfold lineData
          split_ifs
          · exact le_rfl
          · exact Nat.zero_le _
        omega
  | @stop s s' n line ls sizes hl =>
    cases front with
    | nil =>
      have hstop : Turns chunkMachine again false s (line.length + n) (line :: ls) sizes [s'] := .stop hl
      simpa using body_le_of_turns hstop
    | cons x front =>
      obtain ⟨rfl, rfl⟩ := List.cons_eq_cons.mp hlines
      rw [chunkMachine_line] at hl
      have hl := ChunkStep.verdict_eq_stop hl
      rcases hopen with hs | hs
      · rw [chunkLine_waitSize hs] at hl
        cases hsize : chunkSize x.2 with
        | none =>
          rw [hsize] at hl
          cases hl
        | some size =>
          rw [hsize] at hl
          cases hl
      · obtain ⟨l', hl', -⟩ := chunkLine_waitContent hs x.2
        rw [hl'] at hl
        cases hl

/-- A line where data is expected comes out. -/
theorem content_le_of_turns {y : ChunkedLine}
    (h : Turns chunkMachine again false l n ((y :: (front ++ tail)).map fun x => x.2 ++ crlf) sizes ss)
    (hfront : ∀ x ∈ front, Strict x) (hs : l.status = .waitContent) :
    l.body.length + y.2.length + (linesData front).length ≤ totalBody ss := by
  generalize hlines : (y :: (front ++ tail)).map (fun x => x.2 ++ crlf) = lines at h
  induction h with
  | turn h ih =>
    have := ih hs hlines
    rw [totalBody_cons]
    simp only [again, List.length_nil] at this
    omega
  | line hl h ih =>
    obtain ⟨rfl, rfl⟩ := List.cons_eq_cons.mp hlines
    rw [chunkMachine_line] at hl
    obtain ⟨l', hl', hbody, hopen, -⟩ := chunkLine_waitContent hs y.2
    obtain rfl := ChunkStep.next.inj ((ChunkStep.verdict_eq_next hl).symm.trans hl')
    have := open_le_of_turns h hfront hopen
    rw [hbody, List.length_append] at this
    exact this
  | stop hl =>
    obtain ⟨rfl, rfl⟩ := List.cons_eq_cons.mp hlines
    rw [chunkMachine_line] at hl
    obtain ⟨l', hl', -⟩ := chunkLine_waitContent hs y.2
    have := (ChunkStep.verdict_eq_stop hl).symm.trans hl'
    cases this

/-- **Behind a lost size** the line behind the data is taken for data as well. -/
theorem lost_le_of_turns {x y : ChunkedLine}
    (h : Turns chunkMachine again false l n ((x :: y :: (front ++ tail)).map fun x => x.2 ++ crlf) sizes ss)
    (hfront : ∀ x ∈ front, Strict x) (hs : l.status = .waitContent) (hsize : l.size < x.2.length) :
    l.body.length + x.2.length + y.2.length + (linesData front).length ≤ totalBody ss := by
  generalize hlines : (x :: y :: (front ++ tail)).map (fun x => x.2 ++ crlf) = lines at h
  induction h with
  | turn h ih =>
    have := ih hs (Nat.zero_lt_of_lt hsize) hlines
    rw [totalBody_cons]
    simp only [again, List.length_nil] at this
    omega
  | line hl h ih =>
    obtain ⟨rfl, rfl⟩ := List.cons_eq_cons.mp hlines
    rw [chunkMachine_line] at hl
    obtain ⟨l', hl', hbody, -, hlost⟩ := chunkLine_waitContent hs x.2
    obtain rfl := ChunkStep.next.inj ((ChunkStep.verdict_eq_next hl).symm.trans hl')
    have := content_le_of_turns h hfront (hlost hsize)
    rw [hbody, List.length_append] at this
    exact this
  | stop hl =>
    obtain ⟨rfl, rfl⟩ := List.cons_eq_cons.mp hlines
    rw [chunkMachine_line] at hl
    obtain ⟨l', hl', -⟩ := chunkLine_waitContent hs x.2
    have := (ChunkStep.verdict_eq_stop hl).symm.trans hl'
    cases this

end Turns

/-- Behind data stands a line that is not empty, and lines that cannot be mistaken as far as there is data. -/
def Tight : List ChunkedLine → Prop
  | [] => True
  | x :: ls =>
    (x.1 = .waitContent → x.2 ≠ [] ∧ ∃ y front tail, ls = y :: (front ++ tail) ∧ y.1 ≠ .waitContent ∧ y.2 ≠ [] ∧
      (∀ z ∈ front, Strict z) ∧ linesData tail = []) ∧ Tight ls

theorem Layout.Cuts.cons_line {x : RbStatus × ℕ} {lay : Layout} {n : ℕ} {sizes : List ℕ} (h : lay.Cuts (n :: sizes)) :
    Layout.Cuts (x :: lay) ((x.2 + 2 + n) :: sizes) := by
  generalize hall : n :: sizes = all at h
  cases h with
  | nil => cases hall
  | @cons front back sizes' hfresh h =>
    obtain ⟨rfl, rfl⟩ := List.cons_eq_cons.mp hall
    exact .cons (x :: front) hfresh h

theorem Layout.cuts_zeros {sizes : List ℕ} (h : sizes.sum = 0) : Layout.Cuts [] sizes := by
  induction sizes with
  | nil => exact .nil
  | cons n sizes ih =>
    rw [List.sum_cons] at h
    obtain rfl : n = 0 := by omega
    exact .cons [] (fun x hx => by cases hx) (ih (by omega))

/-- **Where the cuts are**, when no more than the data comes out: at the start of a line that holds no data. -/
theorem cuts_of_turns {l : ChunkLoop} {n : ℕ} {sizes : List ℕ} {ss : List ChunkLoop} {ls : List ChunkedLine}
    (h : Turns chunkMachine again false l n (ls.map fun x => x.2 ++ crlf) sizes ss) (hls : Legible ls)
    (htight : Tight ls) (hl : Expects l ls) (htotal : totalBody ss ≤ l.body.length + (linesData ls).length)
    (hsum : n + sizes.sum = (linesText ls).length) : (layoutOf ls).Cuts (n :: sizes) := by
  generalize hlines : ls.map (fun x => x.2 ++ crlf) = lines at h
  induction h generalizing ls with
  | @turn s n lines sizes ss h ih =>
    have hfresh : ∀ x ∈ ls.head?, x.1 ≠ .waitContent := by
      intro x hx hcontent
      obtain ⟨ls', rfl⟩ : ∃ ls', ls = x :: ls' := by
        cases ls with
        | nil => cases hx
        | cons x' ls' => exact ⟨ls', by rw [Option.some.inj hx]⟩
      obtain ⟨hne, y, front, tail, rfl, hy, hyne, hfront, htail⟩ := htight.1 hcontent
      have hlost := lost_le_of_turns (l := again s) (hlines ▸ h) hfront (hl.1.trans hcontent)
        (List.length_pos_iff.mpr hne)
      have hpos := List.length_pos_iff.mpr hyne
      simp only [again, List.length_nil, totalBody_cons, linesData_cons, linesData_append, htail, List.append_nil,
        List.length_append, lineData_of_ne hy, show lineData x = x.2 from if_pos hcontent] at hlost htotal
      omega
    refine .cons [] (fresh_layoutOf.mpr hfresh) (ih hls htight (hl.again hfresh) ?_ ?_ hlines)
    · rw [totalBody_cons] at htotal
      simp only [again, List.length_nil]
      omega
    · rw [List.sum_cons] at hsum
      omega
  | @line s s' n line lines sizes ss hline h ih =>
    obtain ⟨x, ls, rfl, rfl, rfl⟩ := List.map_eq_cons_iff.mp hlines
    rw [chunkMachine_line] at hline
    have hline := ChunkStep.verdict_eq_next hline
    obtain ⟨l', hl', hexpects, hbody, -⟩ := hls.1.2.2 s hl
    rw [hline] at hl'
    split_ifs at hl' with hnil
    obtain rfl := ChunkStep.next.inj hl'
    simp only [linesText_cons, List.length_append] at hsum
    rw [linesData_cons, List.length_append] at htotal
    have hcuts := ih hls.2 htight.2 hexpects (by rw [hbody, List.length_append]; omega) (by omega) rfl
    have hlen : (x.2 ++ crlf).length = x.2.length + 2 := by simp [crlf]
    rw [hlen]
    exact hcuts.cons_line
  | @stop s s' n line lines sizes hline =>
    obtain ⟨x, ls, rfl, rfl, rfl⟩ := List.map_eq_cons_iff.mp hlines
    rw [chunkMachine_line] at hline
    have hline := ChunkStep.verdict_eq_stop hline
    obtain ⟨l', hl', -⟩ := hls.1.2.2 s hl
    rw [hline] at hl'
    split_ifs at hl' with hnil
    subst hnil
    simp only [linesText_cons, linesText_nil, List.append_nil, List.length_append] at hsum
    have hlen : (x.2 ++ crlf).length = x.2.length + 2 := by simp [crlf]
    have hn : n = 0 := by omega
    rw [hlen, hn]
    exact Layout.Cuts.cons_line (Layout.cuts_zeros (by rw [List.sum_cons]; omega))

/-- **A body whose data are no numbers** is tight. -/
theorem ChunkedBody.Valid.tight {b : ChunkedBody} (hb : b.Valid) {cs : List (SentChunk × Extension)}
    (hcs : ∀ c ∈ cs, c.1 ∈ b.chunks) (hdata : ∀ c ∈ cs, chunkSize c.1.data = none) (e : Extension) :
    Tight (b.lines cs e) := by
  have hend : ∀ ls : List ChunkedLine, (∀ x ∈ ls, x.1 ≠ .waitContent) → Tight ls := by
    intro ls hls
    induction ls with
    | nil => trivial
    | cons x ls ih => exact ⟨fun h => absurd h (hls x (by simp)), ih fun y hy => hls y (by simp [hy])⟩
  have hstrict : ∀ ds : List (SentChunk × Extension), (∀ c ∈ ds, c ∈ cs) → ∀ x ∈ chunkLines ds, Strict x := by
    intro ds hds x hx
    obtain ⟨c, hc, hx⟩ := List.mem_flatMap.mp hx
    simp only [List.mem_cons, List.not_mem_nil, or_false] at hx
    rcases hx with rfl | rfl
    · refine Or.inl ⟨rfl, c.1.size, c.1.size_pos, ?_⟩
      rw [chunkSize_sizeLine c.1.digits_ne c.1.digits_hex c.2,
        if_pos (hb.plain.digits_short c.1 (hcs c (hds c hc)))]
      rfl
    · exact Or.inr ⟨rfl, hdata c (hds c hc)⟩
  unfold ChunkedBody.lines
  induction cs with
  | nil => exact hend _ (b.endLines_noData e)
  | cons c cs ih =>
    refine ⟨nofun, ⟨fun _ => ⟨c.1.data_ne, ?_⟩,
      ih (fun c' hc' => hcs c' (by simp [hc'])) (fun c' hc' => hdata c' (by simp [hc']))
        fun ds hds => hstrict ds fun c' hc' => by simp [hds c' hc']⟩⟩
    cases cs with
    | nil =>
      exact ⟨(.waitSize, b.zeros ++ e.text), [], _, rfl, nofun, by simp [b.zeros_ne], nofun,
        linesData_eq_nil fun x hx => b.endLines_noData e x (List.mem_cons_of_mem _ hx)⟩
    | cons c' cs =>
      refine ⟨(.waitSize, c'.1.digits ++ c'.2.text), (.waitContent, c'.1.data) :: chunkLines cs, b.endLines e, rfl,
        nofun, by simp [c'.1.digits_ne], fun z hz => hstrict (c' :: cs) (by simp +contextual) z ?_,
        linesData_eq_nil (b.endLines_noData e)⟩
      exact List.mem_cons_of_mem _ hz

/-! ## Other data in the same layout -/

/-- Letters that are no digits. -/
def Letters (data : Bytes) : Prop := ∀ c ∈ data, c = 121 ∨ c = 122

/-- Letters are no size. -/
theorem chunkSize_letters {data : Bytes} (hne : data ≠ []) (h : Letters data) : chunkSize data = none := by
  have hletter : ∀ c, c = 121 ∨ c = 122 →
      isspace c = false ∧ c ≠ 43 ∧ c ≠ 45 ∧ c ≠ 48 ∧ c ≠ 59 ∧ ¬ digitVal c < 16 := by
    rintro c (rfl | rfl) <;> decide
  obtain ⟨c, data, rfl⟩ := List.exists_cons_of_ne_nil hne
  obtain ⟨hspace, h43, h45, h48, -, hdigit⟩ := hletter c (h c (by simp))
  have hno : (59 : UInt8) ∉ c :: data := fun hmem => (hletter 59 (h 59 hmem)).2.2.2.2.1 rfl
  have hcut : withoutExtension (c :: data) = c :: data := by
    rw [withoutExtension, find_singleton_eq_none.mpr hno]
  have hsign : signOf (c :: data) = (false, c :: data) := by
    unfold signOf
    split <;> simp_all
  have hprefix : skipHexPrefix (c :: data) = c :: data := by
    unfold skipHexPrefix
    split <;> simp_all
  have htake : (c :: data).takeWhile (fun c => decide (digitVal c < 16)) = [] :=
    List.takeWhile_cons_of_neg (by simpa using hdigit)
  have hparsed : (strtoull 16 (c :: data)).parsed = false := by
    simp only [strtoull, List.dropWhile_cons_of_neg (show ¬ isspace c = true by simp [hspace]), hsign, hprefix, if_true,
      htake]
  rw [chunkSize, hcut]
  split_ifs
  · rfl
  · rw [stoull, hparsed]
    rfl

/-- All of a chunk but its data. -/
def SentChunk.frame (c : SentChunk × Extension) : Bytes × Extension × ℕ := (c.1.digits, c.2, c.1.data.length)

/-- **Any data of the right length** can stand in the chunks. -/
theorem exists_painted (cs : List (SentChunk × Extension)) (data : Bytes)
    (hlen : data.length = (sentData (cs.map Prod.fst)).length) :
    ∃ cs' : List (SentChunk × Extension), cs'.map SentChunk.frame = cs.map SentChunk.frame ∧
      sentData (cs'.map Prod.fst) = data := by
  induction cs generalizing data with
  | nil => exact ⟨[], rfl, (List.length_eq_zero_iff.mp hlen).symm⟩
  | cons c cs ih =>
    have hsum : (sentData ((c :: cs).map Prod.fst)).length = c.1.data.length + (sentData (cs.map Prod.fst)).length := by
      simp [sentData]
    rw [hsum] at hlen
    have htake : (data.take c.1.data.length).length = c.1.data.length := by
      rw [List.length_take]
      omega
    obtain ⟨cs', hframe, hdata⟩ := ih (data.drop c.1.data.length) (by rw [List.length_drop]; omega)
    have hne : data.take c.1.data.length ≠ [] := by
      rw [← List.length_pos_iff, htake]
      exact List.length_pos_iff.mpr c.1.data_ne
    refine ⟨({ c.1 with data := data.take c.1.data.length, data_ne := hne,
                        data_short := htake.symm ▸ c.1.data_short }, c.2) :: cs', ?_, ?_⟩
    · rw [List.map_cons, List.map_cons, hframe]
      simp only [SentChunk.frame, htake]
    · show data.take c.1.data.length ++ sentData (cs'.map Prod.fst) = data
      rw [hdata, List.take_append_drop]

theorem layoutOf_chunkLines (cs : List (SentChunk × Extension)) :
    layoutOf (chunkLines cs) = (cs.map SentChunk.frame).flatMap fun f =>
      [(.waitSize, f.1.length + f.2.1.text.length), (.waitContent, f.2.2)] := by
  induction cs with
  | nil => rfl
  | cons c cs ih =>
    rw [List.map_cons, List.flatMap_cons, ← ih]
    simp [chunkLines, layoutOf, SentChunk.frame]

/-- **A valid body with letters for its data** has any valid layout. -/
theorem ChunkedBody.Valid.painted {b : ChunkedBody} (hb : b.Valid) {cs : List (SentChunk × Extension)}
    (hcs : cs.map Prod.fst = b.chunks) (e : Extension) (data : Bytes) (hlen : data.length = b.data.length)
    (hletters : Letters data) :
    ∃ (b' : ChunkedBody) (cs' : List (SentChunk × Extension)), b'.Valid ∧ cs'.map Prod.fst = b'.chunks ∧
      b'.layout cs' e = b.layout cs e ∧ b'.data = data ∧ Tight (b'.lines cs' e) := by
  obtain ⟨cs', hframe, hdata⟩ := exists_painted cs data (by rw [hlen, ChunkedBody.data, hcs])
  -- every chunk has the frame of a chunk of the body
  have hmem : ∀ c' ∈ cs', ∃ c ∈ b.chunks, c'.1.digits = c.digits ∧ c'.1.data.length = c.data.length := by
    intro c' hc'
    have hf : SentChunk.frame c' ∈ cs.map SentChunk.frame := hframe ▸ List.mem_map_of_mem hc'
    obtain ⟨c, hc, heq⟩ := List.mem_map.mp hf
    refine ⟨c.1, hcs ▸ List.mem_map_of_mem hc, (Prod.mk.inj heq).1.symm, (Prod.mk.inj (Prod.mk.inj heq).2).2.symm⟩
  have hsub : ∀ c' ∈ cs', Letters c'.1.data := by
    intro c' hc' x hx
    refine hletters x (hdata ▸ ?_)
    exact List.mem_flatMap.mpr ⟨c'.1, List.mem_map_of_mem hc', hx⟩
  have hchunks : ∀ {P : SentChunk → Prop}, (∀ c ∈ cs', P c.1) → ∀ c ∈ cs'.map Prod.fst, P c := by
    intro P h c hc
    obtain ⟨c', hc', rfl⟩ := List.mem_map.mp hc
    exact h c' hc'
  have hvalid : ({ b with chunks := cs'.map Prod.fst } : ChunkedBody).Valid := by
    refine ⟨⟨hchunks fun c hc => ?_, hchunks fun c hc => ?_, hb.plain.zeros_short, hb.plain.trailerFits⟩,
      hchunks fun c hc => ?_, hb.noLength⟩
    · refine NoLineEnd.find_crlf fun x hx => ?_
      rcases hsub c hc x hx with rfl | rfl <;> decide
    · obtain ⟨c₀, hc₀, hdigits, -⟩ := hmem c hc
      rw [hdigits]
      exact hb.plain.digits_short c₀ hc₀
    · obtain ⟨c₀, hc₀, hdigits, hlen⟩ := hmem c hc
      rw [hlen, ← hb.matched c₀ hc₀, SentChunk.size, SentChunk.size, hdigits]
  refine ⟨{ b with chunks := cs'.map Prod.fst }, cs', hvalid, rfl, ?_, hdata,
    hvalid.tight (fun c hc => List.mem_map_of_mem hc) (fun c hc => chunkSize_letters c.1.data_ne (hsub c hc)) e⟩
  rw [ChunkedBody.layout, ChunkedBody.layout, ChunkedBody.lines, ChunkedBody.lines, layoutOf_append, layoutOf_append,
    layoutOf_chunkLines, layoutOf_chunkLines, hframe]
  rfl

end Gts3.Http
