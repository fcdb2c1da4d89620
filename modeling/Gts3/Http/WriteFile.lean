import Gts3.Http.Multipart

/-!
# What `write_file` serves

An answer is a block of headers and a body (`Answered`).  A whole file is served, unless it is empty
(`servesFile_iff`): then nothing is written, and the destructor answers with a text of its own.  A vector of ranges
throws when a range begins before its end, so the ranges that are served have one byte each (`rangesServed_iff`).
-/

namespace Gts3.Http

open Lib Lib.Search Lib.Cxx Lib.HttpMessage Lib.FileStream

namespace Response

/-! ## Answers -/

/-- Between `r` and `r'`, the status line, the fields of `r'` and a body have been written. -/
def Answered (r r' : Response) (status : Status) (body : Bytes) : Prop :=
  r'.out = r.out ++ (block (statusLine r.request.version status.code (statusDescription status)) r'.sentFields ++ body)

theorem sentFields_blockSent (r : Response) : r.blockSent.sentFields = r.sentFields := by
  have hentries : ((r.headers.erase (lit "set-cookie")).erase (lit "set-cookie")).entries =
      (r.headers.erase (lit "set-cookie")).entries := by
    simp only [OrdMap.erase, List.filter_filter, Bool.and_self]
  exact congrArg (· ++ r.cookies.entries.map cookieField) hentries

theorem Connected.answered_blockSent {r : Response} (h : r.Connected) : Answered r r.blockSent r.status [] := by
  have h' : ({ r with headers := r.headers.erase (lit "set-cookie") } : Response).Connected := h
  rw [Answered, sentFields_blockSent, Response.blockSent, h'.out_put, List.append_nil]
  rfl

/-- **The first write** begins an answer. -/
theorem Connected.answered_started {r : Response} (h : r.Connected) (hw : r.headersWrited = false) :
    Answered r r.started r.status [] := by
  rw [Response.started, if_neg (by rw [hw]; exact Bool.false_ne_true)]
  rcases prepareHeaders_eq { r with headersWrited := true } 0 with heq | heq <;> rw [heq] <;>
    exact Connected.answered_blockSent h

theorem Answered.put {r r' : Response} {status : Status} {body : Bytes} (h : Answered r r' status body)
    (hr' : r'.Connected) (data : Bytes) : Answered r (r'.put data) status (body ++ data) := by
  rw [Answered, hr'.out_put, h]
  simp only [List.append_assoc]
  rfl

/-- The header block and a body leave the length that is announced. -/
theorem headersContains_blockSent_put (r : Response) (body : Bytes) :
    (r.blockSent.put body).headersContains Header.contentLength = r.headersContains Header.contentLength := by
  rw [put_headersContains, Response.blockSent, put_headersContains, headersContains, headersContains,
    find?_erase_setCookie _ (by decide)]

/-- **The default answer**, without a default function. -/
theorem Connected.answered_writeDefault {r : Response} (h : r.Connected) (hw : r.headersWrited = false) :
    ∃ r', r.writeDefault none = .ok r' ∧ Answered r r' r.status (defaultBody r.status) ∧
      r'.headersContains Header.contentLength = true ∧ r'.headersWrited = true ∧ r'.Connected := by
  set r₁ := ((({ r with headersWrited := true } : Response).setHeader Header.contentLength
    (formatNat 10 (defaultBody r.status).length)).unsetHeader Header.transferEncoding) with hr₁
  have h₁ : r₁.Connected := h
  refine ⟨r₁.blockSent.put (defaultBody r.status), ?_, h₁.answered_blockSent.put h₁.blockSent.connected _, ?_, rfl,
    h₁.blockSent.connected.put _⟩
  · unfold writeDefault
    simp only [hw, Bool.false_eq_true, if_false, ← hr₁, h₁.sendHeaders_block, ok_bind, h₁.blockSent.connected.send_eq]
  · have hne : ¬ Same lessCaseInsensitive Header.transferEncoding Header.contentLength := fun hs =>
      absurd ((same_lessCaseInsensitive _ _).mp hs) (by decide)
    have hlength : r₁.headers.find? Header.contentLength = some (formatNat 10 (defaultBody r.status).length) := by
      rw [hr₁, unsetHeader, OrdMap.find?_erase, if_neg hne]
      exact OrdMap.find?_assign_self _ _ _
    rw [headersContains_blockSent_put, headersContains, hlength]
    rfl

theorem Answered.body_unique {r r' : Response} {status : Status} {body body' : Bytes} (h : Answered r r' status body)
    (h' : Answered r r' status body') : body = body' := by
  rw [Answered] at h h'
  exact List.append_cancel_left (List.append_cancel_left (h.symm.trans h'))

theorem takeWhile_formatNat (n : ℕ) (t : Bytes) : (formatNat 10 n ++ 32 :: t).takeWhile (· ≠ 32) = formatNat 10 n := by
  have hdigits : ∀ c ∈ formatNat 10 n, decide (c ≠ 32) = true := by
    intro c hc
    have hlt := digitVal_lt_of_mem_formatNat (by omega) (by omega) n c hc
    refine decide_eq_true fun h => ?_
    rw [h] at hlt
    exact absurd hlt (by decide)
  rw [List.takeWhile_append_of_pos hdigits]
  simp

theorem Answered.status_unique {r r' : Response} {status status' : Status} {body body' : Bytes}
    (h : Answered r r' status body) (h' : Answered r r' status' body') : status = status' := by
  rw [Answered] at h h'
  have heq := List.append_cancel_left (h.symm.trans h')
  simp only [block, statusLine, List.append_assoc, List.append_cancel_left_eq] at heq
  have hdigits := congrArg (List.takeWhile (· ≠ 32)) heq
  have hcode : status.code = status'.code := by
    refine formatNat_injective (by omega : 1 < 10) (by omega) ?_
    rw [← takeWhile_formatNat status.code, ← takeWhile_formatNat status'.code]
    exact hdigits
  cases status
  cases status'
  cases hcode
  rfl

/-! ## Fields that announce a length -/

theorem announcesLength_sentFields {r : Response} {n : ℕ}
    (h : r.headers.find? Header.contentLength = some (formatNat 10 n)) : AnnouncesLength r.sentFields n := by
  obtain ⟨⟨e, he, hname⟩, hall⟩ := announcesLength_of_find (m := r.headers.erase (lit "set-cookie")) (n := n)
    (by rwa [find?_erase_setCookie r.headers (by decide)])
  refine ⟨⟨e, List.mem_append_left _ he, hname⟩, fun f hf hs => ?_⟩
  rcases List.mem_append.mp hf with hf | hf
  · exact hall f hf hs
  · obtain ⟨c, -, rfl⟩ := List.mem_map.mp hf
    have hne : ¬ SameName (lit "set-cookie") (lit "Content-Length") := by decide
    exact absurd hs hne

theorem started_eq {r : Response} (hw : r.headersWrited = false) {value : Bytes}
    (h : r.headers.find? Header.contentLength = some value) :
    r.started = ({ r with headersWrited := true } : Response).blockSent := by
  have hcontains : ({ r with headersWrited := true } : Response).headersContains Header.contentLength = true := by
    rw [headersContains, h]
    rfl
  rw [started, if_neg (by rw [hw]; exact Bool.false_ne_true), prepareHeaders, if_pos hcontains]

/-- What an answer with a body of its own length leaves: the destructor does not write more. -/
theorem destroy_started {r : Response} (hvalid : r.request.isValid = true) (hw : r.headersWrited = false)
    {value : Bytes} (h : r.headers.find? Header.contentLength = some value) (g : WriteDefault) (body : Bytes) :
    (r.started.put body).destroy g = .ok (r.started.put body) := by
  have hvalid' : (r.started.put body).request.isValid = true := by
    rw [started_eq hw h, put_isValid, blockSent, put_isValid]
    exact hvalid
  have hcontains : (r.started.put body).headersContains Header.contentLength = true := by
    rw [started_eq hw h, headersContains_blockSent_put, headersContains, h]
    rfl
  have hwritten : (r.started.put body).headersWrited = true := by
    rw [started_eq hw h]
    rfl
  simp only [destroy, hvalid', hwritten, Bool.true_eq_false, if_false, ok_bind, chunkEnd, hcontains, true_or, if_true]

/-! ## A whole file -/

/-- **The loop over a whole file** writes what is left of it. -/
theorem defaultLoop_sends {r : Response} (hr : r.Connected) {bufSize : ℕ} (hbufSize : 0 < bufSize) {content : Bytes}
    {pos fuel : ℕ} (hpos : pos ≤ content.length) (hfuel : content.length - pos + 1 < fuel) {f : InFile}
    (hf : f.At content pos) {buf : Buffer} (hbuf : buf.size = bufSize) :
    defaultLoop bufSize false fuel r f buf = .ok (r.put (content.drop pos)) := by
  induction fuel generalizing pos r f buf with
  | zero => omega
  | succ fuel ih =>
    rw [defaultLoop, if_neg (by rw [hf.eof_eq]; exact Bool.false_ne_true)]
    by_cases hle : pos + bufSize ≤ content.length
    · -- a piece as large as the buffer
      obtain ⟨buf', f', hread, hf', hsize, hfront⟩ := readInto_within hf hle hbuf.ge
      have hgood : 0 < (buf'.front bufSize).length := by
        rw [Buffer.length_front]
        exact hbufSize
      simp only [hread, ok_bind, if_neg hbufSize.ne', hr.writeBodyGood_plain, decide_eq_true hgood, if_true]
      rw [ih (hr.put _) hle (by omega) hf' (hsize.trans hbuf), put_put, hfront, ← List.drop_drop, List.take_append_drop]
    · -- the last piece, and the read behind it
      obtain ⟨buf', f', hread, heof, -, hfront⟩ := readInto_rest hf hpos (not_le.mp hle) hbuf.ge
      simp only [hread, ok_bind]
      by_cases hnil : (content.drop pos).length = 0
      · rw [if_pos hnil, List.length_eq_zero_iff.mp hnil, put_nil]
      · have hrest : 0 < (content.drop pos).length := Nat.pos_of_ne_zero hnil
        obtain ⟨fuel, rfl⟩ : ∃ k, fuel = k + 1 := ⟨fuel - 1, by rw [List.length_drop] at hrest; omega⟩
        simp only [if_neg hnil, hfront, hr.writeBodyGood_plain, ok_bind, decide_eq_true hrest, if_true, defaultLoop,
          heof]

/-- The headers of a whole file. -/
def fileHeaders (r : Response) (mimeType : Bytes) (size : ℕ) : Response :=
  (r.setHeader Header.contentLength (formatNat 10 size)).setHeader Header.contentType mimeType

theorem find?_fileHeaders (r : Response) (mimeType : Bytes) (size : ℕ) :
    (r.fileHeaders mimeType size).headers.find? Header.contentLength = some (formatNat 10 size) := by
  have hne : ¬ Same lessCaseInsensitive Header.contentType Header.contentLength := fun hs =>
    absurd ((same_lessCaseInsensitive _ _).mp hs) (by decide)
  have hself : Same lessCaseInsensitive Header.contentLength Header.contentLength :=
    (same_lessCaseInsensitive _ _).mpr rfl
  simp only [fileHeaders, setHeader, OrdMap.find?_assign, if_pos hself, if_neg hne]

/-- **A file that is not empty** is written behind its headers. -/
theorem defaultTransfer_sends {r : Response} (hr : r.Connected) (hchunked : r.isChunked = false) {bufSize : ℕ}
    (hbuf : r.tcpIpBufferSize = .ok bufSize) (hbufSize : 0 < bufSize) {content : Bytes} (hne : content ≠ [])
    (mimeType : Bytes) :
    r.defaultTransfer (.opened content) mimeType =
      .ok ((r.fileHeaders mimeType content.length).started.put content) := by
  have h₁ : (r.fileHeaders mimeType content.length).Connected := hr
  obtain ⟨hwrite, hstarted⟩ := h₁.started
  have hsize : (InFile.opened content).content.length ≠ 0 := fun h0 => hne (List.length_eq_zero_iff.mp h0)
  have hbuf' : (r.fileHeaders mimeType content.length).started.tcpIpBufferSize = .ok bufSize :=
    hstarted.bufferSize_eq.trans hbuf
  have hchunked' : (r.fileHeaders mimeType content.length).started.isChunked = false := by
    rw [hstarted.isChunked_eq, fileHeaders, setHeader_isChunked _ (by decide), setHeader_isChunked _ (by decide),
      hchunked]
  have hloop := defaultLoop_sends hstarted.connected hbufSize (Nat.zero_le content.length)
    (Nat.lt_succ_self (content.length + 1)) (InFile.opened_at content)
    (rfl : (Buffer.zeros bufSize).size = bufSize)
  rw [List.drop_zero] at hloop
  unfold defaultTransfer
  dsimp only
  rw [if_neg hsize]
  change ((r.fileHeaders mimeType content.length).write [] >>= _) = _
  simp only [hwrite, ok_bind, hbuf', hchunked']
  exact hloop

end Response

/-! ## The file that is found -/

/-- The name that the file is found under. -/
def Files.found (files : Files) (fileName : Bytes) : Option Bytes :=
  if files.fileExists fileName then some fileName
  else if files.fileExists (fileName ++ lit ".html") then some (fileName ++ lit ".html")
  else none

theorem check_found {files : Files} {fileName name : Bytes} (h : files.found fileName = some name) (g : WriteDefault)
    (r : Response) :
    FileTransfer.check files g r fileName =
      match files.content name with
      | some content => .ok (r, some (name, .opened content))
      | none => (r.setStatus .forbidden).writeDefault g >>= fun r => .ok (r, none) := by
  unfold Files.found at h
  unfold FileTransfer.check
  split_ifs at h ⊢
  · obtain rfl := Option.some.inj h
    rfl
  · obtain rfl := Option.some.inj h
    rfl

/-- **A file is served** through `write_file` and the destructor: whatever the default function is, the answer is 200,
announces the size of the file and has the file as its body. -/
def ServesFile (files : Files) (r : Response) (fileName content : Bytes) : Prop :=
  ∀ g, ∃ r₁ r', r.writeFile files g fileName = .ok r₁ ∧ r₁.destroy g = .ok r' ∧ r.Answered r' .ok content ∧
    AnnouncesLength r'.sentFields content.length

theorem getLast?_block (start : Bytes) (fields : List (Bytes × Bytes)) : (block start fields).getLast? = some 10 := by
  rw [block, List.getLast?_append]
  rfl

theorem getLast?_defaultBody (status : Status) : (Response.defaultBody status).getLast? = some 41 := by
  rw [Response.defaultBody, List.getLast?_append]
  rfl

/-- The destructor writes a body of its own when nothing has been written. -/
theorem Response.Connected.not_answered_destroy {r r' : Response} (hr : r.Connected) (hvalid : r.request.isValid = true)
    (hw : r.headersWrited = false) (h : r.destroy none = .ok r') (status : Status) : ¬ r.Answered r' status [] := by
  obtain ⟨r₀, hr₀, hw₀, hout₀, hdestroy⟩ : ∃ r₀ : Response, r₀.Connected ∧ r₀.headersWrited = false ∧ r₀.out = r.out ∧
      r.destroy none = (r₀.writeDefault none >>= fun r => r.chunkEnd OrdMap.empty) := by
    unfold Response.destroy
    simp only [hvalid, hw, Bool.true_eq_false, if_false, if_true]
    split_ifs
    · exact ⟨r.setStatus .notAcceptable, hr, hw, rfl, rfl⟩
    · exact ⟨r, hr, hw, rfl, rfl⟩
  obtain ⟨r₁, hwrite, hanswered, hcontains, -⟩ := hr₀.answered_writeDefault hw₀
  rw [hdestroy, hwrite, ok_bind, Response.chunkEnd, if_pos (Or.inl hcontains)] at h
  obtain rfl := Except.ok.inj h
  intro h'
  -- the default answer ends with a bracket, headers with a line feed
  have hlast : r₁.out.getLast? = some 41 := by
    rw [hanswered, List.getLast?_append, List.getLast?_append, getLast?_defaultBody]
    rfl
  rw [h', List.append_nil, List.getLast?_append, getLast?_block, Option.some_or] at hlast
  exact absurd hlast (by decide)

/-- **A whole file**: it is served unless it is empty. -/
theorem servesFile_iff {files : Files} {r : Response} {fileName name content : Bytes}
    (hfound : files.found (files.absolutePath fileName) = some name) (hcontent : files.content name = some content)
    (hrange : r.request.headers.find? Header.range = none) (hvalid : r.request.isValid = true)
    (hw : r.headersWrited = false) (hstatus : r.status = .ok) (hchunked : r.isChunked = false) {bufSize : ℕ}
    (hbuf : r.tcpIpBufferSize = .ok bufSize) (hbufSize : 0 < bufSize) :
    ServesFile files r fileName content ↔ content ≠ [] := by
  have hr := Response.connected_of_isValid hvalid
  have hwrite : ∀ g, r.writeFile files g fileName =
      r.defaultTransfer (.opened content) (files.mimeType name) := by
    intro g
    rw [Response.writeFile, if_neg (by rw [hw]; exact Bool.false_ne_true), FileTransfer.call, check_found hfound,
      hcontent]
    simp only [ok_bind, hrange]
  constructor
  · rintro hserves rfl
    obtain ⟨r₁, r', hr₁, hr', hanswered, -⟩ := hserves none
    have hnothing : r.defaultTransfer (.opened []) (files.mimeType name) = .ok r := rfl
    rw [hwrite, hnothing] at hr₁
    obtain rfl := Except.ok.inj hr₁
    exact hr.not_answered_destroy hvalid hw hr' _ hanswered
  · intro hne g
    have h₁ : (r.fileHeaders (files.mimeType name) content.length).Connected := hr
    have hlength := r.find?_fileHeaders (files.mimeType name) content.length
    refine ⟨_, _, (hwrite g).trans (Response.defaultTransfer_sends hr hchunked hbuf hbufSize hne _),
      Response.destroy_started (r := r.fileHeaders (files.mimeType name) content.length) hvalid hw hlength g content,
        ?_, ?_⟩
    · have hanswered := (h₁.answered_started hw).put h₁.started.2.connected content
      rw [show (r.fileHeaders (files.mimeType name) content.length).status = .ok from hstatus] at hanswered
      exact hanswered
    · apply Response.announcesLength_sentFields
      rw [Response.put_headers,
        Response.started_eq (r := r.fileHeaders (files.mimeType name) content.length) hw hlength]
      exact (Response.find?_erase_setCookie _ (by decide)).trans hlength

/-- The file system with one text file. -/
def oneFile (content : Bytes) : Files where
  absolutePath := id
  fileExists name := name = lit "/a"
  content name := if name = lit "/a" then some content else none
  mimeType _ := lit "text/plain"
  boundary := lit "b"

/-- A file of four bytes, through a buffer of three. -/
theorem servesFile_iff_four : ServesFile (oneFile (lit "gts3")) Response.overSmallBuffer (lit "/a") (lit "gts3") :=
  (servesFile_iff (rfl : (oneFile (lit "gts3")).found _ = some (lit "/a")) rfl rfl (by decide) rfl rfl
    (by decide) (rfl : Response.overSmallBuffer.tcpIpBufferSize = .ok 3) (by decide)).mpr (by decide)

/-- For an empty file the destructor answers, with the text of the status as the body. -/
theorem not_servesFile_empty : ¬ ServesFile (oneFile []) Response.overSmallBuffer (lit "/a") [] := by
  intro hserves
  obtain ⟨r₁, r', hwrite, hdestroy, hanswered, -⟩ := hserves none
  have hnothing : Response.overSmallBuffer.writeFile (oneFile []) none (lit "/a") = .ok Response.overSmallBuffer := rfl
  rw [hnothing] at hwrite
  obtain rfl := Except.ok.inj hwrite
  exact Response.Connected.not_answered_destroy ⟨_, rfl, rfl⟩ (by decide) rfl hdestroy .ok hanswered

/-! ## Vectors of ranges -/

namespace FileRange

/-- The range as `range_parsing` gives it. -/
def value (range : FileRange) : RangeValue :=
  ⟨[], range.rangeBegin, range.rangeEnd, range.rangeEnd - range.rangeBegin + 1⟩

/-- The range as `write_file` prints it. -/
def item (range : FileRange) : Bytes := closedItem range.rangeBegin range.rangeEnd

theorem digitItem (range : FileRange) : DigitItem range.item := digitItem_closedItem range.begin_lt range.end_lt

/-- The range lies in a file of this size. -/
def Valid (size : ℕ) (range : FileRange) : Prop := range.rangeBegin ≤ range.rangeEnd ∧ range.rangeEnd < size

theorem Valid.within {size : ℕ} {range : FileRange} (h : range.Valid size) : range.value.Within size := by
  obtain ⟨hle, hlt⟩ := h
  refine ⟨hle, hlt, rfl, ?_⟩
  show range.rangeBegin + (range.rangeEnd - range.rangeBegin + 1) ≤ size
  omega

theorem Valid.parsedAs {size : ℕ} {range : FileRange} (h : range.Valid size) (hsize : size < 2 ^ 64) :
    ParsedAs size range.item range.value := by
  obtain ⟨hle, hlt⟩ := h
  rw [ParsedAs, item, rangeParsing_closedItem range.begin_lt range.end_lt hsize, if_neg (by omega)]
  rfl

end FileRange

/-- What a vector of ranges is served as. -/
def rangesBody (boundary ctLine content : Bytes) : List FileRange → Bytes
  | [range] => range.value.bytes content
  | ranges =>
    Response.multipartText boundary ctLine content (ranges.map fun range => range.value.withLine content.length)

theorem rangesText_some {ranges : List FileRange} (h : ∀ range ∈ ranges, range.rangeEnd ≤ range.rangeBegin)
    (str : Bytes) :
    Response.rangesText str ranges = some (str ++ (ranges.map FileRange.item).flatMap (· ++ [44])) := by
  induction ranges generalizing str with
  | nil => rw [Response.rangesText, List.map_nil, List.flatMap_nil, List.append_nil]
  | cons range ranges ih =>
    obtain ⟨hrange, h⟩ := List.forall_mem_cons.mp h
    rw [Response.rangesText, if_pos hrange, ih h, List.map_cons, List.flatMap_cons, FileRange.item, closedItem]
    simp only [List.append_assoc]
    rfl

theorem rangesText_none {ranges : List FileRange} (h : ∃ range ∈ ranges, range.rangeBegin < range.rangeEnd)
    (str : Bytes) :
    Response.rangesText str ranges = none := by
  induction ranges generalizing str with
  | nil => obtain ⟨_, hmem, -⟩ := h; cases hmem
  | cons range ranges ih =>
    rw [Response.rangesText]
    split_ifs with hrange
    · obtain ⟨range', hmem, hlt⟩ := h
      rcases List.mem_cons.mp hmem with rfl | hmem
      · exact absurd hrange (Nat.not_le.mpr hlt)
      · exact ih ⟨range', hmem, hlt⟩ _
    · rfl

/-- Without the last comma, the items are joined by commas. -/
theorem dropLast_commas {items : List Bytes} (hne : items ≠ []) :
    (items.flatMap (· ++ [(44 : UInt8)])).dropLast = [44].intercalate items := by
  induction items with
  | nil => exact absurd rfl hne
  | cons item items ih =>
    cases items with
    | nil => simp
    | cons item' items =>
      have hrest : (item' :: items).flatMap (· ++ [(44 : UInt8)]) ≠ [] := by simp
      rw [List.flatMap_cons, List.dropLast_append_of_ne_nil hrest, ih (by simp), List.intercalate_cons_cons]

/-- **A vector that does not throw** is written as a header. -/
theorem writeFileRanges_eq {ranges : List FileRange} (hne : ranges ≠ [])
    (h : ∀ range ∈ ranges, range.rangeEnd ≤ range.rangeBegin) (files : Files) (g : WriteDefault) (r : Response)
    (fileName : Bytes) :
    r.writeFileRanges files g fileName ranges =
      some (r.writeFileRange files g fileName (rangeText (ranges.map FileRange.item))) := by
  have hitems : ranges.map FileRange.item ≠ [] := by simpa using hne
  have hflat : (ranges.map FileRange.item).flatMap (· ++ [(44 : UInt8)]) ≠ [] := by
    cases ranges with
    | nil => exact absurd rfl hne
    | cons range ranges => simp
  rw [Response.writeFileRanges, if_neg hne, rangesText_some h, Option.map_some, List.dropLast_append_of_ne_nil hflat,
    dropLast_commas hitems]
  rfl

/-- The call of `send_range` for a vector. -/
def Response.sendRanges (r : Response) (boundary mimeType content : Bytes) : List FileRange → Run Response
  | [range] => (r.onlyRange mimeType range.value).sendRange (.opened content) [] [] [range.value]
  | ranges =>
    let queue := ranges.map fun range => range.value.withLine content.length
    (r.severalRanges boundary (severalLength boundary (typeLine mimeType) queue % 2 ^ 64)).sendRange (.opened content)
      boundary (typeLine mimeType) queue

/-- **Ranges of the file** come to `send_range`. -/
theorem transferRange_ranges {ranges : List FileRange} (hne : ranges ≠ []) {content : Bytes}
    (hvalid : ∀ range ∈ ranges, range.Valid content.length) (hsize : content.length < 2 ^ 64) (files : Files)
    (g : WriteDefault) (r : Response) (name : Bytes) :
    FileTransfer.transferRange files g r name (.opened content) (rangeText (ranges.map FileRange.item)) =
      r.sendRanges files.boundary (files.mimeType name) content ranges := by
  have hparsed : ∀ range ∈ ranges, ParsedAs content.length range.item range.value := fun range hrange =>
    (hvalid range hrange).parsedAs hsize
  match ranges, hne with
  | [range], _ =>
    have htransfer := rangeTransfer_only r files.boundary (files.mimeType name) range.digitItem
      (hparsed range (List.mem_singleton_self range))
    unfold FileTransfer.transferRange
    change (rangeTransfer r content.length _ _ (rangeText [range.item]) >>= _) = _
    rw [htransfer]
    rfl
  | range :: range' :: ranges, _ =>
    have hitems : ∀ item ∈ (range :: range' :: ranges).map FileRange.item, DigitItem item := by
      intro item hitem
      obtain ⟨range, -, rfl⟩ := List.mem_map.mp hitem
      exact range.digitItem
    have hall : List.Forall₂ (ParsedAs content.length) ((range :: range' :: ranges).map FileRange.item)
        ((range :: range' :: ranges).map FileRange.value) := by
      rw [List.forall₂_map_left_iff, List.forall₂_map_right_iff]
      exact List.forall₂_same.mpr hparsed
    have htransfer := rangeTransfer_several r files.boundary (files.mimeType name) (by simp) hitems hall
    rw [List.map_map] at htransfer
    unfold FileTransfer.transferRange
    change (rangeTransfer r content.length _ _ _ >>= _) = _
    rw [htransfer]
    rfl

section Served

variable {files : Files} {r : Response} {fileName name content : Bytes}

/-- **A vector of ranges is served**: ranges of the file are served in order, whatever the default function is, and a
range that begins behind its end throws. -/
structure RangesServed (files : Files) (r : Response) (fileName name content : Bytes) (ranges : List FileRange) :
    Prop where
  serves : (∀ range ∈ ranges, range.Valid content.length) → ∀ g, ∃ r',
    r.writeFileRanges files g fileName ranges = some (.ok r') ∧
      r.Answered r' .partialContent (rangesBody files.boundary (typeLine (files.mimeType name)) content ranges)
  throws : (∃ range ∈ ranges, range.rangeEnd < range.rangeBegin) → ∀ g, r.writeFileRanges files g fileName ranges = none

/-- Ranges of the file have one byte each, in a file that can be opened and with room in the buffer; and where a range
begins behind its end, another one begins before it. -/
structure RangesPass (files : Files) (name content : Bytes) (bufSize : ℕ) (ranges : List FileRange) : Prop where
  valid : (∀ range ∈ ranges, range.Valid content.length) →
    (∀ range ∈ ranges, range.rangeBegin = range.rangeEnd) ∧ files.content name = some content ∧
      (if ranges.length = 1 then 1 else 3) ≤ bufSize
  reversed : (∃ range ∈ ranges, range.rangeEnd < range.rangeBegin) → ∃ range ∈ ranges, range.rangeBegin < range.rangeEnd

theorem RangeValue.Within.withLine {v : RangeValue} {size : ℕ} (h : v.Within size) (n : ℕ) :
    (v.withLine n).Within size :=
  ⟨h.begin_le, h.end_lt, h.size_eq, h.fits⟩

section Buffers

variable (hr : r.Connected) (hw : r.headersWrited = false) (hchunked : r.isChunked = false) {bufSize : ℕ}
  (hbuf : r.tcpIpBufferSize = .ok bufSize)
include hr hw hchunked hbuf

/-- The only range is served when there is a buffer. -/
theorem answered_onlyRange_iff (mimeType : Bytes) {v : RangeValue} (hv : v.Within content.length) :
    (∃ r', (r.onlyRange mimeType v).sendRange (.opened content) [] [] [v] = .ok r' ∧
      r.Answered r' .partialContent (v.bytes content)) ↔ 1 ≤ bufSize := by
  have hr₁ : (r.onlyRange mimeType v).Connected := hr
  have hchunked₁ : (r.onlyRange mimeType v).isChunked = false := by
    simp only [Response.onlyRange]
    rw [Response.setHeader_isChunked _ (by decide), Response.setHeader_isChunked _ (by decide),
      Response.setHeader_isChunked _ (by decide), Response.setHeader_isChunked _ (by decide)]
    exact hchunked
  obtain ⟨hwrite, hstarted⟩ := hr₁.started
  have hbegins : r.Answered (r.onlyRange mimeType v).started .partialContent [] := hr₁.answered_started hw
  constructor
  · rintro ⟨r', hsend, hanswered⟩
    by_contra hzero
    obtain rfl : bufSize = 0 := by omega
    have hsize : ¬ v.size ≤ 0 := by
      rw [hv.size_eq]
      exact Nat.not_succ_le_zero _
    obtain ⟨buf', f', hread, -⟩ := readInto_within
      ((InFile.opened_at content).seekg v.rangeBegin) (le_trans (Nat.le_add_right _ _) hv.fits)
      (show (0 : ℕ) ≤ (Buffer.zeros 0).size from le_rfl)
    -- nothing is read, and nothing is written behind the headers
    have hnothing : (r.onlyRange mimeType v).sendRange (.opened content) [] [] [v] =
        .ok ((r.onlyRange mimeType v).started.put []) := by
      rw [Response.sendRange]
      simp only [hwrite, ok_bind, hstarted.bufferSize_eq,
        show (r.onlyRange mimeType v).tcpIpBufferSize = .ok 0 from hbuf, hstarted.isChunked_eq, hchunked₁]
      rw [Response.singleLoop, if_neg
        (by rw [((InFile.opened_at content).seekg v.rangeBegin).eof_eq]; exact Bool.false_ne_true), if_neg hsize]
      simp only [hread, ok_bind, Buffer.front_zero, hstarted.connected.writeBodyGood_plain, List.length_nil, lt_irrefl,
        decide_false, Bool.false_eq_true, if_false]
    rw [hnothing] at hsend
    obtain rfl := Except.ok.inj hsend
    have hbytes := hanswered.body_unique (hbegins.put hstarted.connected [])
    have hlen := hv.bytes_eq.2
    rw [hbytes] at hlen
    exact hsize hlen.symm.le
  · intro hpos
    exact ⟨_, Response.sendRange_single hr₁ hchunked₁ hbuf hpos hv (InFile.opened_at content) [] [],
      hbegins.put hstarted.connected _⟩

/-- Several ranges of one byte each are served when the buffer has room for a line end. -/
theorem answered_severalRanges_iff (boundary ctLine : Bytes) (n : ℕ) {queue : List RangeValue} (hlen : 2 ≤ queue.length)
    (hqueue : ∀ v ∈ queue, v.Within content.length) (hone : ∀ v ∈ queue, v.size = 1) :
    (∃ r', (r.severalRanges boundary n).sendRange (.opened content) boundary ctLine queue = .ok r' ∧
      r.Answered r' .partialContent (Response.multipartText boundary ctLine content queue)) ↔ 3 ≤ bufSize := by
  have hr₁ : (r.severalRanges boundary n).Connected := hr
  have hchunked₁ : (r.severalRanges boundary n).isChunked = false := by
    simp only [Response.severalRanges]
    rw [Response.setHeader_isChunked _ (by decide), Response.setHeader_isChunked _ (by decide),
      Response.setHeader_isChunked _ (by decide)]
    exact hchunked
  have hstarted := hr₁.started.2
  have hbegins : r.Answered (r.severalRanges boundary n).started .partialContent [] := hr₁.answered_started hw
  rw [hr₁.sendRange_several hchunked₁ hbuf _ boundary ctLine hlen]
  constructor
  · rintro ⟨r', hsend, hanswered⟩
    by_contra hroom
    obtain ⟨v, queue, rfl⟩ : ∃ v queue', queue = v :: queue' := List.exists_cons_of_ne_nil (by rintro rfl; simp at hlen)
    have hv := hqueue v List.mem_cons_self
    have hsize := hone v List.mem_cons_self
    have hseek := (InFile.opened_at content).seekg v.rangeBegin
    rw [Response.partsLoop] at hsend
    simp only [hstarted.connected.writeBodyGood_plain, ok_bind,
      decide_eq_true (Response.partHeader_pos boundary ctLine v), if_true] at hsend
    by_cases hzero : bufSize = 0
    · subst hzero
      obtain ⟨f', buf', hloop⟩ := Response.partLoop_noBuffer hv
        ((r.severalRanges boundary n).started.put (Response.partHeader boundary ctLine v)) hseek (Buffer.zeros 0) v.size
      simp only [hloop, ok_bind, Bool.false_eq_true, if_false, Except.ok.injEq] at hsend
      rw [← hsend] at hanswered
      have hbody := hanswered.body_unique (hbegins.put hstarted.connected _)
      have hlonger := congrArg List.length hbody
      simp only [Response.multipartText, List.flatMap_cons, Response.partText, List.length_append, List.length_nil,
        hv.bytes_eq.2, hsize] at hlonger
      omega
    · rw [Response.partLoop_noRoom hv (by omega : v.size ≤ bufSize) (by omega) _ hseek rfl] at hsend
      cases hsend
  · intro hroom
    exact ⟨_, Response.partsLoop_sends hstarted.connected boundary ctLine hqueue
      (fun v hv => by rw [hone v hv]; exact hroom) (InFile.opened_at content) rfl, hbegins.put hstarted.connected _⟩

end Buffers

/-- **What a served vector says** about the buffer. -/
theorem pass_of_sendRanges {ranges : List FileRange} (hne : ranges ≠ [])
    (hvalid : ∀ range ∈ ranges, range.Valid content.length) (hone : ∀ range ∈ ranges, range.rangeBegin = range.rangeEnd)
    (hr : r.Connected) (hw : r.headersWrited = false) (hchunked : r.isChunked = false) {bufSize : ℕ}
    (hbuf : r.tcpIpBufferSize = .ok bufSize) (boundary mimeType : Bytes) :
    (∃ r', r.sendRanges boundary mimeType content ranges = .ok r' ∧
      r.Answered r' .partialContent (rangesBody boundary (typeLine mimeType) content ranges)) ↔
        (if ranges.length = 1 then 1 else 3) ≤ bufSize := by
  match ranges, hne with
  | [range], _ =>
    exact answered_onlyRange_iff hr hw hchunked hbuf mimeType (hvalid range (List.mem_singleton_self range)).within
  | range :: range' :: ranges, _ =>
    set all := range :: range' :: ranges with hall
    have hqueue : ∀ v ∈ all.map fun range => range.value.withLine content.length, v.Within content.length ∧
        v.size = 1 := by
      intro v hv
      obtain ⟨range, hrange, rfl⟩ := List.mem_map.mp hv
      refine ⟨(hvalid range hrange).within.withLine _, ?_⟩
      show range.rangeEnd - range.rangeBegin + 1 = 1
      rw [hone range hrange, Nat.sub_self]
    have hlen : 2 ≤ (all.map fun range => range.value.withLine content.length).length := by simp [hall]
    have hlength : all.length ≠ 1 := by simp [hall]
    rw [if_neg hlength]
    exact answered_severalRanges_iff hr hw hchunked hbuf boundary (typeLine mimeType) _ hlen
      (fun v hv => (hqueue v hv).1)
      fun v hv => (hqueue v hv).2

/-- **Vectors of ranges**. -/
theorem rangesServed_iff (hfound : files.found (files.absolutePath fileName) = some name)
    (hfile : ∀ bytes, files.content name = some bytes → bytes = content) (hsize : content.length < 2 ^ 64)
    (hr : r.Connected) (hw : r.headersWrited = false) (hchunked : r.isChunked = false) {bufSize : ℕ}
    (hbuf : r.tcpIpBufferSize = .ok bufSize) {ranges : List FileRange} (hne : ranges ≠ []) :
    RangesServed files r fileName name content ranges ↔ RangesPass files name content bufSize ranges := by
  have hwritten : ¬ r.headersWrited = true := by
    rw [hw]
    exact Bool.false_ne_true
  have hopened : files.content name = some content → (∀ range ∈ ranges, range.Valid content.length) → ∀ g,
      r.writeFileRange files g fileName (rangeText (ranges.map FileRange.item)) =
        r.sendRanges files.boundary (files.mimeType name) content ranges := by
    intro hcontent hvalid g
    rw [Response.writeFileRange, if_neg hwritten, check_found hfound, hcontent]
    exact transferRange_ranges hne hvalid hsize files g r name
  constructor
  · rintro ⟨hserves, hthrows⟩
    constructor
    · intro hvalid
      -- the vector does not throw, so no range begins before its end
      have hle : ∀ range ∈ ranges, range.rangeEnd ≤ range.rangeBegin := by
        intro range hrange
        by_contra hlt
        obtain ⟨r', hwrite, -⟩ := hserves hvalid none
        rw [Response.writeFileRanges, if_neg hne, rangesText_none ⟨range, hrange, not_le.mp hlt⟩] at hwrite
        cases hwrite
      have hone : ∀ range ∈ ranges, range.rangeBegin = range.rangeEnd := fun range hrange =>
        le_antisymm (hvalid range hrange).1 (hle range hrange)
      obtain ⟨r', hwrite, hanswered⟩ := hserves hvalid none
      rw [writeFileRanges_eq hne hle] at hwrite
      have hcontent : files.content name = some content := by
        cases hc : files.content name with
        | some bytes => rw [hfile bytes hc]
        | none =>
          have hr' : (r.setStatus .forbidden).Connected := hr
          obtain ⟨r'', hdefault, hforbidden, -⟩ := hr'.answered_writeDefault hw
          rw [Response.writeFileRange, if_neg hwritten, check_found hfound, hc] at hwrite
          simp only [hdefault, ok_bind, Option.some.injEq, Except.ok.injEq] at hwrite
          rw [← hwrite] at hanswered
          have hforbidden' : r.Answered r'' .forbidden (Response.defaultBody .forbidden) := hforbidden
          exact absurd (hforbidden'.status_unique hanswered) (by decide)
      rw [hopened hcontent hvalid] at hwrite
      exact ⟨hone, hcontent, (pass_of_sendRanges hne hvalid hone hr hw hchunked hbuf _ _).mp
        ⟨r', Option.some.inj hwrite, hanswered⟩⟩
    · rintro hreversed
      by_contra hno
      have hle : ∀ range ∈ ranges, range.rangeEnd ≤ range.rangeBegin := fun range hrange =>
        not_lt.mp fun hlt => hno ⟨range, hrange, hlt⟩
      have hnone := hthrows hreversed none
      rw [writeFileRanges_eq hne hle] at hnone
      cases hnone
  · rintro ⟨hpass, hreversed⟩
    constructor
    · intro hvalid g
      obtain ⟨hone, hcontent, hroom⟩ := hpass hvalid
      obtain ⟨r', hsend, hanswered⟩ := (pass_of_sendRanges hne hvalid hone hr hw hchunked hbuf files.boundary
        (files.mimeType name)).mpr hroom
      refine ⟨r', ?_, hanswered⟩
      rw [writeFileRanges_eq hne fun range hrange => (hone range hrange).ge, hopened hcontent hvalid, hsend]
    · intro hback g
      rw [Response.writeFileRanges, if_neg hne, rangesText_none (hreversed hback)]
      rfl

end Served

/-- Two ranges of one byte, through a buffer of three. -/
theorem rangesServed_iff_bytes :
    RangesServed (oneFile (lit "0123456789")) Response.overSmallBuffer (lit "/a") (lit "/a")
    (lit "0123456789") [⟨2, 2, by decide, by decide⟩, ⟨5, 5, by decide, by decide⟩] :=
  (rangesServed_iff rfl (by simp [oneFile]) (by decide) ⟨_, rfl, rfl⟩ rfl (by decide) rfl (by decide)).mpr
    ⟨fun _ => ⟨by decide, rfl, by decide⟩, by decide⟩

/-- The first five of ten bytes: a good range throws. -/
theorem not_rangesServed_first :
    ¬ RangesServed (oneFile (lit "0123456789")) Response.overSmallBuffer (lit "/a") (lit "/a")
    (lit "0123456789") [⟨0, 4, by decide, by decide⟩] := by
  intro h
  obtain ⟨r', hwrite, -⟩ := h.serves (by simp [FileRange.Valid]; decide) none
  have hthrows : Response.overSmallBuffer.writeFileRanges (oneFile (lit "0123456789")) none (lit "/a")
      [⟨0, 4, by decide, by decide⟩] = none := rfl
  rw [hthrows] at hwrite
  cases hwrite

end Gts3.Http
