import Mathlib.Data.List.Flatten
import Gts3.Http.ChunkMachine

/-!
# Chunked bodies that came with the head

A `ChunkedBody` is what a client sends: chunks that declare a size each, a last chunk and a trailer; the extensions of
the size lines are left open.  When the sizes are right, reading gives the data of the chunks, for all extensions and
all read sizes, if and only if no data holds a line end, no size has more than 16 digits and the trailer fits
(`roundTrips_iff`).  A size that is too large is not noticed (`decodes_iff`).
-/

namespace Gts3.Http

open Lib Lib.Search Lib.Cxx Lib.LineMachine Lib.HttpMessage Request

/-! ## What is sent -/

/-- A chunk: hexadecimal digits of a positive size, which need not be right, and data.  A text of the source holds
less than `2 ^ 63` bytes. -/
structure SentChunk where
  digits : Bytes
  data : Bytes
  digits_ne : digits ≠ []
  digits_hex : ∀ c ∈ digits, digitVal c < 16
  size_pos : 0 < numeral 16 digits
  data_ne : data ≠ []
  data_short : data.length < 2 ^ 63

/-- What stands behind the size: nothing, or a text after a semicolon. -/
structure Extension where
  text : Bytes
  semicolon : text = [] ∨ [59] <+: text
  noEnd : find crlf text = none

/-- A body: chunks, the zeros of the last chunk, and the lines of the trailer. -/
structure ChunkedBody where
  chunks : List SentChunk
  zeros : Bytes
  trailer : List Bytes
  zeros_ne : zeros ≠ []
  zeros_eq : ∀ c ∈ zeros, c = 48
  trailer_noEnd : ∀ l ∈ trailer, find crlf l = none
  trailer_colon : ∀ l ∈ trailer, 58 ∈ l

/-- The declared size. -/
def SentChunk.size (c : SentChunk) : ℕ := numeral 16 c.digits

/-- The bytes of a chunk with an extension. -/
def SentChunk.bytes (c : SentChunk) (e : Extension) : Bytes := c.digits ++ e.text ++ crlf ++ (c.data ++ crlf)

/-- The bytes of chunks with their extensions. -/
def chunksText (cs : List (SentChunk × Extension)) : Bytes := cs.flatMap fun c => c.1.bytes c.2

/-- The data of chunks. -/
def sentData (cs : List SentChunk) : Bytes := cs.flatMap SentChunk.data

namespace ChunkedBody

/-- The bytes behind the chunks. -/
def ending (b : ChunkedBody) (e : Extension) : Bytes :=
  b.zeros ++ e.text ++ crlf ++ (b.trailer.flatMap (· ++ crlf) ++ crlf)

/-- The bytes of a body. -/
def text (b : ChunkedBody) (cs : List (SentChunk × Extension)) (e : Extension) : Bytes := chunksText cs ++ b.ending e

/-- The data of a body. -/
def data (b : ChunkedBody) : Bytes := sentData b.chunks

/-- Every size is that of the data. -/
def Matched (b : ChunkedBody) : Prop := ∀ c ∈ b.chunks, c.size = c.data.length

/-- The items of the cookie fields are name and value after percent-decoding. -/
def TrailerFits (b : ChunkedBody) : Prop := ∀ l ∈ b.trailer, CookieItemsFit (decodedItems (l ++ crlf))

/-- What the decoder takes: no line end in the data, no more than 16 digits, and a trailer that fits. -/
structure Plain (b : ChunkedBody) : Prop where
  data_noEnd : ∀ c ∈ b.chunks, find crlf c.data = none
  digits_short : ∀ c ∈ b.chunks, c.digits.length ≤ 16
  zeros_short : b.zeros.length ≤ 16
  trailerFits : b.TrailerFits

end ChunkedBody

/-! ## Reading -/

namespace Request

/-- `read_body` again and again, until an error is reported. -/
def reads (r : Request) : List ℕ → Run (Bytes × Option ErrorCode × Request)
  | [] => .ok ([], none, r)
  | size :: sizes => do
    let (out, error, r) ← r.readBody size
    match error with
    | some e => .ok (out, some e, r)
    | none => do
      let (outs, error, r) ← reads r sizes
      .ok (out ++ outs, error, r)

/-- The chunked body of the request has not been read yet, and all of it came with the head. -/
structure HasChunked (r : Request) (text : Bytes) : Prop where
  status : r.rbStatus = .waitSize
  context : r.rbContext = .string text
  body : r.body = []

/-- **`finish`** leaves what follows the head to the decoder. -/
theorem finished_hasChunked {r : Request} (hversion : r.version = lit "1.1")
    (hlength : r.headers.find? Header.contentLength = none)
    (hchunked : r.headers.find? Header.transferEncoding = some (lit "chunked")) (text : Bytes) :
    (r.finished text).HasChunked text := by
  have hbody : ∀ r' : Request, r'.version = r.version → r'.headers = r.headers →
      r'.withBody text = { r' with body := [], rbStatus := .waitSize, rbContext := .string text } := by
    intro r' hv hh
    simp only [withBody, hh, hlength, hv, hversion, hchunked, if_true]
  simp only [finished]
  rw [hbody { r with keepAlive := finishKeepAlive r, supportGzip := r.gzip } rfl rfl]
  exact ⟨rfl, rfl, rfl⟩

end Request

/-- However the chunks are extended and however much is read at a time: the reads give the data, and the body is
finished once more than the data was asked for. -/
def ChunkedBody.RoundTrips (b : ChunkedBody) : Prop :=
  ∀ (cs : List (SentChunk × Extension)) (e : Extension) (r : Request) (sizes : List ℕ), cs.map Prod.fst = b.chunks →
    r.HasChunked (b.text cs e) → (∀ s ∈ sizes, 0 < s) →
    ∃ r', r.reads sizes = .ok (b.data.take sizes.sum, none, r') ∧
      (b.data.length < sizes.sum → r'.rbStatus = .finished)

/-- Whenever the same data is sent with sizes that are not all right, some reads get an error. -/
def ChunkedBody.ReportsMismatch (b : ChunkedBody) : Prop :=
  ∀ (b' : ChunkedBody) (cs : List (SentChunk × Extension)) (e : Extension) (r : Request),
    b'.chunks.map SentChunk.data = b.chunks.map SentChunk.data → b'.zeros = b.zeros → b'.trailer = b.trailer →
    ¬ b'.Matched → cs.map Prod.fst = b'.chunks → r.HasChunked (b'.text cs e) →
    ∃ sizes out error r', (∀ s ∈ sizes, 0 < s) ∧ r.reads sizes = .ok (out, some error, r')

/-- Decoding undoes encoding, and wrong sizes are reported. -/
def ChunkedBody.Decodes (b : ChunkedBody) : Prop := b.RoundTrips ∧ b.ReportsMismatch

/-! ## The lines of a body -/

theorem find_crlf_sizeLine {digits : Bytes} (hdigits : ∀ c ∈ digits, digitVal c < 16) (e : Extension) :
    find crlf (digits ++ e.text) = none :=
  ((noLineEnd_of_digits (by decide) hdigits).find_crlf_append e.text).mpr e.noEnd

theorem chunkSize_sizeLine {digits : Bytes} (hne : digits ≠ []) (hdigits : ∀ c ∈ digits, digitVal c < 16)
    (e : Extension) :
    chunkSize (digits ++ e.text) = if digits.length ≤ 16 then some (numeral 16 digits) else none := by
  have hcut : withoutExtension (digits ++ e.text) = digits := by
    have hno : (59 : UInt8) ∉ digits := fun h => absurd (hdigits 59 h) (by decide)
    unfold withoutExtension
    rcases e.semicolon with he | ⟨t, ht⟩
    · rw [he, List.append_nil, find_singleton_eq_none.mpr hno]
    · rw [show find [59] (digits ++ e.text) = some digits.length by rw [← ht]; exact find_singleton_append hno t]
      exact List.take_left
  rw [chunkSize, hcut]
  split_ifs with h h' h'
  · omega
  · rfl
  · have hlt : numeral 16 digits < 2 ^ 64 := by
      calc numeral 16 digits < 16 ^ digits.length := numeral_lt hdigits
        _ ≤ 16 ^ 16 := Nat.pow_le_pow_right (by decide) h'
        _ = 2 ^ 64 := by decide
    exact stoull_digits (Nat.le_refl 16) hne hdigits hlt
  · omega

/-- **A size line**, when one is expected. -/
theorem drain_sizeLine {l : ChunkLoop} (hl : l.status = .waitSize) {digits : Bytes} (hne : digits ≠ [])
    (hdigits : ∀ c ∈ digits, digitVal c < 16) (e : Extension) (rest : Bytes) :
    drain chunkMachine l (digits ++ e.text ++ crlf ++ rest) =
      if digits.length ≤ 16 then
        drain chunkMachine
          { l with size := numeral 16 digits, status := if numeral 16 digits = 0 then .waitHeaders else .waitContent }
          rest
      else .done l true rest := by
  rw [drain_chunkLine l (find_crlf_sizeLine hdigits e), chunkLine, hl]
  rw [chunkSize_sizeLine hne hdigits e]
  by_cases h : digits.length ≤ 16
  · simp only [if_pos h]
  · simp only [if_neg h]

/-- **A chunk without line ends**, which declares at least the size of its data. -/
theorem drain_chunk {l : ChunkLoop} (hl : l.status = .waitSize) {c : SentChunk} (hdata : find crlf c.data = none)
    (hsize : c.data.length ≤ c.size) (e : Extension) (rest : Bytes) :
    drain chunkMachine l (c.bytes e ++ rest) =
      if c.digits.length ≤ 16 then drain chunkMachine { l with size := c.size, body := l.body ++ c.data } rest
      else .done l true (c.data ++ crlf ++ rest) := by
  have hpos : c.size ≠ 0 := Nat.pos_iff_ne_zero.mp c.size_pos
  rw [SentChunk.bytes, List.append_assoc, drain_sizeLine hl c.digits_ne c.digits_hex,
    show numeral 16 c.digits = c.size from rfl, if_neg hpos]
  split_ifs with h
  · rw [drain_chunkLine _ hdata, chunkLine]
    simp only [Nat.max_eq_left hsize, if_neg (Nat.not_lt.mpr hsize), ← hl]
  · rfl

/-- **Chunks without line ends**, which declare at least the sizes of their data. -/
theorem drain_chunks {cs : List (SentChunk × Extension)} (hdata : ∀ c ∈ cs, find crlf c.1.data = none)
    (hsize : ∀ c ∈ cs, c.1.data.length ≤ c.1.size) {l : ChunkLoop} (hl : l.status = .waitSize) (rest : Bytes) :
    ((∀ c ∈ cs, c.1.digits.length ≤ 16) ∧ ∃ size, drain chunkMachine l (chunksText cs ++ rest) =
      drain chunkMachine { l with size, body := l.body ++ sentData (cs.map Prod.fst) } rest) ∨
    (¬ (∀ c ∈ cs, c.1.digits.length ≤ 16) ∧
      ∃ l' abuf, drain chunkMachine l (chunksText cs ++ rest) = .done l' true abuf) := by
  induction cs generalizing l with
  | nil =>
    refine Or.inl ⟨by simp, l.size, ?_⟩
    simp [chunksText, sentData]
  | cons c cs ih =>
    have hstep := drain_chunk hl (hdata c (by simp)) (hsize c (by simp)) c.2 (chunksText cs ++ rest)
    rw [show chunksText (c :: cs) = c.1.bytes c.2 ++ chunksText cs from List.flatMap_cons, List.append_assoc, hstep]
    by_cases h : c.1.digits.length ≤ 16
    · rw [if_pos h]
      rcases ih (fun c' hc' => hdata c' (by simp [hc'])) (fun c' hc' => hsize c' (by simp [hc']))
        (l := { l with size := c.1.size, body := l.body ++ c.1.data }) hl with
        ⟨hall, size, hrun⟩ | ⟨hnot, l', abuf, hrun⟩
      · refine Or.inl ⟨by simpa using ⟨h, fun a b hab => hall (a, b) hab⟩, size, ?_⟩
        rw [hrun]
        simp [sentData]
      · exact Or.inr ⟨fun hall => hnot fun c' hc' => hall c' (by simp [hc']), l', abuf, hrun⟩
    · rw [if_neg h]
      exact Or.inr ⟨fun hall => h (hall c (by simp)), _, _, rfl⟩

/-- **The lines of a trailer.** -/
theorem drain_trailer {ls : List Bytes} (hnoEnd : ∀ l ∈ ls, find crlf l = none) (hcolon : ∀ l ∈ ls, 58 ∈ l)
    {l : ChunkLoop} (hl : l.status = .waitHeaders) (rest : Bytes) :
    ((∀ line ∈ ls, CookieItemsFit (decodedItems (line ++ crlf))) ∧ ∃ headers cookies,
      drain chunkMachine l (ls.flatMap (· ++ crlf) ++ rest) = drain chunkMachine { l with headers, cookies } rest) ∨
    (¬ (∀ line ∈ ls, CookieItemsFit (decodedItems (line ++ crlf))) ∧ ∃ l' abuf,
      drain chunkMachine l (ls.flatMap (· ++ crlf) ++ rest) = .done l' true abuf) := by
  induction ls generalizing l with
  | nil => exact Or.inl ⟨by simp, l.headers, l.cookies, by simp⟩
  | cons line ls ih =>
    have hc : 58 ∈ line := hcolon line (by simp)
    have hne : line ≠ [] := fun h => by simp [h] at hc
    have hgood : (headerLine l.headers l.cookies (line ++ crlf)).2.2 = true ↔
        CookieItemsFit (decodedItems (line ++ crlf)) :=
      headerLine_good { Request.new with headers := l.headers, cookies := l.cookies } (line ++ crlf) (by simp [hc])
    rw [List.flatMap_cons, List.append_assoc, drain_chunkLine l (hnoEnd line (by simp)), chunkLine, hl]
    simp only [if_neg hne]
    by_cases h : CookieItemsFit (decodedItems (line ++ crlf))
    · simp only [if_pos (hgood.mpr h)]
      rcases ih (fun x hx => hnoEnd x (by simp [hx])) (fun x hx => hcolon x (by simp [hx]))
        (l := { l with
          status := .waitHeaders
          headers := (headerLine l.headers l.cookies (line ++ crlf)).1
          cookies := (headerLine l.headers l.cookies (line ++ crlf)).2.1 }) rfl with
        ⟨hall, headers, cookies, hrun⟩ | ⟨hnot, l', abuf, hrun⟩
      · exact Or.inl ⟨by simpa using ⟨h, hall⟩, headers, cookies, hrun⟩
      · exact Or.inr ⟨fun hall => hnot fun x hx => hall x (by simp [hx]), l', abuf, hrun⟩
    · simp only [if_neg (mt hgood.mp h)]
      exact Or.inr ⟨fun hall => h (hall line (by simp)), _, _, rfl⟩

namespace ChunkedBody

/-- The loop in front of a body. -/
def start (r : Request) : ChunkLoop := ⟨.waitSize, 0, [], r.headers, r.cookies⟩

theorem zeros_hex (b : ChunkedBody) : ∀ c ∈ b.zeros, digitVal c < 16 := fun c hc => by
  rw [b.zeros_eq c hc]
  decide

theorem numeral_zeros (b : ChunkedBody) : numeral 16 b.zeros = 0 := by
  rw [List.eq_replicate_of_mem b.zeros_eq]
  induction b.zeros.length with
  | zero => rfl
  | succ n ih =>
    rw [List.replicate_succ', numeral_append, ih]
    rfl

/-- **Behind the chunks**: the last chunk, the trailer and the blank line. -/
theorem drain_ending (b : ChunkedBody) (e : Extension) {l : ChunkLoop} (hl : l.status = .waitSize) :
    (b.zeros.length ≤ 16 ∧ b.TrailerFits ∧ ∃ l', drain chunkMachine l (b.ending e) = .done l' false [] ∧
      l'.status = .chunkedEnd ∧ l'.body = l.body) ∨
    (¬ (b.zeros.length ≤ 16 ∧ b.TrailerFits) ∧ ∃ l' abuf, drain chunkMachine l (b.ending e) = .done l' true abuf) := by
  rw [ending, drain_sizeLine hl b.zeros_ne b.zeros_hex, b.numeral_zeros, if_pos rfl]
  split_ifs with h
  · rcases drain_trailer b.trailer_noEnd b.trailer_colon
      (l := { l with size := 0, status := .waitHeaders }) rfl crlf with
      ⟨hfit, headers, cookies, hrun⟩ | ⟨hnot, l', abuf, hrun⟩
    · refine Or.inl ⟨h, hfit, { l with size := 0, status := .chunkedEnd, headers, cookies }, ?_, rfl, rfl⟩
      rw [hrun, show crlf = [] ++ crlf ++ [] by rfl, drain_chunkLine _ rfl]
      rfl
    · exact Or.inr ⟨fun hall => hnot hall.2, l', abuf, hrun⟩
  · exact Or.inr ⟨fun hall => h hall.1, _, _, rfl⟩

variable {b : ChunkedBody} {cs : List (SentChunk × Extension)}

/-- **A body without line ends in its data**, in which no size is too small: it is decoded to its data when it is
plain, and fails when it is not. -/
theorem drain_text (hcs : cs.map Prod.fst = b.chunks) (hdata : ∀ c ∈ b.chunks, find crlf c.data = none)
    (hsize : ∀ c ∈ b.chunks, c.data.length ≤ c.size) (e : Extension) (r : Request) :
    (b.Plain ∧ ∃ l', drain chunkMachine (start r) (b.text cs e) = .done l' false [] ∧ l'.status = .chunkedEnd ∧
      l'.body = b.data) ∨
    (¬ b.Plain ∧ ∃ l' abuf, drain chunkMachine (start r) (b.text cs e) = .done l' true abuf) := by
  have hmem : ∀ {P : SentChunk → Prop}, (∀ c ∈ cs, P c.1) ↔ ∀ c ∈ b.chunks, P c := by
    intro P
    rw [← hcs, List.forall_mem_map]
  rcases drain_chunks (hmem.mpr hdata) (hmem.mpr hsize) (l := start r) rfl (b.ending e)
    with ⟨hshort, size, hrun⟩ | ⟨hnot, l', abuf, hrun⟩
  · rw [text, hrun]
    rcases drain_ending b e (l := { start r with size, body := (start r).body ++ sentData (cs.map Prod.fst) }) rfl
      with ⟨hzeros, hfit, l', hend, hstatus, hbody⟩ | ⟨hnot, l', abuf, hend⟩
    · refine Or.inl ⟨⟨hdata, hmem.mp hshort, hzeros, hfit⟩, l', hend, hstatus, ?_⟩
      rw [hbody, hcs]
      rfl
    · exact Or.inr ⟨fun hp => hnot ⟨hp.zeros_short, hp.trailerFits⟩, l', abuf, hend⟩
  · exact Or.inr ⟨fun hp => hnot (hmem.mpr hp.digits_short), l', abuf, hrun⟩

end ChunkedBody

/-! ## What the reads give -/

namespace Request

/-- The request after decoded bytes were taken from it. -/
def afterRead (r : Request) (size : ℕ) : Request :=
  if size ≤ r.body.length then { r with body := r.body.drop size }
  else { r with body := [], rbStatus := if r.rbStatus = .chunkedEnd then .finished else r.rbStatus }

/-- The request with what the loop of `read_body_chunked_mode` left. -/
def withLoop (r : Request) (l : ChunkLoop) (abuf : Bytes) : Request :=
  { r with rbStatus := l.status, body := l.body, headers := l.headers, cookies := l.cookies, rbContext := .string abuf }

/-- The end of `read_body_chunked_mode` copies the decoded bytes to the front of the buffer. -/
theorem endChunkedMode_eq (r : Request) {buf : Buffer} {size : ℕ} (hbuf : min size r.body.length ≤ buf.size)
    (count : ℕ) (error : Option ErrorCode) :
    ∃ buf', endChunkedMode r buf size count error =
        .ok ⟨r.afterRead size, buf', error, count + min size r.body.length⟩ ∧
      buf'.size = buf.size ∧ buf'.front (min size r.body.length) = r.body.take size := by
  unfold endChunkedMode afterRead
  split_ifs with h
  all_goals
    obtain ⟨buf', hcopy, hsize, hfront⟩ := Buffer.memcpy_ok
      (show 0 + (r.body.take size).length ≤ buf.size by rw [List.length_take]; omega)
    rw [Nat.zero_add, List.length_take, Buffer.front_zero, List.nil_append] at hfront
  · refine ⟨buf', ?_, hsize, hfront⟩
    rw [hcopy, Nat.min_eq_left h]
    rfl
  all_goals
    have hle : r.body.length ≤ size := by omega
    rw [List.take_of_length_le hle] at hcopy
    refine ⟨buf', ?_, hsize, hfront⟩
    rw [hcopy, Nat.min_eq_right hle]
    rfl

theorem readBody_chunkedEnd {r : Request} (h : r.rbStatus = .chunkedEnd) {size : ℕ} (hpos : 0 < size) :
    r.readBody size = .ok (r.body.take size, none, r.afterRead size) := by
  have hne : size ≠ 0 := by omega
  unfold readBody
  rw [if_neg (by rw [h]; decide), if_neg hne]
  simp only [ok_bind]
  rw [if_neg (by rw [h]; decide)]
  unfold readBodyChunkedMode afterRead
  obtain ⟨buf', hcopy, -, hfront⟩ := Buffer.memcpy_ok
    (show 0 + (r.body.take size).length ≤ (Buffer.zeros size).size by
      rw [List.length_take]; simp only [Buffer.zeros]; omega)
  rw [Nat.zero_add, List.length_take, Buffer.front_zero, List.nil_append] at hfront
  by_cases hle : size ≤ r.body.length
  · rw [Nat.min_eq_left hle] at hfront
    simp only [if_pos hle, hcopy, ok_bind, hfront]
  · have hlt : r.body.length ≤ size := by omega
    rw [Nat.min_eq_right hlt] at hfront
    rw [List.take_of_length_le hlt] at hcopy
    simp only [if_neg hle, hcopy, ok_bind, h, if_true, hfront]

/-- What the decoder gives for the bytes it holds. -/
theorem decodeChunked_eq (r : Request) {l : ChunkLoop} {abuf abuf' : Bytes} {failed : Bool}
    (hrun : loopResult (drain chunkMachine ⟨r.rbStatus, 0, r.body, r.headers, r.cookies⟩ abuf) = (l, abuf', failed))
    (buf : Buffer) (size count : ℕ) (error : Option ErrorCode) :
    decodeChunked r abuf buf size count error =
      if failed then .ok ⟨{ r.withLoop l abuf' with rbStatus := .finished }, buf, some .wrongProtocolType, 0⟩
      else endChunkedMode (r.withLoop l abuf') buf size count error := by
  rw [decodeChunked, readChunkedLoop_eq _ _ _ (Nat.lt_succ_self _), hrun]
  rfl

/-- **The first read** decodes all that came with the head. -/
theorem HasChunked.readBody {r : Request} {text : Bytes} (h : r.HasChunked text) (hne : text ≠ []) {l : ChunkLoop}
    {abuf : Bytes} {failed : Bool}
    (hrun : loopResult (drain chunkMachine (ChunkedBody.start r) text) = (l, abuf, failed)) {size : ℕ}
    (hpos : 0 < size) :
    Request.readBody r size =
      if failed then .ok ([], some .wrongProtocolType, { r.withLoop l abuf with rbStatus := .finished })
      else .ok (l.body.take size, none, (r.withLoop l abuf).afterRead size) := by
  have hsize : size ≠ 0 := by omega
  have hmode : readBodyChunkedMode r (Buffer.zeros size) size =
      decodeChunked r text (Buffer.zeros size) size 0 none := by
    obtain ⟨hstatus, hcontext, hbody⟩ := h
    cases r
    simp only at hstatus hcontext hbody
    subst hstatus hcontext hbody
    unfold readBodyChunkedMode
    rw [if_neg (by rw [List.length_nil]; omega)]
    simp only [Buffer.memcpy_nil, ok_bind, List.length_nil, Nat.sub_zero, reduceCtorEq, if_false, if_neg hne]
  have hrun' : loopResult (drain chunkMachine ⟨r.rbStatus, 0, r.body, r.headers, r.cookies⟩ text) =
      (l, abuf, failed) := by
    rw [h.status, h.body]
    exact hrun
  unfold Request.readBody
  rw [if_neg (by rw [h.status]; decide), if_neg hsize]
  simp only [ok_bind]
  rw [if_neg (by rw [h.status]; decide), hmode, decodeChunked_eq r hrun']
  cases failed with
  | true => simp
  | false =>
    have hbuf : min size (r.withLoop l abuf).body.length ≤ (Buffer.zeros size).size := Nat.min_le_left _ _
    obtain ⟨buf', hend, -, hfront⟩ := endChunkedMode_eq (r.withLoop l abuf) hbuf 0 none
    simp only [Bool.false_eq_true, if_false, hend, ok_bind, Nat.zero_add, hfront]
    rfl

theorem reads_finished {r : Request} (h : r.rbStatus = .finished) (sizes : List ℕ) :
    r.reads sizes = .ok ([], none, r) := by
  induction sizes with
  | nil => rfl
  | cons size sizes ih =>
    rw [reads, Request.readBody, if_pos h]
    simp only [ok_bind, ih]
    rfl

/-- A request that gave all its bytes is finished, unless it stopped just in front of the end. -/
theorem afterRead_cases {r : Request} (h : r.rbStatus = .chunkedEnd) (size : ℕ) :
    (size ≤ r.body.length ∧ (r.afterRead size).rbStatus = .chunkedEnd ∧ (r.afterRead size).body = r.body.drop size) ∨
    (r.body.length < size ∧ (r.afterRead size).rbStatus = .finished) := by
  unfold afterRead
  split_ifs with hle
  · exact Or.inl ⟨hle, h, rfl⟩
  · exact Or.inr ⟨Nat.lt_of_not_le hle, rfl⟩

/-- **Reads behind the end of the last chunk** give the decoded bytes. -/
theorem reads_chunkedEnd {r : Request} (h : r.rbStatus = .chunkedEnd) {sizes : List ℕ} (hpos : ∀ s ∈ sizes, 0 < s) :
    ∃ r', r.reads sizes = .ok (r.body.take sizes.sum, none, r') ∧
      (r.body.length < sizes.sum → r'.rbStatus = .finished) := by
  induction sizes generalizing r with
  | nil => exact ⟨r, by simp [reads], by simp⟩
  | cons size sizes ih =>
    simp only [reads, readBody_chunkedEnd h (hpos size (by simp)), ok_bind, List.sum_cons]
    rcases afterRead_cases h size with ⟨hle, hstatus, hbody⟩ | ⟨hlt, hstatus⟩
    · obtain ⟨r', hreads, hfin⟩ := ih hstatus (fun s hs => hpos s (by simp [hs]))
      rw [hbody] at hreads hfin
      refine ⟨r', ?_, fun hsum => hfin (by rw [List.length_drop]; omega)⟩
      simp only [hreads, ok_bind]
      rw [← List.take_add]
    · refine ⟨r.afterRead size, ?_, fun _ => hstatus⟩
      simp only [reads_finished hstatus, ok_bind, List.append_nil]
      rw [List.take_of_length_le hlt.le, List.take_of_length_le (by omega)]

end Request

/-! ## Which lines the decoder takes for data -/

/-- The state behind a line. -/
def Request.ChunkStep.loop : ChunkStep → ChunkLoop
  | .next l => l
  | .stop l => l
  | .reset l => l

/-- A line is taken for data as a whole, or not at all. -/
theorem chunkLine_body (l : ChunkLoop) (line : Bytes) :
    (chunkLine l line).loop.body = if l.status = .waitContent then l.body ++ line else l.body := by
  unfold chunkLine
  cases l.status with
  | waitSize =>
    simp only
    cases chunkSize line <;> rfl
  | waitHeaders =>
    simp only [reduceCtorEq, if_false]
    split_ifs <;> rfl
  | length => rfl
  | waitContent => rfl
  | chunkedEnd => rfl
  | finished => rfl

/-- The decoder takes no more lines for data. -/
def Closed (l : ChunkLoop) : Prop := l.status ≠ .waitSize ∧ l.status ≠ .waitContent

theorem chunkLine_closed {l : ChunkLoop} (h : Closed l) (line : Bytes) :
    Closed (chunkLine l line).loop ∧ (chunkLine l line).loop.body = l.body := by
  refine ⟨?_, by rw [chunkLine_body, if_neg h.2]⟩
  obtain ⟨hsize, hcontent⟩ := h
  unfold chunkLine Closed
  cases hs : l.status with
  | waitSize => exact absurd hs hsize
  | waitContent => exact absurd hs hcontent
  | waitHeaders =>
    simp only
    split_ifs <;> simp [ChunkStep.loop]
  | length => simp [ChunkStep.loop, hs]
  | chunkedEnd => simp [ChunkStep.loop, hs]
  | finished => simp [ChunkStep.loop, hs]

/-- What the machine has decoded. -/
def decoded (o : Outcome UInt8 ChunkLoop Bool) : Bytes := (loopResult o).1.body

theorem drain_line_cases (l : ChunkLoop) {line : Bytes} (hline : find crlf line = none) (rest : Bytes) :
    drain chunkMachine l (line ++ crlf ++ rest) = drain chunkMachine (chunkLine l line).loop rest ∨
      ∃ failed abuf, drain chunkMachine l (line ++ crlf ++ rest) = .done (chunkLine l line).loop failed abuf := by
  rw [drain_chunkLine l hline]
  cases chunkLine l line with
  | next l' => exact Or.inl rfl
  | stop l' => exact Or.inr ⟨false, rest, rfl⟩
  | reset l' => exact Or.inr ⟨true, rest, rfl⟩

/-- **A closed decoder** keeps what it has. -/
theorem decoded_closed {l : ChunkLoop} (h : Closed l) (abuf : Bytes) :
    decoded (drain chunkMachine l abuf) = l.body := by
  have hinv : (drain chunkMachine l abuf).Holds (fun l' => Closed l' ∧ l'.body = l.body) fun _ => True := by
    refine drain_inv (fun l₁ line h₁ => ?_) (fun l₁ h₁ => ⟨h₁, fun _ _ => trivial⟩) ⟨h, rfl⟩ abuf
    obtain ⟨hclosed, hbody⟩ := chunkLine_closed h₁.1 (line.take (line.length - 2))
    rw [chunkMachine]
    dsimp only
    cases hv : chunkLine l₁ (line.take (line.length - 2)) with
    | next l' =>
      rw [hv] at hclosed hbody
      exact ⟨hclosed, hbody.trans h₁.2⟩
    | stop l' | reset l' =>
      rw [hv] at hclosed hbody
      exact ⟨⟨hclosed, hbody.trans h₁.2⟩, trivial⟩
  cases hrun : drain chunkMachine l abuf with
  | more l' abuf' =>
    rw [hrun] at hinv
    exact hinv.2
  | done l' failed abuf' =>
    rw [hrun] at hinv
    exact hinv.1.2

/-- **Lines are selected.**  What the decoder adds behind some lines are some of these lines, in their order. -/
theorem drain_selection {ls : List Bytes} (hls : ∀ line ∈ ls, find crlf line = none) (l : ChunkLoop) (rest : Bytes) :
    ∃ (l' : ChunkLoop) (taken : List Bytes), taken.Sublist ls ∧ l'.body = l.body ++ taken.flatten ∧
      (drain chunkMachine l (ls.flatMap (· ++ crlf) ++ rest) = drain chunkMachine l' rest ∨
        decoded (drain chunkMachine l (ls.flatMap (· ++ crlf) ++ rest)) = l'.body) := by
  induction ls generalizing l with
  | nil => exact ⟨l, [], List.Sublist.refl [], by simp, Or.inl (by simp)⟩
  | cons line ls ih =>
    have hbody := chunkLine_body l line
    -- the line itself, when it is taken
    obtain ⟨own, hown, hloop⟩ : ∃ own : List Bytes, own.Sublist [line] ∧
        (chunkLine l line).loop.body = l.body ++ own.flatten := by
      by_cases h : l.status = .waitContent
      · exact ⟨[line], List.Sublist.refl _, by rw [hbody, if_pos h, List.flatten_singleton]⟩
      · exact ⟨[], List.nil_sublist _, by rw [hbody, if_neg h, List.flatten_nil, List.append_nil]⟩
    rw [List.flatMap_cons, List.append_assoc]
    rcases drain_line_cases l (hls line (by simp)) (ls.flatMap (· ++ crlf) ++ rest) with hrun | ⟨failed, abuf, hrun⟩
    · obtain ⟨l', taken, hsub, hl', hcases⟩ := ih (fun x hx => hls x (by simp [hx])) (chunkLine l line).loop
      refine ⟨l', own ++ taken, by simpa using hown.append hsub, ?_, by rw [hrun]; exact hcases⟩
      rw [hl', hloop, List.flatten_append, List.append_assoc]
    · exact ⟨(chunkLine l line).loop, own, by simpa using hown.append (List.nil_sublist ls), hloop,
        Or.inr (by rw [hrun]; rfl)⟩

/-! ## Size lines that are longer than the data -/

theorem IsLines.length {text : Bytes} {ls : List Bytes} (h : IsLines text ls) :
    text.length = ls.flatten.length + 2 * ls.length := by
  rw [h.1]
  clear h
  induction ls with
  | nil => rfl
  | cons line ls ih =>
    have hline : (line ++ crlf).length = line.length + 2 := by simp [crlf]
    rw [List.flatMap_cons, List.length_append, ih, hline, List.flatten_cons, List.length_append, List.length_cons]
    omega

/-- The lines of at most `n` bytes. -/
def shortLines (n : ℕ) (ls : List Bytes) : List Bytes := ls.filter (fun line => line.length ≤ n)

/-- **The lines of chunks** with long size lines: the short ones hold the data, but not its line ends. -/
theorem exists_chunkLines {n : ℕ} {cs : List (SentChunk × Extension)}
    (hlong : ∀ c ∈ cs, n < (c.1.digits ++ c.2.text).length) :
    ∃ ls, IsLines (chunksText cs) ls ∧ (shortLines n ls).flatten.length ≤ (sentData (cs.map Prod.fst)).length ∧
      ((shortLines n ls).flatten.length = (sentData (cs.map Prod.fst)).length →
        ∀ c ∈ cs, find crlf c.1.data = none) := by
  induction cs with
  | nil => exact ⟨[], ⟨rfl, by simp⟩, by simp [shortLines], by simp⟩
  | cons c cs ih =>
    obtain ⟨ls, hls, hle, hall⟩ := ih (fun x hx => hlong x (by simp [hx]))
    obtain ⟨ms, hms, hpos, hone⟩ := exists_lines c.1.data
    have hdata : c.1.data.length + 2 = ms.flatten.length + 2 * ms.length := by
      rw [← IsLines.length hms, List.length_append]
      rfl
    have hshort : (shortLines n ms).flatten.length ≤ ms.flatten.length :=
      (List.filter_sublist (l := ms)).flatten.length_le
    have hsize : IsLines (c.1.digits ++ c.2.text ++ crlf) [c.1.digits ++ c.2.text] :=
      ⟨by simp, by simpa using find_crlf_sizeLine c.1.digits_hex c.2⟩
    have hlong' : ¬ (c.1.digits ++ c.2.text).length ≤ n := Nat.not_le.mpr (hlong c (by simp))
    have hlines : shortLines n ([c.1.digits ++ c.2.text] ++ ms ++ ls) = shortLines n ms ++ shortLines n ls := by
      simp only [shortLines, List.filter_append, List.filter_singleton, decide_eq_false hlong', cond_false,
        List.nil_append]
    have hlen : (sentData ((c :: cs).map Prod.fst)).length =
        c.1.data.length + (sentData (cs.map Prod.fst)).length := by
      simp [sentData]
    refine ⟨[c.1.digits ++ c.2.text] ++ ms ++ ls, (hsize.append hms).append hls, ?_, fun heq => ?_⟩
    · rw [hlines, hlen, List.flatten_append, List.length_append]
      omega
    · rw [hlines, hlen, List.flatten_append, List.length_append] at heq
      have hc := hone.mp (by omega)
      have hcs := hall (by omega)
      intro x hx
      rcases List.mem_cons.mp hx with rfl | hx
      · exact hc
      · exact hcs x hx

namespace ChunkedBody

/-- **Behind the chunks** a long line for the last chunk adds more than it may, or nothing is added. -/
theorem decoded_ending (b : ChunkedBody) {e : Extension} {n : ℕ} (hlong : n < (b.zeros ++ e.text).length)
    (l : ChunkLoop) :
    decoded (drain chunkMachine l (b.ending e)) = l.body ∨
      n < (decoded (drain chunkMachine l (b.ending e))).length := by
  have hls : ∀ line ∈ b.trailer ++ [[]], find crlf line = none := by
    intro line hline
    rcases List.mem_append.mp hline with hline | hline
    · exact b.trailer_noEnd line hline
    · rw [List.mem_singleton.mp hline]
      rfl
  have hzeros : find crlf (b.zeros ++ e.text) = none := find_crlf_sizeLine b.zeros_hex e
  have hend : b.ending e = b.zeros ++ e.text ++ crlf ++ (b.trailer ++ [[]]).flatMap (· ++ crlf) := by simp [ending]
  rw [hend]
  by_cases hsize : l.status = .waitSize
  · -- the size zero leads to the trailer
    left
    rw [drain_sizeLine hsize b.zeros_ne b.zeros_hex, b.numeral_zeros, if_pos rfl]
    split_ifs with h
    · exact decoded_closed ⟨by simp, by simp⟩ _
    · rfl
  by_cases hcontent : l.status = .waitContent
  · -- the line is taken for data
    right
    have hbody := chunkLine_body l (b.zeros ++ e.text)
    rw [if_pos hcontent] at hbody
    have hnext : ∃ l', chunkLine l (b.zeros ++ e.text) = .next l' := by
      rw [chunkLine, hcontent]
      exact ⟨_, rfl⟩
    obtain ⟨l₁, hl₁⟩ := hnext
    obtain ⟨l', taken, -, hl', hcases⟩ := drain_selection hls l₁ []
    have hdecoded : decoded (drain chunkMachine l₁ ((b.trailer ++ [[]]).flatMap (· ++ crlf))) = l'.body := by
      rw [List.append_nil] at hcases
      rcases hcases with h | h
      · rw [h, drain_short rfl (by decide)]
        rfl
      · exact h
    rw [drain_chunkLine l hzeros, hl₁]
    simp only [hl₁, ChunkStep.loop] at hbody
    simp only [hdecoded, hl', hbody, List.length_append] at hlong ⊢
    omega
  · left
    exact decoded_closed ⟨hsize, hcontent⟩ _

/-! ## When the round trip holds -/

theorem text_ne_nil (b : ChunkedBody) (cs : List (SentChunk × Extension)) (e : Extension) : b.text cs e ≠ [] := by
  simp [text, ending, crlf]

variable {b : ChunkedBody} {cs : List (SentChunk × Extension)}

/-- **The reads of a plain body** give its data, also when a size is too large. -/
theorem Plain.reads (hp : b.Plain) (hsize : ∀ c ∈ b.chunks, c.data.length ≤ c.size) (hcs : cs.map Prod.fst = b.chunks)
    {e : Extension} {r : Request} (hr : r.HasChunked (b.text cs e)) {sizes : List ℕ} (hpos : ∀ s ∈ sizes, 0 < s) :
    ∃ r', r.reads sizes = .ok (b.data.take sizes.sum, none, r') ∧
      (b.data.length < sizes.sum → r'.rbStatus = .finished) := by
  obtain ⟨-, l, hrun, hstatus, hbody⟩ := (drain_text hcs hp.data_noEnd hsize e r).resolve_right fun h => h.1 hp
  have hres : loopResult (drain chunkMachine (start r) (b.text cs e)) = (l, [], false) := by rw [hrun]; rfl
  have hend : (r.withLoop l []).rbStatus = .chunkedEnd := hstatus
  cases sizes with
  | nil => exact ⟨r, by simp [Request.reads], by simp⟩
  | cons size sizes =>
    have hread := hr.readBody (b.text_ne_nil cs e) hres (hpos size (by simp))
    -- the first read leaves what any later read would have left
    have hsame : r.reads (size :: sizes) = (r.withLoop l []).reads (size :: sizes) := by
      simp only [Request.reads, hread, readBody_chunkedEnd hend (hpos size (by simp)), Bool.false_eq_true, if_false]
      rfl
    rw [hsame, ← hbody]
    exact reads_chunkedEnd hend hpos

theorem Matched.size_le (hm : b.Matched) : ∀ c ∈ b.chunks, c.data.length ≤ c.size := fun c hc => (hm c hc).ge

/-- **A round trip** says what the machine does with every encoding. -/
theorem RoundTrips.decoded_eq (h : b.RoundTrips) (hcs : cs.map Prod.fst = b.chunks) (e : Extension) (r : Request) :
    ∃ l abuf, loopResult (drain chunkMachine (start r) (b.text cs e)) = (l, abuf, false) ∧ l.body = b.data := by
  rcases hres : loopResult (drain chunkMachine (start r) (b.text cs e)) with ⟨l, abuf, failed⟩
  have hr : Request.HasChunked { r with rbStatus := .waitSize, rbContext := .string (b.text cs e), body := [] }
      (b.text cs e) := ⟨rfl, rfl, rfl⟩
  have hpos : 0 < max l.body.length b.data.length + 1 := Nat.succ_pos _
  have hread := hr.readBody (b.text_ne_nil cs e) hres hpos
  obtain ⟨r', hreads, -⟩ := h cs e _ [max l.body.length b.data.length + 1] hcs hr (by simp)
  rw [Request.reads, hread] at hreads
  cases failed with
  | true => simp at hreads
  | false =>
    refine ⟨l, abuf, rfl, ?_⟩
    simp only [Bool.false_eq_true, if_false, ok_bind, Request.reads, List.append_nil, Except.ok.injEq, Prod.mk.injEq,
      List.sum_singleton] at hreads
    rw [List.take_of_length_le (by omega), List.take_of_length_le (by omega)] at hreads
    exact hreads.1

/-- An extension of more than `n` bytes. -/
def longExtension (n : ℕ) : Extension where
  text := 59 :: List.replicate n 97
  semicolon := Or.inr ⟨List.replicate n 97, rfl⟩
  noEnd := by
    apply NoLineEnd.find_crlf
    intro c hc
    rcases List.mem_cons.mp hc with rfl | hc
    · decide
    · rw [List.eq_of_mem_replicate hc]
      decide

/-- **A body with a line end in its data** is not decoded to its data, when the size lines are longer than that. -/
theorem RoundTrips.data_noEnd (h : b.RoundTrips) : ∀ c ∈ b.chunks, find crlf c.data = none := by
  set n := b.data.length with hn
  set cs := b.chunks.map fun c => (c, longExtension n) with hcs
  have hfst : cs.map Prod.fst = b.chunks := by
    rw [hcs, List.map_map]
    exact List.map_id _
  have hlong : ∀ digits : Bytes, n < (digits ++ (longExtension n).text).length := fun digits => by
    simp only [longExtension, List.length_append, List.length_cons, List.length_replicate]
    omega
  have hlongs : ∀ c ∈ cs, n < (c.1.digits ++ c.2.text).length := fun c hc => by
    obtain ⟨c', -, rfl⟩ := List.mem_map.mp hc
    exact hlong c'.digits
  obtain ⟨ls, hls, hle, hall⟩ := exists_chunkLines hlongs
  rw [hfst] at hle hall
  obtain ⟨l, abuf, hres, hbody⟩ := h.decoded_eq hfst (longExtension n) Request.new
  have hdecoded : decoded (drain chunkMachine (start Request.new) (b.text cs (longExtension n))) = b.data := by
    rw [decoded, hres]
    exact hbody
  rw [text, hls.1] at hdecoded
  obtain ⟨l', taken, hsub, hl', hcases⟩ := drain_selection hls.2 (start Request.new) (b.ending (longExtension n))
  -- the lines that are taken make up the data
  have htaken : taken.flatten = b.data := by
    rw [show taken.flatten = l'.body from hl'.symm]
    rcases hcases with hrun | hrun
    · rw [hrun] at hdecoded
      rcases b.decoded_ending (hlong b.zeros) l' with hsame | hmore
      · rw [← hsame, hdecoded]
      · rw [hdecoded] at hmore
        omega
    · rw [← hrun, hdecoded]
  -- so none of them is long
  have hshort : taken = shortLines n taken := by
    rw [shortLines, List.filter_eq_self.mpr]
    intro line hline
    have := (List.sublist_flatten_of_mem hline).length_le
    rw [htaken] at this
    simpa using this
  have hge : n ≤ (shortLines n ls).flatten.length := by
    have hsum : (shortLines n taken).flatten.length = n := by rw [← hshort, htaken]
    calc n = (shortLines n taken).flatten.length := hsum.symm
      _ ≤ (shortLines n ls).flatten.length := (hsub.filter _).flatten.length_le
  have hfits := hall (le_antisymm hle hge)
  intro c hc
  exact hfits (c, longExtension n) (by rw [hcs]; exact List.mem_map_of_mem hc)

/-- **Round trip.**  For right sizes, reading gives the data if and only if the body is plain. -/
theorem roundTrips_iff (hm : b.Matched) : b.RoundTrips ↔ b.Plain := by
  constructor
  · intro h
    have hfst : (b.chunks.map fun c => (c, longExtension 0)).map Prod.fst = b.chunks := by
      rw [List.map_map]
      exact List.map_id _
    obtain ⟨l, abuf, hres, -⟩ := h.decoded_eq hfst (longExtension 0) Request.new
    rcases drain_text hfst h.data_noEnd hm.size_le (longExtension 0) Request.new with ⟨hp, -⟩ | ⟨-, l', abuf', hrun⟩
    · exact hp
    · rw [hrun] at hres
      simp [loopResult] at hres
  · intro hp cs e r sizes hcs hr hpos
    exact hp.reads hm.size_le hcs hr hpos

end ChunkedBody

/-! ## Sizes that are not right -/

/-- The chunk with a size that is too large by one. -/
def SentChunk.oversized (c : SentChunk) : SentChunk where
  digits := formatNat 16 (c.data.length + 1)
  data := c.data
  digits_ne := formatNat_ne_nil _
  digits_hex := digitVal_lt_of_mem_formatNat (by decide) (by decide) _
  size_pos := by
    rw [numeral_formatNat (by decide) (by decide)]
    exact Nat.succ_pos _
  data_ne := c.data_ne
  data_short := c.data_short

theorem SentChunk.oversized_size (c : SentChunk) : c.oversized.size = c.data.length + 1 :=
  numeral_formatNat (by decide) (by decide) _

theorem SentChunk.oversized_short (c : SentChunk) : c.oversized.digits.length ≤ 16 := by
  refine length_formatNat_le (by decide) (by decide) ?_
  have := c.data_short
  have hpow : 2 ^ 63 < 16 ^ 16 := by decide
  omega

namespace ChunkedBody

variable {b : ChunkedBody}

/-- **A size that is too large** is not reported. -/
theorem not_reportsMismatch (hm : b.Matched) (hp : b.Plain) (hne : b.chunks ≠ []) : ¬ b.ReportsMismatch := by
  intro h
  obtain ⟨c, rest, hchunks⟩ := List.exists_cons_of_ne_nil hne
  set b' : ChunkedBody := { b with chunks := c.oversized :: rest } with hb'
  have hmem : ∀ {P : SentChunk → Prop}, (∀ x ∈ b.chunks, P x) → P c ∧ ∀ x ∈ rest, P x := by
    intro P hall
    rw [hchunks] at hall
    exact List.forall_mem_cons.mp hall
  have hp' : b'.Plain := by
    refine ⟨?_, ?_, hp.zeros_short, hp.trailerFits⟩
    · exact List.forall_mem_cons.mpr (hmem hp.data_noEnd)
    · exact List.forall_mem_cons.mpr ⟨c.oversized_short, (hmem hp.digits_short).2⟩
  have hsize : ∀ x ∈ b'.chunks, x.data.length ≤ x.size := by
    refine List.forall_mem_cons.mpr ⟨?_, (hmem hm.size_le).2⟩
    rw [c.oversized_size]
    exact Nat.le_succ _
  have hunmatched : ¬ b'.Matched := fun hm' => by
    have hc : c.oversized.size = c.data.length := hm' c.oversized (by simp [hb'])
    rw [c.oversized_size] at hc
    omega
  have hfst : (b'.chunks.map fun c => (c, longExtension 0)).map Prod.fst = b'.chunks := by
    rw [List.map_map]
    exact List.map_id _
  have hr : Request.HasChunked { Request.new with
      rbStatus := .waitSize
      rbContext := .string (b'.text (b'.chunks.map fun c => (c, longExtension 0)) (longExtension 0)) }
      (b'.text (b'.chunks.map fun c => (c, longExtension 0)) (longExtension 0)) := ⟨rfl, rfl, rfl⟩
  obtain ⟨sizes, out, error, r', hpos, hreads⟩ := h b' _ (longExtension 0) _
    (by rw [hb', hchunks]; rfl) rfl rfl hunmatched hfst hr
  obtain ⟨r'', hreads', -⟩ := hp'.reads hsize hfst hr hpos
  rw [hreads'] at hreads
  simp at hreads

/-- **Decoding.**  For right sizes, reading gives the data if and only if the body is plain; and wrong sizes are
reported as well only where there are no chunks. -/
theorem decodes_iff (hm : b.Matched) :
    (b.RoundTrips ↔ b.Plain) ∧ (b.Decodes ↔ b.chunks = [] ∧ b.Plain) := by
  refine ⟨roundTrips_iff hm, ?_⟩
  constructor
  · rintro ⟨hround, hreports⟩
    have hp := (roundTrips_iff hm).mp hround
    exact ⟨by_contra fun hne => not_reportsMismatch hm hp hne hreports, hp⟩
  · rintro ⟨hnil, hp⟩
    refine ⟨(roundTrips_iff hm).mpr hp, fun b' cs e r hdata _ _ hunmatched _ _ => ?_⟩
    have hnil' : b'.chunks = [] := by simpa [hnil] using hdata
    exact absurd (fun c hc => by simp [hnil'] at hc) hunmatched

/-! ## Two bodies -/

/-- One chunk `a`, with an extension for its size at choice, and a trailer. -/
def plainBody : ChunkedBody where
  chunks := [⟨lit "1", lit "a", by decide, by decide, by decide, by decide, by decide⟩]
  zeros := lit "0"
  trailer := [lit "X: y"]
  zeros_ne := by decide
  zeros_eq := by decide
  trailer_noEnd := by decide
  trailer_colon := by decide

theorem plainBody_plain : plainBody.Plain where
  data_noEnd := by decide
  digits_short := by decide
  zeros_short := by decide
  trailerFits := by unfold TrailerFits; decide

/-- The chunk is read back, but a wrong size would not be noticed. -/
theorem decodes_plainBody : plainBody.RoundTrips ∧ ¬ plainBody.Decodes := by
  have h := decodes_iff (b := plainBody) (by unfold Matched; decide)
  exact ⟨h.1.mpr plainBody_plain, fun hd => absurd (h.2.mp hd).1 (by decide)⟩

/-- A chunk of four bytes with a line end in the middle. -/
def brokenBody : ChunkedBody where
  chunks := [⟨lit "4", lit "a\r\nb", by decide, by decide, by decide, by decide, by decide⟩]
  zeros := lit "0"
  trailer := []
  zeros_ne := by decide
  zeros_eq := by decide
  trailer_noEnd := by decide
  trailer_colon := by decide

/-- The bytes of the body as a client sends them. -/
def brokenText : Bytes := lit "4\r\na\r\nb\r\n0\r\n\r\n"

/-- A request with the body in it. -/
def brokenRequest : Request := { Request.new with rbStatus := .waitSize, rbContext := .string brokenText }

/-- The decoder takes the `b` for a size, the last chunk for data and the blank line for a size again. -/
theorem not_decodes_brokenBody : brokenBody.Matched ∧ ¬ brokenBody.Decodes := by
  refine ⟨by unfold Matched; decide, fun h => ?_⟩
  obtain ⟨r', hreads, -⟩ := h.1 (brokenBody.chunks.map fun c => (c, ⟨[], Or.inl rfl, rfl⟩)) ⟨[], Or.inl rfl, rfl⟩
    brokenRequest [100] rfl ⟨rfl, by decide, rfl⟩ (by decide)
  have herror : (brokenRequest.reads [100]).map (fun x => x.2.1) = .ok (some .wrongProtocolType) := by decide
  rw [hreads] at herror
  simp [Except.map] at herror

end ChunkedBody

end Gts3.Http
