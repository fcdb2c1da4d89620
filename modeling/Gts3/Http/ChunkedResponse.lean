import Gts3.Http.ResponseFraming
import Gts3.Lib.ChunkDecoder

/-!
# What a chunked response writes is decoded into its bodies

The bytes that the writes of a chunked response leave behind its headers are chunks, one for each body that is not
empty (`Writes.write`), and `chunk_end` adds the last chunk and the trailer.  A decoder that knows nothing of how they
were written gives the bodies back and leaves nothing (`chunkedResponse_decode`).
-/

namespace Gts3.Http

open Lib Lib.Cxx Lib.HttpMessage Lib.ChunkDecoder

namespace Call

/-- Writes and attributes for the next chunk, which hold no part of a line end. -/
def Chunking : Call → Prop
  | write _ => True
  | setChunkAttribute attr => NoLineEnd attr
  | _ => False

instance : (c : Call) → Decidable c.Chunking
  | write _ => inferInstanceAs (Decidable True)
  | setChunkAttribute attr => inferInstanceAs (Decidable (NoLineEnd attr))
  | setHeader _ _ | unsetHeader _ | writeDefault | chunkEnd _ => inferInstanceAs (Decidable False)

/-- The body that the call writes. -/
def body : Call → Bytes
  | write body => body
  | _ => []

end Call

namespace Response

/-- What the first `write` sends in front of its body. -/
def headText (r : Response) : Bytes := r.statusText ++ r.serializeHeadersAndCookies.1 ++ crlf

/-- The response whose first `write` has sent its headers. -/
def begun (r : Response) : Response :=
  { r with headersWrited := true, headers := r.headers.erase (lit "set-cookie") }.put r.headText

/-- A response of HTTP/1.1 with `Transfer-Encoding: chunked` and no length, which has not ended. -/
structure Chunked (r : Response) : Prop where
  connected : r.Connected
  version_eq : r.request.version = lit "1.1"
  noLength : r.headers.find? Header.contentLength = none
  chunked : r.transferEncodingChunked = true
  unended : r.chunkEndWrited = false
  attributes : ∀ a ∈ r.chunkAttributes, NoLineEnd a

variable {start r : Response} {data : Bytes}

theorem Chunked.isChunked_eq (h : r.Chunked) : r.isChunked = true := by
  rw [isChunked, if_neg (not_not.mpr h.version_eq), h.chunked]

theorem Chunked.begun (h : r.Chunked) : r.begun.Chunked where
  connected := Connected.put (r := { r with headersWrited := true, headers := r.headers.erase (lit "set-cookie") }) _
    h.connected
  version_eq := h.version_eq
  noLength := (find?_erase_setCookie r.headers (by decide)).trans h.noLength
  chunked := by
    have hchunked := h.chunked
    unfold transferEncodingChunked at hchunked ⊢
    rw [show r.begun.headers = r.headers.erase (lit "set-cookie") from rfl, find?_erase_setCookie r.headers (by decide)]
    exact hchunked
  unended := h.unended
  attributes := h.attributes

theorem Chunked.out_begun (h : r.Chunked) : r.begun.out = r.out ++ r.headText :=
  Connected.out_put (r := { r with headersWrited := true, headers := r.headers.erase (lit "set-cookie") }) _ h.connected

/-- **The first write** sends the headers, and goes on as one whose headers are out. -/
theorem Chunked.write_begun (h : r.Chunked) (hw : r.headersWrited = false) (body : Bytes) :
    r.write body = r.begun.write body := by
  have hprep : ({ r with headersWrited := true } : Response).prepareHeaders body.length =
      { r with headersWrited := true } :=
    prepareHeaders_chunked (r := { r with headersWrited := true }) h.isChunked_eq _
  have hsent : ({ r with headersWrited := true } : Response).sendHeaders = .ok r.begun :=
    Connected.send_eq (r := { r with headersWrited := true, headers := r.headers.erase (lit "set-cookie") }) _
      h.connected
  have hwritten : r.begun.headersWrited = true := rfl
  rw [write_again hwritten, write, if_pos hw, hprep, hsent, ok_bind]

theorem zeroDigit_hex : ∀ c ∈ lit "0", digitVal c < 16 := by decide

theorem zeroDigit_ne : lit "0" ≠ [] := List.cons_ne_nil _ _

theorem zeroDigit_eq : numeral 16 (lit "0") = 0 := by decide

theorem zeroDigit_noEnd : Search.find crlf (lit "0" ++ []) = none := by decide

theorem noExtension : ([] : Bytes) = [] ∨ [59] <+: ([] : Bytes) := Or.inl rfl

/-- The last chunk as `chunk_end` writes it. -/
def zeroChunk : LastChunk := ⟨lit "0", [], zeroDigit_hex, zeroDigit_ne, zeroDigit_eq, zeroDigit_noEnd, noExtension⟩

/-! ## Calls -/

/-- Calls that wrote `data` have taken `start` to the response. -/
structure Writes (start r : Response) (data : Bytes) : Prop where
  chunked : r.Chunked
  fresh : r.headersWrited = false → r.headText = start.headText ∧ r.out = start.out ∧ data = []
  begun : r.headersWrited = true → ∃ cs, chunkData cs = data ∧ r.out = start.out ++ (start.headText ++ chunkText cs)

theorem Writes.write_again (h : Writes start r data) (hw : r.headersWrited = true) (body : Bytes) :
    ∃ r', r.write body = .ok r' ∧ Writes start r' (data ++ body) ∧ r'.headersWrited = true := by
  obtain ⟨cs, hcs, hout⟩ := h.begun hw
  rw [Response.write_again hw]
  by_cases hbody : body = []
  · subst hbody
    rw [List.append_nil]
    exact ⟨r, rfl, h, hw⟩
  · obtain ⟨c, hc, hwrite⟩ := sendChunk h.chunked.connected h.chunked.attributes hbody
    have hconn : ({ r with chunkAttributes := [] } : Response).Connected := h.chunked.connected
    rw [if_pos (List.length_pos_iff.mpr hbody), h.chunked.isChunked_eq, hwrite]
    refine ⟨_, rfl, ⟨⟨hconn.put _, h.chunked.version_eq, h.chunked.noLength, h.chunked.chunked, h.chunked.unended, ?_⟩,
      fun hno => absurd (hw.symm.trans hno) (by decide), fun _ => ⟨cs ++ [c], ?_, ?_⟩⟩, hw⟩
    · intro a ha
      cases ha
    · rw [chunkData, List.flatMap_append, ← chunkData, hcs, List.flatMap_singleton, hc]
    · rw [hconn.out_put, chunkText_append, show ({ r with chunkAttributes := [] } : Response).out = r.out from rfl,
        hout]
      simp only [List.append_assoc]

/-- **A body** becomes one chunk, or none when it is empty. -/
theorem Writes.write (h : Writes start r data) (body : Bytes) :
    ∃ r', r.write body = .ok r' ∧ Writes start r' (data ++ body) ∧ r'.headersWrited = true := by
  cases hw : r.headersWrited with
  | true => exact h.write_again hw body
  | false =>
    obtain ⟨hhead, hout, rfl⟩ := h.fresh hw
    have hbegun : Writes start r.begun [] := by
      refine ⟨h.chunked.begun, fun hno => Bool.noConfusion hno, fun _ => ⟨[], rfl, ?_⟩⟩
      rw [h.chunked.out_begun, hhead, hout, show chunkText [] = [] from rfl, List.append_nil]
    rw [h.chunked.write_begun hw]
    exact hbegun.write_again rfl body

theorem Writes.setChunkAttribute (h : Writes start r data) {attr : Bytes} (hattr : NoLineEnd attr) :
    Writes start (r.setChunkAttribute attr) data := by
  refine ⟨⟨h.chunked.connected, h.chunked.version_eq, h.chunked.noLength, h.chunked.chunked, h.chunked.unended, ?_⟩,
    h.fresh, h.begun⟩
  intro a ha
  rcases List.mem_append.mp ha with ha | ha
  · exact h.chunked.attributes a ha
  · obtain rfl : a = attr := by simpa using ha
    exact hattr

/-- **A sequence of calls** writes the bodies as chunks. -/
theorem Writes.runCalls {g : WriteDefault} (h : Writes start r data) {calls : List Call}
    (hcalls : ∀ c ∈ calls, c.Chunking) :
    ∃ r', runCalls g r calls = .ok r' ∧ Writes start r' (data ++ calls.flatMap Call.body) ∧
      r'.headersWrited = (r.headersWrited || calls.any Call.isWrite) := by
  induction calls generalizing r data with
  | nil => exact ⟨r, rfl, by simpa using h, by simp⟩
  | cons c calls ih =>
    have hc := hcalls c List.mem_cons_self
    have hrest : ∀ c' ∈ calls, c'.Chunking := fun c' hc' => hcalls c' (List.mem_cons_of_mem _ hc')
    cases c with
    | write body =>
      obtain ⟨r₁, hwrite, h₁, hw₁⟩ := h.write body
      obtain ⟨r', hrun, h', hw'⟩ := ih h₁ hrest
      refine ⟨r', ?_, ?_, ?_⟩
      · rw [Http.runCalls, Call.run, hwrite, ok_bind, hrun]
      · rw [List.flatMap_cons, ← List.append_assoc]
        exact h'
      · rw [hw', hw₁]
        simp [Call.isWrite]
    | setChunkAttribute attr =>
      obtain ⟨r', hrun, h', hw'⟩ := ih (h.setChunkAttribute hc) hrest
      refine ⟨r', ?_, h', hw'⟩
      rw [Http.runCalls, Call.run, ok_bind, hrun]
    | setHeader key value => exact hc.elim
    | unsetHeader key => exact hc.elim
    | writeDefault => exact hc.elim
    | chunkEnd headers => exact hc.elim

/-- **`chunk_end`** writes the last chunk, the trailer and the blank line. -/
theorem Chunked.chunkEnd (h : r.Chunked) (headers : Headers) :
    ∃ r', r.chunkEnd headers = .ok r' ∧
      r'.out = r.out ++ (lit "0" ++ crlf ++ (headers.entries.flatMap fieldLine ++ crlf)) := by
  have hlength : r.headersContains Header.contentLength = false := by simp [headersContains, h.noLength]
  have hconn : ({ r with chunkEndWrited := true } : Response).Connected := h.connected
  refine ⟨({ r with chunkEndWrited := true } : Response).put (lit "0\r\n") |>.put
    (headers.entries.flatMap fieldLine ++ crlf), ?_, ?_⟩
  · rw [Response.chunkEnd, if_neg (by simp [hlength, h.unended]), if_neg (not_not.mpr h.version_eq),
      if_neg (by simp [h.chunked])]
    simp only [hconn.send_eq, ok_bind, (hconn.put _).send_eq]
    rfl
  · rw [(hconn.put _).out_put, hconn.out_put, List.append_assoc]
    rfl

end Response

/-- **A chunked response is decoded into its bodies**: whatever is written, with whatever attributes, behind the headers
of the first write there is one chunked body, of which nothing is left and which carries all bodies in their order. -/
theorem chunkedResponse_decode {g : WriteDefault} {r : Response} (hchunked : r.Chunked)
    (hfresh : r.headersWrited = false) {calls : List Call} (hcalls : ∀ c ∈ calls, c.Chunking) {trailer : Headers}
    (htrailer : ∀ e ∈ trailer.entries, e.1 ≠ [] ∧ FieldOk e) :
    ∃ r₁ r₂ text, runCalls g r calls = .ok r₁ ∧ r₁.chunkEnd trailer = .ok r₂ ∧
      r₂.out = r.out ++ ((if calls.any Call.isWrite then r.headText else []) ++ text) ∧
      decode text = some (calls.flatMap Call.body, []) := by
  have hnone : Response.Writes r r [] :=
    ⟨hchunked, fun _ => ⟨rfl, rfl, rfl⟩, fun hno => absurd (hfresh.symm.trans hno) (by decide)⟩
  obtain ⟨r₁, hrun, hwrites, hw⟩ := hnone.runCalls (g := g) hcalls
  rw [hfresh, Bool.false_or] at hw
  obtain ⟨r₂, hend, hout⟩ := hwrites.chunked.chunkEnd trailer
  have hlast : ∀ cs, decode (chunkText cs ++ (lit "0" ++ crlf ++ (trailer.entries.flatMap fieldLine ++ crlf))) =
      some (chunkData cs, []) := by
    intro cs
    have hbody := decode_body cs Response.zeroChunk htrailer []
    rw [List.append_nil crlf] at hbody
    exact hbody
  cases hwrote : calls.any Call.isWrite with
  | false =>
    obtain ⟨-, hout₁, hdata⟩ := hwrites.fresh (hw.trans hwrote)
    refine ⟨r₁, r₂, _, hrun, hend, by rw [hout, hout₁]; rfl, ?_⟩
    rw [List.nil_append] at hdata
    rw [hdata]
    exact hlast []
  | true =>
    obtain ⟨cs, hdata, hout₁⟩ := hwrites.begun (hw.trans hwrote)
    refine ⟨r₁, r₂, chunkText cs ++ (lit "0" ++ crlf ++ (trailer.entries.flatMap fieldLine ++ crlf)), hrun, hend, ?_,
      ?_⟩
    · rw [hout, hout₁, if_pos rfl]
      simp only [List.append_assoc]
    · rw [hlast, hdata, List.nil_append]

/-- A chunked answer that is not begun. -/
def chunkedAnswer : Response := (Response.new plainRequest).setHeader (lit "Transfer-Encoding") (lit "chunked")

theorem chunkedResponse_decode_hello : ∃ r₁ r₂ text,
    runCalls none chunkedAnswer [.setChunkAttribute (lit "a=b"), .write [], .write (lit "hello"), .write (lit "!")] =
      .ok r₁ ∧
    r₁.chunkEnd (OrdMap.empty.assign (lit "sum") (lit "6")) = .ok r₂ ∧
    r₂.out = chunkedAnswer.out ++ (chunkedAnswer.headText ++ text) ∧ decode text = some (lit "hello!", []) :=
  chunkedResponse_decode (r := chunkedAnswer)
    ⟨⟨_, rfl, rfl⟩, rfl, by decide, by decide, rfl, by decide⟩ rfl
    (by decide)
    (by decide)

end Gts3.Http
