import Gts3.Http.ChunkedBody
import Gts3.Http.ChunkedResponse

/-!
# The encoder of responses against the decoder of requests

A chunked response that is sent on as the body of a request meets the decoder of `read_body`, which knows of no bytes
but lines.  As long as nothing that is written holds a line end and the cookies of the trailer are pairs, every reading
gives the bodies back, whatever the sizes of the reads are (`chunkedResponse_reads`).
-/

namespace Gts3.Http

open Lib Lib.Search Lib.Cxx Lib.HttpMessage

/-- The chunk that `write` makes of a body. -/
def SentChunk.ofBody (body : Bytes) (hne : body ≠ []) (hshort : body.length < 2 ^ 63) : SentChunk where
  digits := formatNat 16 body.length
  data := body
  digits_ne := formatNat_ne_nil _
  digits_hex := digitVal_lt_of_mem_formatNat (by decide) (by decide) _
  size_pos := by
    rw [numeral_formatNat (by decide) (by decide)]
    exact List.length_pos_iff.mpr hne
  data_ne := hne
  data_short := hshort

theorem SentChunk.size_ofBody (body : Bytes) (hne : body ≠ []) (hshort : body.length < 2 ^ 63) :
    (SentChunk.ofBody body hne hshort).size = body.length := numeral_formatNat (by decide) (by decide) _

theorem SentChunk.length_digits_ofBody (body : Bytes) (hne : body ≠ []) (hshort : body.length < 2 ^ 63) :
    (SentChunk.ofBody body hne hshort).digits.length ≤ 16 :=
  length_formatNat_le (by decide) (by decide) (hshort.trans (by decide))

namespace Response

/-- The size line of a chunk: the attributes are its extension. -/
theorem Connected.sendChunkSize_eq {r : Response} (h : r.Connected) (hattrs : ∀ a ∈ r.chunkAttributes, NoLineEnd a)
    (size : ℕ) : ∃ e : Extension, r.sendChunkSize size =
      .ok ({ r with chunkAttributes := [] }.put (formatNat 16 size ++ e.text ++ crlf)) := by
  by_cases ha : r.chunkAttributes = []
  · have hrec : ({ r with chunkAttributes := [] } : Response) = r := by rw [← ha]
    refine ⟨⟨[], Or.inl rfl, rfl⟩, ?_⟩
    rw [sendChunkSize, if_pos ha, h.send_eq, hrec, List.append_nil]
  · have hjoined : NoLineEnd (r.chunkAttributes.flatMap fun attr => attr ++ lit ";").dropLast := by
      intro c hc
      obtain ⟨a, hmem, hca⟩ := List.mem_flatMap.mp (List.mem_of_mem_dropLast hc)
      exact (hattrs a hmem).append (by decide : NoLineEnd (lit ";")) c hca
    have h' : ({ r with chunkAttributes := [] } : Response).Connected := h
    refine ⟨⟨lit "; " ++ (r.chunkAttributes.flatMap fun attr => attr ++ lit ";").dropLast, Or.inr ⟨_, rfl⟩,
      (NoLineEnd.append (by decide) hjoined).find_crlf⟩, ?_⟩
    rw [sendChunkSize, if_neg ha, h'.send_eq]
    simp only [List.append_assoc]

/-- **A body that is not empty** is written as its chunk. -/
theorem Connected.writeBody_sentChunk {r : Response} (h : r.Connected) (hattrs : ∀ a ∈ r.chunkAttributes, NoLineEnd a)
    {body : Bytes} (hne : body ≠ []) (hshort : body.length < 2 ^ 63) : ∃ e : Extension,
      r.writeBody body true = .ok
        ({ r with chunkAttributes := [] }.put ((SentChunk.ofBody body hne hshort).bytes e)) := by
  obtain ⟨e, hsize⟩ := h.sendChunkSize_eq hattrs body.length
  obtain ⟨sock, hs, ho⟩ := id h
  have h' : ({ r with chunkAttributes := [] } : Response).Connected := h
  have hpos : body.length > 0 := List.length_pos_iff.mpr hne
  refine ⟨e, ?_⟩
  simp only [writeBody, hs, ho, Bool.true_eq_false, if_false, hsize, ok_bind, (h'.put _).send_eq, hpos, if_true,
    ((h'.put _).put _).send_eq]
  simp only [Response.put, hs, Option.map_some, TcpSocket.writeSome, SentChunk.bytes, SentChunk.ofBody,
    List.append_assoc]

/-- Calls that wrote `bodies` have taken `start` to the response: those that are not empty are chunks with sizes as they
are, one for each. -/
structure Frames (start r : Response) (bodies : List Bytes) : Prop where
  chunked : r.Chunked
  fresh : r.headersWrited = false → r.headText = start.headText ∧ r.out = start.out ∧ bodies = []
  begun : r.headersWrited = true → ∃ cs : List (SentChunk × Extension),
    cs.map (fun c => c.1.data) = bodies.filter (· ≠ []) ∧
    (∀ c ∈ cs, c.1.size = c.1.data.length ∧ c.1.digits.length ≤ 16) ∧
    r.out = start.out ++ (start.headText ++ chunksText cs)

variable {start r : Response} {bodies : List Bytes}

theorem Frames.write_again (h : Frames start r bodies) (hw : r.headersWrited = true) {body : Bytes}
    (hshort : body.length < 2 ^ 63) :
    ∃ r', r.write body = .ok r' ∧ Frames start r' (bodies ++ [body]) ∧ r'.headersWrited = true := by
  obtain ⟨cs, hcs, hsizes, hout⟩ := h.begun hw
  rw [Response.write_again hw]
  by_cases hbody : body = []
  · refine ⟨r, ?_, ⟨h.chunked, fun hno => absurd (hw.symm.trans hno) (by decide), fun _ => ⟨cs, ?_, hsizes, hout⟩⟩, hw⟩
    · rw [if_neg (by rw [hbody]; exact lt_irrefl _)]
    · rw [hcs, List.filter_append, hbody]
      simp
  · obtain ⟨e, hwrite⟩ := h.chunked.connected.writeBody_sentChunk h.chunked.attributes hbody hshort
    have hconn : ({ r with chunkAttributes := [] } : Response).Connected := h.chunked.connected
    rw [if_pos (List.length_pos_iff.mpr hbody), h.chunked.isChunked_eq, hwrite]
    refine ⟨_, rfl, ⟨⟨hconn.put _, h.chunked.version_eq, h.chunked.noLength, h.chunked.chunked, h.chunked.unended, ?_⟩,
      fun hno => absurd (hw.symm.trans hno) (by decide),
      fun _ => ⟨cs ++ [(SentChunk.ofBody body hbody hshort, e)], ?_, ?_, ?_⟩⟩, hw⟩
    · intro a ha
      cases ha
    · rw [List.map_append, hcs, List.filter_append]
      simp [hbody, SentChunk.ofBody]
    · intro c hc
      rcases List.mem_append.mp hc with hc | hc
      · exact hsizes c hc
      · obtain rfl : c = _ := by simpa using hc
        exact ⟨SentChunk.size_ofBody .., SentChunk.length_digits_ofBody ..⟩
    · rw [hconn.out_put, show ({ r with chunkAttributes := [] } : Response).out = r.out from rfl, hout, chunksText,
        chunksText, List.flatMap_append]
      simp only [List.append_assoc, List.flatMap_singleton]

/-- **A body** becomes one chunk, or none when it is empty. -/
theorem Frames.write (h : Frames start r bodies) {body : Bytes} (hshort : body.length < 2 ^ 63) :
    ∃ r', r.write body = .ok r' ∧ Frames start r' (bodies ++ [body]) ∧ r'.headersWrited = true := by
  cases hw : r.headersWrited with
  | true => exact h.write_again hw hshort
  | false =>
    obtain ⟨hhead, hout, rfl⟩ := h.fresh hw
    have hbegun : Frames start r.begun [] := by
      refine ⟨h.chunked.begun, fun hno => Bool.noConfusion hno, fun _ => ⟨[], rfl, by simp, ?_⟩⟩
      rw [h.chunked.out_begun, hhead, hout, show chunksText [] = [] from rfl, List.append_nil]
    rw [h.chunked.write_begun hw]
    exact hbegun.write_again rfl hshort

end Response

/-- The bodies that a call writes. -/
def Call.bodies : Call → List Bytes
  | .write body => [body]
  | _ => []

namespace Response

variable {start r : Response} {bodies : List Bytes}

theorem Frames.setChunkAttribute (h : Frames start r bodies) {attr : Bytes} (hattr : NoLineEnd attr) :
    Frames start (r.setChunkAttribute attr) bodies := by
  refine ⟨⟨h.chunked.connected, h.chunked.version_eq, h.chunked.noLength, h.chunked.chunked, h.chunked.unended, ?_⟩,
    h.fresh, h.begun⟩
  intro a ha
  rcases List.mem_append.mp ha with ha | ha
  · exact h.chunked.attributes a ha
  · obtain rfl : a = attr := by simpa using ha
    exact hattr

/-- **A sequence of calls** writes the bodies as chunks. -/
theorem Frames.runCalls {g : WriteDefault} (h : Frames start r bodies) {calls : List Call}
    (hcalls : ∀ c ∈ calls, c.Chunking) (hshort : ∀ c ∈ calls, ∀ body ∈ c.bodies, body.length < 2 ^ 63) :
    ∃ r', Http.runCalls g r calls = .ok r' ∧ Frames start r' (bodies ++ calls.flatMap Call.bodies) ∧
      r'.headersWrited = (r.headersWrited || calls.any Call.isWrite) := by
  induction calls generalizing r bodies with
  | nil => exact ⟨r, rfl, by simpa using h, by simp⟩
  | cons c calls ih =>
    have hc := hcalls c List.mem_cons_self
    have hrest : ∀ c' ∈ calls, c'.Chunking := fun c' hc' => hcalls c' (List.mem_cons_of_mem _ hc')
    have hrest' : ∀ c' ∈ calls, ∀ body ∈ c'.bodies, body.length < 2 ^ 63 :=
      fun c' hc' => hshort c' (List.mem_cons_of_mem _ hc')
    cases c with
    | write body =>
      obtain ⟨r₁, hwrite, h₁, hw₁⟩ := h.write (hshort _ List.mem_cons_self body (List.mem_singleton.mpr rfl))
      obtain ⟨r', hrun, h', hw'⟩ := ih h₁ hrest hrest'
      refine ⟨r', ?_, ?_, ?_⟩
      · rw [Http.runCalls, Call.run, hwrite, ok_bind, hrun]
      · rw [List.flatMap_cons, ← List.append_assoc]
        exact h'
      · rw [hw', hw₁]
        simp [Call.isWrite]
    | setChunkAttribute attr =>
      obtain ⟨r', hrun, h', hw'⟩ := ih (h.setChunkAttribute hc) hrest hrest'
      refine ⟨r', ?_, h', hw'⟩
      rw [Http.runCalls, Call.run, ok_bind, hrun]
    | setHeader key value => exact hc.elim
    | unsetHeader key => exact hc.elim
    | writeDefault => exact hc.elim
    | chunkEnd headers => exact hc.elim

end Response

/-- The line of a trailer field. -/
def trailerLine (e : Bytes × Bytes) : Bytes := e.1 ++ lit ": " ++ e.2

theorem noLineEnd_trailerLine {e : Bytes × Bytes} (h : FieldOk e) : NoLineEnd (trailerLine e) :=
  (h.1.append (by decide)).append h.2

theorem lastChunk_zeros : ∀ b ∈ lit "0", b = 48 := by decide

theorem trailerLines_noEnd {trailer : Headers} (htrailer : ∀ e ∈ trailer.entries, FieldOk e) :
    ∀ l ∈ trailer.entries.map trailerLine, find crlf l = none := by
  rw [List.forall_mem_map]
  exact fun e he => (noLineEnd_trailerLine (htrailer e he)).find_crlf

theorem trailerLines_colon (trailer : Headers) : ∀ l ∈ trailer.entries.map trailerLine, (58 : UInt8) ∈ l := by
  rw [List.forall_mem_map]
  intro e _
  simp [trailerLine, show lit ": " = [58, 32] from rfl]

/-- Chunks, the last chunk as `chunk_end` writes it, and a trailer. -/
def framed (chunks : List SentChunk) (trailer : Headers) (htrailer : ∀ e ∈ trailer.entries, FieldOk e) :
    ChunkedBody where
  chunks := chunks
  zeros := lit "0"
  trailer := trailer.entries.map trailerLine
  zeros_ne := Response.zeroDigit_ne
  zeros_eq := lastChunk_zeros
  trailer_noEnd := trailerLines_noEnd htrailer
  trailer_colon := trailerLines_colon trailer

/-- **Encoding and decoding.**  Bodies without line ends that are written as chunks, with attributes of one line each,
and the end of the message with a trailer that a head could hold are one text; and a request that has this text as its
body gives the bodies back, in order and nothing else, however much is read at a time, and is finished once more is
asked for than there is. -/
theorem chunkedResponse_reads {g : WriteDefault} {r : Response} (hchunked : r.Chunked)
    (hfresh : r.headersWrited = false) {calls : List Call} (hcalls : ∀ c ∈ calls, c.Chunking)
    (hbodies : ∀ c ∈ calls, ∀ body ∈ c.bodies, body.length < 2 ^ 63 ∧ find crlf body = none) {trailer : Headers}
    (htrailer : ∀ e ∈ trailer.entries, FieldOk e ∧ CookieItemsFit (decodedItems (trailerLine e ++ crlf))) :
    ∃ r₁ r₂ text, runCalls g r calls = .ok r₁ ∧ r₁.chunkEnd trailer = .ok r₂ ∧
      r₂.out = r.out ++ ((if calls.any Call.isWrite then r.headText else []) ++ text) ∧
      ∀ (q : Request) (sizes : List ℕ), q.HasChunked text → (∀ s ∈ sizes, 0 < s) →
        ∃ q', q.reads sizes = .ok ((calls.flatMap Call.bodies).flatten.take sizes.sum, none, q') ∧
          ((calls.flatMap Call.bodies).flatten.length < sizes.sum → q'.rbStatus = .finished) := by
  have hstart : Response.Frames r r [] :=
    ⟨hchunked, fun _ => ⟨rfl, rfl, rfl⟩, fun hno => absurd (hfresh.symm.trans hno) (by decide)⟩
  obtain ⟨r₁, hrun, hframes, hw⟩ := hstart.runCalls (g := g) hcalls fun c hc body hbody => (hbodies c hc body hbody).1
  rw [hfresh, Bool.false_or] at hw
  rw [List.nil_append] at hframes
  obtain ⟨r₂, hend, hout⟩ := hframes.chunked.chunkEnd trailer
  have hfields : ∀ e ∈ trailer.entries, FieldOk e := fun e he => (htrailer e he).1
  -- the chunks that were written, with their extensions
  obtain ⟨cs, hdata, hsizes, hout₁⟩ : ∃ cs : List (SentChunk × Extension),
      cs.map (fun c => c.1.data) = (calls.flatMap Call.bodies).filter (· ≠ []) ∧
      (∀ c ∈ cs, c.1.size = c.1.data.length ∧ c.1.digits.length ≤ 16) ∧
      r₁.out = r.out ++ ((if calls.any Call.isWrite then r.headText else []) ++ chunksText cs) := by
    cases hwrote : calls.any Call.isWrite with
    | false =>
      obtain ⟨-, hsame, hnone⟩ := hframes.fresh (hw.trans hwrote)
      exact ⟨[], by rw [hnone]; rfl, by simp, by rw [hsame]; simp [chunksText]⟩
    | true => exact hframes.begun (hw.trans hwrote)
  set b := framed (cs.map Prod.fst) trailer hfields with hb
  have hsent : b.data = (calls.flatMap Call.bodies).flatten := by
    have hflat : b.data = (cs.map fun c => c.1.data).flatten := by
      simp [hb, framed, ChunkedBody.data, sentData, List.flatMap_def, Function.comp_def]
    rw [hflat, hdata, List.flatten_filter_ne_nil]
  have hplain : b.Plain := by
    refine ⟨?_, ?_, (by decide : (lit "0").length ≤ 16), ?_⟩
    · intro c hc
      obtain ⟨ce, hce, rfl⟩ := List.mem_map.mp hc
      have hmem : ce.1.data ∈ (calls.flatMap Call.bodies).filter (· ≠ []) := hdata ▸ List.mem_map_of_mem hce
      obtain ⟨call, hcall, hbody⟩ := List.mem_flatMap.mp (List.mem_of_mem_filter hmem)
      exact (hbodies call hcall _ hbody).2
    · intro c hc
      obtain ⟨ce, hce, rfl⟩ := List.mem_map.mp hc
      exact (hsizes ce hce).2
    · intro l hl
      obtain ⟨e, he, rfl⟩ := List.mem_map.mp hl
      exact (htrailer e he).2
  have hsize : ∀ c ∈ b.chunks, c.data.length ≤ c.size := by
    intro c hc
    obtain ⟨ce, hce, rfl⟩ := List.mem_map.mp hc
    exact (hsizes ce hce).1.ge
  refine ⟨r₁, r₂, b.text cs ⟨[], Or.inl rfl, rfl⟩, hrun, hend, ?_, fun q sizes hq hpos => ?_⟩
  · have hlines : trailer.entries.flatMap fieldLine = b.trailer.flatMap (· ++ crlf) := by
      rw [hb, framed, List.flatMap_map]
      rfl
    rw [hout, hout₁, ChunkedBody.text, ChunkedBody.ending, hlines]
    simp only [List.append_assoc, List.nil_append, hb, framed]
  · rw [← hsent]
    exact hplain.reads hsize rfl hq hpos

/-- Two bodies, an empty one between them, attributes and a trailer. -/
theorem chunkedResponse_reads_hello : ∃ r₁ r₂ text,
    runCalls none chunkedAnswer [.setChunkAttribute (lit "a=b"), .write (lit "hel"), .write [], .write (lit "lo")] =
      .ok r₁ ∧
    r₁.chunkEnd (OrdMap.empty.assign (lit "sum") (lit "5")) = .ok r₂ ∧
    r₂.out = chunkedAnswer.out ++ (chunkedAnswer.headText ++ text) ∧
    ∃ q', Request.reads { Request.new with rbStatus := .waitSize, rbContext := .string text } [2, 9] =
      .ok (lit "hello", none, q') ∧ q'.rbStatus = .finished := by
  have hchunked : chunkedAnswer.Chunked :=
    ⟨⟨_, rfl, rfl⟩, rfl, by decide, by decide, rfl, by decide⟩
  obtain ⟨r₁, r₂, text, hrun, hend, hout, hreads⟩ := @chunkedResponse_reads none chunkedAnswer hchunked rfl
    [.setChunkAttribute (lit "a=b"), .write (lit "hel"), .write [], .write (lit "lo")] (by decide) (by decide)
    (OrdMap.empty.assign (lit "sum") (lit "5")) (by decide)
  obtain ⟨q', hq, hfinished⟩ := hreads { Request.new with rbStatus := .waitSize, rbContext := .string text } [2, 9]
    ⟨rfl, rfl, rfl⟩ (by decide)
  exact ⟨r₁, r₂, text, hrun, hend, hout, q', hq, hfinished (by decide)⟩

end Gts3.Http
