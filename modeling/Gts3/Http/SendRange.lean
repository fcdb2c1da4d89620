import Gts3.Http.FileTransfer
import Gts3.Http.ResponseFraming
import Gts3.Http.RangeHeaders

/-!
# `send_range` for one range

What `write()` leaves behind (`Connected.started`), what a read of the file leaves in the buffer (`readInto_within`),
and the loop over one range (`singleLoop_sends`).  On a response that is not chunked, one range is written byte for byte
(`singleRange_sent`). -/

namespace Gts3.Http

open Lib Lib.Search Lib.Cxx Lib.HttpMessage Lib.FileStream

/-! ## Writing on -/

namespace Response

theorem put_put (r : Response) (s t : Bytes) : (r.put s).put t = r.put (s ++ t) := by
  simp only [put, Option.map_map]
  congr 3
  funext sock
  simp only [Function.comp, TcpSocket.writeSome, List.append_assoc]

@[simp] theorem put_tcpIpBufferSize (r : Response) (s : Bytes) : (r.put s).tcpIpBufferSize = r.tcpIpBufferSize := by
  simp only [put, tcpIpBufferSize]
  cases r.request.socket <;> rfl

theorem Connected.writeBodyGood_plain {r : Response} (h : r.Connected) (body : Bytes) :
    r.writeBodyGood body false = .ok (decide (0 < body.length), r.put body) := by
  have hbody := h.writeBody_plain body
  obtain ⟨sock, hs, ho⟩ := h
  simp only [writeBodyGood, hs, hbody, ok_bind, ho, Bool.true_and]

theorem send_out {r r' : Response} {data : Bytes} (h : r.send data = .ok r') : r'.out = r.out ++ data := by
  unfold send at h
  cases hs : r.request.socket with
  | none => simp [hs] at h
  | some sock =>
    simp only [hs, Except.ok.injEq] at h
    simp [← h, out, hs, TcpSocket.writeSome]

/-! ## The headers -/

/-- A cookie as a field. -/
def cookieField (e : Bytes × Cookie) : Bytes × Bytes := (lit "set-cookie", (cookieText e).drop 12)

theorem fieldLine_cookieField (e : Bytes × Cookie) : fieldLine (cookieField e) = cookieText e ++ crlf := by
  have htext : ∃ t, cookieText e = lit "set-cookie: " ++ t := by
    refine ⟨(e.1 ++ lit "=" ++ e.2.value ++ lit ";" ++
      e.2.attributes.entries.flatMap (fun a => a.1 ++ lit "=" ++ a.2 ++ lit ";")).dropLast, ?_⟩
    rw [cookieText, ← List.dropLast_append_of_ne_nil]
    · simp only [List.append_assoc]
    · simp [lit]
  obtain ⟨t, ht⟩ := htext
  have hdrop : (lit "set-cookie: " ++ t).drop 12 = t := List.drop_left' rfl
  rw [fieldLine, cookieField, ht, hdrop]
  simp only [show lit "set-cookie: " = lit "set-cookie" ++ lit ": " from rfl]

/-- The fields that go out. -/
def sentFields (r : Response) : List (Bytes × Bytes) :=
  (r.headers.erase (lit "set-cookie")).entries ++ r.cookies.entries.map cookieField

/-- The response with its headers and cookies written. -/
def blockSent (r : Response) : Response :=
  { r with headers := r.headers.erase (lit "set-cookie") }.put
    (block (statusLine r.request.version r.status.code (statusDescription r.status)) r.sentFields)

theorem serialize_eq (headers : Headers) (cookies : Cookies) :
    serialize headers cookies = (headers.entries ++ cookies.entries.map cookieField).flatMap fieldLine := by
  have hcookies : cookies.entries.flatMap (fun e => cookieText e ++ crlf) =
      (cookies.entries.map cookieField).flatMap fieldLine := by
    rw [List.flatMap_map]
    exact List.flatMap_congr fun e _ => (fieldLine_cookieField e).symm
  rw [serialize, hcookies, List.flatMap_append]
  rfl

/-- **Headers and cookies** go out as one block. -/
theorem Connected.sendHeaders_block {r : Response} (h : r.Connected) : r.sendHeaders = .ok r.blockSent := by
  have h' : ({ r with headers := r.headers.erase (lit "set-cookie") } : Response).Connected := h
  simp only [sendHeaders, serializeHeadersAndCookies, h'.send_eq, serialize_eq]
  rfl

theorem blockSent_isChunked (r : Response) : r.blockSent.isChunked = r.isChunked := by
  unfold isChunked transferEncodingChunked blockSent
  rw [put_headers, find?_erase_setCookie r.headers (by decide)]
  rfl

theorem setHeader_isChunked (r : Response) {key : Bytes} (h : ¬ SameName key Header.transferEncoding) (value : Bytes) :
    (r.setHeader key value).isChunked = r.isChunked := by
  unfold isChunked transferEncodingChunked setHeader
  rw [OrdMap.find?_assign, if_neg fun hs => h ((same_lessCaseInsensitive _ _).mp hs)]

theorem prepareHeaders_isChunked (r : Response) (size : ℕ) : (r.prepareHeaders size).isChunked = r.isChunked := by
  have hset := r.setHeader_isChunked (by decide : ¬ SameName Header.contentLength Header.transferEncoding)
    (formatNat 10 size)
  unfold prepareHeaders
  split_ifs
  · rfl
  · rfl
  · exact hset
  · exact hset

/-- What `write()` leaves. -/
def started (r : Response) : Response :=
  if r.headersWrited then r else (({ r with headersWrited := true } : Response).prepareHeaders 0).blockSent

theorem prepareHeaders_eq (r : Response) (size : ℕ) :
    r.prepareHeaders size = r ∨ r.prepareHeaders size = r.setHeader Header.contentLength (formatNat 10 size) := by
  unfold prepareHeaders
  split_ifs
  · exact Or.inl rfl
  · exact Or.inl rfl
  · exact Or.inr rfl
  · exact Or.inr rfl

/-- What `write()` leaves as it is. -/
structure Continues (r r₀ : Response) : Prop where
  connected : r₀.Connected
  isChunked_eq : r₀.isChunked = r.isChunked
  chunkAttributes_eq : r₀.chunkAttributes = r.chunkAttributes
  bufferSize_eq : r₀.tcpIpBufferSize = r.tcpIpBufferSize

theorem Connected.blockSent {r : Response} (h : r.Connected) : r.Continues r.blockSent where
  connected := Connected.put (r := { r with headers := r.headers.erase (lit "set-cookie") }) _ h
  isChunked_eq := r.blockSent_isChunked
  chunkAttributes_eq := rfl
  bufferSize_eq := put_tcpIpBufferSize { r with headers := r.headers.erase (lit "set-cookie") } _

theorem Connected.started {r : Response} (h : r.Connected) : r.write [] = .ok r.started ∧ r.Continues r.started := by
  unfold Response.started
  cases hw : r.headersWrited with
  | true => exact ⟨write_again hw [], h, rfl, rfl, rfl⟩
  | false =>
    set r₁ := ({ r with headersWrited := true } : Response).prepareHeaders 0 with hr₁
    have hset : r₁.Connected ∧ r₁.chunkAttributes = r.chunkAttributes ∧ r₁.tcpIpBufferSize = r.tcpIpBufferSize := by
      rcases prepareHeaders_eq { r with headersWrited := true } 0 with heq | heq <;>
        rw [hr₁, heq] <;> exact ⟨h, rfl, rfl⟩
    obtain ⟨h₁, hattributes, hsize⟩ := hset
    have hsent := h₁.blockSent
    refine ⟨?_, hsent.connected, ?_, hsent.chunkAttributes_eq.trans hattributes, hsent.bufferSize_eq.trans hsize⟩
    · simp only [write, hw, if_true, List.length_nil, ← hr₁, h₁.sendHeaders_block, ok_bind, lt_irrefl, if_false,
        Bool.false_eq_true]
    · exact hsent.isChunked_eq.trans (prepareHeaders_isChunked { r with headersWrited := true } 0)

end Response

/-! ## Reading pieces -/

/-- The bytes of a range. -/
def RangeValue.bytes (content : Bytes) (v : RangeValue) : Bytes :=
  (content.drop v.rangeBegin).take (v.rangeEnd + 1 - v.rangeBegin)

theorem RangeValue.Within.bytes_eq {v : RangeValue} {content : Bytes} (h : v.Within content.length) :
    v.bytes content = (content.drop v.rangeBegin).take v.size ∧ (v.bytes content).length = v.size := by
  have hsize : v.rangeEnd + 1 - v.rangeBegin = v.size := by
    rw [h.size_eq]
    have := h.begin_le
    omega
  have hfits := h.fits
  rw [RangeValue.bytes, hsize, List.length_take, List.length_drop]
  exact ⟨rfl, by omega⟩

section Pieces

variable {f : InFile} {content : Bytes} {pos n : ℕ} {buf : Buffer}

theorem readInto_within (hf : f.At content pos) (hn : pos + n ≤ content.length) (hbuf : n ≤ buf.size) :
    ∃ buf' f', readInto f buf n = .ok (n, buf', f') ∧ f'.At content (pos + n) ∧ buf'.size = buf.size ∧
      buf'.front n = (content.drop pos).take n := by
  obtain ⟨f', hread, hf'⟩ := hf.read hn
  have hlen : ((content.drop pos).take n).length = n := by
    rw [List.length_take, List.length_drop]
    omega
  obtain ⟨buf', hcopy, hsize, hfront⟩ := Buffer.memcpy_ok
    (show 0 + ((content.drop pos).take n).length ≤ buf.size by rw [hlen]; omega)
  rw [hlen, Nat.zero_add, Buffer.front_zero, List.nil_append] at hfront
  refine ⟨buf', f', ?_, hf', hsize, hfront⟩
  simp only [readInto, hread, hcopy, ok_bind, hlen]

theorem readInto_rest (hf : f.At content pos) (hpos : pos ≤ content.length) (hn : content.length < pos + n)
    (hbuf : n ≤ buf.size) :
    ∃ buf' f', readInto f buf n = .ok ((content.drop pos).length, buf', f') ∧ f'.eof = true ∧ buf'.size = buf.size ∧
      buf'.front (content.drop pos).length = content.drop pos := by
  obtain ⟨f', hread, hf'⟩ := hf.read_rest hpos hn
  obtain ⟨buf', hcopy, hsize, hfront⟩ := Buffer.memcpy_ok
    (show 0 + (content.drop pos).length ≤ buf.size by rw [List.length_drop]; omega)
  rw [Nat.zero_add, Buffer.front_zero, List.nil_append] at hfront
  refine ⟨buf', f', ?_, hf', hsize, hfront⟩
  simp only [readInto, hread, hcopy, ok_bind]

end Pieces

/-! ## One range -/

namespace Response

/-- **The loop over one range** writes its bytes. -/
theorem singleLoop_sends {r : Response} (hr : r.Connected) {bufSize : ℕ} (hbufSize : 0 < bufSize) {content : Bytes}
    {fuel : ℕ}
    {size : ℕ} (hfuel : size < fuel) {pos : ℕ} (hfits : pos + size ≤ content.length) {f : InFile}
    (hf : f.At content pos) {buf : Buffer} (hbuf : buf.size = bufSize) :
    singleLoop bufSize false fuel size r f buf = .ok (r.put ((content.drop pos).take size)) := by
  induction fuel generalizing size pos r f buf with
  | zero => omega
  | succ fuel ih =>
    rw [singleLoop, if_neg (by rw [hf.eof_eq]; exact Bool.false_ne_true)]
    by_cases hle : size ≤ bufSize
    · -- the last piece
      obtain ⟨buf', f', hread, -, -, hfront⟩ := readInto_within hf hfits (hbuf.symm ▸ hle)
      simp only [if_pos hle, hread, ok_bind]
      by_cases hzero : size = 0
      · rw [if_pos hzero, hzero, List.take_zero, put_nil]
      · simp only [if_neg hzero, hr.writeBodyGood_plain, ok_bind, hfront]
    · -- a piece as large as the buffer
      obtain ⟨buf', f', hread, hf', hsize, hfront⟩ := readInto_within (n := bufSize) hf (by omega) hbuf.ge
      have hgood : 0 < (buf'.front bufSize).length := by
        rw [Buffer.length_front]
        exact hbufSize
      simp only [if_neg hle, hread, ok_bind, hr.writeBodyGood_plain, decide_eq_true hgood, if_true]
      rw [ih (hr.put _) (by omega) (by omega) hf' (hsize.trans hbuf), hfront, put_put, ← List.drop_drop,
        ← List.take_add, Nat.add_sub_cancel' (by omega)]

/-- **One range**: exactly its bytes are written behind the headers. -/
theorem sendRange_single {r : Response} (hr : r.Connected) (hchunked : r.isChunked = false) {bufSize : ℕ}
    (hsize : r.tcpIpBufferSize = .ok bufSize) (hbufSize : 0 < bufSize) {content : Bytes} {v : RangeValue}
    (hv : v.Within content.length) {f : InFile} {pos : ℕ} (hf : f.At content pos) (boundary ctLine : Bytes) :
    r.sendRange f boundary ctLine [v] = .ok (r.started.put (v.bytes content)) := by
  obtain ⟨hwrite, hstarted⟩ := hr.started
  have hfits := hv.fits
  rw [sendRange]
  simp only [hwrite, ok_bind, hstarted.bufferSize_eq, hsize, hstarted.isChunked_eq, hchunked]
  rw [singleLoop_sends hstarted.connected hbufSize (Nat.lt_succ_self _) hfits (hf.seekg _) rfl, hv.bytes_eq.1]

/-- `send_range` writes these bytes behind the headers. -/
def SendsBytes (r : Response) (f : InFile) (boundary ctLine : Bytes) (queue : List RangeValue) (data : Bytes) : Prop :=
  ∃ r₀ r', r.write [] = .ok r₀ ∧ r.sendRange f boundary ctLine queue = .ok r' ∧ r'.out = r₀.out ++ data

/-- **The only range**: `send_range` writes exactly its bytes, and `range_transfer` announces as many. -/
theorem singleRange_sent {r : Response} (hr : r.Connected) (hchunked : r.isChunked = false) {bufSize : ℕ}
    (hbuf : r.tcpIpBufferSize = .ok bufSize) (hbufSize : 0 < bufSize) {content : Bytes} {v : RangeValue}
    (hle : v.rangeBegin ≤ v.rangeEnd) (hlt : v.rangeEnd < content.length)
    (hsize : v.size = v.rangeEnd - v.rangeBegin + 1) {f : InFile} {pos : ℕ} (hf : f.At content pos)
    (boundary ctLine : Bytes) :
    r.SendsBytes f boundary ctLine [v] (v.bytes content) ∧
      ∀ r₀ boundary' mimeType rangeStr,
        rangeTransfer r₀ content.length boundary' mimeType rangeStr = .ok (r, .sendRange boundary ctLine [v]) →
          r.headers.find? Header.contentLength = some (formatNat 10 (v.bytes content).length) := by
  have hv : v.Within content.length := ⟨hle, hlt, hsize, by omega⟩
  refine ⟨⟨r.started, _, hr.started.1, sendRange_single hr hchunked hbuf hbufSize hv hf boundary ctLine,
    hr.started.2.connected.out_put _⟩, fun r₀ boundary' mimeType rangeStr htransfer => ?_⟩
  obtain ⟨item, w, -, rfl, -, -, hqueue⟩ := (handed_of_rangeTransfer htransfer).of_single rfl
  obtain rfl : v = w := List.singleton_injective hqueue
  rw [(find?_onlyRange r₀ mimeType v).2, hv.bytes_eq.2]

/-- A response on an open socket with a buffer of three bytes. -/
def overSmallBuffer : Response :=
  .new { Request.new with socket := some ⟨true, 3, [], [], []⟩, version := lit "1.1", path := lit "/" }

/-- Four of ten bytes, in a buffer of three. -/
theorem singleRange_sent_four : ∃ r v,
    rangeTransfer overSmallBuffer 10 (lit "b") (lit "text/plain") (lit "bytes=2-5") = .ok (r, .sendRange [] [] [v]) ∧
      r.SendsBytes (.opened (lit "0123456789")) [] [] [v] (lit "2345") ∧
      r.headers.find? Header.contentLength = some (lit "4") := by
  set v : RangeValue := ⟨[], 2, 5, 4⟩
  set r := (overSmallBuffer.setStatus .partialContent).onlyRange (lit "text/plain") v
  have htransfer : rangeTransfer overSmallBuffer 10 (lit "b") (lit "text/plain") (lit "bytes=2-5") =
      .ok (r, .sendRange [] [] [v]) := by
    decide
  obtain ⟨hsends, hlength⟩ := singleRange_sent (r := r) ⟨_, rfl, rfl⟩ (by decide) (rfl : r.tcpIpBufferSize = .ok 3)
    (by decide) (v := v) (by decide) (by decide : v.rangeEnd < (lit "0123456789").length) rfl (InFile.opened_at _) [] []
  refine ⟨r, v, htransfer, hsends, ?_⟩
  rw [hlength _ _ _ _ htransfer]
  decide

end Response

end Gts3.Http
