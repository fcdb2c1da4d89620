import Gts3.Http.Response

/-!
# What a response writes is one message

A response goes through three phases: nothing is written yet (`Fresh`), a chunked body is open (`Open`), or the
message is complete (`Complete`).  `Call.step` is what one call does to the phase, `runCalls_inv` what a run does, and
`writesOneResponse` the result: when every call meets `Call.Regular`, the bytes written until the destructor has run
are exactly one message.
-/

namespace Gts3.Http

open Lib Lib.Cxx Lib.HttpMessage

/-- A call on a response. -/
inductive Call
  | setHeader (key value : Bytes)
  | unsetHeader (key : Bytes)
  | setChunkAttribute (attr : Bytes)
  | write (body : Bytes)
  | writeDefault
  | chunkEnd (headers : Headers)
  deriving DecidableEq

namespace Call

/-- What the call does. -/
def run (g : WriteDefault) (r : Response) : Call → Run Response
  | setHeader key value => .ok (r.setHeader key value)
  | unsetHeader key => .ok (r.unsetHeader key)
  | setChunkAttribute attr => .ok (r.setChunkAttribute attr)
  | write body => r.write body
  | writeDefault => r.writeDefault g
  | chunkEnd headers => r.chunkEnd headers

/-- Whether the call is `write`. -/
def isWrite : Call → Bool
  | write _ => true
  | _ => false

/-- What a caller promises, in the state before the call: no header changes after the first write and none of them is
`Content-Length`, no line ends, and one `write` at most without the header `Transfer-Encoding: chunked`. -/
def Promised (written : Bool) (r : Response) : Call → Prop
  | setHeader key value =>
    r.headersWrited = false ∧ ¬ SameName key Header.contentLength ∧ NoLineEnd key ∧ NoLineEnd value
  | unsetHeader _ => r.headersWrited = false
  | setChunkAttribute attr => NoLineEnd attr
  | write _ => written = false ∨ r.transferEncodingChunked = true
  | writeDefault => True
  | chunkEnd headers => ∀ e ∈ headers.entries, FieldOk e

/-- The state before the call is one the call is right for: a body is written into an open chunked body when the
headers are out already, the default function is not needed, and `chunk_end` does not come before the headers. -/
def Regular (g : WriteDefault) (r : Response) : Call → Prop
  | write body => r.headersWrited = true → body ≠ [] → r.isChunked = true ∧ r.chunkEndWrited = false
  | writeDefault => r.headersWrited = true ∨ g = none
  | chunkEnd _ => r.headersWrited = true ∨ r.isChunked = false
  | _ => True

instance (written : Bool) (r : Response) (c : Call) : Decidable (c.Promised written r) := by
  cases c <;> unfold Promised <;> infer_instance

end Call

/-- A sequence of calls. -/
def runCalls (g : WriteDefault) : Response → List Call → Run Response
  | r, [] => .ok r
  | r, c :: cs => do runCalls g (← c.run g r) cs

/-- The caller keeps the promises all along. -/
def PromisedRun (g : WriteDefault) : Bool → Response → List Call → Prop
  | _, _, [] => True
  | written, r, c :: cs => c.Promised written r ∧ ∀ r', c.run g r = .ok r' → PromisedRun g (written || c.isWrite) r' cs

/-- Every call comes in a state that it is right for, and so does the destructor. -/
def RegularRun (g : WriteDefault) : Response → List Call → Prop
  | r, [] => r.headersWrited = true ∨ g = none
  | r, c :: cs => c.Regular g r ∧ ∀ r', c.run g r = .ok r' → RegularRun g r' cs

/-- The bytes written so far. -/
def Response.out (r : Response) : Bytes :=
  match r.request.socket with
  | none => []
  | some sock => sock.sent

/-- The calls and the destructor return, and what they write is one message. -/
def WritesOneResponse (g : WriteDefault) (request : Request) (calls : List Call) : Prop :=
  ∃ r r', runCalls g (.new request) calls = .ok r ∧ r.destroy g = .ok r' ∧
    ∃ message, r'.out = (Response.new request).out ++ message ∧ IsResponse request.version message

/-! ## Sending -/

namespace Response

/-- The socket is there and open. -/
def Connected (r : Response) : Prop := ∃ sock, r.request.socket = some sock ∧ sock.isOpen = true

/-- The response with more bytes written. -/
def put (r : Response) (data : Bytes) : Response :=
  { r with request := { r.request with socket := r.request.socket.map (·.writeSome data) } }

section Put

variable (r : Response) (data : Bytes)

@[simp] theorem put_headers : (r.put data).headers = r.headers := rfl
@[simp] theorem put_cookies : (r.put data).cookies = r.cookies := rfl
@[simp] theorem put_status : (r.put data).status = r.status := rfl
@[simp] theorem put_chunkAttributes : (r.put data).chunkAttributes = r.chunkAttributes := rfl
@[simp] theorem put_chunkEndWrited : (r.put data).chunkEndWrited = r.chunkEndWrited := rfl
@[simp] theorem put_headersWrited : (r.put data).headersWrited = r.headersWrited := rfl
@[simp] theorem put_version : (r.put data).request.version = r.request.version := rfl
@[simp] theorem put_websocket : (r.put data).request.websocket = r.request.websocket := rfl
@[simp] theorem put_isChunked : (r.put data).isChunked = r.isChunked := rfl
@[simp] theorem put_transferEncodingChunked : (r.put data).transferEncodingChunked = r.transferEncodingChunked := rfl
@[simp] theorem put_headersContains (key : Bytes) : (r.put data).headersContains key = r.headersContains key := rfl

@[simp] theorem put_isValid : (r.put data).request.isValid = r.request.isValid := by
  simp only [put, Request.isValid]
  cases r.request.socket <;> rfl

variable {r}

theorem Connected.put (h : r.Connected) : (r.put data).Connected := by
  obtain ⟨sock, hs, ho⟩ := h
  exact ⟨sock.writeSome data, by simp [Response.put, hs], ho⟩

theorem Connected.out_put (h : r.Connected) : (r.put data).out = r.out ++ data := by
  obtain ⟨sock, hs, -⟩ := h
  simp [out, Response.put, hs, TcpSocket.writeSome]

theorem Connected.send_eq (h : r.Connected) : r.send data = .ok (r.put data) := by
  obtain ⟨sock, hs, -⟩ := h
  simp [send, Response.put, hs]

end Put

theorem connected_of_isValid {r : Response} (h : r.request.isValid = true) : r.Connected := by
  unfold Request.isValid at h
  cases hs : r.request.socket with
  | none => simp [hs] at h
  | some sock =>
    refine ⟨sock, hs, ?_⟩
    cases ho : sock.isOpen with
    | true => rfl
    | false => simp [hs, ho] at h

theorem put_nil (r : Response) : r.put [] = r := by
  obtain ⟨request, status, cookies, headers, attrs, ended, written⟩ := r
  obtain ⟨k, gz, ws, rs, rc, socket, m, v, pa, ps, h, c, pstr, b⟩ := request
  cases socket <;> simp [put, TcpSocket.writeSome]

theorem Connected.writeBody_plain {r : Response} (h : r.Connected) (body : Bytes) :
    r.writeBody body false = .ok (r.put body) := by
  obtain ⟨sock, hs, ho⟩ := id h
  simp only [writeBody, hs, ho, Bool.true_eq_false, if_false, if_true]
  exact h.send_eq body

/-- The response with its headers written. -/
def headersSent (r : Response) : Response :=
  { r with headers := r.headers.erase (lit "set-cookie") }.put
    (block (statusLine r.request.version r.status.code (statusDescription r.status))
      (r.headers.erase (lit "set-cookie")).entries)

theorem find?_erase_setCookie (m : Headers) {key : Bytes} (h : ¬ SameName (lit "set-cookie") key) :
    (m.erase (lit "set-cookie")).find? key = m.find? key := by
  rw [OrdMap.find?_erase, if_neg (fun hs => h ((same_lessCaseInsensitive _ _).mp hs))]

theorem headersSent_find? (r : Response) {key : Bytes} (h : ¬ SameName (lit "set-cookie") key) :
    r.headersSent.headers.find? key = r.headers.find? key := find?_erase_setCookie r.headers h

theorem headersSent_isChunked (r : Response) : r.headersSent.isChunked = r.isChunked := by
  unfold isChunked transferEncodingChunked
  rw [headersSent_find? r (by decide)]
  rfl

theorem Connected.headersSent {r : Response} (h : r.Connected) : r.headersSent.Connected :=
  Connected.put (r := { r with headers := r.headers.erase (lit "set-cookie") }) _ h

theorem Connected.out_headersSent {r : Response} (h : r.Connected) :
    r.headersSent.out = r.out ++ block (statusLine r.request.version r.status.code (statusDescription r.status))
      (r.headers.erase (lit "set-cookie")).entries :=
  Connected.out_put (r := { r with headers := r.headers.erase (lit "set-cookie") }) _ h

/-- **Sending the headers**: one block, from the map without `set-cookie`. -/
theorem Connected.sendHeaders_eq {r : Response} (h : r.Connected) (hc : r.cookies = UMap.empty) :
    r.sendHeaders = .ok r.headersSent := by
  have h' : ({ r with headers := r.headers.erase (lit "set-cookie") } : Response).Connected := h
  simp only [sendHeaders, serializeHeadersAndCookies, h'.send_eq, Response.headersSent]
  congr 2
  simp only [statusText, statusLine, serialize, hc, UMap.empty, List.flatMap_nil, List.append_nil, block]
  rfl

/-- A response whose headers are out writes the body only. -/
theorem write_again {r : Response} (hw : r.headersWrited = true) (body : Bytes) :
    r.write body = if body.length > 0 then r.writeBody body r.isChunked else .ok r := by
  simp only [write, hw, Bool.true_eq_false, if_false, ok_bind]

/-- The response whose first write this is: headers, and then the body. -/
theorem write_first {r : Response} (hw : r.headersWrited = false) (body : Bytes) {r₁ : Response}
    (hr₁ : ({ r with headersWrited := true } : Response).prepareHeaders body.length = r₁) (h₁ : r₁.Connected)
    (hc₁ : r₁.cookies = UMap.empty) :
    r.write body = if body.length > 0 then r₁.headersSent.writeBody body r₁.isChunked else .ok r₁.headersSent := by
  simp only [write, hw, if_true, hr₁, h₁.sendHeaders_eq hc₁, ok_bind, headersSent_isChunked]

end Response

/-! ## Header maps -/

theorem fieldOk_entries_assign {m : Headers} {key value : Bytes} (hm : ∀ e ∈ m.entries, FieldOk e)
    (hk : NoLineEnd key) (hv : NoLineEnd value) : ∀ e ∈ (m.assign key value).entries, FieldOk e := by
  intro e he
  rcases OrdMap.mem_assign he with rfl | ⟨h2, e', he', h1⟩ | he
  · exact ⟨hk, hv⟩
  · exact ⟨h1 ▸ (hm e' he').1, h2 ▸ hv⟩
  · exact hm e he

theorem fieldOk_entries_erase {m : Headers} {key : Bytes} (hm : ∀ e ∈ m.entries, FieldOk e) :
    ∀ e ∈ (m.erase key).entries, FieldOk e := fun e he => hm e (OrdMap.mem_erase he)

theorem announcesLength_of_find {m : Headers} {n : ℕ} (h : m.find? Header.contentLength = some (formatNat 10 n)) :
    AnnouncesLength m.entries n := by
  have hdigits : formatNat 10 n ≠ [] ∧ (∀ c ∈ formatNat 10 n, digitVal c < 10) ∧ numeral 10 (formatNat 10 n) = n :=
    ⟨formatNat_ne_nil n, digitVal_lt_of_mem_formatNat (by omega) (by omega) n,
      numeral_formatNat (by omega) (by omega) n⟩
  refine ⟨?_, fun f hf hs => ?_⟩
  · obtain ⟨e, he, hs, -⟩ := OrdMap.find?_eq_some_mem h
    exact ⟨e, he, (same_lessCaseInsensitive _ _).mp hs⟩
  · have hfind := OrdMap.find?_of_mem hf ((same_lessCaseInsensitive _ _).mpr hs)
    rw [show lit "Content-Length" = Header.contentLength from rfl, h] at hfind
    have hval : f.2 = formatNat 10 n := by simpa using hfind.symm
    rw [hval]
    exact hdigits

theorem announcesChunked_of_find {m : Headers} {v : Bytes} (hcl : m.find? Header.contentLength = none)
    (hte : m.find? Header.transferEncoding = some v) (hv : strToLower v = lit "chunked") :
    AnnouncesChunked m.entries := by
  refine ⟨fun f hf hs => OrdMap.find?_eq_none.mp hcl f hf ((same_lessCaseInsensitive _ _).mpr hs), ?_⟩
  obtain ⟨e, he, hs, rfl⟩ := OrdMap.find?_eq_some_mem hte
  exact ⟨e, he, (same_lessCaseInsensitive _ _).mp hs, hv⟩

/-! ## The phases -/

section Phases

variable (version base : Bytes)

/-- Nothing is written yet, and nobody has set a length. -/
structure Fresh (r : Response) : Prop where
  unwritten : r.headersWrited = false
  unended : r.chunkEndWrited = false
  noLength : r.headers.find? Header.contentLength = none
  fields : ∀ e ∈ r.headers.entries, FieldOk e
  out : r.out = base

/-- The headers and some chunks are written. -/
structure Open (r : Response) : Prop where
  written : r.headersWrited = true
  unended : r.chunkEndWrited = false
  noLength : r.headers.find? Header.contentLength = none
  chunked : r.isChunked = true
  out : ∃ code reason fields cs,
    r.out = base ++ (block (statusLine version code reason) fields ++ chunkText cs) ∧
      NoLineEnd (statusLine version code reason) ∧ (∀ f ∈ fields, FieldOk f) ∧ AnnouncesChunked fields

/-- A whole message is written. -/
structure Complete (r : Response) : Prop where
  written : r.headersWrited = true
  closed : r.headersContains Header.contentLength = true ∨ r.chunkEndWrited = true
  noChunk : r.chunkEndWrited = true ∨ r.isChunked = false
  out : ∃ message, r.out = base ++ message ∧ IsResponse version message

/-- What holds between calls. -/
structure Response.Inv (r : Response) : Prop where
  valid : r.request.isValid = true
  version_eq : r.request.version = version
  cookies_eq : r.cookies = UMap.empty
  attributes : ∀ a ∈ r.chunkAttributes, NoLineEnd a
  phase : Fresh base r ∨ Open version base r ∨ Complete version base r

end Phases

variable {version base : Bytes} {g : WriteDefault}

theorem Response.Inv.connected {r : Response} (h : r.Inv version base) : r.Connected :=
  Response.connected_of_isValid h.valid

theorem noLineEnd_statusLine (hversion : NoLineEnd version) (s : Status) :
    NoLineEnd (statusLine version s.code (statusDescription s)) := by
  have hcode : NoLineEnd (formatNat 10 s.code) :=
    noLineEnd_of_digits (by omega) (digitVal_lt_of_mem_formatNat (by omega) (by omega) s.code)
  have hlit : NoLineEnd (lit "HTTP/") ∧ NoLineEnd (lit " ") := by decide
  exact ((((hlit.1.append hversion).append hlit.2).append hcode).append hlit.2).append
    (statusDescription_noLineEnd s)

theorem isChunked_eq {r : Response} (h : r.isChunked = true) :
    r.request.version = lit "1.1" ∧ ∃ v, r.headers.find? Header.transferEncoding = some v ∧
      strToLower v = lit "chunked" := by
  unfold Response.isChunked at h
  split_ifs at h with hv
  refine ⟨not_not.mp hv, ?_⟩
  unfold Response.transferEncodingChunked at h
  cases hf : r.headers.find? Header.transferEncoding with
  | none => simp [hf] at h
  | some v => exact ⟨v, rfl, by simpa [hf] using h⟩

/-! ## `write` -/

theorem sendChunk {r : Response} (hr : r.Connected) (hattrs : ∀ a ∈ r.chunkAttributes, NoLineEnd a) {body : Bytes}
    (hbody : body ≠ []) :
    ∃ c : Chunk, c.data = body ∧ r.writeBody body true = .ok ({ r with chunkAttributes := [] }.put c.bytes) := by
  have hdigits : NoLineEnd (formatNat 16 body.length) :=
    noLineEnd_of_digits (by omega) (digitVal_lt_of_mem_formatNat (by omega) (by omega) _)
  have hpos : body.length > 0 := List.length_pos_iff.mpr hbody
  obtain ⟨ext, hext, hsemi, hsize⟩ : ∃ ext, NoLineEnd ext ∧ (ext = [] ∨ [59] <+: ext) ∧
      r.sendChunkSize body.length =
        .ok ({ r with chunkAttributes := [] }.put (formatNat 16 body.length ++ ext ++ crlf)) := by
    by_cases ha : r.chunkAttributes = []
    · refine ⟨[], by simp [NoLineEnd], Or.inl rfl, ?_⟩
      have hrec : ({ r with chunkAttributes := [] } : Response) = r := by rw [← ha]
      rw [Response.sendChunkSize, if_pos ha, hr.send_eq, hrec, List.append_nil]
    · refine ⟨lit "; " ++ (r.chunkAttributes.flatMap (fun attr => attr ++ lit ";")).dropLast, ?_, Or.inr ?_, ?_⟩
      · refine NoLineEnd.append (by decide) fun c hc => ?_
        obtain ⟨a, hmem, hca⟩ := List.mem_flatMap.mp (List.mem_of_mem_dropLast hc)
        exact (hattrs a hmem).append (by decide : NoLineEnd (lit ";")) c hca
      · exact ⟨_, rfl⟩
      · have hr' : ({ r with chunkAttributes := [] } : Response).Connected := hr
        rw [Response.sendChunkSize, if_neg ha, hr'.send_eq]
        simp only [List.append_assoc]
  obtain ⟨sock, hs, ho⟩ := id hr
  refine ⟨⟨formatNat 16 body.length, ext, body, digitVal_lt_of_mem_formatNat (by omega) (by omega) _,
    numeral_formatNat (by omega) (by omega) _, hbody, (hdigits.append hext).find_crlf, hsemi⟩, rfl, ?_⟩
  have hr' : ({ r with chunkAttributes := [] } : Response).Connected := hr
  simp only [Response.writeBody, hs, ho, Bool.true_eq_false, if_false, hsize, ok_bind, (hr'.put _).send_eq, hpos,
    if_true, ((hr'.put _).put _).send_eq]
  simp only [Response.put, hs, Option.map_some, TcpSocket.writeSome, Chunk.bytes, Chunk.sizeLine, List.append_assoc]

/-- **A body in an open chunked message.** -/
theorem Response.Inv.write_open {r : Response} (h : r.Inv version base) (hopen : Open version base r) (body : Bytes) :
    ∃ r', r.write body = .ok r' ∧ r'.Inv version base := by
  by_cases hbody : body = []
  · refine ⟨r, ?_, h⟩
    simp [Response.write, hopen.written, hbody]
  obtain ⟨c, -, hc⟩ := sendChunk h.connected h.attributes hbody
  have hpos : body.length > 0 := List.length_pos_iff.mpr hbody
  refine ⟨_, by rw [Response.write_again hopen.written, if_pos hpos, hopen.chunked, hc], ?_⟩
  obtain ⟨code, reason, fields, cs, hout, hstart, hfields, hann⟩ := hopen.out
  have hconn : ({ r with chunkAttributes := [] } : Response).Connected := h.connected
  refine ⟨by simpa using h.valid, h.version_eq, h.cookies_eq, by simp, Or.inr (Or.inl ⟨hopen.written, hopen.unended,
    hopen.noLength, hopen.chunked, code, reason, fields, cs ++ [c], ?_, hstart, hfields, hann⟩)⟩
  rw [hconn.out_put, show ({ r with chunkAttributes := [] } : Response).out = r.out from rfl, hout, chunkText_append]
  simp only [List.append_assoc]

theorem prepareHeaders_sized {r : Response} (hcl : r.headers.find? Header.contentLength = none)
    (hc : r.isChunked = false) (n : ℕ) :
    r.prepareHeaders n = r.setHeader Header.contentLength (formatNat 10 n) := by
  unfold Response.prepareHeaders Response.headersContains
  rw [hcl]
  unfold Response.isChunked at hc
  split_ifs with h1 h2 h3
  · simp at h1
  · simp [h2, h3] at hc
  · rfl
  · rfl

theorem prepareHeaders_chunked {r : Response} (hc : r.isChunked = true) (n : ℕ) : r.prepareHeaders n = r := by
  unfold Response.prepareHeaders
  obtain ⟨hv, v, hte, hval⟩ := isChunked_eq hc
  have htec : r.transferEncodingChunked = true := by simp [Response.transferEncodingChunked, hte, hval]
  split_ifs <;> simp_all

/-- A message with a length is complete once the body is out. -/
theorem complete_sized {r : Response} (hconn : r.Connected) (hversion : NoLineEnd r.request.version)
    (hw : r.headersWrited = true) (hfields : ∀ e ∈ r.headers.entries, FieldOk e) {body : Bytes}
    (hcl : r.headers.find? Header.contentLength = some (formatNat 10 body.length)) (hc : r.isChunked = false) :
    Complete r.request.version r.out (r.headersSent.put body) := by
  have hcl' : r.headersSent.headers.find? Header.contentLength = some (formatNat 10 body.length) := by
    rw [Response.headersSent_find? r (by decide), hcl]
  refine ⟨hw, Or.inl ?_, Or.inr ?_, _, ?_, r.status.code, statusDescription r.status, _, body, rfl,
    noLineEnd_statusLine hversion r.status, fieldOk_entries_erase hfields, Or.inl (announcesLength_of_find hcl')⟩
  · simp [Response.headersContains, hcl']
  · rw [Response.put_isChunked, Response.headersSent_isChunked, hc]
  · rw [hconn.headersSent.out_put, hconn.out_headersSent, List.append_assoc]

theorem noLineEnd_length (n : ℕ) : NoLineEnd (formatNat 10 n) :=
  noLineEnd_of_digits (by omega) (digitVal_lt_of_mem_formatNat (by omega) (by omega) n)

/-- Another header with the length does not make a response chunked. -/
theorem setLength_isChunked (r : Response) (v : Bytes) :
    (r.setHeader Header.contentLength v).isChunked = r.isChunked := by
  have hte : (r.headers.assign Header.contentLength v).find? Header.transferEncoding =
      r.headers.find? Header.transferEncoding := by
    rw [OrdMap.find?_assign, if_neg (by decide)]
  simp only [Response.isChunked, Response.transferEncodingChunked, Response.setHeader, hte]

/-- The response before its headers, with the length of its body. -/
def Response.sized (r : Response) (n : ℕ) : Response :=
  { r with headersWrited := true }.setHeader Header.contentLength (formatNat 10 n)

theorem Response.Inv.of_sent {r q : Response} (h : r.Inv version base) (hreq : q.request = r.request)
    (hcookies : q.cookies = r.cookies) (hattrs : q.chunkAttributes = r.chunkAttributes) {body : Bytes}
    (hphase : Open version base (q.headersSent.put body) ∨ Complete version base (q.headersSent.put body)) :
    (q.headersSent.put body).Inv version base where
  valid := by
    rw [Response.put_isValid, Response.headersSent, Response.put_isValid]
    exact hreq ▸ h.valid
  version_eq := (congrArg Request.version hreq).trans h.version_eq
  cookies_eq := hcookies.trans h.cookies_eq
  attributes := by
    intro a ha
    exact h.attributes a (hattrs ▸ ha)
  phase := Or.inr hphase

/-- **The first body** of a response that is not chunked. -/
theorem Response.Inv.write_sized {r : Response} (hversion : NoLineEnd version) (h : r.Inv version base)
    (hf : Fresh base r) (hc : r.isChunked = false) (body : Bytes) :
    ∃ r', r.write body = .ok r' ∧ r'.Inv version base := by
  obtain rfl := h.version_eq
  obtain rfl := hf.out
  have hconn : ({ r with headersWrited := true } : Response).Connected := h.connected
  have hconn₁ : (r.sized body.length).Connected := h.connected
  have hc₁ : (r.sized body.length).isChunked = false := (setLength_isChunked _ _).trans hc
  have hprep : ({ r with headersWrited := true } : Response).prepareHeaders body.length = r.sized body.length :=
    prepareHeaders_sized (r := { r with headersWrited := true }) hf.noLength hc body.length
  have hwrite : r.write body = .ok ((r.sized body.length).headersSent.put body) := by
    rw [Response.write_first hf.unwritten body hprep hconn₁ h.cookies_eq, hc₁, hconn₁.headersSent.writeBody_plain]
    split_ifs with hpos
    · rfl
    · rw [List.length_eq_zero_iff.mp (Nat.eq_zero_of_not_pos hpos), Response.put_nil]
  refine ⟨_, hwrite, h.of_sent (q := r.sized body.length) rfl rfl rfl (Or.inr ?_)⟩
  exact complete_sized hconn₁ hversion rfl (fieldOk_entries_assign hf.fields (by decide) (noLineEnd_length _))
    (OrdMap.find?_assign_self _ _ _) hc₁

theorem open_headersSent {r : Response} (hconn : r.Connected) (hversion : NoLineEnd r.request.version)
    (hw : r.headersWrited = true) (he : r.chunkEndWrited = false) (hfields : ∀ e ∈ r.headers.entries, FieldOk e)
    (hcl : r.headers.find? Header.contentLength = none) (hc : r.isChunked = true) :
    Open r.request.version r.out r.headersSent := by
  obtain ⟨-, v, hte, hv⟩ := isChunked_eq hc
  have hcl' : r.headersSent.headers.find? Header.contentLength = none := by
    rw [Response.headersSent_find? r (by decide), hcl]
  have hte' : r.headersSent.headers.find? Header.transferEncoding = some v := by
    rw [Response.headersSent_find? r (by decide), hte]
  refine ⟨hw, he, hcl', (Response.headersSent_isChunked r).trans hc, r.status.code, statusDescription r.status,
    r.headersSent.headers.entries, [], ?_, noLineEnd_statusLine hversion r.status, fieldOk_entries_erase hfields,
    announcesChunked_of_find hcl' hte' hv⟩
  rw [hconn.out_headersSent, show chunkText [] = [] from rfl, List.append_nil]
  rfl

/-- **The first body** of a chunked response. -/
theorem Response.Inv.write_chunked {r : Response} (hversion : NoLineEnd version) (h : r.Inv version base)
    (hf : Fresh base r) (hc : r.isChunked = true) (body : Bytes) :
    ∃ r', r.write body = .ok r' ∧ r'.Inv version base := by
  obtain rfl := h.version_eq
  obtain rfl := hf.out
  have hconn : ({ r with headersWrited := true } : Response).Connected := h.connected
  have hc₁ : ({ r with headersWrited := true } : Response).isChunked = true := hc
  have hopen : Open r.request.version r.out ({ r with headersWrited := true } : Response).headersSent :=
    open_headersSent hconn hversion rfl hf.unended hf.fields hf.noLength hc₁
  have hinv : ({ r with headersWrited := true } : Response).headersSent.Inv r.request.version r.out := by
    rw [← Response.put_nil (Response.headersSent _)]
    exact h.of_sent (q := { r with headersWrited := true }) rfl rfl rfl (Or.inl (by rwa [Response.put_nil]))
  -- behind the headers, the body goes into an open message
  obtain ⟨r', hr', hinv'⟩ := hinv.write_open hopen body
  refine ⟨r', ?_, hinv'⟩
  rw [← hr', Response.write_first hf.unwritten body (prepareHeaders_chunked hc₁ _) hconn h.cookies_eq,
    Response.write_again hopen.written, hopen.chunked, hc₁]

/-! ## `write_default`, `chunk_end` and the other calls -/

/-- **The default answer** of a fresh response without a default function. -/
theorem Response.Inv.writeDefault_fresh {r : Response} (hversion : NoLineEnd version) (h : r.Inv version base)
    (hf : Fresh base r) : ∃ r', r.writeDefault none = .ok r' ∧ r'.Inv version base ∧ Complete version base r' := by
  obtain rfl := h.version_eq
  obtain rfl := hf.out
  set body := Response.defaultBody r.status
  have hconn₁ : ((r.sized body.length).unsetHeader Header.transferEncoding).Connected := h.connected
  have hc₁ : ((r.sized body.length).unsetHeader Header.transferEncoding).isChunked = false := by
    unfold Response.isChunked Response.transferEncodingChunked Response.unsetHeader
    rw [OrdMap.find?_erase, if_pos (Same.refl _)]
    simp
  have hcl : ((r.sized body.length).unsetHeader Header.transferEncoding).headers.find? Header.contentLength =
      some (formatNat 10 body.length) := by
    rw [Response.unsetHeader, OrdMap.find?_erase, if_neg (by decide)]
    exact OrdMap.find?_assign_self _ _ _
  have hcomplete := complete_sized hconn₁ hversion rfl
    (fieldOk_entries_erase (fieldOk_entries_assign hf.fields (by decide) (noLineEnd_length _))) hcl hc₁
  have hinv := h.of_sent (q := (r.sized body.length).unsetHeader Header.transferEncoding) rfl rfl rfl
    (Or.inr hcomplete)
  refine ⟨_, ?_, hinv, hcomplete⟩
  rw [Response.writeDefault, hf.unwritten]
  simp only [Bool.false_eq_true, if_false]
  change (do
    let r ← ((r.sized body.length).unsetHeader Header.transferEncoding).sendHeaders
    r.send body) = _
  rw [hconn₁.sendHeaders_eq h.cookies_eq, ok_bind, hconn₁.headersSent.send_eq]

/-- **The last chunk** of an open chunked message. -/
theorem Response.Inv.chunkEnd_open {r : Response} (h : r.Inv version base) (hopen : Open version base r)
    {headers : Headers} (hheaders : ∀ e ∈ headers.entries, FieldOk e) :
    ∃ r', r.chunkEnd headers = .ok r' ∧ r'.Inv version base ∧ Complete version base r' := by
  obtain ⟨hv, v, hte, hval⟩ := isChunked_eq hopen.chunked
  have htec : r.transferEncodingChunked = true := by simp [Response.transferEncodingChunked, hte, hval]
  have hcl : r.headersContains Header.contentLength = false := by simp [Response.headersContains, hopen.noLength]
  have hconn : ({ r with chunkEndWrited := true } : Response).Connected := h.connected
  set trailer := headers.entries.flatMap fieldLine ++ crlf
  have hrun : r.chunkEnd headers =
      .ok (({ r with chunkEndWrited := true } : Response).put (lit "0\r\n") |>.put trailer) := by
    rw [Response.chunkEnd, if_neg (by simp [hcl, hopen.unended]), if_neg (not_not.mpr hv), if_neg (by simp [htec])]
    simp only [hconn.send_eq, ok_bind, (hconn.put _).send_eq]
    rfl
  obtain ⟨code, reason, fields, cs, hout, hstart, hfields, hann⟩ := hopen.out
  have hcomplete : Complete version base
      (({ r with chunkEndWrited := true } : Response).put (lit "0\r\n") |>.put trailer) := by
    refine ⟨hopen.written, Or.inr rfl, Or.inl rfl, _, ?_, code, reason, fields,
      chunkText cs ++ (lit "0" ++ crlf ++ headers.entries.flatMap fieldLine ++ crlf), rfl, hstart, hfields,
      Or.inr ⟨h.version_eq ▸ hv, hann, cs, ⟨lit "0", [], by decide, by decide, by decide, by decide, Or.inl rfl⟩,
        headers.entries, hheaders, rfl⟩⟩
    rw [(hconn.put _).out_put, hconn.out_put, show ({ r with chunkEndWrited := true } : Response).out = r.out from rfl,
      hout, show lit "0\r\n" = lit "0" ++ crlf from rfl]
    simp only [List.append_assoc, trailer]
  refine ⟨_, hrun, ⟨?_, h.version_eq, h.cookies_eq, h.attributes, Or.inr (Or.inr hcomplete)⟩, hcomplete⟩
  rw [Response.put_isValid, Response.put_isValid]
  exact h.valid

/-- `chunk_end` does nothing unless a chunked message is open. -/
theorem chunkEnd_nothing {r : Response} (h : r.headersContains Header.contentLength = true ∨ r.chunkEndWrited = true ∨
    r.isChunked = false) (headers : Headers) : r.chunkEnd headers = .ok r := by
  unfold Response.chunkEnd
  split_ifs with h1 h2 h3
  · rfl
  · rfl
  · rfl
  · exfalso
    unfold Response.isChunked at h
    rw [if_neg h2] at h
    simp only [not_or, Bool.not_eq_true] at h1 h3
    simp [h1.1, h1.2, h3] at h

/-- **One call** keeps the phases. -/
theorem Call.step {r : Response} (hversion : NoLineEnd version) (h : r.Inv version base) {written : Bool} (c : Call)
    (hp : c.Promised written r) (hr : c.Regular g r) : ∃ r', c.run g r = .ok r' ∧ r'.Inv version base := by
  cases c with
  | setHeader key value =>
    obtain ⟨hw, hkey, hk, hv⟩ := hp
    refine ⟨_, rfl, h.valid, h.version_eq, h.cookies_eq, h.attributes, ?_⟩
    rcases h.phase with hf | ho | hc
    · refine Or.inl ⟨hw, hf.unended, ?_, fieldOk_entries_assign hf.fields hk hv, hf.out⟩
      have hns : ¬ Same lessCaseInsensitive key Header.contentLength :=
        fun hs => hkey ((same_lessCaseInsensitive _ _).mp hs)
      rw [Response.setHeader, OrdMap.find?_assign, if_neg hns, hf.noLength]
    · exact absurd (hw.symm.trans ho.written) (by decide)
    · exact absurd (hw.symm.trans hc.written) (by decide)
  | unsetHeader key =>
    refine ⟨_, rfl, h.valid, h.version_eq, h.cookies_eq, h.attributes, ?_⟩
    rcases h.phase with hf | ho | hc
    · refine Or.inl ⟨hp, hf.unended, ?_, fieldOk_entries_erase hf.fields, hf.out⟩
      rw [Response.unsetHeader, OrdMap.find?_erase, hf.noLength, ite_self]
    · exact absurd (hp.symm.trans ho.written) (by decide)
    · exact absurd (hp.symm.trans hc.written) (by decide)
  | setChunkAttribute attr =>
    refine ⟨_, rfl, h.valid, h.version_eq, h.cookies_eq, ?_, ?_⟩
    · intro a ha
      rcases List.mem_append.mp ha with ha | ha
      · exact h.attributes a ha
      · obtain rfl : a = attr := by simpa using ha
        exact hp
    · rcases h.phase with hf | ho | hc
      · exact Or.inl ⟨hf.unwritten, hf.unended, hf.noLength, hf.fields, hf.out⟩
      · exact Or.inr (Or.inl ⟨ho.written, ho.unended, ho.noLength, ho.chunked, ho.out⟩)
      · exact Or.inr (Or.inr ⟨hc.written, hc.closed, hc.noChunk, hc.out⟩)
  | write body =>
    rcases h.phase with hf | ho | hc
    · cases hch : r.isChunked with
      | false => exact h.write_sized hversion hf hch body
      | true => exact h.write_chunked hversion hf hch body
    · exact h.write_open ho body
    · -- the message is complete, so there is nothing left to write
      refine ⟨r, ?_, h⟩
      by_cases hb : body = []
      · rw [Call.run, Response.write_again hc.written, hb]
        rfl
      · obtain ⟨h1, h2⟩ := hr hc.written hb
        rcases hc.noChunk with h3 | h3
        · exact absurd (h2.symm.trans h3) (by decide)
        · exact absurd (h1.symm.trans h3) (by decide)
  | writeDefault =>
    cases hw : r.headersWrited with
    | true => exact ⟨r, by simp [Call.run, Response.writeDefault, hw], h⟩
    | false =>
      have hg : g = none := by
        rcases hr with hr | hr
        · exact absurd (hw.symm.trans hr) (by decide)
        · exact hr
      subst hg
      rcases h.phase with hf | ho | hc
      · obtain ⟨r', hrun, hinv, -⟩ := h.writeDefault_fresh hversion hf
        exact ⟨r', hrun, hinv⟩
      · exact absurd (hw.symm.trans ho.written) (by decide)
      · exact absurd (hw.symm.trans hc.written) (by decide)
  | chunkEnd headers =>
    rcases h.phase with hf | ho | hc
    · have hch : r.isChunked = false := by
        rcases hr with hr | hr
        · exact absurd (hf.unwritten.symm.trans hr) (by decide)
        · exact hr
      exact ⟨r, chunkEnd_nothing (Or.inr (Or.inr hch)) headers, h⟩
    · obtain ⟨r', hrun, hinv, -⟩ := h.chunkEnd_open ho hp
      exact ⟨r', hrun, hinv⟩
    · refine ⟨r, chunkEnd_nothing ?_ headers, h⟩
      rcases hc.closed with h1 | h1
      · exact Or.inl h1
      · exact Or.inr (Or.inl h1)

/-! ## Runs -/

/-- **Every run** of regular calls keeps the phases, and ends where the destructor may come. -/
theorem runCalls_inv {r : Response} (hversion : NoLineEnd version) (h : r.Inv version base) {calls : List Call}
    {written : Bool} (hp : PromisedRun g written r calls) (hr : RegularRun g r calls) :
    ∃ r', runCalls g r calls = .ok r' ∧ r'.Inv version base ∧ (r'.headersWrited = true ∨ g = none) := by
  induction calls generalizing r written with
  | nil => exact ⟨r, rfl, h, hr⟩
  | cons c calls ih =>
    obtain ⟨hpc, hps⟩ := hp
    obtain ⟨hrc, hrs⟩ := hr
    obtain ⟨r₁, hrun, h₁⟩ := c.step hversion h hpc hrc
    obtain ⟨r', hrun', h', hw⟩ := ih h₁ (hps r₁ hrun) (hrs r₁ hrun)
    exact ⟨r', by rw [runCalls, hrun, ok_bind, hrun'], h', hw⟩

theorem Response.Inv.destroy {r : Response} (hversion : NoLineEnd version) (h : r.Inv version base)
    (hw : r.headersWrited = true ∨ g = none) : ∃ r', r.destroy g = .ok r' ∧ Complete version base r' := by
  have hclose : ∀ r : Response, Complete version base r → r.chunkEnd OrdMap.empty = .ok r := by
    intro r hc
    refine chunkEnd_nothing ?_ _
    rcases hc.closed with h1 | h1
    · exact Or.inl h1
    · exact Or.inr (Or.inl h1)
  rw [Response.destroy, if_neg (by simp [h.valid])]
  rcases h.phase with hf | ho | hc
  · obtain rfl : g = none := by
      rcases hw with hw | hw
      · exact absurd (hf.unwritten.symm.trans hw) (by decide)
      · exact hw
    rw [if_pos hf.unwritten]
    have key : ∀ r₁ : Response, r₁.Inv version base → Fresh base r₁ → ∃ r',
        (r₁.writeDefault none >>= fun r => r.chunkEnd OrdMap.empty) = .ok r' ∧ Complete version base r' := by
      intro r₁ h₁ hf₁
      obtain ⟨r', hrun, -, hcomplete⟩ := h₁.writeDefault_fresh hversion hf₁
      exact ⟨r', by rw [hrun, ok_bind, hclose r' hcomplete], hcomplete⟩
    split_ifs with hws
    · exact key _ ⟨h.valid, h.version_eq, h.cookies_eq, h.attributes, Or.inl ⟨hf.unwritten, hf.unended, hf.noLength,
        hf.fields, hf.out⟩⟩ ⟨hf.unwritten, hf.unended, hf.noLength, hf.fields, hf.out⟩
    · exact key r h hf
  · obtain ⟨r', hrun, -, hcomplete⟩ := h.chunkEnd_open ho
      (show ∀ e ∈ (OrdMap.empty : Headers).entries, FieldOk e by simp [OrdMap.empty])
    refine ⟨r', ?_, hcomplete⟩
    simp only [ho.written, Bool.true_eq_false, if_false, ok_bind, hrun]
  · refine ⟨r, ?_, hc⟩
    simp only [hc.written, Bool.true_eq_false, if_false, ok_bind, hclose r hc]

theorem fieldOk_new (request : Request) : ∀ e ∈ (Response.new request).headers.entries, FieldOk e :=
  fieldOk_entries_assign (by simp [OrdMap.empty]) (by decide) (by decide)

theorem inv_new {request : Request} (hvalid : request.isValid = true) :
    (Response.new request).Inv request.version (Response.new request).out :=
  ⟨hvalid, rfl, rfl, by simp [Response.new], Or.inl ⟨rfl, rfl, rfl, fieldOk_new request, rfl⟩⟩

/-- **One message.**  Calls that keep the promises and that all come in states they are right for write, together
with the destructor, exactly one message. -/
theorem writesOneResponse {request : Request} (hvalid : request.isValid = true) (hversion : NoLineEnd request.version)
    {calls : List Call} (hp : PromisedRun g false (.new request) calls) (hr : RegularRun g (.new request) calls) :
    WritesOneResponse g request calls := by
  obtain ⟨r, hrun, hinv, hw⟩ := runCalls_inv hversion (inv_new hvalid) hp hr
  obtain ⟨r', hdestroy, hcomplete⟩ := hinv.destroy hversion hw
  obtain ⟨message, hout, hmessage⟩ := hcomplete.out
  exact ⟨r, r', hrun, hdestroy, message, hout, hmessage⟩

/-- A request for `/` on a connection that reads nothing more. -/
def plainRequest : Request :=
  { Request.new with socket := some ⟨true, 1024, [], [], []⟩, version := lit "1.1", path := lit "/" }

/-- A chunked answer. -/
theorem writesOneResponse_chunked : WritesOneResponse none plainRequest
    [.setHeader (lit "Transfer-Encoding") (lit "chunked"), .write (lit "a")] := by
  refine writesOneResponse (by decide) (by decide) ⟨by decide, fun r hr => ⟨Or.inl rfl, fun _ _ => trivial⟩⟩
    ⟨trivial, fun r hr => ⟨fun hw => ?_, fun _ _ => Or.inr rfl⟩⟩
  obtain rfl : (Response.new plainRequest).setHeader (lit "Transfer-Encoding") (lit "chunked") = r := by
    simpa [Call.run] using hr
  exact absurd hw (by decide)

/-- With a default function that writes, the default answer has no header. -/
theorem not_writesOneResponse_default :
    ¬ ∀ (g : WriteDefault) (request : Request) (calls : List Call), request.isValid = true →
      PromisedRun g false (.new request) calls → WritesOneResponse g request calls := by
  intro hall
  obtain ⟨r, r', hrun, hdestroy, message, hout, code, reason, fields, body, rfl, -⟩ :=
    hall (some fun _ => [lit "oops"]) plainRequest [.writeDefault] (by decide) ⟨trivial, fun _ _ => trivial⟩
  have hbytes : (runCalls (some fun _ => [lit "oops"]) (.new plainRequest) [.writeDefault] >>=
      Response.destroy (some fun _ => [lit "oops"])).map Response.out = .ok (lit "oops") := by decide
  rw [hrun, ok_bind, hdestroy] at hbytes
  obtain hout' : r'.out = lit "oops" := by simpa [Except.map] using hbytes
  -- the bytes do not even begin like a status line
  rw [hout'] at hout
  have hhead : (lit "oops").head? = some 72 := by
    rw [hout]
    rfl
  exact absurd hhead (by decide)

end Gts3.Http
