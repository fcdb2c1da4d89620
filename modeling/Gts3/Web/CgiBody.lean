import Gts3.Lib.Transition
import Gts3.Http.ChunkedCalls
import Gts3.Http.LengthReads
import Gts3.Http.ParserSafety
import Gts3.Http.Segmentation
import Gts3.Web.CgiCall

/-!
# `gts/web/service/cgi/service.cpp`: the body of the request

`m_content_length` starts as the value of the `content-length` field, or as 0.  `read_body` gives the first bytes, the
chain of `async_read_socket` and `async_write_cgi` the rest, which it takes from the socket as they are.  For a body
with a length the count is exact at every step; for a chunked body it is 0 from the start, so that `read_body` makes it
wrap around (`exact_iff`).
-/

namespace Gts3.Web

open Lib Lib.Search Lib.Cxx Lib.LineMachine Lib.Transition Gts3.Http Gts3.Http.Request

/-! ## The chain -/

/-- Where the chain is. -/
inductive CgiPhase
  /-- Before `read_body`. -/
  | starting
  /-- In `m_sio.socket.async_read_some`, with the size of the buffer. -/
  | reading (size : ℕ)
  /-- In `m_cgi.async_write_some`. -/
  | writing (buf : Bytes)
  /-- Behind it; `complete` says that the end of the body has been reached. -/
  | ended (complete : Bool)
  deriving DecidableEq

/-- The variables of the chain, the bytes in the socket, and what has been read for the program and written to it.
`wrapped` says that a `m_content_length -= size` has wrapped around. -/
structure CgiBody where
  contentLength : UInt64
  tcpBufSize : ℕ
  stream : Bytes
  phase : CgiPhase
  taken : Bytes
  stdin : Bytes
  wrapped : Bool
  deriving DecidableEq

/-- What happens to the chain. -/
inductive CgiBodyEvent
  /-- `read_body` returns. -/
  | readBody
  /-- The handler of `async_read_socket`, when up to `size` bytes have arrived. -/
  | read (size : ℕ) (error isRunning : Bool)
  /-- The handler of `async_write_cgi`, when `size` bytes have been taken. -/
  | write (size : ℕ) (error : Bool)
  deriving DecidableEq

namespace CgiBody

/-- The value that `m_content_length` starts with. -/
def initialLength (r : Request) : UInt64 :=
  match r.headers.find? Header.contentLength with
  | some v => UInt64.ofNat (strtoull 10 v).value
  | none => 0

/-- Before `read_body`. -/
def new (r : Request) (sock : TcpSocket) : CgiBody :=
  ⟨initialLength r, sock.sendBufferSize, sock.stream, .starting, [], [], false⟩

/-- `m_content_length -= size`. -/
def subContentLength (s : CgiBody) (size : ℕ) : CgiBody :=
  { s with contentLength := s.contentLength - UInt64.ofNat size,
           wrapped := s.wrapped || decide (s.contentLength.toNat < size) }

/-- `async_read_socket()`. -/
def asyncReadSocket (s : CgiBody) : CgiBody :=
  if s.contentLength.toNat > s.tcpBufSize then { s with phase := .reading s.tcpBufSize }
  else if s.contentLength.toNat = 0 then { s with phase := .ended true }
  else { s with phase := .reading s.contentLength.toNat }

/-- `async_write_cgi(buf, buf.size())` of bytes that have just been read. -/
def asyncWriteCgi (s : CgiBody) (buf : Bytes) : CgiBody :=
  { s with taken := s.taken ++ buf, phase := .writing buf }

/-- Behind `read_body`. -/
def onReadBody (r : Request) (s : CgiBody) : CgiBody :=
  match r.readBodyInto (Buffer.zeros s.tcpBufSize) s.tcpBufSize with
  | .error _ => s
  | .ok res =>
    let s := { s with stream := (res.request.socket.map TcpSocket.stream).getD s.stream }
    if res.count > 0 then (s.subContentLength res.count).asyncWriteCgi (res.buf.front res.count)
    else s.asyncReadSocket

/-- The handler of `async_read_socket`. -/
def onRead (s : CgiBody) (bufSize size : ℕ) (error isRunning : Bool) : CgiBody :=
  let data := s.stream.take (min size bufSize)
  let s := { s with stream := s.stream.drop (min size bufSize) }
  if error || data.isEmpty || !isRunning then { s with phase := .ended false }
  else (s.subContentLength data.length).asyncWriteCgi data

/-- The handler of `async_write_cgi`. -/
def onWrite (s : CgiBody) (buf : Bytes) (size : ℕ) (error : Bool) : CgiBody :=
  let s := { s with stdin := s.stdin ++ buf.take size }
  if error then { s with phase := .ended false }
  else if size < buf.length then { s with phase := .writing (buf.drop size) }
  else if s.contentLength.toNat > 0 then s.asyncReadSocket
  else { s with phase := .ended true }

/-- What becomes of the chain. -/
def next (r : Request) (s : CgiBody) : CgiBodyEvent → CgiBody
  | .readBody => onReadBody r s
  | .read size error isRunning =>
    match s.phase with
    | .reading bufSize => s.onRead bufSize size error isRunning
    | _ => s
  | .write size error =>
    match s.phase with
    | .writing buf => s.onWrite buf size error
    | _ => s

/-- `read_body` may wait for ever, and a write takes at most what it is given. -/
def Enabled (r : Request) (s : CgiBody) : CgiBodyEvent → Prop
  | .readBody => s.phase = .starting ∧ ∃ res, r.readBodyInto (Buffer.zeros s.tcpBufSize) s.tcpBufSize = .ok res
  | .read _ _ _ => ∃ bufSize, s.phase = .reading bufSize
  | .write size _ => ∃ buf, s.phase = .writing buf ∧ size ≤ buf.length

/-- The chain of a request, for every behaviour of the socket and the program. -/
def system (r : Request) (sock : TcpSocket) : System CgiBody CgiBodyEvent := ⟨new r sock, Enabled r, next r⟩

theorem asyncReadSocket_eq (s : CgiBody) (c : CgiCall) (hlength : c.contentLength = s.contentLength)
    (htcp : c.tcpBufSize = s.tcpBufSize) :
    (∃ n, c.asyncReadSocket = some (.readSocket n) ∧ s.asyncReadSocket = { s with phase := .reading n }) ∨
      c.asyncReadSocket = none ∧ s.asyncReadSocket = { s with phase := .ended true } := by
  rw [CgiCall.asyncReadSocket, CgiBody.asyncReadSocket, hlength, htcp]
  split_ifs
  · exact Or.inl ⟨_, rfl, rfl⟩
  · exact Or.inr ⟨rfl, rfl⟩
  · exact Or.inl ⟨_, rfl, rfl⟩

/-! ## What the count is for -/

/-- One of the two goes on where the other ends. -/
def Agrees (s t : Bytes) : Prop := s <+: t ∨ t <+: s

/-- A request that a connection hands out: `load` of what a read of the socket has given, and `get_request`.  How the
socket behaves from there is open. -/
inductive Arrives : Request → TcpSocket → Prop
  | intro {p p' q : Parser} {sock sock' : TcpSocket} {data : Bytes} {error : Option ErrorCode} {r : Request}
      (hp : Http.Reachable p) (hread : sock.readSome sock.sendBufferSize = .ok (data, error, sock'))
      (hload : p.load data = .ok (true, p')) (script : List ReadOutcome)
      (hget : p'.getRequest (some { sock' with script }) = (some r, q)) : Arrives r { sock' with script }

/-- The body of such a request, whose first bytes have come with the head, and the others come from the peer. -/
inductive Framed (r : Request) (sock : TcpSocket) : Bytes → Prop
  /-- As many bytes as the field says. -/
  | length {v body : Bytes} (hv : r.headers.find? Header.contentLength = some v)
      (hbody : body.length = (strtoull 10 v).value) (hsent : Agrees (r.body ++ sock.stream) body) : Framed r sock body
  /-- The data of chunks. -/
  | chunked {b : ChunkedBody} {cs : List (SentChunk × Extension)} {e : Extension} {text : Bytes}
      (hnone : r.headers.find? Header.contentLength = none) (hversion : r.version = lit "1.1")
      (hchunked : r.headers.find? Header.transferEncoding = some (lit "chunked")) (hmatched : b.Matched)
      (hcs : cs.map Prod.fst = b.chunks) (htext : r.rbContext = .string text)
      (hsent : Agrees (text ++ sock.stream) (b.text cs e)) : Framed r sock b.data

/-- The count is what is left of the body, and nothing but the body goes to the program. -/
structure Exact (body : Bytes) (s : CgiBody) : Prop where
  count : s.contentLength.toNat + s.taken.length = body.length
  wrapped : s.wrapped = false
  taken : s.taken <+: body
  stdin : s.stdin <+: s.taken
  complete : s.phase = .ended true → s.stdin = body

/-! ## Requests that arrive -/

theorem readSome_spec {sock sock' : TcpSocket} {size : ℕ} {data : Bytes} {error : Option ErrorCode}
    (h : sock.readSome size = .ok (data, error, sock')) :
    data <+: sock.stream ∧ data.length ≤ size ∧ sock'.sendBufferSize = sock.sendBufferSize := by
  cases hscript : sock.script with
  | nil =>
    rw [TcpSocket.readSome, hscript] at h
    cases h
  | cons o script =>
    rw [TcpSocket.readSome_cons hscript] at h
    cases h
    exact ⟨List.take_prefix _ _, (List.length_take_le _ _).trans (Nat.min_le_right _ _), rfl⟩

theorem body_finished_le (q : Request) (rest : Bytes) : (q.finished rest).body.length ≤ rest.length := by
  have hbody : ∀ q : Request, (q.withBody rest).body.length ≤ rest.length := by
    intro q
    unfold Request.withBody
    split
    · exact (List.take_prefix _ _).length_le
    · split_ifs
      · exact Nat.zero_le _
      · exact le_rfl
      · exact le_rfl
  exact hbody _

theorem finished_withSocket (q : Request) (rest : Bytes) (sock : TcpSocket) :
    { q.finished rest with socket := some sock } = ({ q with socket := some sock } : Request).finished rest := by
  simp only [Request.finished, Request.withBody]
  split
  · rfl
  · split_ifs <;> rfl

theorem Arrives.cases {r : Request} {sock : TcpSocket} (h : Arrives r sock) :
    r = { Request.new with socket := some sock } ∨
      ∃ (q : Request) (rest : Bytes), q.socket = some sock ∧ rest.length ≤ sock.sendBufferSize ∧
        r = q.finished rest := by
  obtain ⟨hp, hread, hload, script, hget⟩ := h
  rename_i p p' q sock₀ sock₁ data error
  obtain ⟨result, rest, hcontext, hrest⟩ := hp.load_request hload
  obtain ⟨-, hdata, hsize⟩ := readSome_spec hread
  rw [Parser.getRequest, hcontext] at hget
  obtain rfl := Option.some.inj (Prod.mk.inj hget).1
  cases result with
  | rejected => exact Or.inl rfl
  | complete q => exact Or.inr ⟨_, rest, rfl, hrest.trans (hsize ▸ hdata), finished_withSocket q rest _⟩

theorem Arrives.socket_eq {r : Request} {sock : TcpSocket} (h : Arrives r sock) : r.socket = some sock := by
  cases h with
  | intro hp hread hload script hget =>
    rw [Parser.getRequest] at hget
    split at hget
    · cases hget
    · cases hget
      rfl

theorem Arrives.body_le {r : Request} {sock : TcpSocket} (h : Arrives r sock) :
    r.body.length ≤ sock.sendBufferSize := by
  rcases h.cases with rfl | ⟨q, rest, -, hrest, rfl⟩
  · exact Nat.zero_le _
  · exact (body_finished_le q rest).trans hrest

theorem Arrives.owes {r : Request} {sock : TcpSocket} (h : Arrives r sock) {v : Bytes}
    (hv : r.headers.find? Header.contentLength = some v) : r.Owes sock (strtoull 10 v).value := by
  rcases h.cases with rfl | ⟨q, rest, hsocket, -, rfl⟩
  · cases hv
  · obtain ⟨-, -, -, -, -, hheaders, -⟩ := q.sameHead_finished rest
    exact (owes_finished hsocket (hheaders ▸ hv) rest).2

theorem Arrives.hasChunked {r : Request} {sock : TcpSocket} (h : Arrives r sock)
    (hnone : r.headers.find? Header.contentLength = none) (hversion : r.version = lit "1.1")
    (hchunked : r.headers.find? Header.transferEncoding = some (lit "chunked")) {text : Bytes}
    (htext : r.rbContext = .string text) : r.HasChunked text := by
  rcases h.cases with rfl | ⟨q, rest, hsocket, -, rfl⟩
  · cases htext
  · obtain ⟨-, hversion', -, -, -, hheaders, -⟩ := q.sameHead_finished rest
    have hrest := finished_hasChunked (hversion' ▸ hversion) (hheaders ▸ hnone) (hheaders ▸ hchunked) rest
    obtain rfl : rest = text := by
      rw [hrest.context] at htext
      exact RbContext.string.inj htext
    exact hrest

/-! ## A body with a length -/

/-- The count is right, and what has been read is the beginning of the body. -/
structure Counts (body : Bytes) (s : CgiBody) : Prop where
  count : s.contentLength.toNat + s.taken.length = body.length
  wrapped : s.wrapped = false
  taken : s.taken <+: body

/-- While the chain goes on, the socket goes on as the body does.  What is being written is what has been read last, and
no more is read than the count says. -/
def Placed (body : Bytes) (s : CgiBody) : Prop :=
  match s.phase with
  | .starting => False
  | .reading size => Agrees (s.taken ++ s.stream) body ∧ s.stdin = s.taken ∧ size ≤ s.contentLength.toNat
  | .writing buf => Agrees (s.taken ++ s.stream) body ∧ s.stdin ++ buf = s.taken
  | .ended complete => s.stdin <+: s.taken ∧ (complete = true → s.stdin = s.taken ∧ s.contentLength.toNat = 0)

/-- What holds of the chain behind `read_body`. -/
structure Follows (body : Bytes) (s : CgiBody) : Prop where
  counts : s.Counts body
  placed : s.Placed body

variable {body : Bytes} {s : CgiBody}

theorem Agrees.isPrefix {taken stream : Bytes} (h : Agrees (taken ++ stream) body) (hlen : taken.length ≤ body.length) :
    taken <+: body := by
  rcases h with h | h
  · exact (List.prefix_append taken stream).trans h
  · exact List.prefix_of_prefix_length_le (List.prefix_append taken stream) h hlen

theorem Follows.exact (h : s.Follows body) : s.Exact body := by
  have hplaced := h.placed
  rw [Placed] at hplaced
  refine ⟨h.counts.count, h.counts.wrapped, h.counts.taken, ?_, fun hover => ?_⟩
  · cases hphase : s.phase with
    | starting =>
      rw [hphase] at hplaced
      exact hplaced.elim
    | reading size =>
      rw [hphase] at hplaced
      exact hplaced.2.1 ▸ List.prefix_rfl
    | writing buf =>
      rw [hphase] at hplaced
      exact ⟨buf, hplaced.2⟩
    | ended complete =>
      rw [hphase] at hplaced
      exact hplaced.1
  · rw [hover] at hplaced
    obtain ⟨hstdin, hzero⟩ := hplaced.2 rfl
    have hcount := h.counts.count
    rw [hstdin]
    exact h.counts.taken.eq_of_length (by omega)

theorem subContentLength_spec {n : ℕ} (h : n ≤ s.contentLength.toNat) :
    (s.subContentLength n).contentLength.toNat = s.contentLength.toNat - n ∧
      (s.subContentLength n).wrapped = s.wrapped := by
  have hn : (UInt64.ofNat n).toNat = n := UInt64.toNat_ofNat_of_lt' (h.trans_lt s.contentLength.toNat_lt)
  constructor
  · rw [subContentLength, UInt64.toNat_sub_of_le _ _ (by rw [UInt64.le_iff_toNat_le, hn]; exact h), hn]
  · simp only [subContentLength, Nat.not_lt.mpr h, decide_false, Bool.or_false]

theorem Counts.asyncWriteCgi (h : s.Counts body) {data : Bytes} (hdata : Agrees (s.taken ++ (data ++ s.stream)) body)
    (hstdin : s.stdin = s.taken) (hlen : data.length ≤ s.contentLength.toNat) :
    ((s.subContentLength data.length).asyncWriteCgi data).Follows body := by
  obtain ⟨hsub, hsame⟩ := subContentLength_spec hlen
  have hcount := h.count
  have hlength : (s.taken ++ data).length = s.taken.length + data.length := List.length_append
  rw [← List.append_assoc] at hdata
  refine ⟨⟨?_, hsame.trans h.wrapped, hdata.isPrefix (by omega)⟩, hdata, congrArg (· ++ data) hstdin⟩
  show (s.subContentLength data.length).contentLength.toNat + (s.taken ++ data).length = body.length
  omega

theorem Counts.asyncReadSocket (h : s.Counts body) (hagrees : Agrees (s.taken ++ s.stream) body)
    (hstdin : s.stdin = s.taken) : s.asyncReadSocket.Follows body := by
  rw [CgiBody.asyncReadSocket]
  split_ifs with hmore hzero
  · exact ⟨⟨h.count, h.wrapped, h.taken⟩, hagrees, hstdin, hmore.le⟩
  · exact ⟨⟨h.count, h.wrapped, h.taken⟩, hstdin ▸ List.prefix_rfl, fun _ => ⟨hstdin, hzero⟩⟩
  · exact ⟨⟨h.count, h.wrapped, h.taken⟩, hagrees, hstdin, le_rfl⟩

/-- The handler of **`async_read_socket`**. -/
theorem Follows.onRead (h : s.Follows body) {bufSize : ℕ} (hphase : s.phase = .reading bufSize) (size : ℕ)
    (error isRunning : Bool) : (s.onRead bufSize size error isRunning).Follows body := by
  have hplaced := h.placed
  rw [Placed, hphase] at hplaced
  obtain ⟨hagrees, hstdin, hsize⟩ := hplaced
  rw [CgiBody.onRead]
  split_ifs with hstop
  · exact ⟨⟨h.counts.count, h.counts.wrapped, h.counts.taken⟩, hstdin ▸ List.prefix_rfl, nofun⟩
  · refine Counts.asyncWriteCgi (s := { s with stream := s.stream.drop (min size bufSize) })
      ⟨h.counts.count, h.counts.wrapped, h.counts.taken⟩ ?_ hstdin ?_
    · rwa [List.take_append_drop]
    · have hle : (s.stream.take (min size bufSize)).length ≤ bufSize := by
        rw [List.length_take]
        omega
      exact hle.trans hsize

/-- The handler of **`async_write_cgi`**. -/
theorem Follows.onWrite (h : s.Follows body) {buf : Bytes} (hphase : s.phase = .writing buf) {size : ℕ}
    (hsize : size ≤ buf.length) (error : Bool) : (s.onWrite buf size error).Follows body := by
  have hplaced := h.placed
  rw [Placed, hphase] at hplaced
  obtain ⟨hagrees, hbuf⟩ := hplaced
  have hcounts : Counts body { s with stdin := s.stdin ++ buf.take size } :=
    ⟨h.counts.count, h.counts.wrapped, h.counts.taken⟩
  have hsplit : s.stdin ++ buf.take size ++ buf.drop size = s.taken := by
    rw [List.append_assoc, List.take_append_drop, hbuf]
  rw [CgiBody.onWrite]
  split_ifs with herror hpart hmore
  · exact ⟨⟨h.counts.count, h.counts.wrapped, h.counts.taken⟩, ⟨_, hsplit⟩, nofun⟩
  · exact ⟨⟨h.counts.count, h.counts.wrapped, h.counts.taken⟩, hagrees, hsplit⟩
  all_goals
    have hall : s.stdin ++ buf.take size = s.taken := by
      rw [List.take_of_length_le (by omega), hbuf]
  · exact hcounts.asyncReadSocket hagrees hall
  · refine ⟨⟨h.counts.count, h.counts.wrapped, h.counts.taken⟩, hall ▸ List.prefix_rfl, fun _ => ⟨hall, ?_⟩⟩
    exact Nat.eq_zero_of_not_pos hmore

theorem body_le_count {r : Request} {sock : TcpSocket} {tplen size : ℕ} {buf : Buffer} {res : ReadBody}
    (hsocket : r.socket = some sock) (hcontext : r.rbContext = .size tplen) (hbuf : min size tplen ≤ buf.size)
    (hok : readBodyLengthMode r buf size = .ok res) : min (min size tplen) r.body.length ≤ res.count := by
  by_cases hmore : r.body.length < min size tplen
  · obtain ⟨buf', hbsize, -, heq⟩ := readBodyLengthMode_more hsocket hcontext hbuf hmore
    rw [heq] at hok
    rcases readLengthLoop_spec (sock.script.length + 1)
      { sock := sock, tplen := tplen - r.body.length, size := min size tplen - r.body.length, count := r.body.length,
        buf := buf', error := none } (Nat.lt_succ_self _) (by simp only; omega) (by simp only; omega) with
      ⟨hblocked, -⟩ | ⟨-, l, hrun, hreads⟩
    · rw [hblocked] at hok
      cases hok
    · rw [hrun, ok_bind, endLengthMode_request] at hok
      obtain rfl := Except.ok.inj hok
      exact (Nat.min_le_right _ _).trans hreads.count_le
  · obtain ⟨res', hok', -, hcount, -⟩ := readBodyLengthMode_enough hsocket hcontext hbuf (Nat.not_lt.mp hmore)
    obtain rfl := Except.ok.inj (hok'.symm.trans hok)
    rw [hcount]
    exact Nat.min_le_left _ _

/-- A call of `read_body` for a body with a length, when what came with the head fits into the buffer, leaves none of
that behind. -/
theorem readBodyInto_spec {r : Request} {sock : TcpSocket} {tplen : ℕ} (howes : r.Owes sock tplen)
    (hfits : r.body.length ≤ sock.sendBufferSize) {res : ReadBody}
    (hok : r.readBodyInto (Buffer.zeros sock.sendBufferSize) sock.sendBufferSize = .ok res) :
    res.count ≤ tplen ∧ ∃ sock', res.request.socket = some sock' ∧
      res.buf.front res.count ++ sock'.stream = r.body ++ sock.stream := by
  have hle := howes.body_le
  have hstatus := howes.status
  have hnothing (hbody : r.body = []) (hres : res = ⟨r, Buffer.zeros sock.sendBufferSize, none, 0⟩) :
      res.count ≤ tplen ∧ ∃ sock', res.request.socket = some sock' ∧
        res.buf.front res.count ++ sock'.stream = r.body ++ sock.stream := by
    rw [hres, hbody]
    exact ⟨Nat.zero_le _, sock, howes.socket_eq, by rw [Buffer.front_zero]⟩
  rw [readBodyInto] at hok
  split_ifs at hok with hzero hfinished hlength
  · exact hnothing (List.length_eq_zero_iff.mp (by omega)) (Except.ok.inj hok).symm
  · refine hnothing (List.length_eq_zero_iff.mp ?_) (Except.ok.inj hok).symm
    by_contra hne
    rw [if_neg (by omega)] at hstatus
    rw [hstatus] at hfinished
    cases hfinished
  · have hbuf : min sock.sendBufferSize tplen ≤ (Buffer.zeros sock.sendBufferSize).size := Nat.min_le_left _ _
    have hcount := body_le_count howes.socket_eq howes.context hbuf hok
    rcases readBodyLengthMode_spec howes.socket_eq howes.context hbuf with ⟨hblocked, -⟩ |
      ⟨-, res', sock', hok', hgives⟩
    · rw [hblocked] at hok
      cases hok
    · obtain rfl := Except.ok.inj (hok'.symm.trans hok)
      have hbody : res'.request.body = [] := by
        rw [hgives.body_eq]
        exact List.drop_eq_nil_of_le (by omega)
      have hbytes := hgives.bytes_eq
      rw [hbody, List.nil_append] at hbytes
      exact ⟨hgives.count_le.trans (Nat.min_le_right _ _), sock', by rw [hgives.request_eq], hbytes⟩
  · rw [hstatus] at hlength hfinished
    split_ifs at hlength hfinished
    · exact absurd rfl hfinished
    · exact absurd rfl hlength

/-- **`read_body`** of a body with a length. -/
theorem follows_onReadBody {r : Request} {sock : TcpSocket} {v : Bytes} (howes : r.Owes sock (strtoull 10 v).value)
    (hv : r.headers.find? Header.contentLength = some v) (hbody : body.length = (strtoull 10 v).value)
    (hsent : Agrees (r.body ++ sock.stream) body) (hfits : r.body.length ≤ sock.sendBufferSize) {res : ReadBody}
    (hok : r.readBodyInto (Buffer.zeros sock.sendBufferSize) sock.sendBufferSize = .ok res) :
    (onReadBody r (new r sock)).Follows body := by
  have hlength : (initialLength r).toNat = body.length := by
    rw [initialLength, hv, hbody]
    exact UInt64.toNat_ofNat_of_lt' (strtoull_value_lt 10 v)
  obtain ⟨hcount, sock', hsock', hbytes⟩ := readBodyInto_spec howes hfits hok
  have hstart : Counts body { new r sock with stream := sock'.stream } :=
    ⟨by rw [← hlength]; rfl, rfl, List.nil_prefix⟩
  have hdata : (res.buf.front res.count).length = res.count := Buffer.length_front _ _
  have hstep : onReadBody r (new r sock) =
      if res.count > 0 then
        ({ new r sock with stream := sock'.stream }.subContentLength res.count).asyncWriteCgi (res.buf.front res.count)
      else { new r sock with stream := sock'.stream }.asyncReadSocket := by
    rw [onReadBody, show (new r sock).tcpBufSize = sock.sendBufferSize from rfl, hok]
    simp only [hsock', Option.map_some, Option.getD_some]
    rfl
  rw [hstep]
  split_ifs with hpos
  · have hagrees : Agrees ([] ++ (res.buf.front res.count ++ sock'.stream)) body := by
      rwa [List.nil_append, hbytes]
    have hle : (res.buf.front res.count).length ≤ (initialLength r).toNat := by omega
    have h := hstart.asyncWriteCgi hagrees rfl hle
    rwa [hdata] at h
  · refine hstart.asyncReadSocket ?_ rfl
    rw [Nat.eq_zero_of_not_pos hpos, Buffer.front_zero, List.nil_append] at hbytes
    show Agrees ([] ++ sock'.stream) body
    rwa [List.nil_append, hbytes]

/-! ## A chunked body without data -/

theorem decoded_empty {b : ChunkedBody} {e : Extension} {l : ChunkLoop} (hl : l.status = .waitSize) (hnil : l.body = [])
    {text : Bytes} (h : Agrees text (b.ending e)) : decoded (drain chunkMachine l text) = [] := by
  cases hfind : find crlf text with
  | none =>
    rcases Nat.lt_or_ge text.length 1024 with hshort | hlong
    · rw [drain_short hfind hshort]
      exact hnil
    · rw [drain_overlong hfind hlong]
      exact hnil
  | some pos =>
    -- the first line is the one of the last chunk
    obtain ⟨line, rest, rfl, rfl⟩ := find_eq_some hfind
    have hline : find crlf line = none := find_front hfind (by decide)
    have hzeros : find crlf (b.zeros ++ e.text) = none := find_crlf_sizeLine b.zeros_hex e
    obtain rfl : line = b.zeros ++ e.text := by
      rw [ChunkedBody.ending] at h
      rcases h with ⟨t, ht⟩ | ⟨t, ht⟩
      · rw [List.append_assoc] at ht
        exact (append_pat_inj borderless_crlf hline hzeros ht).1
      · rw [List.append_assoc] at ht
        exact (append_pat_inj borderless_crlf hzeros hline ht).1.symm
    rw [drain_sizeLine hl b.zeros_ne b.zeros_hex, b.numeral_zeros, if_pos rfl]
    split_ifs
    · exact (decoded_closed ⟨by simp, by simp⟩ rest).trans hnil
    · exact hnil

theorem Agrees.left {s t whole : Bytes} (h : Agrees (s ++ t) whole) : Agrees s whole := by
  rcases h with h | h
  · exact Or.inl ((List.prefix_append s t).trans h)
  · exact List.prefix_or_prefix_of_prefix (List.prefix_append s t) h

theorem count_decodeChunked {r : Request} {b : ChunkedBody} {e : Extension} {abuf : Bytes}
    (hstatus : r.rbStatus = .waitSize) (hbody : r.body = []) (habuf : Agrees abuf (b.ending e)) {buf : Buffer}
    {size : ℕ} (hsize : 0 < size) {error : Option ErrorCode} {res : ReadBody}
    (hok : decodeChunked r abuf buf size 0 error = .ok res) : res.count = 0 := by
  rcases hrun : loopResult (drain chunkMachine ⟨r.rbStatus, 0, r.body, r.headers, r.cookies⟩ abuf) with
    ⟨l, rest, failed⟩
  have hempty : l.body = [] := by
    have hdecoded := decoded_empty (l := ⟨r.rbStatus, 0, r.body, r.headers, r.cookies⟩) hstatus hbody habuf
    rwa [decoded, hrun] at hdecoded
  rw [decodeChunked_eq r hrun] at hok
  split_ifs at hok
  · obtain rfl := Except.ok.inj hok
    rfl
  · obtain ⟨buf', rfl, -⟩ := endChunkedMode_ok hsize hok
    have hnil : (r.withLoop l rest).body = [] := hempty
    simp only [hnil, List.length_nil, Nat.min_zero]

/-- **`read_body`** of a chunked body without data gives nothing. -/
theorem count_chunked {r : Request} {sock : TcpSocket} {b : ChunkedBody} {e : Extension} {text : Bytes}
    (hsocket : r.socket = some sock) (htext : r.HasChunked text) (hsent : Agrees (text ++ sock.stream) (b.ending e))
    {buf : Buffer} {size : ℕ} {res : ReadBody} (hok : r.readBodyInto buf size = .ok res) : res.count = 0 := by
  rw [readBodyInto] at hok
  split_ifs at hok with hzero hfinished hlength
  · obtain rfl := Except.ok.inj hok
    rfl
  · obtain rfl := Except.ok.inj hok
    rfl
  · rw [htext.status] at hlength
    cases hlength
  · have hpos : 0 < size := Nat.pos_of_ne_zero hzero
    have hnot : ¬size ≤ r.body.length := by
      rw [htext.body, List.length_nil]
      omega
    rw [readBodyChunkedMode, if_neg hnot] at hok
    obtain ⟨buf', -, hok⟩ := run_bind_eq_ok.mp hok
    have hend : r.rbStatus ≠ .chunkedEnd := by rw [htext.status]; decide
    simp only [htext.body, List.length_nil, Nat.sub_zero, if_neg hend, htext.context, hsocket] at hok
    by_cases hnil : text = []
    · rw [if_pos hnil] at hok
      obtain ⟨⟨data, error, sock'⟩, hread, hok⟩ := run_bind_eq_ok.mp hok
      have hdata : Agrees data (b.ending e) := by
        obtain ⟨rest, hrest⟩ := (readSome_spec hread).1
        rw [hnil, List.nil_append, ← hrest] at hsent
        exact hsent.left
      have hdecode {err : Option ErrorCode}
          (hok : decodeChunked { r with body := [], socket := some sock' } data buf' size 0
          err = .ok res) : res.count = 0 := by
        refine count_decodeChunked ?_ ?_ hdata hpos hok
        · exact htext.status
        · rfl
      cases error with
      | none => exact hdecode (by simpa only [htext.context] using hok)
      | some err =>
        dsimp only at hok
        by_cases hlen : 0 < data.length
        · rw [if_pos hlen] at hok
          exact hdecode (by simpa only [htext.context] using hok)
        · rw [if_neg hlen] at hok
          obtain rfl := Except.ok.inj hok
          rfl
    · rw [if_neg hnil] at hok
      refine count_decodeChunked ?_ ?_ hsent.left hpos hok
      · exact htext.status
      · rfl

theorem text_of_data_nil {b : ChunkedBody} {cs : List (SentChunk × Extension)} (hcs : cs.map Prod.fst = b.chunks)
    (h : b.data = []) (e : Extension) : b.text cs e = b.ending e := by
  cases cs with
  | nil => rfl
  | cons c cs =>
    rw [ChunkedBody.data, ← hcs, List.map_cons, sentData, List.flatMap_cons] at h
    exact absurd (List.append_eq_nil_iff.mp h).1 c.1.data_ne

theorem follows_empty {r : Request} {sock : TcpSocket} (hzero : (initialLength r).toNat = 0) {res : ReadBody}
    (hcount : res.count = 0)
    (hok : r.readBodyInto (Buffer.zeros sock.sendBufferSize) sock.sendBufferSize = .ok res) :
    (onReadBody r (new r sock)).Follows [] := by
  have hstart (stream : Bytes) : Counts [] { new r sock with stream := stream } :=
    ⟨by rw [List.length_nil, ← hzero]; rfl, rfl, List.nil_prefix⟩
  rw [onReadBody, show (new r sock).tcpBufSize = sock.sendBufferSize from rfl, hok]
  dsimp only
  rw [if_neg (by omega)]
  exact (hstart _).asyncReadSocket (Or.inr List.nil_prefix) rfl

/-! ## Every run -/

theorem reachable_follows {r : Request} {sock : TcpSocket}
    (hread : ∀ res, r.readBodyInto (Buffer.zeros sock.sendBufferSize) sock.sendBufferSize = .ok res →
      (onReadBody r (new r sock)).Follows body) {s : CgiBody} (h : (system r sock).Reachable s) :
    s = new r sock ∨ s.Follows body := by
  refine System.Reachable.inv (S := system r sock) (P := fun s => s = new r sock ∨ s.Follows body) (Or.inl rfl)
    (fun s e hs he => Or.inr ?_) h
  cases e with
  | readBody =>
    obtain ⟨hphase, res, hok⟩ := he
    rcases hs with rfl | hs
    · exact hread res hok
    · have hplaced := hs.placed
      rw [Placed, hphase] at hplaced
      exact hplaced.elim
  | read size error isRunning =>
    obtain ⟨bufSize, hphase⟩ := he
    rcases hs with rfl | hs
    · cases hphase
    · show (next r s (.read size error isRunning)).Follows body
      rw [next, hphase]
      exact hs.onRead hphase size error isRunning
  | write size error =>
    obtain ⟨buf, hphase, hsize⟩ := he
    rcases hs with rfl | hs
    · cases hphase
    · show (next r s (.write size error)).Follows body
      rw [next, hphase]
      exact hs.onWrite hphase hsize error

theorem exact_new {r : Request} {sock : TcpSocket} (h : (initialLength r).toNat = body.length) :
    (new r sock).Exact body :=
  ⟨by rw [← h]; rfl, rfl, List.nil_prefix, List.nil_prefix, nofun⟩

/-- **The count** of `m_content_length`, over every run of a request with a body: it is exact exactly when the request
has a length, or the body is empty. -/
theorem exact_iff {r : Request} {sock : TcpSocket} {body : Bytes} (harrives : Arrives r sock)
    (hframed : Framed r sock body) :
    (∀ s, (system r sock).Reachable s → s.Exact body) ↔
      (r.headers.find? Header.contentLength).isSome = true ∨ body = [] := by
  cases hframed with
  | @length v body hv hbody hsent =>
    refine iff_of_true (fun s hs => ?_) (Or.inl (by rw [hv]; rfl))
    rcases reachable_follows (fun res => follows_onReadBody (harrives.owes hv) hv hbody hsent harrives.body_le) hs with
      rfl | h
    · refine exact_new ?_
      rw [initialLength, hv, hbody]
      exact UInt64.toNat_ofNat_of_lt' (strtoull_value_lt 10 v)
    · exact h.exact
  | @chunked b cs e text hnone hversion hchunked hmatched hcs htext hsent =>
    have hzero : (initialLength r).toNat = 0 := by rw [initialLength, hnone]; rfl
    constructor
    · intro hall
      have hcount := (hall _ System.Reachable.init).count
      right
      refine List.length_eq_zero_iff.mp ?_
      rw [← hcount]
      exact hzero
    · rintro (hsome | hnil)
      · rw [hnone] at hsome
        cases hsome
      · rw [text_of_data_nil hcs hnil] at hsent
        rw [hnil]
        intro s hs
        have hhas := harrives.hasChunked hnone hversion hchunked htext
        have hread (res : ReadBody)
            (hok : r.readBodyInto (Buffer.zeros sock.sendBufferSize) sock.sendBufferSize = .ok res) :=
          follows_empty hzero (count_chunked harrives.socket_eq hhas hsent hok) hok
        rcases reachable_follows hread hs with rfl | h
        · exact exact_new hzero
        · exact h.exact

/-! ## Two requests -/

/-- A socket from which everything has been read. -/
def emptySocket : TcpSocket := ⟨true, 4096, [], [], []⟩

/-- A request with one field, behind `finish`. -/
def postRequest (field value body : Bytes) : Request :=
  { ({ Request.new with
      method := .post, version := lit "1.1", path := lit "/a",
      headers := OrdMap.empty.assign field value } : Request).finished
        body with socket := some emptySocket }

theorem arrives_segment (text : Bytes) (hlen : text.length = min text.length 4096) (p' : Parser) {q : Parser}
    {r : Request}
    (hload : Parser.new.load text = .ok (true, p')) (hget : p'.getRequest (some emptySocket) = (some r, q)) :
    Arrives r emptySocket := by
  have hread : ({ emptySocket with stream := text, script := [⟨text.length, none⟩] } : TcpSocket).readSome
      emptySocket.sendBufferSize = .ok (text, none, emptySocket) := by
    rw [TcpSocket.readSome]
    simp only [emptySocket, ← hlen, List.take_length, List.drop_length]
  exact .intro .new hread hload [] hget

/-- The three bytes of the body come with the head. -/
def threeBytes : Request := postRequest (lit "content-length") (lit "3") (lit "abc")

theorem arrives_threeBytes : Arrives threeBytes emptySocket :=
  arrives_segment (lit "POST /a HTTP/1.1\r\nContent-Length: 3\r\n\r\nabc") (by decide)
    ⟨.waitingRequest, [], none, some { threeBytes with socket := none }⟩ (by decide) rfl

/-- The count of this body is exact. -/
theorem exact_threeBytes : Framed threeBytes emptySocket (lit "abc") ∧
    ∀ s, (system threeBytes emptySocket).Reachable s → s.Exact (lit "abc") := by
  have hframed : Framed threeBytes emptySocket (lit "abc") :=
    .length (v := lit "3") (by decide) (by decide) (Or.inl (by decide))
  exact ⟨hframed, (exact_iff arrives_threeBytes hframed).mpr (Or.inl (by decide))⟩

/-- All of a chunked body comes with the head. -/
def oneChunk : Request := postRequest (lit "transfer-encoding") (lit "chunked") (lit "1\r\na\r\n0\r\nX: y\r\n\r\n")

theorem arrives_oneChunk : Arrives oneChunk emptySocket :=
  arrives_segment (lit "POST /a HTTP/1.1\r\nTransfer-Encoding: chunked\r\n\r\n1\r\na\r\n0\r\nX: y\r\n\r\n") (by decide)
    ⟨.waitingRequest, [], none, some { oneChunk with socket := none }⟩ (by decide) rfl

/-- `read_body` gives the one byte of the body, the count wraps around, and the chain goes on with the socket. -/
theorem not_exact_oneChunk : Arrives oneChunk emptySocket ∧ Framed oneChunk emptySocket (lit "a") ∧
    ∃ s, (system oneChunk emptySocket).Reachable s ∧ s.wrapped = true ∧ s.contentLength.toNat = 2 ^ 64 - 1 ∧
      s.stdin = lit "a" ∧ s.phase = .reading 4096 ∧ ¬ s.Exact (lit "a") := by
  refine ⟨arrives_oneChunk, ?_, ?_⟩
  · have hcs : (ChunkedBody.plainBody.chunks.map fun c => (c, (⟨[], Or.inl rfl, rfl⟩ : Extension))).map Prod.fst =
        ChunkedBody.plainBody.chunks := rfl
    have htext : oneChunk.rbContext = .string (lit "1\r\na\r\n0\r\nX: y\r\n\r\n") := by decide
    exact .chunked (e := ⟨[], Or.inl rfl, rfl⟩) (by decide) (by decide) (by decide)
      (by unfold ChunkedBody.Matched; decide) hcs htext (Or.inl (by decide))
  · have hok : (oneChunk.readBodyInto (Buffer.zeros 4096) 4096).isOk = true := by decide
    have hread : (system oneChunk emptySocket).Enabled (new oneChunk emptySocket) .readBody := by
      refine ⟨rfl, ?_⟩
      cases hres : oneChunk.readBodyInto (Buffer.zeros 4096) 4096 with
      | ok res => exact ⟨res, hres⟩
      | error f =>
        rw [hres] at hok
        cases hok
    have hwrite : (system oneChunk emptySocket).Enabled (next oneChunk (new oneChunk emptySocket) .readBody)
        (.write 1 false) := ⟨lit "a", by decide, by decide⟩
    have hstate : next oneChunk (next oneChunk (new oneChunk emptySocket) .readBody) (.write 1 false) =
        ⟨18446744073709551615, 4096, [], .reading 4096, lit "a", lit "a", true⟩ := by decide
    have hreach : (system oneChunk emptySocket).Reachable
        (next oneChunk (next oneChunk (new oneChunk emptySocket) .readBody) (.write 1 false)) :=
      (System.Reachable.init.next hread).next hwrite
    rw [hstate] at hreach
    exact ⟨_, hreach, rfl, rfl, rfl, rfl, fun h => absurd h.wrapped (by decide)⟩

end CgiBody

end Gts3.Web
