import Gts3.Http.LengthBody
import Gts3.Http.ParserSafety

/-!
# `gts/web/service/connection.cpp`: the requests of a connection

A turn of a connection is what `do_recv` does with one segment: the parser gets it, and when a head is complete the
task runs a handler that reads some of the body.  The parser takes whatever else the segment holds for the body, and
what a handler leaves in the socket is taken for the next request.  In runs where no segment reaches into the next
request and no handler leaves bytes of its body in the socket, the connection dispatches the requests that were sent
(`run_dispatches`).
-/

namespace Gts3.Web

open Lib Lib.Search Lib.Cxx Lib.LineMachine Gts3.Http

/-! ## The connection -/

/-- `connection`, with the requests given to the task and the bytes their handlers have read. -/
structure Connection where
  socket : TcpSocket
  abSize : ℕ
  parser : Parser
  deleted : Bool
  dispatched : List (Request × Bytes)
  deriving DecidableEq

/-- What happens in one turn: the segment that arrives, the sizes a handler reads with, and how the bytes arrive that
it reads. -/
structure Turn where
  segment : ReadOutcome
  readSizes : List ℕ
  arrivals : List ReadOutcome
  deriving DecidableEq

/-- A handler that reads the body in pieces, up to an error. -/
def readPieces : List ℕ → Request → Run (Bytes × Request)
  | [], r => .ok ([], r)
  | size :: sizes, r => do
    let res ← r.readBodyInto (Buffer.zeros size) size
    let piece := res.buf.front res.count
    match res.error with
    | some _ => .ok (piece, res.request)
    | none => do
      let (bytes, r) ← readPieces sizes res.request
      .ok (piece ++ bytes, r)

/-- `task::run` around a handler: a connection that is not kept alive is closed. -/
def runTask (sizes : List ℕ) (r : Request) : Run (Bytes × Request) := do
  let (bytes, r) ← readPieces sizes r
  if r.keepAlive then .ok (bytes, r)
  else .ok (bytes, { r with socket := r.socket.map (fun sock => { sock with isOpen := false }) })

namespace Connection

/-- `connection(socket)`. -/
def new (socket : TcpSocket) : Connection := ⟨socket, socket.sendBufferSize, .new, false, []⟩

/-- The answer to a request that is not valid. -/
def badRequest : Bytes := lit "HTTP/1.1 400 Bad Request\r\ncontent-length: 0\r\nconnection: close\r\n\r\n"

/-- The callback of the task's end: the connection goes on with a request that is still valid. -/
def taskEnd (c : Connection) (dispatched : Request) (bytes : Bytes) (r : Request) : Run Connection :=
  match r.socket with
  | none => .error .nullPointer
  | some socket =>
    .ok { c with socket, deleted := !r.isValid, dispatched := c.dispatched ++ [(dispatched, bytes)] }

/-- `do_recv` and its callback. -/
def doRecv (c : Connection) (t : Turn) : Run Connection :=
  if c.deleted then .ok c
  else if c.socket.isOpen = false then .ok { c with deleted := true }
  else do
    let (data, error, socket) ← { c.socket with script := [t.segment] }.readSome c.abSize
    if error.isSome ∨ data = [] then .ok { c with socket, deleted := true }
    else do
      let (ready, parser) ← c.parser.load data
      if ready = false then .ok { c with socket, parser }
      else match parser.getRequest (some { socket with script := t.arrivals }) with
        | (none, _) => .error .nullPointer
        | (some request, parser) =>
          if request.isValid = false then
            .ok { c with socket := { socket.writeSome badRequest with isOpen := false }, parser, deleted := true }
          else do
            let (bytes, r) ← runTask t.readSizes request
            { c with parser }.taskEnd request bytes r

/-- One turn after the other. -/
def run : Connection → List Turn → Run Connection
  | c, [] => .ok c
  | c, t :: ts => do (← c.doRecv t).run ts

end Connection

/-! ## What is sent -/

/-- A keep-alive request with no body, or with a body of the length it announces. -/
structure SentRequest where
  head : Head
  body : Bytes
  wellFormed : head.WellFormed
  version_eq : head.request.version = lit "1.1"
  keepAlive : ∀ v, head.lastValue Header.connection = some v → strToLower v ≠ lit "close"
  length_eq : head.lastValue Header.contentLength = none ∧ head.lastValue Header.transferEncoding = none ∧ body = [] ∨
    ∃ v, head.lastValue Header.contentLength = some v ∧ v ≠ [] ∧ (∀ c ∈ v, digitVal c < 10) ∧
      numeral 10 v = body.length
  body_short : body.length < 2 ^ 64

namespace SentRequest

/-- The bytes of a request. -/
def bytes (s : SentRequest) : Bytes := s.head.bytes ++ s.body

/-- What the parser and the connection ask of a request: cookies of name and value after percent-decoding, a path, and
no long body for a GET. -/
structure Admissible (s : SentRequest) : Prop where
  cookiesFit : s.head.CookiesFit
  path_ne_nil : s.head.request.path ≠ []
  get_short : s.head.request.method = .get → s.body.length ≤ 1024

end SentRequest

/-- The bytes of several requests. -/
def sentBytes (sent : List SentRequest) : Bytes := (sent.map SentRequest.bytes).flatten

/-- The request that a byte of the stream belongs to, and how many of its bytes are left from there. -/
def current : List SentRequest → ℕ → Option (SentRequest × ℕ)
  | [], _ => none
  | s :: sent, n => if n < s.bytes.length then some (s, s.bytes.length - n) else current sent (n - s.bytes.length)

/-- A request is dispatched with its own head, and its handler reads from the beginning of its body. -/
def Served (s : SentRequest) (d : Request × Bytes) : Prop := d.1.SameHead s.head.request ∧ d.2 <+: s.body

/-- The requests that were sent are dispatched in their order, and all of them once the stream is used up. -/
def Dispatches (sent : List SentRequest) (c : Connection) : Prop :=
  ∃ n, List.Forall₂ Served (sent.take n) c.dispatched ∧ (c.socket.stream = [] → n = sent.length)

namespace Turn

/-- The network delivers: a segment that is not empty, and what the handler reads, without errors. -/
structure Delivers (t : Turn) (c : Connection) : Prop where
  segment_noError : t.segment.error = none
  segment_pos : 0 < t.segment.size
  noError : ∀ o ∈ t.arrivals, o.error = none
  size_pos : ∀ o ∈ t.arrivals, 0 < o.size
  enough : c.socket.stream.length ≤ t.arrivals.length

/-- The bytes that the segment brings. -/
def data (t : Turn) (c : Connection) : Bytes := c.socket.stream.take (min t.segment.size c.abSize)

/-- The segment ends with or before the request it belongs to.  When it completes the head and brings some of the body
only, the handler reads to the end of the body. -/
def StaysWithin (t : Turn) (sent : List SentRequest) (c : Connection) : Prop :=
  ∀ s left, current sent ((sentBytes sent).length - c.socket.stream.length) = some (s, left) →
    (t.data c).length ≤ left ∧
      (left ≤ (t.data c).length + s.body.length → (t.data c).length < left → s.body.length ≤ t.readSizes.sum)

end Turn

/-- Every turn of a run meets the condition when it is taken. -/
def EveryTurn (p : Turn → Connection → Prop) : Connection → List Turn → Prop
  | _, [] => True
  | c, t :: ts => p t c ∧ ∀ c', c.doRecv t = .ok c' → EveryTurn p c' ts

/-! ## Reading one request -/

theorem readPieces_eq {r : Request} {sock : TcpSocket} {rest later : Bytes} (h : r.Awaits sock rest later)
    (sizes : List ℕ) :
    ∃ r' sock', readPieces sizes r = .ok (rest.take sizes.sum, r') ∧ r'.Awaits sock' (rest.drop sizes.sum) later ∧
      r'.body = r.body.drop sizes.sum ∧ r.ReadsTo r' := by
  induction sizes generalizing r sock rest with
  | nil => exact ⟨r, sock, by simp [readPieces], by simpa using h, rfl, .refl r⟩
  | cons size sizes ih =>
    obtain ⟨buf, r₁, sock₁, hread, hfront, hawaits, hbody, hto⟩ := h.readBodyInto size
    obtain ⟨r', sock', hpieces, hawaits', hbody', hto'⟩ := ih hawaits
    refine ⟨r', sock', ?_, ?_, ?_, hto.trans hto'⟩
    · simp only [readPieces, hread, ok_bind, hpieces, hfront]
      rw [List.sum_cons, List.take_add]
    · rw [List.drop_drop] at hawaits'
      rwa [List.sum_cons]
    · rw [hbody', hbody, List.drop_drop, List.sum_cons]

/-- Reading changes neither the validity of a request nor whether it is kept alive. -/
theorem isValid_of_readsTo {r r' : Request} (h : r.ReadsTo r') {sock : TcpSocket} (hs : r.socket = some sock) :
    r'.isValid = r.isValid ∧ r'.keepAlive = r.keepAlive := by
  obtain ⟨stream, script, body, status, context, rfl⟩ := h sock hs
  exact ⟨by simp [Request.isValid, hs], rfl⟩

namespace SentRequest

variable (s : SentRequest)

theorem keepAlive_finished (rest : Bytes) : (s.head.request.finished rest).keepAlive = true := by
  have hkeep : (s.head.request.finished rest).keepAlive = s.head.request.finishKeepAlive := by
    unfold Request.finished Request.withBody
    simp only
    split
    · rfl
    · split_ifs <;> rfl
  rw [hkeep, Request.finishKeepAlive, s.head.find?_request (by decide)]
  cases hc : s.head.lastValue Header.connection with
  | none =>
    simp only [s.version_eq]
    decide
  | some v => simpa using s.keepAlive v hc

variable {s}

theorem Admissible.isValid (h : s.Admissible) (rest : Bytes) {sock : TcpSocket} (hopen : sock.isOpen = true) :
    Request.isValid { s.head.request.finished rest with socket := some sock } = true := by
  obtain ⟨hmethod, hversion, hpath, -, -, hheaders, -⟩ := s.head.request.sameHead_finished rest
  have hlength : s.head.request.method = .get → ∀ v, s.head.lastValue Header.contentLength = some v →
      (strtoull 10 v).value ≤ 1024 := by
    intro hget v hv
    rcases s.length_eq with ⟨hnone, -⟩ | ⟨v', hv', hne, hdigits, hnum⟩
    · simp [hnone] at hv
    · obtain rfl : v' = v := by simpa [hv'] using hv
      have hshort := s.body_short
      rw [strtoull_digits (by decide) hne hdigits (by omega), hnum]
      exact h.get_short hget
  simp only [Request.isValid, hopen, hversion, hpath, hmethod, hheaders, s.version_eq, h.path_ne_nil,
    s.head.find?_request (show ¬ HttpMessage.SameName (lit "cookie") Header.contentLength by decide)]
  rw [if_neg (by decide)]
  split_ifs with hget
  · cases hv : s.head.lastValue Header.contentLength with
    | none => rfl
    | some v => simpa using hlength hget v hv
  · rfl

/-- **A request behind its head** waits for its body, of which the first bytes came with the head. -/
theorem awaits_finished {rest tail later : Bytes} (hbody : s.body = rest ++ tail) {sock : TcpSocket}
    (hflows : sock.Flows) (hstream : sock.stream = tail ++ later) :
    Request.Awaits { s.head.request.finished rest with socket := some sock } sock s.body later := by
  have hheaders := s.head.find?_request (show ¬ HttpMessage.SameName (lit "cookie") Header.contentLength by decide)
  have hlen : s.body.length = rest.length + tail.length := by rw [hbody, List.length_append]
  rcases s.length_eq with ⟨hnone, hte, hnil⟩ | ⟨v, hv, hne, hdigits, hnum⟩
  · -- no body
    have hte' : s.head.request.headers.find? Header.transferEncoding = none := by
      rw [s.head.find?_request (by decide), hte]
    obtain ⟨rfl, rfl⟩ : rest = [] ∧ tail = [] := List.append_eq_nil_iff.mp (hbody.symm.trans hnil)
    have hfinished : (s.head.request.finished []).body = [] ∧ (s.head.request.finished []).rbStatus = .finished := by
      simp only [Request.finished, Request.withBody, hheaders, hnone, s.version_eq, hte']
      exact ⟨rfl, rfl⟩
    exact ⟨rfl, hflows, by simp [hfinished.1, hstream, hnil], by simp [hfinished.1], Or.inr ⟨hfinished.2, hnil⟩⟩
  · -- a body of the announced length
    have hshort := s.body_short
    have hvalue : (strtoull 10 v).value = s.body.length := by
      rw [strtoull_digits (by decide) hne hdigits (by omega), hnum]
    have hfinished : (s.head.request.finished rest).body = rest ∧
        (s.head.request.finished rest).rbStatus = (if s.body.length > 0 then .length else .finished) ∧
        (s.head.request.finished rest).rbContext = .size s.body.length := by
      simp only [Request.finished, Request.withBody, hheaders, hv, hvalue]
      exact ⟨List.take_of_length_le (by omega), trivial, trivial⟩
    refine ⟨rfl, hflows, ?_, ?_, ?_⟩
    · rw [hfinished.1, hstream, hbody, List.append_assoc]
    · rw [hfinished.1]
      omega
    · rcases Nat.eq_zero_or_pos s.body.length with hz | hz
      · exact Or.inr ⟨by rw [hfinished.2.1, if_neg (by omega)], List.length_eq_zero_iff.mp hz⟩
      · exact Or.inl ⟨by rw [hfinished.2.1, if_pos hz], hfinished.2.2⟩

end SentRequest

/-! ## Where a connection stands -/

theorem sentBytes_cons (s : SentRequest) (sent : List SentRequest) :
    sentBytes (s :: sent) = s.bytes ++ sentBytes sent := rfl

theorem sentBytes_append (sent sent' : List SentRequest) :
    sentBytes (sent ++ sent') = sentBytes sent ++ sentBytes sent' := by
  simp [sentBytes]

theorem current_append (done : List SentRequest) (s : SentRequest) (later : List SentRequest) {k : ℕ}
    (hk : k < s.bytes.length) :
    current (done ++ s :: later) ((sentBytes done).length + k) = some (s, s.bytes.length - k) := by
  induction done with
  | nil => simp [current, sentBytes, hk]
  | cons d done ih =>
    have hsplit : (sentBytes (d :: done)).length + k = d.bytes.length + ((sentBytes done).length + k) := by
      rw [sentBytes_cons, List.length_append]
      omega
    rw [List.cons_append, current, hsplit, if_neg (by omega), Nat.add_sub_cancel_left, ih]

/-- A connection has dispatched the requests `done`, and its parser has read the bytes `pre` of the next head. -/
structure Connection.Inv (sent : List SentRequest) (c : Connection) (done todo : List SentRequest) (pre : Bytes)
    (st : HeadState) : Prop where
  sent_eq : sent = done ++ todo
  bytes_eq : pre ++ c.socket.stream = sentBytes todo
  pre_short : ∀ s later, todo = s :: later → pre.length < s.head.bytes.length
  alive : c.deleted = false
  isOpen : c.socket.isOpen = true
  abSize_pos : 0 < c.abSize
  sim : c.parser.Sim st
  parser_at : At headMachine .waiting pre st c.parser.buffer
  dispatched : List.Forall₂ Served done c.dispatched

namespace Connection

section Step

variable {sent done todo : List SentRequest} {c : Connection} {pre : Bytes} {st : HeadState}

theorem doRecv_segment {t : Turn} (h : c.Inv sent done todo pre st) (ht : t.Delivers c) {m : ℕ}
    (hm : m = min t.segment.size c.abSize) (hne : c.socket.stream.take m ≠ []) {b : Bool} {p' : Parser}
    (hload : c.parser.load (c.socket.stream.take m) = .ok (b, p')) :
    c.doRecv t =
      if b = false then
        .ok { c with socket := { c.socket with stream := c.socket.stream.drop m, script := [] }, parser := p' }
      else match p'.getRequest (some { c.socket with stream := c.socket.stream.drop m, script := t.arrivals }) with
        | (none, _) => .error .nullPointer
        | (some request, parser) =>
          if request.isValid = false then
            .ok { c with
              socket :=
                { TcpSocket.writeSome { c.socket with stream := c.socket.stream.drop m, script := [] } badRequest
                  with isOpen := false }
              parser, deleted := true }
          else (do
            let (bytes, r) ← runTask t.readSizes request
            { c with parser }.taskEnd request bytes r) := by
  rw [doRecv, if_neg (by simp [h.alive]), if_neg (by simp [h.isOpen])]
  simp only [TcpSocket.readSome, ht.segment_noError, ← hm, ok_bind, Option.isSome_none, Bool.false_eq_true, false_or,
    if_neg hne, hload]

/-- A segment that does not complete the head is collected. -/
theorem Inv.collect (h : c.Inv sent done todo pre st) {t : Turn} (ht : t.Delivers c) {s : SentRequest}
    {later : List SentRequest} (htodo : todo = s :: later) (hadm : s.Admissible) {m : ℕ}
    (hm : m = min t.segment.size c.abSize) (hne : c.socket.stream.take m ≠ [])
    (hshort : (pre ++ c.socket.stream.take m).length < s.head.bytes.length) :
    ∃ c' st', c.doRecv t = .ok c' ∧ c'.Inv sent done todo (pre ++ c.socket.stream.take m) st' := by
  have hbytes := h.bytes_eq
  have hpre : pre ++ c.socket.stream.take m <+: s.head.bytes := by
    refine List.prefix_of_prefix_length_le ⟨c.socket.stream.drop m, ?_⟩
      (List.prefix_append _ (s.body ++ sentBytes later))
      hshort.le
    rw [List.append_assoc, List.take_append_drop, hbytes, htodo, sentBytes_cons, SentRequest.bytes, List.append_assoc]
  obtain ⟨st', q, hat⟩ := exists_at s.wellFormed.isLine s.wellFormed.line_short
    (s.wellFormed.accepted hadm.cookiesFit).runLines hpre hshort
  obtain ⟨b, p', hload, hsim⟩ := load_sim h.sim (c.socket.stream.take m)
  rw [h.parser_at.drain, hat.drain_self] at hsim
  obtain ⟨rfl, hsim', rfl, -⟩ := hsim
  refine ⟨_, st', (doRecv_segment h ht hm hne hload).trans (if_pos rfl), h.sent_eq, ?_, fun s' later' htodo' => ?_,
    h.alive, h.isOpen, h.abSize_pos, hsim', hat, h.dispatched⟩
  · rw [List.append_assoc, List.take_append_drop, hbytes]
  · obtain ⟨rfl, -⟩ : s = s' ∧ later = later' := by simpa [htodo] using htodo'
    exact hshort

/-- A segment that completes the head, and stays within the request, has it dispatched. -/
theorem Inv.dispatch (h : c.Inv sent done todo pre st) {t : Turn} (ht : t.Delivers c) {s : SentRequest}
    {later : List SentRequest} (htodo : todo = s :: later) (hadm : s.Admissible)
    {m : ℕ} (hm : m = min t.segment.size c.abSize) (hne : c.socket.stream.take m ≠ []) {rest tail : Bytes}
    (hbody : s.body = rest ++ tail) (hsizes : tail = [] ∨ s.body.length ≤ t.readSizes.sum)
    (hcut : pre ++ c.socket.stream.take m = s.head.bytes ++ rest) :
    ∃ c', c.doRecv t = .ok c' ∧ c'.Inv sent (done ++ [s]) later [] .waiting := by
  have hbytes := h.bytes_eq
  have hstream : c.socket.stream.drop m = tail ++ sentBytes later := by
    rw [← List.take_append_drop m c.socket.stream, ← List.append_assoc, hcut, htodo, sentBytes_cons, SentRequest.bytes,
      hbody, List.append_assoc, List.append_assoc, List.append_assoc] at hbytes
    exact List.append_cancel_left (List.append_cancel_left hbytes)
  -- the parser hands the request out
  obtain ⟨b, p', hload, hsim⟩ := load_sim h.sim (c.socket.stream.take m)
  rw [h.parser_at.drain, hcut, (s.wellFormed.accepted hadm.cookiesFit).drain] at hsim
  obtain ⟨rfl, hsim', hbuffer, hctx⟩ := hsim
  -- its handler reads the body
  obtain ⟨sock, hsock⟩ : ∃ sock : TcpSocket,
      sock = { c.socket with stream := c.socket.stream.drop m, script := t.arrivals } := ⟨_, rfl⟩
  have hopen : sock.isOpen = true := by rw [hsock]; exact h.isOpen
  have hflows : sock.Flows := by
    rw [hsock]
    refine ⟨ht.noError, ht.size_pos, ?_⟩
    have := ht.enough
    simp only [List.length_drop]
    omega
  have hstream' : sock.stream = tail ++ sentBytes later := by rw [hsock]; exact hstream
  have hawaits := SentRequest.awaits_finished hbody hflows hstream'
  have hbrought : (s.head.request.finished rest).body = rest := by
    have hbytes' := hawaits.bytes_eq
    rw [hstream', hbody, List.append_assoc] at hbytes'
    exact List.append_cancel_right hbytes'
  obtain ⟨r', sock', hpieces, hawaits', hkept, hto⟩ := readPieces_eq hawaits t.readSizes
  obtain ⟨hvalid', hkeep'⟩ := isValid_of_readsTo hto rfl
  have hkeep : r'.keepAlive = true := hkeep'.trans (s.keepAlive_finished rest)
  have hvalid : r'.isValid = true := hvalid'.trans (hadm.isValid rest hopen)
  -- what it leaves in the socket are the requests behind
  have hleft : sock'.stream = sentBytes later := by
    have hunread : r'.body = s.body.drop t.readSizes.sum := by
      rcases hsizes with hall | hsizes
      · -- all of the body came with the head
        rw [hkept, hbrought, hbody, hall, List.append_nil]
      · have hle := hawaits'.body_le
        rw [List.drop_eq_nil_of_le hsizes] at hle ⊢
        exact List.length_eq_zero_iff.mp (Nat.le_zero.mp hle)
    have hbytes' := hawaits'.bytes_eq
    rw [hunread] at hbytes'
    exact List.append_cancel_left hbytes'
  have hopen' : sock'.isOpen = true := by
    obtain ⟨stream, script, body, status, context, hr'⟩ := hto _ rfl
    have hsocket := hawaits'.socket_eq
    rw [hr'] at hsocket
    rw [← Option.some.inj hsocket]
    exact hopen
  have hrun : c.doRecv t = .ok
      { c with socket := sock', parser := { p' with context := none }, deleted := false,
               dispatched := c.dispatched ++ [({ s.head.request.finished rest with socket := some sock },
                 s.body.take t.readSizes.sum)] } := by
    rw [doRecv_segment h ht hm hne hload, ← hsock, Parser.getRequest, hctx]
    simp only [Bool.true_eq_false, if_false, HeadResult.request, hadm.isValid rest hopen, runTask, hpieces, ok_bind,
      hkeep, if_true, taskEnd, hawaits'.socket_eq, hvalid, Bool.not_true]
  refine ⟨_, hrun, by rw [h.sent_eq, htodo]; simp, by rw [List.nil_append]; exact hleft, fun s' later' hlater => ?_,
    rfl, hopen', h.abSize_pos, hsim', ?_, ?_⟩
  · have hpos : (0 : ℕ) < s'.head.bytes.length := by simp [Head.bytes, crlf]
    exact hpos
  · show At headMachine .waiting [] .waiting p'.buffer
    rw [hbuffer]
    exact At.nil (by decide) _
  · refine List.rel_append h.dispatched (List.Forall₂.cons ⟨?_, List.take_prefix _ _⟩ List.Forall₂.nil)
    exact s.head.request.sameHead_finished rest

/-- A connection is where it should be in the stream, or it is over with the right requests dispatched. -/
def Stands (sent : List SentRequest) (c : Connection) : Prop :=
  c.deleted = true ∧ Dispatches sent c ∨ ∃ done todo pre st, c.Inv sent done todo pre st

/-- At the end of the stream the connection is given up. -/
theorem Inv.endOfStream (h : c.Inv sent done [] pre st) {t : Turn} (ht : t.Delivers c) :
    ∃ c', c.doRecv t = .ok c' ∧ c'.Stands sent := by
  obtain ⟨hpre, hstream⟩ : pre = [] ∧ c.socket.stream = [] := List.append_eq_nil_iff.mp h.bytes_eq
  refine ⟨{ c with socket := { c.socket with stream := [], script := [] }, deleted := true }, ?_, Or.inl ⟨rfl, ?_⟩⟩
  · rw [doRecv, if_neg (by simp [h.alive]), if_neg (by simp [h.isOpen])]
    simp [TcpSocket.readSome, ht.segment_noError, hstream]
  · refine ⟨done.length, ?_, fun _ => by rw [h.sent_eq, List.append_nil]⟩
    rw [h.sent_eq, List.take_left]
    exact h.dispatched

/-- **One turn** of a connection whose segment stays within the request. -/
theorem Stands.doRecv (h : c.Stands sent) (hadm : ∀ s ∈ sent, s.Admissible) {t : Turn} (ht : t.Delivers c)
    (hw : t.StaysWithin sent c) : ∃ c', c.doRecv t = .ok c' ∧ c'.Stands sent := by
  rcases h with ⟨hdel, hd⟩ | ⟨done, todo, pre, st, h⟩
  · exact ⟨c, by rw [Connection.doRecv, if_pos hdel], Or.inl ⟨hdel, hd⟩⟩
  cases todo with
  | nil => exact h.endOfStream ht
  | cons s later =>
    have hbytes := h.bytes_eq
    have hshort := h.pre_short s later rfl
    have hs : s.Admissible := hadm s (by simp [h.sent_eq])
    have hlen : s.bytes.length = s.head.bytes.length + s.body.length := List.length_append
    have hcount := congrArg List.length hbytes
    rw [sentBytes_cons, List.length_append, List.length_append] at hcount
    -- the condition of the turn, read at the place of the parser
    have hplace : (sentBytes sent).length - c.socket.stream.length = (sentBytes done).length + pre.length := by
      rw [h.sent_eq, sentBytes_append, sentBytes_cons, List.length_append, List.length_append]
      omega
    obtain ⟨hseg, hsizes⟩ := hw s (s.bytes.length - pre.length) (by
      rw [hplace, h.sent_eq]
      exact current_append done s later (by omega))
    have hpos : 0 < min t.segment.size c.abSize := Nat.lt_min.mpr ⟨ht.segment_pos, h.abSize_pos⟩
    rw [Turn.data] at hseg hsizes
    generalize hm : min t.segment.size c.abSize = m at hseg hsizes hpos
    have hne : c.socket.stream.take m ≠ [] := by
      rw [← List.length_pos_iff, List.length_take]
      omega
    rcases Nat.lt_or_ge (pre ++ c.socket.stream.take m).length s.head.bytes.length with hless | hmore
    · obtain ⟨c', st', hrun, hinv⟩ := h.collect ht rfl hs hm.symm hne hless
      exact ⟨c', hrun, Or.inr ⟨_, _, _, _, hinv⟩⟩
    · -- the segment ends in the body
      obtain ⟨tail, htail⟩ : pre ++ c.socket.stream.take m <+: s.bytes := by
        refine List.prefix_of_prefix_length_le ⟨c.socket.stream.drop m, ?_⟩ (List.prefix_append _ (sentBytes later)) ?_
        · rw [List.append_assoc, List.take_append_drop, hbytes, sentBytes_cons]
        · rw [List.length_append]
          omega
      -- what it brings of the body is `rest`
      obtain ⟨rest, hcut, hbody⟩ : ∃ rest, pre ++ c.socket.stream.take m = s.head.bytes ++ rest ∧
          s.body = rest ++ tail := by
        rcases List.append_eq_append_iff.mp htail with ⟨a, ha, hbody⟩ | ⟨rest, hcut, hbody⟩
        · have hnil : a = [] := by
            have := congrArg List.length ha
            simp only [List.length_append] at this hmore
            exact List.length_eq_zero_iff.mp (by omega)
          subst hnil
          exact ⟨[], by rw [ha, List.append_nil, List.append_nil], hbody.symm⟩
        · exact ⟨rest, hcut, hbody⟩
      have hread : tail = [] ∨ s.body.length ≤ t.readSizes.sum := by
        have hcut' := congrArg List.length hcut
        have hbody' := congrArg List.length hbody
        rw [List.length_append, List.length_append] at hcut'
        rw [List.length_append] at hbody'
        rcases Nat.eq_zero_or_pos tail.length with hnil | hsome
        · exact Or.inl (List.length_eq_zero_iff.mp hnil)
        · exact Or.inr (hsizes (by omega) (by omega))
      obtain ⟨c', hrun, hinv⟩ := h.dispatch ht rfl hs hm.symm hne hbody hread hcut
      exact ⟨c', hrun, Or.inr ⟨_, _, _, _, hinv⟩⟩

/-- **A run** of turns that stay within their requests. -/
theorem Stands.run (hadm : ∀ s ∈ sent, s.Admissible) (turns : List Turn) (h : c.Stands sent)
    (hturns : EveryTurn (fun t c => t.Delivers c ∧ t.StaysWithin sent c) c turns) :
    ∃ c', c.run turns = .ok c' ∧ c'.Stands sent := by
  induction turns generalizing c with
  | nil => exact ⟨c, rfl, h⟩
  | cons t ts ih =>
    obtain ⟨⟨ht, hw⟩, hnext⟩ := hturns
    obtain ⟨c₁, hstep, h₁⟩ := h.doRecv hadm ht hw
    obtain ⟨c', hrun, h'⟩ := ih h₁ (hnext c₁ hstep)
    exact ⟨c', by simp only [Connection.run, hstep, ok_bind, hrun], h'⟩

end Step

end Connection

end Gts3.Web
