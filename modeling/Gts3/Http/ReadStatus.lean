import Gts3.Http.BodyProgress
import Gts3.Http.LengthReads
import Gts3.Http.ParserSafety

/-!
# The status of a body and its context

`m_rb_status` says which reader a call of `read_body` takes, and each reader takes a value of its own type out of
`m_rb_context`.  `finish` and both readers keep the two in step (`read_status`): no call asks for the other type, a
body with a length does not become a chunked one or conversely, and what is finished stays so.
-/

namespace Gts3.Http

open Lib Lib.Search Lib.Cxx Lib.LineMachine

/-- The states of a chunked body. -/
def RbStatus.IsChunked (s : RbStatus) : Prop := s = .waitSize ∨ s = .waitContent ∨ s = .waitHeaders ∨ s = .chunkedEnd

theorem RbStatus.isChunked_iff {s : RbStatus} : s.IsChunked ↔ s ≠ .length ∧ s ≠ .finished := by
  cases s <;> simp [IsChunked]

/-- Where a status may go. -/
def RbStatus.LeadsTo (s s' : RbStatus) : Prop :=
  (s = .length → s' = .length ∨ s' = .finished) ∧ (s.IsChunked → s'.IsChunked ∨ s' = .finished) ∧
    (s = .finished → s' = .finished)

theorem RbStatus.LeadsTo.refl (s : RbStatus) : s.LeadsTo s := ⟨Or.inl, Or.inl, id⟩

theorem RbStatus.LeadsTo.trans {s s' s'' : RbStatus} (h : s.LeadsTo s') (h' : s'.LeadsTo s'') : s.LeadsTo s'' where
  left hs := (h.1 hs).elim h'.1 fun hf => Or.inr (h'.2.2 hf)
  right := ⟨fun hs => (h.2.1 hs).elim h'.2.1 fun hf => Or.inr (h'.2.2 hf), fun hs => h'.2.2 (h.2.2 hs)⟩

namespace Request

/-- The context has the type that the reader for the status asks for. -/
structure InStep (r : Request) : Prop where
  length : r.rbStatus = .length → ∃ tplen, r.rbContext = .size tplen
  chunked : r.rbStatus.IsChunked → ∃ abuf, r.rbContext = .string abuf

theorem InStep.of_finished {r : Request} (h : r.rbStatus = .finished) : r.InStep where
  length hs := by simp [h] at hs
  chunked hs := absurd h (RbStatus.isChunked_iff.mp hs).2

theorem InStep.of_size {r : Request} {tplen : ℕ} (h : r.rbContext = .size tplen)
    (hs : r.rbStatus = .length ∨ r.rbStatus = .finished) : r.InStep where
  length _ := ⟨tplen, h⟩
  chunked hc := by
    obtain ⟨hlength, hfinished⟩ := RbStatus.isChunked_iff.mp hc
    exact absurd hs (by simp [hlength, hfinished])

theorem InStep.of_string {r : Request} {abuf : Bytes} (h : r.rbContext = .string abuf) (hs : r.rbStatus ≠ .length) :
    r.InStep where
  length hl := absurd hl hs
  chunked _ := ⟨abuf, h⟩

/-- The socket is not part of it. -/
theorem InStep.setSocket {r : Request} (h : r.InStep) (socket : Option TcpSocket) :
    ({ r with socket := socket } : Request).InStep := ⟨h.length, h.chunked⟩

/-- **`finish`** sets both, whatever the head says. -/
theorem finished_inStep (r : Request) (body : Bytes) : (r.finished body).InStep := by
  have hbody : ∀ q : Request, (q.withBody body).InStep := by
    intro q
    unfold withBody
    split
    · next v _ =>
      refine .of_size rfl ?_
      dsimp only
      split_ifs
      · exact Or.inl rfl
      · exact Or.inr rfl
    · split_ifs
      · exact .of_string rfl nofun
      · exact .of_finished rfl
      · exact .of_finished rfl
  have h := hbody { r with keepAlive := finishKeepAlive r, supportGzip := r.gzip }
  exact ⟨h.length, h.chunked⟩

/-! ## What a call does to the status -/

/-- A call leaves the request in step, and the status where it may go. -/
structure Follows (r r' : Request) : Prop where
  inStep : r'.InStep
  leads : r.rbStatus.LeadsTo r'.rbStatus

theorem follows_length {r r' : Request} {tplen : ℕ} (hr : r.rbStatus = .length) (hcontext : r'.rbContext = .size tplen)
    (hs : r'.rbStatus = .length ∨ r'.rbStatus = .finished) : r.Follows r' where
  inStep := .of_size hcontext hs
  leads := ⟨fun _ => hs, fun hc => absurd hr (RbStatus.isChunked_iff.mp hc).1, fun hf => by simp [hr] at hf⟩

theorem follows_chunked {r r' : Request} (hr : r.rbStatus.IsChunked)
    (h : r'.rbStatus = .finished ∨ r'.rbStatus.IsChunked ∧ ∃ abuf, r'.rbContext = .string abuf) : r.Follows r' := by
  obtain ⟨hlength, hfinished⟩ := RbStatus.isChunked_iff.mp hr
  rcases h with h | ⟨hc, abuf, hcontext⟩
  · exact ⟨.of_finished h, fun hl => absurd hl hlength, fun _ => Or.inr h, fun hf => absurd hf hfinished⟩
  · exact ⟨.of_string hcontext (RbStatus.isChunked_iff.mp hc).1, fun hl => absurd hl hlength, fun _ => Or.inl hc,
      fun hf => absurd hf hfinished⟩

theorem endLengthMode_follows {r r' : Request} (hr : r.rbStatus = .length) (hr' : r'.rbStatus = .length) (tplen : ℕ)
    (buf : Buffer) (error : Option ErrorCode) (count : ℕ) :
    r.Follows (endLengthMode r' tplen buf error count).request := by
  unfold endLengthMode
  split_ifs
  · exact follows_length hr rfl (Or.inr rfl)
  · exact follows_length hr rfl (Or.inl hr')

theorem readBodyLengthMode_follows {r : Request} {buf : Buffer} {size : ℕ} {res : ReadBody} (hr : r.rbStatus = .length)
    (h : r.readBodyLengthMode buf size = .ok res) : r.Follows res.request := by
  unfold readBodyLengthMode at h
  split at h
  swap
  · cases h
  next tplen _ =>
  dsimp only at h
  generalize (if size > tplen then tplen else size) = n at h
  split_ifs at h
  · obtain ⟨buf₁, -, h⟩ := run_bind_eq_ok.mp h
    obtain ⟨left, -, h⟩ := run_bind_eq_ok.mp h
    obtain ⟨size₁, -, h⟩ := run_bind_eq_ok.mp h
    cases hs : r.socket with
    | none => simp [hs] at h
    | some sock =>
      simp only [hs] at h
      obtain ⟨l, -, h⟩ := run_bind_eq_ok.mp h
      obtain rfl := Except.ok.inj h
      exact endLengthMode_follows hr (by exact hr) _ _ _ _
  · obtain ⟨buf₁, -, h⟩ := run_bind_eq_ok.mp h
    obtain ⟨left, -, h⟩ := run_bind_eq_ok.mp h
    obtain rfl := Except.ok.inj h
    exact endLengthMode_follows hr (by exact hr) _ _ _ _

/-- A line of a chunked body leads to another state of a chunked body. -/
theorem chunkLine_isChunked {l : ChunkLoop} (h : l.status.IsChunked) (line : Bytes) :
    (chunkLine l line).loop.status.IsChunked := by
  unfold chunkLine
  split
  · split
    · exact h
    · next size _ =>
      simp only [ChunkStep.loop]
      split_ifs
      · exact Or.inr (Or.inr (Or.inl rfl))
      · exact Or.inr (Or.inl rfl)
  · simp only [ChunkStep.loop]
    split_ifs
    · exact Or.inr (Or.inl rfl)
    · exact Or.inl rfl
  · split_ifs
    · exact Or.inr (Or.inr (Or.inr rfl))
    · dsimp only
      split_ifs
      · exact h
      · exact h
  · exact h

/-- The decoder stays in these states. -/
theorem readChunkedLoop_isChunked {abuf abuf' : Bytes} {l l' : ChunkLoop} {failed : Bool} (h : l.status.IsChunked)
    (hloop : readChunkedLoop (abuf.length + 1) l abuf = .ok (l', abuf', failed)) : l'.status.IsChunked := by
  rw [readChunkedLoop_eq _ _ _ (Nat.lt_succ_self _)] at hloop
  have hdrain : (drain chunkMachine l abuf).Holds (fun l => l.status.IsChunked) (fun _ => True) := by
    have hover : ∀ l : ChunkLoop, l.status.IsChunked → (chunkMachine.overlong l).1.status.IsChunked ∧
        ∀ b, (chunkMachine.overlong l).2 = some b → True := fun l hl => ⟨hl, fun _ _ => trivial⟩
    refine drain_inv (fun l line hl => ?_) hover h abuf
    have hline := chunkLine_isChunked hl (line.take (line.length - 2))
    simp only [chunkMachine]
    cases hstep : chunkLine l (line.take (line.length - 2)) with
    | next l₁ =>
      rw [hstep] at hline
      exact hline
    | stop l₁ =>
      rw [hstep] at hline
      exact ⟨hline, trivial⟩
    | reset l₁ =>
      rw [hstep] at hline
      exact ⟨hline, trivial⟩
  cases ho : drain chunkMachine l abuf with
  | more l₁ rest =>
    rw [ho] at hdrain hloop
    obtain ⟨rfl, -, -⟩ := by simpa [loopResult] using hloop
    exact hdrain
  | done l₁ b rest =>
    rw [ho] at hdrain hloop
    obtain ⟨rfl, -, -⟩ := by simpa [loopResult] using hloop
    exact hdrain.1

theorem endChunkedMode_follows {r r' : Request} {abuf : Bytes} {buf : Buffer} {size count : ℕ}
    {error : Option ErrorCode} {res : ReadBody} (hr : r.rbStatus.IsChunked) (hr' : r'.rbStatus.IsChunked)
    (hcontext : r'.rbContext = .string abuf) (h : endChunkedMode r' buf size count error = .ok res) :
    r.Follows res.request := by
  unfold endChunkedMode at h
  split_ifs at h
  · obtain ⟨buf₁, -, h⟩ := run_bind_eq_ok.mp h
    obtain rfl := Except.ok.inj h
    exact follows_chunked hr (Or.inr ⟨hr', abuf, hcontext⟩)
  · -- the whole body has been given, and there is no more
    obtain ⟨buf₁, -, h⟩ := run_bind_eq_ok.mp h
    obtain rfl := Except.ok.inj h
    exact follows_chunked hr (Or.inl rfl)
  · obtain ⟨buf₁, -, h⟩ := run_bind_eq_ok.mp h
    obtain rfl := Except.ok.inj h
    exact follows_chunked hr (Or.inr ⟨hr', abuf, hcontext⟩)

theorem decodeChunked_follows {r r' : Request} {abuf : Bytes} {buf : Buffer} {size count : ℕ}
    {error : Option ErrorCode} {res : ReadBody} (hr : r.rbStatus.IsChunked) (hr' : r'.rbStatus.IsChunked)
    (h : decodeChunked r' abuf buf size count error = .ok res) : r.Follows res.request := by
  unfold decodeChunked at h
  obtain ⟨⟨l, abuf', failed⟩, hloop, h⟩ := run_bind_eq_ok.mp h
  have hl := readChunkedLoop_isChunked (by exact hr') hloop
  dsimp only at h
  split_ifs at h
  · obtain rfl := Except.ok.inj h
    exact follows_chunked hr (Or.inl rfl)
  · exact endChunkedMode_follows hr (by exact hl) rfl h

theorem readBodyChunkedMode_follows {r : Request} {buf : Buffer} {size : ℕ} {res : ReadBody} (hin : r.InStep)
    (hr : r.rbStatus.IsChunked) (h : r.readBodyChunkedMode buf size = .ok res) : r.Follows res.request := by
  obtain ⟨abuf, hcontext⟩ := hin.chunked hr
  unfold readBodyChunkedMode at h
  by_cases hle : size ≤ r.body.length
  · rw [if_pos hle] at h
    obtain ⟨buf₁, -, h⟩ := run_bind_eq_ok.mp h
    obtain rfl := Except.ok.inj h
    exact follows_chunked hr (Or.inr ⟨hr, abuf, hcontext⟩)
  rw [if_neg hle] at h
  obtain ⟨buf₁, -, h⟩ := run_bind_eq_ok.mp h
  dsimp only at h
  by_cases hend : r.rbStatus = .chunkedEnd
  · rw [if_pos hend] at h
    obtain rfl := Except.ok.inj h
    exact follows_chunked hr (Or.inl rfl)
  rw [if_neg hend, hcontext] at h
  dsimp only at h
  by_cases hempty : abuf = []
  swap
  · rw [if_neg hempty] at h
    exact decodeChunked_follows hr (by exact hr) h
  rw [if_pos hempty] at h
  cases hs : r.socket with
  | none => simp [hs] at h
  | some sock =>
    simp only [hs] at h
    obtain ⟨⟨data, error, sock'⟩, -, h⟩ := run_bind_eq_ok.mp h
    dsimp only at h
    split at h
    · exact decodeChunked_follows hr (by exact hr) h
    · split_ifs at h
      · exact decodeChunked_follows hr (by exact hr) h
      · obtain rfl := Except.ok.inj h
        exact follows_chunked hr (Or.inr ⟨hr, abuf, rfl⟩)
      · obtain rfl := Except.ok.inj h
        exact follows_chunked hr (Or.inr ⟨hr, abuf, rfl⟩)

theorem InStep.follows_refl {r : Request} (h : r.InStep) : r.Follows r := ⟨h, .refl _⟩

/-! ## Calls -/

theorem readBodyInto_follows {r : Request} {buf : Buffer} {size : ℕ} {res : ReadBody} (hin : r.InStep)
    (h : r.readBodyInto buf size = .ok res) : r.Follows res.request := by
  unfold readBodyInto at h
  split_ifs at h with hsize hfinished hlength
  · obtain rfl := Except.ok.inj h
    exact hin.follows_refl
  · obtain rfl := Except.ok.inj h
    exact hin.follows_refl
  · exact readBodyLengthMode_follows hlength h
  · exact readBodyChunkedMode_follows hin (RbStatus.isChunked_iff.mpr ⟨hlength, hfinished⟩) h

/-- `read_body(error, size)` on an unfinished body is one call of a reader, with a buffer of its own. -/
theorem readBody_reader {r : Request} (hfinished : r.rbStatus ≠ .finished) (size : ℕ) :
    r.readBody size = .error .nullPointer ∨ ∃ n, r.readBody size =
      (if r.rbStatus = .length then readBodyLengthMode r (Buffer.zeros n) n
        else readBodyChunkedMode r (Buffer.zeros n) n) >>=
      fun res => .ok (res.buf.front res.count, res.error, res.request) := by
  rw [readBody, if_neg hfinished]
  by_cases hz : size = 0
  · rw [if_pos hz]
    cases r.socket with
    | none => exact Or.inl rfl
    | some sock =>
      refine Or.inr ⟨sock.sendBufferSize, ?_⟩
      by_cases hlength : r.rbStatus = .length <;> simp only [hlength, ok_bind, if_true, if_false]
  · rw [if_neg hz]
    refine Or.inr ⟨size, ?_⟩
    by_cases hlength : r.rbStatus = .length <;> simp only [hlength, ok_bind, if_true, if_false]

/-- **One call** of `read_body`, whatever the socket does. -/
theorem InStep.read {r r' : Request} (hin : r.InStep) {c : ReadCall} {data : Bytes} {error : Option ErrorCode}
    (h : r.read c = .ok (data, error, r')) : r.Follows r' := by
  cases c with
  | into buf =>
    obtain ⟨res, hres, h⟩ := run_bind_eq_ok.mp h
    obtain ⟨-, -, rfl⟩ := by simpa using h
    exact readBodyInto_follows hin hres
  | string size =>
    rw [Request.read] at h
    by_cases hfinished : r.rbStatus = .finished
    · rw [readBody, if_pos hfinished] at h
      obtain ⟨-, -, rfl⟩ := by simpa using h
      exact hin.follows_refl
    rcases readBody_reader hfinished size with hnone | ⟨n, hn⟩
    · rw [hnone] at h
      cases h
    · rw [hn] at h
      obtain ⟨res, hres, h⟩ := run_bind_eq_ok.mp h
      obtain ⟨-, -, rfl⟩ := by simpa using h
      split_ifs at hres with hlength
      · exact readBodyLengthMode_follows hlength hres
      · exact readBodyChunkedMode_follows hin (RbStatus.isChunked_iff.mpr ⟨hlength, hfinished⟩) hres

theorem InStep.readBodyLengthMode_ne {r : Request} (hin : r.InStep) (hr : r.rbStatus = .length) (buf : Buffer)
    (size : ℕ) :
    r.readBodyLengthMode buf size ≠ .error .badVariant := by
  obtain ⟨tplen, hcontext⟩ := hin.length hr
  intro h
  rcases readBodyLengthMode_faults r buf size _ h with hf | ⟨-, hne⟩
  · simp [ReadFault] at hf
  · exact hne tplen hcontext

theorem InStep.readBodyChunkedMode_ne {r : Request} (hin : r.InStep) (hr : r.rbStatus.IsChunked) (buf : Buffer)
    (size : ℕ) : r.readBodyChunkedMode buf size ≠ .error .badVariant := by
  obtain ⟨abuf, hcontext⟩ := hin.chunked hr
  intro h
  rcases readBodyChunkedMode_faults r buf size _ h with hf | ⟨-, hne⟩
  · simp [ReadFault] at hf
  · exact hne abuf hcontext

/-- No call takes a value of the other type. -/
theorem InStep.read_ne {r : Request} (hin : r.InStep) (c : ReadCall) : r.read c ≠ .error .badVariant := by
  cases c with
  | into buf =>
    refine run_bind_ne ?_ fun res _ => ok_ne_error _ _
    unfold readBodyInto
    split_ifs with hsize hfinished hlength
    · exact ok_ne_error _ _
    · exact ok_ne_error _ _
    · exact hin.readBodyLengthMode_ne hlength _ _
    · exact hin.readBodyChunkedMode_ne (RbStatus.isChunked_iff.mpr ⟨hlength, hfinished⟩) _ _
  | string size =>
    rw [Request.read]
    by_cases hfinished : r.rbStatus = .finished
    · rw [readBody, if_pos hfinished]
      exact ok_ne_error _ _
    rcases readBody_reader hfinished size with hnone | ⟨n, hn⟩
    · rw [hnone]
      exact fun h => by cases h
    · rw [hn]
      refine run_bind_ne ?_ fun res _ => ok_ne_error _ _
      split_ifs with hlength
      · exact hin.readBodyLengthMode_ne hlength _ _
      · exact hin.readBodyChunkedMode_ne (RbStatus.isChunked_iff.mpr ⟨hlength, hfinished⟩) _ _

/-! ## Every sequence of calls -/

/-- What the parser makes of a head that it accepts: `next_request_ready` has finished the request, and
`get_request` has put in a socket. -/
def FromAcceptedHead (request : Request) : Prop :=
  ∃ (p p' : Parser) (r : Request) (socket : Option TcpSocket),
    p.nextRequestReady = .ok (some r, p') ∧ request = { r with socket }

/-- The requests that calls of `read_body` lead to; before each call the socket may be any other one. -/
inductive ReadsOn (request : Request) : Request → Prop
  | start : ReadsOn request request
  | read {r r' : Request} (h : ReadsOn request r) (socket : Option TcpSocket) (c : ReadCall) {data : Bytes}
      {error : Option ErrorCode} (hc : ({ r with socket := socket } : Request).read c = .ok (data, error, r')) :
      ReadsOn request r'

theorem nextRequestReady_eq {p : Parser} {cache : Request} (h : p.cache = some cache) :
    p.nextRequestReady =
      .ok (some (finished cache p.buffer), { p with state := .waitingRequest, cache := none, buffer := [] }) := by
  simp only [Parser.nextRequestReady, h, finish_eq, ok_bind]

theorem FromAcceptedHead.inStep {request : Request} (h : FromAcceptedHead request) : request.InStep := by
  obtain ⟨p, p', r, socket, hready, rfl⟩ := h
  cases hcache : p.cache with
  | none => simp [Parser.nextRequestReady, hcache] at hready
  | some cache =>
    rw [nextRequestReady_eq hcache] at hready
    obtain ⟨rfl, -⟩ := by simpa using hready
    exact (finished_inStep cache p.buffer).setSocket socket

theorem ReadsOn.follows {request r : Request} (hin : request.InStep) (h : ReadsOn request r) : request.Follows r := by
  induction h with
  | start => exact hin.follows_refl
  | read _ socket c hc ih =>
    have hcall := (ih.inStep.setSocket socket).read hc
    exact ⟨hcall.inStep, ih.leads.trans hcall.leads⟩

/-- What a parser hands out comes from an accepted head, or is the empty request of a rejected one. -/
theorem HandedOut.fromAcceptedHead {request : Request} (h : HandedOut request) :
    FromAcceptedHead request ∨ ∃ socket, request = { Request.new with socket } := by
  have key : ∀ p : Parser, Reachable p → ∀ r, p.context = some r → r = Request.new ∨ ∃ q body, r = finished q body := by
    intro p hp
    induction hp with
    | new => simp [Parser.new]
    | @load p p' data b hp hl ih =>
      obtain ⟨s, hs⟩ := hp.inv.sim
      obtain ⟨b', p'', hload, hsim⟩ := load_sim hs data
      obtain ⟨rfl, rfl⟩ : b = b' ∧ p' = p'' := by simpa [hl] using hload
      cases ho : drain headMachine s (p.buffer ++ data) with
      | more s' buf =>
        rw [ho] at hsim
        rw [hsim.2.2.2]
        exact ih
      | done s' result rest =>
        rw [ho] at hsim
        rw [hsim.2.2.2]
        rintro r hr
        obtain rfl := Option.some.inj hr
        cases result with
        | complete q => exact Or.inr ⟨q, rest, rfl⟩
        | rejected => exact Or.inl rfl
    | @getRequest p socket _ ih =>
      intro r hr
      unfold Parser.getRequest at hr
      cases hc : p.context <;> simp [hc] at hr
  obtain ⟨p, socket, hp, hget⟩ := h
  unfold Parser.getRequest at hget
  cases hc : p.context with
  | none => simp [hc] at hget
  | some r =>
    obtain rfl : { r with socket } = request := by simpa [hc] using hget
    rcases key p hp r hc with rfl | ⟨q, body, rfl⟩
    · exact Or.inr ⟨socket, rfl⟩
    · exact Or.inl ⟨⟨.readingHeaders, body, some q, none⟩, _, finished q body, socket, nextRequestReady_eq rfl, rfl⟩

/-- **Status and context stay in step.**  Behind every sequence of calls of `read_body` on a request of an accepted
head, with any sizes and sockets: the context holds what the status asks for, no call takes a value of the other type,
and the status goes only where its mode allows. -/
theorem read_status {request r : Request} (h : FromAcceptedHead request) (hr : ReadsOn request r) :
    (r.rbStatus = .length → ∃ tplen, r.rbContext = .size tplen) ∧
    (r.rbStatus.IsChunked → ∃ abuf, r.rbContext = .string abuf) ∧
    (∀ socket c, ({ r with socket := socket } : Request).read c ≠ .error .badVariant) ∧
    request.rbStatus.LeadsTo r.rbStatus ∧
    ∀ socket c data error r', ({ r with socket := socket } : Request).read c = .ok (data, error, r') →
      r.rbStatus.LeadsTo r'.rbStatus := by
  have hfollows := hr.follows h.inStep
  have hin := hfollows.inStep
  exact ⟨hin.length, hin.chunked, fun socket c => (hin.setSocket socket).read_ne c, hfollows.leads,
    fun socket c data error r' hc => ((hin.setSocket socket).read hc).leads⟩

/-- A head that announces a chunked body, and what is read of it before. -/
def chunkedCache : Request :=
  { Request.new with
    method := .post, version := lit "1.1", path := lit "/",
    headers := OrdMap.empty.assign (lit "transfer-encoding") (lit "chunked") }

/-- The first chunk has come with the head. -/
theorem read_status_firstChunk :
    (finished chunkedCache (lit "2\r\nab\r\n")).rbStatus = .waitSize ∧
      ∀ socket c, ({ finished chunkedCache (lit "2\r\nab\r\n") with socket := socket } : Request).read c ≠
        .error .badVariant := by
  have h : FromAcceptedHead (finished chunkedCache (lit "2\r\nab\r\n")) :=
    ⟨⟨.readingHeaders, lit "2\r\nab\r\n", some chunkedCache, none⟩, _, _, none, nextRequestReady_eq rfl, rfl⟩
  exact ⟨by decide +kernel, (read_status h .start).2.2.1⟩

end Request

end Gts3.Http
