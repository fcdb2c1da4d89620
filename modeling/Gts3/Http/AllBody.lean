import Gts3.Http.LengthReads

/-!
# `read_all_body` of a body with a length

The loop of `read_all_body` reads into 65536 bytes, but asks for as many as the socket's send buffer has.  No write
leaves the scratch buffer as long as no call gives more than that (`readAllLoop_safe`), and a peer that sends the whole
body is read to the end (`readAllLoop_sends`); the exact condition is in `readsAll_iff`.
-/

namespace Gts3

open Lib Lib.Cxx

/-- The peer sends `n` more bytes: they come through enough reads, and no read that brings nothing reports an error. -/
structure TcpSocket.Sends (sock : TcpSocket) (n : ℕ) : Prop where
  quiet : ∀ o ∈ sock.script, o.size = 0 → o.error = none
  bytes : n ≤ sock.stream.length
  reads : n ≤ sock.script.countP (0 < ·.size)

theorem TcpSocket.Sends.after {sock : TcpSocket} {n size : ℕ} {o : ReadOutcome} {script : List ReadOutcome}
    (h : sock.Sends n) (hscript : sock.script = o :: script) (hpos : 0 < size) (hsize : size ≤ n) :
    (sock.stream.take (min o.size size)).length = min o.size size ∧
      (sock.after (min o.size size) script).Sends (n - min o.size size) := by
  have hbytes := h.bytes
  have hreads := h.reads
  rw [hscript, List.countP_cons] at hreads
  refine ⟨by rw [List.length_take]; omega, fun o' ho' => h.quiet o' (by rw [hscript]; exact List.mem_cons_of_mem _ ho'),
    ?_, ?_⟩
  · rw [length_after]
    omega
  · show n - min o.size size ≤ script.countP (0 < ·.size)
    split_ifs at hreads with ho
    · have : 0 < o.size := by simpa using ho
      omega
    · have : o.size = 0 := by simpa using ho
      omega

namespace Http.Request

/-! ## One call -/

/-- The loop of `read_body_length_mode` fills the buffer when the peer sends enough. -/
theorem readLengthLoop_sends (fuel : ℕ) (l : LengthLoop) (n : ℕ) (hfuel : l.sock.script.length < fuel)
    (hsends : l.sock.Sends n) (hn : l.size ≤ n) (hsize : l.size ≤ l.tplen) (hbuf : l.count + l.size ≤ l.buf.size)
    (herror : l.error = none) :
    ∃ l', readLengthLoop fuel l = .ok l' ∧ l.Reads l' ∧ l'.count = l.count + l.size ∧ l'.error = none ∧
      l'.sock.Sends (n - l.size) := by
  induction fuel generalizing l n with
  | zero => omega
  | succ fuel ih =>
    by_cases hz : l.size = 0
    · rw [readLengthLoop, if_neg (by omega), hz]
      exact ⟨l, rfl, .refl l, rfl, herror, hsends⟩
    have hpos : 0 < l.size := Nat.pos_of_ne_zero hz
    cases hscript : l.sock.script with
    | nil =>
      have hreads := hsends.reads
      rw [hscript, List.countP_nil] at hreads
      omega
    | cons o script =>
      obtain ⟨data, l', rfl, hle, hgot, hreads, heq⟩ := readLengthLoop_cons fuel hscript hpos hsize hbuf
      obtain ⟨hlen, hsends'⟩ := hsends.after hscript hpos hn
      have hsock : l'.sock = l.sock.after (min o.size l.size) script := by rw [hgot]; rfl
      have hquiet : o.error ≠ none → 0 < min o.size l.size := by
        intro herr
        have : o.size ≠ 0 := fun hzero => herr (hsends.quiet o (by rw [hscript]; exact List.mem_cons_self) hzero)
        omega
      have hcount := hreads.count_le
      have hsum := hreads.size_eq
      have hleft := hreads.tplen_eq
      have hcount' : l'.count = l.count + min o.size l.size :=
        (congrArg LengthLoop.count hgot).trans (congrArg (l.count + ·) hlen)
      -- the loop goes on without an error
      have hgo : ∃ l'', readLengthLoop fuel { l' with error := none } = .ok l'' ∧ l.Reads l'' ∧
          l''.count = l.count + l.size ∧ l''.error = none ∧ l''.sock.Sends (n - l.size) := by
        obtain ⟨l'', hok, hreads', hcount'', herr'', hsends''⟩ := ih { l' with error := none } (n - min o.size l.size)
          (by simp only [hsock]; simpa [hscript, TcpSocket.after] using hfuel) (by simp only [hsock]; exact hsends')
          (by simp only; omega) (by simp only; omega) (by simp only [hreads.bufSize_eq]; omega) rfl
        simp only at hcount'' hsends''
        refine ⟨l'', hok, (hreads.setError none).trans hreads', by omega, herr'', ?_⟩
        rwa [show n - min o.size l.size - l'.size = n - l.size by omega] at hsends''
      rw [heq, hlen]
      split_ifs with herr hbytes
      · have hl' : l' = { l' with error := none } := by rw [hgot, herr]; rfl
        rw [hl']
        exact hgo
      · exact hgo
      · exact absurd (hquiet herr) hbytes
      · exact absurd (hquiet herr) hbytes

/-- `read_body_length_mode` gives all it can when the peer sends the body. -/
theorem readBodyLengthMode_sends {r : Request} {sock : TcpSocket} {tplen size : ℕ} {buf : Buffer}
    (hsocket : r.socket = some sock) (hcontext : r.rbContext = .size tplen) (hbuf : min size tplen ≤ buf.size)
    (hsends : sock.Sends (tplen - r.body.length)) :
    ∃ res sock', readBodyLengthMode r buf size = .ok res ∧ Gives r sock tplen size buf res sock' ∧
      res.count = min size tplen ∧ res.error = none ∧ sock'.Sends (tplen - res.count - res.request.body.length) := by
  by_cases hmore : r.body.length < min size tplen
  · obtain ⟨buf', hbsize, hfront, heq⟩ := readBodyLengthMode_more hsocket hcontext hbuf hmore
    obtain ⟨l', hok, hreads, hcount, herror, hsends'⟩ := readLengthLoop_sends (sock.script.length + 1)
      { sock := sock, tplen := tplen - r.body.length, size := min size tplen - r.body.length, count := r.body.length,
        buf := buf', error := none } (tplen - r.body.length) (Nat.lt_succ_self _) hsends (by simp only; omega)
      (by simp only; omega) (by simp only; omega) rfl
    simp only at hcount hsends'
    rw [heq, hok]
    refine ⟨_, l'.sock, rfl, gives_of_reads hmore hbsize hfront hreads, ?_, ?_, ?_⟩
    · rw [endLengthMode_request]
      show l'.count = _
      omega
    · rw [endLengthMode_request, herror]
      exact ite_self none
    · rw [endLengthMode_request]
      show l'.sock.Sends (tplen - l'.count - 0)
      rwa [show tplen - l'.count - 0 = tplen - r.body.length - (min size tplen - r.body.length) by omega]
  · have henough : min size tplen ≤ r.body.length := by omega
    obtain ⟨res, hok, hgives, hcount, herror⟩ := readBodyLengthMode_enough hsocket hcontext hbuf henough
    refine ⟨res, sock, hok, hgives, hcount, herror, ?_⟩
    rwa [hgives.body_eq, hcount, List.length_drop,
      show tplen - min size tplen - (r.body.length - min size tplen) = tplen - r.body.length by omega]

/-! ## The loop of `read_all_body` -/

section Loop

variable {r : Request} {sock : TcpSocket} {tplen tcp : ℕ} {buf : Buffer}

/-- A call changes neither the head nor the connection. -/
theorem Gives.isValid_eq {size : ℕ} {res : ReadBody} {sock' : TcpSocket} (hsocket : r.socket = some sock)
    (h : Gives r sock tplen size buf res sock') : res.request.isValid = r.isValid := by
  rw [h.request_eq, h.sock_eq]
  simp only [isValid, hsocket]

theorem Owes.canReadBody_iff (h : r.Owes sock tplen) : r.canReadBody = true ↔ r.isValid = true ∧ tplen ≠ 0 := by
  rw [canReadBody, h.status, Bool.and_eq_true, decide_eq_true_eq]
  refine and_congr_right fun _ => ?_
  split_ifs with hz
  · exact iff_of_false (fun hno => hno rfl) fun hno => hno hz
  · exact iff_of_true (by decide) hz

theorem Owes.readBodyInto_eq (h : r.Owes sock tplen) (hz : tplen ≠ 0) (buf : Buffer) (htcp : 0 < tcp) :
    readBodyInto r buf tcp = readBodyLengthMode r buf tcp := by
  have hstatus := h.status
  rw [if_neg hz] at hstatus
  rw [readBodyInto, if_neg htcp.ne', if_neg (by rw [hstatus]; decide), if_pos hstatus]

/-- **The whole body is read** when the peer sends it and what a call gives fits into the buffer. -/
theorem readAllLoop_sends (h : r.Owes sock tplen) (hsends : sock.Sends (tplen - r.body.length))
    (hvalid : r.isValid = true) (htcp : 0 < tcp) (hbuf : min tcp tplen ≤ buf.size) (result : Bytes) :
    ∃ fuel r', readAllLoop tcp fuel r buf result =
      .ok (result ++ (r.body ++ sock.stream).take tplen, none, r') := by
  induction hn : tplen using Nat.strong_induction_on generalizing r sock tplen buf result with
  | _ n ih =>
    subst hn
    by_cases hz : tplen = 0
    · refine ⟨1, r, ?_⟩
      rw [readAllLoop, if_neg (by rw [h.canReadBody_iff]; exact fun hno => hno.2 hz), hz, List.take_zero,
        List.append_nil]
    · obtain ⟨res, sock', hok, hgives, hcount, herror, hsends'⟩ :=
        readBodyLengthMode_sends h.socket_eq h.context hbuf hsends
      have hgiven := h.gives hz hgives
      have howes := hgiven.owes
      have hbytes := hgiven.bytes_eq
      rw [Buffer.length_front] at howes
      obtain ⟨fuel, r', hloop⟩ := ih (tplen - res.count) (by omega) howes hsends'
        (by rw [hgives.isValid_eq h.socket_eq]; exact hvalid) (by rw [hgives.bufSize_eq]; omega)
        (result ++ res.buf.front res.count) rfl
      refine ⟨fuel + 1, r', ?_⟩
      rw [readAllLoop, if_pos (h.canReadBody_iff.mpr ⟨hvalid, hz⟩), h.readBodyInto_eq hz buf htcp, hok]
      simp only [ok_bind, herror, hloop]
      have htake : (res.buf.front res.count ++ (res.request.body ++ sock'.stream)).take tplen =
          res.buf.front res.count ++ (res.request.body ++ sock'.stream).take (tplen - res.count) := by
        rw [List.take_append, Buffer.length_front, List.take_of_length_le (by rw [Buffer.length_front]; omega)]
      rw [← hbytes, htake, List.append_assoc]

/-- **No write leaves the buffer** when what a call gives fits into it, whatever the peer does. -/
theorem readAllLoop_safe (fuel : ℕ) (h : r.Owes sock tplen) (hbuf : min tcp tplen ≤ buf.size) (result : Bytes) :
    readAllLoop tcp fuel r buf result ≠ .error .overflow := by
  induction fuel generalizing r sock tplen buf result with
  | zero => exact fun hno => by cases hno
  | succ fuel ih =>
    rw [readAllLoop]
    split_ifs with hcan
    · have hz := (h.canReadBody_iff.mp hcan).2
      rcases Nat.eq_zero_or_pos tcp with rfl | htcp
      · rw [readBodyInto, if_pos rfl]
        simp only [ok_bind]
        exact ih h hbuf _
      · rw [h.readBodyInto_eq hz buf htcp]
        rcases readBodyLengthMode_spec h.socket_eq h.context hbuf with ⟨hblocked, -⟩ | ⟨-, res, sock', hok, hgives⟩
        · rw [hblocked]
          exact fun hno => by cases hno
        · have howes := (h.gives hz hgives).owes
          rw [Buffer.length_front] at howes
          rw [hok]
          simp only [ok_bind]
          cases res.error with
          | some e => exact fun hno => by cases hno
          | none => exact ih howes (by rw [hgives.bufSize_eq]; omega) _
    · exact fun hno => by cases hno

/-- Without a buffer size the loop reads nothing, for ever. -/
theorem readAllLoop_zero (fuel : ℕ) (hcan : r.canReadBody = true) (buf : Buffer) (result : Bytes) :
    readAllLoop 0 fuel r buf result = .error .diverge := by
  induction fuel generalizing result with
  | zero => rfl
  | succ fuel ih =>
    rw [readAllLoop, if_pos hcan, readBodyInto, if_pos rfl]
    simp only [ok_bind, ih]

/-- A read that brings more than fits leaves the buffer. -/
theorem readBodyLengthMode_overflow {o : ReadOutcome} {script : List ReadOutcome} (hsocket : r.socket = some sock)
    (hcontext : r.rbContext = .size tplen) (hbuf : buf.size < min tcp tplen) (hscript : sock.script = o :: script)
    (hsize : tplen ≤ o.size) (hstream : tplen - r.body.length ≤ sock.stream.length) :
    readBodyLengthMode r buf tcp = .error .overflow := by
  have hcut : (if tcp > tplen then tplen else tcp) = min tcp tplen := by split_ifs <;> omega
  rw [readBodyLengthMode, hcontext]
  simp only [hcut]
  by_cases hmore : min tcp tplen > r.body.length
  · rw [if_pos hmore]
    by_cases hfits : 0 + r.body.length ≤ buf.size
    · obtain ⟨buf', hcopy, hbsize, -⟩ := Buffer.memcpy_ok hfits
      have htplen : r.body.length ≤ tplen := by omega
      simp only [hcopy, ok_bind, minus_of_le htplen, minus_of_le hmore.le, hsocket]
      -- the first read brings all that is asked for
      rw [readLengthLoop, if_pos (by simp only; omega)]
      simp only [TcpSocket.readSome_cons hscript, ok_bind]
      rw [Buffer.memcpy, if_neg (by rw [List.length_take, hbsize]; omega)]
      rfl
    · rw [Buffer.memcpy, if_neg hfits]
      rfl
  · rw [if_neg hmore, Buffer.memcpy, if_neg (by rw [List.length_take]; omega)]
    rfl

end Loop

/-! ## When the whole body is read -/

/-- The request with another peer. -/
def peer (r : Request) (sock : TcpSocket) (stream : Bytes) (script : List ReadOutcome) : Request :=
  { r with socket := some { sock with stream := stream, script := script } }

/-- **What `read_all_body` is for**, where `tplen` bytes are owed: whatever the peer does, no write leaves the scratch
buffer; and if the peer sends all the bytes, they are returned. -/
def ReadsAll (r : Request) (sock : TcpSocket) (tplen : ℕ) : Prop :=
  ∀ stream script, (∀ fuel, readAllBody fuel (r.peer sock stream script) ≠ .error .overflow) ∧
    ({ sock with stream := stream, script := script }.Sends (tplen - r.body.length) →
      ∃ fuel r', readAllBody fuel (r.peer sock stream script) = .ok ((r.body ++ stream).take tplen, none, r'))

variable {r : Request} {sock : TcpSocket} {tplen : ℕ}

theorem Owes.peer (h : r.Owes sock tplen) (stream : Bytes) (script : List ReadOutcome) :
    (Request.peer r sock stream script).Owes { sock with stream := stream, script := script } tplen :=
  ⟨rfl, h.context, h.body_le, h.status⟩

theorem Owes.isValid_peer (h : r.Owes sock tplen) (stream : Bytes) (script : List ReadOutcome) :
    (Request.peer r sock stream script).isValid = r.isValid := by
  unfold isValid
  rw [h.socket_eq]
  rfl

theorem sends_all (sock : TcpSocket) (n k : ℕ) (hk : k ≤ n) :
    { sock with stream := List.replicate n 0, script := List.replicate n ⟨n, none⟩ }.Sends k := by
  refine ⟨?_, ?_, ?_⟩
  · intro o ho _
    rw [List.eq_of_mem_replicate ho]
  · simpa using hk
  · rcases Nat.eq_zero_or_pos n with rfl | hn
    · omega
    · simpa [List.countP_replicate, hn] using hk

/-- Where nothing can be read, nothing is returned. -/
theorem readAllBody_of_not_canReadBody (h : r.Owes sock tplen) (hcan : r.canReadBody = false) (fuel : ℕ) :
    readAllBody (fuel + 1) r = .ok ([], none, r) := by
  rw [readAllBody, h.socket_eq]
  simp only
  rw [readAllLoop, hcan]
  rfl

/-- A peer that sends too much at once makes a write leave the scratch buffer. -/
theorem readAllBody_overflow {o : ReadOutcome} {script : List ReadOutcome} (h : r.Owes sock tplen)
    (hvalid : r.isValid = true) (hfits : 65536 < min sock.sendBufferSize tplen) (hscript : sock.script = o :: script)
    (hsize : tplen ≤ o.size) (hstream : tplen - r.body.length ≤ sock.stream.length) (fuel : ℕ) :
    readAllBody (fuel + 1) r = .error .overflow := by
  have hz : tplen ≠ 0 := by omega
  rw [readAllBody, h.socket_eq]
  simp only
  rw [readAllLoop, if_pos (h.canReadBody_iff.mpr ⟨hvalid, hz⟩), h.readBodyInto_eq hz _ (by omega),
    readBodyLengthMode_overflow h.socket_eq h.context hfits hscript hsize hstream]
  rfl

/-- **Exactly when** `read_all_body` reads the body: when nothing is owed, or the request is valid, the send buffer is
not empty, and the smaller of its size and the bytes owed fits into the scratch buffer. -/
theorem readsAll_iff (h : r.Owes sock tplen) :
    r.ReadsAll sock tplen ↔
      tplen = 0 ∨ r.isValid = true ∧ 0 < sock.sendBufferSize ∧ min sock.sendBufferSize tplen ≤ 65536 := by
  constructor
  · intro hall
    -- a peer that sends all at once
    obtain ⟨hsafe, hreads⟩ := hall (List.replicate tplen 0) (List.replicate tplen ⟨tplen, none⟩)
    have hpeer := h.peer (List.replicate tplen 0) (List.replicate tplen ⟨tplen, none⟩)
    obtain ⟨fuel, r', hok⟩ := hreads (sends_all sock tplen _ (Nat.sub_le _ _))
    by_contra hno
    rw [not_or] at hno
    obtain ⟨hz, hno⟩ := hno
    by_cases hvalid : r.isValid = true
    · have hvalid' := (h.isValid_peer (List.replicate tplen 0) (List.replicate tplen ⟨tplen, none⟩)).trans hvalid
      have hcan := hpeer.canReadBody_iff.mpr ⟨hvalid', hz⟩
      rcases Nat.eq_zero_or_pos sock.sendBufferSize with hzero | htcp
      · -- the loop reads nothing
        have hdiverge : readAllBody fuel (r.peer sock (List.replicate tplen 0) (List.replicate tplen ⟨tplen, none⟩)) =
            .error .diverge := by
          rw [readAllBody, hpeer.socket_eq]
          simp only [hzero]
          exact readAllLoop_zero fuel hcan _ _
        rw [hdiverge] at hok
        cases hok
      · -- the first read leaves the buffer
        have hfits : 65536 < min sock.sendBufferSize tplen := not_le.mp fun hle => hno ⟨hvalid, htcp, hle⟩
        obtain ⟨n, rfl⟩ := Nat.exists_eq_succ_of_ne_zero hz
        exact hsafe 1 (readAllBody_overflow hpeer hvalid' hfits (o := ⟨n + 1, none⟩) rfl le_rfl (by simp) 0)
    · have hcan : (r.peer sock (List.replicate tplen 0) (List.replicate tplen ⟨tplen, none⟩)).canReadBody = false := by
        rw [← Bool.not_eq_true, hpeer.canReadBody_iff, h.isValid_peer]
        exact fun hno => hvalid hno.1
      cases fuel with
      | zero =>
        rw [readAllBody, hpeer.socket_eq] at hok
        cases hok
      | succ fuel =>
        rw [readAllBody_of_not_canReadBody hpeer hcan] at hok
        have hnil : [] = (r.body ++ List.replicate tplen 0).take tplen := congrArg Prod.fst (Except.ok.inj hok)
        have hlen := congrArg List.length hnil
        simp only [List.length_nil, List.length_take, List.length_append, List.length_replicate] at hlen
        omega
  · rintro (rfl | ⟨hvalid, htcp, hfits⟩) stream script
    · have hpeer := h.peer stream script
      have hcan : (r.peer sock stream script).canReadBody = false := by
        rw [← Bool.not_eq_true, hpeer.canReadBody_iff]
        exact fun hno => hno.2 rfl
      exact ⟨fun fuel => readAllLoop_safe fuel hpeer (by simp) [],
        fun _ => ⟨1, _, readAllBody_of_not_canReadBody hpeer hcan 0⟩⟩
    · have hpeer := h.peer stream script
      refine ⟨fun fuel => readAllLoop_safe fuel hpeer hfits [], fun hsends => ?_⟩
      exact readAllLoop_sends hpeer hsends ((h.isValid_peer stream script).trans hvalid) htcp hfits []

/-- A socket with a large send buffer, on which seventy thousand bytes have arrived. -/
def largeSocket : TcpSocket where
  isOpen := true
  sendBufferSize := 87040
  stream := List.replicate 70000 0
  script := List.replicate 70000 ⟨70000, none⟩
  sent := []

/-- A request whose body they are. -/
def largeRequest : Request :=
  { new with
    method := .post
    version := lit "1.1"
    path := lit "/"
    headers := OrdMap.empty.assign Header.contentLength (lit "70000")
    rbContext := .size 70000
    socket := some largeSocket }

theorem owes_large : largeRequest.Owes largeSocket 70000 := ⟨rfl, rfl, Nat.zero_le _, rfl⟩

theorem readsAll_iff_large :
    largeRequest.ReadsAll largeSocket 70000 ↔ 70000 = 0 ∨ largeRequest.isValid = true ∧ 0 < 87040 ∧
      min 87040 70000 ≤ 65536 :=
  readsAll_iff owes_large

/-- **A write behind the scratch buffer**, although the peer sends the whole body. -/
theorem not_readsAll_large : largeSocket.Sends 70000 ∧ readAllBody 1 largeRequest = .error .overflow ∧
    ¬ largeRequest.ReadsAll largeSocket 70000 := by
  have hscript : largeSocket.script = ⟨70000, none⟩ :: List.replicate 69999 ⟨70000, none⟩ := List.replicate_succ
  have hstream : largeSocket.stream.length = 70000 := List.length_replicate
  have hover : readAllBody 1 largeRequest = .error .overflow :=
    readAllBody_overflow owes_large (by decide) (by decide) hscript le_rfl (by rw [hstream]; exact Nat.sub_le _ _) 0
  exact ⟨sends_all largeSocket 70000 70000 le_rfl, hover, fun h => (h largeSocket.stream largeSocket.script).1 1 hover⟩

end Http.Request

end Gts3
