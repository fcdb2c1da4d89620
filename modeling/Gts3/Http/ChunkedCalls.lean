import Gts3.Http.ChunkedRounds

/-!
# The calls that read a chunked body in segments

A call gives out what has been decoded, or decodes one more segment: the bytes behind the head, or what a read of the
socket brings.  `CallGives` says what a call that returns has done (`callGives_of_ok`), and `exists_readBodyInto` when
it returns.  The data of a segment is copied to the front of the buffer, over the bytes that were left.
-/

namespace Gts3.Http

open Lib Lib.Search Lib.Cxx Lib.LineMachine Lib.HttpMessage Request

namespace Request

/-! ## One call -/

section Call

variable (r : Request) (sock : TcpSocket)

/-- The request with a state of the decoder, the bytes that are not decoded yet and the segments that will come. -/
def segmented (l : ChunkLoop) (abuf : Bytes) (ps : List Bytes) : Request :=
  { r.withLoop l abuf with
    socket := some { sock with stream := ps.flatten, script := ps.map fun q => ⟨q.length, none⟩ } }

/-- The segment that the next call decodes, and those behind it. -/
inductive NextSegment : Bytes → List Bytes → Bytes → List Bytes → Prop
  | buffered {abuf : Bytes} {ps : List Bytes} (hne : abuf ≠ []) : NextSegment abuf ps abuf ps
  | received {q : Bytes} {qs : List Bytes} : NextSegment [] (q :: qs) q qs

theorem NextSegment.eq {abuf g g' : Bytes} {ps qs qs' : List Bytes} (h : NextSegment abuf ps g qs)
    (h' : NextSegment abuf ps g' qs') : g' = g ∧ qs' = qs := by
  cases h with
  | buffered hne =>
    cases h' with
    | buffered => exact ⟨rfl, rfl⟩
    | received => exact absurd rfl hne
  | received =>
    cases h' with
    | buffered hne => exact absurd rfl hne
    | received => exact ⟨rfl, rfl⟩

/-- What one call gives. -/
inductive CallGives (tcp : ℕ) (l : ChunkLoop) (abuf : Bytes) (ps : List Bytes) : ReadBody → Prop
  | kept {buf : Buffer} (hle : tcp ≤ l.body.length) (hfront : buf.front tcp = l.body.take tcp) :
      CallGives tcp l abuf ps ⟨r.segmented sock { l with body := l.body.drop tcp } abuf ps, buf, none, tcp⟩
  | ended {buf : Buffer} (hlt : l.body.length < tcp) (hend : l.status = .chunkedEnd)
      (hfront : buf.front l.body.length = l.body) :
      CallGives tcp l abuf ps
        ⟨r.segmented sock { l with status := .finished, body := [] } abuf ps, buf, none, l.body.length⟩
  | failed {g abuf' : Bytes} {qs : List Bytes} {l' : ChunkLoop} {res : ReadBody} (hlt : l.body.length < tcp)
      (hne : l.status ≠ .chunkedEnd) (hseg : NextSegment abuf ps g qs)
      (hrun : loopResult (drain chunkMachine (again l) g) = (l', abuf', true)) (herror : res.error ≠ none) :
      CallGives tcp l abuf ps res
  | decoded {g abuf' : Bytes} {qs : List Bytes} {l' : ChunkLoop} {buf : Buffer} (hlt : l.body.length < tcp)
      (hne : l.status ≠ .chunkedEnd) (hseg : NextSegment abuf ps g qs)
      (hrun : loopResult (drain chunkMachine (again l) g) = (l', abuf', false))
      (hfront : buf.front (min (tcp - l.body.length) l'.body.length) = l'.body.take (tcp - l.body.length))
      (hkeep : l'.body = [] → buf.front l.body.length = l.body) :
      CallGives tcp l abuf ps ⟨(r.segmented sock l' abuf' qs).afterRead (tcp - l.body.length), buf, none,
        l.body.length + min (tcp - l.body.length) l'.body.length⟩

variable {r sock} {tcp : ℕ} {l : ChunkLoop} {abuf : Bytes} {ps : List Bytes} {buf : Buffer}

/-- A call in chunked mode. -/
theorem readBodyInto_segmented (hpos : 0 < tcp) (hstatus : l.status = .chunkedEnd ∨ Decoding l.status) :
    readBodyInto (r.segmented sock l abuf ps) buf tcp = readBodyChunkedMode (r.segmented sock l abuf ps) buf tcp := by
  have hne : l.status ≠ .finished ∧ l.status ≠ .length := by
    rcases hstatus with h | h
    · rw [h]
      decide
    · exact h.ne.2
  have hfin : (r.segmented sock l abuf ps).rbStatus ≠ .finished := hne.1
  have hlen : (r.segmented sock l abuf ps).rbStatus ≠ .length := hne.2
  rw [readBodyInto, if_neg hpos.ne', if_neg hfin, if_neg hlen]

theorem readBodyInto_kept (hpos : 0 < tcp) (hstatus : l.status = .chunkedEnd ∨ Decoding l.status)
    (hle : tcp ≤ l.body.length) :
    readBodyInto (r.segmented sock l abuf ps) buf tcp =
      buf.memcpy 0 (l.body.take tcp) >>= fun buf =>
        .ok ⟨r.segmented sock { l with body := l.body.drop tcp } abuf ps, buf, none, tcp⟩ := by
  rw [readBodyInto_segmented hpos hstatus, readBodyChunkedMode,
    if_pos (show tcp ≤ (r.segmented sock l abuf ps).body.length from hle)]
  rfl

theorem readBodyInto_ended (hpos : 0 < tcp) (hend : l.status = .chunkedEnd) (hlt : l.body.length < tcp) :
    readBodyInto (r.segmented sock l abuf ps) buf tcp =
      buf.memcpy 0 l.body >>= fun buf =>
        .ok ⟨r.segmented sock { l with status := .finished, body := [] } abuf ps, buf, none, l.body.length⟩ := by
  rw [readBodyInto_segmented hpos (Or.inl hend), readBodyChunkedMode,
    if_neg (show ¬ tcp ≤ (r.segmented sock l abuf ps).body.length from Nat.not_le.mpr hlt)]
  simp only [segmented, withLoop, hend, if_true]

variable (r ps buf) in
theorem readBodyInto_decode (hpos : 0 < tcp) (hstatus : Decoding l.status) (hlt : l.body.length < tcp) {g : Bytes}
    {qs : List Bytes} (hseg : NextSegment abuf ps g qs) (hps : ∀ q ∈ ps, q.length ≤ sock.sendBufferSize)
    {l' : ChunkLoop} {abuf' : Bytes} {failed : Bool}
    (hrun : loopResult (drain chunkMachine (again l) g) = (l', abuf', failed)) :
    readBodyInto (r.segmented sock l abuf ps) buf tcp = buf.memcpy 0 l.body >>= fun buf =>
      if failed then .ok ⟨{ r.segmented sock l' abuf' qs with rbStatus := .finished }, buf, some .wrongProtocolType, 0⟩
      else endChunkedMode (r.segmented sock l' abuf' qs) buf (tcp - l.body.length) l.body.length none := by
  have hend : l.status ≠ .chunkedEnd := hstatus.ne.1
  rw [readBodyInto_segmented hpos (Or.inr hstatus), readBodyChunkedMode,
    if_neg (show ¬ tcp ≤ (r.segmented sock l abuf ps).body.length from Nat.not_le.mpr hlt)]
  cases hseg with
  | buffered hne =>
    simp only [segmented, withLoop, if_neg hend, if_neg hne]
    congr 1
    funext buf'
    rw [decodeChunked_eq _ hrun]
    rfl
  | received =>
    have hq := hps g (by simp)
    simp only [segmented, withLoop, if_neg hend, if_true, TcpSocket.readSome, List.map_cons, Nat.min_eq_left hq,
      List.flatten_cons, List.take_left, List.drop_left, ok_bind]
    congr 1
    funext buf'
    rw [decodeChunked_eq _ hrun]
    rfl

theorem readBodyInto_blocked (hpos : 0 < tcp) (hstatus : Decoding l.status) (hlt : l.body.length < tcp)
    (res : ReadBody) : readBodyInto (r.segmented sock l [] []) buf tcp ≠ .ok res := by
  have hend : l.status ≠ .chunkedEnd := hstatus.ne.1
  rw [readBodyInto_segmented hpos (Or.inr hstatus), readBodyChunkedMode,
    if_neg (show ¬ tcp ≤ (r.segmented sock l [] []).body.length from Nat.not_le.mpr hlt)]
  simp only [segmented, withLoop, if_neg hend, if_true, TcpSocket.readSome, List.map_nil]
  intro h
  obtain ⟨buf', -, h⟩ := run_bind_eq_ok.mp h
  cases h

/-- A write to the front of the buffer. -/
theorem memcpy_front {buf buf' : Buffer} {src : Bytes} (h : buf.memcpy 0 src = .ok buf') :
    buf'.size = buf.size ∧ buf'.front src.length = src := by
  by_cases hle : 0 + src.length ≤ buf.size
  · obtain ⟨buf'', hok, hsize, hfront⟩ := Buffer.memcpy_ok hle
    obtain rfl := Except.ok.inj (h.symm.trans hok)
    rw [Nat.zero_add, Buffer.front_zero, List.nil_append] at hfront
    exact ⟨hsize, hfront⟩
  · rw [Buffer.memcpy, if_neg hle] at h
    cases h

theorem endChunkedMode_ok {r : Request} {buf : Buffer} {size count : ℕ} {error : Option ErrorCode} {res : ReadBody}
    (hpos : 0 < size) (h : endChunkedMode r buf size count error = .ok res) :
    ∃ buf', res = ⟨r.afterRead size, buf', error, count + min size r.body.length⟩ ∧ buf'.size = buf.size ∧
      buf'.front (min size r.body.length) = r.body.take size ∧ (r.body = [] → buf' = buf) := by
  unfold endChunkedMode at h
  unfold afterRead
  by_cases hle : size ≤ r.body.length
  · rw [if_pos hle] at h
    obtain ⟨buf', hcopy, h⟩ := run_bind_eq_ok.mp h
    obtain ⟨hsize, hfront⟩ := memcpy_front hcopy
    rw [List.length_take] at hfront
    refine ⟨buf', ?_, hsize, hfront, fun hnil => ?_⟩
    · rw [if_pos hle, Nat.min_eq_left hle]
      exact (Except.ok.inj h).symm
    · rw [hnil, List.length_nil] at hle
      omega
  · rw [if_neg hle] at h
    obtain ⟨buf', hcopy, h⟩ := run_bind_eq_ok.mp h
    obtain ⟨hsize, hfront⟩ := memcpy_front hcopy
    have hlt : r.body.length ≤ size := by omega
    refine ⟨buf', ?_, hsize, ?_, fun hnil => ?_⟩
    · rw [if_neg hle, Nat.min_eq_right hlt]
      exact (Except.ok.inj h).symm
    · rw [Nat.min_eq_right hlt, List.take_of_length_le hlt]
      exact hfront
    · rw [hnil, Buffer.memcpy_nil] at hcopy
      exact (Except.ok.inj hcopy).symm

/-- **What a call that returns gives.** -/
theorem callGives_of_ok (hpos : 0 < tcp) (hstatus : l.status = .chunkedEnd ∨ Decoding l.status)
    (hps : ∀ q ∈ ps, q.length ≤ sock.sendBufferSize) {res : ReadBody}
    (h : readBodyInto (r.segmented sock l abuf ps) buf tcp = .ok res) :
    CallGives r sock tcp l abuf ps res ∧ (res.error = none → res.buf.size = buf.size) := by
  by_cases hle : tcp ≤ l.body.length
  · rw [readBodyInto_kept hpos hstatus hle] at h
    obtain ⟨buf', hcopy, h⟩ := run_bind_eq_ok.mp h
    obtain ⟨hsize, hfront⟩ := memcpy_front hcopy
    obtain rfl := Except.ok.inj h
    rw [List.length_take, Nat.min_eq_left hle] at hfront
    exact ⟨.kept hle hfront, fun _ => hsize⟩
  have hlt : l.body.length < tcp := Nat.lt_of_not_le hle
  by_cases hend : l.status = .chunkedEnd
  · rw [readBodyInto_ended hpos hend hlt] at h
    obtain ⟨buf', hcopy, h⟩ := run_bind_eq_ok.mp h
    obtain ⟨hsize, hfront⟩ := memcpy_front hcopy
    obtain rfl := Except.ok.inj h
    exact ⟨.ended hlt hend hfront, fun _ => hsize⟩
  have hdecoding : Decoding l.status := hstatus.resolve_left hend
  have hnext : (abuf = [] ∧ ps = []) ∨ ∃ g qs, NextSegment abuf ps g qs := by
    rcases eq_or_ne abuf [] with rfl | hne
    · cases ps with
      | nil => exact Or.inl ⟨rfl, rfl⟩
      | cons q qs => exact Or.inr ⟨q, qs, .received⟩
    · exact Or.inr ⟨abuf, ps, .buffered hne⟩
  rcases hnext with ⟨rfl, rfl⟩ | ⟨g, qs, hseg⟩
  · exact absurd h (readBodyInto_blocked hpos hdecoding hlt res)
  obtain ⟨l', abuf', failed, hrun⟩ :
      ∃ l' abuf' failed, loopResult (drain chunkMachine (again l) g) = (l', abuf', failed) := ⟨_, _, _, rfl⟩
  rw [readBodyInto_decode r ps buf hpos hdecoding hlt hseg hps hrun] at h
  obtain ⟨buf₁, hcopy, h⟩ := run_bind_eq_ok.mp h
  obtain ⟨hsize₁, hfront₁⟩ := memcpy_front hcopy
  cases failed with
  | true =>
    obtain rfl := Except.ok.inj h
    exact ⟨.failed hlt hend hseg hrun nofun, nofun⟩
  | false =>
    obtain ⟨buf', rfl, hsize, hfront, hkeep⟩ := endChunkedMode_ok (Nat.sub_pos_of_lt hlt) h
    refine ⟨.decoded hlt hend hseg hrun hfront fun hnil => ?_, fun _ => hsize.trans hsize₁⟩
    rw [hkeep hnil]
    exact hfront₁

variable (r abuf ps buf) in
/-- A call returns when what it gives fits into the buffer. -/
theorem exists_readBodyInto (hpos : 0 < tcp) (hstatus : l.status = .chunkedEnd ∨ Decoding l.status)
    (hps : ∀ q ∈ ps, q.length ≤ sock.sendBufferSize) (hbuf : min tcp l.body.length ≤ buf.size)
    (hnext : l.status ≠ .chunkedEnd → l.body.length < tcp → ∃ g qs l' abuf', NextSegment abuf ps g qs ∧
      loopResult (drain chunkMachine (again l) g) = (l', abuf', false) ∧ min tcp l'.body.length ≤ buf.size) :
    ∃ res, readBodyInto (r.segmented sock l abuf ps) buf tcp = .ok res := by
  by_cases hle : tcp ≤ l.body.length
  · obtain ⟨buf', hcopy, -⟩ := Buffer.memcpy_ok (show 0 + (l.body.take tcp).length ≤ buf.size by
      rw [List.length_take]; omega)
    exact ⟨_, by rw [readBodyInto_kept hpos hstatus hle, hcopy]; rfl⟩
  have hlt : l.body.length < tcp := Nat.lt_of_not_le hle
  obtain ⟨buf₁, hcopy, hsize₁, -⟩ := Buffer.memcpy_ok (show 0 + l.body.length ≤ buf.size by omega)
  by_cases hend : l.status = .chunkedEnd
  · exact ⟨_, by rw [readBodyInto_ended hpos hend hlt, hcopy]; rfl⟩
  · obtain ⟨g, qs, l', abuf', hseg, hrun, hfits⟩ := hnext hend hlt
    obtain ⟨buf', hok, -⟩ := endChunkedMode_eq (r.segmented sock l' abuf' qs)
      (show min (tcp - l.body.length) l'.body.length ≤ buf₁.size by omega) l.body.length none
    have heq := readBodyInto_decode r ps buf hpos (hstatus.resolve_left hend) hlt hseg hps hrun
    rw [hcopy, ok_bind, if_neg Bool.false_ne_true, hok] at heq
    exact ⟨_, heq⟩

variable (r sock) in
/-- The request can be read from; only its head counts, and a length that the trailer could set. -/
def Admits (l : ChunkLoop) : Prop := (r.segmented sock l [] []).isValid = true

theorem Admits.of_eq {l' : ChunkLoop} (h : r.Admits sock l)
    (heq : l'.headers.find? Header.contentLength = l.headers.find? Header.contentLength) : r.Admits sock l' := by
  simp only [Admits, isValid, segmented, withLoop, heq]
  exact h

theorem Admits.canReadBody (h : r.Admits sock l) (hstatus : l.status = .chunkedEnd ∨ Decoding l.status) (abuf : Bytes)
    (ps : List Bytes) : (r.segmented sock l abuf ps).canReadBody = true := by
  have hvalid : (r.segmented sock l abuf ps).isValid = true := h
  rw [Request.canReadBody, hvalid, Bool.true_and, decide_eq_true_eq]
  rcases hstatus with h | h
  · show l.status ≠ .finished
    rw [h]
    decide
  · exact h.ne.2.1

end Call

end Request

end Gts3.Http
