import Gts3.Http.ChunkedBody

/-!
# Reading a body makes progress

A call of `read_body` that gives bytes leaves fewer of them to be read (`readBodyInto_unread`), whatever the peer does
and whichever mode the body is read in.  So a loop that stops at an empty read has finitely many rounds.
-/

namespace Gts3.Http

open Lib Lib.Search Lib.Cxx

namespace Request

/-- The bytes that the context of the body reader stands for. -/
def contextSize : RbContext → ℕ
  | .invalid => 0
  | .size tplen => tplen
  | .string abuf => abuf.length

/-- The bytes that the peer has still to send. -/
def streamSize (r : Request) : ℕ :=
  match r.socket with
  | none => 0
  | some sock => sock.stream.length

/-- A bound on what is left to be read. -/
def unread (r : Request) : ℕ := contextSize r.rbContext + r.body.length + r.streamSize

theorem readSome_length {sock sock' : TcpSocket} {size : ℕ} {data : Bytes} {error : Option ErrorCode}
    (h : sock.readSome size = .ok (data, error, sock')) : sock'.stream.length + data.length = sock.stream.length := by
  unfold TcpSocket.readSome at h
  split at h
  · cases h
  · obtain ⟨rfl, -, rfl⟩ := by simpa using h
    simp only [List.length_drop, List.length_take]
    omega

theorem minus_eq_ok {a b c : ℕ} (h : minus a b = .ok c) : c + b = a := by
  unfold minus at h
  split_ifs at h with hle
  obtain rfl := Except.ok.inj h
  exact Nat.sub_add_cancel hle

/-- What the loop over a body with a length takes off `tplen`, it puts into the buffer. -/
theorem readLengthLoop_count {fuel : ℕ} {l l' : LengthLoop} (h : readLengthLoop fuel l = .ok l') :
    l'.count + l'.tplen = l.count + l.tplen ∧ l'.sock.stream.length ≤ l.sock.stream.length := by
  induction fuel generalizing l with
  | zero => cases h
  | succ fuel ih =>
    rw [readLengthLoop] at h
    split_ifs at h
    swap
    · obtain rfl := Except.ok.inj h
      exact ⟨rfl, le_rfl⟩
    obtain ⟨⟨data, error, sock⟩, hread, h⟩ := run_bind_eq_ok.mp h
    obtain ⟨buf, -, h⟩ := run_bind_eq_ok.mp h
    obtain ⟨size, -, h⟩ := run_bind_eq_ok.mp h
    obtain ⟨tplen, htplen, h⟩ := run_bind_eq_ok.mp h
    have hstream := readSome_length hread
    have hminus := minus_eq_ok htplen
    have hcount : l.count + data.length + tplen = l.count + l.tplen := by omega
    have hle : sock.stream.length ≤ l.sock.stream.length := by omega
    dsimp only at h
    split at h
    · obtain ⟨h1, h2⟩ := ih h
      exact ⟨h1.trans hcount, h2.trans hle⟩
    · split_ifs at h
      · obtain ⟨h1, h2⟩ := ih h
        exact ⟨h1.trans hcount, h2.trans hle⟩
      · obtain rfl := Except.ok.inj h
        exact ⟨hcount, hle⟩
      · obtain rfl := Except.ok.inj h
        exact ⟨hcount, hle⟩

theorem endLengthMode_unread (r : Request) (tplen : ℕ) (buf : Buffer) (error : Option ErrorCode) (count : ℕ) :
    (endLengthMode r tplen buf error count).request.unread = tplen + r.body.length + r.streamSize ∧
      (endLengthMode r tplen buf error count).count = count := by
  unfold endLengthMode
  split_ifs with h
  · subst h
    exact ⟨rfl, rfl⟩
  · exact ⟨rfl, rfl⟩

theorem readBodyLengthMode_unread {r : Request} {buf : Buffer} {size : ℕ} {res : ReadBody}
    (h : r.readBodyLengthMode buf size = .ok res) : res.request.unread + res.count ≤ r.unread := by
  unfold readBodyLengthMode at h
  split at h
  swap
  · cases h
  next tplen hcontext =>
  dsimp only at h
  generalize (if size > tplen then tplen else size) = n at h
  have hold : r.unread = tplen + r.body.length + r.streamSize := by rw [unread, hcontext, contextSize]
  split_ifs at h with hmore
  · obtain ⟨buf₁, -, h⟩ := run_bind_eq_ok.mp h
    obtain ⟨left, hleft, h⟩ := run_bind_eq_ok.mp h
    obtain ⟨size₁, -, h⟩ := run_bind_eq_ok.mp h
    cases hs : r.socket with
    | none => simp [hs] at h
    | some sock =>
      simp only [hs] at h
      obtain ⟨l, hloop, h⟩ := run_bind_eq_ok.mp h
      obtain rfl := Except.ok.inj h
      obtain ⟨hcount, hstream⟩ := readLengthLoop_count hloop
      obtain ⟨hunread, hcount'⟩ :=
        endLengthMode_unread { r with body := [], socket := some l.sock } l.tplen l.buf l.error
        l.count
      have hminus := minus_eq_ok hleft
      rw [hunread, hcount', hold]
      simp only [streamSize, hs, List.length_nil]
      dsimp only at hcount hstream
      omega
  · obtain ⟨buf₁, -, h⟩ := run_bind_eq_ok.mp h
    obtain ⟨left, hleft, h⟩ := run_bind_eq_ok.mp h
    obtain rfl := Except.ok.inj h
    obtain ⟨hunread, hcount⟩ := endLengthMode_unread { r with body := r.body.drop n } left buf₁ none n
    have hminus := minus_eq_ok hleft
    have hstream : ({ r with body := r.body.drop n } : Request).streamSize = r.streamSize := rfl
    rw [hunread, hcount, hold, hstream]
    simp only [List.length_drop]
    omega

/-! ### A chunked body -/

/-- The decoder moves bytes, and makes none. -/
theorem readChunkedLoop_length {fuel : ℕ} {l l' : ChunkLoop} {abuf abuf' : Bytes} {failed : Bool}
    (h : readChunkedLoop fuel l abuf = .ok (l', abuf', failed)) :
    l'.body.length + abuf'.length ≤ l.body.length + abuf.length := by
  induction fuel generalizing l abuf with
  | zero => cases h
  | succ fuel ih =>
    rw [readChunkedLoop] at h
    by_cases hnil : abuf = []
    · rw [if_pos hnil] at h
      obtain ⟨rfl, rfl, -⟩ := by simpa using h
      exact le_rfl
    rw [if_neg hnil] at h
    cases hf : find crlf abuf with
    | none =>
      simp only [hf] at h
      obtain ⟨rfl, rfl, -⟩ := by simpa using h
      exact le_rfl
    | some pos =>
      obtain ⟨line, rest, rfl, rfl⟩ := find_eq_some hf
      have hlen : line.length + 2 = (line ++ crlf).length := by simp [crlf]
      simp only [hf, substr_zero, ok_bind, hlen, List.take_left, List.drop_left, chunkStep_eq] at h
      have hbody : (chunkLine l line).loop.body.length ≤ l.body.length + line.length := by
        rw [chunkLine_body]
        split_ifs
        · exact List.length_append.le
        · exact Nat.le_add_right _ _
      have hall : (line ++ crlf ++ rest).length = line.length + 2 + rest.length := by
        rw [List.length_append, hlen]
      rw [hall]
      cases hstep : chunkLine l line with
      | next l₁ =>
        rw [hstep, ChunkStep.loop] at hbody
        rw [hstep] at h
        have hrest := ih h
        omega
      | stop l₁ =>
        rw [hstep, ChunkStep.loop] at hbody
        rw [hstep] at h
        obtain ⟨rfl, rfl, -⟩ := by simpa using h
        omega
      | reset l₁ =>
        rw [hstep, ChunkStep.loop] at hbody
        rw [hstep] at h
        obtain ⟨rfl, rfl, -⟩ := by simpa using h
        omega

theorem endChunkedMode_unread {r : Request} {buf : Buffer} {size count : ℕ} {error : Option ErrorCode} {res : ReadBody}
    (h : endChunkedMode r buf size count error = .ok res) : res.request.unread + res.count ≤ r.unread + count := by
  unfold endChunkedMode at h
  by_cases hle : size ≤ r.body.length
  · rw [if_pos hle] at h
    obtain ⟨buf₁, -, h⟩ := run_bind_eq_ok.mp h
    obtain rfl := Except.ok.inj h
    have hstream : ({ r with body := r.body.drop size } : Request).streamSize = r.streamSize := rfl
    simp only [unread, hstream, List.length_drop]
    omega
  · rw [if_neg hle] at h
    obtain ⟨buf₁, -, h⟩ := run_bind_eq_ok.mp h
    obtain rfl := Except.ok.inj h
    simp only [unread, streamSize, List.length_nil]
    omega

theorem decodeChunked_unread {r : Request} {abuf : Bytes} {buf : Buffer} {size count : ℕ} {error : Option ErrorCode}
    {res : ReadBody} (h : decodeChunked r abuf buf size count error = .ok res) (hpos : 0 < res.count) :
    res.request.unread + res.count ≤ abuf.length + r.body.length + r.streamSize + count := by
  unfold decodeChunked at h
  obtain ⟨⟨l, abuf', failed⟩, hloop, h⟩ := run_bind_eq_ok.mp h
  have hlen := readChunkedLoop_length hloop
  dsimp only at h hlen
  split_ifs at h
  · obtain rfl := Except.ok.inj h
    exact absurd hpos (lt_irrefl 0)
  · refine (endChunkedMode_unread h).trans ?_
    simp only [unread, contextSize, streamSize]
    omega

theorem readBodyChunkedMode_unread {r : Request} {buf : Buffer} {size : ℕ} {res : ReadBody}
    (h : r.readBodyChunkedMode buf size = .ok res) (hpos : 0 < res.count) :
    res.request.unread + res.count ≤ r.unread := by
  unfold readBodyChunkedMode at h
  by_cases hle : size ≤ r.body.length
  · rw [if_pos hle] at h
    obtain ⟨buf₁, -, h⟩ := run_bind_eq_ok.mp h
    obtain rfl := Except.ok.inj h
    have hstream : ({ r with body := r.body.drop size } : Request).streamSize = r.streamSize := rfl
    simp only [unread, hstream, List.length_drop]
    omega
  rw [if_neg hle] at h
  obtain ⟨buf₁, -, h⟩ := run_bind_eq_ok.mp h
  dsimp only at h
  by_cases hend : r.rbStatus = .chunkedEnd
  · rw [if_pos hend] at h
    obtain rfl := Except.ok.inj h
    simp only [unread, streamSize, List.length_nil]
    omega
  rw [if_neg hend] at h
  split at h
  swap
  · cases h
  next abuf hcontext =>
  have hold : r.unread = abuf.length + r.body.length + r.streamSize := by rw [unread, hcontext, contextSize]
  by_cases hempty : abuf = []
  swap
  · rw [if_neg hempty] at h
    refine (decodeChunked_unread h hpos).trans ?_
    simp only [hold, streamSize, List.length_nil]
    omega
  rw [if_pos hempty] at h
  cases hs : r.socket with
  | none => simp [hs] at h
  | some sock =>
    simp only [hs] at h
    obtain ⟨⟨data, error, sock'⟩, hread, h⟩ := run_bind_eq_ok.mp h
    have hstream := readSome_length hread
    -- decoding what has been read
    have hdecode : decodeChunked { r with body := [], socket := some sock' } data buf₁
      (size - r.body.length) r.body.length
        none = .ok res → res.request.unread + res.count ≤ r.unread := by
      intro h
      refine (decodeChunked_unread h hpos).trans ?_
      simp only [hold, streamSize, hs, List.length_nil]
      omega
    dsimp only at h
    split at h
    · exact hdecode h
    · next e =>
      by_cases hdata : 0 < data.length
      · rw [if_pos hdata] at h
        exact hdecode h
      · rw [if_neg hdata] at h
        obtain rfl := Except.ok.inj h
        simp only [unread, hcontext, contextSize, streamSize, hs, List.length_nil]
        omega

/-- **A call that gives bytes** leaves fewer to be read. -/
theorem readBodyInto_unread {r : Request} {buf : Buffer} {size : ℕ} {res : ReadBody}
    (h : r.readBodyInto buf size = .ok res) (hpos : 0 < res.count) : res.request.unread + res.count ≤ r.unread := by
  unfold readBodyInto at h
  split_ifs at h
  · obtain rfl := Except.ok.inj h
    exact absurd hpos (lt_irrefl 0)
  · obtain rfl := Except.ok.inj h
    exact absurd hpos (lt_irrefl 0)
  · exact readBodyLengthMode_unread h
  · exact readBodyChunkedMode_unread h hpos

/-! ## How a call fails -/

/-- The faults of the body readers, but for a context of the other type. -/
def ReadFault (e : Fault) : Prop := e = .overflow ∨ e = .underflow ∨ e = .blocked ∨ e = .nullPointer

theorem memcpy_faults (b : Buffer) (off : ℕ) (src : Bytes) : FailsOnly ReadFault (b.memcpy off src) := by
  unfold Buffer.memcpy
  split_ifs
  · exact failsOnly_ok _
  · exact failsOnly_error (Or.inl rfl)

theorem minus_faults (a b : ℕ) : FailsOnly ReadFault (minus a b) := by
  unfold minus
  split_ifs
  · exact failsOnly_ok _
  · exact failsOnly_error (Or.inr (Or.inl rfl))

theorem readSome_faults (sock : TcpSocket) (size : ℕ) : FailsOnly ReadFault (sock.readSome size) := by
  unfold TcpSocket.readSome
  split
  · exact failsOnly_error (Or.inr (Or.inr (Or.inl rfl)))
  · exact failsOnly_ok _

theorem noSocket_faults {α : Type} : FailsOnly ReadFault (.error .nullPointer : Run α) :=
  failsOnly_error (Or.inr (Or.inr (Or.inr rfl)))

theorem readSome_script {sock sock' : TcpSocket} {size : ℕ} {data : Bytes} {error : Option ErrorCode}
    (h : sock.readSome size = .ok (data, error, sock')) : sock.script.length = sock'.script.length + 1 := by
  unfold TcpSocket.readSome at h
  split at h
  · cases h
  · next o script hscript =>
    obtain ⟨-, -, rfl⟩ := by simpa using h
    rw [hscript]
    rfl

theorem readLengthLoop_faults {fuel : ℕ} {l : LengthLoop} (hfuel : l.sock.script.length < fuel) :
    FailsOnly ReadFault (readLengthLoop fuel l) := by
  induction fuel generalizing l with
  | zero => omega
  | succ fuel ih =>
    rw [readLengthLoop]
    split_ifs
    · refine (readSome_faults _ _).bind ?_
      rintro ⟨data, error, sock⟩ hread
      have hscript := readSome_script hread
      refine (memcpy_faults _ _ _).bind fun buf _ => ?_
      refine (minus_faults _ _).bind fun size _ => ?_
      refine (minus_faults _ _).bind fun tplen _ => ?_
      dsimp only
      have hnext : sock.script.length < fuel := by omega
      split
      · exact ih hnext
      · split_ifs
        · exact ih hnext
        · exact failsOnly_ok _
        · exact failsOnly_ok _
    · exact failsOnly_ok _

/-- The reader of a body with a length wants a size. -/
theorem readBodyLengthMode_faults (r : Request) (buf : Buffer) (size : ℕ) :
    FailsOnly (fun e => ReadFault e ∨ (e = .badVariant ∧ ∀ tplen, r.rbContext ≠ .size tplen))
      (r.readBodyLengthMode buf size) := by
  unfold readBodyLengthMode
  split
  · next tplen _ =>
    refine FailsOnly.mono (P := ReadFault) ?_ fun e he => Or.inl he
    dsimp only
    generalize (if size > tplen then tplen else size) = n
    split_ifs
    · refine (memcpy_faults _ _ _).bind fun buf _ => ?_
      refine (minus_faults _ _).bind fun tplen _ => ?_
      refine (minus_faults _ _).bind fun size _ => ?_
      split
      · exact noSocket_faults
      · exact (readLengthLoop_faults (Nat.lt_succ_self _)).bind fun l _ => failsOnly_ok _
    · refine (memcpy_faults _ _ _).bind fun buf _ => ?_
      exact (minus_faults _ _).bind fun tplen _ => failsOnly_ok _
  · next hcontext => exact failsOnly_error (Or.inr ⟨rfl, hcontext⟩)

theorem decodeChunked_faults (r : Request) (abuf : Bytes) (buf : Buffer) (size count : ℕ) (error : Option ErrorCode) :
    FailsOnly ReadFault (decodeChunked r abuf buf size count error) := by
  unfold decodeChunked
  rw [readChunkedLoop_eq _ _ _ (Nat.lt_succ_self _), ok_bind]
  dsimp only
  split_ifs
  · exact failsOnly_ok _
  · unfold endChunkedMode
    split_ifs
    all_goals exact (memcpy_faults _ _ _).bind fun buf _ => failsOnly_ok _

/-- The reader of a chunked body wants a string. -/
theorem readBodyChunkedMode_faults (r : Request) (buf : Buffer) (size : ℕ) :
    FailsOnly (fun e => ReadFault e ∨ (e = .badVariant ∧ ∀ abuf, r.rbContext ≠ .string abuf))
      (r.readBodyChunkedMode buf size) := by
  have hplain : ∀ {α : Type} {x : Run α}, FailsOnly ReadFault x →
      FailsOnly (fun e => ReadFault e ∨ (e = .badVariant ∧ ∀ abuf, r.rbContext ≠ .string abuf)) x :=
    fun h => h.mono fun e he => Or.inl he
  unfold readBodyChunkedMode
  split
  · exact hplain ((memcpy_faults _ _ _).bind fun buf _ => failsOnly_ok _)
  · refine (hplain (memcpy_faults _ _ _)).bind fun buf _ => ?_
    dsimp only
    split
    · exact failsOnly_ok _
    split
    · split
      · split
        · exact hplain noSocket_faults
        · refine (hplain (readSome_faults _ _)).bind ?_
          rintro ⟨data, error, sock⟩ -
          dsimp only
          split
          · exact hplain (decodeChunked_faults _ _ _ _ _ _)
          · split
            · exact hplain (decodeChunked_faults _ _ _ _ _ _)
            · exact failsOnly_ok _
      · exact hplain (decodeChunked_faults _ _ _ _ _ _)
    · next hcontext => exact failsOnly_error (Or.inr ⟨rfl, hcontext⟩)

/-- **A call of `read_body`** comes to an end, or waits for the peer. -/
theorem readBodyInto_ne_diverge (r : Request) (buf : Buffer) (size : ℕ) :
    r.readBodyInto buf size ≠ .error .diverge := by
  have hfault : ¬ ReadFault .diverge := by simp [ReadFault]
  unfold readBodyInto
  split_ifs
  · nofun
  · nofun
  · exact fun h => (readBodyLengthMode_faults r buf size _ h).elim hfault fun h => nomatch h.1
  · exact fun h => (readBodyChunkedMode_faults r buf size _ h).elim hfault fun h => nomatch h.1

end Request

end Gts3.Http
