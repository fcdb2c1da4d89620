import Gts3.Http.Segmentation

/-!
# Bodies with a length

`read_body_length_mode` takes what came with the head first and the rest from the socket.  As long as the socket
delivers, a request that waits for `rest` gives its next bytes and waits for what is left (`Awaits.readBodyInto`); the
bytes of `later` stay in the socket.
-/

namespace Gts3

open Lib Lib.Cxx

/-- Every read delivers something, without an error, until the stream is used up. -/
structure TcpSocket.Flows (sock : TcpSocket) : Prop where
  noError : ∀ o ∈ sock.script, o.error = none
  size_pos : ∀ o ∈ sock.script, 0 < o.size
  enough : sock.stream.length ≤ sock.script.length

theorem TcpSocket.Flows.readSome {sock : TcpSocket} (h : sock.Flows) {size : ℕ} (hpos : 0 < size)
    (hsize : size ≤ sock.stream.length) :
    ∃ d script, sock.readSome size = .ok (sock.stream.take d, none,
        { sock with stream := sock.stream.drop d, script := script }) ∧
      0 < d ∧ d ≤ size ∧ sock.script.length = script.length + 1 ∧
      TcpSocket.Flows { sock with stream := sock.stream.drop d, script := script } := by
  have henough := h.enough
  cases hs : sock.script with
  | nil =>
    rw [hs, List.length_nil] at henough
    omega
  | cons o script =>
    have ho := h.size_pos o (by simp [hs])
    have hno := h.noError o (by simp [hs])
    rw [hs] at henough
    refine ⟨min o.size size, script, by simp only [TcpSocket.readSome, hs, hno], by omega, by omega,
      rfl, fun o' ho' => h.noError o' (by simp [hs, ho']), fun o' ho' => h.size_pos o' (by simp [hs, ho']), ?_⟩
    simp only [List.length_cons, List.length_drop] at henough ⊢
    omega

namespace Http

/-- **The loop of `read_body_length_mode`** fills the buffer from the socket. -/
theorem Request.readLengthLoop_eq (fuel : ℕ) (l : LengthLoop) (hfuel : l.sock.script.length < fuel)
    (hflows : l.sock.Flows) (hsize : l.size ≤ l.tplen) (hstream : l.size ≤ l.sock.stream.length)
    (hbuf : l.count + l.size ≤ l.buf.size) (herror : l.error = none) :
    ∃ script buf, readLengthLoop fuel l = .ok
        { sock := { l.sock with stream := l.sock.stream.drop l.size, script := script }, tplen := l.tplen - l.size,
          size := 0, count := l.count + l.size, buf := buf, error := none } ∧
      TcpSocket.Flows { l.sock with stream := l.sock.stream.drop l.size, script := script } ∧
      buf.front (l.count + l.size) = l.buf.front l.count ++ l.sock.stream.take l.size := by
  induction fuel generalizing l with
  | zero => omega
  | succ fuel ih =>
    rw [readLengthLoop]
    by_cases hz : l.size = 0
    · rw [if_neg (by omega)]
      obtain ⟨sock, tplen, size, count, buf, error⟩ := l
      simp only at hz herror
      subst hz herror
      exact ⟨sock.script, buf, by simp, by simpa using hflows, by simp⟩
    · obtain ⟨d, script, hread, hd, hdle, hscript, hflows'⟩ := hflows.readSome (Nat.pos_of_ne_zero hz) hstream
      have hlen : (l.sock.stream.take d).length = d := by rw [List.length_take]; omega
      obtain ⟨buf, hcopy, hbsize, hfront⟩ :=
        Buffer.memcpy_ok (show l.count + (l.sock.stream.take d).length ≤ l.buf.size by omega)
      rw [hlen] at hfront
      rw [if_pos (by omega), hread]
      rw [ok_bind]
      simp only [hcopy, hlen, ok_bind, minus_of_le hdle, minus_of_le (hdle.trans hsize)]
      obtain ⟨script', buf', hloop, hflows'', hfront'⟩ := ih
        { sock := { l.sock with stream := l.sock.stream.drop d, script := script }, tplen := l.tplen - d,
          size := l.size - d, count := l.count + d, buf := buf, error := none }
        (by simp only; omega) hflows' (by simp only; omega) (by simp only [List.length_drop]; omega)
        (by simp only [hbsize]; omega) rfl
      have hsum : l.count + d + (l.size - d) = l.count + l.size := by omega
      have hdrop : (l.sock.stream.drop d).drop (l.size - d) = l.sock.stream.drop l.size := by
        rw [List.drop_drop]
        congr 1
        omega
      have htake : l.sock.stream.take d ++ (l.sock.stream.drop d).take (l.size - d) = l.sock.stream.take l.size := by
        rw [← List.take_add]
        congr 1
        omega
      simp only [hsum, hdrop] at hloop hflows'' hfront'
      refine ⟨script', buf', ?_, hflows'', ?_⟩
      · rw [hloop, show l.tplen - d - (l.size - d) = l.tplen - l.size by omega]
      · rw [hfront', hfront, List.append_assoc, htake]

namespace Request

/-- The request still waits for the bytes `rest` of its body: some came with the head, the others are in front of
`later` in the socket. -/
structure Awaits (r : Request) (sock : TcpSocket) (rest later : Bytes) : Prop where
  socket_eq : r.socket = some sock
  flows : sock.Flows
  bytes_eq : r.body ++ sock.stream = rest ++ later
  body_le : r.body.length ≤ rest.length
  status : r.rbStatus = .length ∧ r.rbContext = .size rest.length ∨ r.rbStatus = .finished ∧ rest = []

/-- The second request is the first one after some reading. -/
def ReadsTo (r r' : Request) : Prop :=
  ∀ sock, r.socket = some sock → ∃ stream script body status context,
    r' = { r with socket := some { sock with stream := stream, script := script }, body := body, rbStatus := status,
                  rbContext := context }

theorem ReadsTo.refl (r : Request) : r.ReadsTo r := fun sock h =>
  ⟨sock.stream, sock.script, r.body, r.rbStatus, r.rbContext, by rw [← h]⟩

theorem ReadsTo.trans {r r' r'' : Request} (h : r.ReadsTo r') (h' : r'.ReadsTo r'') : r.ReadsTo r'' := by
  intro sock hs
  obtain ⟨stream, script, body, status, context, rfl⟩ := h sock hs
  obtain ⟨stream', script', body', status', context', rfl⟩ := h' _ rfl
  exact ⟨stream', script', body', status', context', rfl⟩

variable {r : Request} {sock : TcpSocket} {rest later : Bytes}

/-- The end of `read_body_length_mode` behind `n` bytes. -/
theorem endLengthMode_eq (r : Request) (tplen : ℕ) (buf : Buffer) (n : ℕ) :
    endLengthMode r tplen buf none n =
      ⟨{ r with rbContext := .size tplen, rbStatus := if tplen = 0 then .finished else r.rbStatus }, buf, none, n⟩ := by
  unfold endLengthMode
  split_ifs with h
  · rw [h]
  · rfl

/-- The status and the context behind `n` bytes, as `endLengthMode` leaves them. -/
theorem Awaits.status_drop (n : ℕ) {status : RbStatus} (hstatus : status = .length) :
    (if rest.length - n = 0 then RbStatus.finished else status) = .length ∧
        RbContext.size (rest.length - n) = .size (rest.drop n).length ∨
      (if rest.length - n = 0 then RbStatus.finished else status) = .finished ∧ rest.drop n = [] := by
  by_cases hz : rest.length - n = 0
  · exact Or.inr ⟨if_pos hz, List.drop_eq_nil_of_le (by omega)⟩
  · exact Or.inl ⟨by rw [if_neg hz, hstatus], by rw [List.length_drop]⟩

/-- `read_body_length_mode`: what came with the head is given first. -/
theorem Awaits.readBodyLengthMode (h : r.Awaits sock rest later) (hstatus : r.rbStatus = .length)
    (hcontext : r.rbContext = .size rest.length) {size n : ℕ} (hn : n = min size rest.length) :
    ∃ buf r' sock', Request.readBodyLengthMode r (Buffer.zeros size) size = .ok ⟨r', buf, none, n⟩ ∧
      buf.front n = rest.take n ∧ r'.Awaits sock' (rest.drop n) later ∧ r'.body = r.body.drop n ∧ r.ReadsTo r' := by
  obtain ⟨tail, rfl⟩ : ∃ tail, rest = r.body ++ tail :=
    (List.prefix_of_prefix_length_le ⟨_, h.bytes_eq⟩ (List.prefix_append rest later) h.body_le).imp fun _ ht => ht.symm
  have hstream : sock.stream = tail ++ later := by
    have := h.bytes_eq
    rw [List.append_assoc] at this
    exact List.append_cancel_left this
  have hcut : (if size > (r.body ++ tail).length then (r.body ++ tail).length else size) = n := by
    rw [hn]
    split_ifs <;> omega
  have hnlen : n ≤ (r.body ++ tail).length := by omega
  have hlen : (r.body ++ tail).length = r.body.length + tail.length := List.length_append
  rw [Request.readBodyLengthMode, hcontext]
  simp only [hcut]
  by_cases hmore : n > r.body.length
  · -- the bytes that came with the head are not enough: the others come from the socket
    obtain ⟨buf, hcopy, hbsize, hfront⟩ := Buffer.memcpy_ok
      (show 0 + r.body.length ≤ (Buffer.zeros size).size by simp only [Buffer.zeros]; omega)
    obtain ⟨script, buf', hloop, hflows, hfront'⟩ := readLengthLoop_eq (sock.script.length + 1)
      { sock := sock, tplen := (r.body ++ tail).length - r.body.length, size := n - r.body.length,
        count := r.body.length, buf := buf, error := none } (Nat.lt_succ_self _) h.flows
      (show n - r.body.length ≤ (r.body ++ tail).length - r.body.length by omega)
      (show n - r.body.length ≤ sock.stream.length by rw [hstream, List.length_append]; omega)
      (show r.body.length + (n - r.body.length) ≤ buf.size by rw [hbsize]; simp only [Buffer.zeros]; omega) rfl
    have hcount : r.body.length + (n - r.body.length) = n := by omega
    have htplen : (r.body ++ tail).length - r.body.length - (n - r.body.length) =
        (r.body ++ tail).length - n := by omega
    simp only [hcount, htplen] at hloop hfront'
    have htotal : r.body.length ≤ (r.body ++ tail).length := by omega
    rw [if_pos hmore, hcopy]
    simp only [ok_bind, minus_of_le htotal, minus_of_le hmore.le, h.socket_eq, hloop, endLengthMode_eq]
    refine ⟨buf', _, _, rfl, ?_, ⟨rfl, hflows, ?_, by simp, status_drop n hstatus⟩,
      (List.drop_eq_nil_of_le hmore.le).symm, fun s hs => ?_⟩
    · rw [Nat.zero_add] at hfront
      rw [hfront', hfront, hstream, Buffer.front_zero, List.nil_append, List.take_append_of_le_length (by omega),
        List.take_append, List.take_of_length_le (show r.body.length ≤ n by omega)]
    · rw [List.nil_append, hstream, List.drop_append_of_le_length (show n - r.body.length ≤ tail.length by omega),
        List.drop_append, List.drop_eq_nil_of_le (show r.body.length ≤ n by omega), List.nil_append]
    · obtain rfl : sock = s := by simpa [h.socket_eq] using hs
      exact ⟨_, _, _, _, _, rfl⟩
  · obtain ⟨buf, hcopy, -, hfront⟩ := Buffer.memcpy_ok
      (show 0 + (r.body.take n).length ≤ (Buffer.zeros size).size by
        rw [List.length_take]; simp only [Buffer.zeros]; omega)
    have hle : n ≤ r.body.length := by omega
    rw [if_neg hmore, hcopy]
    simp only [ok_bind, minus_of_le hnlen, endLengthMode_eq]
    refine ⟨buf, _, sock, rfl, ?_, ⟨h.socket_eq, h.flows, ?_, ?_, status_drop n hstatus⟩, rfl, fun s hs => ?_⟩
    · rw [Nat.zero_add, List.length_take, Nat.min_eq_left hle] at hfront
      rw [hfront, Buffer.front_zero, List.nil_append, List.take_append_of_le_length hle]
    · rw [hstream, List.drop_append_of_le_length hle, List.append_assoc]
    · simp only [List.length_drop]
      omega
    · obtain rfl : sock = s := by simpa [h.socket_eq] using hs
      exact ⟨sock.stream, sock.script, _, _, _, by rw [← h.socket_eq]⟩

/-- **A request gives the next bytes** of its body, and waits for the others. -/
theorem Awaits.readBodyInto (h : r.Awaits sock rest later) (size : ℕ) :
    ∃ buf r' sock', Request.readBodyInto r (Buffer.zeros size) size = .ok ⟨r', buf, none, min size rest.length⟩ ∧
      buf.front (min size rest.length) = rest.take size ∧ r'.Awaits sock' (rest.drop size) later ∧
      r'.body = r.body.drop size ∧ r.ReadsTo r' := by
  have htake : rest.take (min size rest.length) = rest.take size := by
    rcases Nat.le_total size rest.length with hle | hle
    · rw [Nat.min_eq_left hle]
    · rw [Nat.min_eq_right hle, List.take_length, List.take_of_length_le hle]
  have hdrop : rest.drop (min size rest.length) = rest.drop size := by
    rcases Nat.le_total size rest.length with hle | hle
    · rw [Nat.min_eq_left hle]
    · rw [Nat.min_eq_right hle, List.drop_length, List.drop_eq_nil_of_le hle]
  rw [Request.readBodyInto]
  by_cases hz : size = 0
  · rw [if_pos hz, hz]
    exact ⟨Buffer.zeros 0, r, sock, by rw [Nat.zero_min], by simp, h, rfl, .refl r⟩
  rw [if_neg hz]
  rcases h.status with ⟨hstatus, hcontext⟩ | ⟨hstatus, rfl⟩
  · have hbody : r.body.drop (min size rest.length) = r.body.drop size := by
      rcases Nat.le_total size rest.length with hle | hle
      · rw [Nat.min_eq_left hle]
      · rw [Nat.min_eq_right hle, List.drop_eq_nil_of_le h.body_le, List.drop_eq_nil_of_le (h.body_le.trans hle)]
    rw [if_neg (by rw [hstatus]; decide), if_pos hstatus, ← htake, ← hdrop, ← hbody]
    exact h.readBodyLengthMode hstatus hcontext rfl
  · have hnil : r.body = [] := List.length_eq_zero_iff.mp (Nat.le_zero.mp h.body_le)
    rw [if_pos hstatus]
    exact ⟨Buffer.zeros size, r, sock, by rw [List.length_nil, Nat.min_zero], by simp,
      by rw [List.drop_nil]; exact h, by rw [hnil, List.drop_nil], .refl r⟩

end Request

end Http

end Gts3
