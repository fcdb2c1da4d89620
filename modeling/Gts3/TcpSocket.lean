import Gts3.Lib.Cxx

/-!
# `gts/tcp_socket.cpp`: sockets, and the buffers that are filled from them

The peer's bytes are a stream.  Every read takes the next entry of a script that says how much of the stream has
arrived and whether the call reports an error, so a script is one way of cutting the stream into segments; a read that
times out brings nothing and reports nothing (`timedRead_timeout`).  What
`write_some` writes is taken at once and in full; asynchronous writes are taken in parts, as another script says.
-/

namespace Gts3

open Lib Lib.Cxx

/-- The errors a body reader reports. -/
inductive ErrorCode
  | network
  | wrongProtocolType
  deriving DecidableEq, Repr

/-- What one read gives: at most `size` bytes of the stream, and perhaps an error. -/
structure ReadOutcome where
  size : ℕ
  error : Option ErrorCode
  deriving DecidableEq, Repr

/-- A socket with what is still to be read from it. -/
structure TcpSocket where
  isOpen : Bool
  /-- The value of the option `send_buffer_size`. -/
  sendBufferSize : ℕ
  stream : Bytes
  script : List ReadOutcome
  /-- What has been written so far. -/
  sent : Bytes
  deriving DecidableEq, Repr

/-! ## Timed reads -/

/-- What `poll` returns. -/
inductive Poll
  /-- A negative number. -/
  | failed
  /-- Zero. -/
  | timeout
  /-- One, with the event that was asked for and no other. -/
  | ready
  /-- One, with other events. -/
  | other
  deriving DecidableEq, Repr

/-- `wait(fd, event, ms, error)`: whether the event came, and the error. -/
def wait : List Poll → Run (Bool × Option ErrorCode × List Poll)
  | [] => .error .blocked
  | .failed :: polls => .ok (false, some .network, polls)
  | .timeout :: polls => .ok (false, none, polls)
  | .ready :: polls => .ok (true, none, polls)
  | .other :: polls => wait polls

/-- `read_some(buf, size, timeout, error)`, where reading at once gives `o`. -/
def timedRead (polls : List Poll) (o : ReadOutcome) : Run (ReadOutcome × List Poll) := do
  let (readable, error, polls) ← wait polls
  if readable then .ok (o, polls) else .ok (⟨0, error⟩, polls)

/-- What a timed read gives when the time is over: no bytes, and no error. -/
def ReadOutcome.timedOut : ReadOutcome := ⟨0, none⟩

theorem timedRead_timeout (polls : List Poll) (o : ReadOutcome) :
    timedRead (.timeout :: polls) o = .ok (ReadOutcome.timedOut, polls) := rfl

namespace TcpSocket

/-- `read_some(buf, size, timeout, error)`, which gives what the next entry of the script says; without a further entry
the call keeps waiting. -/
def readSome (sock : TcpSocket) (size : ℕ) : Run (Bytes × Option ErrorCode × TcpSocket) :=
  match sock.script with
  | [] => .error .blocked
  | o :: script =>
    .ok (sock.stream.take (min o.size size), o.error,
      { sock with stream := sock.stream.drop (min o.size size), script := script })

/-- `write_some(buf)`. -/
def writeSome (sock : TcpSocket) (data : Bytes) : TcpSocket := { sock with sent := sock.sent ++ data }

end TcpSocket

/-! ## Asynchronous writes -/

/-- How asio takes writes: what the `k`-th write, of `n` bytes, transfers, and whether it reports an error. -/
structure WriteScript where
  size : ℕ → ℕ → ℕ
  failed : ℕ → Bool
  size_le : ∀ k n, size k n ≤ n
  size_pos : ∀ k n, 0 < n → failed k = false → 0 < size k n

/-- The bytes that the peer has received, and the number of writes so far. -/
structure Wire where
  received : Bytes
  writes : ℕ
  deriving DecidableEq, Repr

/-- One write of asio's socket. -/
def WriteScript.write (script : WriteScript) (buf : Bytes) (wire : Wire) : Wire :=
  ⟨wire.received ++ buf.take (script.size wire.writes buf.length), wire.writes + 1⟩

/-- `tcp_socket::async_write_some(buf, size, callback)`: what the callback is given. -/
def asyncWriteSome (script : WriteScript) (buf : Bytes) (wire : Wire) : Bool × ℕ × Wire :=
  let rsize := script.size wire.writes buf.length
  if _h : script.failed wire.writes = true ∨ rsize ≥ buf.length then
    (script.failed wire.writes, rsize, script.write buf wire)
  else asyncWriteSome script (buf.drop rsize) (script.write buf wire)
termination_by buf.length
decreasing_by
  rw [not_or] at _h
  have := script.size_pos wire.writes buf.length (by omega) (by simpa using _h.1)
  rw [List.length_drop]
  omega

/-- **What the callback is given** without errors: all bytes have been written, and the size is that of the last write
only, so it is the whole size exactly when there was no other. -/
theorem asyncWriteSome_spec (script : WriteScript) (hok : ∀ k, script.failed k = false) {buf : Bytes} (hbuf : buf ≠ [])
    (wire : Wire) :
    ∃ size wire', asyncWriteSome script buf wire = (false, size, wire') ∧ wire'.received = wire.received ++ buf ∧
      0 < size ∧ size ≤ buf.length ∧ (size = buf.length ↔ script.size wire.writes buf.length = buf.length) ∧
      (size = buf.length → wire'.writes = wire.writes + 1) := by
  induction hn : buf.length using Nat.strong_induction_on generalizing buf wire with
  | _ n ih =>
    subst hn
    have hle := script.size_le wire.writes buf.length
    have hpos := script.size_pos wire.writes buf.length (List.length_pos_iff.mpr hbuf) (hok _)
    rw [asyncWriteSome]
    by_cases hall : script.size wire.writes buf.length = buf.length
    · rw [dif_pos (Or.inr hall.ge), hok]
      refine ⟨_, _, rfl, ?_, hpos, hle, Iff.rfl, fun _ => rfl⟩
      rw [WriteScript.write, hall, List.take_length]
    · rw [dif_neg (by simp only [hok, Bool.false_eq_true, false_or]; omega)]
      have hlen : (buf.drop (script.size wire.writes buf.length)).length =
          buf.length - script.size wire.writes buf.length := List.length_drop
      obtain ⟨size, wire', heq, hreceived, hpos', hle', -, -⟩ := ih _ (by omega)
        (List.length_pos_iff.mp (by omega)) (script.write buf wire) hlen
      refine ⟨size, wire', heq, ?_, hpos', by omega, iff_of_false (by omega) hall, fun h => by omega⟩
      rw [hreceived, WriteScript.write, List.append_assoc, List.take_append_drop]

/-! ## Buffers -/

/-- `new char[size] {0}` together with the front part that was written; zeros follow it. -/
structure Buffer where
  size : ℕ
  written : Bytes
  deriving DecidableEq, Repr

namespace Buffer

/-- A buffer of zeros. -/
def zeros (size : ℕ) : Buffer := ⟨size, []⟩

/-- The first `n` bytes. -/
def front (b : Buffer) (n : ℕ) : Bytes := b.written.take n ++ List.replicate (n - b.written.length) 0

/-- `memcpy(buf + off, src, src.size())`. -/
def memcpy (b : Buffer) (off : ℕ) (src : Bytes) : Run Buffer :=
  if off + src.length ≤ b.size then
    .ok { b with written := b.front off ++ src ++ b.written.drop (off + src.length) }
  else .error .overflow

@[simp] theorem front_zero (b : Buffer) : b.front 0 = [] := by simp [front]

@[simp] theorem length_front (b : Buffer) (n : ℕ) : (b.front n).length = n := by
  simp only [front, List.length_append, List.length_take, List.length_replicate]
  omega

theorem front_take (b : Buffer) {n m : ℕ} (h : n ≤ m) : (b.front m).take n = b.front n := by
  simp only [front, List.take_append, List.take_take, List.take_replicate, List.length_take, min_eq_left h]
  congr 2
  omega

@[simp] theorem memcpy_nil (b : Buffer) : b.memcpy 0 [] = .ok b := by simp [memcpy]

/-- **A write in bounds** keeps what stands before it. -/
theorem memcpy_ok {b : Buffer} {off : ℕ} {src : Bytes} (h : off + src.length ≤ b.size) :
    ∃ b', b.memcpy off src = .ok b' ∧ b'.size = b.size ∧ b'.front (off + src.length) = b.front off ++ src := by
  refine ⟨_, if_pos h, rfl, ?_⟩
  have hlen : (b.front off ++ src).length = off + src.length := by simp
  simp only [front]
  rw [show b.written.take off ++ List.replicate (off - b.written.length) 0 = b.front off from rfl,
    List.take_append_of_le_length (by omega), List.take_of_length_le (by omega), List.length_append, hlen,
    show off + src.length - (off + src.length + _) = 0 by omega]
  simp

end Buffer

end Gts3
