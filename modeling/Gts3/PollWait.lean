import Gts3.TcpSocket
import Mathlib.Data.BitVec

/-!
# `gts/private/tcp_socket_unix.cpp`, `gts/web/service/cgi/process_unix.cpp`: waiting for a descriptor

Both files have the same loop around `poll`, once for an event that is an `int` and once for a `short`.  It ends with
`true` only when the returned events are the requested one and no other, so a descriptor that also reports an error or
that the peer is gone keeps it going (`waits_true_iff`).
-/

namespace Gts3

open Lib Lib.Cxx

/-- What a call of `poll` on one descriptor returns, with `revents` and `errno` after it. -/
structure PollResult where
  res : ℤ
  revents : BitVec 16
  errno : ℤ
  deriving DecidableEq, Repr

/-- The kernel: what the `k`-th call gives, with these `events` and this timeout. -/
abbrev Kernel := BitVec 16 → ℤ → ℕ → PollResult

/-- `tt`: the milliseconds as an `int`, and minus one for none. -/
def pollTimeout (ms : ℤ) : ℤ := if ms > 0 then (BitVec.ofInt 32 ms).toInt else -1

namespace PollResult

/-- What `poll` says is that the requested event has come, and nothing else. -/
def Exact (event : ℤ) (o : PollResult) : Prop := o.res = 1 ∧ o.revents.toInt = event

/-- One descriptor, with the bits of `event` among its events. -/
def Includes (event : BitVec 16) (o : PollResult) : Prop := o.res = 1 ∧ o.revents &&& event = event

instance (event : ℤ) (o : PollResult) : Decidable (o.Exact event) := inferInstanceAs (Decidable (_ ∧ _))

instance (event : BitVec 16) (o : PollResult) : Decidable (o.Includes event) := inferInstanceAs (Decidable (_ ∧ _))

theorem Exact.res_pos {event : ℤ} {o : PollResult} (h : o.Exact event) : 0 < o.res := by
  rw [h.1]
  exact Int.one_pos

/-- The outcome as the timed reads see it. -/
def kind (event : ℤ) (o : PollResult) : Poll :=
  if o.res < 0 then .failed else if o.res = 0 then .timeout else if o.Exact event then .ready else .other

end PollResult

/-! ## The loop -/

/-- The loop, on what the calls of `poll` return from the `k`-th on: the result and the error.  `fuel` bounds the number
of calls. -/
def waitLoop (event : ℤ) (poll : ℕ → PollResult) : ℕ → ℕ → Option (Bool × ℤ)
  | 0, _ => none
  | fuel + 1, k =>
    if (poll k).res < 0 then some (false, (poll k).errno)
    else if (poll k).res = 0 then some (false, 0)
    else if (poll k).Exact event then some (true, 0)
    else waitLoop event poll fuel (k + 1)

variable {event : ℤ} {poll : ℕ → PollResult}

theorem waitLoop_exact {k : ℕ} (h : (poll k).Exact event) (fuel : ℕ) :
    waitLoop event poll (fuel + 1) k = some (true, 0) := by
  have hres := h.res_pos
  rw [waitLoop, if_neg (by omega), if_neg (by omega), if_pos h]

theorem waitLoop_skip {k : ℕ} (hres : 0 < (poll k).res) (h : ¬ (poll k).Exact event) (fuel : ℕ) :
    waitLoop event poll (fuel + 1) k = waitLoop event poll fuel (k + 1) := by
  rw [waitLoop, if_neg (by omega), if_neg (by omega), if_neg h]

theorem waitLoop_true {k n : ℕ} (hexact : (poll (k + n)).Exact event) (hbefore : ∀ j < n, 0 < (poll (k + j)).res) :
    ∃ fuel, waitLoop event poll fuel k = some (true, 0) := by
  induction n generalizing k with
  | zero => exact ⟨1, waitLoop_exact hexact 0⟩
  | succ n ih =>
    by_cases hk : (poll k).Exact event
    · exact ⟨1, waitLoop_exact hk 0⟩
    · have hshift : ∀ j, k + 1 + j = k + (j + 1) := fun j => by omega
      obtain ⟨fuel, hrun⟩ := ih (k := k + 1) (by rwa [hshift])
        (fun j hj => by rw [hshift]; exact hbefore (j + 1) (by omega))
      have hres : 0 < (poll k).res := hbefore 0 (by omega)
      exact ⟨fuel + 1, by rw [waitLoop_skip hres hk, hrun]⟩

theorem exact_of_waitLoop {fuel k : ℕ} {error : ℤ} (h : waitLoop event poll fuel k = some (true, error)) :
    ∃ n, (poll (k + n)).Exact event ∧ ∀ j < n, 0 < (poll (k + j)).res := by
  induction fuel generalizing k with
  | zero => simp [waitLoop] at h
  | succ fuel ih =>
    by_cases hk : (poll k).Exact event
    · exact ⟨0, hk, fun j hj => absurd hj (Nat.not_lt_zero j)⟩
    · have hres : 0 < (poll k).res := by
        by_contra hneg
        rw [waitLoop] at h
        split_ifs at h with hlt hzero
        · simp at h
        · simp at h
        · omega
      rw [waitLoop_skip hres hk] at h
      obtain ⟨n, hexact, hbefore⟩ := ih h
      refine ⟨n + 1, by rwa [show k + (n + 1) = k + 1 + n by omega], fun j hj => ?_⟩
      cases j with
      | zero => exact hres
      | succ j =>
        rw [show k + (j + 1) = k + 1 + j by omega]
        exact hbefore j (by omega)

/-- **When the loop returns `true`**: an outcome with the requested event alone comes before failures and timeouts. -/
theorem waitLoop_true_iff (event : ℤ) (poll : ℕ → PollResult) :
    (∃ fuel error, waitLoop event poll fuel 0 = some (true, error)) ↔
      ∃ n, (poll n).Exact event ∧ ∀ j < n, 0 < (poll j).res := by
  constructor
  · rintro ⟨fuel, error, h⟩
    simpa using exact_of_waitLoop h
  · rintro ⟨n, hexact, hbefore⟩
    obtain ⟨fuel, h⟩ := waitLoop_true (k := 0) (by simpa using hexact) (by simpa using hbefore)
    exact ⟨fuel, 0, h⟩

/-- **The loop goes on for ever** where every outcome has the event but none has it alone. -/
theorem waitLoop_endless {ev : BitVec 16} (hincludes : ∀ k, (poll k).Includes ev) (hnot : ∀ k, ¬ (poll k).Exact event)
    (fuel k : ℕ) : waitLoop event poll fuel k = none := by
  induction fuel generalizing k with
  | zero => rfl
  | succ fuel ih =>
    rw [waitLoop_skip (by rw [(hincludes k).1]; exact Int.one_pos) (hnot k)]
    exact ih (k + 1)

/-- **The `wait` of the timed reads** is this loop, on the outcomes of as many calls. -/
theorem wait_kinds (event : ℤ) (poll : ℕ → PollResult) (fuel k : ℕ) :
    match waitLoop event poll fuel k with
    | none => wait ((List.range' k fuel).map fun j => (poll j).kind event) = .error .blocked
    | some (b, _) => ∃ error polls,
      wait ((List.range' k fuel).map fun j => (poll j).kind event) = .ok (b, error, polls) := by
  induction fuel generalizing k with
  | zero => rfl
  | succ fuel ih =>
    rw [List.range'_succ, List.map_cons]
    by_cases hneg : (poll k).res < 0
    · simp [waitLoop, PollResult.kind, hneg, wait]
    · by_cases hzero : (poll k).res = 0
      · simp [waitLoop, PollResult.kind, hzero, wait]
      · by_cases hexact : (poll k).Exact event
        · simp [waitLoop, PollResult.kind, hneg, hzero, hexact, wait]
        · rw [waitLoop_skip (by omega) hexact, show (poll k).kind event = .other by
            simp [PollResult.kind, hneg, hzero, hexact], wait]
          exact ih (k + 1)

/-! ## The two functions -/

/-- `wait(fd, event, ms, error)` of the socket: `events` keeps the low half of the `int`. -/
def tcpWait (kernel : Kernel) (event : BitVec 32) (ms : ℤ) (fuel : ℕ) : Option (Bool × ℤ) :=
  waitLoop event.toInt (kernel (event.setWidth 16) (pollTimeout ms)) fuel 0

/-- `wait(fd, event, ms, error)` of the process. -/
def processWait (kernel : Kernel) (event : BitVec 16) (ms : ℤ) (fuel : ℕ) : Option (Bool × ℤ) :=
  waitLoop event.toInt (kernel event (pollTimeout ms)) fuel 0

def pollIn : ℕ := 1

def pollOut : ℕ := 4

/-- `tcp_socket::wait_readable(ms, error)`. -/
def tcpWaitReadable (kernel : Kernel) : ℤ → ℕ → Option (Bool × ℤ) := tcpWait kernel (.ofNat 32 pollIn)

/-- `tcp_socket::wait_writeable(ms, error)`. -/
def tcpWaitWriteable (kernel : Kernel) : ℤ → ℕ → Option (Bool × ℤ) := tcpWait kernel (.ofNat 32 pollOut)

/-- `process::wait_readable(ms, error)`. -/
def processWaitReadable (kernel : Kernel) : ℤ → ℕ → Option (Bool × ℤ) := processWait kernel (.ofNat 16 pollIn)

/-- `process::wait_writeable(ms, error)`. -/
def processWaitWriteable (kernel : Kernel) : ℤ → ℕ → Option (Bool × ℤ) := processWait kernel (.ofNat 16 pollOut)

/-- After finitely many polls the call returns `true`. -/
def ReturnsTrue (run : ℕ → Option (Bool × ℤ)) : Prop := ∃ fuel error, run fuel = some (true, error)

/-- **Both waits**: they return `true` exactly when some poll gives the requested event and no other before a poll fails
or times out. -/
theorem waits_true_iff (kernel : Kernel) (ms : ℤ) :
    (∀ event : BitVec 32, ReturnsTrue (tcpWait kernel event ms) ↔
      ∃ n, (kernel (event.setWidth 16) (pollTimeout ms) n).Exact event.toInt ∧
        ∀ j < n, 0 < (kernel (event.setWidth 16) (pollTimeout ms) j).res) ∧
    (∀ event : BitVec 16, ReturnsTrue (processWait kernel event ms) ↔
      ∃ n, (kernel event (pollTimeout ms) n).Exact event.toInt ∧
        ∀ j < n, 0 < (kernel event (pollTimeout ms) j).res) :=
  ⟨fun event => waitLoop_true_iff event.toInt _, fun event => waitLoop_true_iff event.toInt _⟩

/-- The peer is gone, and what it has sent can be read: `POLLIN` with `POLLHUP`. -/
def hungUp : Kernel := fun _ _ _ => ⟨1, 0x11, 0⟩

/-- All outcomes have the requested event, and neither wait for it returns. -/
theorem not_returnsTrue_hungUp :
    (∀ k, (hungUp (.ofNat 16 pollIn) (pollTimeout 5000) k).Includes (.ofNat 16 pollIn)) ∧
      ¬ ReturnsTrue (tcpWaitReadable hungUp 5000) ∧ ¬ ReturnsTrue (processWaitReadable hungUp 5000) := by
  have hincludes : ∀ k, (hungUp (.ofNat 16 pollIn) (pollTimeout 5000) k).Includes (.ofNat 16 pollIn) :=
    fun k => show PollResult.Includes _ ⟨1, 0x11, 0⟩ by decide
  have hnot : ∀ k, ¬ (hungUp (.ofNat 16 pollIn) (pollTimeout 5000) k).Exact 1 :=
    fun k => show ¬ PollResult.Exact 1 ⟨1, 0x11, 0⟩ by decide
  refine ⟨hincludes, ?_, ?_⟩
  · rintro ⟨fuel, error, h⟩
    rw [tcpWaitReadable, tcpWait, show (BitVec.ofNat 32 pollIn).toInt = 1 by decide,
      show (BitVec.ofNat 32 pollIn).setWidth 16 = .ofNat 16 pollIn by decide, waitLoop_endless hincludes hnot] at h
    cases h
  · rintro ⟨fuel, error, h⟩
    rw [processWaitReadable, processWait, show (BitVec.ofNat 16 pollIn).toInt = 1 by decide,
      waitLoop_endless hincludes hnot] at h
    cases h

end Gts3
