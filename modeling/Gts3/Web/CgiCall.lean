import Gts3.Lib.Transition
import Mathlib.Data.List.Basic

/-!
# `gts/web/service/cgi/service.cpp`: the worker and the handlers

`cgi_service::call` starts the program and two chains of asynchronous operations, joins the program and waits for the
operations on a condition variable.  The chains count themselves in `m_counter`; their handlers run one after the other
on the thread of the `io_context`, beside the worker.  The test of the counter and the wait are two steps, a handler
tests the counter and notifies in two steps, and the counter is 0 between a handler and the operation that it starts:
`cgiCall_sound` says in which runs this goes well, and that every other step leads to a state that is not sound.
-/

namespace Gts3.Web

open Lib.Transition

/-! ## The threads -/

/-- `BUF_SIZE`. -/
def bufSize : ℕ := 65536

/-- An asynchronous operation, with the size of its buffer. -/
inductive CgiOp
  | writeSocket (size : ℕ)
  | readSocket (size : ℕ)
  | writeCgi (size : ℕ)
  | readCgi
  deriving DecidableEq

/-- The size of the buffer. -/
def CgiOp.size : CgiOp → ℕ
  | writeSocket size | readSocket size | writeCgi size => size
  | readCgi => bufSize

/-- What a handler is given, and what `m_cgi.is_running` says in it. -/
structure CgiResult where
  error : Bool
  size : ℕ
  isRunning : Bool
  deriving DecidableEq

/-- Where the thread of the `io_context` is. -/
inductive IoThread
  /-- In no handler. -/
  | idle
  /-- At the beginning of a handler. -/
  | entered (op : CgiOp) (r : CgiResult)
  /-- At the beginning of the function that starts an operation. -/
  | starting (op : CgiOp)
  /-- Behind its `++m_counter`. -/
  | counted (op : CgiOp)
  /-- Before the test of `m_counter`. -/
  | testing
  /-- Before `m_condition.notify_one`. -/
  | notifying
  deriving DecidableEq

/-- Where the worker is in `call`, once the program has been started. -/
inductive Worker
  /-- At the beginning of the function that starts an operation. -/
  | starting (op : CgiOp)
  /-- Behind its `++m_counter`. -/
  | counted (op : CgiOp)
  /-- Before `read_body`. -/
  | readBody
  /-- In `m_cgi.join`. -/
  | joining
  /-- Before the test of `m_counter`. -/
  | testing
  /-- Between the test and `m_condition.wait`. -/
  | locking
  /-- In `m_condition.wait`. -/
  | waiting
  /-- Behind the test and the wait. -/
  | leaving
  | left
  deriving DecidableEq

/-- A call of `cgi_service::call`: `m_content_length`, `m_tcp_buf_size`, `m_counter`, the operations that have been
started and whose handlers have not, and the two threads. -/
structure CgiCall where
  contentLength : UInt64
  tcpBufSize : ℕ
  counter : ℕ
  pending : List CgiOp
  io : IoThread
  worker : Worker
  deriving DecidableEq

/-- Whether the thread of the `io_context` is between an `++m_counter` and the start of the operation, or between its
end and the `--m_counter`. -/
def IoThread.count : IoThread → ℕ
  | .entered _ _ | .counted _ => 1
  | _ => 0

/-- Whether the worker is between an `++m_counter` and the start of the operation. -/
def Worker.count : Worker → ℕ
  | .counted _ => 1
  | _ => 0

namespace CgiCall

/-- Behind `m_cgi.start`. -/
def new (contentLength : UInt64) (tcpBufSize : ℕ) : CgiCall :=
  ⟨contentLength, tcpBufSize, 0, [], .idle, .starting .readCgi⟩

/-- `m_content_length -= size`. -/
def subContentLength (s : CgiCall) (size : ℕ) : CgiCall :=
  { s with contentLength := s.contentLength - UInt64.ofNat size }

/-- The operation that `async_read_socket` starts, if any. -/
def asyncReadSocket (s : CgiCall) : Option CgiOp :=
  if s.contentLength.toNat > s.tcpBufSize then some (.readSocket s.tcpBufSize)
  else if s.contentLength.toNat = 0 then none
  else some (.readSocket s.contentLength.toNat)

/-! ## Steps -/

/-- The thread of the `io_context` goes on to there. -/
def ioTo (s : CgiCall) (io : IoThread) : CgiCall := { s with io }

/-- The handler of `async_write_socket`, behind its `--m_counter`. -/
def onWriteSocket (s : CgiCall) (r : CgiResult) (size : ℕ) : CgiCall :=
  if r.error then s.ioTo .testing
  else if r.size < size then s.ioTo (.starting (.writeSocket (size - r.size)))
  else s.ioTo (.starting .readCgi)

/-- The handler of `async_read_socket`. -/
def onReadSocket (s : CgiCall) (r : CgiResult) : CgiCall :=
  if r.error || r.size = 0 || !r.isRunning then s.ioTo .testing
  else (s.subContentLength r.size).ioTo (.starting (.writeCgi r.size))

/-- The handler of `async_write_cgi`. -/
def onWriteCgi (s : CgiCall) (r : CgiResult) (size : ℕ) : CgiCall :=
  if r.error then s.ioTo .testing
  else if r.size < size then s.ioTo (.starting (.writeCgi (size - r.size)))
  else if s.contentLength.toNat > 0 then
    match s.asyncReadSocket with
    | some op => s.ioTo (.starting op)
    | none => s.ioTo .idle
  else s.ioTo .testing

/-- The handler of `async_read_cgi`. -/
def onReadCgi (s : CgiCall) (r : CgiResult) : CgiCall :=
  if r.size > 0 then s.ioTo (.starting (.writeSocket r.size)) else s.ioTo .testing

/-- What a handler does behind its `--m_counter`, up to the next step that concerns the other thread. -/
def handle (s : CgiCall) (r : CgiResult) : CgiOp → CgiCall
  | .writeSocket size => s.onWriteSocket r size
  | .readSocket _ => s.onReadSocket r
  | .writeCgi size => s.onWriteCgi r size
  | .readCgi => s.onReadCgi r

/-- A step of the thread of the `io_context`. -/
def ioStep (s : CgiCall) : CgiCall :=
  match s.io with
  | .idle => s
  | .entered op r => handle { s with counter := s.counter - 1 } r op
  | .starting op => { s with counter := s.counter + 1, io := .counted op }
  | .counted op => { s with pending := op :: s.pending, io := .idle }
  | .testing => s.ioTo (if s.counter = 0 then .notifying else .idle)
  | .notifying => { s with io := .idle, worker := if s.worker = .waiting then .leaving else s.worker }

/-- A step of the worker; `res` is what `read_body` returns. -/
def workerStep (s : CgiCall) (res : ℕ) : CgiCall :=
  match s.worker with
  | .starting op => { s with counter := s.counter + 1, worker := .counted op }
  | .counted op =>
    { s with pending := op :: s.pending, worker := if op = .readCgi then .readBody else .joining }
  | .readBody =>
    if res > 0 then { s.subContentLength res with worker := .starting (.writeCgi res) }
    else
      match s.asyncReadSocket with
      | some op => { s with worker := .starting op }
      | none => { s with worker := .joining }
  | .joining => { s with worker := .testing }
  | .testing => { s with worker := if s.counter > 0 then .locking else .leaving }
  | .locking => { s with worker := .waiting }
  | .waiting => s
  | .leaving => { s with worker := .left }
  | .left => s

/-- What happens. -/
inductive CgiEvent
  /-- The worker goes on. -/
  | worker (res : ℕ)
  /-- The handler goes on. -/
  | io
  /-- An operation completes, and its handler is called. -/
  | complete (op : CgiOp) (r : CgiResult)
  /-- The wait ends without a notification. -/
  | spurious
  deriving DecidableEq

/-- The worker does not go on from its wait by itself, and `join` may return at any time. -/
def Enabled (s : CgiCall) : CgiEvent → Prop
  | .worker res => s.worker ≠ .waiting ∧ s.worker ≠ .left ∧ res ≤ s.tcpBufSize
  | .io => s.io ≠ .idle
  | .complete op r => s.io = .idle ∧ op ∈ s.pending ∧ r.size ≤ op.size
  | .spurious => s.worker = .waiting

instance (s : CgiCall) (e : CgiEvent) : Decidable (s.Enabled e) := by
  cases e <;> unfold Enabled <;> infer_instance

/-- What becomes of the call. -/
def next (s : CgiCall) : CgiEvent → CgiCall
  | .worker res => s.workerStep res
  | .io => s.ioStep
  | .complete op r => { s with pending := s.pending.erase op, io := .entered op r }
  | .spurious => { s with worker := .leaving }

/-- A call, in every interleaving. -/
def system (contentLength : UInt64) (tcpBufSize : ℕ) : System CgiCall CgiEvent :=
  ⟨new contentLength tcpBufSize, Enabled, next⟩

instance (contentLength : UInt64) (tcpBufSize : ℕ) (s : CgiCall) (e : CgiEvent) :
    Decidable ((system contentLength tcpBufSize).Enabled s e) := inferInstanceAs (Decidable (s.Enabled e))

/-! ## What the wait is for -/

/-- An operation is in flight: started, or in its handler. -/
def InFlight (s : CgiCall) : Prop := s.pending ≠ [] ∨ s.io ≠ .idle

instance (s : CgiCall) : Decidable s.InFlight := inferInstanceAs (Decidable (_ ∨ _))

/-- The worker does not wait for ever, and does not leave operations behind. -/
structure Sound (s : CgiCall) : Prop where
  wait : ¬(s.worker = .waiting ∧ s.counter = 0 ∧ ¬s.InFlight)
  leave : s.worker = .left → ¬s.InFlight

/-- The worker does not find the counter 0 while a handler runs.  A notification does not come between its test and
its wait, unless there is another operation, and does not reach it when an operation has been started meanwhile.  The
wait does not end without a notification. -/
def Timely (s : CgiCall) : CgiEvent → Prop
  | .worker _ => s.worker = .testing → s.counter = 0 → s.io = .idle
  | .io => s.io = .notifying → (s.worker = .locking → s.counter ≠ 0) ∧ (s.worker = .waiting → s.counter = 0)
  | .complete _ _ => True
  | .spurious => False

/-- The counter agrees with the operations.  A worker that is about to wait has something to wait for, and one that
leaves leaves nothing behind. -/
structure Counts (s : CgiCall) : Prop where
  counter : s.counter = s.pending.length + s.io.count + s.worker.count
  wait : s.worker = .locking ∨ s.worker = .waiting → s.InFlight
  leave : s.worker = .leaving ∨ s.worker = .left → ¬s.InFlight

theorem counts_new (contentLength : UInt64) (tcpBufSize : ℕ) : (new contentLength tcpBufSize).Counts where
  counter := rfl
  wait h := by rcases h with h | h <;> cases h
  leave h := by rcases h with h | h <;> cases h

theorem Counts.sound {s : CgiCall} (H : s.Counts) : s.Sound where
  wait h := h.2.2 (H.wait (.inr h.1))
  leave h := H.leave (.inr h)

/-- Where a handler goes: it tests the counter or starts an operation, and leaves the rest alone. -/
structure Goes (s s' : CgiCall) : Prop where
  counter : s'.counter = s.counter
  pending : s'.pending = s.pending
  worker : s'.worker = s.worker
  io : s'.io = .testing ∨ ∃ op, s'.io = .starting op

theorem goes_testing (s : CgiCall) : Goes s (s.ioTo .testing) := ⟨rfl, rfl, rfl, .inl rfl⟩

theorem goes_starting (s : CgiCall) (op : CgiOp) : Goes s (s.ioTo (.starting op)) := ⟨rfl, rfl, rfl, .inr ⟨op, rfl⟩⟩

theorem goes_handle (s : CgiCall) (r : CgiResult) (op : CgiOp) : Goes s (s.handle r op) := by
  cases op with
  | writeSocket size =>
    rw [handle, onWriteSocket]
    split_ifs
    · exact goes_testing s
    · exact goes_starting s _
    · exact goes_starting s _
  | readSocket size =>
    rw [handle, onReadSocket]
    split_ifs
    · exact goes_testing s
    · exact ⟨rfl, rfl, rfl, .inr ⟨_, rfl⟩⟩
  | writeCgi size =>
    have hsome : s.contentLength.toNat > 0 → ∃ op, s.asyncReadSocket = some op := by
      intro hpos
      unfold asyncReadSocket
      split_ifs with _ hzero
      · exact ⟨_, rfl⟩
      · omega
      · exact ⟨_, rfl⟩
    rw [handle, onWriteCgi]
    split_ifs with _ _ hpos
    · exact goes_testing s
    · exact goes_starting s _
    · obtain ⟨op, hop⟩ := hsome hpos
      rw [hop]
      exact goes_starting s op
    · exact goes_testing s
  | readCgi =>
    rw [handle, onReadCgi]
    split_ifs
    · exact goes_starting s _
    · exact goes_testing s

/-- While a handler runs, the worker cannot have left: what is left to show of the next state. -/
theorem Counts.stays {s s' : CgiCall} (H : s.Counts) (hio : s.io ≠ .idle) (hworker : s'.worker = s.worker)
    (hin : s'.InFlight) (hcounter : s'.counter = s'.pending.length + s'.io.count + s'.worker.count) : s'.Counts where
  counter := hcounter
  wait _ := hin
  leave h := absurd (.inr hio) (H.leave (hworker ▸ h))

theorem ioStep_notifying {s : CgiCall} (h : s.io = .notifying) :
    s.ioStep = { s with io := .idle, worker := if s.worker = .waiting then .leaving else s.worker } := by
  rw [CgiCall.ioStep, h]

/-- A step of a **handler**. -/
theorem Counts.ioStep {s : CgiCall} (H : s.Counts) (hio : s.io ≠ .idle) (hok : s.Timely .io) : s.ioStep.Counts := by
  have hcount := H.counter
  cases h : s.io with
  | idle => exact absurd h hio
  | entered op r =>
    have hgoes := goes_handle { s with counter := s.counter - 1 } r op
    have hstep : s.ioStep = handle { s with counter := s.counter - 1 } r op := by rw [CgiCall.ioStep, h]
    have hnot : s.ioStep.io ≠ .idle ∧ s.ioStep.io.count = 0 := by
      rw [hstep]
      rcases hgoes.io with hgo | ⟨op', hgo⟩ <;> rw [hgo] <;> exact ⟨nofun, rfl⟩
    rw [← hstep] at hgoes
    refine H.stays hio hgoes.worker (.inr hnot.1) ?_
    rw [h] at hcount
    simp only [IoThread.count] at hcount
    rw [hgoes.counter, hgoes.pending, hgoes.worker, hnot.2]
    dsimp only
    omega
  | starting op =>
    have hstep : s.ioStep = { s with counter := s.counter + 1, io := .counted op } := by rw [CgiCall.ioStep, h]
    rw [hstep]
    refine H.stays hio rfl (.inr nofun) ?_
    rw [h] at hcount
    simp only [IoThread.count] at hcount ⊢
    omega
  | counted op =>
    have hstep : s.ioStep = { s with pending := op :: s.pending, io := .idle } := by rw [CgiCall.ioStep, h]
    rw [hstep]
    refine H.stays hio rfl (.inl (List.cons_ne_nil op s.pending)) ?_
    rw [h] at hcount
    simp only [IoThread.count, List.length_cons] at hcount ⊢
    omega
  | testing =>
    have hstep : s.ioStep = s.ioTo (if s.counter = 0 then .notifying else .idle) := by rw [CgiCall.ioStep, h]
    rw [hstep]
    rw [h] at hcount
    by_cases hzero : s.counter = 0
    · rw [if_pos hzero]
      exact H.stays hio rfl (.inr nofun) hcount
    · rw [if_neg hzero]
      refine ⟨hcount, fun hwait => .inl fun hnil => ?_, fun hleave => absurd (.inr hio) (H.leave hleave)⟩
      -- the counter is not 0, and it counts neither of the threads
      have hworker : s.worker.count = 0 := by
        rcases hwait with hwait | hwait <;> rw [show s.worker = _ from hwait] <;> rfl
      rw [show s.pending = [] from hnil, hworker] at hcount
      exact hzero hcount
  | notifying =>
    obtain ⟨hlocking, hwaiting⟩ := hok h
    rw [ioStep_notifying h]
    rw [h] at hcount
    by_cases hw : s.worker = .waiting
    · have hnil : s.pending = [] := by
        rw [hwaiting hw, hw] at hcount
        exact List.eq_nil_of_length_eq_zero hcount.symm
      rw [if_pos hw]
      rw [hw] at hcount
      refine ⟨hcount, fun hwait => ?_, fun _ hin => ?_⟩
      · rcases hwait with hwait | hwait <;> cases hwait
      · exact hin.elim (fun h => h hnil) fun h => h rfl
    · rw [if_neg hw]
      refine ⟨hcount, fun hwait => .inl fun hnil => ?_, fun hleave => absurd (.inr hio) (H.leave hleave)⟩
      rcases hwait with hwait | hwait
      · rw [show s.pending = [] from hnil, show s.worker = _ from hwait] at hcount
        exact hlocking hwait hcount
      · exact hw hwait

/-- A step of the **worker**. -/
theorem Counts.workerStep {s : CgiCall} (H : s.Counts) (hwait : s.worker ≠ .waiting) {res : ℕ}
    (hok : s.Timely (.worker res)) : (s.workerStep res).Counts := by
  have hcount := H.counter
  have hother : ∀ {s' : CgiCall}, s'.counter = s'.pending.length + s'.io.count + s'.worker.count →
      (s'.worker ≠ .locking ∧ s'.worker ≠ .waiting ∧ s'.worker ≠ .leaving ∧ s'.worker ≠ .left) → s'.Counts := by
    intro s' hcounter ⟨h₁, h₂, h₃, h₄⟩
    exact ⟨hcounter, fun h => h.elim (absurd · h₁) (absurd · h₂), fun h => h.elim (absurd · h₃) (absurd · h₄)⟩
  cases h : s.worker with
  | starting op =>
    have hstep : s.workerStep res = { s with counter := s.counter + 1, worker := .counted op } := by
      rw [CgiCall.workerStep, h]
    rw [hstep]
    rw [h] at hcount
    exact hother (congrArg (· + 1) hcount) ⟨nofun, nofun, nofun, nofun⟩
  | counted op =>
    have hstep : s.workerStep res =
        { s with pending := op :: s.pending, worker := if op = .readCgi then .readBody else .joining } := by
      rw [CgiCall.workerStep, h]
    rw [hstep]
    rw [h] at hcount
    refine hother ?_ ?_
    · simp only [Worker.count, List.length_cons] at hcount ⊢
      split_ifs <;> simp only <;> omega
    · split_ifs <;> exact ⟨nofun, nofun, nofun, nofun⟩
  | readBody =>
    rw [h] at hcount
    rw [CgiCall.workerStep, h]
    dsimp only
    split_ifs
    · exact hother hcount ⟨nofun, nofun, nofun, nofun⟩
    · cases s.asyncReadSocket with
      | some op => exact hother hcount ⟨nofun, nofun, nofun, nofun⟩
      | none => exact hother hcount ⟨nofun, nofun, nofun, nofun⟩
  | joining =>
    have hstep : s.workerStep res = { s with worker := .testing } := by rw [CgiCall.workerStep, h]
    rw [hstep]
    rw [h] at hcount
    exact hother hcount ⟨nofun, nofun, nofun, nofun⟩
  | testing =>
    have hstep : s.workerStep res = { s with worker := if s.counter > 0 then .locking else .leaving } := by
      rw [CgiCall.workerStep, h]
    rw [hstep]
    rw [h] at hcount
    by_cases hpos : s.counter > 0
    · rw [if_pos hpos]
      refine ⟨hcount, fun _ => ?_, fun hleave => hleave.elim nofun nofun⟩
      by_contra hnot
      obtain ⟨hnil, hidle⟩ := not_or.mp hnot
      rw [show s.pending = [] from not_not.mp hnil, show s.io = .idle from not_not.mp hidle] at hcount
      exact Nat.pos_iff_ne_zero.mp hpos hcount
    · have hzero : s.counter = 0 := by omega
      have hidle := hok h hzero
      rw [if_neg hpos]
      refine ⟨hcount, fun hwait => hwait.elim nofun nofun, fun _ hin => ?_⟩
      rw [hzero, hidle] at hcount
      exact hin.elim (fun hne => hne (List.eq_nil_of_length_eq_zero hcount.symm)) fun hne => hne hidle
  | locking =>
    have hstep : s.workerStep res = { s with worker := .waiting } := by rw [CgiCall.workerStep, h]
    rw [hstep]
    rw [h] at hcount
    exact ⟨hcount, fun _ => H.wait (.inl h), fun hleave => hleave.elim nofun nofun⟩
  | waiting => exact absurd h hwait
  | leaving =>
    have hstep : s.workerStep res = { s with worker := .left } := by rw [CgiCall.workerStep, h]
    rw [hstep]
    rw [h] at hcount
    exact ⟨hcount, fun hwait => hwait.elim nofun nofun, fun _ => H.leave (.inl h)⟩
  | left =>
    have hstep : s.workerStep res = s := by rw [CgiCall.workerStep, h]
    rw [hstep]
    exact H

/-- **One step** that is timely. -/
theorem Counts.next {s : CgiCall} (H : s.Counts) {e : CgiEvent} (he : s.Enabled e) (hok : s.Timely e) :
    (s.next e).Counts := by
  cases e with
  | worker res => exact H.workerStep he.1 hok
  | io => exact H.ioStep he hok
  | complete op r =>
    obtain ⟨hidle, hop, -⟩ := he
    have hcount := H.counter
    have hlen := List.length_pos_of_mem hop
    refine ⟨?_, fun _ => .inr nofun, fun hleave => ?_⟩
    · rw [hidle] at hcount
      simp only [CgiCall.next, IoThread.count, List.length_erase_of_mem hop] at hcount ⊢
      omega
    · exact absurd (.inl (List.ne_nil_of_mem hop)) (H.leave hleave)
  | spurious => exact hok.elim

/-- A step that is **not timely**: the next step of the worker ends in a state that is not sound. -/
theorem Counts.not_sound {s : CgiCall} (H : s.Counts) {e : CgiEvent} (he : s.Enabled e) (hok : ¬s.Timely e) :
    (s.next e).Enabled (.worker 0) ∧ ¬((s.next e).next (.worker 0)).Sound := by
  have hcount := H.counter
  -- a worker that is leaving with an operation in flight
  have hleaves : ∀ {s' : CgiCall}, s'.worker = .leaving → s'.InFlight →
      s'.Enabled (.worker 0) ∧ ¬(s'.next (.worker 0)).Sound := by
    intro s' h hin
    have hstep : s'.next (.worker 0) = { s' with worker := .left } := by rw [CgiCall.next, CgiCall.workerStep, h]
    refine ⟨⟨by rw [h]; nofun, by rw [h]; nofun, Nat.zero_le _⟩, fun hsound => ?_⟩
    rw [hstep] at hsound
    exact hsound.leave rfl hin
  cases e with
  | worker res =>
    simp only [Timely, Classical.not_imp] at hok
    obtain ⟨h, hzero, hio⟩ := hok
    have hstep : s.next (.worker res) = { s with worker := .leaving } := by
      rw [CgiCall.next, CgiCall.workerStep, h, hzero]
      rfl
    rw [hstep]
    exact hleaves rfl (.inr hio)
  | io =>
    simp only [Timely, Classical.not_imp, not_and_or] at hok
    obtain ⟨h, ⟨hw, hzero⟩ | ⟨hw, hzero⟩⟩ := hok
    · have hstep : s.next .io = { s with io := .idle } := by
        rw [CgiCall.next, ioStep_notifying h, if_neg (by rw [hw]; nofun)]
      have hstep' : (s.next .io).next (.worker 0) = { s with io := .idle, worker := .waiting } := by
        rw [hstep, CgiCall.next, CgiCall.workerStep, hw]
      rw [h, hw, not_not.mp hzero] at hcount
      have hnil : s.pending = [] := List.eq_nil_of_length_eq_zero hcount.symm
      rw [hstep', hstep]
      refine ⟨⟨by rw [hw]; nofun, by rw [hw]; nofun, Nat.zero_le _⟩, fun hsound => hsound.wait ?_⟩
      exact ⟨rfl, not_not.mp hzero, fun hin => hin.elim (fun hne => hne hnil) fun hne => hne rfl⟩
    · have hstep : s.next .io = { s with io := .idle, worker := .leaving } := by
        rw [CgiCall.next, ioStep_notifying h, if_pos hw]
      rw [h, hw] at hcount
      rw [hstep]
      refine hleaves rfl (.inl fun hnil => hzero ?_)
      rw [show s.pending = [] from hnil] at hcount
      exact hcount
  | complete op r => exact absurd trivial hok
  | spurious => exact hleaves rfl (H.wait (.inr he))

/-! ## Every interleaving -/

/-- **The wait**, over a call: as long as all steps are timely, the worker neither waits for nothing nor leaves an
operation behind, and every step that is not timely leads to a state in which it does. -/
theorem cgiCall_sound (contentLength : UInt64) (tcpBufSize : ℕ) :
    (∀ s, ((system contentLength tcpBufSize).restrict Timely).Reachable s → s.Sound) ∧
    ∀ s, ((system contentLength tcpBufSize).restrict Timely).Reachable s → ∀ e, s.Enabled e → ¬s.Timely e →
      (s.next e).Enabled (.worker 0) ∧ ¬((s.next e).next (.worker 0)).Sound := by
  have hinv : ∀ s, ((system contentLength tcpBufSize).restrict Timely).Reachable s → s.Counts := fun s hs =>
    System.Reachable.inv (S := (system contentLength tcpBufSize).restrict Timely) (counts_new _ _)
      (fun s e H (he : s.Enabled e ∧ s.Timely e) => Counts.next H he.1 he.2) hs
  exact ⟨fun s hs => (hinv s hs).sound, fun s hs e he hok => (hinv s hs).not_sound he hok⟩

/-- The last handler ends between the test and the wait of the worker, which waits for ever; or the worker tests the
counter between a handler and the operation that it starts, and leaves that operation behind. -/
theorem not_sound_lastHandler :
    (¬∀ s, (system 0 1024).Reachable s → ¬(s.worker = .waiting ∧ s.counter = 0 ∧ ¬s.InFlight)) ∧
    ¬∀ s, (system 0 1024).Reachable s → s.worker = .left → ¬s.InFlight := by
  refine ⟨fun hall => ?_, fun hall => ?_⟩
  · have hreplay : (system 0 1024).replay (new 0 1024)
        [.worker 0, .worker 0, .worker 0, .worker 0, .complete .readCgi ⟨false, 0, false⟩, .worker 0, .io, .io, .io,
          .worker 0] = some ⟨0, 1024, 0, [], .idle, .waiting⟩ := by decide
    exact hall _ (System.reachable_of_replay hreplay) ⟨rfl, rfl, by decide⟩
  · have hreplay : (system 0 1024).replay (new 0 1024)
        [.worker 0, .worker 0, .worker 0, .worker 0, .complete .readCgi ⟨false, 5, true⟩, .io, .worker 0, .io, .io,
          .worker 0] = some ⟨0, 1024, 1, [.writeSocket 5], .idle, .left⟩ := by decide
    exact hall _ (System.reachable_of_replay hreplay) rfl (by decide)

end CgiCall

end Gts3.Web
