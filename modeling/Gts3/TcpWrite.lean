import Gts3.TcpSocket
import Mathlib.Logic.Function.Iterate

/-!
# `gts/tcp_socket.cpp`: `write_some` and `async_write_some`

Both send a whole buffer in as many writes as asio needs.  The synchronous loop adds the sizes up
(`writeSomeData_eq`); each asynchronous write forgets those before it, so the callback is given the size of the last
one, and the two agree when the first write takes everything (`deliversTotal_iff`).
-/

namespace Gts3

open Lib.Cxx

/-! ## Synchronous writes -/

/-- The loop of `write_some(buf, size, error)`, with `counter`: what it returns, whether there is an error. -/
def writeSomeLoop (script : WriteScript) (buf : Bytes) (counter : ℕ) (wire : Wire) : ℕ × Bool × Wire :=
  if _h : buf = [] then (counter, false, wire)
  else
    let res := script.size wire.writes buf.length
    if _herr : script.failed wire.writes = true then
      (if res > 0 then counter + res else counter, true, script.write buf wire)
    else writeSomeLoop script (buf.drop res) (counter + res) (script.write buf wire)
termination_by buf.length
decreasing_by
  have hpos := List.length_pos_iff.mpr _h
  have := script.size_pos wire.writes buf.length hpos (by simpa using _herr)
  rw [List.length_drop]
  omega

/-- `write_some(buf, size, error)`, where the calls of `non_blocking(false, error)` fail as `blocking` says. -/
def writeSomeData (script : WriteScript) (blocking : ℕ → Bool) (buf : Bytes) (wire : Wire) : ℕ × Bool × Wire :=
  if blocking 0 then (0, true, wire) else writeSomeLoop script buf 0 wire

/-- `write_some(buf, error)`, for a string. -/
def writeSomeString (script : WriteScript) (blocking : ℕ → Bool) (buf : Bytes) (wire : Wire) : ℕ × Bool × Wire :=
  if blocking 0 then (0, true, wire) else writeSomeData script (fun k => blocking (k + 1)) buf wire

theorem writeSomeLoop_spec (script : WriteScript) (hok : ∀ k, script.failed k = false) (buf : Bytes) (counter : ℕ)
    (wire : Wire) :
    ∃ wire', writeSomeLoop script buf counter wire = (counter + buf.length, false, wire') ∧
      wire'.received = wire.received ++ buf := by
  induction hn : buf.length using Nat.strong_induction_on generalizing buf counter wire with
  | _ n ih =>
    subst hn
    rw [writeSomeLoop]
    by_cases hbuf : buf = []
    · subst hbuf
      exact ⟨wire, by simp, by simp⟩
    · have hle := script.size_le wire.writes buf.length
      have hpos := script.size_pos wire.writes buf.length (List.length_pos_iff.mpr hbuf) (hok _)
      have hlen : (buf.drop (script.size wire.writes buf.length)).length =
          buf.length - script.size wire.writes buf.length := List.length_drop
      obtain ⟨wire', heq, hreceived⟩ := ih _ (by omega) _ (counter + script.size wire.writes buf.length)
        (script.write buf wire) hlen
      refine ⟨wire', ?_, ?_⟩
      · rw [dif_neg hbuf, dif_neg (by simp [hok]), heq]
        congr 1
        omega
      · rw [hreceived, WriteScript.write, List.append_assoc, List.take_append_drop]

/-- **The synchronous write** returns the size of the buffer, and the peer gets its bytes. -/
theorem writeSomeData_eq (script : WriteScript) (hok : ∀ k, script.failed k = false) {blocking : ℕ → Bool}
    (hblocking : ∀ k, blocking k = false) (buf : Bytes) (wire : Wire) :
    ∃ wire', writeSomeData script blocking buf wire = (buf.length, false, wire') ∧
      wire'.received = wire.received ++ buf := by
  obtain ⟨wire', heq, hreceived⟩ := writeSomeLoop_spec script hok buf 0 wire
  refine ⟨wire', ?_, hreceived⟩
  rw [writeSomeData, if_neg (by simp [hblocking]), heq, Nat.zero_add]

theorem writeSomeString_eq (script : WriteScript) (hok : ∀ k, script.failed k = false) {blocking : ℕ → Bool}
    (hblocking : ∀ k, blocking k = false) (buf : Bytes) (wire : Wire) :
    ∃ wire', writeSomeString script blocking buf wire = (buf.length, false, wire') ∧
      wire'.received = wire.received ++ buf := by
  rw [writeSomeString, if_neg (by simp [hblocking])]
  exact writeSomeData_eq script hok (fun k => hblocking (k + 1)) buf wire

/-! ## Asynchronous writes, one completion after the other -/

/-- The write in progress, with what it still has to send: the overload it belongs to captures a string or a pointer
and a size. -/
inductive PendingWrite
  | string (buf : Bytes)
  | data (buf : Bytes)
  deriving DecidableEq, Repr

def PendingWrite.buf : PendingWrite → Bytes
  | .string buf => buf
  | .data buf => buf

/-- An asynchronous write: what is in progress, and the calls of the callback so far. -/
structure AsyncWrite where
  pending : Option PendingWrite
  calls : List (Bool × ℕ)
  wire : Wire
  deriving DecidableEq, Repr

namespace AsyncWrite

/-- `async_write_some`: the first write has been started. -/
def start (p : PendingWrite) (wire : Wire) : AsyncWrite := ⟨some p, [], wire⟩

/-- The handler of a write that has completed.  Both overloads continue with the one for a pointer. -/
def complete (script : WriteScript) (op : AsyncWrite) : AsyncWrite :=
  match op.pending with
  | none => op
  | some p =>
    let error := script.failed op.wire.writes
    let rsize := script.size op.wire.writes p.buf.length
    if error = true ∨ rsize ≥ p.buf.length then ⟨none, op.calls ++ [(error, rsize)], script.write p.buf op.wire⟩
    else ⟨some (.data (p.buf.drop rsize)), op.calls, script.write p.buf op.wire⟩

@[simp] theorem complete_none (script : WriteScript) (calls : List (Bool × ℕ)) (wire : Wire) :
    complete script ⟨none, calls, wire⟩ = ⟨none, calls, wire⟩ := rfl

/-- **The callback is called once**, with what `asyncWriteSome` says. -/
theorem complete_iterate (script : WriteScript) (hok : ∀ k, script.failed k = false) (p : PendingWrite)
    (calls : List (Bool × ℕ)) (wire : Wire) :
    ∃ n, (complete script)^[n] ⟨some p, calls, wire⟩ =
      ⟨none, calls ++ [((asyncWriteSome script p.buf wire).1, (asyncWriteSome script p.buf wire).2.1)],
        (asyncWriteSome script p.buf wire).2.2⟩ := by
  induction hn : p.buf.length using Nat.strong_induction_on generalizing p wire with
  | _ n ih =>
    subst hn
    rw [asyncWriteSome]
    by_cases hlast : script.failed wire.writes = true ∨ script.size wire.writes p.buf.length ≥ p.buf.length
    · refine ⟨1, ?_⟩
      rw [dif_pos hlast, Function.iterate_one, complete]
      exact if_pos hlast
    · rw [dif_neg hlast]
      have hshort := (not_or.mp hlast).2
      have hpos := script.size_pos wire.writes p.buf.length (by omega) (hok _)
      obtain ⟨n, hrun⟩ := ih (PendingWrite.data (p.buf.drop (script.size wire.writes p.buf.length))).buf.length
        (by rw [PendingWrite.buf, List.length_drop]; omega) _ (script.write p.buf wire) rfl
      refine ⟨n + 1, ?_⟩
      rw [Function.iterate_succ_apply]
      have hstep : complete script ⟨some p, calls, wire⟩ =
          ⟨some (.data (p.buf.drop (script.size wire.writes p.buf.length))), calls, script.write p.buf wire⟩ := by
        rw [complete]
        exact if_neg hlast
      rw [hstep, hrun]
      rfl

theorem complete_iterate_none (script : WriteScript) (calls : List (Bool × ℕ)) (wire : Wire) (n : ℕ) :
    (complete script)^[n] ⟨none, calls, wire⟩ = ⟨none, calls, wire⟩ :=
  Function.iterate_fixed (complete_none script calls wire) n

/-- In the end, and from then on, the callback has been called once, without an error and with `total`, and the peer
has got the buffer. -/
def DeliversTotal (script : WriteScript) (p : PendingWrite) (wire : Wire) (total : ℕ) : Prop :=
  ∃ n, ∀ m ≥ n, ((complete script)^[m] (start p wire)).calls = [(false, total)] ∧
    ((complete script)^[m] (start p wire)).wire.received = wire.received ++ p.buf

/-- **What is delivered** without errors: the buffer, and one call with the size of the last write. -/
theorem deliversTotal_last (script : WriteScript) (hok : ∀ k, script.failed k = false) (p : PendingWrite)
    (wire : Wire) :
    ∃ size, DeliversTotal script p wire size ∧
      (size = p.buf.length ↔ script.size wire.writes p.buf.length = p.buf.length) := by
  obtain ⟨n, hrun⟩ := complete_iterate script hok p [] wire
  have hend : ∃ size wire', asyncWriteSome script p.buf wire = (false, size, wire') ∧
      wire'.received = wire.received ++ p.buf ∧
      (size = p.buf.length ↔ script.size wire.writes p.buf.length = p.buf.length) := by
    by_cases hbuf : p.buf = []
    · refine ⟨script.size wire.writes 0, script.write [] wire, ?_, ?_, ?_⟩
      · rw [hbuf, asyncWriteSome, dif_pos (Or.inr (by simp)), hok]
        rfl
      · rw [hbuf, WriteScript.write, List.take_nil]
      · rw [hbuf, List.length_nil]
    · obtain ⟨size, wire', heq, hreceived, -, -, hiff, -⟩ := asyncWriteSome_spec script hok hbuf wire
      exact ⟨size, wire', heq, hreceived, hiff⟩
  obtain ⟨size, wire', heq, hreceived, hiff⟩ := hend
  refine ⟨size, ⟨n, fun m hm => ?_⟩, hiff⟩
  have hfinal : (complete script)^[m] (start p wire) = ⟨none, [(false, size)], wire'⟩ := by
    rw [show m = (m - n) + n by omega, Function.iterate_add_apply, start, hrun, heq]
    exact complete_iterate_none script _ _ _
  rw [hfinal]
  exact ⟨rfl, hreceived⟩

theorem DeliversTotal.unique {script : WriteScript} {p : PendingWrite} {wire : Wire} {size size' : ℕ}
    (h : DeliversTotal script p wire size) (h' : DeliversTotal script p wire size') : size = size' := by
  obtain ⟨n, hn⟩ := h
  obtain ⟨n', hn'⟩ := h'
  have hcalls := (hn (max n n') (le_max_left _ _)).1.symm.trans (hn' (max n n') (le_max_right _ _)).1
  simpa using hcalls

/-- **The callback's size against the total of the synchronous write**: they are the same, the size of the buffer,
exactly when the first write takes the whole buffer. -/
theorem deliversTotal_iff (script : WriteScript) (hok : ∀ k, script.failed k = false) (blocking : ℕ → Bool)
    (hblocking : ∀ k, blocking k = false) (buf : Bytes) (wire : Wire) :
    ((writeSomeData script blocking buf wire).1 = buf.length ∧
        (writeSomeString script blocking buf wire).1 = buf.length ∧
        DeliversTotal script (.data buf) wire (writeSomeData script blocking buf wire).1 ∧
        DeliversTotal script (.string buf) wire (writeSomeString script blocking buf wire).1) ↔
      script.size wire.writes buf.length = buf.length := by
  obtain ⟨_, hdata, -⟩ := writeSomeData_eq script hok hblocking buf wire
  obtain ⟨_, hstring, -⟩ := writeSomeString_eq script hok hblocking buf wire
  obtain ⟨size, hsize, hiff⟩ := deliversTotal_last script hok (.data buf) wire
  obtain ⟨size', hsize', hiff'⟩ := deliversTotal_last script hok (.string buf) wire
  rw [hdata, hstring]
  constructor
  · rintro ⟨-, -, h, -⟩
    exact hiff.mp (hsize.unique h)
  · intro h
    have heq := hiff.mpr h
    have heq' := hiff'.mpr h
    subst heq heq'
    exact ⟨rfl, rfl, hsize, hsize'⟩

/-- Every write takes all it is given. -/
def wholeWrites : WriteScript := ⟨fun _ n => n, fun _ => false, fun _ n => le_refl n, fun _ _ h _ => h⟩

theorem deliversTotal_wholeWrites :
    (∀ k, wholeWrites.failed k = false) ∧ DeliversTotal wholeWrites (.data [1, 2, 3]) ⟨[], 0⟩ 3 := by
  refine ⟨fun _ => rfl, ?_⟩
  have h := (deliversTotal_iff wholeWrites (fun _ => rfl) (fun _ => false) (fun _ => rfl) [1, 2, 3] ⟨[], 0⟩).mpr rfl
  rw [h.1] at h
  exact h.2.2.1

/-- Every write takes one byte. -/
def singleBytes : WriteScript :=
  ⟨fun _ n => min 1 n, fun _ => false, fun _ n => Nat.min_le_right 1 n, fun _ n h _ => by omega⟩

/-- Two bytes that go out one by one: the callback is told of one. -/
theorem not_deliversTotal_singleBytes :
    (∀ k, singleBytes.failed k = false) ∧
      ¬ DeliversTotal singleBytes (.data [1, 2]) ⟨[], 0⟩
        (writeSomeData singleBytes (fun _ => false) [1, 2] ⟨[], 0⟩).1 := by
  refine ⟨fun _ => rfl, ?_⟩
  rintro ⟨n, h⟩
  have htwo : (complete singleBytes)^[2] (start (.data [1, 2]) ⟨[], 0⟩) = ⟨none, [(false, 1)], ⟨[1, 2], 2⟩⟩ := by decide
  have hcalls := (h (n + 2) (by omega)).1
  have hblocking : ∀ k, (fun _ : ℕ => false) k = false := fun _ => rfl
  obtain ⟨_, hsync, -⟩ := writeSomeData_eq singleBytes (fun _ => rfl) hblocking [1, 2] ⟨[], 0⟩
  rw [Function.iterate_add_apply, htwo, complete_iterate_none, hsync] at hcalls
  simp at hcalls

end AsyncWrite

end Gts3
