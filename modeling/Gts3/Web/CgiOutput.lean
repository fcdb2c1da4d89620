import Gts3.TcpSocket

/-!
# `gts/web/service/cgi/service.cpp`: the output of a CGI program

`asyncReadCgi` passes what the program writes on to the client, a block after the other.  `tcp_socket::async_write_some`
goes on until a block has been written and reports the size of the last write, but `async_write_socket` takes that for
the size of all of them and writes what it believes to be missing: the client receives the output exactly when every
block goes out in one write (`received_iff`).
-/

namespace Gts3.Web

open Lib Lib.Cxx

theorem asyncWriteSome_pos (script : WriteScript) {buf : Bytes} (hbuf : buf ≠ []) (wire : Wire)
    (hok : (asyncWriteSome script buf wire).1 = false) : 0 < (asyncWriteSome script buf wire).2.1 := by
  induction hn : buf.length using Nat.strong_induction_on generalizing buf wire with
  | _ n ih =>
    subst hn
    have hpos := List.length_pos_iff.mpr hbuf
    rw [asyncWriteSome] at hok ⊢
    split_ifs at hok ⊢ with h
    · exact script.size_pos _ _ hpos hok
    · rw [not_or, not_le] at h
      have := script.size_pos wire.writes buf.length hpos (by simpa using h.1)
      have hlen : (buf.drop (script.size wire.writes buf.length)).length < buf.length := by
        rw [List.length_drop]
        omega
      exact ih _ hlen (List.ne_nil_of_length_pos (by rw [List.length_drop]; omega)) _ hok rfl

namespace CgiService

/-- `cgi_service::async_write_socket`: whether there was an error, and what the client has received. -/
def asyncWriteSocket (script : WriteScript) (buf : Bytes) (wire : Wire) : Bool × Wire :=
  let r := asyncWriteSome script buf wire
  if _h : r.1 = false ∧ r.2.1 < buf.length then asyncWriteSocket script (buf.drop r.2.1) r.2.2
  else (r.1, r.2.2)
termination_by buf.length
decreasing_by
  have hlt : (asyncWriteSome script buf wire).2.1 < buf.length := _h.2
  have hpos := asyncWriteSome_pos script (List.ne_nil_of_length_pos (Nat.zero_lt_of_lt hlt)) wire _h.1
  rw [List.length_drop]
  omega

/-- `cgi_service::async_read_cgi`, for the blocks that are read from the program. -/
def asyncReadCgi (script : WriteScript) : List Bytes → Wire → Wire
  | [], wire => wire
  | block :: blocks, wire =>
    if block = [] then wire
    else match asyncWriteSocket script block wire with
      | (true, wire) => wire
      | (false, wire) => asyncReadCgi script blocks wire

/-! ## What the client receives -/

/-- The writes, from the `k`-th on, each take all of a block. -/
def TakesAll (script : WriteScript) : ℕ → List Bytes → Prop
  | _, [] => True
  | k, block :: blocks => script.size k block.length = block.length ∧ TakesAll script (k + 1) blocks

variable {script : WriteScript}

/-- **One block** reaches the client, and then some bytes of it again unless it went out in one write. -/
theorem asyncWriteSocket_spec (hok : ∀ k, script.failed k = false) {block : Bytes} (hblock : block ≠ []) (wire : Wire) :
    ∃ again wire', asyncWriteSocket script block wire = (false, wire') ∧
      wire'.received = wire.received ++ block ++ again ∧
      (again = [] ↔ script.size wire.writes block.length = block.length) ∧
      (again = [] → wire'.writes = wire.writes + 1) := by
  induction hn : block.length using Nat.strong_induction_on generalizing block wire with
  | _ n ih =>
    subst hn
    obtain ⟨size, wire', heq, hreceived, hpos, hle, hiff, hwrites⟩ := asyncWriteSome_spec script hok hblock wire
    rw [asyncWriteSocket, heq]
    by_cases hall : size = block.length
    · rw [dif_neg (by simp [hall])]
      exact ⟨[], wire', rfl, by rw [hreceived, List.append_nil], by simpa using hiff.mp hall, fun _ => hwrites hall⟩
    · -- the block is complete, and its end goes out once more
      have hlt : size < block.length := by omega
      rw [dif_pos ⟨rfl, hlt⟩]
      have hrest : block.drop size ≠ [] := List.ne_nil_of_length_pos (by rw [List.length_drop]; omega)
      obtain ⟨again, wire'', heq', hreceived', -, -⟩ :=
        ih _ (by rw [List.length_drop]; omega) hrest wire' rfl
      refine ⟨block.drop size ++ again, wire'', heq', by rw [hreceived', hreceived]; simp, ?_, fun h => ?_⟩
      · exact iff_of_false (by simp [hrest]) (mt hiff.mpr hall)
      · exact absurd (List.append_eq_nil_iff.mp h).1 hrest

theorem asyncReadCgi_length (hok : ∀ k, script.failed k = false) {blocks : List Bytes} (hblocks : ∀ b ∈ blocks, b ≠ [])
    (wire : Wire) :
    wire.received.length + blocks.flatten.length ≤ (asyncReadCgi script blocks wire).received.length := by
  induction blocks generalizing wire with
  | nil => simp [asyncReadCgi]
  | cons block blocks ih =>
    obtain ⟨again, wire', heq, hreceived, -, -⟩ := asyncWriteSocket_spec hok (hblocks block (by simp)) wire
    have hrest := ih (fun b hb => hblocks b (by simp [hb])) wire'
    rw [asyncReadCgi, if_neg (hblocks block (by simp)), heq]
    simp only [hreceived, List.length_append, List.flatten_cons] at hrest ⊢
    omega

/-- **The client receives the output** of the program if and only if every write takes all of its block. -/
theorem received_iff (hok : ∀ k, script.failed k = false) {blocks : List Bytes} (hblocks : ∀ b ∈ blocks, b ≠ [])
    (wire : Wire) :
    (asyncReadCgi script blocks wire).received = wire.received ++ blocks.flatten ↔
      TakesAll script wire.writes blocks := by
  induction blocks generalizing wire with
  | nil => simp [asyncReadCgi, TakesAll]
  | cons block blocks ih =>
    obtain ⟨again, wire', heq, hreceived, hagain, hwrites⟩ := asyncWriteSocket_spec hok (hblocks block (by simp)) wire
    have hrest : ∀ b ∈ blocks, b ≠ [] := fun b hb => hblocks b (by simp [hb])
    rw [asyncReadCgi, if_neg (hblocks block (by simp)), heq, TakesAll]
    simp only
    by_cases hall : script.size wire.writes block.length = block.length
    · have hnil := hagain.mpr hall
      have hih := ih hrest wire'
      rw [hwrites hnil, hreceived, hnil, List.append_nil, List.append_assoc, ← List.flatten_cons] at hih
      rw [hih]
      simp [hall]
    · refine iff_of_false (fun h => ?_) fun h => hall h.1
      have hlen := asyncReadCgi_length hok hrest wire'
      have hpos : 0 < again.length := List.length_pos_iff.mpr (mt hagain.mp hall)
      rw [h, hreceived] at hlen
      simp only [List.length_append, List.flatten_cons] at hlen
      omega

/-- A socket that takes at most `n` bytes at a time. -/
def atMost (n : ℕ) (hn : 0 < n) : WriteScript :=
  ⟨fun _ k => min n k, fun _ => false, fun _ k => Nat.min_le_right n k, fun _ _ hk _ => Nat.lt_min.mpr ⟨hn, hk⟩⟩

/-- Two small blocks. -/
theorem received_smallBlocks :
    (asyncReadCgi (atMost 4 (by decide)) [[1, 2, 3], [4]] ⟨[], 0⟩).received = [1, 2, 3, 4] :=
  (received_iff (fun _ => rfl) (by simp) _).mpr ⟨rfl, rfl, trivial⟩

/-- Two bytes that go out in two writes: the last one is sent twice. -/
theorem not_received_twoWrites :
    ¬ ∀ (script : WriteScript) (blocks : List Bytes), (∀ k, script.failed k = false) → (∀ b ∈ blocks, b ≠ []) →
      (asyncReadCgi script blocks ⟨[], 0⟩).received = blocks.flatten := by
  intro hall
  have h := hall (atMost 1 (by decide)) [[1, 2]] (fun _ => rfl) (by simp)
  have hreceived : (asyncReadCgi (atMost 1 (by decide)) [[1, 2]] ⟨[], 0⟩).received = [1, 2, 2] := by
    simp [asyncReadCgi, asyncWriteSocket, asyncWriteSome, atMost, WriteScript.write]
  rw [hreceived] at h
  exact absurd h (by decide)

end CgiService

end Gts3.Web
