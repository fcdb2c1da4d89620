import Gts3.Http.Segmentation

/-!
# The decoder of chunked bodies is a line machine

`chunkMachine` says what a line of a chunked body does; the loop of `read_body_chunked_mode` follows it
(`readChunkedLoop_eq`).  The declared size ends no data: it only says whether the line behind the next one is data
as well.
-/

namespace Gts3.Http

open Lib Lib.Search Lib.Cxx Lib.LineMachine Lib.HttpMessage

namespace Request

/-! ## What a line means -/

/-- A size line without its extension. -/
def withoutExtension (line : Bytes) : Bytes :=
  match find [59] line with
  | none => line
  | some pos => line.take pos

/-- The size on a size line. -/
def chunkSize (line : Bytes) : Option ℕ :=
  if (withoutExtension line).length > 16 then none else stoull 16 (withoutExtension line)

/-- What a line, without its line end, does. -/
def chunkLine (l : ChunkLoop) (line : Bytes) : ChunkStep :=
  match l.status with
  | .waitSize =>
    match chunkSize line with
    | none => .reset l
    | some size => .next { l with size, status := if size = 0 then .waitHeaders else .waitContent }
  | .waitContent =>
    .next { l with size := max l.size line.length, body := l.body ++ line,
                   status := if l.size < line.length then .waitContent else .waitSize }
  | .waitHeaders =>
    if line = [] then .stop { l with status := .chunkedEnd }
    else
      let (headers, cookies, good) := headerLine l.headers l.cookies (line ++ crlf)
      if good then .next { l with headers, cookies } else .reset { l with headers, cookies }
  | _ => .next l

theorem chunkStep_eq (l : ChunkLoop) (line : Bytes) :
    chunkStep l (line ++ crlf) line.length = .ok (chunkLine l line) := by
  obtain ⟨status, size, body, headers, cookies⟩ := l
  unfold chunkStep chunkLine
  cases status with
  | waitSize =>
    simp only [chunkSizeLine, List.take_left]
    rw [chunkSize, withoutExtension]
    cases find [59] line with
    | none =>
      simp only
      split_ifs
      · rfl
      · cases stoull 16 line <;> rfl
    | some pos =>
      simp only
      split_ifs
      · rfl
      · cases stoull 16 (line.take pos) <;> rfl
  | waitContent =>
    simp only [chunkContentLine, List.take_left]
    split_ifs with h
    · rw [Nat.max_eq_right h.le]
    · rw [Nat.max_eq_left (Nat.le_of_not_lt h)]
  | waitHeaders =>
    simp only [chunkTrailerLine, loadHeaderLine_eq, ok_bind]
    by_cases hl : line = []
    · rw [if_pos hl, if_pos (by rw [hl, List.nil_append])]
    · rw [if_neg hl, if_neg (by simpa using hl)]
  | length => rfl
  | chunkedEnd => rfl
  | finished => rfl

/-! ## The machine -/

/-- How the reading goes on; the result says whether it failed. -/
def ChunkStep.verdict : ChunkStep → Verdict ChunkLoop Bool
  | .next l => .next l
  | .stop l => .stop l false
  | .reset l => .stop l true

/-- The machine that decodes chunked bodies. -/
def chunkMachine : Machine UInt8 ChunkLoop Bool where
  delim := crlf
  borderless := borderless_crlf
  delim_ne_nil := crlf_ne_nil
  limit := 1024
  line := fun l line => (chunkLine l (line.take (line.length - 2))).verdict
  overlong := fun l => (l, some true)

@[simp] theorem chunkMachine_delim : chunkMachine.delim = crlf := rfl

@[simp] theorem chunkMachine_limit : chunkMachine.limit = 1024 := rfl

@[simp] theorem chunkMachine_line (l : ChunkLoop) (line : Bytes) :
    chunkMachine.line l (line ++ crlf) = (chunkLine l line).verdict := by
  simp [chunkMachine, crlf]

/-- **One line** of a chunked body. -/
theorem drain_chunkLine (l : ChunkLoop) {c : Bytes} (hc : find crlf c = none) (rest : Bytes) :
    drain chunkMachine l (c ++ crlf ++ rest) = match chunkLine l c with
      | .next l' => drain chunkMachine l' rest
      | .stop l' => .done l' false rest
      | .reset l' => .done l' true rest := by
  have hline : IsLine chunkMachine.delim (c ++ crlf) := ⟨c, hc, rfl⟩
  rw [drain_line hline, chunkMachine_line]
  cases chunkLine l c <;> rfl

/-- What the loop leaves, when the machine comes to `o`. -/
def loopResult : Outcome UInt8 ChunkLoop Bool → ChunkLoop × Bytes × Bool
  | .more l abuf => (l, abuf, false)
  | .done l failed abuf => (l, abuf, failed)

/-- **The loop of `read_body_chunked_mode`** follows the machine, with a round for each line. -/
theorem readChunkedLoop_eq (fuel : ℕ) (l : ChunkLoop) (abuf : Bytes) (hfuel : abuf.length < fuel) :
    readChunkedLoop fuel l abuf = .ok (loopResult (drain chunkMachine l abuf)) := by
  induction fuel generalizing l abuf with
  | zero => omega
  | succ fuel ih =>
    rw [readChunkedLoop]
    by_cases hb : abuf = []
    · rw [if_pos hb, hb, drain_short rfl (by decide)]
      rfl
    rw [if_neg hb]
    cases hf : find crlf abuf with
    | none =>
      simp only
      by_cases hl : 1024 ≤ abuf.length
      · rw [drain_overlong hf hl, decide_eq_true hl]
        rfl
      · rw [drain_short hf (Nat.lt_of_not_le hl), decide_eq_false hl]
        rfl
    | some pos =>
      obtain ⟨c, rest, hbuf, rfl⟩ := find_eq_some hf
      have hc : find crlf c = none := find_front (by rw [← hbuf, hf]) (by decide)
      have hlen : c.length + 2 = (c ++ crlf).length := by simp [crlf]
      have hrest : rest.length < fuel := by
        have := congrArg List.length hbuf
        rw [List.length_append, ← hlen] at this
        omega
      have htake : abuf.take (c.length + 2) = c ++ crlf := by rw [hlen, hbuf, List.take_left]
      have hdrop : abuf.drop (c.length + 2) = rest := by rw [hlen, hbuf, List.drop_left]
      simp only [substr_zero, htake, hdrop, ok_bind, chunkStep_eq]
      rw [hbuf, drain_chunkLine l hc]
      cases chunkLine l c with
      | next l' => exact ih l' rest hrest
      | stop l' => rfl
      | reset l' => rfl

end Request

end Gts3.Http
