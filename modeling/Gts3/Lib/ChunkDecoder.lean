import Gts3.Lib.HttpMessage

/-!
# A decoder of chunked bodies

The decoder reads a size line, of which it ignores everything from the first semicolon on, then as many bytes as the
line says and a line end; behind a chunk of size zero it skips the lines of the trailer up to the blank line.  A list
of chunks is decoded into its data (`decodeChunks_chunkText`), and a whole chunked body into its data with nothing left
(`decode_body`).
-/

namespace Lib.ChunkDecoder

open Search Cxx HttpMessage

/-- The text before the first line end, and what is behind it. -/
def splitLine (s : Bytes) : Option (Bytes × Bytes) := (find crlf s).map fun i => (s.take i, s.drop (i + 2))

/-- The size that a line announces: hexadecimal digits up to a semicolon or the end. -/
def announcedSize (line : Bytes) : Option ℕ :=
  let digits := line.takeWhile (· ≠ 59)
  if digits ≠ [] ∧ ∀ c ∈ digits, digitVal c < 16 then some (numeral 16 digits) else none

/-- What is behind the lines of the trailer and the blank line. -/
def skipTrailer : ℕ → Bytes → Option Bytes
  | 0, _ => none
  | fuel + 1, s =>
    match splitLine s with
    | none => none
    | some (line, rest) => if line = [] then some rest else skipTrailer fuel rest

/-- The data of the chunks, and what is behind the body. -/
def decodeChunks : ℕ → Bytes → Option (Bytes × Bytes)
  | 0, _ => none
  | fuel + 1, s =>
    match splitLine s with
    | none => none
    | some (line, rest) =>
      match announcedSize line with
      | none => none
      | some size =>
        if size = 0 then (skipTrailer rest.length rest).map fun rest => ([], rest)
        else if (rest.drop size).take 2 = crlf then
          (decodeChunks fuel (rest.drop (size + 2))).map fun (data, behind) => (rest.take size ++ data, behind)
        else none

/-- **The decoder**: the data of a chunked body, and what is behind it. -/
def decode (s : Bytes) : Option (Bytes × Bytes) := decodeChunks s.length s

/-! ## Lines -/

theorem splitLine_append {line : Bytes} (h : find crlf line = none) (rest : Bytes) :
    splitLine (line ++ crlf ++ rest) = some (line, rest) := by
  rw [splitLine, find_append_pat borderless_crlf h, Option.map_some, List.append_assoc, List.take_left,
    ← List.drop_drop, List.drop_left]
  rfl

/-- Digits and an extension announce the value of the digits. -/
theorem announcedSize_append {digits ext : Bytes} (hne : digits ≠ []) (hhex : ∀ c ∈ digits, digitVal c < 16)
    (hext : ext = [] ∨ [59] <+: ext) : announcedSize (digits ++ ext) = some (numeral 16 digits) := by
  have htake : (digits ++ ext).takeWhile (· ≠ 59) = digits := by
    have hdigits : digits.takeWhile (· ≠ 59) = digits := by
      refine List.takeWhile_eq_self_iff.mpr fun c hc => ?_
      have hlt := hhex c hc
      rw [decide_eq_true_eq]
      rintro rfl
      exact absurd hlt (by decide)
    rw [List.takeWhile_append_of_pos (fun c hc => List.takeWhile_eq_self_iff.mp hdigits c hc)]
    rcases hext with rfl | ⟨tail, rfl⟩
    · rw [List.takeWhile_nil, List.append_nil]
    · rw [List.singleton_append, List.takeWhile_cons_of_neg (by simp), List.append_nil]
  rw [announcedSize, htake, if_pos ⟨hne, hhex⟩]

/-! ## Bodies -/

/-- **Chunks** are decoded into what they carry. -/
theorem decodeChunks_chunkText (cs : List Chunk) (fuel : ℕ) (rest : Bytes) :
    decodeChunks (cs.length + fuel) (chunkText cs ++ rest) =
      (decodeChunks fuel rest).map fun (data, behind) => (chunkData cs ++ data, behind) := by
  induction cs with
  | nil => simp [chunkText, chunkData]
  | cons c cs ih =>
    have hpos : c.data.length ≠ 0 := fun h => c.data_ne (List.length_eq_zero_iff.mp h)
    have hne : c.digits ≠ [] := by
      intro h
      have hsize := c.size_eq
      rw [h] at hsize
      exact hpos hsize.symm
    have htext : chunkText (c :: cs) ++ rest = c.sizeLine ++ crlf ++ (c.data ++ (crlf ++ (chunkText cs ++ rest))) := by
      simp only [chunkText, List.flatMap_cons, Chunk.bytes, List.append_assoc]
    have hdrop : (c.data ++ (crlf ++ (chunkText cs ++ rest))).drop (c.data.length + 2) = chunkText cs ++ rest := by
      rw [← List.drop_drop, List.drop_left]
      rfl
    have hline : find crlf c.sizeLine = none := c.ext_noEnd
    rw [htext, List.length_cons, Nat.add_right_comm, decodeChunks, splitLine_append hline]
    simp only
    rw [Chunk.sizeLine, announcedSize_append hne c.digits_hex c.ext_semicolon, c.size_eq]
    simp only
    have htake : (crlf ++ (chunkText cs ++ rest)).take 2 = crlf := rfl
    rw [if_neg hpos, List.drop_left, if_pos htake, hdrop, ih, List.take_left, Option.map_map]
    refine congrArg (fun f => Option.map f (decodeChunks fuel rest)) (funext fun p => ?_)
    simp only [Function.comp, chunkData, List.flatMap_cons, List.append_assoc]

theorem skipTrailer_fields {fields : List (Bytes × Bytes)} (h : ∀ f ∈ fields, f.1 ≠ [] ∧ FieldOk f) (fuel : ℕ)
    (rest : Bytes) : skipTrailer (fields.length + (fuel + 1)) (fields.flatMap fieldLine ++ (crlf ++ rest)) =
      some rest := by
  induction fields with
  | nil =>
    rw [List.length_nil, Nat.zero_add, skipTrailer, List.flatMap_nil,
      show ([] : Bytes) ++ (crlf ++ rest) = [] ++ crlf ++ rest from rfl, splitLine_append (by decide)]
    rfl
  | cons f fields ih =>
    obtain ⟨hname, hok⟩ := h f List.mem_cons_self
    have hline : find crlf (f.1 ++ lit ": " ++ f.2) = none := ((hok.1.append (by decide)).append hok.2).find_crlf
    have hne : f.1 ++ lit ": " ++ f.2 ≠ [] := by simp [hname]
    rw [List.length_cons, Nat.add_right_comm, skipTrailer, List.flatMap_cons, fieldLine, List.append_assoc,
      splitLine_append hline]
    simp only
    rw [if_neg hne]
    exact ih fun f' hf' => h f' (List.mem_cons_of_mem _ hf')

theorem length_le_flatMap_fieldLine (fields : List (Bytes × Bytes)) :
    fields.length ≤ (fields.flatMap fieldLine).length := by
  induction fields with
  | nil => exact le_rfl
  | cons f fields ih =>
    simp only [List.flatMap_cons, List.length_append, List.length_cons, fieldLine, crlf]
    omega

theorem length_le_chunkText (cs : List Chunk) : cs.length ≤ (chunkText cs).length := by
  induction cs with
  | nil => exact le_rfl
  | cons c cs ih =>
    have hcons : chunkText (c :: cs) = c.bytes ++ chunkText cs := List.flatMap_cons
    rw [hcons]
    simp only [List.length_append, List.length_cons, Chunk.bytes, crlf]
    omega

/-- **A whole body** is decoded into what its chunks carry, and nothing of it is left. -/
theorem decode_body (cs : List Chunk) (last : LastChunk) {trailer : List (Bytes × Bytes)}
    (h : ∀ f ∈ trailer, f.1 ≠ [] ∧ FieldOk f) (rest : Bytes) :
    decode (chunkText cs ++ (last.sizeLine ++ crlf ++ (trailer.flatMap fieldLine ++ (crlf ++ rest)))) =
      some (chunkData cs, rest) := by
  have hcs := length_le_chunkText cs
  have htrailer := length_le_flatMap_fieldLine trailer
  have hcrlf : crlf.length = 2 := rfl
  obtain ⟨fuel, hfuel⟩ := Nat.exists_eq_add_of_lt (show cs.length < (chunkText cs ++
      (last.sizeLine ++ crlf ++ (trailer.flatMap fieldLine ++ (crlf ++ rest)))).length by
    simp only [List.length_append, hcrlf]
    omega)
  obtain ⟨fuel', hfuel'⟩ := Nat.exists_eq_add_of_lt (show trailer.length <
      (trailer.flatMap fieldLine ++ (crlf ++ rest)).length by
    simp only [List.length_append, hcrlf]
    omega)
  rw [Nat.add_assoc] at hfuel hfuel'
  have hline : find crlf last.sizeLine = none := last.ext_noEnd
  rw [decode, hfuel, decodeChunks_chunkText, decodeChunks, splitLine_append hline]
  simp only
  rw [LastChunk.sizeLine, announcedSize_append last.digits_ne last.digits_hex last.ext_semicolon, last.size_eq]
  simp only
  rw [if_pos trivial, hfuel', skipTrailer_fields h]
  simp only [Option.map_some, List.append_nil]

end Lib.ChunkDecoder
