import Gts3.Lib.Cxx

/-!
# The form of HTTP messages

A start line, fields and a blank line, then a body of the announced length or a chunked body.  `Chunk` carries the
agreement of its size with its data, so a list of chunks is always a body that can be decoded: its data is
`chunkData`, its text `chunkText`.
-/

namespace Lib.HttpMessage

open Search Cxx

/-- The text holds no part of a line end. -/
def NoLineEnd (s : Bytes) : Prop := ∀ c ∈ s, c ≠ 13 ∧ c ≠ 10

instance (s : Bytes) : Decidable (NoLineEnd s) := decidableForallMem s

theorem NoLineEnd.append {s t : Bytes} (hs : NoLineEnd s) (ht : NoLineEnd t) : NoLineEnd (s ++ t) := by
  intro c hc
  rcases List.mem_append.mp hc with hc | hc
  · exact hs c hc
  · exact ht c hc

theorem NoLineEnd.find_crlf {s : Bytes} (hs : NoLineEnd s) : find crlf s = none := by
  rw [find_eq_none_iff]
  intro h
  exact (hs 13 (h.subset (by decide))).1 rfl

/-- Text without a part of a line end in front of another text. -/
theorem NoLineEnd.find_crlf_append {s : Bytes} (hs : NoLineEnd s) (t : Bytes) :
    find crlf (s ++ t) = none ↔ find crlf t = none := by
  induction s with
  | nil => rfl
  | cons c s ih =>
    have hc : c ≠ 13 := (hs c (by simp)).1
    have hn : ¬ crlf <+: c :: (s ++ t) := by
      intro h
      exact hc (List.cons_prefix_cons.mp h).1.symm
    rw [List.cons_append, find, if_neg hn, Option.map_eq_none_iff]
    exact ih (fun d hd => hs d (by simp [hd]))

theorem noLineEnd_of_digits {base : ℕ} (hb : base ≤ 36) {s : Bytes} (h : ∀ c ∈ s, digitVal c < base) :
    NoLineEnd s := by
  intro c hc
  have hlt := h c hc
  constructor <;> rintro rfl <;> simp [digitVal] at hlt <;> omega

/-! ## Lines -/

/-- The text is these lines, each with its line end. -/
def IsLines (text : Bytes) (lines : List Bytes) : Prop :=
  text = lines.flatMap (· ++ crlf) ∧ ∀ l ∈ lines, find crlf l = none

/-- The text consists of `n` lines. -/
def HasLines (text : Bytes) (n : ℕ) : Prop := ∃ lines, IsLines text lines ∧ lines.length = n

theorem IsLines.append {s t : Bytes} {ls ms : List Bytes} (h : IsLines s ls) (h' : IsLines t ms) :
    IsLines (s ++ t) (ls ++ ms) := by
  refine ⟨by rw [h.1, h'.1, List.flatMap_append], fun l hl => ?_⟩
  rcases List.mem_append.mp hl with hl | hl
  · exact h.2 l hl
  · exact h'.2 l hl

theorem IsLines.unique {text : Bytes} {ls ms : List Bytes} (h : IsLines text ls) (h' : IsLines text ms) : ls = ms := by
  induction ls generalizing text ms with
  | nil =>
    cases ms with
    | nil => rfl
    | cons m ms =>
      have := h.1.symm.trans h'.1
      simp [crlf] at this
  | cons l ls ih =>
    cases ms with
    | nil =>
      have := h'.1.symm.trans h.1
      simp [crlf] at this
    | cons m ms =>
      have heq : l ++ crlf ++ ls.flatMap (· ++ crlf) = m ++ crlf ++ ms.flatMap (· ++ crlf) := h.1.symm.trans h'.1
      obtain ⟨rfl, ht⟩ := append_pat_inj borderless_crlf (h.2 l (by simp)) (h'.2 m (by simp)) heq
      rw [ih ⟨rfl, fun x hx => h.2 x (by simp [hx])⟩ ⟨ht, fun x hx => h'.2 x (by simp [hx])⟩]

/-- The lines of one entry: one, or more when the entry holds line ends. -/
theorem exists_lines (e : Bytes) : ∃ ls, IsLines (e ++ crlf) ls ∧ 1 ≤ ls.length ∧
    (ls.length = 1 ↔ find crlf e = none) := by
  induction hn : e.length using Nat.strong_induction_on generalizing e with
  | _ n ih =>
    cases hf : find crlf e with
    | none => exact ⟨[e], ⟨by simp, by simpa using hf⟩, le_rfl, by simp⟩
    | some i =>
      obtain ⟨a, b, rfl, rfl⟩ := find_eq_some hf
      obtain ⟨ls, hls, hpos, -⟩ := ih b.length (by simp [crlf] at hn; omega) b rfl
      have ha : find crlf a = none := find_front hf (by decide)
      have hne : ls ≠ [] := List.length_pos_iff.mp hpos
      refine ⟨a :: ls, ⟨?_, ?_⟩, by simp, by simp [hne]⟩
      · rw [List.flatMap_cons, ← hls.1]
        simp
      · simpa [ha] using hls.2

/-- **One line each.**  Entries make as many lines as there are entries if and only if none of them holds a line
end. -/
theorem hasLines_flatMap_iff (es : List Bytes) :
    HasLines (es.flatMap (· ++ crlf)) es.length ↔ ∀ e ∈ es, find crlf e = none := by
  constructor
  · -- the lines of all entries, and how many there are
    have key : ∃ ls, IsLines (es.flatMap (· ++ crlf)) ls ∧ es.length ≤ ls.length ∧
        (ls.length = es.length → ∀ e ∈ es, find crlf e = none) := by
      induction es with
      | nil => exact ⟨[], ⟨rfl, by simp⟩, le_rfl, by simp⟩
      | cons e es ih =>
        obtain ⟨ls, hls, hle, hall⟩ := ih
        obtain ⟨ms, hms, hpos, hone⟩ := exists_lines e
        refine ⟨ms ++ ls, hms.append hls, by simp; omega, fun hlen => ?_⟩
        simp only [List.length_append, List.length_cons] at hlen
        have he := hone.mp (by omega)
        have hes := hall (by omega)
        simpa [he] using hes
    rintro ⟨ms, hms, hlen⟩
    obtain ⟨ls, hls, -, hall⟩ := key
    exact hall (hls.unique hms ▸ hlen)
  · intro h
    exact ⟨es, ⟨rfl, h⟩, rfl⟩

/-! ## Fields -/

/-- Field names agree in lower case. -/
def SameName (a b : Bytes) : Prop := a.map tolower = b.map tolower

instance (a b : Bytes) : Decidable (SameName a b) := inferInstanceAs (Decidable (_ = _))

/-- `name: value` and the line end. -/
def fieldLine (f : Bytes × Bytes) : Bytes := f.1 ++ lit ": " ++ f.2 ++ crlf

/-- The field's name and value hold no line end. -/
def FieldOk (f : Bytes × Bytes) : Prop := NoLineEnd f.1 ∧ NoLineEnd f.2

instance (f : Bytes × Bytes) : Decidable (FieldOk f) := inferInstanceAs (Decidable (_ ∧ _))

/-- Start line, fields and blank line. -/
def block (start : Bytes) (fields : List (Bytes × Bytes)) : Bytes :=
  start ++ crlf ++ fields.flatMap fieldLine ++ crlf

/-- There is a field `Content-Length`, and every such field has the value `n`. -/
def AnnouncesLength (fields : List (Bytes × Bytes)) (n : ℕ) : Prop :=
  (∃ f ∈ fields, SameName f.1 (lit "Content-Length")) ∧
    ∀ f ∈ fields, SameName f.1 (lit "Content-Length") →
      f.2 ≠ [] ∧ (∀ c ∈ f.2, digitVal c < 10) ∧ numeral 10 f.2 = n

/-- There is no field `Content-Length`, and a field `Transfer-Encoding: chunked`. -/
def AnnouncesChunked (fields : List (Bytes × Bytes)) : Prop :=
  (∀ f ∈ fields, ¬ SameName f.1 (lit "Content-Length")) ∧
    ∃ f ∈ fields, SameName f.1 (lit "Transfer-Encoding") ∧ SameName f.2 (lit "chunked")

/-! ## Chunks -/

/-- A chunk: hexadecimal digits of the size, an extension, and data of this size. -/
structure Chunk where
  digits : Bytes
  ext : Bytes
  data : Bytes
  digits_hex : ∀ c ∈ digits, digitVal c < 16
  size_eq : numeral 16 digits = data.length
  data_ne : data ≠ []
  ext_noEnd : find crlf (digits ++ ext) = none
  ext_semicolon : ext = [] ∨ [59] <+: ext

/-- The size line of a chunk, without its line end. -/
def Chunk.sizeLine (c : Chunk) : Bytes := c.digits ++ c.ext

/-- The bytes of a chunk. -/
def Chunk.bytes (c : Chunk) : Bytes := c.sizeLine ++ crlf ++ c.data ++ crlf

/-- The bytes of a list of chunks. -/
def chunkText (cs : List Chunk) : Bytes := cs.flatMap Chunk.bytes

/-- What a list of chunks carries. -/
def chunkData (cs : List Chunk) : Bytes := cs.flatMap Chunk.data

/-- The last chunk: digits of zero, and an extension. -/
structure LastChunk where
  digits : Bytes
  ext : Bytes
  digits_hex : ∀ c ∈ digits, digitVal c < 16
  digits_ne : digits ≠ []
  size_eq : numeral 16 digits = 0
  ext_noEnd : find crlf (digits ++ ext) = none
  ext_semicolon : ext = [] ∨ [59] <+: ext

/-- The size line of the last chunk, without its line end. -/
def LastChunk.sizeLine (c : LastChunk) : Bytes := c.digits ++ c.ext

/-! ## Messages -/

/-- `HTTP/version code reason`. -/
def statusLine (version : Bytes) (code : ℕ) (reason : Bytes) : Bytes :=
  lit "HTTP/" ++ version ++ lit " " ++ formatNat 10 code ++ lit " " ++ reason

/-- A response with this version: one status line, fields, and the body that the fields announce. -/
def IsResponse (version : Bytes) (message : Bytes) : Prop :=
  ∃ (code : ℕ) (reason : Bytes) (fields : List (Bytes × Bytes)) (body : Bytes),
    message = block (statusLine version code reason) fields ++ body ∧
    NoLineEnd (statusLine version code reason) ∧ (∀ f ∈ fields, FieldOk f) ∧
    (AnnouncesLength fields body.length ∨
      (version = lit "1.1" ∧ AnnouncesChunked fields ∧
        ∃ (cs : List Chunk) (last : LastChunk) (trailer : List (Bytes × Bytes)), (∀ f ∈ trailer, FieldOk f) ∧
          body = chunkText cs ++ (last.sizeLine ++ crlf ++ trailer.flatMap fieldLine ++ crlf)))

theorem chunkText_append (cs : List Chunk) (c : Chunk) : chunkText (cs ++ [c]) = chunkText cs ++ c.bytes := by
  simp [chunkText]

end Lib.HttpMessage
