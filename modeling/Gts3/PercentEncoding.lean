import Gts3.Algorithm

/-!
# `gts/algorithm.cpp`: `from_percent_encoding` in its buffer

The function decodes in place: it reads and writes the buffer of one string, with the characters as signed numbers.
Here is that run, step by step.  It gives what `fromPercentEncoding` says (`fromPercentEncodingInPlace_eq`), since the
writing stays behind the reading (`Behind`); and every encoding of a string decodes to it (`Encodes.decoded`).
-/

namespace Gts3

open Lib Lib.Search Lib.Cxx

/-! ## Digits as `int` -/

/-- A `char` as an `int`. -/
def charToInt (c : UInt8) : BitVec 32 := c.toBitVec.signExtend 32

/-- What becomes of `a`, or of `b`, when it is a hexadecimal digit. -/
def hexInt (a : BitVec 32) : BitVec 32 :=
  if (48#32).sle a && a.sle 57#32 then a - 48#32
  else if (97#32).sle a && a.sle 102#32 then a - 97#32 + 10#32
  else if (65#32).sle a && a.sle 70#32 then a - 65#32 + 10#32
  else a

/-- `static_cast<char>((a << 4) | b)`, of `int`s. -/
def hexChar (a b : UInt8) : UInt8 := ⟨((hexInt (charToInt a) <<< 4) ||| hexInt (charToInt b)).setWidth 8⟩

theorem setWidth_hexInt : ∀ c, (hexInt (charToInt c)).setWidth 8 = (hexNibble c).toBitVec :=
  forall_byte (by decide +kernel)

theorem hexChar_eq (a b : UInt8) : hexChar a b = hexPair a b := by
  rw [← UInt8.toBitVec_inj, hexChar, hexPair, BitVec.setWidth_or, BitVec.setWidth_shiftLeft_of_le (by decide),
    setWidth_hexInt, setWidth_hexInt, UInt8.toBitVec_or, UInt8.toBitVec_shiftLeft]
  rfl

/-! ## The run -/

/-- The variables of the loop: the buffer of `result`, and where `inputPtr[i]` and `*data` are in it. -/
structure Decoding where
  buf : Bytes
  i : ℕ
  data : ℕ
  outlen : ℕ
  deriving DecidableEq, Repr

namespace Decoding

/-- `*data++ = c`. -/
def write (d : Decoding) (c : UInt8) : Run Decoding :=
  if d.data < d.buf.length then .ok { d with buf := d.buf.set d.data c, data := d.data + 1 } else .error .overflow

/-- The loop body. -/
def step (len : ℕ) (d : Decoding) : Run Decoding := do
  let c ← index d.buf d.i
  if c = 37 ∧ d.i + 2 < len then do
    let a ← index d.buf (d.i + 1)
    let b ← index d.buf (d.i + 2)
    let d ← { d with i := d.i + 2 }.write (hexChar a b)
    .ok { d with i := d.i + 1, outlen := d.outlen + 1 }
  else do
    let d ← d.write c
    .ok { d with i := d.i + 1, outlen := d.outlen + 1 }

/-- The loop. -/
def loop (len : ℕ) : ℕ → Decoding → Run Decoding
  | 0, _ => .error .diverge
  | fuel + 1, d => if d.i < len then do loop len fuel (← d.step len) else .ok d

/-- Before the loop. -/
def start (str : Bytes) : Decoding := ⟨str, 0, 0, 0⟩

end Decoding

/-- `from_percent_encoding`. -/
def fromPercentEncodingInPlace (str : Bytes) : Run Bytes :=
  if str = [] then .ok []
  else do
    let d ← (Decoding.start str).loop str.length (str.length + 1)
    if d.outlen ≠ str.length then substr d.buf 0 d.outlen else .ok d.buf

namespace Decoding

/-- The states that a run on `str` comes through, at the head of the loop. -/
inductive Visits (str : Bytes) : Decoding → Prop
  | start : Visits str (start str)
  | step {d d' : Decoding} (h : Visits str d) (hi : d.i < str.length) (hd : d.step str.length = .ok d') : Visits str d'

/-- The writing is behind the reading: what is to be read is still there, and what is written is decoded. -/
structure Behind (str : Bytes) (d : Decoding) : Prop where
  data_le : d.data ≤ d.i
  i_le : d.i ≤ str.length
  outlen_eq : d.outlen = d.data
  length_eq : d.buf.length = str.length
  ahead : d.buf.drop d.i = str.drop d.i
  decoded : d.buf.take d.data ++ fromPercentEncoding (str.drop d.i) = fromPercentEncoding str

variable {str : Bytes} {d d' : Decoding}

theorem behind_start (str : Bytes) : Behind str (start str) where
  data_le := le_rfl
  i_le := Nat.zero_le _
  outlen_eq := rfl
  length_eq := rfl
  ahead := rfl
  decoded := rfl

theorem index_of_drop {buf : Bytes} {i : ℕ} {c : UInt8} {s : Bytes} (h : buf.drop i = c :: s) (k : ℕ) (a : UInt8)
    (hk : (c :: s)[k]? = some a) : index buf (i + k) = .ok a := by
  rw [← h, List.getElem?_drop] at hk
  exact index_of_get hk

/-- A byte `c` that stands for the `k` next ones is written where nothing is read any more. -/
theorem Behind.write (h : Behind str d) {k : ℕ} {c : UInt8} (hk : 0 < k) (hle : d.i + k ≤ str.length)
    (hdecode : fromPercentEncoding (str.drop d.i) = c :: fromPercentEncoding (str.drop (d.i + k))) :
    Behind str { buf := d.buf.set d.data c, i := d.i + k, data := d.data + 1, outlen := d.outlen + 1 } where
  data_le := by
    have := h.data_le
    dsimp only
    omega
  i_le := hle
  outlen_eq := congrArg (· + 1) h.outlen_eq
  length_eq := by rw [List.length_set, h.length_eq]
  ahead := by
    have hlt : d.data < d.i + k := by
      have := h.data_le
      omega
    rw [List.drop_set_of_lt hlt, ← List.drop_drop, h.ahead, List.drop_drop]
  decoded := by
    have hlt : d.data < d.buf.length := by
      have := h.data_le
      have := h.length_eq
      omega
    have htake : (d.buf.set d.data c).take (d.data + 1) = d.buf.take d.data ++ [c] := by
      rw [List.take_add_one, List.take_set_of_le le_rfl, List.getElem?_set_self hlt, Option.toList_some]
    rw [htake, List.append_assoc, List.singleton_append, ← hdecode, h.decoded]

/-- **One round** reads at or behind the place it writes to, and keeps them in this order. -/
theorem Behind.step (h : Behind str d) (hi : d.i < str.length) :
    ∃ d', d.step str.length = .ok d' ∧ Behind str d' ∧ d.i < d'.i := by
  obtain ⟨c, s, hs⟩ : ∃ c s, str.drop d.i = c :: s :=
    List.exists_cons_of_ne_nil (by rw [Ne, List.drop_eq_nil_iff]; omega)
  have hbuf : d.buf.drop d.i = c :: s := h.ahead.trans hs
  have hlen : s.length + 1 = str.length - d.i := by
    have := congrArg List.length hs
    rw [List.length_drop, List.length_cons] at this
    omega
  have hdata : d.data < d.buf.length := by
    have := h.data_le
    have := h.length_eq
    omega
  have hdrop : ∀ k, str.drop (d.i + k) = (c :: s).drop k := fun k => by rw [← hs, List.drop_drop]
  have hc : index d.buf d.i = .ok c := index_of_drop hbuf 0 c rfl
  by_cases hesc : c = 37 ∧ d.i + 2 < str.length
  · -- two digits follow
    obtain ⟨a, b, u, rfl⟩ : ∃ a b u, s = a :: b :: u := by
      rcases s with _ | ⟨a, _ | ⟨b, u⟩⟩
      · simp at hlen
        omega
      · simp at hlen
        omega
      · exact ⟨a, b, u, rfl⟩
    obtain ⟨rfl, hlt⟩ := hesc
    have hdecode : fromPercentEncoding (str.drop d.i) = hexChar a b :: fromPercentEncoding (str.drop (d.i + 3)) := by
      rw [hs, hdrop, fromPercentEncoding_pair, hexChar_eq]
      rfl
    refine ⟨_, ?_, h.write (by decide) (by omega) hdecode, Nat.lt_add_of_pos_right (by decide)⟩
    simp only [Decoding.step, hc, ok_bind, index_of_drop hbuf 1 a rfl, index_of_drop hbuf 2 b rfl, hlt, and_self,
      if_true, Decoding.write, hdata]
  · -- a byte on its own, or a percent sign too close to the end
    have hdecode : fromPercentEncoding (str.drop d.i) = c :: fromPercentEncoding (str.drop (d.i + 1)) := by
      rw [hs, hdrop, List.drop_one, List.tail_cons]
      by_cases h37 : c = 37
      · have hshort : s.length < 2 := by
          have := not_and.mp hesc h37
          omega
        rcases s with _ | ⟨a, _ | ⟨b, u⟩⟩
        · rfl
        · rfl
        · rw [List.length_cons, List.length_cons] at hshort
          omega
      · exact fromPercentEncoding_cons h37 s
    refine ⟨_, ?_, h.write Nat.one_pos (by omega) hdecode, Nat.lt_succ_self _⟩
    simp only [Decoding.step, hc, ok_bind, if_neg hesc, Decoding.write, hdata, if_true]

/-- **The run** keeps the order at every round. -/
theorem Visits.behind (h : Visits str d) : Behind str d := by
  induction h with
  | start => exact behind_start str
  | step _ hi hd ih =>
    obtain ⟨d', hd', hbehind, -⟩ := ih.step hi
    obtain rfl : _ = d' := Except.ok.inj (hd.symm.trans hd')
    exact hbehind

theorem Behind.loop (h : Behind str d) (fuel : ℕ) (hfuel : str.length - d.i < fuel) :
    ∃ d', d.loop str.length fuel = .ok d' ∧ Behind str d' ∧ d'.i = str.length := by
  induction fuel generalizing d with
  | zero => omega
  | succ fuel ih =>
    rw [Decoding.loop]
    by_cases hi : d.i < str.length
    · obtain ⟨d₁, hstep, hbehind, hlt⟩ := h.step hi
      rw [if_pos hi, hstep, ok_bind]
      exact ih hbehind (by omega)
    · rw [if_neg hi]
      have := h.i_le
      exact ⟨d, rfl, h, by omega⟩

end Decoding

open Decoding

/-- **Decoding in place** decodes. -/
theorem fromPercentEncodingInPlace_eq (str : Bytes) :
    fromPercentEncodingInPlace str = .ok (fromPercentEncoding str) := by
  unfold fromPercentEncodingInPlace
  split_ifs with hnil
  · rw [hnil, fromPercentEncoding_nil]
  obtain ⟨d, hloop, hbehind, hi⟩ := (behind_start str).loop (str.length + 1) (by simp [start])
  have hdecoded := hbehind.decoded
  rw [hi, List.drop_length, fromPercentEncoding_nil, List.append_nil] at hdecoded
  rw [hloop, ok_bind, hbehind.outlen_eq, ← hdecoded]
  split_ifs with hout
  · rfl
  · have hdata : d.data = d.buf.length := by rw [hbehind.length_eq]; omega
    rw [hdata, List.take_length]

/-! ## Encodings -/

/-- The second string encodes the first: each byte stands for itself, unless it is a percent sign, or is a percent sign
with two hexadecimal digits of either case. -/
inductive Encodes : Bytes → Bytes → Prop
  | nil : Encodes [] []
  | literal {c : UInt8} {s e : Bytes} (hc : c ≠ 37) (h : Encodes s e) : Encodes (c :: s) (c :: e)
  | escape {c a b : UInt8} {s e : Bytes} (ha : digitVal a < 16) (hb : digitVal b < 16)
      (hc : c.toNat = 16 * digitVal a + digitVal b) (h : Encodes s e) : Encodes (c :: s) (37 :: a :: b :: e)

/-- **Every encoding** decodes to what it encodes. -/
theorem Encodes.decoded {s e : Bytes} (h : Encodes s e) : fromPercentEncoding e = s := by
  induction h with
  | nil => rfl
  | literal hc _ ih => rw [fromPercentEncoding_cons hc, ih]
  | @escape c a b s e ha hb hc _ ih =>
    have hpair : hexPair a b = c := by rw [hexPair_eq ha hb, Nat.mul_comm, ← hc, UInt8.ofNat_toNat]
    rw [fromPercentEncoding_pair, hpair, ih]

/-- **`from_percent_encoding`** comes to an end without leaving its buffer, on every string; the result is not longer,
and is what the string encodes, if it encodes anything.  On the way it never writes behind the place it reads. -/
theorem fromPercentEncoding_inPlace (str : Bytes) :
    (∃ out, fromPercentEncodingInPlace str = .ok out ∧ out.length ≤ str.length ∧ ∀ s, Encodes s str → out = s) ∧
      ∀ d, Visits str d → d.data ≤ d.i ∧ d.outlen ≤ str.length := by
  refine ⟨⟨fromPercentEncoding str, fromPercentEncodingInPlace_eq str, length_fromPercentEncoding_le str,
    fun s h => h.decoded⟩, fun d h => ?_⟩
  have hbehind := h.behind
  have hdata := hbehind.data_le
  have hle := hbehind.i_le
  have hout := hbehind.outlen_eq
  exact ⟨hdata, by omega⟩

/-- Escapes of either case, and a space. -/
example : fromPercentEncodingInPlace (lit "a%20%4a%4A") = .ok (lit "a JJ") := by decide +kernel

end Gts3
