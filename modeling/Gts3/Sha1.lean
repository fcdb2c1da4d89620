import Gts3.Lib.Fips180
import Gts3.Lib.Cxx

/-!
# `gts/sha1.cpp`

The object keeps the bytes of an unfinished block, and `append` passes whole blocks by this buffer when it is empty.
`finalize_eq` says that all of it is SHA-1 of the bytes that have been appended, however they have been appended.
-/

namespace Gts3

open Lib Lib.BlockHash Lib.Cxx

namespace Sha1

/-! ## A block -/

/-- `make_word`. -/
def makeWord (p : Bytes) : UInt32 :=
  ((p.getD 0 0).toUInt32 <<< 24) ||| ((p.getD 1 0).toUInt32 <<< 16) ||| ((p.getD 2 0).toUInt32 <<< 8) |||
    ((p.getD 3 0).toUInt32 <<< 0)

/-- `rol32`. -/
def rol32 (x n : UInt32) : UInt32 := (x <<< n) ||| (x >>> (32 - n))

/-- The macros `SHA1_ROUND_0` to `SHA1_ROUND_4`. -/
inductive RoundMacro
  | round0 | round1 | round2 | round3 | round4
  deriving DecidableEq

/-- What a macro computes of `u`, `x` and `y`. -/
def RoundMacro.f (u x y : UInt32) : RoundMacro → UInt32
  | round0 | round1 => (u &&& (x ^^^ y)) ^^^ y
  | round2 | round4 => u ^^^ x ^^^ y
  | round3 => ((u ||| x) &&& y) ||| (u &&& x)

/-- `c0` to `c3`. -/
def RoundMacro.c : RoundMacro → UInt32
  | round0 | round1 => 0x5A827999
  | round2 => 0x6ED9EBA1
  | round3 => 0x8F1BBCDC
  | round4 => 0xCA62C1D6

/-- A call of a macro: the variables `a` to `e` that it is given, and the number. -/
structure Call where
  round : RoundMacro
  v : Fin 5
  u : Fin 5
  x : Fin 5
  y : Fin 5
  z : Fin 5
  i : ℕ
  deriving DecidableEq

/-- The variables `a` to `e`, and `w`. -/
structure Locals where
  vars : Vector UInt32 5
  w : Vector UInt32 16

local instance neZero_blockWords : NeZero 16 := ⟨by decide⟩

/-- `SHA1_LOAD`. -/
def load (w : Vector UInt32 16) (i : ℕ) : Vector UInt32 16 :=
  let w' := fun j => w.get (Fin.ofNat 16 j)
  w.set (Fin.ofNat 16 i) (rol32 (w' (i + 13) ^^^ w' (i + 8) ^^^ w' (i + 2) ^^^ w' i) 1)

/-- A call. -/
def Call.exec (l : Locals) (c : Call) : Locals :=
  let w := if c.round = .round0 then l.w else load l.w c.i
  let f := c.round.f (l.vars.get c.u) (l.vars.get c.x) (l.vars.get c.y)
  let z := l.vars.get c.z + (f + w.get (Fin.ofNat 16 c.i) + c.round.c + rol32 (l.vars.get c.v) 5)
  let vars := l.vars.set c.z z
  ⟨vars.set c.u (rol32 (vars.get c.u) 30), w⟩

/-- The calls in `process_block`. -/
def calls : List Call :=
  let a := 0; let b := 1; let c := 2; let d := 3; let e := 4
  [⟨.round0, a, b, c, d, e, 0⟩, ⟨.round0, e, a, b, c, d, 1⟩, ⟨.round0, d, e, a, b, c, 2⟩,
    ⟨.round0, c, d, e, a, b, 3⟩, ⟨.round0, b, c, d, e, a, 4⟩, ⟨.round0, a, b, c, d, e, 5⟩,
    ⟨.round0, e, a, b, c, d, 6⟩, ⟨.round0, d, e, a, b, c, 7⟩, ⟨.round0, c, d, e, a, b, 8⟩,
    ⟨.round0, b, c, d, e, a, 9⟩, ⟨.round0, a, b, c, d, e, 10⟩, ⟨.round0, e, a, b, c, d, 11⟩,
    ⟨.round0, d, e, a, b, c, 12⟩, ⟨.round0, c, d, e, a, b, 13⟩, ⟨.round0, b, c, d, e, a, 14⟩,
    ⟨.round0, a, b, c, d, e, 15⟩,
    ⟨.round1, e, a, b, c, d, 16⟩, ⟨.round1, d, e, a, b, c, 17⟩, ⟨.round1, c, d, e, a, b, 18⟩,
    ⟨.round1, b, c, d, e, a, 19⟩,
    ⟨.round2, a, b, c, d, e, 20⟩, ⟨.round2, e, a, b, c, d, 21⟩, ⟨.round2, d, e, a, b, c, 22⟩,
    ⟨.round2, c, d, e, a, b, 23⟩, ⟨.round2, b, c, d, e, a, 24⟩, ⟨.round2, a, b, c, d, e, 25⟩,
    ⟨.round2, e, a, b, c, d, 26⟩, ⟨.round2, d, e, a, b, c, 27⟩, ⟨.round2, c, d, e, a, b, 28⟩,
    ⟨.round2, b, c, d, e, a, 29⟩, ⟨.round2, a, b, c, d, e, 30⟩, ⟨.round2, e, a, b, c, d, 31⟩,
    ⟨.round2, d, e, a, b, c, 32⟩, ⟨.round2, c, d, e, a, b, 33⟩, ⟨.round2, b, c, d, e, a, 34⟩,
    ⟨.round2, a, b, c, d, e, 35⟩, ⟨.round2, e, a, b, c, d, 36⟩, ⟨.round2, d, e, a, b, c, 37⟩,
    ⟨.round2, c, d, e, a, b, 38⟩, ⟨.round2, b, c, d, e, a, 39⟩,
    ⟨.round3, a, b, c, d, e, 40⟩, ⟨.round3, e, a, b, c, d, 41⟩, ⟨.round3, d, e, a, b, c, 42⟩,
    ⟨.round3, c, d, e, a, b, 43⟩, ⟨.round3, b, c, d, e, a, 44⟩, ⟨.round3, a, b, c, d, e, 45⟩,
    ⟨.round3, e, a, b, c, d, 46⟩, ⟨.round3, d, e, a, b, c, 47⟩, ⟨.round3, c, d, e, a, b, 48⟩,
    ⟨.round3, b, c, d, e, a, 49⟩, ⟨.round3, a, b, c, d, e, 50⟩, ⟨.round3, e, a, b, c, d, 51⟩,
    ⟨.round3, d, e, a, b, c, 52⟩, ⟨.round3, c, d, e, a, b, 53⟩, ⟨.round3, b, c, d, e, a, 54⟩,
    ⟨.round3, a, b, c, d, e, 55⟩, ⟨.round3, e, a, b, c, d, 56⟩, ⟨.round3, d, e, a, b, c, 57⟩,
    ⟨.round3, c, d, e, a, b, 58⟩, ⟨.round3, b, c, d, e, a, 59⟩,
    ⟨.round4, a, b, c, d, e, 60⟩, ⟨.round4, e, a, b, c, d, 61⟩, ⟨.round4, d, e, a, b, c, 62⟩,
    ⟨.round4, c, d, e, a, b, 63⟩, ⟨.round4, b, c, d, e, a, 64⟩, ⟨.round4, a, b, c, d, e, 65⟩,
    ⟨.round4, e, a, b, c, d, 66⟩, ⟨.round4, d, e, a, b, c, 67⟩, ⟨.round4, c, d, e, a, b, 68⟩,
    ⟨.round4, b, c, d, e, a, 69⟩, ⟨.round4, a, b, c, d, e, 70⟩, ⟨.round4, e, a, b, c, d, 71⟩,
    ⟨.round4, d, e, a, b, c, 72⟩, ⟨.round4, c, d, e, a, b, 73⟩, ⟨.round4, b, c, d, e, a, 74⟩,
    ⟨.round4, a, b, c, d, e, 75⟩, ⟨.round4, e, a, b, c, d, 76⟩, ⟨.round4, d, e, a, b, c, 77⟩,
    ⟨.round4, c, d, e, a, b, 78⟩, ⟨.round4, b, c, d, e, a, 79⟩]

/-- `process_block`, on `m_state` and a block. -/
def processBlock (state : Vector UInt32 5) (ptr : Bytes) : Vector UInt32 5 :=
  let w := Vector.ofFn fun i : Fin 16 => makeWord (ptr.drop (i.val <<< 2))
  let l := calls.foldl Call.exec ⟨state, w⟩
  state.zipWith (· + ·) l.vars

/-! ## The macros and the rounds -/

theorem ch_eq (u x y : UInt32) : (u &&& (x ^^^ y)) ^^^ y = Fips180.ch u x y := by
  apply UInt32.eq_of_toBitVec_eq
  ext j
  simp only [Fips180.ch, UInt32.toBitVec_xor, UInt32.toBitVec_and, UInt32.toBitVec_not, BitVec.getElem_xor,
    BitVec.getElem_and, BitVec.getElem_not]
  cases u.toBitVec[j] <;> simp

theorem maj_eq (u x y : UInt32) : ((u ||| x) &&& y) ||| (u &&& x) = Fips180.maj u x y := by
  apply UInt32.eq_of_toBitVec_eq
  ext j
  simp only [Fips180.maj, UInt32.toBitVec_xor, UInt32.toBitVec_and, UInt32.toBitVec_or, BitVec.getElem_xor,
    BitVec.getElem_and, BitVec.getElem_or]
  cases u.toBitVec[j] <;> cases x.toBitVec[j] <;> simp

/-- The variable that is number `k` in the standard before round `t`: the calls pass them on, instead of moving
the values. -/
def varAt (t : ℕ) (k : Fin 5) : Fin 5 := Fin.ofNat 5 (k + 4 * t)

theorem varAt_inj {t : ℕ} {j k : Fin 5} : varAt t j = varAt t k ↔ j = k := by
  simp only [varAt, Fin.ext_iff, Fin.val_ofNat]
  omega

theorem varAt_succ (t : ℕ) (k : Fin 5) : varAt (t + 1) k = varAt t (k + 4) := by
  simp only [varAt, Fin.ext_iff, Fin.val_ofNat, Fin.val_add]
  omega

/-- The macro of round `t`. -/
def macroAt (t : ℕ) : RoundMacro :=
  if t < 16 then .round0 else if t < 20 then .round1 else if t < 40 then .round2 else if t < 60 then .round3
  else .round4

/-- The call of round `t`. -/
def callAt (t : ℕ) : Call := ⟨macroAt t, varAt t 0, varAt t 1, varAt t 2, varAt t 3, varAt t 4, t⟩

theorem calls_eq : calls = (List.range 80).map callAt := by decide

theorem macroAt_c (t : ℕ) : (macroAt t).c = Fips180.k t := by
  unfold macroAt Fips180.k
  split_ifs <;> first | rfl | omega

theorem macroAt_f (t : ℕ) (u x y : UInt32) : (macroAt t).f u x y = Fips180.f t u x y := by
  unfold macroAt Fips180.f
  split_ifs <;> first | rfl | omega | exact ch_eq u x y | exact maj_eq u x y

/-- The working variables by their numbers. -/
def word (v : Fips180.Words) : Fin 5 → UInt32
  | 0 => v.a
  | 1 => v.b
  | 2 => v.c
  | 3 => v.d
  | 4 => v.e

theorem get_set {n : ℕ} (v : Vector UInt32 n) (i : Fin n) (x : UInt32) (j : Fin n) :
    (v.set i x).get j = if i = j then x else v.get j := by
  change (v.set i x)[j.val] = if i = j then x else v[j.val]
  simp only [Vector.getElem_set, Fin.ext_iff]

/-- The variables and the sixteen words are those of the standard before round `t`. -/
structure Tracks (block : Bytes) (h : Fips180.Words) (t : ℕ) (l : Locals) : Prop where
  vars : ∀ k, l.vars.get (varAt t k) = word (Fips180.rounds (Fips180.schedule block 80) h t) k
  w : ∀ s, s < max t 16 → max t 16 ≤ s + 16 → l.w.get (Fin.ofNat 16 s) = Fips180.w block s

/-- `SHA1_LOAD` puts the next word in the place of the oldest. -/
theorem load_eq {block : Bytes} {w : Vector UInt32 16} {t : ℕ} (ht : 16 ≤ t)
    (H : ∀ s, s < t → t ≤ s + 16 → w.get (Fin.ofNat 16 s) = Fips180.w block s) (s : ℕ) (hs : s < t + 1)
    (hs' : t + 1 ≤ s + 16) : (load w t).get (Fin.ofNat 16 s) = Fips180.w block s := by
  have back : ∀ {d : ℕ}, 0 < d → d ≤ 16 → w.get (Fin.ofNat 16 (t + (16 - d))) = Fips180.w block (t - d) := by
    intro d hd hd'
    have hslot : Fin.ofNat 16 (t + (16 - d)) = Fin.ofNat 16 (t - d) := by
      simp only [Fin.ext_iff, Fin.val_ofNat]
      omega
    rw [hslot]
    exact H _ (by omega) (by omega)
  rw [load, get_set]
  by_cases hst : s = t
  · have h16 : Fin.ofNat 16 t = Fin.ofNat 16 (t + (16 - 16)) := rfl
    rw [hst, if_pos rfl, Fips180.w_eq, if_neg (by omega), ← back (d := 3) (by omega) (by omega),
      ← back (d := 8) (by omega) (by omega), ← back (d := 14) (by omega) (by omega),
      ← back (d := 16) (by omega) (by omega)]
    rfl
  · rw [if_neg (by simp only [Fin.ext_iff, Fin.val_ofNat]; omega)]
    exact H s (by omega) (by omega)

/-- One **call** is one round. -/
theorem Tracks.exec {block : Bytes} {h : Fips180.Words} {t : ℕ} {l : Locals} (H : Tracks block h t l) (ht : t < 80) :
    Tracks block h (t + 1) (Call.exec l (callAt t)) := by
  set w := if macroAt t = .round0 then l.w else load l.w t with hwdef
  have hw : ∀ s, s < max (t + 1) 16 → max (t + 1) 16 ≤ s + 16 → w.get (Fin.ofNat 16 s) = Fips180.w block s := by
    intro s hs hs'
    by_cases h16 : t < 16
    · rw [hwdef, if_pos (show macroAt t = .round0 from if_pos h16)]
      exact H.w s (by omega) (by omega)
    · have hmacro : macroAt t ≠ .round0 := by
        unfold macroAt
        split_ifs <;> simp
      rw [hwdef, if_neg hmacro]
      exact load_eq (by omega) (fun s hs hs' => H.w s (by omega) (by omega)) s (by omega) (by omega)
  have hword : w.get (Fin.ofNat 16 t) = (Fips180.schedule block 80).getD t 0 := by
    rw [hw t (by omega) (by omega), Fips180.getD_schedule block ht]
  refine ⟨fun k => ?_, hw⟩
  rw [varAt_succ]
  have hexec : (Call.exec l (callAt t)).vars =
      (l.vars.set (varAt t 4) (l.vars.get (varAt t 4) + ((macroAt t).f (l.vars.get (varAt t 1)) (l.vars.get (varAt t 2))
        (l.vars.get (varAt t 3)) + w.get (Fin.ofNat 16 t) + (macroAt t).c + rol32 (l.vars.get (varAt t 0)) 5))).set
        (varAt t 1) (rol32 (l.vars.get (varAt t 1)) 30) := by
    simp only [Call.exec, callAt, get_set, varAt_inj]
    rfl
  rw [hexec]
  simp only [get_set, varAt_inj, H.vars, hword, macroAt_f, macroAt_c, Fips180.rounds, Fips180.round]
  generalize Fips180.rounds (Fips180.schedule block 80) h t = v, (Fips180.schedule block 80).getD t 0 = w
  match k with
  | 0 =>
    change v.e + (Fips180.f t v.b v.c v.d + w + Fips180.k t + Fips180.rotl v.a 5) = _
    ac_rfl
  | 1 | 2 | 3 | 4 => rfl

/-- The variables after the calls of the first rounds. -/
theorem tracks_calls (block : Bytes) (state : Vector UInt32 5) (h : Fips180.Words)
    (hstate : ∀ k, state.get k = word h k)
    (w : Vector UInt32 16) (hw : ∀ s : Fin 16, w.get s = Fips180.wordAt block s) {t : ℕ} (ht : t ≤ 80) :
    Tracks block h t (((List.range t).map callAt).foldl Call.exec ⟨state, w⟩) := by
  induction t with
  | zero =>
    refine ⟨fun k => ?_, fun s hs _ => ?_⟩
    · have hvar : varAt 0 k = k := by simp only [varAt, Fin.ext_iff, Fin.val_ofNat]; omega
      simpa [hvar, Fips180.rounds] using hstate k
    · have hs16 : s < 16 := by omega
      rw [Fips180.w_eq, if_pos hs16]
      simpa [Nat.mod_eq_of_lt hs16] using hw (Fin.ofNat 16 s)
  | succ t ih =>
    rw [List.range_succ, List.map_append, List.foldl_append]
    exact (ih (by omega)).exec (by omega)

theorem makeWord_eq (block : Bytes) (i : ℕ) : makeWord (block.drop (i <<< 2)) = Fips180.wordAt block i := by
  have hshift : i <<< 2 = 4 * i := by rw [Nat.shiftLeft_eq]; omega
  have hget : ∀ j, (block.drop (4 * i)).getD j 0 = block.getD (4 * i + j) 0 := by
    intro j
    simp only [List.getD_eq_getElem?_getD, List.getElem?_drop]
  rw [makeWord, Fips180.wordAt, hshift, hget, hget, hget, hget, UInt32.shiftLeft_zero, add_zero]

/-- The values of `m_state`. -/
def words (state : Vector UInt32 5) : Fips180.Words :=
  ⟨state.get 0, state.get 1, state.get 2, state.get 3, state.get 4⟩

theorem word_words (state : Vector UInt32 5) (k : Fin 5) : word (words state) k = state.get k :=
  match k with
  | 0 | 1 | 2 | 3 | 4 => rfl

/-- **`process_block`** is the compression. -/
theorem words_processBlock (state : Vector UInt32 5) (block : Bytes) :
    words (processBlock state block) = Fips180.compress (words state) block := by
  set w := Vector.ofFn fun i : Fin 16 => makeWord (block.drop (i.val <<< 2)) with hwdef
  have hw : ∀ s : Fin 16, w.get s = Fips180.wordAt block s := by
    intro s
    rw [← makeWord_eq, hwdef]
    exact Vector.getElem_ofFn s.isLt
  have H := tracks_calls block state (words state) (fun k => (word_words state k).symm) w hw le_rfl
  rw [← calls_eq] at H
  have hvars : ∀ k, (calls.foldl Call.exec ⟨state, w⟩).vars.get k =
      word (Fips180.rounds (Fips180.schedule block 80) (words state) 80) k := by
    intro k
    have hvar : varAt 80 k = k := by simp only [varAt, Fin.ext_iff, Fin.val_ofNat]; omega
    rw [← hvar, H.vars, hvar]
  have hadd : ∀ k, (processBlock state block).get k =
      word (Fips180.rounds (Fips180.schedule block 80) (words state) 80) k + word (words state) k := by
    intro k
    rw [← hvars, word_words, UInt32.add_comm]
    exact Vector.getElem_zipWith k.isLt
  simp only [words, hadd, Fips180.compress]
  generalize Fips180.rounds (Fips180.schedule block 80) _ 80 = v
  rfl

/-- **A block of 64 bytes**: `process_block` leaves in each word of the state what the compression of FIPS 180-4 gives
there. -/
theorem processBlock_compress (state : Vector UInt32 5) (block : Vector UInt8 64) (k : Fin 5) :
    (processBlock state block.toList).get k = word (Fips180.compress (words state) block.toList) k := by
  rw [← words_processBlock, word_words]

end Sha1

open Sha1

/-! ## The object -/

/-- `sha1_impl`. -/
structure Sha1Impl where
  state : Vector UInt32 5
  buf : Vector UInt8 64
  i : ℕ
  nBits : UInt64
  i_lt : i < 64

namespace Sha1Impl

/-- A new object. -/
def new : Sha1Impl where
  state := #v[0x67452301, 0xEFCDAB89, 0x98BADCFE, 0x10325476, 0xC3D2E1F0]
  buf := Vector.replicate 64 0
  i := 0
  nBits := 0
  i_lt := by decide

/-- `add_byte_dont_count_bits`. -/
def addByteDontCountBits (s : Sha1Impl) (x : UInt8) : Sha1Impl :=
  let buf := s.buf.set s.i x s.i_lt
  if h : s.i + 1 ≥ 64 then
    { s with state := processBlock s.state buf.toList, buf, i := 0, i_lt := by decide }
  else { s with buf, i := s.i + 1, i_lt := by omega }

/-- `append` of a byte. -/
def appendByte (s : Sha1Impl) (x : UInt8) : Sha1Impl :=
  let s := s.addByteDontCountBits x
  { s with nBits := s.nBits + 8 }

/-- The first loop of `append`: bytes, up to the end of the unfinished block. -/
def appendHead (s : Sha1Impl) : Bytes → Sha1Impl × Bytes
  | [] => (s, [])
  | x :: ptr => if s.i % 64 ≠ 0 then (s.appendByte x).appendHead ptr else (s, x :: ptr)

/-- The second loop of `append`: blocks. -/
def appendBlocks (s : Sha1Impl) (ptr : Bytes) : Sha1Impl × Bytes :=
  if 64 ≤ ptr.length then
    appendBlocks { s with state := processBlock s.state (ptr.take 64), nBits := s.nBits + ((64 : UInt64) <<< 3) }
      (ptr.drop 64)
  else (s, ptr)
termination_by ptr.length
decreasing_by
  rw [List.length_drop]
  omega

/-- `append` of a pointer and a size; `none` is the null pointer. -/
def appendData (s : Sha1Impl) : Option Bytes → Sha1Impl
  | none => s
  | some data =>
    let (s, ptr) := s.appendHead data
    let (s, ptr) := s.appendBlocks ptr
    ptr.foldl appendByte s

/-- The overloads of `append`. -/
inductive Append
  | byte (x : UInt8)
  | char (c : Int8)
  | raw (data : Option Bytes)
  | text (text : Bytes)

/-- `append`. -/
def append (s : Sha1Impl) : Append → Sha1Impl
  | .byte x => s.appendByte x
  | .char c => s.appendByte c.toUInt8
  | .raw data => s.appendData data
  | .text text => if text.isEmpty then s else s.appendData (some text)

/-- The loop of `finalize` that adds zeros. -/
def addZeros (s : Sha1Impl) : Sha1Impl :=
  if s.i % 64 ≠ 56 then addZeros (s.addByteDontCountBits 0x00) else s
termination_by (120 - s.i) % 64
decreasing_by
  have := s.i_lt
  unfold addByteDontCountBits
  dsimp only
  split_ifs <;> simp only <;> omega

/-- `finalize`. -/
def finalize (s : Sha1Impl) : Sha1Impl :=
  let s := addZeros (s.addByteDontCountBits 0x80)
  [(7 : UInt64), 6, 5, 4, 3, 2, 1, 0].foldl (fun s j => s.addByteDontCountBits (s.nBits >>> (j <<< 3)).toUInt8) s

/-! ## What has been appended -/

/-- The blocks of a text are in the state, and what is left of it is in the buffer. -/
def Buffered (s : Sha1Impl) (m : Bytes) : Prop :=
  absorb 64 Fips180.compress Fips180.init m = (words s.state, s.buf.toList.take s.i)

theorem buffered_new : new.Buffered [] := absorb_short (by decide)

theorem Buffered.i_eq {s : Sha1Impl} {m : Bytes} (H : s.Buffered m) : s.i = m.length % 64 := by
  have hlen := congrArg (fun r => r.2.length) H
  have := s.i_lt
  simp only [length_absorb_mod, List.length_take, Vector.length_toList] at hlen
  omega

/-- One **byte** more. -/
theorem Buffered.add {s : Sha1Impl} {m : Bytes} (H : s.Buffered m) (x : UInt8) :
    (s.addByteDontCountBits x).Buffered (m ++ [x]) := by
  have hi := s.i_lt
  have hset : (s.buf.set s.i x).toList = s.buf.toList.take s.i ++ x :: s.buf.toList.drop (s.i + 1) := by
    rw [Vector.toList_set, List.set_eq_take_append_cons_drop, if_pos (by simpa using hi)]
  have hlen : (s.buf.toList.take s.i ++ [x]).length = s.i + 1 := by simp; omega
  rw [Buffered, absorb_append, H]
  unfold addByteDontCountBits
  by_cases h : s.i + 1 ≥ 64
  · have hblock : (s.buf.set s.i x).toList = s.buf.toList.take s.i ++ [x] := by
      rw [hset, List.drop_eq_nil_of_le (by simpa using h)]
    simp only [dif_pos h, words_processBlock, hblock, List.take_zero]
    rw [← List.append_nil (s.buf.toList.take s.i ++ [x]), absorb_block (by omega), absorb_short (by decide)]
    rw [List.append_nil]
  · simp only [dif_neg h]
    rw [absorb_short (by omega), hset, List.append_cons _ x (List.drop _ _),
      List.take_left' hlen]

/-- The length in bits is counted, too. -/
structure Absorbed (s : Sha1Impl) (m : Bytes) : Prop where
  buffered : s.Buffered m
  nBits : s.nBits = UInt64.ofNat (8 * m.length)

theorem absorbed_new : new.Absorbed [] := ⟨buffered_new, rfl⟩

theorem addByteDontCountBits_nBits (s : Sha1Impl) (x : UInt8) : (s.addByteDontCountBits x).nBits = s.nBits := by
  unfold addByteDontCountBits
  dsimp only
  split_ifs <;> rfl

/-! ## `append` -/

theorem Absorbed.appendByte {s : Sha1Impl} {m : Bytes} (H : s.Absorbed m) (x : UInt8) :
    (s.appendByte x).Absorbed (m ++ [x]) where
  buffered := H.buffered.add x
  nBits := by
    have hcount : (s.appendByte x).nBits = s.nBits + 8 := by
      rw [← addByteDontCountBits_nBits s x]
      rfl
    rw [hcount, H.nBits, List.length_append, Nat.mul_add, UInt64.ofNat_add]
    rfl

theorem Absorbed.appendBytes {s : Sha1Impl} {m : Bytes} (H : s.Absorbed m) (data : Bytes) :
    (data.foldl Sha1Impl.appendByte s).Absorbed (m ++ data) := by
  induction data generalizing s m with
  | nil => simpa using H
  | cons x data ih => simpa using ih (H.appendByte x)

/-- The first loop stops at the end of a block, or of the data. -/
theorem Absorbed.appendHead {s : Sha1Impl} {m : Bytes} (H : s.Absorbed m) (data : Bytes) :
    ∃ head, data = head ++ (s.appendHead data).2 ∧ (s.appendHead data).1.Absorbed (m ++ head) ∧
      ((s.appendHead data).2 ≠ [] → (s.appendHead data).1.i = 0) := by
  induction data generalizing s m with
  | nil => exact ⟨[], rfl, (List.append_nil m).symm ▸ H, fun h => absurd rfl h⟩
  | cons x data ih =>
    rw [Sha1Impl.appendHead]
    by_cases h : s.i % 64 ≠ 0
    · obtain ⟨head, hdata, habs, hi⟩ := ih (H.appendByte x)
      rw [if_pos h]
      exact ⟨x :: head, congrArg (x :: ·) hdata, by simpa using habs, hi⟩
    · have := s.i_lt
      rw [if_neg h]
      exact ⟨[], rfl, by simpa using H, fun _ => by dsimp only; omega⟩

/-- The second loop takes **blocks**, past an empty buffer. -/
theorem Absorbed.appendBlocks {s : Sha1Impl} {m : Bytes} (H : s.Absorbed m) {data : Bytes}
    (hi : data ≠ [] → s.i = 0) :
    ∃ blocks, data = blocks ++ (s.appendBlocks data).2 ∧ (s.appendBlocks data).1.Absorbed (m ++ blocks) := by
  induction hn : data.length using Nat.strong_induction_on generalizing s m data with
  | _ n ih =>
    subst hn
    rw [Sha1Impl.appendBlocks]
    by_cases h : 64 ≤ data.length
    · have hzero := hi (List.ne_nil_of_length_pos (by omega))
      have htake : (data.take 64).length = 64 := by rw [List.length_take]; omega
      have hblock : Absorbed
          { s with state := processBlock s.state (data.take 64), nBits := s.nBits + (64 : UInt64) <<< 3 }
          (m ++ data.take 64) := by
        refine ⟨?_, ?_⟩
        · have hempty : s.buf.toList.take s.i = [] := by rw [hzero, List.take_zero]
          rw [Buffered, absorb_append, H.buffered, hempty, List.nil_append, ← List.append_nil (data.take 64),
            absorb_block htake, absorb_short (by decide), List.append_nil, words_processBlock]
        · rw [H.nBits, List.length_append, htake, Nat.mul_add, UInt64.ofNat_add]
          rfl
      obtain ⟨blocks, hdata, habs⟩ := ih (data.drop 64).length (by rw [List.length_drop]; omega) hblock
        (fun _ => hzero) rfl
      rw [if_pos h]
      refine ⟨data.take 64 ++ blocks, ?_, by simpa using habs⟩
      rw [List.append_assoc, ← hdata, List.take_append_drop]
    · rw [if_neg h]
      exact ⟨[], rfl, by simpa using H⟩

theorem Absorbed.appendData {s : Sha1Impl} {m : Bytes} (H : s.Absorbed m) (data : Bytes) :
    (s.appendData (some data)).Absorbed (m ++ data) := by
  obtain ⟨head, hdata, hhead, hi⟩ := H.appendHead data
  obtain ⟨blocks, hptr, hblocks⟩ := hhead.appendBlocks hi
  have hall : m ++ data = m ++ head ++ blocks ++ ((s.appendHead data).1.appendBlocks (s.appendHead data).2).2 := by
    rw [List.append_assoc (m ++ head), ← hptr, List.append_assoc, ← hdata]
  rw [hall]
  exact hblocks.appendBytes _

/-- The bytes of an `append`. -/
def Append.bytes : Append → Bytes
  | .byte x => [x]
  | .char c => [c.toUInt8]
  | .raw data => data.getD []
  | .text str => str

/-- **`append`** absorbs its bytes. -/
theorem Absorbed.append {s : Sha1Impl} {m : Bytes} (H : s.Absorbed m) (a : Append) :
    (s.append a).Absorbed (m ++ a.bytes) := by
  cases a with
  | byte x => exact H.appendByte x
  | char c => exact H.appendByte c.toUInt8
  | raw data =>
    cases data with
    | none => exact (List.append_nil m).symm ▸ H
    | some data => exact H.appendData data
  | text text =>
    rw [Sha1Impl.append]
    split_ifs with h
    · simpa [Append.bytes, List.isEmpty_iff.mp h] using H
    · exact H.appendData text

/-- Any **calls** of `append`. -/
theorem Absorbed.appends {s : Sha1Impl} {m : Bytes} (H : s.Absorbed m) (calls : List Append) :
    (calls.foldl Sha1Impl.append s).Absorbed (m ++ calls.flatMap Append.bytes) := by
  induction calls generalizing s m with
  | nil => simpa using H
  | cons a calls ih => simpa using ih (H.append a)

/-! ## `finalize` -/

/-- The zeros go up to the last eight bytes of a block. -/
theorem Buffered.addZeros {s : Sha1Impl} {m : Bytes} (H : s.Buffered m) :
    s.addZeros.Buffered (m ++ List.replicate ((120 - m.length % 64) % 64) 0) := by
  induction hn : (120 - s.i) % 64 generalizing s m with
  | zero =>
    have := H.i_eq
    have := s.i_lt
    have hlen : (120 - m.length % 64) % 64 = 0 := by omega
    rw [Sha1Impl.addZeros, if_neg (by omega), hlen]
    simpa using H
  | succ n ih =>
    have := H.i_eq
    have := s.i_lt
    have hadd := H.add 0
    have hi := hadd.i_eq
    rw [List.length_append, List.length_singleton] at hi
    have hrec := ih hadd (by omega)
    have hcount : (120 - m.length % 64) % 64 = (120 - (m ++ [0]).length % 64) % 64 + 1 := by
      rw [List.length_append, List.length_singleton]
      omega
    rw [Sha1Impl.addZeros, if_pos (by omega), hcount, List.replicate_succ]
    simpa using hrec

theorem addZeros_nBits (s : Sha1Impl) : s.addZeros.nBits = s.nBits := by
  fun_induction addZeros s with
  | case1 s h ih => rw [ih, addByteDontCountBits_nBits]
  | case2 s h => rfl

theorem toUInt8_shiftRight {n : ℕ} (hn : n < 2 ^ 64) {j : UInt64} (hj : j.toNat < 8) :
    (UInt64.ofNat n >>> (j <<< 3)).toUInt8 = UInt8.ofNat (n / 2 ^ (8 * j.toNat)) := by
  have hshift : (j <<< 3).toNat = 8 * j.toNat := by
    rw [UInt64.toNat_shiftLeft, Nat.shiftLeft_eq, Nat.mod_eq_of_lt] <;> simp <;> omega
  apply UInt8.toNat.inj
  rw [UInt64.toNat_toUInt8, UInt64.toNat_shiftRight, hshift, Nat.mod_eq_of_lt (by omega : 8 * j.toNat < 64),
    UInt64.toNat_ofNat_of_lt' hn, Nat.shiftRight_eq_div_pow]
  simp

theorem Buffered.addLength {s : Sha1Impl} {m : Bytes} (H : s.Buffered m) {n : ℕ} (hn : n < 2 ^ 64)
    (hbits : s.nBits = UInt64.ofNat n) (js : List UInt64) (hjs : ∀ j ∈ js, j.toNat < 8) :
    (js.foldl (fun s j => s.addByteDontCountBits (s.nBits >>> (j <<< 3)).toUInt8) s).Buffered
      (m ++ js.map fun j => UInt8.ofNat (n / 2 ^ (8 * j.toNat))) := by
  induction js generalizing s m with
  | nil => simpa using H
  | cons j js ih =>
    have hadd := H.add (UInt8.ofNat (n / 2 ^ (8 * j.toNat)))
    have hj := hjs j List.mem_cons_self
    rw [List.foldl_cons, hbits, toUInt8_shiftRight hn hj, List.map_cons, List.append_cons]
    exact ih hadd (by rw [addByteDontCountBits_nBits, hbits]) fun j' h => hjs j' (List.mem_cons_of_mem j h)

/-- **`finalize`** pads the message. -/
theorem Absorbed.finalize {s : Sha1Impl} {m : Bytes} (H : s.Absorbed m) (hlen : m.length < 2 ^ 61) :
    words s.finalize.state = Fips180.sha1 m := by
  have hzeros := (H.buffered.add 0x80).addZeros
  have hbits : (s.addByteDontCountBits 0x80).addZeros.nBits = UInt64.ofNat (8 * m.length) := by
    rw [addZeros_nBits, addByteDontCountBits_nBits, H.nBits]
  have hall := hzeros.addLength (by omega) hbits [7, 6, 5, 4, 3, 2, 1, 0] (by decide)
  have hcount : (120 - (m ++ [0x80]).length % 64) % 64 = (119 - m.length % 64) % 64 := by
    rw [List.length_append, List.length_singleton]
    omega
  rw [hcount] at hall
  exact (congrArg Prod.fst hall).symm

/-- The state **after `finalize`** is SHA-1 of the whole message, for all calls of `append` that it came in. -/
theorem finalize_eq (calls : List Append) (hlen : (calls.flatMap Append.bytes).length < 2 ^ 61) :
    words (calls.foldl append new).finalize.state = Fips180.sha1 (calls.flatMap Append.bytes) :=
  (absorbed_new.appends calls).finalize hlen

theorem finalize_eq_abc :
    words ([.text [0x61], .byte 0x62, .raw (some [0x63])].foldl append new).finalize.state =
      Fips180.sha1 [0x61, 0x62, 0x63] :=
  finalize_eq [.text [0x61], .byte 0x62, .raw (some [0x63])] (by decide)

end Sha1Impl

end Gts3
