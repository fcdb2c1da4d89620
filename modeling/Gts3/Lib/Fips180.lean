import Gts3.Lib.BlockHash
import Mathlib.Data.List.GetD

/-!
# FIPS 180-4: SHA-1

The padding of a message, the message schedule, the rounds and the hash, as the standard has them.
-/

namespace Lib.Fips180

open BlockHash

/-! ## Words -/

/-- Rotation to the left. -/
def rotl (x n : UInt32) : UInt32 := (x <<< n) ||| (x >>> (32 - n))

def ch (x y z : UInt32) : UInt32 := (x &&& y) ^^^ (~~~x &&& z)

def parity (x y z : UInt32) : UInt32 := x ^^^ y ^^^ z

def maj (x y z : UInt32) : UInt32 := (x &&& y) ^^^ (x &&& z) ^^^ (y &&& z)

/-- The function of round `t`. -/
def f (t : ℕ) : UInt32 → UInt32 → UInt32 → UInt32 :=
  if t < 20 then ch else if t < 40 then parity else if t < 60 then maj else parity

/-- The constant of round `t`. -/
def k (t : ℕ) : UInt32 :=
  if t < 20 then 0x5A827999 else if t < 40 then 0x6ED9EBA1 else if t < 60 then 0x8F1BBCDC else 0xCA62C1D6

/-- The word at `4 * t` in a block, the first byte in front. -/
def wordAt (block : List UInt8) (t : ℕ) : UInt32 :=
  ((block.getD (4 * t) 0).toUInt32 <<< 24) ||| ((block.getD (4 * t + 1) 0).toUInt32 <<< 16) |||
    ((block.getD (4 * t + 2) 0).toUInt32 <<< 8) ||| (block.getD (4 * t + 3) 0).toUInt32

/-! ## The compression -/

/-- The first words of the message schedule. -/
def schedule (block : List UInt8) : ℕ → List UInt32
  | 0 => []
  | t + 1 =>
    let w := schedule block t
    w ++ [if t < 16 then wordAt block t
      else rotl (w.getD (t - 3) 0 ^^^ w.getD (t - 8) 0 ^^^ w.getD (t - 14) 0 ^^^ w.getD (t - 16) 0) 1]

/-- The working variables, or a hash value. -/
structure Words where
  a : UInt32
  b : UInt32
  c : UInt32
  d : UInt32
  e : UInt32
  deriving DecidableEq, Repr

/-- The initial hash value. -/
def init : Words := ⟨0x67452301, 0xEFCDAB89, 0x98BADCFE, 0x10325476, 0xC3D2E1F0⟩

/-- Round `t`, with its word of the schedule. -/
def round (t : ℕ) (w : UInt32) (v : Words) : Words :=
  ⟨rotl v.a 5 + f t v.b v.c v.d + v.e + k t + w, v.a, rotl v.b 30, v.c, v.d⟩

/-- The first rounds. -/
def rounds (w : List UInt32) (v : Words) : ℕ → Words
  | 0 => v
  | t + 1 => round t (w.getD t 0) (rounds w v t)

/-- The next hash value. -/
def compress (h : Words) (block : List UInt8) : Words :=
  let v := rounds (schedule block 80) h 80
  ⟨v.a + h.a, v.b + h.b, v.c + h.c, v.d + h.d, v.e + h.e⟩

/-! ## The hash -/

/-- A length in bits, in eight bytes. -/
def lengthBytes (n : ℕ) : List UInt8 := [7, 6, 5, 4, 3, 2, 1, 0].map fun j => UInt8.ofNat (n / 2 ^ (8 * j))

/-- The padded message: a bit, zeros up to the end of a block but for eight bytes, and the length. -/
def pad (m : List UInt8) : List UInt8 :=
  m ++ [0x80] ++ List.replicate ((119 - m.length % 64) % 64) 0 ++ lengthBytes (8 * m.length)

instance neZero_blockSize : NeZero 64 := ⟨by decide⟩

/-- SHA-1. -/
def sha1 (m : List UInt8) : Words := (absorb 64 compress init (pad m)).1

/-! ## The schedule -/

@[simp] theorem length_schedule (block : List UInt8) (t : ℕ) : (schedule block t).length = t := by
  induction t with
  | zero => rfl
  | succ t ih => simp [schedule, ih]

/-- A word of the schedule. -/
def w (block : List UInt8) (t : ℕ) : UInt32 := (schedule block (t + 1)).getD t 0

/-- The words stay as they are. -/
theorem getD_schedule (block : List UInt8) {s t : ℕ} (h : s < t) : (schedule block t).getD s 0 = w block s := by
  induction t with
  | zero => omega
  | succ t ih =>
    rcases Nat.lt_succ_iff_lt_or_eq.mp h with hlt | rfl
    · rw [schedule, List.getD_append _ _ _ _ (by simpa using hlt), ih hlt]
    · rfl

theorem w_eq (block : List UInt8) (t : ℕ) :
    w block t = if t < 16 then wordAt block t
      else rotl (w block (t - 3) ^^^ w block (t - 8) ^^^ w block (t - 14) ^^^ w block (t - 16)) 1 := by
  rw [w, schedule, List.getD_append_right _ _ _ _ (by simp)]
  simp only [length_schedule, Nat.sub_self, List.getD_cons_zero]
  split_ifs with h
  · rfl
  · rw [getD_schedule block (by omega), getD_schedule block (by omega), getD_schedule block (by omega),
      getD_schedule block (by omega)]

end Lib.Fips180
