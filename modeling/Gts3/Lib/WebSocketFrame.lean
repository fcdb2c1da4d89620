import Mathlib.Data.List.Basic
import Mathlib.Algebra.Order.Ring.Nat
import Mathlib.Tactic.Ring

/-!
# RFC 6455, section 5.2: the header of a frame

Any header that the format can express, which of them an endpoint has to accept, and the bytes.
-/

namespace Lib.WebSocketFrame

/-! ## Big-endian numbers -/

/-- The last `k` bytes of a number, the most significant in front. -/
def bigEndian : ℕ → ℕ → List UInt8
  | 0, _ => []
  | k + 1, n => UInt8.ofNat (n / 256 ^ k) :: bigEndian k n

/-- The number that bytes stand for. -/
def ofBigEndian (l : List UInt8) : ℕ := l.foldl (fun n b => 256 * n + b.toNat) 0

@[simp] theorem length_bigEndian (k n : ℕ) : (bigEndian k n).length = k := by
  induction k with
  | zero => rfl
  | succ k ih => rw [bigEndian, List.length_cons, ih]

theorem foldl_bigEndian (k n m : ℕ) :
    (bigEndian k n).foldl (fun n b => 256 * n + b.toNat) m = 256 ^ k * m + n % 256 ^ k := by
  induction k generalizing m with
  | zero => simp [bigEndian, Nat.mod_one]
  | succ k ih =>
    have hdigit : n % 256 ^ (k + 1) = n % 256 ^ k + 256 ^ k * (n / 256 ^ k % 256) := by
      rw [pow_succ, Nat.mod_mul]
    have hbyte : (UInt8.ofNat (n / 256 ^ k)).toNat = n / 256 ^ k % 256 := UInt8.toNat_ofNat'
    rw [bigEndian, List.foldl_cons, ih, hdigit, hbyte]
    ring

theorem ofBigEndian_bigEndian {k n : ℕ} (h : n < 256 ^ k) : ofBigEndian (bigEndian k n) = n := by
  rw [ofBigEndian, foldl_bigEndian, Nat.mod_eq_of_lt h]
  omega

/-! ## Headers -/

/-- A payload length, in seven bits, in sixteen or in sixty-four. -/
inductive Length
  | seven (n : Fin 126)
  | sixteen (n : Fin (2 ^ 16))
  | sixtyFour (n : Fin (2 ^ 64))

namespace Length

def value : Length → ℕ
  | seven n => n
  | sixteen n => n
  | sixtyFour n => n

/-- There is no shorter way to write it. -/
def Minimal : Length → Prop
  | seven _ => True
  | sixteen n => 126 ≤ n.val
  | sixtyFour n => 2 ^ 16 ≤ n.val

instance : DecidablePred Minimal
  | seven _ => inferInstanceAs (Decidable True)
  | sixteen n => inferInstanceAs (Decidable (126 ≤ n.val))
  | sixtyFour n => inferInstanceAs (Decidable (2 ^ 16 ≤ n.val))

/-- The seven bits. -/
def bits : Length → ℕ
  | seven n => n
  | sixteen _ => 126
  | sixtyFour _ => 127

/-- The extended length. -/
def extended : Length → List UInt8
  | seven _ => []
  | sixteen n => bigEndian 2 n
  | sixtyFour n => bigEndian 8 n

end Length

/-- A header, up to the masking key. -/
structure Header where
  fin : Bool
  rsv1 : Bool
  rsv2 : Bool
  rsv3 : Bool
  opcode : Fin 16
  mask : Bool
  length : Length

namespace Header

def firstByte (h : Header) : UInt8 :=
  UInt8.ofNat (128 * h.fin.toNat + 64 * h.rsv1.toNat + 32 * h.rsv2.toNat + 16 * h.rsv3.toNat + h.opcode)

def secondByte (h : Header) : UInt8 := UInt8.ofNat (128 * h.mask.toNat + h.length.bits)

/-- The bytes of a header. -/
def encode (h : Header) : List UInt8 := h.firstByte :: h.secondByte :: h.length.extended

/-- A header that an endpoint without extensions accepts: no reserved bits, a defined opcode, control frames short
and in one piece, and the length minimal and without its highest bit. -/
structure Valid (h : Header) : Prop where
  rsv : h.rsv1 = false ∧ h.rsv2 = false ∧ h.rsv3 = false
  opcode : h.opcode.val ∈ [0, 1, 2, 8, 9, 10]
  control : 8 ≤ h.opcode.val → h.fin = true ∧ h.length.value ≤ 125
  minimal : h.length.Minimal
  highestBit : h.length.value < 2 ^ 63

end Header

end Lib.WebSocketFrame
