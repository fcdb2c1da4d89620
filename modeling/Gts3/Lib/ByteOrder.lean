import Gts3.Lib.WebSocketFrame
import Mathlib.Data.List.Induction

/-!
# Integers in memory

The bytes of an integer of any width, in either order: `objectBytes` is how it lies in memory and `ofObject` what bytes
in memory stand for, each the inverse of the other.  `byteReverse` takes its bytes the other way round.
-/

namespace Lib.ByteOrder

open WebSocketFrame

/-! ## Big-endian numbers -/

theorem ofBigEndian_append_singleton (l : List UInt8) (b : UInt8) :
    ofBigEndian (l ++ [b]) = 256 * ofBigEndian l + b.toNat := by
  rw [ofBigEndian, List.foldl_append]
  rfl

theorem bigEndian_succ (k n : ℕ) : bigEndian (k + 1) n = bigEndian k (n / 256) ++ [UInt8.ofNat n] := by
  induction k with
  | zero => simp [bigEndian]
  | succ k ih =>
    rw [bigEndian, ih, bigEndian, List.cons_append, Nat.div_div_eq_div_mul, ← pow_succ']

theorem ofBigEndian_lt (l : List UInt8) : ofBigEndian l < 256 ^ l.length := by
  induction l using List.reverseRecOn with
  | nil => exact Nat.one_pos
  | append_singleton l b ih =>
    have hb := b.toNat_lt
    rw [ofBigEndian_append_singleton, List.length_append, List.length_singleton, pow_succ]
    omega

/-- The bytes of the number that bytes stand for. -/
theorem bigEndian_ofBigEndian (l : List UInt8) : bigEndian l.length (ofBigEndian l) = l := by
  induction l using List.reverseRecOn with
  | nil => rfl
  | append_singleton l b ih =>
    have hb := b.toNat_lt
    have hdiv : (256 * ofBigEndian l + b.toNat) / 256 = ofBigEndian l := by omega
    have hbyte : UInt8.ofNat (256 * ofBigEndian l + b.toNat) = b := by
      rw [← UInt8.toNat_inj, UInt8.toNat_ofNat']
      omega
    rw [ofBigEndian_append_singleton, List.length_append, List.length_singleton, bigEndian_succ, hdiv, hbyte, ih]

/-- The byte `j`, counted from the most significant one. -/
theorem bigEndian_get {k j : ℕ} (hj : j < k) (n : ℕ) :
    (bigEndian k n)[j]? = some (UInt8.ofNat (n / 256 ^ (k - 1 - j))) := by
  induction k generalizing j with
  | zero => omega
  | succ k ih =>
    rw [bigEndian]
    cases j with
    | zero => rfl
    | succ j =>
      rw [List.getElem?_cons_succ, ih (by omega), show k + 1 - 1 - (j + 1) = k - 1 - j by omega]

/-! ## Objects -/

/-- The order of the bytes in memory. -/
inductive Endian
  | little
  | big
  deriving DecidableEq, Repr

/-- From the most significant byte first to the order in memory, and back. -/
def Endian.order (e : Endian) (l : List UInt8) : List UInt8 :=
  match e with
  | little => l.reverse
  | big => l

@[simp] theorem Endian.order_order (e : Endian) (l : List UInt8) : e.order (e.order l) = l := by
  cases e with
  | little => exact l.reverse_reverse
  | big => rfl

@[simp] theorem Endian.length_order (e : Endian) (l : List UInt8) : (e.order l).length = l.length := by
  cases e with
  | little => exact l.length_reverse
  | big => rfl

theorem Endian.order_reverse (e : Endian) (l : List UInt8) : e.order l.reverse = (e.order l).reverse := by
  cases e <;> rfl

variable {k : ℕ}

/-- An integer of `k` bytes as it lies in memory. -/
def objectBytes (e : Endian) (t : BitVec (8 * k)) : List UInt8 := e.order (bigEndian k t.toNat)

/-- The integer of `k` bytes that lies in memory. -/
def ofObject (e : Endian) (k : ℕ) (l : List UInt8) : BitVec (8 * k) := .ofNat _ (ofBigEndian (e.order l))

@[simp] theorem length_objectBytes (e : Endian) (t : BitVec (8 * k)) : (objectBytes e t).length = k := by
  simp [objectBytes]

theorem pow_eight_mul (k : ℕ) : 2 ^ (8 * k) = 256 ^ k := pow_mul 2 8 k

@[simp] theorem ofObject_objectBytes (e : Endian) (t : BitVec (8 * k)) : ofObject e k (objectBytes e t) = t := by
  have hlt : t.toNat < 256 ^ k := pow_eight_mul k ▸ t.isLt
  rw [ofObject, objectBytes, Endian.order_order, ofBigEndian_bigEndian hlt, BitVec.ofNat_toNat, BitVec.setWidth_eq]

theorem objectBytes_ofObject (e : Endian) {l : List UInt8} (hl : l.length = k) :
    objectBytes e (ofObject e k l) = l := by
  have hlt : ofBigEndian (e.order l) < 2 ^ (8 * k) := by
    rw [pow_eight_mul, ← hl, ← e.length_order l]
    exact ofBigEndian_lt _
  have hlen : (e.order l).length = k := (e.length_order l).trans hl
  rw [objectBytes, ofObject, BitVec.toNat_ofNat, Nat.mod_eq_of_lt hlt]
  conv_lhs => rw [← hlen]
  rw [bigEndian_ofBigEndian, Endian.order_order]

/-- The integer with the bytes the other way round. -/
def byteReverse (t : BitVec (8 * k)) : BitVec (8 * k) := ofObject .big k (objectBytes .big t).reverse

/-- **The reversed bytes in memory** are the reversed integer, whatever the order in memory. -/
theorem ofObject_reverse (e : Endian) (t : BitVec (8 * k)) :
    ofObject e k (objectBytes e t).reverse = byteReverse t := by
  rw [byteReverse, ofObject, ofObject, objectBytes, Endian.order_reverse, Endian.order_order]
  rfl

theorem byteReverse_byteReverse (t : BitVec (8 * k)) : byteReverse (byteReverse t) = t := by
  have hlen : (objectBytes .big t).reverse.length = k := by simp
  rw [byteReverse, byteReverse, objectBytes_ofObject .big hlen, List.reverse_reverse, ofObject_objectBytes]

/-- The bytes of an integer as parts of it. -/
theorem objectBytes_get {j : ℕ} (hj : j < k) (t : BitVec (8 * k)) :
    (objectBytes .big t)[j]? = some ⟨t.extractLsb' (8 * (k - 1 - j)) 8⟩ := by
  refine (bigEndian_get hj t.toNat).trans (congrArg some ?_)
  rw [← UInt8.toNat_inj, UInt8.toNat_ofNat', ← pow_eight_mul, UInt8.toNat_ofBitVec, BitVec.extractLsb'_toNat,
    Nat.shiftRight_eq_div_pow]

/-- **Byte by byte**: the byte `i`, counted from the least significant one, is the byte `i` from the other end. -/
theorem extractLsb_byteReverse (t : BitVec (8 * k)) {i : ℕ} (hi : i < k) :
    (byteReverse t).extractLsb' (8 * i) 8 = t.extractLsb' (8 * (k - 1 - i)) 8 := by
  have hlen : (objectBytes .big t).reverse.length = k := by simp
  have hback : k - 1 - (k - 1 - i) = i := by omega
  have hget := objectBytes_get (show k - 1 - i < k by omega) (byteReverse t)
  have hbytes : objectBytes .big (byteReverse t) = (objectBytes .big t).reverse := objectBytes_ofObject .big hlen
  rw [hbytes, List.getElem?_reverse (by rw [length_objectBytes]; omega), length_objectBytes, hback,
    objectBytes_get hi] at hget
  exact (congrArg UInt8.toBitVec (Option.some.inj hget)).symm

end Lib.ByteOrder
