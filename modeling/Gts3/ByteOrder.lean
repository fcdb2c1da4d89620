import Gts3.Lib.Cxx
import Gts3.Lib.ByteOrder

/-!
# `gts/detail/byte_order.h`: the order of bytes

`reverse` swaps the bytes of an array, or of an integer in memory, with three exclusive ors for each pair.  That would
clear a byte that is swapped with itself, but no byte is: the middle one is left out (`xorSwap_eq`).  So the array comes
out reversed (`reverseLoop_eq`) and an integer with its bytes the other way round, and `ntoh` undoes `hton` on every
host (`reverse_ntoh_hton`). -/

namespace Gts3.ByteOrder

open Lib Lib.Cxx Lib.ByteOrder Lib.WebSocketFrame

/-! ## The functions -/

/-- `array[m] ^= array[n]`. -/
def xorAssign (array : Bytes) (m n : ℕ) : Run Bytes := do
  let a ← index array m
  let b ← index array n
  .ok (array.set m (a ^^^ b))

/-- The body of the loops. -/
def xorSwap (array : Bytes) (m n : ℕ) : Run Bytes := do
  let array ← xorAssign array m n
  let array ← xorAssign array n m
  xorAssign array m n

/-- The loop over the first half of `len` bytes. -/
def reverseLoop (len : ℕ) : ℕ → ℕ → Bytes → Run Bytes
  | 0, _, _ => .error .diverge
  | fuel + 1, i, array =>
    if i < len >>> 1 then do
      let rest ← minus len i
      let n ← minus rest 1
      let array ← xorSwap array i n
      reverseLoop len fuel (i + 1) array
    else .ok array

/-- `reverse(data, len)`. -/
def reverseData (data : Bytes) (len : ℕ) : Run Bytes := reverseLoop len (len + 1) 0 data

variable {k : ℕ}

/-- `reverse(t)`, of an integer type with `k` bytes. -/
def reverse (e : Endian) (t : BitVec (8 * k)) : Run (BitVec (8 * k)) := do
  let object ← reverseLoop k (k + 1) 0 (objectBytes e t)
  .ok (ofObject e k object)

/-- `is_little_endian`: the byte of the constant that lies in front. -/
def isLittleEndian (e : Endian) : Bool := (objectBytes e (0x12345678 : BitVec (8 * 4))).head? = some 0x78

/-- `is_big_endian`. -/
def isBigEndian (e : Endian) : Bool := !isLittleEndian e

/-- `hton(t)`. -/
def hton (e : Endian) (t : BitVec (8 * k)) : Run (BitVec (8 * k)) := if isBigEndian e then .ok t else reverse e t

/-- `hton(data, len)`. -/
def htonData (e : Endian) (data : Bytes) (len : ℕ) : Run Bytes :=
  if isBigEndian e then .ok data else reverseData data len

/-- `ntoh(t)`. -/
def ntoh (e : Endian) (t : BitVec (8 * k)) : Run (BitVec (8 * k)) := if isBigEndian e then .ok t else reverse e t

/-- `ntoh(data, len)`. -/
def ntohData (e : Endian) (data : Bytes) (len : ℕ) : Run Bytes :=
  if isBigEndian e then .ok data else reverseData data len

/-! ## Arrays -/

theorem xorAssign_eq {array : Bytes} {m n : ℕ} {a b : UInt8} (hm : array[m]? = some a) (hn : array[n]? = some b) :
    xorAssign array m n = .ok (array.set m (a ^^^ b)) := by
  rw [xorAssign, index_of_get hm, ok_bind, index_of_get hn, ok_bind]

/-- **Two different bytes** are swapped. -/
theorem xorSwap_eq (front mid back : Bytes) (a b : UInt8) :
    xorSwap (front ++ a :: mid ++ b :: back) front.length (front.length + mid.length + 1) =
      .ok (front ++ b :: mid ++ a :: back) := by
  have hm : ∀ x y : UInt8, (front ++ x :: mid ++ y :: back)[front.length]? = some x := fun x y => by simp
  have hn : ∀ x y : UInt8, (front ++ x :: mid ++ y :: back)[front.length + mid.length + 1]? = some y := fun x y => by
    rw [List.getElem?_append_right (by simp; omega)]
    simp [Nat.add_assoc]
  have hsetm : ∀ x y z : UInt8, (front ++ x :: mid ++ y :: back).set front.length z = front ++ z :: mid ++ y :: back :=
    fun x y z => by simp
  have hsetn : ∀ x y z : UInt8, (front ++ x :: mid ++ y :: back).set (front.length + mid.length + 1) z =
      front ++ x :: mid ++ z :: back := fun x y z => by
    rw [List.set_append_right _ _ (by simp; omega)]
    simp [Nat.add_assoc]
  have hb : b ^^^ (a ^^^ b) = a := by rw [UInt8.xor_comm a b, ← UInt8.xor_assoc, UInt8.xor_self, UInt8.zero_xor]
  have ha : (a ^^^ b) ^^^ a = b := by rw [UInt8.xor_comm, ← UInt8.xor_assoc, UInt8.xor_self, UInt8.zero_xor]
  rw [xorSwap, xorAssign_eq (hm a b) (hn a b), ok_bind, hsetm, xorAssign_eq (hn _ b) (hm _ b), ok_bind, hsetn, hb,
    xorAssign_eq (hm _ a) (hn _ a), hsetm, ha]

/-- A byte swapped with itself is cleared. -/
example : xorSwap [7] 0 0 = .ok [0] := by decide

theorem reverseLoop_stop {len i : ℕ} (h : len < 2 * i + 2) (fuel : ℕ) (array : Bytes) :
    reverseLoop len (fuel + 1) i array = .ok array := by
  rw [reverseLoop, if_neg]
  rw [Nat.shiftRight_one]
  omega

/-- **The loop**, between what it has swapped: it reverses what is left, and touches nothing behind the array. -/
theorem reverseLoop_eq (l : Bytes) {front back : Bytes} (rest : Bytes) {fuel len : ℕ} (heq : front.length = back.length)
    (hlen : len = front.length + l.length + back.length) (hfuel : l.length ≤ fuel) :
    reverseLoop len (fuel + 1) front.length (front ++ l ++ back ++ rest) =
      .ok (front ++ l.reverse ++ back ++ rest) := by
  induction l using List.bidirectionalRec generalizing front back fuel with
  | nil => exact reverseLoop_stop (by rw [List.length_nil] at hlen; omega) fuel _
  | singleton a => exact reverseLoop_stop (by rw [List.length_singleton] at hlen; omega) fuel _
  | cons_append a l b ih =>
    have hlength : (a :: (l ++ [b])).length = l.length + 2 := by simp
    rw [hlength] at hlen hfuel
    obtain ⟨fuel, rfl⟩ : ∃ n, fuel = n + 1 := ⟨fuel - 1, by omega⟩
    have hsplit : front ++ a :: (l ++ [b]) ++ back ++ rest = front ++ a :: l ++ b :: (back ++ rest) := by simp
    have hnext : front ++ b :: l ++ a :: (back ++ rest) = (front ++ [b]) ++ l ++ (a :: back) ++ rest := by simp
    have hother : len - front.length - 1 = front.length + l.length + 1 := by omega
    have hfront : front.length + 1 = (front ++ [b]).length := by simp
    rw [reverseLoop, if_pos (by rw [Nat.shiftRight_one]; omega), minus_of_le (by omega), ok_bind,
      minus_of_le (by omega), ok_bind, hother, hsplit, xorSwap_eq, ok_bind, hnext, hfront,
      ih (by simp [heq]) (by simp only [List.length_append, List.length_cons, List.length_nil]; omega) (by omega)]
    simp

/-- **`reverse(data, len)`** reverses the first `len` bytes. -/
theorem reverseData_append (data rest : Bytes) :
    reverseData (data ++ rest) data.length = .ok (data.reverse ++ rest) := by
  simpa [reverseData] using
    reverseLoop_eq data rest (show ([] : Bytes).length = ([] : Bytes).length from rfl) (by simp) le_rfl

theorem reverseData_reverse (data rest : Bytes) :
    reverseData (data.reverse ++ rest) data.length = .ok (data ++ rest) := by
  have hback := reverseData_append data.reverse rest
  rwa [List.length_reverse, List.reverse_reverse] at hback

/-! ## Integers -/

/-- **`reverse(t)`** takes the bytes the other way round, on every host. -/
theorem reverse_eq (e : Endian) (t : BitVec (8 * k)) : reverse e t = .ok (byteReverse t) := by
  have hloop := reverseData_append (objectBytes e t) []
  rw [List.append_nil, List.append_nil, length_objectBytes, reverseData] at hloop
  rw [reverse, hloop, ok_bind, ofObject_reverse]

theorem isBigEndian_eq (e : Endian) : isBigEndian e = decide (e = .big) := by
  cases e <;> decide +kernel

/-- **In network order** the most significant byte lies in front. -/
theorem hton_bytes (e : Endian) (t : BitVec (8 * k)) :
    ∃ n, hton e t = .ok n ∧ objectBytes e n = bigEndian k t.toNat := by
  rw [hton, isBigEndian_eq]
  cases e with
  | big => exact ⟨t, rfl, rfl⟩
  | little =>
    refine ⟨byteReverse t, reverse_eq _ t, ?_⟩
    rw [← ofObject_reverse .little, objectBytes_ofObject .little (by simp), objectBytes, Endian.order,
      List.reverse_reverse]

/-- **From network order**: bytes that lie in memory are read with the most significant one in front. -/
theorem ntoh_ofObject (e : Endian) {l : Bytes} (hl : l.length = k) :
    ntoh e (ofObject e k l) = .ok (.ofNat _ (ofBigEndian l)) := by
  rw [ntoh, isBigEndian_eq]
  cases e with
  | big => rfl
  | little =>
    have hreverse : byteReverse (ofObject .little k l) = ofObject .little k l.reverse := by
      rw [← ofObject_reverse .little, objectBytes_ofObject .little hl]
    rw [if_neg (by decide), reverse_eq, hreverse, ofObject, Endian.order, List.reverse_reverse]

theorem ntoh_hton (e : Endian) (t : BitVec (8 * k)) : ∃ n, hton e t = .ok n ∧ ntoh e n = .ok t := by
  rw [hton, isBigEndian_eq]
  cases e with
  | big => exact ⟨t, rfl, by rw [ntoh, isBigEndian_eq]; rfl⟩
  | little =>
    refine ⟨byteReverse t, reverse_eq _ t, ?_⟩
    rw [ntoh, isBigEndian_eq, if_neg (by decide), reverse_eq, byteReverse_byteReverse]

theorem ntohData_htonData (e : Endian) (data rest : Bytes) :
    ∃ m, htonData e (data ++ rest) data.length = .ok m ∧ ntohData e m data.length = .ok (data ++ rest) := by
  rw [htonData, isBigEndian_eq]
  cases e with
  | big => exact ⟨data ++ rest, rfl, by rw [ntohData, isBigEndian_eq]; rfl⟩
  | little =>
    refine ⟨data.reverse ++ rest, reverseData_append data rest, ?_⟩
    rw [ntohData, isBigEndian_eq, if_neg (by decide), reverseData_reverse]

/-- **The order of bytes.**  An array is reversed, where no byte is swapped with itself, and reversing it again gives it
back; an integer of any width comes out with its bytes the other way round, and reversing it again gives it back; and
`ntoh` undoes `hton`, on both. -/
theorem reverse_ntoh_hton (e : Endian) (data rest : Bytes) (t : BitVec (8 * k)) :
    (reverseData (data ++ rest) data.length = .ok (data.reverse ++ rest) ∧
      reverseData (data.reverse ++ rest) data.length = .ok (data ++ rest) ∧
      ∀ i < data.length >>> 1, i ≠ data.length - i - 1) ∧
    (∃ r, reverse e t = .ok r ∧
      (∀ i < k, r.extractLsb' (8 * i) 8 = t.extractLsb' (8 * (k - 1 - i)) 8) ∧ reverse e r = .ok t) ∧
    (∃ n, hton e t = .ok n ∧ ntoh e n = .ok t) ∧
    ∃ m, htonData e (data ++ rest) data.length = .ok m ∧ ntohData e m data.length = .ok (data ++ rest) := by
  refine ⟨⟨reverseData_append data rest, reverseData_reverse data rest, fun i hi => ?_⟩,
    ⟨byteReverse t, reverse_eq e t, ?_, ?_⟩, ntoh_hton e t, ntohData_htonData e data rest⟩
  · rw [Nat.shiftRight_one] at hi
    omega
  · exact fun i hi => extractLsb_byteReverse t hi
  · rw [reverse_eq, byteReverse_byteReverse]

end Gts3.ByteOrder
