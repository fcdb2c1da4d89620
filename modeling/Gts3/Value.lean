import Gts3.Lib.Integers

/-!
# `gts/value.h`: numbers as text

A `value` is a string.  Made of an integer, it is what `fmt` prints; `get` reads it with the function for the type,
which goes through `long`, `unsigned long` or, for `long long`, through an unsigned number.  Nothing is lost on the way
(`get_ofInteger`).
-/

namespace Gts3

open Lib Lib.Cxx

/-! ## `stoi8` to `stoui64` -/

section Readers

variable (m : DataModel) (str : Bytes) (base : ℕ)

/-- `std::strtol`. -/
def strtol : IntType.long.Val m := strtoSigned m .long base (cStr str)

/-- `std::strtoul`. -/
def strtoul : IntType.unsignedLong.Val m := strtoUnsigned m .unsignedLong base (cStr str)

/-- `std::strtoll`. -/
def strtoll : IntType.longLong.Val m := strtoSigned m .longLong base (cStr str)

/-- `stoi8`. -/
def stoi8 : IntType.signedChar.Val m := IntType.cast m .signedChar (strtol m str base).toInt

/-- `stoui8`. -/
def stoui8 : IntType.unsignedChar.Val m := IntType.cast m .unsignedChar (strtoul m str base).toInt

/-- `stoi16`. -/
def stoi16 : IntType.short.Val m := IntType.cast m .short (strtol m str base).toInt

/-- `stoui16`. -/
def stoui16 : IntType.unsignedShort.Val m := IntType.cast m .unsignedShort (strtoul m str base).toInt

/-- `stoi32`. -/
def stoi32 : IntType.int.Val m := IntType.cast m .int (strtol m str base).toInt

/-- `stoui32`. -/
def stoui32 : IntType.unsignedInt.Val m := IntType.cast m .unsignedInt (strtoul m str base).toInt

/-- `stoi64`; `int64_t` has the values of `long long`. -/
def stoi64 : IntType.longLong.Val m := IntType.cast m .longLong (strtoll m str base).toInt

/-- `stoui64`; `uint64_t` has the values of `unsigned long long`. -/
def stoui64 : IntType.unsignedLongLong.Val m := IntType.cast m .unsignedLongLong (strtoull base (cStr str)).value

end Readers

namespace Value

/-- `value(v)` of an integer. -/
def ofInteger {m : DataModel} {T : IntType} (v : T.Val m) : Bytes := formatInt v.toInt

/-- `get<T>`. -/
def get (m : DataModel) : (T : IntType) → Bytes → T.Val m
  | .signedChar, str => stoi8 m str 10
  | .unsignedChar, str => stoui8 m str 10
  | .short, str => stoi16 m str 10
  | .unsignedShort, str => stoui16 m str 10
  | .int, str => stoi32 m str 10
  | .unsignedInt, str => stoui32 m str 10
  | .long, str => IntType.cast m .long (stoi64 m str 10).toInt
  | .unsignedLong, str => IntType.cast m .unsignedLong (stoui64 m str 10).toInt
  | .longLong, str => IntType.cast m .longLong (stoui64 m str 10).toInt
  | .unsignedLongLong, str => stoui64 m str 10

/-! ## Through a wider type -/

section Wider

variable {m : DataModel} {T : IntType}

/-- The values of `T` are values of `S`. -/
def Widens (m : DataModel) (T S : IntType) : Prop := S.min m ≤ T.min m ∧ T.max m ≤ S.max m

instance (m : DataModel) (T S : IntType) : Decidable (Widens m T S) := inferInstanceAs (Decidable (_ ∧ _))

theorem cast_strtoSigned {S : IntType} (h : Widens m T S) (v : T.Val m) :
    IntType.cast m T (strtoSigned m S 10 (cStr (ofInteger v))).toInt = v := by
  rw [ofInteger, cStr_formatInt, strtoSigned_formatInt (h.1.trans v.min_le) (v.le_max.trans h.2), IntType.cast_toInt]

theorem cast_strtoUnsigned {S : IntType} (h : Widens m T S) (hpos : 0 ≤ T.min m) (v : T.Val m) :
    IntType.cast m T (strtoUnsigned m S 10 (cStr (ofInteger v))).toInt = v := by
  rw [ofInteger, cStr_formatInt,
    strtoUnsigned_formatInt (h.1.trans v.min_le) (v.le_max.trans h.2) (hpos.trans v.min_le), IntType.cast_toInt]

/-- `stoui64` of a number that 64 bits hold, signed or unsigned, is the number modulo `2 ^ 64`. -/
theorem stoui64_formatInt {v : ℤ} (hmin : -(2 ^ 63 : ℤ) ≤ v) (hmax : v < 2 ^ 64) :
    (stoui64 m (formatInt v) 10).toInt = v % 2 ^ 64 := by
  rw [stoui64, cStr_formatInt, strtoull_formatInt (by omega) hmax]
  refine IntType.toInt_cast_of_mem ?_ ?_
  · have hle : 0 ≤ v % 2 ^ 64 := Int.emod_nonneg _ (by decide)
    simpa [IntType.min, IntType.isSigned] using hle
  · have hlt : v % 2 ^ 64 < 2 ^ 64 := Int.emod_lt_of_pos _ (by decide)
    simp only [IntType.max, IntType.isSigned, Bool.false_eq_true, if_false, IntType.half, IntType.lowBits]
    omega

theorem cast_stoui64 (hpos : 0 ≤ T.min m) (hmax : T.max m < 2 ^ 64) (v : T.Val m) :
    IntType.cast m T (stoui64 m (ofInteger v) 10).toInt = v := by
  have hmin := v.min_le
  have hle := v.le_max
  rw [ofInteger, stoui64_formatInt (by omega) (by omega), Int.emod_eq_of_lt (by omega) (by omega), IntType.cast_toInt]

/-- A signed number of 64 bits goes through `stoui64` as another number, and comes back. -/
theorem cast_stoui64_longLong (v : IntType.longLong.Val m) :
    IntType.cast m .longLong (stoui64 m (ofInteger v) 10).toInt = v := by
  have hhalf : IntType.longLong.half m = 9223372036854775808 := rfl
  have hmin : -9223372036854775808 ≤ v.toInt := by
    simpa [IntType.min, IntType.isSigned, hhalf] using v.min_le
  have hmax : v.toInt ≤ 9223372036854775807 := by
    simpa [IntType.max, IntType.isSigned, hhalf] using v.le_max
  have hemod : IntType.cast m .longLong (v.toInt % 2 ^ 64) = IntType.cast m .longLong v.toInt := by
    simpa [hhalf] using IntType.cast_emod m .longLong v.toInt
  rw [ofInteger, stoui64_formatInt (by omega) (by omega), hemod, IntType.cast_toInt]

end Wider

/-- **An integer comes back** from its text, for every type and every value of it, whatever the size of `long` is. -/
theorem get_ofInteger (m : DataModel) (T : IntType) (v : T.Val m) : get m T (ofInteger v) = v := by
  cases T with
  | signedChar => exact cast_strtoSigned (by cases m <;> decide) v
  | short => exact cast_strtoSigned (by cases m <;> decide) v
  | int => exact cast_strtoSigned (by cases m <;> decide) v
  | unsignedChar => exact cast_strtoUnsigned (by cases m <;> decide) (by cases m <;> decide) v
  | unsignedShort => exact cast_strtoUnsigned (by cases m <;> decide) (by cases m <;> decide) v
  | unsignedInt => exact cast_strtoUnsigned (by cases m <;> decide) (by cases m <;> decide) v
  | long =>
    have hwide : Widens m .long .longLong := by cases m <;> decide
    rw [get, stoi64, IntType.cast_toInt]
    exact cast_strtoSigned hwide v
  | unsignedLong => exact cast_stoui64 (by cases m <;> decide) (by cases m <;> decide) v
  | longLong => exact cast_stoui64_longLong v
  | unsignedLongLong =>
    have h := cast_stoui64 (by cases m <;> decide) (by cases m <;> decide) v
    rwa [IntType.cast_toInt] at h

/-- The smallest `long long`. -/
example : get .lp64 .longLong (lit "-9223372036854775808") = IntType.cast .lp64 .longLong (-9223372036854775808) := by
  decide +kernel

end Value

end Gts3
