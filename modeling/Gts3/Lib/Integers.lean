import Gts3.Lib.Cxx

/-!
# Integer types, and the C functions that read them

The ten integer types under the two usual data models, with values that are in range by construction.  A conversion
wraps around (`cast`), and is the identity on a value of the type (`cast_toInt`).  `strtoSigned` and `strtoUnsigned` are
`strtol` and `strtoul` at any type: what they read of a printed number is the number, if the type has it
(`strtoSigned_formatInt`), and otherwise, for the unsigned ones, the number wrapped around.
-/

namespace Lib.Cxx

/-! ## Types -/

/-- The size of `long`. -/
inductive DataModel
  /-- `long` has 64 bits. -/
  | lp64
  /-- `long` has 32 bits. -/
  | llp64
  deriving DecidableEq, Repr

/-- The signed and unsigned integer types. -/
inductive IntType
  | signedChar | unsignedChar
  | short | unsignedShort
  | int | unsignedInt
  | long | unsignedLong
  | longLong | unsignedLongLong
  deriving DecidableEq, Repr

namespace IntType

/-- Whether the type is signed. -/
def isSigned : IntType → Bool
  | signedChar | short | int | long | longLong => true
  | unsignedChar | unsignedShort | unsignedInt | unsignedLong | unsignedLongLong => false

/-- The number of bits but for one. -/
def lowBits (m : DataModel) : IntType → ℕ
  | signedChar | unsignedChar => 7
  | short | unsignedShort => 15
  | int | unsignedInt => 31
  | long | unsignedLong => match m with
    | .lp64 => 63
    | .llp64 => 31
  | longLong | unsignedLongLong => 63

/-- Half the number of values. -/
def half (m : DataModel) (T : IntType) : ℕ := 2 ^ T.lowBits m

/-- The smallest value. -/
def min (m : DataModel) (T : IntType) : ℤ := if T.isSigned then -(T.half m : ℤ) else 0

/-- The largest value. -/
def max (m : DataModel) (T : IntType) : ℤ := if T.isSigned then T.half m - 1 else 2 * T.half m - 1

/-- A value of the type. -/
@[ext] structure Val (m : DataModel) (T : IntType) where
  toInt : ℤ
  min_le : T.min m ≤ toInt
  le_max : toInt ≤ T.max m
  deriving DecidableEq

theorem half_pos (m : DataModel) (T : IntType) : 0 < T.half m := Nat.two_pow_pos _

/-- A number wrapped around to the range of the type. -/
def wrap (m : DataModel) (T : IntType) (v : ℤ) : ℤ :=
  if T.isSigned then v.bmod (2 * T.half m) else v % (2 * T.half m : ℕ)

theorem wrap_mem (m : DataModel) (T : IntType) (v : ℤ) : T.min m ≤ T.wrap m v ∧ T.wrap m v ≤ T.max m := by
  have hpos := T.half_pos m
  unfold min max wrap
  split_ifs
  · have hle := Int.le_bmod (x := v) (show 0 < 2 * T.half m by omega)
    have hlt := Int.bmod_lt (x := v) (show 0 < 2 * T.half m by omega)
    omega
  · have hle := Int.emod_nonneg v (show ((2 * T.half m : ℕ) : ℤ) ≠ 0 by omega)
    have hlt := Int.emod_lt_of_pos v (show 0 < ((2 * T.half m : ℕ) : ℤ) by omega)
    omega

/-- The conversion of a number to the type. -/
def cast (m : DataModel) (T : IntType) (v : ℤ) : T.Val m := ⟨T.wrap m v, (T.wrap_mem m v).1, (T.wrap_mem m v).2⟩

theorem wrap_of_mem {m : DataModel} {T : IntType} {v : ℤ} (hmin : T.min m ≤ v) (hmax : v ≤ T.max m) :
    T.wrap m v = v := by
  have hpos := T.half_pos m
  unfold min at hmin
  unfold max at hmax
  unfold wrap
  split_ifs at hmin hmax ⊢
  · exact Int.bmod_eq_of_le (by omega) (by omega)
  · exact Int.emod_eq_of_lt hmin (by omega)

theorem toInt_cast_of_mem {m : DataModel} {T : IntType} {v : ℤ} (hmin : T.min m ≤ v) (hmax : v ≤ T.max m) :
    (T.cast m v).toInt = v := wrap_of_mem hmin hmax

theorem cast_toInt {m : DataModel} {T : IntType} (v : T.Val m) : cast m T v.toInt = v :=
  Val.ext (wrap_of_mem v.min_le v.le_max)

/-- Wrapping around to an unsigned type of the same size is undone by a conversion. -/
theorem cast_emod (m : DataModel) (T : IntType) (v : ℤ) : cast m T (v % (2 * T.half m : ℕ)) = cast m T v := by
  refine Val.ext ?_
  simp only [cast, wrap, Int.emod_bmod, Int.emod_emod]

end IntType

/-! ## Printing and reading -/

/-- An integer as the format `{}` prints it. -/
def formatInt (v : ℤ) : Bytes := if v < 0 then 45 :: formatNat 10 v.natAbs else formatNat 10 v.natAbs

/-- What the readers take of a text: the sign and the digits, `none` without digits. -/
def scanInteger (base : ℕ) (s : Bytes) : Option (Bool × ℕ) :=
  let (neg, s) := signOf (s.dropWhile isspace)
  let s := if base = 16 then skipHexPrefix s else s
  let ds := s.takeWhile (fun c => digitVal c < base)
  if ds = [] then none else some (neg, numeral base ds)

/-- The number with its sign. -/
def signed (neg : Bool) (n : ℕ) : ℤ := if neg then -n else n

/-- `strtol` at a signed type: beyond the range, the nearest end of it. -/
def strtoSigned (m : DataModel) (T : IntType) (base : ℕ) (s : Bytes) : T.Val m :=
  match scanInteger base s with
  | none => T.cast m 0
  | some (neg, n) =>
    if signed neg n < T.min m then T.cast m (T.min m)
    else if T.max m < signed neg n then T.cast m (T.max m)
    else T.cast m (signed neg n)

/-- `strtoul` at an unsigned type: beyond the range, its end, and a sign negates in the type. -/
def strtoUnsigned (m : DataModel) (T : IntType) (base : ℕ) (s : Bytes) : T.Val m :=
  match scanInteger base s with
  | none => T.cast m 0
  | some (neg, n) => if T.max m < n then T.cast m (T.max m) else T.cast m (signed neg n)

theorem strtoull_scan (base : ℕ) (s : Bytes) :
    (strtoull base s).value = match scanInteger base s with
      | none => 0
      | some (neg, n) => if 2 ^ 64 ≤ n then 2 ^ 64 - 1 else if neg then (2 ^ 64 - n) % 2 ^ 64 else n := by
  simp only [strtoull, scanInteger]
  generalize List.takeWhile (fun c => decide (digitVal c < base)) _ = ds
  generalize (signOf (s.dropWhile isspace)).1 = neg
  by_cases hnil : ds = []
  · rw [if_pos hnil, if_pos hnil]
  · rw [if_neg hnil, if_neg hnil]
    simp only
    split_ifs <;> rfl

theorem signed_natAbs (v : ℤ) : signed (decide (v < 0)) v.natAbs = v := by
  by_cases h : v < 0
  · simp only [signed, h, decide_true, if_true]
    omega
  · simp only [signed, h, decide_false, Bool.false_eq_true, if_false]
    omega

/-- **A printed integer** is scanned as it is. -/
theorem scanInteger_formatInt (v : ℤ) : scanInteger 10 (formatInt v) = some (decide (v < 0), v.natAbs) := by
  have hdigits := digitVal_lt_of_mem_formatNat (show 1 < 10 by decide) (by decide) v.natAbs
  have hdigits' : ∀ c ∈ formatNat 10 v.natAbs, digitVal c < 16 := fun c hc => lt_trans (hdigits c hc) (by decide)
  have hne : formatNat 10 v.natAbs ≠ [] := formatNat_ne_nil v.natAbs
  have htake : (formatNat 10 v.natAbs).takeWhile (fun c => digitVal c < 10) = formatNat 10 v.natAbs :=
    List.takeWhile_eq_self_iff.mpr fun c hc => by simpa using hdigits c hc
  have hsign : signOf ((formatInt v).dropWhile isspace) = (decide (v < 0), formatNat 10 v.natAbs) := by
    unfold formatInt
    split_ifs with h
    · rw [List.dropWhile_cons_of_neg (by decide), decide_eq_true h]
      rfl
    · have hspace := dropWhile_isspace_digits hne hdigits' []
      rw [List.append_nil] at hspace
      rw [hspace, signOf_digits hdigits', decide_eq_false h]
  simp only [scanInteger, hsign, Nat.reduceEqDiff, if_false, htake, if_neg hne,
    numeral_formatNat (show 1 < 10 by decide) (by decide)]

theorem cStr_formatInt (v : ℤ) : cStr (formatInt v) = formatInt v := by
  refine cStr_of_not_mem fun h => ?_
  have hnat : 0 ∉ formatNat 10 v.natAbs := fun h =>
    absurd (digitVal_lt_of_mem_formatNat (by decide) (by decide) _ _ h) (by decide)
  unfold formatInt at h
  split_ifs at h
  · rcases List.mem_cons.mp h with h | h
    · exact absurd h (by decide)
    · exact hnat h
  · exact hnat h

section Read

variable {m : DataModel} {T : IntType} {v : ℤ}

/-- **A signed reader** gives the number back, when the type has it. -/
theorem strtoSigned_formatInt (hmin : T.min m ≤ v) (hmax : v ≤ T.max m) :
    (strtoSigned m T 10 (formatInt v)).toInt = v := by
  simp only [strtoSigned, scanInteger_formatInt, signed_natAbs]
  rw [if_neg (not_lt.mpr hmin), if_neg (not_lt.mpr hmax)]
  exact IntType.toInt_cast_of_mem hmin hmax

/-- **An unsigned reader** as well. -/
theorem strtoUnsigned_formatInt (hmin : T.min m ≤ v) (hmax : v ≤ T.max m) (hpos : 0 ≤ v) :
    (strtoUnsigned m T 10 (formatInt v)).toInt = v := by
  have habs : (v.natAbs : ℤ) = v := Int.natAbs_of_nonneg hpos
  simp only [strtoUnsigned, scanInteger_formatInt, signed_natAbs, habs]
  rw [if_neg (not_lt.mpr hmax)]
  exact IntType.toInt_cast_of_mem hmin hmax

/-- `strtoull` gives the number back modulo `2 ^ 64`, sign or not. -/
theorem strtoull_formatInt (hmin : -(2 ^ 64 : ℤ) < v) (hmax : v < 2 ^ 64) :
    ((strtoull 10 (formatInt v)).value : ℤ) = v % 2 ^ 64 := by
  rw [strtoull_scan, scanInteger_formatInt]
  simp only
  rw [if_neg (by omega)]
  by_cases h : v < 0
  · rw [if_pos (by simpa using h)]
    omega
  · rw [if_neg (by simpa using h)]
    omega

end Read

end Lib.Cxx
