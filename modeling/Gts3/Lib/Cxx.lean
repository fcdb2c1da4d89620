import Gts3.Lib.Search
import Gts3.Lib.Maps
import Mathlib.Data.List.TakeWhile
import Mathlib.Algebra.Order.Ring.Int
import Mathlib.Data.List.Lex

/-!
# The C++ standard library, as far as it is used here

Strings are lists of bytes.  A call that does not return normally has a `Fault`; `Run` is the monad of such calls.
`substr` checks its position as `std::string::substr` does.  `strtoull` is the C function with its blanks, sign,
base prefix and saturation, and `stoull` the C++ wrapper that throws.
-/

namespace Lib.Cxx

/-- A string of bytes. -/
abbrev Bytes := List UInt8

/-- A string literal. -/
def lit (s : String) : Bytes := s.toList.map (fun c => c.toNat.toUInt8)

/-- The line end of network protocols. -/
def crlf : Bytes := [13, 10]

theorem crlf_ne_nil : crlf ≠ [] := List.cons_ne_nil _ _

theorem borderless_crlf : Search.Borderless crlf := Search.borderless_pair (by decide)

/-- A statement about the elements of a list is decided on the list, not on all values of its type. -/
instance (priority := 2000) decidableForallMem {α : Type} {P : α → Prop} [DecidablePred P] (l : List α) :
    Decidable (∀ a ∈ l, P a) := List.decidableBAll P l

/-- A statement about all bytes is decided on their numbers. -/
theorem forall_byte {P : UInt8 → Prop} (h : ∀ n < 256, P (UInt8.ofNat n)) (c : UInt8) : P c := by
  simpa using h c.toNat c.toNat_lt

/-- What a C function sees of a string: the bytes before the first zero byte. -/
def cStr (s : Bytes) : Bytes := s.takeWhile (· ≠ 0)

theorem cStr_of_not_mem {s : Bytes} (h : 0 ∉ s) : cStr s = s :=
  List.takeWhile_eq_self_iff.mpr fun c hc => by simpa using fun h0 : c = 0 => h (h0 ▸ hc)

theorem cStr_append_zero {s : Bytes} (h : 0 ∉ s) (t : Bytes) : cStr (s ++ 0 :: t) = s := by
  rw [cStr, List.takeWhile_append_of_pos fun c hc => by simpa using fun h0 : c = 0 => h (h0 ▸ hc)]
  simp

/-- `operator<` of strings. -/
def stringLess (s t : Bytes) : Bool := s.map UInt8.toNat < t.map UInt8.toNat

/-- Strings that `operator<` does not tell apart are the same. -/
theorem same_stringLess (s t : Bytes) : Same stringLess s t ↔ s = t := by
  have hinj : Function.Injective UInt8.toNat := fun a b hab => UInt8.toNat_inj.mp hab
  rw [← (List.map_injective_iff.mpr hinj).eq_iff]
  simp only [Same, stringLess, decide_eq_false_iff_not, not_lt]
  exact ⟨fun h => le_antisymm h.2 h.1, fun h => ⟨h.ge, h.le⟩⟩

instance : StrictWeak stringLess where
  irrefl s := by simp [stringLess]
  trans h h' := by
    rw [stringLess, decide_eq_true_eq] at h h' ⊢
    exact h.trans h'
  incomp_trans h1 h2 h3 h4 := by
    obtain rfl := (same_stringLess _ _).mp ⟨h1, h2⟩
    exact ⟨h3, h4⟩

/-! ## Calls that do not return normally -/

/-- Why a call does not return normally. -/
inductive Fault
  /-- `std::out_of_range` is thrown. -/
  | outOfRange
  /-- A null pointer is dereferenced. -/
  | nullPointer
  /-- A value is read as another type than it holds. -/
  | badVariant
  /-- A write behind the end of a buffer. -/
  | overflow
  /-- A loop does not end within the bound that its data sets. -/
  | diverge
  /-- The call still waits for input when the input script ends. -/
  | blocked
  /-- An element behind the end of a container is used. -/
  | badIndex
  /-- A difference of unsigned numbers wraps around. -/
  | underflow
  deriving DecidableEq, Repr

/-- The result of a call, or why there is none. -/
abbrev Run := Except Fault

section Run

variable {ε α β : Type}

@[simp] theorem ok_bind (a : α) (f : α → Except ε β) : (Except.ok a >>= f) = f a := rfl

@[simp] theorem error_bind (e : ε) (f : α → Except ε β) : ((Except.error e : Except ε α) >>= f) = .error e := rfl

@[simp] theorem pure_eq_ok (a : α) : (pure a : Except ε α) = .ok a := rfl

theorem ok_ne_error (a : α) (e : ε) : (Except.ok a : Except ε α) ≠ .error e := fun h => by cases h

/-- A call that returns has come through its first part. -/
theorem run_bind_eq_ok {x : Except ε α} {f : α → Except ε β} {b : β} :
    (x >>= f) = .ok b ↔ ∃ a, x = .ok a ∧ f a = .ok b := by
  cases x with
  | error e => simp
  | ok a => simp

/-- The call returns, or has one of these faults. -/
def FailsOnly (P : Fault → Prop) (x : Run α) : Prop := ∀ e, x = .error e → P e

theorem failsOnly_ok {P : Fault → Prop} (a : α) : FailsOnly P (.ok a) := nofun

theorem failsOnly_error {P : Fault → Prop} {e : Fault} (h : P e) : FailsOnly P (.error e : Run α) := by
  rintro _ ⟨⟩
  exact h

theorem FailsOnly.mono {P Q : Fault → Prop} {x : Run α} (h : FailsOnly P x) (hPQ : ∀ e, P e → Q e) : FailsOnly Q x :=
  fun e he => hPQ e (h e he)

/-- A call has the faults of its parts. -/
theorem FailsOnly.bind {P : Fault → Prop} {x : Run α} {f : α → Run β} (hx : FailsOnly P x)
    (hf : ∀ a, x = .ok a → FailsOnly P (f a)) : FailsOnly P (x >>= f) := by
  cases x with
  | error e => exact failsOnly_error (hx e rfl)
  | ok a => exact hf a rfl

/-- A call does not fail with `e` when neither of its parts does. -/
theorem run_bind_ne {e : Fault} {x : Run α} {f : α → Run β} (hx : x ≠ .error e) (hf : ∀ a, x = .ok a → f a ≠ .error e) :
    (x >>= f) ≠ .error e := by
  cases x with
  | error e' => exact fun h => hx (congrArg Except.error (Except.error.inj h))
  | ok a => exact hf a rfl

end Run

/-- `a -= b` of unsigned numbers. -/
def minus (a b : ℕ) : Run ℕ := if b ≤ a then .ok (a - b) else .error .underflow

theorem minus_of_le {a b : ℕ} (h : b ≤ a) : minus a b = .ok (a - b) := if_pos h

section Strings

variable {α : Type}

/-- `s.substr(pos, n)`. -/
def substr (s : List α) (pos : ℕ) (n : ℕ) : Run (List α) :=
  if pos ≤ s.length then .ok ((s.drop pos).take n) else .error .outOfRange

/-- `s.substr(pos)`. -/
def substrFrom (s : List α) (pos : ℕ) : Run (List α) :=
  if pos ≤ s.length then .ok (s.drop pos) else .error .outOfRange

/-- `l[i]` of a container. -/
def index (l : List α) (i : ℕ) : Run α :=
  match l[i]? with
  | some a => .ok a
  | none => .error .badIndex

theorem index_of_get {l : List α} {i : ℕ} {a : α} (h : l[i]? = some a) : index l i = .ok a := by
  rw [index, h]

@[simp] theorem substr_zero (s : List α) (n : ℕ) : substr s 0 n = .ok (s.take n) := rfl

theorem substr_of_le {s : List α} {pos : ℕ} (h : pos ≤ s.length) (n : ℕ) :
    substr s pos n = .ok ((s.drop pos).take n) := if_pos h

theorem substrFrom_of_le {s : List α} {pos : ℕ} (h : pos ≤ s.length) :
    substrFrom s pos = .ok (s.drop pos) := if_pos h

/-- The elements `std::unique` keeps behind the kept element `last`. -/
def uniqueFrom (same : α → α → Bool) : α → List α → List α
  | _, [] => []
  | last, a :: s => if same last a then uniqueFrom same last s else a :: uniqueFrom same a s

/-- `std::unique` with a test on neighbours, and the erasure of what it leaves behind. -/
def unique (same : α → α → Bool) : List α → List α
  | [] => []
  | a :: s => a :: uniqueFrom same a s

/-- `std::lexicographical_compare`. -/
def lexicographicalCompare (lt : α → α → Bool) : List α → List α → Bool
  | _, [] => false
  | [], _ :: _ => true
  | a :: s, b :: t => lt a b || (!lt b a && lexicographicalCompare lt s t)

end Strings

/-! ## Characters in the C locale -/

/-- `tolower`. -/
def tolower (c : UInt8) : UInt8 := if 65 ≤ c ∧ c ≤ 90 then c + 32 else c

/-- `toupper`. -/
def toupper (c : UInt8) : UInt8 := if 97 ≤ c ∧ c ≤ 122 then c - 32 else c

/-- `isspace`. -/
def isspace (c : UInt8) : Bool := c == 32 || (9 ≤ c && c ≤ 13)

/-- The value of a digit or letter; 36 for every other byte. -/
def digitVal (c : UInt8) : ℕ :=
  if 48 ≤ c ∧ c ≤ 57 then c.toNat - 48
  else if 97 ≤ c ∧ c ≤ 122 then c.toNat - 97 + 10
  else if 65 ≤ c ∧ c ≤ 90 then c.toNat - 65 + 10
  else 36

/-! ## Numbers -/

/-- `static_cast<int>` of an unsigned number, `none` when the result is negative. -/
def toInt32 (n : ℕ) : Option ℕ :=
  if n % 4294967296 < 2147483648 then some (n % 4294967296) else none

theorem toInt32_of_lt {n : ℕ} (h : n < 2147483648) : toInt32 n = some n := by
  rw [toInt32, Nat.mod_eq_of_lt (by omega), if_pos h]

/-- The value of a list of digits, the first one counting most. -/
def numeral (base : ℕ) (ds : Bytes) : ℕ := ds.foldl (fun n c => n * base + digitVal c) 0

/-- What `strtoull` gives: the value, whether there were digits at all, and whether they overflowed. -/
structure Strtoull where
  value : ℕ
  parsed : Bool
  range : Bool
  deriving DecidableEq, Repr

/-- The sign in front of a number. -/
def signOf : Bytes → Bool × Bytes
  | 45 :: s => (true, s)
  | 43 :: s => (false, s)
  | s => (false, s)

/-- The prefix `0x` in front of a hexadecimal number, when a digit follows. -/
def skipHexPrefix : Bytes → Bytes
  | 48 :: x :: d :: s => if (x = 120 ∨ x = 88) ∧ digitVal d < 16 then d :: s else 48 :: x :: d :: s
  | s => s

/-- `strtoull(s, &end, base)` with a 64-bit result. -/
def strtoull (base : ℕ) (s : Bytes) : Strtoull :=
  let (neg, s) := signOf (s.dropWhile isspace)
  let s := if base = 16 then skipHexPrefix s else s
  let ds := s.takeWhile (fun c => digitVal c < base)
  let n := numeral base ds
  if ds = [] then ⟨0, false, false⟩
  else if 2 ^ 64 ≤ n then ⟨2 ^ 64 - 1, true, true⟩
  else ⟨if neg then (2 ^ 64 - n) % 2 ^ 64 else n, true, false⟩

/-- A digit is neither a blank nor a sign, nor the letter of a base prefix. -/
theorem digit_ne {c : UInt8} (h : digitVal c < 16) : isspace c = false ∧ c ≠ 43 ∧ c ≠ 45 ∧ c ≠ 88 ∧ c ≠ 120 := by
  have hspace : ∀ c, digitVal c < 16 → isspace c = false := forall_byte (by decide +kernel)
  refine ⟨hspace c h, ?_, ?_, ?_, ?_⟩ <;> (rintro rfl; exact absurd h (by decide))

theorem dropWhile_isspace_digits {ds : Bytes} (hne : ds ≠ []) (hds : ∀ c ∈ ds, digitVal c < 16) (s : Bytes) :
    (ds ++ s).dropWhile isspace = ds ++ s := by
  obtain ⟨c, ds, rfl⟩ := List.exists_cons_of_ne_nil hne
  exact List.dropWhile_cons_of_neg (by simp [(digit_ne (hds c (by simp))).1])

theorem signOf_digits {ds : Bytes} (hds : ∀ c ∈ ds, digitVal c < 16) : signOf ds = (false, ds) := by
  cases ds with
  | nil => rfl
  | cons c s =>
    obtain ⟨-, h43, h45, -⟩ := digit_ne (hds c (by simp))
    unfold signOf
    split <;> simp_all

/-- **A text of digits** is read as the number it stands for. -/
theorem strtoull_digits {base : ℕ} (hb : base ≤ 16) {ds : Bytes} (hne : ds ≠ []) (hds : ∀ c ∈ ds, digitVal c < base)
    (hlt : numeral base ds < 2 ^ 64) : strtoull base ds = ⟨numeral base ds, true, false⟩ := by
  have hdigit : ∀ c ∈ ds, digitVal c < 16 := fun c hc => lt_of_lt_of_le (hds c hc) hb
  have hspace : ds.dropWhile isspace = ds := by simpa using dropWhile_isspace_digits hne hdigit []
  have hsign : signOf ds = (false, ds) := signOf_digits hdigit
  have hpre : (if base = 16 then skipHexPrefix ds else ds) = ds := by
    split_ifs
    · unfold skipHexPrefix
      split
      · next x d s =>
        obtain ⟨-, -, -, h88, h120⟩ := digit_ne (hdigit x (by simp))
        rw [if_neg (by simp [h88, h120])]
      · rfl
    · rfl
  have htake : ds.takeWhile (fun c => digitVal c < base) = ds :=
    List.takeWhile_eq_self_iff.mpr fun c hc => by simpa using hds c hc
  simp only [strtoull, hspace, hsign, hpre, htake]
  rw [if_neg hne, if_neg (Nat.not_le.mpr hlt), if_neg Bool.false_ne_true]

/-- `std::stoull(s, nullptr, base)`, `none` when it throws. -/
def stoull (base : ℕ) (s : Bytes) : Option ℕ :=
  let r := strtoull base s
  if r.parsed && !r.range then some r.value else none

theorem stoull_digits {base : ℕ} (hb : base ≤ 16) {ds : Bytes} (hne : ds ≠ []) (hds : ∀ c ∈ ds, digitVal c < base)
    (hlt : numeral base ds < 2 ^ 64) : stoull base ds = some (numeral base ds) := by
  rw [stoull, strtoull_digits hb hne hds hlt]
  rfl

/-- `std::sscanf(s, "%zu", &n)`: the number stays as it is when the text does not begin with one. -/
def scanSize (s : Bytes) (n : ℕ) : ℕ :=
  let r := strtoull 10 (cStr s)
  if r.parsed then r.value else n

/-- Subtraction of 64-bit numbers, which wraps around. -/
def sub64 (a b : ℕ) : ℕ := if b ≤ a then a - b else 2 ^ 64 - (b - a)

theorem sub64_of_le {a b : ℕ} (h : b ≤ a) : sub64 a b = a - b := if_pos h

theorem strtoull_value_lt (base : ℕ) (s : Bytes) : (strtoull base s).value < 2 ^ 64 := by
  simp only [strtoull]
  generalize List.takeWhile (fun c => decide (digitVal c < base)) _ = ds
  split_ifs with hnil hrange hneg
  · show 0 < 2 ^ 64
    omega
  · show 2 ^ 64 - 1 < 2 ^ 64
    omega
  · exact Nat.mod_lt _ (by omega)
  · show numeral base ds < 2 ^ 64
    omega

theorem scanSize_lt (s : Bytes) {n : ℕ} (hn : n < 2 ^ 64) : scanSize s n < 2 ^ 64 := by
  unfold scanSize
  dsimp only
  split_ifs
  · exact strtoull_value_lt 10 _
  · exact hn

/-- The digits of a number, as the formats `{}` and `{:X}` print them. -/
def formatNat (base n : ℕ) : Bytes := (Nat.toDigits base n).map (fun c => toupper c.toNat.toUInt8)

theorem digitVal_digitChar : ∀ d < 16, digitVal (toupper (Nat.digitChar d).toNat.toUInt8) = d := by decide

theorem numeral_append (base : ℕ) (ds : Bytes) (c : UInt8) :
    numeral base (ds ++ [c]) = numeral base ds * base + digitVal c := by
  simp [numeral, List.foldl_append]

/-- Digits give a number with at most as many digits. -/
theorem numeral_lt {base : ℕ} {ds : Bytes} (hds : ∀ c ∈ ds, digitVal c < base) :
    numeral base ds < base ^ ds.length := by
  induction ds using List.reverseRecOn with
  | nil => simp [numeral]
  | append_singleton ds c ih =>
    have hc : digitVal c + 1 ≤ base := hds c (by simp)
    have hlt : numeral base ds + 1 ≤ base ^ ds.length := ih fun d hd => hds d (by simp [hd])
    rw [numeral_append, List.length_append, List.length_singleton, Nat.pow_succ]
    calc numeral base ds * base + digitVal c < numeral base ds * base + base := by omega
      _ = (numeral base ds + 1) * base := (Nat.succ_mul _ _).symm
      _ ≤ base ^ ds.length * base := Nat.mul_le_mul_right base hlt

section Format

variable {base : ℕ} (hb : 1 < base) (hb' : base ≤ 16)
include hb hb'

/-- **The printed digits** stand for the number. -/
theorem numeral_formatNat (n : ℕ) : numeral base (formatNat base n) = n := by
  induction n using Nat.strong_induction_on with
  | _ n ih =>
    rw [formatNat, Nat.toDigits_eq_if hb]
    split_ifs with hn
    · simp [numeral, digitVal_digitChar n (by omega)]
    · have hdiv : n / base < n := Nat.div_lt_self (by omega) hb
      have hmod : n % base < base := Nat.mod_lt _ (by omega)
      rw [List.map_append, List.map_singleton, numeral_append, ← formatNat, ih _ hdiv,
        digitVal_digitChar _ (by omega)]
      exact Nat.div_add_mod' n base

theorem formatNat_injective : Function.Injective (formatNat base) := by
  intro n m h
  rw [← numeral_formatNat hb hb' n, h, numeral_formatNat hb hb']

theorem digitVal_lt_of_mem_formatNat (n : ℕ) : ∀ c ∈ formatNat base n, digitVal c < base := by
  induction n using Nat.strong_induction_on with
  | _ n ih =>
    rw [formatNat, Nat.toDigits_eq_if hb]
    split_ifs with hn
    · simpa [digitVal_digitChar n (by omega)] using hn
    · have hdiv : n / base < n := Nat.div_lt_self (by omega) hb
      have hmod : n % base < base := Nat.mod_lt _ (by omega)
      intro c hc
      rw [List.map_append, ← formatNat] at hc
      rcases List.mem_append.mp hc with hc | hc
      · exact ih _ hdiv c hc
      · obtain rfl : c = _ := by simpa using hc
        rwa [digitVal_digitChar _ (by omega)]

omit hb' in
/-- A number has no more digits than any power of the base above it. -/
theorem length_formatNat_le {k : ℕ} (hk : 0 < k) {n : ℕ} (hn : n < base ^ k) : (formatNat base n).length ≤ k := by
  induction k generalizing n with
  | zero => omega
  | succ k ih =>
    rw [formatNat, Nat.toDigits_eq_if hb, List.length_map]
    split_ifs with hlt
    · simp
    · have hk' : 0 < k := by
        rcases Nat.eq_zero_or_pos k with rfl | hk'
        · rw [Nat.zero_add, Nat.pow_one] at hn
          omega
        · exact hk'
      have hdiv : n / base < base ^ k := Nat.div_lt_of_lt_mul (by rwa [← Nat.pow_succ'])
      have hlen := ih hk' hdiv
      rw [formatNat, List.length_map] at hlen
      rw [List.length_append, List.length_singleton]
      omega

omit hb hb' in
theorem formatNat_ne_nil (n : ℕ) : formatNat base n ≠ [] := by
  simp [formatNat, Nat.toDigits_ne_nil]

end Format

end Lib.Cxx
