import Gts3.Lib.Cxx

/-!
# `sscanf` and `sprintf` with hexadecimal numbers

A format is a list of characters and of hexadecimal fields with a width.  `sscanf` reads field after field up to the
first one that does not match, `sprintf` pads every number with zeros.  What is printed in a format can be read in it
(`scan_print`).
-/

namespace Lib.Scanf

open Cxx

/-- A directive: a character that must follow, or a field of at most `width` characters. -/
inductive Directive
  | char (c : UInt8)
  | hex (width : ℕ)
  deriving DecidableEq, Repr

def Directive.isField : Directive → Bool
  | .char _ => false
  | .hex _ => true

/-- What stands behind `0x`. -/
def afterHexPrefix : Bytes → Bytes
  | 48 :: x :: s => if x = 120 ∨ x = 88 then s else 48 :: x :: s
  | s => s

/-- `%x` with a width: the value, and the text behind it.  Blanks in front do not count; the item is the longest part
that a number can begin with, and it must be one. -/
def scanHex (width : ℕ) (s : Bytes) : Option (ℕ × Bytes) :=
  let s := s.dropWhile isspace
  let item := s.take width
  let neg := (signOf item).1
  let digits := afterHexPrefix (signOf item).2
  let ds := digits.takeWhile fun c => digitVal c < 16
  let n := numeral 16 ds
  if ds = [] then none
  else some (if 2 ^ 64 ≤ n then 2 ^ 64 - 1 else if neg then (2 ^ 64 - n) % 2 ^ 64 else n,
    s.drop (item.length - digits.length + ds.length))

/-- `sscanf`: the values that are read, in order. -/
def scan : List Directive → Bytes → List ℕ
  | [], _ => []
  | .char c :: fmt, s =>
    match s with
    | [] => []
    | d :: s => if d = c then scan fmt s else []
  | .hex width :: fmt, s =>
    match scanHex width s with
    | none => []
    | some (n, s) => n :: scan fmt s

/-- `%0wX`. -/
def printHex (width n : ℕ) : Bytes := List.replicate (width - (formatNat 16 n).length) 48 ++ formatNat 16 n

/-- `sprintf` of numbers in a format. -/
def print : List Directive → List ℕ → Bytes
  | [], _ => []
  | .char c :: fmt, ns => c :: print fmt ns
  | .hex width :: fmt, n :: ns => printHex width n ++ print fmt ns
  | .hex width :: fmt, [] => printHex width 0 ++ print fmt []

/-- Numbers that fill their fields and no more. -/
def Fits : List Directive → List ℕ → Prop
  | [], ns => ns = []
  | .char _ :: fmt, ns => Fits fmt ns
  | .hex _ :: _, [] => False
  | .hex width :: fmt, n :: ns => 0 < width ∧ width ≤ 16 ∧ n < 16 ^ width ∧ Fits fmt ns

/-! ## Printed fields -/

theorem length_printHex {width n : ℕ} (hw : 0 < width) (hn : n < 16 ^ width) : (printHex width n).length = width := by
  have hlen : (formatNat 16 n).length ≤ width := length_formatNat_le (by decide) hw hn
  rw [printHex, List.length_append, List.length_replicate]
  omega

theorem digitVal_lt_of_mem_printHex {width n : ℕ} : ∀ c ∈ printHex width n, digitVal c < 16 := by
  intro c hc
  rcases List.mem_append.mp hc with hc | hc
  · obtain rfl := List.eq_of_mem_replicate hc
    decide
  · exact digitVal_lt_of_mem_formatNat (by decide) (by decide) n c hc

theorem numeral_replicate_zero (k : ℕ) (ds : Bytes) : numeral 16 (List.replicate k 48 ++ ds) = numeral 16 ds := by
  induction k with
  | zero => rfl
  | succ k ih =>
    rw [List.replicate_succ, List.cons_append, numeral, List.foldl_cons]
    exact ih

theorem numeral_printHex (width n : ℕ) : numeral 16 (printHex width n) = n := by
  rw [printHex, numeral_replicate_zero, numeral_formatNat (by decide) (by decide)]

theorem afterHexPrefix_digits {ds : Bytes} (hds : ∀ c ∈ ds, digitVal c < 16) : afterHexPrefix ds = ds := by
  unfold afterHexPrefix
  split
  · next x rest =>
    obtain ⟨-, -, -, h88, h120⟩ := digit_ne (hds x (by simp))
    rw [if_neg (by simp [h88, h120])]
  · rfl

/-- **A printed field** is read back. -/
theorem scanHex_printHex {width n : ℕ} (hw : 0 < width) (hw' : width ≤ 16) (hn : n < 16 ^ width) (s : Bytes) :
    scanHex width (printHex width n ++ s) = some (n, s) := by
  have hnum := numeral_printHex width n
  have hlen := length_printHex hw hn
  have hdigit : ∀ c ∈ printHex width n, digitVal c < 16 := digitVal_lt_of_mem_printHex
  generalize printHex width n = ds at *
  have hne : ds ≠ [] := List.ne_nil_of_length_pos (by omega)
  have hspace := dropWhile_isspace_digits hne hdigit s
  have htake : (ds ++ s).take width = ds := List.take_left' hlen
  have hsign := signOf_digits hdigit
  have hprefix := afterHexPrefix_digits hdigit
  have hdigits : (ds.takeWhile fun c => digitVal c < 16) = ds :=
    List.takeWhile_eq_self_iff.mpr fun c hc => by simpa using hdigit c hc
  have hlt : n < 2 ^ 64 := by
    calc n < 16 ^ width := hn
      _ ≤ 16 ^ 16 := Nat.pow_le_pow_right (by decide) hw'
      _ = 2 ^ 64 := by decide
  have hdrop : (ds ++ s).drop (ds.length - ds.length + ds.length) = s := by
    rw [Nat.sub_self, Nat.zero_add, List.drop_left]
  simp only [scanHex, hspace, htake, hsign, hprefix, hdigits, hdrop]
  rw [if_neg hne, hnum, if_neg (by omega), if_neg Bool.false_ne_true]

/-- **What is printed** in a format is read in it, whatever follows. -/
theorem scan_print (fmt : List Directive) {ns : List ℕ} (h : Fits fmt ns) (s : Bytes) :
    scan fmt (print fmt ns ++ s) = ns := by
  induction fmt generalizing ns with
  | nil => exact h.symm
  | cons d fmt ih =>
    cases d with
    | char c =>
      rw [print, List.cons_append, scan, if_pos rfl]
      exact ih h
    | hex width =>
      cases ns with
      | nil => exact h.elim
      | cons n ns =>
        obtain ⟨hw, hw', hn, hrest⟩ := h
        rw [print, List.append_assoc, scan, scanHex_printHex hw hw' hn]
        exact congrArg (n :: ·) (ih hrest)

/-- As many values are read as there are fields, or fewer. -/
theorem length_scan_le (fmt : List Directive) (s : Bytes) : (scan fmt s).length ≤ fmt.countP Directive.isField := by
  induction fmt generalizing s with
  | nil => exact Nat.zero_le _
  | cons d fmt ih =>
    cases d with
    | char c =>
      cases s with
      | nil => exact Nat.zero_le _
      | cons e s =>
        rw [scan, List.countP_cons]
        by_cases h : e = c
        · rw [if_pos h]
          exact (ih s).trans (Nat.le_add_right _ _)
        · rw [if_neg h]
          exact Nat.zero_le _
    | hex width =>
      rw [scan, List.countP_cons]
      cases scanHex width s with
      | none => exact Nat.zero_le _
      | some r => exact Nat.succ_le_succ (ih r.2)

/-- The length of what is printed. -/
def Directive.size : Directive → ℕ
  | .char _ => 1
  | .hex width => width

theorem length_print (fmt : List Directive) {ns : List ℕ} (h : Fits fmt ns) :
    (print fmt ns).length = (fmt.map Directive.size).sum := by
  induction fmt generalizing ns with
  | nil => rfl
  | cons d fmt ih =>
    cases d with
    | char c =>
      rw [print, List.length_cons, ih h, List.map_cons, List.sum_cons, Directive.size, Nat.add_comm]
    | hex width =>
      cases ns with
      | nil => exact h.elim
      | cons n ns =>
        obtain ⟨hw, hw', hn, hrest⟩ := h
        rw [print, List.length_append, length_printHex hw hn, ih hrest, List.map_cons, List.sum_cons, Directive.size]

/-- What is printed has no zero byte where the format has none. -/
theorem zero_not_mem_print {fmt : List Directive} (hfmt : .char 0 ∉ fmt) (ns : List ℕ) : 0 ∉ print fmt ns := by
  have hfield : ∀ width n, 0 ∉ printHex width n := fun width n h =>
    absurd (digitVal_lt_of_mem_printHex 0 h) (by decide)
  induction fmt generalizing ns with
  | nil => exact List.not_mem_nil
  | cons d fmt ih =>
    have hrest := ih (fun h => hfmt (List.mem_cons_of_mem d h))
    cases d with
    | char c =>
      have hc : (0 : UInt8) ≠ c := fun h => hfmt (h ▸ List.mem_cons_self)
      simp [print, hc, hrest]
    | hex width => cases ns <;> simp [print, hfield, hrest]

theorem scanHex_brace (width : ℕ) (s : Bytes) : scanHex width (123 :: s) = none := by
  have hspace : (123 :: s).dropWhile isspace = 123 :: s := List.dropWhile_cons_of_neg (by decide)
  cases width with
  | zero => simp [scanHex, signOf, afterHexPrefix]
  | succ width =>
    have hdigit : ¬ digitVal 123 < 16 := by decide
    simp only [scanHex, hspace, List.take_succ_cons]
    rw [signOf, afterHexPrefix, List.takeWhile_cons_of_neg (by simpa using hdigit), if_pos rfl]
    all_goals simp

end Lib.Scanf
