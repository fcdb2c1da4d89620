import Gts3.Lib.Scanf

/-!
# `gts/uuid.cpp`

What `to_string` prints has 36 bytes, or 38 with braces, and the formats that read it are the ones that print it
(`scan_toString`).  The constructor and the assignment look for 38 and 40 bytes instead: they do not read a text without
braces at all, and the one with braces in the format without (`uuid_iff`).
-/

namespace Gts3

open Lib Lib.Cxx Lib.Scanf

/-- `uuid`, by the fields of `_uuid`. -/
structure Uuid where
  d0 : UInt32
  d1 : UInt16
  d2 : UInt16
  d3 : Vector UInt8 8
  deriving DecidableEq

namespace Uuid

/-! ## The source -/

/-- The fields, in the order of the formats. -/
def fields (u : Uuid) : List ℕ := [u.d0.toNat, u.d1.toNat, u.d2.toNat] ++ u.d3.toList.map UInt8.toNat

/-- Numbers stored in the fields, each in as many bits as its field has. -/
def ofFields (ns : List ℕ) : Uuid :=
  ⟨.ofNat (ns.getD 0 0), .ofNat (ns.getD 1 0), .ofNat (ns.getD 2 0), Vector.ofFn fun i => .ofNat (ns.getD (i + 3) 0)⟩

/-- The values that `sscanf` has read, in the fields they belong to. -/
def store (u : Uuid) (ns : List ℕ) : Uuid := ofFields (ns ++ u.fields.drop ns.length)

/-- `%08x-%04hx-%04hx-%02hhx%02hhx-%02hhx%02hhx%02hhx%02hhx%02hhx%02hhx`. -/
def bareFormat : List Directive :=
  [.hex 8, .char 45, .hex 4, .char 45, .hex 4, .char 45, .hex 2, .hex 2, .char 45, .hex 2, .hex 2, .hex 2, .hex 2,
    .hex 2, .hex 2]

/-- The format in braces. -/
def bracedFormat : List Directive := .char 123 :: bareFormat ++ [.char 125]

/-- `_wide_integers{0}`. -/
def zero : Uuid := ofFields []

/-- `operator=(const std::string &uuid)`. -/
def assign (u : Uuid) (uuid : Bytes) : Uuid :=
  if uuid.length = 38 then u.store (scan bareFormat (cStr uuid))
  else if uuid.length = 40 then u.store (scan bracedFormat (cStr uuid))
  else u

/-- `uuid(const std::string &uuid)`. -/
def construct (uuid : Bytes) : Uuid :=
  if uuid.length = 38 then zero.store (scan bareFormat (cStr uuid))
  else if uuid.length = 40 then zero.store (scan bracedFormat (cStr uuid))
  else zero

/-- `to_string(parcel)`. -/
def toString (u : Uuid) (parcel : Bool) : Bytes :=
  if parcel then print bracedFormat u.fields else print bareFormat u.fields

/-! ## Fields -/

theorem d3_eq (v : Vector UInt8 8) : v.toList = [v[0], v[1], v[2], v[3], v[4], v[5], v[6], v[7]] := by
  obtain ⟨⟨l⟩, hl⟩ := v
  match l, hl with
  | [_, _, _, _, _, _, _, _], _ => rfl

@[simp] theorem length_fields (u : Uuid) : u.fields.length = 11 := by simp [fields]

/-- The number of bits of each field. -/
def bits : List ℕ := [32, 16, 16, 8, 8, 8, 8, 8, 8, 8, 8]

/-- Values in as many bits as their fields have. -/
def truncated (ns : List ℕ) : List ℕ := List.zipWith (fun n b => n % 2 ^ b) ns bits

theorem length_truncated {ns : List ℕ} (h : ns.length ≤ 11) : (truncated ns).length = ns.length := by
  rw [truncated, List.length_zipWith]
  exact min_eq_left h

theorem ofFields_fields (u : Uuid) : ofFields u.fields = u := by
  have hd3 : Vector.ofFn (fun i : Fin 8 => UInt8.ofNat (u.fields.getD (i + 3) 0)) = u.d3 := by
    apply Vector.ext
    intro i hi
    have hget : u.fields.getD (i + 3) 0 = u.d3[i].toNat := by
      simp [fields, List.getD_eq_getElem?_getD, hi]
    rw [Vector.getElem_ofFn, hget, UInt8.ofNat_toNat]
  rw [ofFields, hd3]
  simp [fields]

theorem fields_injective : Function.Injective fields := Function.LeftInverse.injective ofFields_fields

theorem fields_ofFields {ns : List ℕ} (h : ns.length = 11) : (ofFields ns).fields = truncated ns := by
  match ns, h with
  | [_, _, _, _, _, _, _, _, _, _, _], _ => rfl

theorem truncated_fields (u : Uuid) : truncated u.fields = u.fields := by
  rw [← fields_ofFields (length_fields u), ofFields_fields]

/-- The fields **after `sscanf`**: those that it has read, and the others as they were. -/
theorem fields_store (u : Uuid) {ns : List ℕ} (h : ns.length ≤ 11) :
    (u.store ns).fields = truncated ns ++ u.fields.drop ns.length := by
  have hlen : (ns ++ u.fields.drop ns.length).length = 11 := by simp; omega
  have hkept : ∀ (i : ℕ) (hi : i < u.fields.length) (hb : i < bits.length),
      u.fields[i] % 2 ^ bits[i] = u.fields[i] := by
    intro i hi hb
    have hget := List.getElem_of_eq (truncated_fields u) (by rw [truncated_fields]; exact hi)
    simpa only [truncated, List.getElem_zipWith] using hget
  rw [store, fields_ofFields hlen]
  apply List.ext_getElem
  · rw [length_truncated hlen.le, hlen, List.length_append, length_truncated h, List.length_drop, length_fields]
    omega
  · intro i hi hi'
    rw [length_truncated hlen.le, hlen] at hi
    by_cases hn : i < ns.length
    · rw [List.getElem_append_left (by rwa [length_truncated h])]
      simp only [truncated, List.getElem_zipWith, List.getElem_append_left hn]
    · rw [List.getElem_append_right (by rw [length_truncated h]; omega)]
      simp only [length_truncated h]
      simp only [truncated, List.getElem_zipWith, List.getElem_append_right (by omega : ns.length ≤ i),
        List.getElem_drop, show ns.length + (i - ns.length) = i by omega]
      exact hkept i (by rw [length_fields]; exact hi) hi

/-- What has been read **changes nothing** when it is what the fields begin with. -/
theorem store_eq_self_iff (u : Uuid) {ns : List ℕ} (h : ns.length ≤ 11) :
    u.store ns = u ↔ truncated ns <+: u.fields := by
  rw [← fields_injective.eq_iff, fields_store u h, List.prefix_iff_eq_take, length_truncated h]
  constructor
  · intro heq
    have htake := congrArg (List.take ns.length) heq
    rwa [List.take_left' (length_truncated h)] at htake
  · intro heq
    rw [heq, List.take_append_drop]

/-! ## Texts -/

theorem fits_fields (u : Uuid) : Fits bareFormat u.fields ∧ Fits bracedFormat u.fields := by
  have h₀ : u.d0.toNat < 4294967296 := u.d0.toNat_lt
  have h₁ : u.d1.toNat < 65536 := u.d1.toNat_lt
  have h₂ : u.d2.toNat < 65536 := u.d2.toNat_lt
  have h₃ : ∀ b : UInt8, b.toNat < 256 := fun b => b.toNat_lt
  rw [fields, d3_eq]
  simp [bracedFormat, bareFormat, Fits, h₀, h₁, h₂, h₃]

theorem length_toString (u : Uuid) (parcel : Bool) : (u.toString parcel).length = if parcel then 38 else 36 := by
  cases parcel with
  | false => exact length_print bareFormat u.fits_fields.1
  | true => exact length_print bracedFormat u.fits_fields.2

theorem zero_not_mem_toString (u : Uuid) (parcel : Bool) : 0 ∉ u.toString parcel := by
  cases parcel with
  | false => exact zero_not_mem_print (by decide) u.fields
  | true => exact zero_not_mem_print (by decide) u.fields

/-- **The formats** read back what they have printed, whatever stands behind it. -/
theorem scan_toString (u : Uuid) (s : Bytes) :
    scan bareFormat (u.toString false ++ s) = u.fields ∧ scan bracedFormat (u.toString true ++ s) = u.fields :=
  ⟨scan_print bareFormat u.fits_fields.1 s, scan_print bracedFormat u.fits_fields.2 s⟩

theorem store_nil (u : Uuid) : u.store [] = u := by
  rw [store, List.nil_append, List.length_nil, List.drop_zero, ofFields_fields]

theorem store_fields (u v : Uuid) : v.store u.fields = u := by
  rw [store, length_fields, List.drop_eq_nil_of_le (length_fields v).le, List.append_nil, ofFields_fields]

/-- The format without braces reads nothing from a text in braces. -/
theorem scan_bareFormat_toString (u : Uuid) : scan bareFormat (cStr (u.toString true)) = [] := by
  rw [cStr_of_not_mem (u.zero_not_mem_toString true), toString, if_pos rfl, bracedFormat, List.cons_append, print,
    bareFormat, scan, scanHex_brace]

/-- **What `to_string` prints is not read**, neither by the assignment nor by the constructor. -/
theorem assign_toString (u v : Uuid) (parcel : Bool) : v.assign (u.toString parcel) = v := by
  cases parcel with
  | false =>
    have hlen : (u.toString false).length = 36 := u.length_toString false
    rw [assign, if_neg (by omega), if_neg (by omega)]
  | true =>
    have hlen : (u.toString true).length = 38 := u.length_toString true
    rw [assign, if_pos hlen, scan_bareFormat_toString, store_nil]

theorem construct_toString (u : Uuid) (parcel : Bool) : construct (u.toString parcel) = zero :=
  assign_toString u zero parcel

theorem assign_toString_append (u v : Uuid) {s : Bytes} (hs : s.length = 2) : v.assign (u.toString true ++ s) = u := by
  have hlen : (u.toString true ++ s).length = 40 := by rw [List.length_append, length_toString, hs]; rfl
  have hcstr : cStr (u.toString true ++ s) = u.toString true ++ cStr s :=
    List.takeWhile_append_of_pos fun c hc => by
      simpa using fun h0 : c = 0 => u.zero_not_mem_toString true (h0 ▸ hc)
  rw [assign, hlen, if_neg (by decide), if_pos rfl, hcstr, (u.scan_toString _).2, store_fields]

/-- **Round trips and other texts**: `to_string` is read back into what is already there only, and a text of another
length changes nothing unless it has 40 bytes and the format in braces reads other values than those that are there. -/
theorem uuid_iff (u v : Uuid) (parcel : Bool) (s : Bytes) :
    (construct (u.toString parcel) = u ↔ u = zero) ∧ (v.assign (u.toString parcel) = u ↔ v = u) ∧
      (s.length ≠ 36 ∧ s.length ≠ 38 →
        (v.assign s = v ↔ (s.length = 40 → truncated (scan bracedFormat (cStr s)) <+: v.fields))) := by
  refine ⟨?_, ?_, fun ⟨_, h38⟩ => ?_⟩
  · rw [construct_toString, eq_comm]
  · rw [assign_toString]
  · rw [assign, if_neg h38]
    by_cases h40 : s.length = 40
    · rw [if_pos h40, store_eq_self_iff v (length_scan_le bracedFormat _)]
      exact ⟨fun h _ => h, fun h => h h40⟩
    · rw [if_neg h40]
      exact iff_of_true rfl fun h => absurd h h40

/-- A uuid that is not read back, and a text of 40 bytes that is read. -/
theorem not_construct_toString :
    let u : Uuid := ofFields [0x12345678, 0x9ABC, 0x4DEF, 0x80, 1, 2, 3, 4, 5, 6, 7]
    (∀ parcel, construct (u.toString parcel) ≠ u ∧ zero.assign (u.toString parcel) ≠ u) ∧
      zero.assign (u.toString true ++ [0x20, 0x20]) ≠ zero := by
  intro u
  have hne : zero ≠ u := by decide
  refine ⟨fun parcel => ⟨?_, ?_⟩, ?_⟩
  · rwa [construct_toString]
  · rwa [assign_toString]
  · rw [assign_toString_append u zero rfl]
    exact hne.symm

end Uuid

end Gts3
