import Gts3.Lib.Cxx

/-!
# RFC 4648: base 64 and base 16

The encodings of bytes, with their padding, and the decodings that take them back (`decode64_encode64`,
`decode16_encode16`).
-/

namespace Lib.Rfc4648

open Cxx

/-! ## Base 64 -/

/-- The character of a six-bit value. -/
def char64 (n : ℕ) : UInt8 :=
  if n < 26 then (65 + n).toUInt8 else if n < 52 then (97 + (n - 26)).toUInt8
  else if n < 62 then (48 + (n - 52)).toUInt8 else if n = 62 then 43 else 47

/-- The value of a character of the alphabet. -/
def value64 (c : UInt8) : Option ℕ :=
  if 65 ≤ c ∧ c ≤ 90 then some (c.toNat - 65) else if 97 ≤ c ∧ c ≤ 122 then some (c.toNat - 97 + 26)
  else if 48 ≤ c ∧ c ≤ 57 then some (c.toNat - 48 + 52) else if c = 43 then some 62
  else if c = 47 then some 63 else none

/-- The character `=`. -/
def padChar : UInt8 := 61

theorem value64_char64 : ∀ n < 64, value64 (char64 n) = some n := by decide

/-- The four characters of 24 bits. -/
def quad (n : ℕ) : List UInt8 :=
  [char64 (n / 2 ^ 18 % 64), char64 (n / 2 ^ 12 % 64), char64 (n / 2 ^ 6 % 64), char64 (n % 64)]

/-- Three bytes as 24 bits. -/
def join3 (b₀ b₁ b₂ : UInt8) : ℕ := b₀.toNat * 2 ^ 16 + b₁.toNat * 2 ^ 8 + b₂.toNat

/-- The base 64 encoding. -/
def encode64 : List UInt8 → List UInt8
  | [] => []
  | [b₀] => (quad (join3 b₀ 0 0)).take 2 ++ [padChar, padChar]
  | [b₀, b₁] => (quad (join3 b₀ b₁ 0)).take 3 ++ [padChar]
  | b₀ :: b₁ :: b₂ :: rest => quad (join3 b₀ b₁ b₂) ++ encode64 rest

/-- The bytes of 24 bits. -/
def split3 (n : ℕ) : List UInt8 := [(n / 2 ^ 16).toUInt8, (n / 2 ^ 8).toUInt8, n.toUInt8]

/-- The base 64 decoding. -/
def decode64 : List UInt8 → Option (List UInt8)
  | [] => some []
  | c₀ :: c₁ :: c₂ :: c₃ :: rest =>
    match value64 c₀, value64 c₁, value64 c₂, value64 c₃ with
    | some v₀, some v₁, some v₂, some v₃ =>
      (decode64 rest).map (split3 (v₀ * 2 ^ 18 + v₁ * 2 ^ 12 + v₂ * 2 ^ 6 + v₃) ++ ·)
    | some v₀, some v₁, some v₂, none =>
      if c₃ = padChar ∧ rest = [] then some ((split3 (v₀ * 2 ^ 18 + v₁ * 2 ^ 12 + v₂ * 2 ^ 6)).take 2) else none
    | some v₀, some v₁, none, none =>
      if c₂ = padChar ∧ c₃ = padChar ∧ rest = [] then some ((split3 (v₀ * 2 ^ 18 + v₁ * 2 ^ 12)).take 1) else none
    | _, _, _, _ => none
  | _ => none

theorem join3_lt (b₀ b₁ b₂ : UInt8) : join3 b₀ b₁ b₂ < 2 ^ 24 := by
  have h₀ := b₀.toNat_lt
  have h₁ := b₁.toNat_lt
  have h₂ := b₂.toNat_lt
  rw [join3]
  omega

theorem digits_join {n : ℕ} (h : n < 2 ^ 24) :
    n / 2 ^ 18 % 64 * 2 ^ 18 + n / 2 ^ 12 % 64 * 2 ^ 12 + n / 2 ^ 6 % 64 * 2 ^ 6 + n % 64 = n := by
  omega

theorem split3_join3 (b₀ b₁ b₂ : UInt8) : split3 (join3 b₀ b₁ b₂) = [b₀, b₁, b₂] := by
  have h₀ := b₀.toNat_lt
  have h₁ := b₁.toNat_lt
  have h₂ := b₂.toNat_lt
  have hbyte : ∀ (n : ℕ) (b : UInt8), n % 256 = b.toNat → n.toUInt8 = b := by
    intro n b h
    apply UInt8.toNat.inj
    rw [← h]
    exact UInt8.toNat_ofNat'
  rw [split3, hbyte _ b₀ (by rw [join3]; omega), hbyte _ b₁ (by rw [join3]; omega), hbyte _ b₂ (by rw [join3]; omega)]

theorem value64_padChar : value64 padChar = none := by decide

/-- **Round trip** of base 64. -/
theorem decode64_encode64 (l : List UInt8) : decode64 (encode64 l) = some l := by
  have hdigit : ∀ n, value64 (char64 (n % 64)) = some (n % 64) := fun n => value64_char64 _ (Nat.mod_lt n (by decide))
  fun_induction encode64 l with
  | case1 => rfl
  | case2 b₀ =>
    have hjoin := digits_join (join3_lt b₀ 0 0)
    have hlow : join3 b₀ 0 0 / 2 ^ 6 % 64 = 0 ∧ join3 b₀ 0 0 % 64 = 0 := by
      have h₀ := b₀.toNat_lt
      simp only [join3, UInt8.toNat_zero]
      omega
    simp only [hlow.1, hlow.2, Nat.zero_mul, Nat.add_zero] at hjoin
    simp only [quad, List.take_succ_cons, List.take_zero, List.cons_append, List.nil_append, decode64, hdigit,
      value64_padChar, true_and, if_true]
    rw [hjoin, split3_join3]
    rfl
  | case3 b₀ b₁ =>
    have hjoin := digits_join (join3_lt b₀ b₁ 0)
    have hlow : join3 b₀ b₁ 0 % 64 = 0 := by
      have h₀ := b₀.toNat_lt
      simp only [join3, UInt8.toNat_zero]
      omega
    rw [hlow, Nat.add_zero] at hjoin
    simp only [quad, List.take_succ_cons, List.take_zero, List.cons_append, List.nil_append, decode64, hdigit,
      value64_padChar, true_and, if_true]
    rw [hjoin, split3_join3]
    rfl
  | case4 b₀ b₁ b₂ rest ih =>
    simp only [quad, List.cons_append, List.nil_append, decode64, hdigit, ih, Option.map_some]
    rw [digits_join (join3_lt b₀ b₁ b₂), split3_join3]
    rfl

theorem zero_not_mem_quad (n : ℕ) : 0 ∉ quad n := by
  have hchar : ∀ n < 64, char64 n ≠ 0 := by decide
  have hdigit : ∀ n, 0 ≠ char64 (n % 64) := fun n h => hchar _ (Nat.mod_lt n (by decide)) h.symm
  simp [quad, hdigit]

theorem padChar_not_mem_quad (n : ℕ) : padChar ∉ quad n := by
  have hchar : ∀ n < 64, char64 n ≠ padChar := by decide
  have hdigit : ∀ n, padChar ≠ char64 (n % 64) := fun n h => hchar _ (Nat.mod_lt n (by decide)) h.symm
  simp [quad, hdigit]

theorem mem_quad {n : ℕ} {c : UInt8} (h : c ∈ quad n) : ∃ k < 64, c = char64 k := by
  have hlt : ∀ k, k % 64 < 64 := fun k => Nat.mod_lt k (by decide)
  simp only [quad, List.mem_cons, List.not_mem_nil, or_false] at h
  rcases h with h | h | h | h <;> exact ⟨_, hlt _, h⟩

/-- The characters of an encoding are those of the alphabet, and the padding. -/
theorem mem_encode64 {l : List UInt8} {c : UInt8} (h : c ∈ encode64 l) : c = padChar ∨ ∃ k < 64, c = char64 k := by
  fun_induction encode64 l with
  | case1 => exact absurd h List.not_mem_nil
  | case2 b₀ =>
    rcases List.mem_append.mp h with h | h
    · exact Or.inr (mem_quad (List.mem_of_mem_take h))
    · exact Or.inl (by simpa using h)
  | case3 b₀ b₁ =>
    rcases List.mem_append.mp h with h | h
    · exact Or.inr (mem_quad (List.mem_of_mem_take h))
    · exact Or.inl (by simpa using h)
  | case4 b₀ b₁ b₂ rest ih =>
    rcases List.mem_append.mp h with h | h
    · exact Or.inr (mem_quad h)
    · exact ih h

/-- What holds of the alphabet and the padding holds of an encoding. -/
theorem forall_mem_encode64 {P : UInt8 → Prop} (halphabet : ∀ k < 64, P (char64 k)) (hpad : P padChar)
    (l : List UInt8) :
    ∀ c ∈ encode64 l, P c := by
  intro c hc
  rcases mem_encode64 hc with rfl | ⟨k, hk, rfl⟩
  · exact hpad
  · exact halphabet k hk

theorem zero_not_mem_encode64 (l : List UInt8) : 0 ∉ encode64 l := by
  fun_induction encode64 l with
  | case1 => exact List.not_mem_nil
  | case2 b₀ =>
    have hquad : 0 ∉ (quad (join3 b₀ 0 0)).take 2 := fun h => zero_not_mem_quad _ (List.mem_of_mem_take h)
    simp [padChar, hquad]
  | case3 b₀ b₁ =>
    have hquad : 0 ∉ (quad (join3 b₀ b₁ 0)).take 3 := fun h => zero_not_mem_quad _ (List.mem_of_mem_take h)
    simp [padChar, hquad]
  | case4 b₀ b₁ b₂ rest ih => simp [zero_not_mem_quad, ih]

/-! ## Base 16 -/

/-- The digit of a four-bit value. -/
def char16 (upper : Bool) (n : ℕ) : UInt8 :=
  if n < 10 then (48 + n).toUInt8 else if upper then (65 + (n - 10)).toUInt8 else (97 + (n - 10)).toUInt8

/-- The base 16 encoding, in capitals or not. -/
def encode16 (upper : Bool) (l : List UInt8) : List UInt8 :=
  l.flatMap fun b => [char16 upper (b.toNat / 16), char16 upper (b.toNat % 16)]

/-- The base 16 decoding, which takes both cases. -/
def decode16 : List UInt8 → Option (List UInt8)
  | [] => some []
  | [_] => none
  | c₀ :: c₁ :: rest =>
    if digitVal c₀ < 16 ∧ digitVal c₁ < 16 then
      (decode16 rest).map ((digitVal c₀ * 16 + digitVal c₁).toUInt8 :: ·)
    else none

theorem digitVal_char16 : ∀ upper, ∀ n < 16, digitVal (char16 upper n) = n := by decide

theorem zero_not_mem_encode16 (upper : Bool) (l : List UInt8) : 0 ∉ encode16 upper l := by
  have hchar : ∀ upper, ∀ n < 16, char16 upper n ≠ 0 := by decide
  intro h
  obtain ⟨b, -, hb⟩ := List.mem_flatMap.mp h
  have hlt := b.toNat_lt
  rcases List.mem_pair.mp hb with hb | hb
  · exact hchar upper _ (show b.toNat / 16 < 16 by omega) hb.symm
  · exact hchar upper _ (show b.toNat % 16 < 16 by omega) hb.symm

theorem length_encode16 (upper : Bool) (l : List UInt8) : (encode16 upper l).length = 2 * l.length := by
  induction l with
  | nil => rfl
  | cons b l ih =>
    rw [encode16, List.flatMap_cons, List.length_append, ← encode16, ih]
    simp only [List.length_cons, List.length_nil]
    omega

/-- **Round trip** of base 16. -/
theorem decode16_encode16 (upper : Bool) (l : List UInt8) : decode16 (encode16 upper l) = some l := by
  induction l with
  | nil => rfl
  | cons b l ih =>
    have hb := b.toNat_lt
    rw [encode16, List.flatMap_cons, ← encode16]
    simp only [List.cons_append, List.nil_append, decode16, digitVal_char16 upper _ (show b.toNat / 16 < 16 by omega),
      digitVal_char16 upper _ (show b.toNat % 16 < 16 by omega), ih, Option.map_some]
    rw [if_pos (by omega), show b.toNat / 16 * 16 + b.toNat % 16 = b.toNat by omega]
    simp

end Lib.Rfc4648
