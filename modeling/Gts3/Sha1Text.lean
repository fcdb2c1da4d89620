import Gts3.Sha1
import Gts3.Lib.Rfc4648

/-!
# `gts/sha1.cpp`: `hex` and `base64`

Both write the five words of the state, with the most significant byte of each in front, in the encodings of RFC 4648
(`hex_eq`, `base64_eq`).  `base64` regroups the 160 bits by masks and shifts, eight times three bytes at a time and
the last two with zeros behind them.
-/

namespace Gts3

open Lib Lib.Cxx

namespace Sha1

/-! ## The source -/

instance neZero_words : NeZero 5 := ⟨by decide⟩

/-- `hex(upper_case)` of a state; the buffer has 64 bytes. -/
def hex (state : Vector UInt32 5) (upperCase : Bool) : Bytes :=
  let alphabet := if upperCase then lit "0123456789ABCDEF" else lit "0123456789abcdef"
  let digits := [(0 : Fin 5), 1, 2, 3, 4].flatMap fun i =>
    [(7 : UInt32), 6, 5, 4, 3, 2, 1, 0].map fun j => alphabet.getD ((state.get i >>> (j <<< 2)) &&& 0x0F).toNat 0
  cStr (digits ++ List.replicate (64 - digits.length) 0)

/-- `table`. -/
def table : Bytes := lit "ABCDEFGHIJKLMNOPQRSTUVWXYZabcdefghijklmnopqrstuvwxyz0123456789+/"

/-- `triples`. -/
def triples (state : Vector UInt32 5) : List UInt32 :=
  [(state.get 0 &&& 0xFFFFFF00) >>> ((1 : UInt32) <<< 3),
    ((state.get 0 &&& 0x000000FF) <<< ((2 : UInt32) <<< 3)) ||| ((state.get 1 &&& 0xFFFF0000) >>> ((2 : UInt32) <<< 3)),
    ((state.get 1 &&& 0x0000FFFF) <<< ((1 : UInt32) <<< 3)) ||| ((state.get 2 &&& 0xFF000000) >>> ((3 : UInt32) <<< 3)),
    (state.get 2 &&& 0x00FFFFFF) <<< ((0 : UInt32) <<< 3),
    (state.get 3 &&& 0xFFFFFF00) >>> ((1 : UInt32) <<< 3),
    ((state.get 3 &&& 0x000000FF) <<< ((2 : UInt32) <<< 3)) ||| ((state.get 4 &&& 0xFFFF0000) >>> ((2 : UInt32) <<< 3)),
    (state.get 4 &&& 0x0000FFFF) <<< ((1 : UInt32) <<< 3)]

/-- The four characters of a triple. -/
def quadOf (x : UInt32) : Bytes :=
  [table.getD ((x >>> (3 * 6 : UInt32)) % 64).toNat 0, table.getD ((x >>> (2 * 6 : UInt32)) % 64).toNat 0,
    table.getD ((x >>> (1 * 6 : UInt32)) % 64).toNat 0, table.getD ((x >>> (0 * 6 : UInt32)) % 64).toNat 0]

/-- `base64` of a state; the buffer has 32 bytes, and the last character of the last triple is written over. -/
def base64 (state : Vector UInt32 5) : Bytes :=
  let chars := (triples state).flatMap quadOf
  cStr (chars.set ((6 <<< 2) + 3) 61 ++ List.replicate (32 - chars.length) 0)

/-- The bytes of the state, the most significant one of each word in front. -/
def stateBytes (state : Vector UInt32 5) : Bytes :=
  state.toList.flatMap fun w : UInt32 => [(w >>> 24).toUInt8, (w >>> 16).toUInt8, (w >>> 8).toUInt8, w.toUInt8]

/-! ## Masks and shifts -/

theorem toNat_shiftRight {x k : UInt32} (hk : k.toNat < 32) : (x >>> k).toNat = x.toNat / 2 ^ k.toNat := by
  rw [UInt32.toNat_shiftRight, Nat.mod_eq_of_lt hk, Nat.shiftRight_eq_div_pow]

theorem toNat_high {x m k : UInt32} (hk : k.toNat < 32) (hm : m.toNat / 2 ^ k.toNat = 2 ^ (32 - k.toNat) - 1) :
    ((x &&& m) >>> k).toNat = x.toNat / 2 ^ k.toNat := by
  have hx := x.toNat_lt
  have hlt : x.toNat / 2 ^ k.toNat < 2 ^ (32 - k.toNat) := by
    rw [Nat.div_lt_iff_lt_mul (Nat.two_pow_pos _), ← pow_add, Nat.sub_add_cancel hk.le]
    exact hx
  rw [toNat_shiftRight hk, UInt32.toNat_and, ← Nat.shiftRight_eq_div_pow, Nat.shiftRight_and_distrib,
    Nat.shiftRight_eq_div_pow, Nat.shiftRight_eq_div_pow, hm, Nat.and_two_pow_sub_one_eq_mod, Nat.mod_eq_of_lt hlt]

theorem toNat_low {x m k : UInt32} {j : ℕ} (hk : k.toNat < 32) (hm : m.toNat = 2 ^ j - 1) (hj : j + k.toNat ≤ 32) :
    ((x &&& m) <<< k).toNat = x.toNat % 2 ^ j * 2 ^ k.toNat := by
  have hlt : x.toNat % 2 ^ j * 2 ^ k.toNat < 2 ^ 32 := by
    calc x.toNat % 2 ^ j * 2 ^ k.toNat < 2 ^ j * 2 ^ k.toNat :=
          Nat.mul_lt_mul_of_pos_right (Nat.mod_lt _ (Nat.two_pow_pos j)) (Nat.two_pow_pos _)
      _ = 2 ^ (j + k.toNat) := (pow_add 2 j k.toNat).symm
      _ ≤ 2 ^ 32 := Nat.pow_le_pow_right (by decide) hj
  rw [UInt32.toNat_shiftLeft, UInt32.toNat_and, hm, Nat.and_two_pow_sub_one_eq_mod, Nat.mod_eq_of_lt hk,
    Nat.shiftLeft_eq, Nat.mod_eq_of_lt hlt]

theorem toNat_or {x y : UInt32} {n : ℕ} {k : ℕ} (hx : x.toNat = n * 2 ^ k) (hy : y.toNat < 2 ^ k) :
    (x ||| y).toNat = n * 2 ^ k + y.toNat := by
  rw [UInt32.toNat_or, hx, ← Nat.shiftLeft_eq, Nat.shiftLeft_add_eq_or_of_lt hy]

/-- **The regrouping**: the triples are 24 bits each of the words in a row. -/
theorem triples_toNat (state : Vector UInt32 5) :
    (triples state).map UInt32.toNat =
      [(state.get 0).toNat / 2 ^ 8,
        (state.get 0).toNat % 2 ^ 8 * 2 ^ 16 + (state.get 1).toNat / 2 ^ 16,
        (state.get 1).toNat % 2 ^ 16 * 2 ^ 8 + (state.get 2).toNat / 2 ^ 24,
        (state.get 2).toNat % 2 ^ 24,
        (state.get 3).toNat / 2 ^ 8,
        (state.get 3).toNat % 2 ^ 8 * 2 ^ 16 + (state.get 4).toNat / 2 ^ 16,
        (state.get 4).toNat % 2 ^ 16 * 2 ^ 8] := by
  have h8 : ((1 : UInt32) <<< 3).toNat = 8 := by decide
  have h16 : ((2 : UInt32) <<< 3).toNat = 16 := by decide
  have h24 : ((3 : UInt32) <<< 3).toNat = 24 := by decide
  have h0 : ((0 : UInt32) <<< 3).toNat = 0 := by decide
  -- eight bits of a word and the upper half of the next one
  have hpair : ∀ x y : UInt32, (((x &&& 0x000000FF) <<< ((2 : UInt32) <<< 3)) |||
      ((y &&& 0xFFFF0000) >>> ((2 : UInt32) <<< 3))).toNat = x.toNat % 2 ^ 8 * 2 ^ 16 + y.toNat / 2 ^ 16 := by
    intro x y
    have hx := toNat_low (x := x) (m := 0x000000FF) (k := ((2 : UInt32) <<< 3)) (j := 8) (by decide) (by decide)
      (by decide)
    have hy := toNat_high (x := y) (m := 0xFFFF0000) (k := ((2 : UInt32) <<< 3)) (by decide) (by decide)
    have hylt := y.toNat_lt
    rw [h16] at hx hy
    rw [toNat_or hx (by rw [hy]; omega), hy]
  have hthird : ∀ x y : UInt32, (((x &&& 0x0000FFFF) <<< ((1 : UInt32) <<< 3)) |||
      ((y &&& 0xFF000000) >>> ((3 : UInt32) <<< 3))).toNat = x.toNat % 2 ^ 16 * 2 ^ 8 + y.toNat / 2 ^ 24 := by
    intro x y
    have hx := toNat_low (x := x) (m := 0x0000FFFF) (k := ((1 : UInt32) <<< 3)) (j := 16) (by decide) (by decide)
      (by decide)
    have hy := toNat_high (x := y) (m := 0xFF000000) (k := ((3 : UInt32) <<< 3)) (by decide) (by decide)
    have hylt := y.toNat_lt
    rw [h8] at hx
    rw [h24] at hy
    rw [toNat_or hx (by rw [hy]; omega), hy]
  have hhigh : ∀ x : UInt32, ((x &&& 0xFFFFFF00) >>> ((1 : UInt32) <<< 3)).toNat = x.toNat / 2 ^ 8 := by
    intro x
    rw [toNat_high (by decide) (by decide), h8]
  have hwhole : ∀ x : UInt32, ((x &&& 0x00FFFFFF) <<< ((0 : UInt32) <<< 3)).toNat = x.toNat % 2 ^ 24 := by
    intro x
    rw [toNat_low (j := 24) (by decide) (by decide) (by decide), h0, pow_zero, mul_one]
  have hlast : ∀ x : UInt32, ((x &&& 0x0000FFFF) <<< ((1 : UInt32) <<< 3)).toNat = x.toNat % 2 ^ 16 * 2 ^ 8 := by
    intro x
    rw [toNat_low (j := 16) (by decide) (by decide) (by decide), h8]
  simp only [triples, List.map_cons, List.map_nil, hpair, hthird, hhigh, hwhole, hlast]

/-! ## The encodings -/

theorem table_eq : ∀ n < 64, table.getD n 0 = Rfc4648.char64 n := by decide

/-- The characters of a triple are those of its 24 bits. -/
theorem quadOf_eq (x : UInt32) : quadOf x = Rfc4648.quad x.toNat := by
  have hdigit : ∀ k : UInt32, k.toNat < 32 →
      table.getD ((x >>> k) % 64).toNat 0 = Rfc4648.char64 (x.toNat / 2 ^ k.toNat % 64) := by
    intro k hk
    rw [UInt32.toNat_mod, toNat_shiftRight hk]
    exact table_eq _ (Nat.mod_lt _ (by decide))
  rw [quadOf, hdigit _ (by decide), hdigit _ (by decide), hdigit _ (by decide), hdigit _ (by decide)]
  simp only [show ((3 : UInt32) * 6).toNat = 18 by decide, show ((2 : UInt32) * 6).toNat = 12 by decide,
    show ((1 : UInt32) * 6).toNat = 6 by decide, show ((0 : UInt32) * 6).toNat = 0 by decide, pow_zero, Nat.div_one]
  rfl

theorem toNat_byte (w : UInt32) {k : UInt32} (hk : k.toNat < 32) :
    (w >>> k).toUInt8.toNat = w.toNat / 2 ^ k.toNat % 2 ^ 8 := by
  rw [UInt32.toNat_toUInt8, toNat_shiftRight hk]

theorem toNat_byte24 (w : UInt32) : (w >>> 24).toUInt8.toNat = w.toNat / 2 ^ 24 % 2 ^ 8 := toNat_byte w (by decide)

theorem toNat_byte16 (w : UInt32) : (w >>> 16).toUInt8.toNat = w.toNat / 2 ^ 16 % 2 ^ 8 := toNat_byte w (by decide)

theorem toNat_byte8 (w : UInt32) : (w >>> 8).toUInt8.toNat = w.toNat / 2 ^ 8 % 2 ^ 8 := toNat_byte w (by decide)

theorem toList_eq (state : Vector UInt32 5) :
    state.toList = [state.get 0, state.get 1, state.get 2, state.get 3, state.get 4] := by
  obtain ⟨⟨l⟩, hl⟩ := state
  obtain ⟨s₀, s₁, s₂, s₃, s₄, rfl⟩ : ∃ s₀ s₁ s₂ s₃ s₄, l = [s₀, s₁, s₂, s₃, s₄] := by
    have hlen : l.length = 5 := by simpa using hl
    match l, hlen with
    | [s₀, s₁, s₂, s₃, s₄], _ => exact ⟨s₀, s₁, s₂, s₃, s₄, rfl⟩
  rfl

theorem toNat_byte0 (w : UInt32) : w.toUInt8.toNat = w.toNat % 2 ^ 8 := UInt32.toNat_toUInt8 w

section Joins

variable (x y : UInt32)

theorem join3_upper : Rfc4648.join3 (x >>> 24).toUInt8 (x >>> 16).toUInt8 (x >>> 8).toUInt8 = x.toNat / 2 ^ 8 := by
  have hx := x.toNat_lt
  rw [Rfc4648.join3, toNat_byte24, toNat_byte16, toNat_byte8]
  omega

theorem join3_next : Rfc4648.join3 x.toUInt8 (y >>> 24).toUInt8 (y >>> 16).toUInt8 =
    x.toNat % 2 ^ 8 * 2 ^ 16 + y.toNat / 2 ^ 16 := by
  have hy := y.toNat_lt
  rw [Rfc4648.join3, toNat_byte0, toNat_byte24, toNat_byte16]
  omega

theorem join3_third : Rfc4648.join3 (x >>> 8).toUInt8 x.toUInt8 (y >>> 24).toUInt8 =
    x.toNat % 2 ^ 16 * 2 ^ 8 + y.toNat / 2 ^ 24 := by
  have hy := y.toNat_lt
  rw [Rfc4648.join3, toNat_byte8, toNat_byte0, toNat_byte24]
  omega

theorem join3_lower : Rfc4648.join3 (x >>> 16).toUInt8 (x >>> 8).toUInt8 x.toUInt8 = x.toNat % 2 ^ 24 := by
  rw [Rfc4648.join3, toNat_byte16, toNat_byte8, toNat_byte0]
  omega

theorem join3_last : Rfc4648.join3 (x >>> 8).toUInt8 x.toUInt8 0 = x.toNat % 2 ^ 16 * 2 ^ 8 := by
  rw [Rfc4648.join3, toNat_byte8, toNat_byte0, UInt8.toNat_zero]
  omega

end Joins

/-- **The characters** of the triples, the last one written over, are the base 64 encoding of the twenty bytes. -/
theorem set_triples_eq (state : Vector UInt32 5) :
    ((triples state).flatMap quadOf).set ((6 <<< 2) + 3) 61 = Rfc4648.encode64 (stateBytes state) := by
  have hquads : (triples state).flatMap quadOf = ((triples state).map UInt32.toNat).flatMap Rfc4648.quad := by
    rw [List.flatMap_map]
    exact congrArg (fun f => (triples state).flatMap f) (funext quadOf_eq)
  rw [hquads, triples_toNat, stateBytes, toList_eq]
  simp only [List.flatMap_cons, List.flatMap_nil, List.append_nil, List.cons_append, List.nil_append, Rfc4648.encode64,
    join3_upper, join3_next, join3_third, join3_lower, join3_last]
  rfl

/-- **`base64`** is the base 64 encoding of the twenty bytes. -/
theorem base64_eq (state : Vector UInt32 5) : base64 state = Rfc4648.encode64 (stateBytes state) := by
  have hlen : ((triples state).flatMap quadOf).length = 28 := rfl
  rw [base64, set_triples_eq, hlen]
  exact cStr_append_zero (Rfc4648.zero_not_mem_encode64 _) _

/-- The eight digits of a word are those of its bytes. -/
theorem wordDigits_eq (w : UInt32) (upperCase : Bool) :
    ([(7 : UInt32), 6, 5, 4, 3, 2, 1, 0].map fun j =>
        (if upperCase then lit "0123456789ABCDEF" else lit "0123456789abcdef").getD
          ((w >>> (j <<< 2)) &&& 0x0F).toNat 0) =
      Rfc4648.encode16 upperCase [(w >>> 24).toUInt8, (w >>> 16).toUInt8, (w >>> 8).toUInt8, w.toUInt8] := by
  have halphabet : ∀ upperCase, ∀ n < 16,
      (if upperCase then lit "0123456789ABCDEF" else lit "0123456789abcdef").getD n 0 = Rfc4648.char16 upperCase n := by
    decide
  have hdigit : ∀ (j : UInt32) (k : ℕ), (j <<< 2).toNat = k → k < 32 →
      (if upperCase then lit "0123456789ABCDEF" else lit "0123456789abcdef").getD ((w >>> (j <<< 2)) &&& 0x0F).toNat 0 =
        Rfc4648.char16 upperCase (w.toNat / 2 ^ k % 2 ^ 4) := by
    intro j k hj hk
    rw [UInt32.toNat_and, toNat_shiftRight (by omega), show (0x0F : UInt32).toNat = 2 ^ 4 - 1 by decide,
      Nat.and_two_pow_sub_one_eq_mod, hj]
    exact halphabet upperCase _ (Nat.mod_lt _ (by decide))
  have hw := w.toNat_lt
  simp only [List.map_cons, List.map_nil]
  rw [hdigit 7 28 (by decide) (by decide), hdigit 6 24 (by decide) (by decide), hdigit 5 20 (by decide) (by decide),
    hdigit 4 16 (by decide) (by decide), hdigit 3 12 (by decide) (by decide), hdigit 2 8 (by decide) (by decide),
    hdigit 1 4 (by decide) (by decide), hdigit 0 0 (by decide) (by decide)]
  simp only [Rfc4648.encode16, List.flatMap_cons, List.flatMap_nil, List.append_nil, List.cons_append, List.nil_append]
  rw [toNat_byte24, toNat_byte16, toNat_byte8, toNat_byte0]
  -- the two halves of each byte
  have h₃ : w.toNat / 2 ^ 24 % 2 ^ 8 / 16 = w.toNat / 2 ^ 28 % 2 ^ 4 ∧
      w.toNat / 2 ^ 24 % 2 ^ 8 % 16 = w.toNat / 2 ^ 24 % 2 ^ 4 := by omega
  have h₂ : w.toNat / 2 ^ 16 % 2 ^ 8 / 16 = w.toNat / 2 ^ 20 % 2 ^ 4 ∧
      w.toNat / 2 ^ 16 % 2 ^ 8 % 16 = w.toNat / 2 ^ 16 % 2 ^ 4 := by omega
  have h₁ : w.toNat / 2 ^ 8 % 2 ^ 8 / 16 = w.toNat / 2 ^ 12 % 2 ^ 4 ∧
      w.toNat / 2 ^ 8 % 2 ^ 8 % 16 = w.toNat / 2 ^ 8 % 2 ^ 4 := by omega
  have h₀ : w.toNat % 2 ^ 8 / 16 = w.toNat / 2 ^ 4 % 2 ^ 4 ∧ w.toNat % 2 ^ 8 % 16 = w.toNat / 2 ^ 0 % 2 ^ 4 := by
    omega
  rw [h₃.1, h₃.2, h₂.1, h₂.2, h₁.1, h₁.2, h₀.1, h₀.2]

/-- **`hex`** is the base 16 encoding of the twenty bytes. -/
theorem hex_eq (state : Vector UInt32 5) (upperCase : Bool) :
    hex state upperCase = Rfc4648.encode16 upperCase (stateBytes state) := by
  have hdigits : ([(0 : Fin 5), 1, 2, 3, 4].flatMap fun i => [(7 : UInt32), 6, 5, 4, 3, 2, 1, 0].map fun j =>
      (if upperCase then lit "0123456789ABCDEF" else lit "0123456789abcdef").getD
        ((state.get i >>> (j <<< 2)) &&& 0x0F).toNat 0) = Rfc4648.encode16 upperCase (stateBytes state) := by
    simp only [wordDigits_eq]
    rw [stateBytes, toList_eq, Rfc4648.encode16, List.flatMap_assoc]
    rfl
  have hlen : (Rfc4648.encode16 upperCase (stateBytes state)).length = 40 := by
    rw [Rfc4648.length_encode16, stateBytes, toList_eq]
    rfl
  rw [hex, hdigits, hlen]
  exact cStr_append_zero (Rfc4648.zero_not_mem_encode16 upperCase _) _

theorem count_base64 (state : Vector UInt32 5) : (base64 state).count Rfc4648.padChar = 1 := by
  have hchars : Rfc4648.encode64 (stateBytes state) =
      ((triples state).flatMap quadOf).take 27 ++ [Rfc4648.padChar] := by
    rw [← set_triples_eq]
    rfl
  have hfront : Rfc4648.padChar ∉ ((triples state).flatMap quadOf).take 27 := by
    intro h
    obtain ⟨x, -, hx⟩ := List.mem_flatMap.mp (List.mem_of_mem_take h)
    rw [quadOf_eq] at hx
    exact Rfc4648.padChar_not_mem_quad _ hx
  rw [base64_eq, hchars, List.count_append, List.count_eq_zero_of_not_mem hfront, List.count_singleton_self]

/-- **Both texts** of every state, and what they are decoded to. -/
theorem texts_spec (state : Vector UInt32 5) :
    base64 state = Rfc4648.encode64 (stateBytes state) ∧ (base64 state).length = 28 ∧
      (base64 state).count Rfc4648.padChar = 1 ∧ Rfc4648.decode64 (base64 state) = some (stateBytes state) ∧
      (stateBytes state).length = 20 ∧
      ∀ upperCase, hex state upperCase = Rfc4648.encode16 upperCase (stateBytes state) ∧
        (hex state upperCase).length = 40 ∧ Rfc4648.decode16 (hex state upperCase) = some (stateBytes state) := by
  have hbytes : (stateBytes state).length = 20 := by
    rw [stateBytes, toList_eq]
    rfl
  have hchars : (base64 state).length = 28 := by
    rw [base64_eq, ← set_triples_eq, List.length_set]
    rfl
  refine ⟨base64_eq state, hchars, count_base64 state, ?_, hbytes, fun upperCase => ⟨hex_eq state upperCase, ?_, ?_⟩⟩
  · rw [base64_eq, Rfc4648.decode64_encode64]
  · rw [hex_eq, Rfc4648.length_encode16, hbytes]
  · rw [hex_eq, Rfc4648.decode16_encode16]

end Sha1

end Gts3
