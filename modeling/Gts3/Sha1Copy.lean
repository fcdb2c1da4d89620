import Gts3.Sha1Text

/-!
# `gts/sha1.cpp`: copies and moves

A copy takes over the unfinished block and the counters in full, and of the five words of the state only the first five
bytes in memory; the other fifteen bytes stay what they were.  `copies_iff` says when this makes a copy: always from a
new object to an object without a complete block, for one.
-/

namespace Gts3

open Lib Lib.Cxx Sha1

/-! ## The words in memory -/

/-- The order of the bytes of a word. -/
inductive ByteOrder
  | little
  | big
  deriving DecidableEq, Repr

namespace ByteOrder

/-- A word in memory. -/
def bytes (w : UInt32) : ByteOrder → Bytes
  | .little => [w.toUInt8, (w >>> 8).toUInt8, (w >>> 16).toUInt8, (w >>> 24).toUInt8]
  | .big => [(w >>> 24).toUInt8, (w >>> 16).toUInt8, (w >>> 8).toUInt8, w.toUInt8]

/-- The word that stands in memory. -/
def word (b : Bytes) : ByteOrder → UInt32
  | .little => makeWord b.reverse
  | .big => makeWord b

end ByteOrder

/-- `m_state` in memory. -/
def stateMemory (o : ByteOrder) (state : Vector UInt32 5) : Bytes := state.toList.flatMap fun w => o.bytes w

/-- The words that stand in memory. -/
def memoryState (o : ByteOrder) (mem : Bytes) : Vector UInt32 5 :=
  Vector.ofFn fun i : Fin 5 => o.word ((mem.drop (4 * i)).take 4)

/-- `memcpy(dst, src, n)`. -/
def memcpy (dst src : Bytes) (n : ℕ) : Bytes := src.take n ++ dst.drop n

/-! ### Words and their bytes -/

theorem toNat_shiftByte (b : UInt8) {k : UInt32} (hk : k.toNat ≤ 24) :
    (b.toUInt32 <<< k).toNat = b.toNat * 2 ^ k.toNat := by
  have hlt : b.toNat * 2 ^ k.toNat < 2 ^ 32 := by
    calc b.toNat * 2 ^ k.toNat < 2 ^ 8 * 2 ^ k.toNat := Nat.mul_lt_mul_of_pos_right b.toNat_lt (Nat.two_pow_pos _)
      _ ≤ 2 ^ 8 * 2 ^ 24 := Nat.mul_le_mul_left _ (Nat.pow_le_pow_right (by decide) hk)
      _ = 2 ^ 32 := by decide
  rw [UInt32.toNat_shiftLeft, UInt8.toNat_toUInt32, Nat.mod_eq_of_lt (by omega : k.toNat < 32), Nat.shiftLeft_eq,
    Nat.mod_eq_of_lt hlt]

/-- **`make_word`** puts its four bytes in a row. -/
theorem toNat_makeWord (b₃ b₂ b₁ b₀ : UInt8) :
    (makeWord [b₃, b₂, b₁, b₀]).toNat = b₃.toNat * 2 ^ 24 + b₂.toNat * 2 ^ 16 + b₁.toNat * 2 ^ 8 + b₀.toNat := by
  have h₂ := b₂.toNat_lt
  have h₁ := b₁.toNat_lt
  have h₀ := b₀.toNat_lt
  have hbyte₃ : (b₃.toUInt32 <<< 24).toNat = b₃.toNat * 2 ^ 24 := toNat_shiftByte b₃ (by decide)
  have hbyte₂ : (b₂.toUInt32 <<< 16).toNat = b₂.toNat * 2 ^ 16 := toNat_shiftByte b₂ (by decide)
  have hbyte₁ : (b₁.toUInt32 <<< 8).toNat = b₁.toNat * 2 ^ 8 := toNat_shiftByte b₁ (by decide)
  have hbyte₀ : (b₀.toUInt32 <<< 0).toNat = b₀.toNat * 2 ^ 0 := toNat_shiftByte b₀ (by decide)
  have hupper := toNat_or hbyte₃ (show (b₂.toUInt32 <<< 16).toNat < 2 ^ 24 by omega)
  have hthree := toNat_or (n := b₃.toNat * 2 ^ 8 + b₂.toNat) (k := 16) (by rw [hupper]; omega)
    (show (b₁.toUInt32 <<< 8).toNat < 2 ^ 16 by omega)
  have hall := toNat_or (n := b₃.toNat * 2 ^ 16 + b₂.toNat * 2 ^ 8 + b₁.toNat) (k := 8) (by rw [hthree]; omega)
    (show (b₀.toUInt32 <<< 0).toNat < 2 ^ 8 by omega)
  rw [makeWord]
  simp only [List.getD_cons_zero, List.getD_cons_succ]
  rw [hall]
  omega

namespace ByteOrder

theorem makeWord_bytes (w : UInt32) :
    makeWord [(w >>> 24).toUInt8, (w >>> 16).toUInt8, (w >>> 8).toUInt8, w.toUInt8] = w := by
  have hw := w.toNat_lt
  apply UInt32.toNat.inj
  rw [toNat_makeWord, toNat_byte24, toNat_byte16, toNat_byte8, toNat_byte0]
  omega

theorem bytes_makeWord (b₃ b₂ b₁ b₀ : UInt8) :
    (makeWord [b₃, b₂, b₁, b₀] >>> 24).toUInt8 = b₃ ∧ (makeWord [b₃, b₂, b₁, b₀] >>> 16).toUInt8 = b₂ ∧
      (makeWord [b₃, b₂, b₁, b₀] >>> 8).toUInt8 = b₁ ∧ (makeWord [b₃, b₂, b₁, b₀]).toUInt8 = b₀ := by
  have h₃ := b₃.toNat_lt
  have h₂ := b₂.toNat_lt
  have h₁ := b₁.toNat_lt
  have h₀ := b₀.toNat_lt
  refine ⟨?_, ?_, ?_, ?_⟩ <;> apply UInt8.toNat.inj
  · rw [toNat_byte24, toNat_makeWord]
    omega
  · rw [toNat_byte16, toNat_makeWord]
    omega
  · rw [toNat_byte8, toNat_makeWord]
    omega
  · rw [toNat_byte0, toNat_makeWord]
    omega

/-- A word is what stands in its memory, in either order. -/
theorem word_bytes (o : ByteOrder) (w : UInt32) : o.word (o.bytes w) = w := by
  cases o <;> exact makeWord_bytes w

theorem bytes_word (o : ByteOrder) {b : Bytes} (hb : b.length = 4) : o.bytes (o.word b) = b := by
  obtain ⟨b₀, b₁, b₂, b₃, rfl⟩ : ∃ b₀ b₁ b₂ b₃, b = [b₀, b₁, b₂, b₃] := by
    match b, hb with
    | [b₀, b₁, b₂, b₃], _ => exact ⟨b₀, b₁, b₂, b₃, rfl⟩
  cases o with
  | little =>
    obtain ⟨h₃, h₂, h₁, h₀⟩ := bytes_makeWord b₃ b₂ b₁ b₀
    exact List.cons_eq_cons.mpr ⟨h₀, List.cons_eq_cons.mpr ⟨h₁, List.cons_eq_cons.mpr ⟨h₂, List.cons_eq_cons.mpr
      ⟨h₃, rfl⟩⟩⟩⟩
  | big =>
    obtain ⟨h₀, h₁, h₂, h₃⟩ := bytes_makeWord b₀ b₁ b₂ b₃
    exact List.cons_eq_cons.mpr ⟨h₀, List.cons_eq_cons.mpr ⟨h₁, List.cons_eq_cons.mpr ⟨h₂, List.cons_eq_cons.mpr
      ⟨h₃, rfl⟩⟩⟩⟩

@[simp] theorem length_bytes (o : ByteOrder) (w : UInt32) : (o.bytes w).length = 4 := by cases o <;> rfl

end ByteOrder

theorem stateMemory_eq (o : ByteOrder) (state : Vector UInt32 5) :
    stateMemory o state = o.bytes (state.get 0) ++ (o.bytes (state.get 1) ++ (o.bytes (state.get 2) ++
      (o.bytes (state.get 3) ++ o.bytes (state.get 4)))) := by
  simp [stateMemory, toList_eq]

@[simp] theorem length_stateMemory (o : ByteOrder) (state : Vector UInt32 5) : (stateMemory o state).length = 20 := by
  simp [stateMemory_eq]

theorem get_memoryState (o : ByteOrder) (mem : Bytes) (i : Fin 5) :
    (memoryState o mem).get i = o.word ((mem.drop (4 * i)).take 4) := Vector.getElem_ofFn i.isLt

theorem take_drop_bytes (o : ByteOrder) (ws : List UInt32) {i : ℕ} (hi : i < ws.length) :
    ((ws.flatMap fun w => o.bytes w).drop (4 * i)).take 4 = o.bytes ws[i] := by
  induction ws generalizing i with
  | nil => exact absurd hi (Nat.not_lt_zero i)
  | cons w ws ih =>
    rw [List.flatMap_cons]
    cases i with
    | zero => exact List.take_left' (o.length_bytes w)
    | succ i =>
      rw [show 4 * (i + 1) = 4 + 4 * i by omega, ← List.drop_drop, List.drop_left' (o.length_bytes w),
        ih (by simpa using hi)]
      rfl

/-- **The state** is what stands in its memory. -/
theorem memoryState_stateMemory (o : ByteOrder) (state : Vector UInt32 5) :
    memoryState o (stateMemory o state) = state := by
  apply Vector.ext
  intro i hi
  show (memoryState o (stateMemory o state)).get ⟨i, hi⟩ = state[i]
  rw [get_memoryState, stateMemory, take_drop_bytes o state.toList (by simpa using hi), o.word_bytes]
  exact Vector.getElem_toList _

theorem stateMemory_memoryState (o : ByteOrder) {mem : Bytes} (hmem : mem.length = 20) :
    stateMemory o (memoryState o mem) = mem := by
  have hbytes : ∀ i : Fin 5, o.bytes ((memoryState o mem).get i) = (mem.drop (4 * i)).take 4 := by
    intro i
    rw [get_memoryState, o.bytes_word]
    rw [List.length_take, List.length_drop, hmem]
    omega
  have hcut : ∀ k, (mem.drop k).take 4 ++ mem.drop (k + 4) = mem.drop k := by
    intro k
    rw [← List.drop_drop]
    exact List.take_append_drop 4 _
  have hlast : (mem.drop 16).take 4 = mem.drop 16 := List.take_of_length_le (by rw [List.length_drop, hmem])
  rw [stateMemory_eq, hbytes, hbytes, hbytes, hbytes, hbytes]
  show (mem.drop 0).take 4 ++ ((mem.drop 4).take 4 ++ ((mem.drop 8).take 4 ++ ((mem.drop 12).take 4 ++
    (mem.drop 16).take 4))) = mem
  rw [hlast, hcut 12, hcut 8, hcut 4, hcut 0, List.drop_zero]

/-! ## The object -/

/-- `sha1`: the pointer `m_impl`, null in an object that has been moved from. -/
abbrev Sha1Object := Option Sha1Impl

namespace Sha1Object

/-- `operator=(const sha1 &)`: both objects afterwards. -/
def copyAssign (o : ByteOrder) (this other : Sha1Object) : Run (Sha1Object × Sha1Object) :=
  let impl := this.getD .new
  match other with
  | none => .error .nullPointer
  | some s =>
    .ok (some { state := memoryState o (memcpy (stateMemory o impl.state) (stateMemory o s.state) 5),
                buf := s.buf, i := s.i, nBits := s.nBits, i_lt := s.i_lt }, other)

/-- `sha1(const sha1 &)`. -/
def copyConstruct (o : ByteOrder) (other : Sha1Object) : Run (Sha1Object × Sha1Object) := copyAssign o (some .new) other

/-- Calls of `append`, and `finalize`. -/
def digested (x : Sha1Object) (calls : List Sha1Impl.Append) : Sha1Object :=
  x.map fun s => (calls.foldl Sha1Impl.append s).finalize

/-- `hex(upper_case)`. -/
def hex (x : Sha1Object) (upperCase : Bool) : Bytes := x.elim [] fun s => Sha1.hex s.state upperCase

/-- `base64()`. -/
def base64 (x : Sha1Object) : Bytes := x.elim [] fun s => Sha1.base64 s.state

/-- **The same digests**, whatever is appended before. -/
def SameDigests (x y : Sha1Object) : Prop :=
  ∀ calls, (∀ upperCase, (x.digested calls).hex upperCase = (y.digested calls).hex upperCase) ∧
    (x.digested calls).base64 = (y.digested calls).base64

/-- There is a state to copy, and its words end in memory as those do that are written over. -/
def SameTail (o : ByteOrder) (this other : Sha1Object) : Prop :=
  ∃ s, other = some s ∧ (stateMemory o (this.getD .new).state).drop 5 = (stateMemory o s.state).drop 5

/-- **Assignments**: the object becomes the other one exactly when the words end alike. -/
theorem copyAssign_iff (o : ByteOrder) (this other : Sha1Object) :
    copyAssign o this other = .ok (other, other) ↔ SameTail o this other := by
  cases other with
  | none => simp [copyAssign, SameTail]
  | some s =>
    set mem := memcpy (stateMemory o (this.getD .new).state) (stateMemory o s.state) 5 with hmem
    have hlen : mem.length = 20 := by simp [hmem, memcpy]
    have hstate : memoryState o mem = s.state ↔ mem = stateMemory o s.state := by
      constructor
      · intro h
        rw [← h, stateMemory_memoryState o hlen]
      · intro h
        rw [h, memoryState_stateMemory]
    have hobject : copyAssign o this (some s) = .ok (some s, some s) ↔ memoryState o mem = s.state := by
      simp only [copyAssign, Except.ok.injEq, Prod.mk.injEq, and_true, Option.some.injEq]
      constructor
      · intro h
        exact congrArg Sha1Impl.state h
      · intro h
        rw [← hmem, h]
    rw [hobject, hstate, hmem, memcpy]
    -- the first five bytes are the same in any case
    nth_rewrite 2 [← List.take_append_drop 5 (stateMemory o s.state)]
    rw [List.append_cancel_left_eq]
    simp [SameTail]

theorem SameDigests.refl (x : Sha1Object) : SameDigests x x := fun _ => ⟨fun _ => rfl, rfl⟩

/-- **Copies**: where the words end alike, a copy is the object that it is made from and gives its digests, and only
there it is that object; the original stays as it is. -/
theorem copies_iff (o : ByteOrder) (this other : Sha1Object) :
    (copyAssign o this other = .ok (other, other) ↔ SameTail o this other) ∧
      (copyConstruct o other = .ok (other, other) ↔ SameTail o (some .new) other) ∧
      (SameTail o this other → ∃ copy, copyAssign o this other = .ok (copy, other) ∧ SameDigests copy other) ∧
      (SameTail o (some .new) other → ∃ copy, copyConstruct o other = .ok (copy, other) ∧ SameDigests copy other) :=
  ⟨copyAssign_iff o this other, copyAssign_iff o (some .new) other,
    fun h => ⟨other, (copyAssign_iff o this other).mpr h, .refl other⟩,
    fun h => ⟨other, (copyAssign_iff o (some .new) other).mpr h, .refl other⟩⟩

/-- A text without a complete block can be copied to a new object. -/
theorem sameTail_short (o : ByteOrder) {s : Sha1Impl} {m : Bytes} (h : s.Absorbed m) (hm : m.length < 64) :
    SameTail o (some .new) (some s) := by
  have hwords : words s.state = words Sha1Impl.new.state := by
    have hshort := h.buffered.symm.trans (BlockHash.absorb_short hm)
    exact congrArg Prod.fst hshort
  have hstate : s.state = Sha1Impl.new.state := by
    apply Vector.ext
    intro i hi
    have hget := congrArg (fun w => word w ⟨i, hi⟩) hwords
    simp only [word_words] at hget
    exact hget
  exact ⟨s, rfl, by rw [hstate]; rfl⟩

/-- The object for a block of zeros. -/
def zeroBlock : Sha1Object := some (Sha1Impl.new.append (.text (List.replicate 64 0)))

set_option maxRecDepth 8000 in
/-- Its copy gives another digest. -/
theorem not_sameDigests_zeroBlock :
    ∃ copy, copyConstruct .little zeroBlock = .ok (copy, zeroBlock) ∧ ¬ SameDigests copy zeroBlock := by
  refine ⟨_, rfl, fun h => ?_⟩
  have hhex := (h []).1 true
  revert hhex
  decide +kernel

end Sha1Object

end Gts3
