import Gts3.Lib.Cxx

/-!
# File streams

`InFile` is an `std::ifstream` that has been opened, `OutFile` an `std::ofstream`.  A read that does not get all it
asks for sets `eofbit` and `failbit`, and without it the bytes of the file come one after the other (`read_within`).
Opening for output drops what the file held, so behind the position of a `seekp` there are only zeros in front of what
is written (`Holds`).
-/

namespace Lib.FileStream

open Cxx

/-! ## Input -/

/-- An open `std::ifstream`: the bytes of the file, the position, `eofbit` and `failbit`. -/
structure InFile where
  content : Bytes
  pos : ℕ
  eof : Bool
  fail : Bool
  deriving DecidableEq, Repr

namespace InFile

/-- `open(name, in | binary)`, where the file holds these bytes. -/
def opened (content : Bytes) : InFile := ⟨content, 0, false, false⟩

/-- `seekg(pos, beg)`. -/
def seekg (f : InFile) (pos : ℕ) : InFile :=
  if f.fail then { f with eof := false } else { f with pos, eof := false }

/-- `read(buf, n)`: what is read, and `gcount()` is its length. -/
def read (f : InFile) (n : ℕ) : Bytes × InFile :=
  if f.eof || f.fail then ([], { f with fail := true })
  else
    let data := (f.content.drop f.pos).take n
    (data, { f with pos := f.pos + data.length, eof := data.length < n, fail := data.length < n })

/-- No read has come to the end of the file, and the position is `pos`. -/
def At (f : InFile) (content : Bytes) (pos : ℕ) : Prop := f = ⟨content, pos, false, false⟩

theorem opened_at (content : Bytes) : (opened content).At content 0 := rfl

variable {f : InFile} {content : Bytes} {pos : ℕ}

theorem At.eof_eq (h : f.At content pos) : f.eof = false := by rw [h]

theorem At.seekg (h : f.At content pos) (pos' : ℕ) : (f.seekg pos').At content pos' := by
  rw [h]
  rfl

/-- **A read that gets all it asks for**. -/
theorem At.read (h : f.At content pos) {n : ℕ} (hn : pos + n ≤ content.length) :
    ∃ f', f.read n = ((content.drop pos).take n, f') ∧ f'.At content (pos + n) := by
  have hlen : ((content.drop pos).take n).length = n := by
    rw [List.length_take, List.length_drop]
    omega
  refine ⟨⟨content, pos + n, false, false⟩, ?_, rfl⟩
  rw [h, InFile.read]
  simp only [Bool.or_self, Bool.false_eq_true, if_false, hlen, lt_irrefl, decide_false]

/-- **A read that asks for more** than there is gets the rest. -/
theorem At.read_rest (h : f.At content pos) {n : ℕ} (hpos : pos ≤ content.length) (hn : content.length < pos + n) :
    ∃ f', f.read n = (content.drop pos, f') ∧ f'.eof = true := by
  have hlen : (content.drop pos).length < n := by
    rw [List.length_drop]
    omega
  refine ⟨⟨content, pos + (content.drop pos).length, true, true⟩, ?_, rfl⟩
  rw [h, InFile.read]
  simp only [Bool.or_self, Bool.false_eq_true, if_false, List.take_of_length_le hlen.le, hlen, decide_true]

end InFile

/-! ## Output -/

/-- An open `std::ofstream`: what the file holds, and the position. -/
structure OutFile where
  content : Bytes
  pos : ℕ
  deriving DecidableEq, Repr

namespace OutFile

/-- `open(name, out | binary)`: the file is empty. -/
def opened : OutFile := ⟨[], 0⟩

/-- `seekp(pos)`. -/
def seekp (f : OutFile) (pos : ℕ) : OutFile := { f with pos }

/-- `write(data, size)`: a gap in front of the position is filled with zeros. -/
def write (f : OutFile) (data : Bytes) : OutFile :=
  if data = [] then f
  else
    ⟨f.content.take f.pos ++ List.replicate (f.pos - f.content.length) 0 ++ data ++
      f.content.drop (f.pos + data.length), f.pos + data.length⟩

/-- Since `seekp(start)` on the empty file, `data` has been written. -/
structure Holds (f : OutFile) (start : ℕ) (data : Bytes) : Prop where
  content_eq : f.content = if data = [] then [] else List.replicate start 0 ++ data
  pos_eq : f.pos = start + data.length

theorem holds_seekp (start : ℕ) : (opened.seekp start).Holds start [] := ⟨rfl, rfl⟩

variable {f : OutFile} {start : ℕ} {data : Bytes}

/-- **Writes** go behind what has been written. -/
theorem Holds.write (h : f.Holds start data) (more : Bytes) : (f.write more).Holds start (data ++ more) := by
  obtain ⟨hcontent, hpos⟩ := h
  by_cases hmore : more = []
  · rw [hmore, OutFile.write, if_pos rfl, List.append_nil]
    exact ⟨hcontent, hpos⟩
  have hne : data ++ more ≠ [] := by simp [hmore]
  rw [OutFile.write, if_neg hmore]
  refine ⟨?_, by simp only [hpos, List.length_append]; omega⟩
  rw [if_neg hne, hcontent, hpos]
  split_ifs with hdata
  · simp [hdata]
  · have hlen : (List.replicate start (0 : UInt8) ++ data).length = start + data.length := by simp
    rw [List.take_of_length_le hlen.le, hlen, Nat.sub_self, List.drop_of_length_le (by omega)]
    simp

theorem Holds.drop_eq (h : f.Holds start data) : f.content.drop start = data := by
  rw [h.content_eq]
  split_ifs with hdata
  · rw [hdata, List.drop_nil]
  · rw [List.drop_append_of_le_length (by simp), List.drop_of_length_le (by simp), List.nil_append]

theorem Holds.take_eq (h : f.Holds start data) :
    f.content.take start = if data = [] then [] else List.replicate start 0 := by
  rw [h.content_eq]
  split_ifs
  · exact List.take_nil
  · exact List.take_left' (by simp)

end OutFile

end Lib.FileStream
