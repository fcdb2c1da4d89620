import Gts3.Http.Response

/-!
# `gts/http/response.cpp`: the header `Range` of a file transfer

`range_parsing` reads one item of the header, `range_transfer` splits the header into items and answers.  Both index
lists of tokens.  `rangeParsing_iff` says when an accepted item is a range of the file, `answersItems_iff` when every
item without a `-` is answered and not indexed.
-/

namespace Gts3.Http

open Lib Lib.Search Lib.Cxx

/-! ## The functions -/

/-- `range_value`. -/
structure RangeValue where
  crLine : Bytes
  rangeBegin : ℕ
  rangeEnd : ℕ
  size : ℕ
  deriving DecidableEq, Repr

/-- `range_value()`. -/
def RangeValue.new : RangeValue := ⟨[], 0, 0, 0⟩

/-- The branch of `range_parsing` for the last bytes of the file: `-size`. -/
def suffixRange (fileSize : ℕ) (str : Bytes) (v : RangeValue) : Bool × RangeValue :=
  let v := { v with size := scanSize str v.size }
  if v.size = 0 ∨ v.size > fileSize then (false, v)
  else (true, { v with rangeEnd := sub64 fileSize 1, rangeBegin := sub64 fileSize v.size })

/-- The branch for all bytes from one on: `begin-`. -/
def openRange (fileSize : ℕ) (str : Bytes) (v : RangeValue) : Bool × RangeValue :=
  let v := { v with rangeBegin := scanSize str v.rangeBegin, rangeEnd := sub64 fileSize 1 }
  if v.rangeBegin > v.rangeEnd then (false, v)
  else (true, { v with size := sub64 fileSize v.rangeBegin })

/-- The branch for a first and a last byte: `begin-end`. -/
def closedRange (fileSize : ℕ) (str₀ str₁ : Bytes) (v : RangeValue) : Bool × RangeValue :=
  let v := { v with rangeBegin := scanSize str₀ v.rangeBegin, rangeEnd := scanSize str₁ v.rangeEnd }
  if v.rangeBegin > v.rangeEnd ∨ v.rangeEnd ≥ fileSize then (false, v)
  else (true, { v with size := (sub64 v.rangeEnd v.rangeBegin + 1) % 2 ^ 64 })

/-- `range_parsing`, for a file of `fileSize` bytes. -/
def rangeParsing (fileSize : ℕ) (rangeStr : Bytes) (v : RangeValue) : Run (Bool × RangeValue) := do
  let v := { v with size := 0 }
  let list ← strSplit rangeStr [45] false
  if list.length > 2 then .ok (false, v)
  else if (← index list 0) = [] then
    if (← index list 1) = [] then .ok (false, v)
    else .ok (suffixRange fileSize (← index list 1) v)
  else if (← index list 1) = [] then .ok (openRange fileSize (← index list 0) v)
  else .ok (closedRange fileSize (← index list 0) (← index list 1) v)

/-- The loop over `range_str`: all spaces but the first byte are erased, from the end. -/
def eraseSpaces : ℕ → Bytes → Bytes
  | 0, s => s
  | i + 1, s => eraseSpaces i (if s[i + 1]? = some 32 then s.eraseIdx (i + 1) else s)

/-- How `range_transfer` ends: with `write_default` or with `send_range`. -/
inductive RangeCall
  | writeDefault (status : Status)
  | sendRange (boundary ctLine : Bytes) (queue : List RangeValue)
  deriving DecidableEq

/-- The loop over several items: the ranges and `content_length`, `none` when an item is not good. -/
def rangeItems (fileSize : ℕ) (boundary ctLine : Bytes) :
    List Bytes → List RangeValue → ℕ → Run (Option (List RangeValue × ℕ))
  | [], queue, contentLength => .ok (some (queue, contentLength))
  | str :: list, queue, contentLength => do
    let (good, v) ← rangeParsing fileSize (← strTrimmed str) RangeValue.new
    if good then
      let crLine := Header.contentRange ++ lit ": bytes " ++ formatNat 10 v.rangeBegin ++ lit "-" ++
        formatNat 10 v.rangeEnd ++ lit "/" ++ formatNat 10 fileSize
      let add := 2 + boundary.length + 2 + (ctLine.length + 2) + (crLine.length + 2) + 2 + (v.size + 2)
      rangeItems fileSize boundary ctLine list (queue ++ [{ v with crLine }]) ((contentLength + add) % 2 ^ 64)
    else .ok none

/-- `range_transfer`; the boundary holds the time, and the type comes from the name of the file. -/
def rangeTransfer (r : Response) (fileSize : ℕ) (boundary mimeType rangeStr : Bytes) : Run (Response × RangeCall) := do
  let rangeStr := eraseSpaces rangeStr.length rangeStr
  if rangeStr = [] then .ok (r, .writeDefault .badRequest)
  else if (← substr rangeStr 0 6) ≠ lit "bytes=" then .ok (r, .writeDefault .rangeNotSatisfiable)
  else
    let rangeListStr ← substrFrom rangeStr 6
    if rangeListStr = [] then .ok (r, .writeDefault .rangeNotSatisfiable)
    else
      let rangeList ← strSplit rangeListStr [44] true
      let r := r.setStatus .partialContent
      if rangeList.length = 1 then
        let (good, v) ← rangeParsing fileSize (← index rangeList 0) RangeValue.new
        if good then
          let r := (((r.setHeader Header.acceptRanges (lit "bytes")).setHeader Header.contentType mimeType).setHeader
            Header.contentLength (formatNat 10 v.size)).setHeader Header.contentRange
              (formatNat 10 v.rangeBegin ++ lit "-" ++ formatNat 10 v.rangeEnd ++ lit "/" ++ formatNat 10 v.size)
          .ok (r, .sendRange [] [] [v])
        else .ok (r, .writeDefault .rangeNotSatisfiable)
      else
        let r := r.setHeader Header.contentType (lit "multipart/byteranges; boundary=" ++ boundary)
        let ctLine := Header.contentType ++ lit ": " ++ mimeType
        match ← rangeItems fileSize boundary ctLine rangeList [] 0 with
        | none => .ok (r, .writeDefault .rangeNotSatisfiable)
        | some (queue, contentLength) =>
          let contentLength := (contentLength + (2 + boundary.length + 2 + 2)) % 2 ^ 64
          .ok ((r.setHeader Header.contentLength (formatNat 10 contentLength)).setHeader Header.acceptRanges
            (lit "bytes"), .sendRange boundary ctLine queue)

/-! ## The forms of an item -/

/-- `a-b`, where `a` and `b` hold no `-`. -/
structure Dashed (item a b : Bytes) : Prop where
  eq : item = a ++ 45 :: b
  left : (45 : UInt8) ∉ a
  right : (45 : UInt8) ∉ b

/-- An item has no `-`, more than one or exactly one. -/
theorem item_cases (item : Bytes) :
    (45 : UInt8) ∉ item ∨ (∃ a b, item = a ++ 45 :: b ∧ (45 : UInt8) ∉ a ∧ (45 : UInt8) ∈ b) ∨
      ∃ a b, Dashed item a b := by
  by_cases h : (45 : UInt8) ∈ item
  · obtain ⟨a, b, rfl, ha⟩ := List.eq_append_cons_of_mem h
    by_cases hb : (45 : UInt8) ∈ b
    · exact Or.inr (Or.inl ⟨a, b, rfl, ha, hb⟩)
    · exact Or.inr (Or.inr ⟨a, b, rfl, ha, hb⟩)
  · exact Or.inl h

/-- What `range_parsing` makes of `a-b`. -/
def rangeParsed (fileSize : ℕ) (a b : Bytes) (v : RangeValue) : Bool × RangeValue :=
  if a = [] then if b = [] then (false, v) else suffixRange fileSize b v
  else if b = [] then openRange fileSize a v else closedRange fileSize a b v

theorem strSplit_dash (s : Bytes) : strSplit s [45] false = .ok (if s = [] then [] else s.splitOn 45) :=
  strSplit_eq s 45 false

/-- **An item with one `-`**. -/
theorem Dashed.rangeParsing {item a b : Bytes} (h : Dashed item a b) (fileSize : ℕ) (v : RangeValue) :
    Http.rangeParsing fileSize item v = .ok (rangeParsed fileSize a b { v with size := 0 }) := by
  have hsplit : strSplit item [45] false = .ok [a, b] := by
    rw [strSplit_dash, if_neg (by rw [h.eq]; simp), h.eq, List.splitOn_append_cons_self_of_not_mem h.left,
      List.splitOn_eq_singleton h.right]
  unfold Http.rangeParsing rangeParsed
  simp only [hsplit, ok_bind, index, List.length_cons, List.length_nil, List.getElem?_cons_zero,
    List.getElem?_cons_succ]
  rw [if_neg (by omega)]
  split_ifs <;> rfl

/-- **An item without `-`** is indexed behind its end. -/
theorem rangeParsing_noDash {item : Bytes} (h : (45 : UInt8) ∉ item) (fileSize : ℕ) (v : RangeValue) :
    rangeParsing fileSize item v = .error .badIndex := by
  by_cases hnil : item = []
  · subst hnil
    rfl
  have hsplit : strSplit item [45] false = .ok [item] := by
    rw [strSplit_dash, if_neg hnil, List.splitOn_eq_singleton h]
  unfold rangeParsing
  simp only [hsplit, ok_bind, index, List.length_cons, List.length_nil, List.getElem?_cons_zero,
    List.getElem?_cons_succ, List.getElem?_nil, if_neg hnil]
  rfl

/-- **An item with more than one `-`** is not good. -/
theorem rangeParsing_dashes {a b : Bytes} (ha : (45 : UInt8) ∉ a) (hb : (45 : UInt8) ∈ b) (fileSize : ℕ)
    (v : RangeValue) : rangeParsing fileSize (a ++ 45 :: b) v = .ok (false, { v with size := 0 }) := by
  obtain ⟨c, d, rfl, hc⟩ := List.eq_append_cons_of_mem hb
  have hsplit : strSplit (a ++ 45 :: (c ++ 45 :: d)) [45] false = .ok (a :: c :: d.splitOn 45) := by
    rw [strSplit_dash, if_neg (by simp), List.splitOn_append_cons_self_of_not_mem ha,
      List.splitOn_append_cons_self_of_not_mem hc]
  have hlen : 0 < (d.splitOn 45).length := List.length_pos_iff.mpr (List.splitOn_ne_nil _ _)
  unfold rangeParsing
  simp only [hsplit, ok_bind, List.length_cons]
  rw [if_pos (by omega)]

/-! ## Ranges of the file -/

/-- What an accepted range is: bytes of the file, counted without wrap-around. -/
structure RangeValue.Within (v : RangeValue) (fileSize : ℕ) : Prop where
  begin_le : v.rangeBegin ≤ v.rangeEnd
  end_lt : v.rangeEnd < fileSize
  size_eq : v.size = v.rangeEnd - v.rangeBegin + 1
  fits : v.rangeBegin + v.size ≤ fileSize

/-- Whatever stands in the result before, an accepted item is a range of the file. -/
def RangesSound (fileSize : ℕ) (item : Bytes) : Prop :=
  ∀ v v', rangeParsing fileSize item v = .ok (true, v') → v'.Within fileSize

/-- The item is a text and a `-` behind it. -/
def OpenItem (item : Bytes) : Prop := ∃ a, a ≠ [] ∧ (45 : UInt8) ∉ a ∧ item = a ++ [45]

theorem suffixRange_within {fileSize : ℕ} {str : Bytes} {v v' : RangeValue}
    (h : suffixRange fileSize str v = (true, v')) : v'.Within fileSize := by
  unfold suffixRange at h
  dsimp only at h
  split_ifs at h with hlim
  · cases h
  obtain rfl := (Prod.ext_iff.mp h).2
  obtain ⟨hpos, hle⟩ := not_or.mp hlim
  have hone := sub64_of_le (show 1 ≤ fileSize by omega)
  have hfirst := sub64_of_le (show scanSize str v.size ≤ fileSize by omega)
  exact ⟨by simp only [hone, hfirst]; omega, by simp only [hone]; omega, by simp only [hone, hfirst]; omega,
    by simp only [hfirst]; omega⟩

theorem openRange_within {fileSize : ℕ} (hpos : 0 < fileSize) {str : Bytes}
    {v v' : RangeValue} (h : openRange fileSize str v = (true, v')) : v'.Within fileSize := by
  unfold openRange at h
  dsimp only at h
  split_ifs at h with hlim
  · cases h
  obtain rfl := (Prod.ext_iff.mp h).2
  have hone := sub64_of_le (show 1 ≤ fileSize by omega)
  rw [hone, not_lt] at hlim
  have hrest := sub64_of_le (show scanSize str v.rangeBegin ≤ fileSize by omega)
  exact ⟨by simpa only [hone] using hlim, by simp only [hone]; omega, by simp only [hone, hrest]; omega,
    by simp only [hrest]; omega⟩

theorem closedRange_within {fileSize : ℕ} (hsize : fileSize < 2 ^ 64) {str₀ str₁ : Bytes} {v v' : RangeValue}
    (h : closedRange fileSize str₀ str₁ v = (true, v')) : v'.Within fileSize := by
  unfold closedRange at h
  dsimp only at h
  split_ifs at h with hlim
  · cases h
  obtain rfl := (Prod.ext_iff.mp h).2
  obtain ⟨hle, hlt⟩ := not_or.mp hlim
  rw [not_lt] at hle
  rw [not_le] at hlt
  have hdiff := sub64_of_le hle
  have hmod : (sub64 (scanSize str₁ v.rangeEnd) (scanSize str₀ v.rangeBegin) + 1) % 2 ^ 64 =
      scanSize str₁ v.rangeEnd - scanSize str₀ v.rangeBegin + 1 := by
    rw [hdiff, Nat.mod_eq_of_lt (by omega)]
  exact ⟨hle, hlt, hmod, by simp only [hmod]; omega⟩

/-- In an empty file, all bytes from one on are accepted, and the last one is in front of the first of all. -/
theorem openRange_empty (str : Bytes) {v : RangeValue} (hv : v.rangeBegin < 2 ^ 64) :
    ∃ v', openRange 0 str v = (true, v') ∧ ¬ v'.Within 0 := by
  have hend : sub64 0 1 = 2 ^ 64 - 1 := by decide
  have hbegin := scanSize_lt str hv
  unfold openRange
  dsimp only
  rw [if_neg (by rw [hend]; omega)]
  exact ⟨_, rfl, fun h => absurd h.end_lt (Nat.not_lt_zero _)⟩

/-- **Ranges of the file**: what `range_parsing` accepts is a range of the file, unless the file is empty and the item
has no last byte. -/
theorem rangeParsing_iff {fileSize : ℕ} (hsize : fileSize < 2 ^ 64) (item : Bytes) :
    RangesSound fileSize item ↔ ¬ (fileSize = 0 ∧ OpenItem item) := by
  constructor
  · rintro hsound ⟨rfl, a, hne, ha, rfl⟩
    obtain ⟨v', hopen, hnot⟩ := openRange_empty a (v := RangeValue.new) (by decide)
    have hdashed : Dashed (a ++ [45]) a [] := ⟨rfl, ha, List.not_mem_nil⟩
    have hparse := hdashed.rangeParsing 0 RangeValue.new
    rw [rangeParsed, if_neg hne, if_pos rfl] at hparse
    exact hnot (hsound _ v' (hparse.trans (congrArg Except.ok hopen)))
  · intro hcond v v' h
    rcases item_cases item with hno | ⟨a, b, rfl, ha, hb⟩ | ⟨a, b, hd⟩
    · rw [rangeParsing_noDash hno] at h
      cases h
    · rw [rangeParsing_dashes ha hb] at h
      cases h
    · rw [hd.rangeParsing] at h
      have hparsed := Except.ok.inj h
      unfold rangeParsed at hparsed
      split_ifs at hparsed with hanil hbnil hbnil
      · cases hparsed
      · exact suffixRange_within hparsed
      · refine openRange_within (Nat.pos_of_ne_zero fun h0 => hcond ⟨h0, a, hanil, hd.left, ?_⟩) hparsed
        rw [hd.eq, hbnil]
      · exact closedRange_within hsize hparsed

/-- The first five of ten bytes. -/
theorem rangeParsing_iff_closed : RangesSound 10 (lit "0-4") := by
  refine (rangeParsing_iff (by decide) (lit "0-4")).mpr ?_
  rintro ⟨h, -⟩
  cases h

/-- In an empty file the bytes from 0 to `2 ^ 64 - 1` are accepted. -/
theorem not_rangesSound_empty : ¬ RangesSound 0 (lit "0-") := by
  intro h
  have hparse : rangeParsing 0 (lit "0-") RangeValue.new = .ok (true, ⟨[], 0, 2 ^ 64 - 1, 0⟩) := by decide
  exact absurd (h _ _ hparse).end_lt (Nat.not_lt_zero _)

/-! ## Items of a header -/

/-- An item as the header has it in mind: `n-m`, `n-` or `-n`, with blanks around it. -/
def WellFormedItem (item : Bytes) : Prop :=
  ∃ a b, trimmed item = a ++ 45 :: b ∧ (∀ c ∈ a ++ b, digitVal c < 10) ∧ (a ≠ [] ∨ b ≠ [])

/-- `a-b` says which bytes of the file, as `std::sscanf` reads it. -/
def Satisfiable (fileSize : ℕ) (a b : Bytes) : Prop :=
  if a = [] then b ≠ [] ∧ 0 < scanSize b 0 ∧ scanSize b 0 ≤ fileSize
  else if b = [] then scanSize a 0 ≤ sub64 fileSize 1
  else scanSize a 0 ≤ scanSize b 0 ∧ scanSize b 0 < fileSize

/-- An item with a `-` that is not good: there are more of them, or it is not satisfiable. -/
def Rejected (fileSize : ℕ) (item : Bytes) : Prop :=
  ∃ a b, item = a ++ 45 :: b ∧ (45 : UInt8) ∉ a ∧ ((45 : UInt8) ∈ b ∨ ¬ Satisfiable fileSize a b)

/-- An item with one `-` that is satisfiable. -/
def Accepted (fileSize : ℕ) (item : Bytes) : Prop := ∃ a b, Dashed item a b ∧ Satisfiable fileSize a b

theorem suffixRange_fst (fileSize : ℕ) (str : Bytes) {v : RangeValue} (hv : v.size = 0) :
    (suffixRange fileSize str v).1 = true ↔ 0 < scanSize str 0 ∧ scanSize str 0 ≤ fileSize := by
  unfold suffixRange
  dsimp only
  rw [hv]
  split_ifs with h
  · simp only [false_iff]
    omega
  · simp only [true_iff]
    omega

theorem openRange_fst (fileSize : ℕ) (str : Bytes) {v : RangeValue} (hv : v.rangeBegin = 0) :
    (openRange fileSize str v).1 = true ↔ scanSize str 0 ≤ sub64 fileSize 1 := by
  unfold openRange
  dsimp only
  rw [hv]
  generalize sub64 fileSize 1 = m
  split_ifs with h
  · simp only [false_iff]
    omega
  · simp only [true_iff]
    omega

theorem closedRange_fst (fileSize : ℕ) (str₀ str₁ : Bytes) {v : RangeValue} (hbegin : v.rangeBegin = 0)
    (hend : v.rangeEnd = 0) :
    (closedRange fileSize str₀ str₁ v).1 = true ↔ scanSize str₀ 0 ≤ scanSize str₁ 0 ∧ scanSize str₁ 0 < fileSize := by
  unfold closedRange
  dsimp only
  rw [hbegin, hend]
  split_ifs with h
  · simp only [false_iff]
    omega
  · simp only [true_iff]
    omega

theorem rangeParsed_fst (fileSize : ℕ) (a b : Bytes) :
    (rangeParsed fileSize a b RangeValue.new).1 = true ↔ Satisfiable fileSize a b := by
  unfold rangeParsed Satisfiable
  split_ifs with ha hb hb
  · simp [hb]
  · rw [suffixRange_fst _ _ rfl]
    simp [hb]
  · exact openRange_fst _ _ rfl
  · exact closedRange_fst _ _ _ rfl rfl

/-- What `range_parsing` does with an item. -/
inductive ItemOutcome (fileSize : ℕ) (item : Bytes) : Prop
  | accepted (h : Accepted fileSize item) (v : RangeValue)
      (hparse : rangeParsing fileSize item RangeValue.new = .ok (true, v))
  | rejected (h : Rejected fileSize item) (v : RangeValue)
      (hparse : rangeParsing fileSize item RangeValue.new = .ok (false, v))
  | fault (h : (45 : UInt8) ∉ item) (hparse : rangeParsing fileSize item RangeValue.new = .error .badIndex)

/-- **Every item** is accepted, rejected or indexed behind its end. -/
theorem item_outcome (fileSize : ℕ) (item : Bytes) : ItemOutcome fileSize item := by
  rcases item_cases item with hno | ⟨a, b, rfl, ha, hb⟩ | ⟨a, b, hd⟩
  · exact .fault hno (rangeParsing_noDash hno _ _)
  · exact .rejected ⟨a, b, rfl, ha, Or.inl hb⟩ _ (rangeParsing_dashes ha hb _ _)
  · have hparse := hd.rangeParsing fileSize RangeValue.new
    have hfst := rangeParsed_fst fileSize a b
    change rangeParsing fileSize item RangeValue.new = .ok (rangeParsed fileSize a b RangeValue.new) at hparse
    rcases hres : rangeParsed fileSize a b RangeValue.new with ⟨_ | _, v⟩
    · rw [hres] at hparse hfst
      exact .rejected ⟨a, b, hd.eq, hd.left, Or.inr fun h => by simpa using hfst.mpr h⟩ v hparse
    · rw [hres] at hparse hfst
      exact .accepted ⟨a, b, hd, hfst.mp rfl⟩ v hparse

theorem Accepted.dash {fileSize : ℕ} {item : Bytes} (h : Accepted fileSize item) : (45 : UInt8) ∈ item := by
  obtain ⟨a, b, hd, -⟩ := h
  rw [hd.eq]
  simp

theorem Rejected.dash {fileSize : ℕ} {item : Bytes} (h : Rejected fileSize item) : (45 : UInt8) ∈ item := by
  obtain ⟨a, b, rfl, -⟩ := h
  simp

theorem Rejected.not_accepted {fileSize : ℕ} {item : Bytes} (h : Rejected fileSize item) :
    ¬ Accepted fileSize item := by
  rintro ⟨c, d, hd, hsat⟩
  obtain ⟨a, b, rfl, ha, hbad⟩ := h
  -- both see the first `-` of the item
  have hsplit : (a ++ 45 :: b).splitOn 45 = c :: [d] := by
    rw [hd.eq, List.splitOn_append_cons_self_of_not_mem hd.left, List.splitOn_eq_singleton hd.right]
  rw [List.splitOn_append_cons_self_of_not_mem ha] at hsplit
  obtain ⟨rfl, -⟩ := List.cons.inj hsplit
  obtain rfl : b = d := by simpa using hd.eq
  rcases hbad with hb | hnot
  · exact hd.right hb
  · exact hnot hsat

/-! ## The answer -/

/-- The items that are looked at, as `range_parsing` gets them: one as it stands, several without blanks around. -/
def parsedItems (rangeListStr : Bytes) : List Bytes :=
  if (tokens 44 rangeListStr).length = 1 then tokens 44 rangeListStr else (tokens 44 rangeListStr).map trimmed

/-- What becomes of items that are looked at one after the other. -/
inductive ItemsOutcome (fileSize : ℕ) (items : List Bytes) (good rejected fault : Prop) : Prop
  | accepted (h : ∀ y ∈ items, Accepted fileSize y) (hres : good)
  | rejected (pre : List Bytes) (x : Bytes) (post : List Bytes) (heq : items = pre ++ x :: post)
      (hpre : ∀ y ∈ pre, Accepted fileSize y) (h : Rejected fileSize x) (hres : rejected)
  | fault (pre : List Bytes) (x : Bytes) (post : List Bytes) (heq : items = pre ++ x :: post)
      (hpre : ∀ y ∈ pre, Accepted fileSize y) (h : (45 : UInt8) ∉ x) (hres : fault)

/-- **The loop over several items** stops at the first one that is not accepted. -/
theorem rangeItems_outcome (fileSize : ℕ) (boundary ctLine : Bytes) (list : List Bytes) (queue : List RangeValue)
    (contentLength : ℕ) :
    ItemsOutcome fileSize (list.map trimmed)
      (∃ res, rangeItems fileSize boundary ctLine list queue contentLength = .ok (some res))
      (rangeItems fileSize boundary ctLine list queue contentLength = .ok none)
      (rangeItems fileSize boundary ctLine list queue contentLength = .error .badIndex) := by
  induction list generalizing queue contentLength with
  | nil => exact .accepted nofun ⟨_, rfl⟩
  | cons str list ih =>
    rw [List.map_cons]
    simp only [rangeItems, strTrimmed_eq, ok_bind]
    cases item_outcome fileSize (trimmed str) with
    | accepted h v hparse =>
      simp only [hparse, ok_bind, if_true]
      have hcons : ∀ {pre : List Bytes}, (∀ y ∈ pre, Accepted fileSize y) →
          ∀ y ∈ trimmed str :: pre, Accepted fileSize y :=
        fun hpre => List.forall_mem_cons.mpr ⟨h, hpre⟩
      cases ih _ _ with
      | accepted hall hres => exact .accepted (hcons hall) hres
      | rejected pre x post heq hpre hx hres =>
        exact .rejected (trimmed str :: pre) x post (by rw [heq, List.cons_append]) (hcons hpre) hx hres
      | fault pre x post heq hpre hx hres =>
        exact .fault (trimmed str :: pre) x post (by rw [heq, List.cons_append]) (hcons hpre) hx hres
    | rejected h v hparse =>
      refine .rejected [] (trimmed str) _ rfl nofun h ?_
      simp [hparse]
    | fault h hparse =>
      refine .fault [] (trimmed str) _ rfl nofun h ?_
      rw [hparse, error_bind]

/-- **The answer**: the ranges when all items are accepted, 416 at the first one that is rejected. -/
theorem rangeTransfer_outcome (r : Response) (fileSize : ℕ) (boundary mimeType : Bytes) {rangeStr list : Bytes}
    (hstr : eraseSpaces rangeStr.length rangeStr = lit "bytes=" ++ list) (hne : list ≠ []) :
    ItemsOutcome fileSize (parsedItems list)
      (∃ r' boundary' ctLine queue, rangeTransfer r fileSize boundary mimeType rangeStr =
        .ok (r', .sendRange boundary' ctLine queue))
      (∃ r', rangeTransfer r fileSize boundary mimeType rangeStr = .ok (r', .writeDefault .rangeNotSatisfiable))
      (rangeTransfer r fileSize boundary mimeType rangeStr = .error .badIndex) := by
  have hlen : (lit "bytes=").length = 6 := rfl
  have hne' : lit "bytes=" ++ list ≠ [] := by simp [hne]
  have htake : (lit "bytes=" ++ list).take 6 = lit "bytes=" := by rw [← hlen, List.take_left]
  have hdrop : (lit "bytes=" ++ list).drop 6 = list := by rw [← hlen, List.drop_left]
  have hle : 6 ≤ (lit "bytes=" ++ list).length := by rw [List.length_append]; omega
  unfold rangeTransfer parsedItems
  simp only [hstr, if_neg hne', substr_zero, ok_bind, htake, ne_eq, not_true_eq_false, if_false,
    substrFrom_of_le hle, hdrop, if_neg hne, strSplit_tokens]
  split_ifs with hone
  · obtain ⟨item, hitem⟩ := List.length_eq_one_iff.mp hone
    simp only [hitem, index, List.getElem?_cons_zero, ok_bind]
    cases item_outcome fileSize item with
    | accepted h v hparse =>
      simp only [hparse, ok_bind, if_true]
      exact .accepted (by simpa using h) ⟨_, _, _, _, rfl⟩
    | rejected h v hparse =>
      simp only [hparse, ok_bind, Bool.false_eq_true, if_false]
      exact .rejected [] item [] rfl (List.forall_mem_nil _) h ⟨_, rfl⟩
    | fault h hparse =>
      simp only [hparse, error_bind]
      exact .fault [] item [] rfl (List.forall_mem_nil _) h trivial
  · cases rangeItems_outcome fileSize boundary (Header.contentType ++ lit ": " ++ mimeType) (tokens 44 list) [] 0 with
    | accepted h hres =>
      obtain ⟨⟨queue, contentLength⟩, hres⟩ := hres
      simp only [hres, ok_bind]
      exact .accepted h ⟨_, _, _, _, rfl⟩
    | rejected pre x post heq hpre h hres =>
      simp only [hres, ok_bind]
      exact .rejected pre x post heq hpre h ⟨_, rfl⟩
    | fault pre x post heq hpre h hres =>
      simp only [hres, error_bind]
      exact .fault pre x post heq hpre h trivial

/-- No list of tokens is indexed behind its end, and a header with a malformed item, be it empty, is answered with
416. -/
structure AnswersItems (fileSize : ℕ) (boundary mimeType rangeStr : Bytes) (items : List Bytes) : Prop where
  inBounds : ∀ r, rangeTransfer r fileSize boundary mimeType rangeStr ≠ .error .badIndex
  malformed : (∃ x ∈ items, ¬ WellFormedItem x) →
    ∀ r, ∃ r', rangeTransfer r fileSize boundary mimeType rangeStr = .ok (r', .writeDefault .rangeNotSatisfiable)

/-- An item is rejected before one without `-` is indexed. -/
def RejectedFirst (fileSize : ℕ) (items : List Bytes) : Prop :=
  ∃ pre x post, items = pre ++ x :: post ∧ (∀ y ∈ pre, (45 : UInt8) ∈ y) ∧ Rejected fileSize x

theorem trimmed_sublist (s : Bytes) : (trimmed s).Sublist s := by
  unfold trimmed
  split
  · exact List.nil_sublist s
  · exact (List.drop_sublist _ _).trans (List.take_sublist _ _)

theorem WellFormedItem.dash {item : Bytes} (h : WellFormedItem item) : (45 : UInt8) ∈ trimmed item := by
  obtain ⟨a, b, heq, -, -⟩ := h
  rw [heq]
  simp

/-- Where all items are well-formed, all that are looked at have a `-`. -/
theorem parsedItems_dash {list : Bytes} (h : ∀ x ∈ list.splitOn 44, WellFormedItem x) :
    ∀ y ∈ parsedItems list, (45 : UInt8) ∈ y := by
  have hmem : ∀ y ∈ tokens 44 list, WellFormedItem y := fun y hy => h y (List.mem_filter.mp hy).1
  intro y hy
  unfold parsedItems at hy
  split_ifs at hy with hone
  · exact (trimmed_sublist y).subset (hmem y hy).dash
  · obtain ⟨x, hx, rfl⟩ := List.mem_map.mp hy
    exact (hmem x hx).dash

/-- **Answers to ranges**: every malformed item is answered with 416 and nothing is indexed behind its end exactly when
all items are well-formed, or one is rejected and none without `-` comes before it. -/
theorem answersItems_iff (fileSize : ℕ) (boundary mimeType : Bytes) {rangeStr list : Bytes}
    (hstr : eraseSpaces rangeStr.length rangeStr = lit "bytes=" ++ list) (hne : list ≠ []) :
    AnswersItems fileSize boundary mimeType rangeStr (list.splitOn 44) ↔
      (∀ x ∈ list.splitOn 44, WellFormedItem x) ∨ RejectedFirst fileSize (parsedItems list) := by
  have hout := fun r => rangeTransfer_outcome r fileSize boundary mimeType hstr hne
  constructor
  · intro h
    by_cases hall : ∀ x ∈ list.splitOn 44, WellFormedItem x
    · exact Or.inl hall
    obtain ⟨x, hx, hbad⟩ : ∃ x ∈ list.splitOn 44, ¬ WellFormedItem x := by simpa using hall
    obtain ⟨r', hanswer⟩ := h.malformed ⟨x, hx, hbad⟩ (Response.new Request.new)
    right
    cases hout (Response.new Request.new) with
    | accepted _ hres =>
      obtain ⟨_, _, _, _, hres⟩ := hres
      rw [hres] at hanswer
      cases hanswer
    | rejected pre y post heq hpre hy _ => exact ⟨pre, y, post, heq, fun z hz => (hpre z hz).dash, hy⟩
    | fault _ _ _ _ _ _ hres => exact absurd hres (h.inBounds _)
  · rintro (hall | ⟨pre, x, post, heq, hpre, hx⟩)
    · refine ⟨fun r hres => ?_, fun ⟨x, hx, hbad⟩ => absurd (hall x hx) hbad⟩
      have hdash := parsedItems_dash hall
      cases hout r with
      | accepted _ hres' =>
        obtain ⟨_, _, _, _, hres'⟩ := hres'
        rw [hres'] at hres
        cases hres
      | rejected _ _ _ _ _ _ hres' =>
        obtain ⟨_, hres'⟩ := hres'
        rw [hres'] at hres
        cases hres
      | fault pre y post heq _ hy _ => exact hy (hdash y (by rw [heq]; simp))
    · -- the loop comes to the item that is rejected, or to another one before it
      have hanswer : ∀ r, ∃ r', rangeTransfer r fileSize boundary mimeType rangeStr =
          .ok (r', .writeDefault .rangeNotSatisfiable) := by
        intro r
        cases hout r with
        | accepted hall _ => exact absurd (hall x (by rw [heq]; simp)) hx.not_accepted
        | rejected _ _ _ _ _ _ hres => exact hres
        | fault pre' y post' heq' hpre' hy _ =>
          rw [heq] at heq'
          rcases List.append_eq_append_iff.mp heq' with ⟨l, rfl, hl⟩ | ⟨l, rfl, hl⟩
          · cases l with
            | nil =>
              obtain rfl : x = y := by simpa using (List.cons.inj hl).1
              exact absurd hx.dash hy
            | cons z l =>
              obtain rfl : x = z := (List.cons.inj hl).1
              exact absurd (hpre' x (by simp)) hx.not_accepted
          · cases l with
            | nil =>
              obtain rfl : y = x := by simpa using (List.cons.inj hl).1
              exact absurd hx.dash hy
            | cons z l =>
              obtain rfl : y = z := (List.cons.inj hl).1
              exact absurd (hpre y (by simp)) hy
      refine ⟨fun r hres => ?_, fun _ => hanswer⟩
      obtain ⟨r', hr'⟩ := hanswer r
      rw [hr'] at hres
      cases hres

/-- Two ranges of a file of ten bytes, the second one behind its end. -/
theorem answersItems_behindEnd :
    AnswersItems 10 (lit "b") (lit "text/plain") (lit "bytes=0-4, 20-") ((lit "0-4,20-").splitOn 44) := by
  have hstr : eraseSpaces (lit "bytes=0-4, 20-").length (lit "bytes=0-4, 20-") = lit "bytes=" ++ lit "0-4,20-" := by
    decide
  refine (answersItems_iff 10 (lit "b") (lit "text/plain") hstr (by decide)).mpr
    (Or.inr ⟨[lit "0-4"], lit "20-", [], by decide, by decide, lit "20", [], rfl, by decide, ?_⟩)
  right
  show ¬ scanSize (lit "20") 0 ≤ sub64 10 1
  decide

/-- An item without `-` is indexed behind its end. -/
theorem not_answersItems_noDash :
    ¬ AnswersItems 10 (lit "b") (lit "text/plain") (lit "bytes=5") ((lit "5").splitOn 44) := by
  intro h
  exact h.inBounds (Response.new Request.new) (by decide)

end Gts3.Http
