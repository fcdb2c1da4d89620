import Gts3.Http.RangeTransfer
import Mathlib.Algebra.Order.Ring.Nat

/-!
# What `range_transfer` hands to `send_range`

The headers it sets and the ranges it found (`Handed`), and the header lists that name ranges by their numbers
(`rangeTransfer_only`, `rangeTransfer_several`).  The value of `Content-Range` is put together in two places, which
never agree (`contentRange_differs`).
-/

namespace Gts3.Http

open Lib Lib.Search Lib.Cxx

/-! ## The headers -/

/-- `b-e/n`, as it stands in a `Content-Range`. -/
def rangeOfSize (rangeBegin rangeEnd n : ℕ) : Bytes :=
  formatNat 10 rangeBegin ++ lit "-" ++ formatNat 10 rangeEnd ++ lit "/" ++ formatNat 10 n

/-- The headers for the only range. -/
def Response.onlyRange (r : Response) (mimeType : Bytes) (v : RangeValue) : Response :=
  ((((r.setStatus .partialContent).setHeader Header.acceptRanges (lit "bytes")).setHeader Header.contentType
    mimeType).setHeader Header.contentLength (formatNat 10 v.size)).setHeader Header.contentRange
      (rangeOfSize v.rangeBegin v.rangeEnd v.size)

/-- The headers for several ranges. -/
def Response.severalRanges (r : Response) (boundary : Bytes) (contentLength : ℕ) : Response :=
  (((r.setStatus .partialContent).setHeader Header.contentType
    (lit "multipart/byteranges; boundary=" ++ boundary)).setHeader Header.contentLength
      (formatNat 10 contentLength)).setHeader Header.acceptRanges (lit "bytes")

/-- The line that names the type of the file. -/
def typeLine (mimeType : Bytes) : Bytes := Header.contentType ++ lit ": " ++ mimeType

/-- A range among several, with its line. -/
def RangeValue.withLine (fileSize : ℕ) (v : RangeValue) : RangeValue :=
  { v with crLine := Header.contentRange ++ lit ": bytes " ++ formatNat 10 v.rangeBegin ++ lit "-" ++
      formatNat 10 v.rangeEnd ++ lit "/" ++ formatNat 10 fileSize }

/-- What a range adds to the length. -/
def partLength (boundary ctLine : Bytes) (v : RangeValue) : ℕ :=
  2 + boundary.length + 2 + (ctLine.length + 2) + (v.crLine.length + 2) + 2 + (v.size + 2)

/-- The length that several ranges are announced with. -/
def severalLength (boundary ctLine : Bytes) (queue : List RangeValue) : ℕ :=
  (queue.map (partLength boundary ctLine)).sum + (2 + boundary.length + 2 + 2)

/-- The item is parsed as this range. -/
def ParsedAs (fileSize : ℕ) (item : Bytes) (v : RangeValue) : Prop :=
  rangeParsing fileSize item RangeValue.new = .ok (true, v)

instance (fileSize : ℕ) (item : Bytes) (v : RangeValue) : Decidable (ParsedAs fileSize item v) :=
  inferInstanceAs (Decidable (_ = _))

/-- The item is parsed as this range, which has got its line. -/
def PartOf (fileSize : ℕ) (item : Bytes) (v' : RangeValue) : Prop :=
  ∃ v, ParsedAs fileSize (trimmed item) v ∧ v' = v.withLine fileSize

theorem partOf_of_mem {fileSize : ℕ} {items : List Bytes} {queue : List RangeValue}
    (h : List.Forall₂ (PartOf fileSize) items queue) : ∀ v ∈ queue, ∃ item ∈ items, PartOf fileSize item v := by
  induction h with
  | nil => exact nofun
  | cons hv _ ih =>
    intro w hw
    rcases List.mem_cons.mp hw with rfl | hw
    · exact ⟨_, List.mem_cons_self, hv⟩
    · obtain ⟨item, hitem, hpart⟩ := ih w hw
      exact ⟨item, List.mem_cons_of_mem _ hitem, hpart⟩

/-- **The loop over several items** collects the ranges and their lengths. -/
theorem rangeItems_parsed {fileSize : ℕ} (boundary ctLine : Bytes) {list : List Bytes} {vs : List RangeValue}
    (h : List.Forall₂ (PartOf fileSize) list vs) (queue : List RangeValue) {n : ℕ} (hn : n < 2 ^ 64) :
    rangeItems fileSize boundary ctLine list queue n =
      .ok (some (queue ++ vs, (n + (vs.map (partLength boundary ctLine)).sum) % 2 ^ 64)) := by
  induction h generalizing queue n with
  | nil => rw [rangeItems, List.append_nil, List.map_nil, List.sum_nil, Nat.add_zero, Nat.mod_eq_of_lt hn]
  | @cons str v' list vs hstr _ ih =>
    obtain ⟨v, hparse, rfl⟩ := hstr
    rw [ParsedAs] at hparse
    simp only [rangeItems, strTrimmed_eq, ok_bind, hparse, if_true]
    have hnext := ih (queue ++ [v.withLine fileSize])
      (Nat.mod_lt (n + partLength boundary ctLine (v.withLine fileSize)) (by decide : 0 < 2 ^ 64))
    rw [List.append_assoc, List.singleton_append, Nat.mod_add_mod, Nat.add_assoc] at hnext
    exact hnext

/-- Items that the loop comes through are parsed. -/
theorem parsed_of_rangeItems {fileSize : ℕ} {boundary ctLine : Bytes} {list : List Bytes} {queue : List RangeValue}
    {n : ℕ} {res : List RangeValue × ℕ} (h : rangeItems fileSize boundary ctLine list queue n = .ok (some res)) :
    ∃ vs, List.Forall₂ (PartOf fileSize) list vs := by
  induction list generalizing queue n with
  | nil => exact ⟨[], .nil⟩
  | cons str list ih =>
    simp only [rangeItems, strTrimmed_eq, ok_bind] at h
    cases item_outcome fileSize (trimmed str) with
    | accepted _ v hparse =>
      simp only [hparse, ok_bind, if_true] at h
      obtain ⟨vs, hvs⟩ := ih h
      exact ⟨v.withLine fileSize :: vs, .cons ⟨v, hparse, rfl⟩ hvs⟩
    | rejected _ v hparse => simp [hparse] at h
    | fault _ hparse => simp [hparse] at h

/-! ## The answer -/

/-- The items are answered. -/
def rangesAnswered (r : Response) (fileSize : ℕ) (boundary mimeType : Bytes) (items : List Bytes) :
    Run (Response × RangeCall) :=
  match items with
  | [item] => do
    let (good, v) ← rangeParsing fileSize item RangeValue.new
    if good then .ok (r.onlyRange mimeType v, .sendRange [] [] [v])
    else .ok (r.setStatus .partialContent, .writeDefault .rangeNotSatisfiable)
  | items => do
    match ← rangeItems fileSize boundary (typeLine mimeType) items [] 0 with
    | none =>
      .ok ((r.setStatus .partialContent).setHeader Header.contentType
        (lit "multipart/byteranges; boundary=" ++ boundary), .writeDefault .rangeNotSatisfiable)
    | some (queue, n) =>
      .ok (r.severalRanges boundary ((n + (2 + boundary.length + 2 + 2)) % 2 ^ 64),
        .sendRange boundary (typeLine mimeType) queue)

/-- **A header with items**. -/
theorem rangeTransfer_answered (r : Response) (fileSize : ℕ) (boundary mimeType : Bytes) {rangeStr list : Bytes}
    (hstr : eraseSpaces rangeStr.length rangeStr = lit "bytes=" ++ list) (hne : list ≠ []) :
    rangeTransfer r fileSize boundary mimeType rangeStr =
      rangesAnswered r fileSize boundary mimeType (tokens 44 list) := by
  have hlen : (lit "bytes=").length = 6 := rfl
  have hne' : lit "bytes=" ++ list ≠ [] := by simp [hne]
  have htake : (lit "bytes=" ++ list).take 6 = lit "bytes=" := by rw [← hlen, List.take_left]
  have hdrop : (lit "bytes=" ++ list).drop 6 = list := by rw [← hlen, List.drop_left]
  have hle : 6 ≤ (lit "bytes=" ++ list).length := by rw [List.length_append]; omega
  unfold rangeTransfer
  simp only [hstr, if_neg hne', substr_zero, ok_bind, htake, ne_eq, not_true_eq_false, if_false,
    substrFrom_of_le hle, hdrop, if_neg hne, strSplit_tokens]
  split_ifs with hone
  · obtain ⟨item, hitem⟩ := List.length_eq_one_iff.mp hone
    rw [hitem]
    rfl
  · unfold rangesAnswered
    split
    · next item hitem => exact absurd (by rw [hitem]; rfl) hone
    · rfl

/-- How `range_transfer` comes to `send_range`. -/
inductive Handed (r : Response) (fileSize : ℕ) (boundary mimeType : Bytes) :
    Response → Bytes → Bytes → List RangeValue → Prop
  | only (item : Bytes) (v : RangeValue) (hparse : ParsedAs fileSize item v) :
    Handed r fileSize boundary mimeType (r.onlyRange mimeType v) [] [] [v]
  | several (items : List Bytes) (queue : List RangeValue) (hlen : items.length ≠ 1)
      (hparse : List.Forall₂ (PartOf fileSize) items queue) :
    Handed r fileSize boundary mimeType
      (r.severalRanges boundary (severalLength boundary (typeLine mimeType) queue % 2 ^ 64)) boundary
      (typeLine mimeType) queue

theorem handed_of_rangesAnswered {r r' : Response} {fileSize : ℕ} {boundary mimeType : Bytes} {items : List Bytes}
    {b ctLine : Bytes} {queue : List RangeValue}
    (h : rangesAnswered r fileSize boundary mimeType items = .ok (r', .sendRange b ctLine queue)) :
    Handed r fileSize boundary mimeType r' b ctLine queue := by
  unfold rangesAnswered at h
  split at h
  · next item =>
    cases item_outcome fileSize item with
    | accepted _ v hparse =>
      simp only [hparse, ok_bind, if_true, Except.ok.injEq, Prod.mk.injEq, RangeCall.sendRange.injEq] at h
      obtain ⟨rfl, rfl, rfl, rfl⟩ := h
      exact .only item v hparse
    | rejected _ v hparse => simp [hparse] at h
    | fault _ hparse => simp [hparse] at h
  · next hne =>
    have hlen : items.length ≠ 1 := by
      intro hone
      obtain ⟨item, hitem⟩ := List.length_eq_one_iff.mp hone
      exact hne item hitem
    cases hres : rangeItems fileSize boundary (typeLine mimeType) items [] 0 with
    | error e => simp [hres] at h
    | ok res =>
      cases res with
      | none => simp [hres] at h
      | some res =>
        obtain ⟨vs, hvs⟩ := parsed_of_rangeItems hres
        rw [rangeItems_parsed boundary (typeLine mimeType) hvs [] (by decide)] at h
        simp only [ok_bind, Except.ok.injEq, Prod.mk.injEq, RangeCall.sendRange.injEq, List.nil_append, Nat.zero_add,
          Nat.mod_add_mod] at h
        obtain ⟨rfl, rfl, rfl, rfl⟩ := h
        exact .several items vs hlen hvs

/-- **What is handed over**. -/
theorem handed_of_rangeTransfer {r r' : Response} {fileSize : ℕ} {boundary mimeType rangeStr : Bytes}
    {b ctLine : Bytes} {queue : List RangeValue}
    (h : rangeTransfer r fileSize boundary mimeType rangeStr = .ok (r', .sendRange b ctLine queue)) :
    Handed r fileSize boundary mimeType r' b ctLine queue := by
  obtain ⟨list, hstr, hne⟩ : ∃ list, eraseSpaces rangeStr.length rangeStr = lit "bytes=" ++ list ∧ list ≠ [] := by
    unfold rangeTransfer at h
    dsimp only at h
    generalize eraseSpaces rangeStr.length rangeStr = str at h
    split_ifs at h with hnil
    · cases h
    simp only [substr_zero, ok_bind] at h
    split_ifs at h with hpre
    · cases h
    have hsplit : str = lit "bytes=" ++ str.drop 6 := by rw [← not_not.mp hpre, List.take_append_drop]
    have hle : 6 ≤ str.length := by
      rw [hsplit, List.length_append]
      exact Nat.le_add_right 6 _
    rw [substrFrom_of_le hle, ok_bind] at h
    split_ifs at h with hrest
    · cases h
    exact ⟨str.drop 6, hsplit, hrest⟩
  rw [rangeTransfer_answered r fileSize boundary mimeType hstr hne] at h
  exact handed_of_rangesAnswered h

/-! ## Ranges as text -/

/-- An item of digits around a `-`. -/
structure DigitItem (item : Bytes) : Prop where
  dash : (45 : UInt8) ∈ item
  digit : ∀ c ∈ item, c = 45 ∨ digitVal c < 10
  short : item.length < 2147483648

theorem ne_of_digit {c d : UInt8} (h : d = 45 ∨ digitVal d < 10) (hc : c ≠ 45 ∧ 10 ≤ digitVal c) : d ≠ c := by
  rintro rfl
  rcases h with h | h
  · exact hc.1 h
  · exact absurd h (Nat.not_lt.mpr hc.2)

theorem isBlank_digit {c : UInt8} (h : c = 45 ∨ digitVal c < 10) : isBlank c = false := by
  have key : ∀ n < 33, ¬ (UInt8.ofNat n = 45 ∨ digitVal (UInt8.ofNat n) < 10) := by decide
  by_contra hblank
  have hle : c ≤ 32 := by
    rw [isBlank, Bool.not_eq_false, Bool.and_eq_true, decide_eq_true_eq, decide_eq_true_eq] at hblank
    exact hblank.2
  refine key c.toNat (Nat.lt_succ_of_le hle) ?_
  simpa using h

section DigitItem

variable {item : Bytes} (h : DigitItem item)
include h

theorem DigitItem.ne_nil : item ≠ [] := List.ne_nil_of_mem h.dash

theorem DigitItem.comma : (44 : UInt8) ∉ item := fun hc => ne_of_digit (h.digit 44 hc) (by decide) rfl

theorem DigitItem.space : (32 : UInt8) ∉ item := fun hc => ne_of_digit (h.digit 32 hc) (by decide) rfl

theorem DigitItem.trimmed_eq : trimmed item = item := by
  have htake : item.takeWhile isBlank = [] := by
    cases item with
    | nil => rfl
    | cons c item => exact List.takeWhile_cons_of_neg (by simp [isBlank_digit (h.digit c (by simp))])
  have hdrop : item.rdropWhile isBlank = item := by
    rw [List.rdropWhile_eq_self_iff]
    intro hne
    simp [isBlank_digit (h.digit _ (List.getLast_mem hne))]
  rw [Gts3.trimmed_eq h.short, htake, hdrop]
  rfl

end DigitItem

/-- The header that names these items. -/
def rangeText (items : List Bytes) : Bytes := lit "bytes=" ++ [44].intercalate items

theorem eraseSpaces_of_not_mem {s : Bytes} (h : (32 : UInt8) ∉ s) (i : ℕ) : eraseSpaces i s = s := by
  induction i with
  | zero => rfl
  | succ i ih =>
    have hne : s[i + 1]? ≠ some 32 := fun hs => h (List.mem_of_getElem? hs)
    rw [eraseSpaces, if_neg hne, ih]

theorem intercalate_ne_nil {c : UInt8} {items : List Bytes} (hne : items ≠ []) (h : ∀ i ∈ items, i ≠ []) :
    [c].intercalate items ≠ [] := by
  cases items with
  | nil => exact absurd rfl hne
  | cons i items =>
    have hi : i ≠ [] := h i (by simp)
    cases items <;> simp [List.intercalate_cons_cons, hi]

theorem not_mem_intercalate {c d : UInt8} (hcd : d ≠ c) {items : List Bytes} (h : ∀ i ∈ items, d ∉ i) :
    d ∉ [c].intercalate items := by
  induction items with
  | nil => simp
  | cons i items ih =>
    have hi : d ∉ i := h i (by simp)
    have hrest := ih fun j hj => h j (List.mem_cons_of_mem i hj)
    cases items with
    | nil => simpa using hi
    | cons j items => simp [List.intercalate_cons_cons, hi, hcd, hrest]

theorem rangeTransfer_rangeText (r : Response) (fileSize : ℕ) (boundary mimeType : Bytes) {items : List Bytes}
    (hne : items ≠ []) (h : ∀ i ∈ items, DigitItem i) :
    rangeTransfer r fileSize boundary mimeType (rangeText items) =
      rangesAnswered r fileSize boundary mimeType items := by
  have hspace : (32 : UInt8) ∉ rangeText items := by
    rw [rangeText, List.mem_append, not_or]
    exact ⟨by decide, not_mem_intercalate (by decide) fun i hi => (h i hi).space⟩
  rw [rangeTransfer_answered r fileSize boundary mimeType (eraseSpaces_of_not_mem hspace _)
    (intercalate_ne_nil hne fun i hi => (h i hi).ne_nil), tokens_intercalate (fun i hi => (h i hi).comma)
      fun i hi => (h i hi).ne_nil]

/-- **The only range**. -/
theorem rangeTransfer_only (r : Response) {fileSize : ℕ} (boundary mimeType : Bytes) {item : Bytes}
    (h : DigitItem item) {v : RangeValue} (hv : ParsedAs fileSize item v) :
    rangeTransfer r fileSize boundary mimeType (rangeText [item]) =
      .ok (r.onlyRange mimeType v, .sendRange [] [] [v]) := by
  rw [rangeTransfer_rangeText r fileSize boundary mimeType (List.cons_ne_nil _ _) (by simpa using h)]
  rw [ParsedAs] at hv
  simp only [rangesAnswered, hv, ok_bind, if_true]

/-- **Several ranges**. -/
theorem rangeTransfer_several (r : Response) {fileSize : ℕ} (boundary mimeType : Bytes) {items : List Bytes}
    (hlen : 2 ≤ items.length) (h : ∀ i ∈ items, DigitItem i) {vs : List RangeValue}
    (hvs : List.Forall₂ (ParsedAs fileSize) items vs) :
    rangeTransfer r fileSize boundary mimeType (rangeText items) =
      .ok (r.severalRanges boundary
          (severalLength boundary (typeLine mimeType) (vs.map (RangeValue.withLine fileSize)) % 2 ^ 64),
        .sendRange boundary (typeLine mimeType) (vs.map (RangeValue.withLine fileSize))) := by
  have hparts : List.Forall₂ (PartOf fileSize) items (vs.map (RangeValue.withLine fileSize)) := by
    rw [List.forall₂_map_right_iff]
    refine ((List.forall₂_and_left _ _).mpr ⟨h, hvs⟩).imp ?_
    rintro item v ⟨hitem, hv⟩
    exact ⟨v, by rwa [hitem.trimmed_eq], rfl⟩
  rw [rangeTransfer_rangeText r fileSize boundary mimeType (by rintro rfl; simp at hlen) h]
  unfold rangesAnswered
  split
  · simp at hlen
  · rw [rangeItems_parsed boundary (typeLine mimeType) hparts [] (by decide)]
    simp only [ok_bind, List.nil_append, Nat.zero_add, Nat.mod_add_mod, severalLength]

/-- `begin-end`. -/
def closedItem (rangeBegin rangeEnd : ℕ) : Bytes := formatNat 10 rangeBegin ++ 45 :: formatNat 10 rangeEnd

/-- `begin-`. -/
def openItem (rangeBegin : ℕ) : Bytes := formatNat 10 rangeBegin ++ [45]

theorem digit_of_mem_formatNat {n : ℕ} : ∀ c ∈ formatNat 10 n, digitVal c < 10 :=
  digitVal_lt_of_mem_formatNat (by omega) (by omega) n

theorem dash_not_mem_formatNat (n : ℕ) : (45 : UInt8) ∉ formatNat 10 n := fun hc =>
  absurd (digit_of_mem_formatNat 45 hc) (by decide)

/-- A number is scanned as it was printed. -/
theorem scanSize_formatNat {n : ℕ} (hn : n < 2 ^ 64) (m : ℕ) : scanSize (formatNat 10 n) m = n := by
  have hzero : (0 : UInt8) ∉ formatNat 10 n := fun hc => absurd (digit_of_mem_formatNat 0 hc) (by decide)
  have hcstr : cStr (formatNat 10 n) = formatNat 10 n := cStr_of_not_mem hzero
  have hnum : numeral 10 (formatNat 10 n) = n := numeral_formatNat (by omega) (by omega) n
  rw [scanSize, hcstr, strtoull_digits (by omega) (formatNat_ne_nil n) digit_of_mem_formatNat (by rwa [hnum]), hnum]
  rfl

theorem length_formatNat_le_twenty {n : ℕ} (hn : n < 2 ^ 64) : (formatNat 10 n).length ≤ 20 :=
  length_formatNat_le (by omega) (by omega) (by omega)

section Items

variable {b e : ℕ} (hb : b < 2 ^ 64)
include hb

theorem digitItem_closedItem (he : e < 2 ^ 64) : DigitItem (closedItem b e) where
  dash := by simp [closedItem]
  digit c hc := by
    rw [closedItem, List.mem_append, List.mem_cons] at hc
    rcases hc with hc | rfl | hc
    · exact Or.inr (digit_of_mem_formatNat c hc)
    · exact Or.inl rfl
    · exact Or.inr (digit_of_mem_formatNat c hc)
  short := by
    have h1 := length_formatNat_le_twenty hb
    have h2 := length_formatNat_le_twenty he
    rw [closedItem, List.length_append, List.length_cons]
    omega

theorem digitItem_openItem : DigitItem (openItem b) where
  dash := by simp [openItem]
  digit c hc := by
    rw [openItem, List.mem_append, List.mem_singleton] at hc
    rcases hc with hc | rfl
    · exact Or.inr (digit_of_mem_formatNat c hc)
    · exact Or.inl rfl
  short := by
    have h1 := length_formatNat_le_twenty hb
    rw [openItem, List.length_append, List.length_singleton]
    omega

/-- What `begin-end` is parsed as. -/
theorem rangeParsing_closedItem (he : e < 2 ^ 64) {fileSize : ℕ} (hsize : fileSize < 2 ^ 64) :
    rangeParsing fileSize (closedItem b e) RangeValue.new =
      .ok (if b > e ∨ e ≥ fileSize then (false, ⟨[], b, e, 0⟩) else (true, ⟨[], b, e, e - b + 1⟩)) := by
  have hdashed : Dashed (closedItem b e) (formatNat 10 b) (formatNat 10 e) :=
    ⟨rfl, dash_not_mem_formatNat b, dash_not_mem_formatNat e⟩
  rw [hdashed.rangeParsing, rangeParsed, if_neg (formatNat_ne_nil b), if_neg (formatNat_ne_nil e)]
  simp only [closedRange, RangeValue.new, scanSize_formatNat hb, scanSize_formatNat he]
  split_ifs with hlim
  · rfl
  · have hdiff : sub64 e b = e - b := sub64_of_le (by omega)
    rw [hdiff, Nat.mod_eq_of_lt (by omega)]

/-- In an empty file, `begin-` is parsed. -/
theorem parsedAs_openItem : ParsedAs 0 (openItem b) ⟨[], b, 2 ^ 64 - 1, sub64 0 b⟩ := by
  have hdashed : Dashed (openItem b) (formatNat 10 b) [] := ⟨rfl, dash_not_mem_formatNat b, List.not_mem_nil⟩
  have hend : sub64 0 1 = 2 ^ 64 - 1 := by decide
  rw [ParsedAs, hdashed.rangeParsing, rangeParsed, if_neg (formatNat_ne_nil b), if_pos rfl]
  simp only [openRange, RangeValue.new, scanSize_formatNat hb, hend]
  rw [if_neg (by omega)]

end Items

theorem openRange_bounds {fileSize : ℕ} {str : Bytes} {v v' : RangeValue}
    (h : openRange fileSize str v = (true, v')) :
    v'.rangeBegin = scanSize str v.rangeBegin ∧ v'.rangeEnd = sub64 fileSize 1 := by
  unfold openRange at h
  dsimp only at h
  split_ifs at h with hlim
  · cases h
  · obtain rfl := (Prod.ext_iff.mp h).2
    exact ⟨rfl, rfl⟩

/-- **An accepted range** has a text of its own, without blanks and commas. -/
theorem exists_digitItem {fileSize : ℕ} (hsize : fileSize < 2 ^ 64) {item : Bytes} {v : RangeValue}
    (hv : ParsedAs fileSize item v) :
    ∃ text v', DigitItem text ∧ ParsedAs fileSize text v' ∧ v'.rangeBegin = v.rangeBegin ∧
      v'.rangeEnd = v.rangeEnd := by
  by_cases hempty : fileSize = 0 ∧ OpenItem item
  · obtain ⟨rfl, a, hne, ha, rfl⟩ := hempty
    have hdashed : Dashed (a ++ [45]) a [] := ⟨rfl, ha, List.not_mem_nil⟩
    have hbegin := scanSize_lt a (show RangeValue.new.rangeBegin < 2 ^ 64 by decide)
    rw [ParsedAs, hdashed.rangeParsing, rangeParsed, if_neg hne, if_pos rfl] at hv
    obtain ⟨hb, he⟩ := openRange_bounds (Except.ok.inj hv)
    exact ⟨openItem _, _, digitItem_openItem hbegin, parsedAs_openItem hbegin, hb.symm, he.symm⟩
  · have hwithin := (rangeParsing_iff hsize item).mpr hempty RangeValue.new v hv
    have hend := hwithin.end_lt
    have hbegin := hwithin.begin_le
    refine ⟨closedItem v.rangeBegin v.rangeEnd, ⟨[], v.rangeBegin, v.rangeEnd, v.rangeEnd - v.rangeBegin + 1⟩,
      digitItem_closedItem (by omega) (by omega), ?_, rfl, rfl⟩
    rw [ParsedAs, rangeParsing_closedItem (by omega) (by omega) hsize, if_neg (by omega)]

/-! ## `Content-Range` -/

/-- `value` is what `Content-Range` says when `b-e` is the only range. -/
def OnlyRangeValue (fileSize b e : ℕ) (value : Bytes) : Prop :=
  ∃ r boundary mimeType rangeStr r' boundary' ctLine v,
    rangeTransfer r fileSize boundary mimeType rangeStr = .ok (r', .sendRange boundary' ctLine [v]) ∧
      v.rangeBegin = b ∧ v.rangeEnd = e ∧ r'.headers.find? Header.contentRange = some value

/-- `value` is what `Content-Range` says when `b-e` is one of several ranges. -/
def PartRangeValue (fileSize b e : ℕ) (value : Bytes) : Prop :=
  ∃ r boundary mimeType rangeStr r' boundary' ctLine queue v,
    rangeTransfer r fileSize boundary mimeType rangeStr = .ok (r', .sendRange boundary' ctLine queue) ∧
      2 ≤ queue.length ∧ v ∈ queue ∧ v.rangeBegin = b ∧ v.rangeEnd = e ∧
        v.crLine = Header.contentRange ++ lit ": " ++ value

/-- Both say the same of `b-e`: the unit, the range and the size of the file. -/
def SameContentRange (fileSize b e : ℕ) : Prop :=
  ∀ value value', OnlyRangeValue fileSize b e value → PartRangeValue fileSize b e value' →
    value = value' ∧ value' = lit "bytes " ++ rangeOfSize b e fileSize

theorem find?_onlyRange (r : Response) (mimeType : Bytes) (v : RangeValue) :
    (r.onlyRange mimeType v).headers.find? Header.contentRange = some (rangeOfSize v.rangeBegin v.rangeEnd v.size) ∧
      (r.onlyRange mimeType v).headers.find? Header.contentLength = some (formatNat 10 v.size) := by
  have hne : ¬ Same lessCaseInsensitive Header.contentRange Header.contentLength := fun hs =>
    absurd ((same_lessCaseInsensitive _ _).mp hs) (by decide)
  have hself : ∀ key, Same lessCaseInsensitive key key := fun key => (same_lessCaseInsensitive key key).mpr rfl
  simp only [Response.onlyRange, Response.setHeader, OrdMap.find?_assign, if_pos (hself _), if_neg hne, and_self]

theorem Handed.of_single {r r' : Response} {fileSize : ℕ} {boundary mimeType boundary' ctLine : Bytes}
    {queue : List RangeValue} (h : Handed r fileSize boundary mimeType r' boundary' ctLine queue)
    (hlen : queue.length = 1) :
    ∃ item v, ParsedAs fileSize item v ∧ r' = r.onlyRange mimeType v ∧ boundary' = [] ∧ ctLine = [] ∧ queue = [v] := by
  cases h with
  | only item v hparse => exact ⟨item, v, hparse, rfl, rfl, rfl, rfl⟩
  | several items _ hne hparse => exact absurd (hparse.length_eq.trans hlen) hne

theorem Handed.of_several {r r' : Response} {fileSize : ℕ} {boundary mimeType boundary' ctLine : Bytes}
    {queue : List RangeValue} (h : Handed r fileSize boundary mimeType r' boundary' ctLine queue)
    (hlen : queue.length ≠ 1) :
    (∃ items, List.Forall₂ (PartOf fileSize) items queue) ∧ boundary' = boundary ∧ ctLine = typeLine mimeType ∧
      r' = r.severalRanges boundary (severalLength boundary (typeLine mimeType) queue % 2 ^ 64) := by
  cases h with
  | only item v hparse => exact absurd rfl hlen
  | several items _ _ hparse => exact ⟨⟨items, hparse⟩, rfl, rfl, rfl⟩

theorem OnlyRangeValue.eq {fileSize b e : ℕ} {value : Bytes} (h : OnlyRangeValue fileSize b e value) :
    ∃ n, value = rangeOfSize b e n := by
  obtain ⟨r, boundary, mimeType, rangeStr, r', boundary', ctLine, v, htransfer, rfl, rfl, hvalue⟩ := h
  obtain ⟨item, w, -, rfl, -, -, hqueue⟩ := (handed_of_rangeTransfer htransfer).of_single rfl
  obtain rfl : v = w := List.singleton_injective hqueue
  rw [(find?_onlyRange r mimeType v).1] at hvalue
  exact ⟨v.size, (Option.some.inj hvalue).symm⟩

theorem PartRangeValue.eq {fileSize b e : ℕ} {value : Bytes} (h : PartRangeValue fileSize b e value) :
    value = lit "bytes " ++ rangeOfSize b e fileSize := by
  obtain ⟨r, boundary, mimeType, rangeStr, r', boundary', ctLine, queue, v, htransfer, hlen, hv, rfl, rfl, hvalue⟩ := h
  obtain ⟨⟨items, hparts⟩, -⟩ := (handed_of_rangeTransfer htransfer).of_several (by omega)
  obtain ⟨item, -, w, -, rfl⟩ := partOf_of_mem hparts v hv
  have hline : (w.withLine fileSize).crLine = Header.contentRange ++ lit ": " ++
      (lit "bytes " ++ rangeOfSize w.rangeBegin w.rangeEnd fileSize) := by
    simp only [RangeValue.withLine, rangeOfSize, List.append_assoc]
    rfl
  exact List.append_cancel_left (hvalue.symm.trans hline)

/-- The two values differ from their first byte on. -/
theorem OnlyRangeValue.ne {fileSize b e : ℕ} {value value' : Bytes} (h : OnlyRangeValue fileSize b e value)
    (h' : PartRangeValue fileSize b e value') : value ≠ value' := by
  obtain ⟨n, rfl⟩ := h.eq
  rw [h'.eq]
  intro heq
  cases hb : formatNat 10 b with
  | nil => exact formatNat_ne_nil b hb
  | cons c ds =>
    rw [rangeOfSize, rangeOfSize, hb] at heq
    obtain rfl : c = 98 := (List.cons.inj heq).1
    exact absurd (digit_of_mem_formatNat (n := b) 98 (by simp [hb])) (by decide)

/-- There are headers for both. -/
theorem exists_rangeValues {fileSize : ℕ} (hsize : fileSize < 2 ^ 64) {item : Bytes} {v : RangeValue}
    (hv : ParsedAs fileSize item v) :
    (∃ value, OnlyRangeValue fileSize v.rangeBegin v.rangeEnd value) ∧
      ∃ value, PartRangeValue fileSize v.rangeBegin v.rangeEnd value := by
  obtain ⟨text, w, htext, hw, hb, he⟩ := exists_digitItem hsize hv
  set r := Response.new Request.new
  constructor
  · exact ⟨_, r, [], [], _, _, _, _, w, rangeTransfer_only r [] [] htext hw, hb, he, (find?_onlyRange r [] w).1⟩
  · refine ⟨lit "bytes " ++ rangeOfSize w.rangeBegin w.rangeEnd fileSize, r, [], [], rangeText [text, text], _, _, _, _,
      w.withLine fileSize, rangeTransfer_several r [] [] le_rfl (by simpa using htext)
        (.cons hw (.cons hw .nil) : List.Forall₂ (ParsedAs fileSize) [text, text] [w, w]), by simp, by simp, hb, he, ?_⟩
    simp only [RangeValue.withLine, rangeOfSize, List.append_assoc]
    rfl

/-- **The two values of `Content-Range`**: for no accepted range do they agree. -/
theorem contentRange_differs {fileSize : ℕ} (hsize : fileSize < 2 ^ 64) {item : Bytes} {v : RangeValue}
    (hv : ParsedAs fileSize item v) : ¬ SameContentRange fileSize v.rangeBegin v.rangeEnd := by
  obtain ⟨⟨value, honly⟩, ⟨value', hpart⟩⟩ := exists_rangeValues hsize hv
  intro h
  exact honly.ne hpart (h value value' honly hpart).1

/-- The last four of ten bytes. -/
theorem contentRange_differs_suffix : ¬ SameContentRange 10 6 9 :=
  contentRange_differs (by decide) (by decide : ParsedAs 10 (lit "-4") ⟨[], 6, 9, 4⟩)

/-- The first five of ten bytes: `0-4/5` alone, and `bytes 0-4/10` as a part. -/
theorem not_sameContentRange_first :
    ParsedAs 10 (lit "0-4") ⟨[], 0, 4, 5⟩ ∧ ¬ SameContentRange 10 0 4 := by
  have hparse : ParsedAs 10 (lit "0-4") ⟨[], 0, 4, 5⟩ := by decide
  obtain ⟨⟨value, honly⟩, ⟨value', hpart⟩⟩ := exists_rangeValues (by decide) hparse
  exact ⟨hparse, fun h => honly.ne hpart (h value value' honly hpart).1⟩

end Gts3.Http
