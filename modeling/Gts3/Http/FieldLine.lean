import Gts3.Http.Segmentation
import Gts3.Lib.Trim

/-!
# Fields as they are written, and the parser

A client writes `name: value`.  The parser takes the name in lower case and the value without the blanks around it and
percent-decoded (`readsAs_fieldLine`), and a value without a percent sign as it is
(`fromPercentEncoding_of_not_mem`).  A field that the lines agree on has that value (`Head.lastValue_eq_some`).
-/

namespace Gts3

open Lib Lib.Search Lib.Cxx Lib.Trim Lib.HttpMessage

theorem fromPercentEncoding_of_not_mem {s : Bytes} (h : 37 ∉ s) : fromPercentEncoding s = s := by
  induction s with
  | nil => rfl
  | cons c s ih =>
    rw [List.mem_cons, not_or] at h
    rw [fromPercentEncoding_cons (Ne.symm h.1), ih h.2]

/-- `str_trimmed` takes the blanks away at both ends. -/
theorem trimmed_eq_trim {s : Bytes} (h : s.length < 2147483648) : trimmed s = trim isBlank s := by
  rw [trimmed_eq h, trim_eq_drop]

namespace Http

/-- The text fits the numbers that `str_trimmed` counts with. -/
def Short (s : Bytes) : Prop := s.length < 2147483000

instance (s : Bytes) : Decidable (Short s) := inferInstanceAs (Decidable (_ < _))

variable {name value : Bytes}

theorem find_colon (hname : 58 ∉ name) (rest : Bytes) : find [58] (name ++ lit ": " ++ rest) = some name.length := by
  have heq : name ++ lit ": " ++ rest = name ++ 58 :: (32 :: rest) := by
    rw [List.append_assoc]
    rfl
  rw [heq, find_singleton_append hname]

/-- **The name** of a written field. -/
theorem headerKey_fieldLine (rest : Bytes) :
    headerKey (name ++ lit ": " ++ rest) name.length = strToLower (trimmed name) := by
  rw [headerKey, List.append_assoc, List.take_left]

/-- **The value** of a written field. -/
theorem headerValue_fieldLine (hshort : Short value) :
    headerValue (fieldLine (name, value)) name.length = fromPercentEncoding (trimmed value) := by
  have hdrop : (fieldLine (name, value)).drop (name.length + 1) = 32 :: (value ++ [13, 10]) := by
    have heq : fieldLine (name, value) = name ++ [58] ++ 32 :: (value ++ [13, 10]) := by
      simp [fieldLine, lit, crlf]
    rw [heq, List.drop_left' (by simp)]
  have hlen : (32 :: (value ++ [13, 10])).length < 2147483648 := by
    have hvalue : value.length < 2147483000 := hshort
    simp only [List.length_cons, List.length_append, List.length_nil]
    omega
  have htrim : trim isBlank (32 :: (value ++ [13, 10])) = trim isBlank value := by
    rw [trim_cons_of_pos (by decide), show [(13 : UInt8), 10] = [13] ++ [10] from rfl, ← List.append_assoc,
      trim_concat_of_pos (by decide), trim_concat_of_pos (by decide)]
  have hvalue : value.length < 2147483648 := lt_trans hshort (by decide)
  rw [headerValue, hdrop, trimmed_eq_trim hlen, htrim, trimmed_eq_trim hvalue]

/-- A value without blanks at its ends and without a percent sign is read as it is. -/
theorem fromPercentEncoding_trimmed (hshort : Short value) (htrim : Trimmed isBlank value) (hpercent : 37 ∉ value) :
    fromPercentEncoding (trimmed value) = value := by
  rw [trimmed_eq_trim (lt_trans hshort (by decide)), htrim.trim_eq, fromPercentEncoding_of_not_mem hpercent]

/-! ## The headers of a head -/

/-- The line is read as a field with the name, whose value is `value`. -/
def ReadsAs (line key value : Bytes) : Prop :=
  ∃ colon, find [58] line = some colon ∧ SameName (headerKey line colon) key ∧ headerValue line colon = value

theorem ReadsAs.unique {line key value value' : Bytes} (h : ReadsAs line key value) (h' : ReadsAs line key value') :
    value = value' := by
  obtain ⟨colon, hcolon, -, rfl⟩ := h
  obtain ⟨colon', hcolon', -, rfl⟩ := h'
  rw [Option.some.inj (hcolon.symm.trans hcolon')]

theorem ReadsAs.sameName {line key key' value value' : Bytes} (h : ReadsAs line key value)
    (h' : ReadsAs line key' value') : SameName key key' := by
  obtain ⟨colon, hcolon, hkey, -⟩ := h
  obtain ⟨colon', hcolon', hkey', -⟩ := h'
  obtain rfl := Option.some.inj (hcolon.symm.trans hcolon')
  exact hkey.symm.trans hkey'

theorem valueBehind_of_readsAs {line key value : Bytes} (h : ReadsAs line key value) (old : Option Bytes) :
    Head.valueBehind key old line = some value := by
  obtain ⟨colon, hcolon, hkey, rfl⟩ := h
  rw [Head.valueBehind, hcolon]
  exact if_pos hkey

theorem valueBehind_of_not_readsAs {line key : Bytes} (h : ∀ value, ¬ ReadsAs line key value) (old : Option Bytes) :
    Head.valueBehind key old line = old := by
  rw [Head.valueBehind]
  cases hcolon : find [58] line with
  | none => rfl
  | some colon => exact if_neg fun hkey => h _ ⟨colon, hcolon, hkey, rfl⟩

theorem readsAs_fieldLine (hname : 58 ∉ name) (htrim : trimmed name = name) (hshort : Short value) :
    ReadsAs (fieldLine (name, value)) name (fromPercentEncoding (trimmed value)) := by
  refine ⟨name.length, ?_, ?_, headerValue_fieldLine hshort⟩
  · rw [fieldLine, List.append_assoc (name ++ lit ": ")]
    exact find_colon hname (value ++ crlf)
  · rw [fieldLine, List.append_assoc (name ++ lit ": "), headerKey_fieldLine, htrim]
    exact map_tolower_strToLower name

theorem Head.lastValue_eq_some {h : Head} {key value : Bytes} (hsome : ∃ l ∈ h.headers, ReadsAs (l ++ crlf) key value)
    (hall : ∀ l ∈ h.headers, ∀ value', ReadsAs (l ++ crlf) key value' → value' = value) :
    h.lastValue key = some value := by
  rw [Head.lastValue]
  generalize h.headers = lines at hsome hall
  induction lines using List.reverseRecOn with
  | nil =>
    obtain ⟨l, hl, -⟩ := hsome
    exact absurd hl List.not_mem_nil
  | append_singleton lines last ih =>
    rw [List.foldl_append, List.foldl_cons, List.foldl_nil]
    by_cases hlast : ∃ value', ReadsAs (last ++ crlf) key value'
    · obtain ⟨value', hread⟩ := hlast
      rw [valueBehind_of_readsAs hread, hall last (by simp) value' hread]
    · have hskip := not_exists.mp hlast
      rw [valueBehind_of_not_readsAs hskip]
      obtain ⟨l, hl, hread⟩ := hsome
      rcases List.mem_append.mp hl with hl | hl
      · exact ih ⟨l, hl, hread⟩ fun l' hl' => hall l' (List.mem_append_left _ hl')
      · obtain rfl := List.mem_singleton.mp hl
        exact absurd hread (hskip value)

theorem Head.lastValue_eq_none {h : Head} {key : Bytes}
    (hall : ∀ l ∈ h.headers, ∀ value, ¬ ReadsAs (l ++ crlf) key value) : h.lastValue key = none := by
  rw [Head.lastValue]
  generalize h.headers = lines at hall
  induction lines using List.reverseRecOn with
  | nil => rfl
  | append_singleton lines last ih =>
    rw [List.foldl_append, List.foldl_cons, List.foldl_nil, valueBehind_of_not_readsAs (hall last (by simp))]
    exact ih fun l hl => hall l (List.mem_append_left _ hl)

/-- **However the stream of a well-formed head is cut**, the last segment makes `load` return true, and the parser
hands out the request of the head. -/
theorem Head.WellFormed.feed {h : Head} (hw : h.WellFormed) (hfit : h.CookiesFit) {segs : List Bytes}
    (hne : ∀ g ∈ segs, g ≠ []) (hsegs : segs.flatten = h.bytes) :
    ∃ bs p, Http.feed .new segs = .ok (bs ++ [true], p) ∧ p.context = some (h.request.finished []) := by
  obtain ⟨pre, g, post, rest, s, q, rfl, -, -, htail, hfeeds, hdrain⟩ :=
    LineMachine.feeds_whole hw.isLine hw.line_short (hw.accepted hfit).runLines
      (show headMachine.line (.reading h.request) crlf = .stop .waiting (.complete h.request) from rfl)
      (hsegs.trans (List.append_nil h.bytes).symm)
  obtain ⟨rfl, hpost⟩ := List.append_eq_nil_iff.mp htail.symm
  -- nothing is left for another segment
  obtain rfl : post = [] := by
    cases post with
    | nil => rfl
    | cons g' post =>
      rw [List.flatten_cons, List.append_eq_nil_iff] at hpost
      exact absurd hpost.1 (hne g' (by simp))
  obtain ⟨p₁, hfeed, hp₁, rfl⟩ := feed_feeds Parser.sim_new hfeeds
  obtain ⟨b, p₂, hload, hsim⟩ := load_sim hp₁ g
  rw [hdrain] at hsim
  obtain ⟨rfl, -, -, hctx⟩ := hsim
  exact ⟨_, p₂, feed_append hfeed hload, hctx⟩

end Http

end Gts3
