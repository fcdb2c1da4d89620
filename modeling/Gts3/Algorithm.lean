import Gts3.Lib.Cxx
import Mathlib.Data.List.DropRight

/-!
# `gts/algorithm.cpp`: the string functions

Each function is written as the source computes it, with the checks of `std::string::substr`.  Beside it stands
what it computes: `strSplit_eq` (the tokens of `List.splitOn`), `strListJoin_eq`, `strTrimmed_eq` and `trimmed_eq`
(blanks dropped on both sides).
-/

namespace Gts3

open Lib Lib.Search Lib.Cxx

/-! ## `str_split` -/

/-- The loop of `str_split`; `strs` ends with the separator. -/
def strSplitLoop (splits : Bytes) (ignoreEmpty : Bool) : ℕ → Bytes → List Bytes → Run (List Bytes)
  | 0, _, _ => .error .diverge
  | fuel + 1, strs, result =>
    match find splits strs with
    | none => .ok result
    | some pos => do
      let tmp ← substr strs 0 pos
      let result := if tmp ≠ [] ∨ ignoreEmpty = false then result ++ [tmp] else result
      let strs ← substr strs (pos + splits.length) strs.length
      strSplitLoop splits ignoreEmpty fuel strs result

/-- `str_split(str, splits, ignore_empty)`. -/
def strSplit (str splits : Bytes) (ignoreEmpty : Bool) : Run (List Bytes) :=
  if str = [] then .ok []
  else strSplitLoop splits ignoreEmpty (str.length + splits.length + 1) (str ++ splits) []

/-- The nonempty tokens between separators. -/
def tokens (c : UInt8) (s : Bytes) : List Bytes := (s.splitOn c).filter (· ≠ [])

/-- The tokens `str_split` keeps. -/
def keptTokens (ignoreEmpty : Bool) (ts : List Bytes) : List Bytes :=
  if ignoreEmpty then ts.filter (· ≠ []) else ts

theorem keptTokens_cons (ie : Bool) (t : Bytes) (ts : List Bytes) :
    keptTokens ie (t :: ts) = (if t ≠ [] ∨ ie = false then [t] else []) ++ keptTokens ie ts := by
  cases ie <;> by_cases h : t = [] <;> simp [keptTokens, h]

/-- **The loop** collects the tokens of what is left. -/
theorem strSplitLoop_eq (c : UInt8) (ie : Bool) : ∀ (fuel : ℕ) (s : Bytes) (acc : List Bytes),
    s.length + 1 < fuel →
      strSplitLoop [c] ie fuel (s ++ [c]) acc = .ok (acc ++ keptTokens ie (s.splitOn c)) := by
  intro fuel
  induction fuel with
  | zero => intro s acc h; omega
  | succ fuel ih =>
    intro s acc hfuel
    -- the first token `t` and what follows it, with the separator the source appends
    obtain ⟨t, u, ht, hs⟩ : ∃ t u, c ∉ t ∧ s ++ [c] = t ++ c :: u ∧
        ((u = [] ∧ s = t) ∨ ∃ s', u = s' ++ [c] ∧ s = t ++ c :: s') := by
      by_cases hc : c ∈ s
      · obtain ⟨t, s', rfl, ht⟩ := List.eq_append_cons_of_mem hc
        exact ⟨t, s' ++ [c], ht, by simp, Or.inr ⟨s', rfl, rfl⟩⟩
      · exact ⟨s, [], hc, rfl, Or.inl ⟨rfl, rfl⟩⟩
    obtain ⟨hsu, hcases⟩ := hs
    have hstep : strSplitLoop [c] ie (fuel + 1) (s ++ [c]) acc =
        strSplitLoop [c] ie fuel u (acc ++ if t ≠ [] ∨ ie = false then [t] else []) := by
      rw [hsu, strSplitLoop, find_singleton_append ht]
      have hlen : t.length + [c].length ≤ (t ++ c :: u).length := by simp
      have hdrop : (t ++ c :: u).drop (t.length + 1) = u := by simp
      have htake : u.take (t ++ c :: u).length = u := List.take_of_length_le (by simp; omega)
      simp only [substr_zero, ok_bind, substr_of_le hlen, List.take_left]
      rw [List.length_singleton, hdrop, htake]
      congr 1
      split_ifs <;> simp
    rw [hstep]
    rcases hcases with ⟨rfl, rfl⟩ | ⟨s', rfl, rfl⟩
    · obtain ⟨fuel, rfl⟩ : ∃ k, fuel = k + 1 := ⟨fuel - 1, by omega⟩
      rw [List.splitOn_eq_singleton ht, keptTokens_cons, strSplitLoop]
      simp [find, keptTokens]
    · rw [ih s' _ (by simp at hfuel; omega), List.splitOn_append_cons_self_of_not_mem ht,
        keptTokens_cons, List.append_assoc]

/-- **`str_split` at one character** gives the tokens between the separators. -/
theorem strSplit_eq (s : Bytes) (c : UInt8) (ie : Bool) :
    strSplit s [c] ie = .ok (if s = [] then [] else keptTokens ie (s.splitOn c)) := by
  unfold strSplit
  split_ifs with h
  · rfl
  · rw [strSplitLoop_eq c ie _ s [] (by simp), List.nil_append]

theorem strSplit_tokens (s : Bytes) (c : UInt8) : strSplit s [c] true = .ok (tokens c s) := by
  rw [strSplit_eq]
  by_cases h : s = [] <;> simp [h, keptTokens, tokens, List.splitOn_nil]

theorem tokens_append_cons {c : UInt8} {t : Bytes} (ht : c ∉ t) (hne : t ≠ []) (s : Bytes) :
    tokens c (t ++ c :: s) = t :: tokens c s := by
  rw [tokens, List.splitOn_append_cons_self_of_not_mem ht, List.filter_cons_of_pos (by simpa using hne), tokens]

theorem tokens_of_not_mem {c : UInt8} {t : Bytes} (ht : c ∉ t) (hne : t ≠ []) : tokens c t = [t] := by
  simp [tokens, List.splitOn_eq_singleton ht, hne]

/-- Joining nonempty strings without the separator, and splitting again. -/
theorem tokens_intercalate {c : UInt8} {ts : List Bytes} (hc : ∀ t ∈ ts, c ∉ t) (hne : ∀ t ∈ ts, t ≠ []) :
    tokens c ([c].intercalate ts) = ts := by
  cases ts with
  | nil => rfl
  | cons t ts =>
    rw [tokens, List.splitOn_intercalate c hc (by simp), List.filter_eq_self]
    simpa using hne

theorem not_mem_of_mem_splitOn {c : UInt8} {s t : Bytes} (h : t ∈ s.splitOn c) : c ∉ t := by
  induction hn : s.length using Nat.strong_induction_on generalizing s with
  | _ n ih =>
    by_cases hc : c ∈ s
    · obtain ⟨a, b, rfl, ha⟩ := List.eq_append_cons_of_mem hc
      rw [List.splitOn_append_cons_self_of_not_mem ha] at h
      rcases List.mem_cons.mp h with rfl | ht
      · exact ha
      · exact ih b.length (by simp at hn; omega) ht rfl
    · rw [List.splitOn_eq_singleton hc, List.mem_singleton] at h
      rwa [h]

theorem not_mem_of_mem_tokens {c : UInt8} {s t : Bytes} (h : t ∈ tokens c s) : c ∉ t :=
  not_mem_of_mem_splitOn (List.mem_filter.mp h).1

/-! ## `str_list_join` -/

/-- The loop of `str_list_join`, up to the last element; it gives the index and the result so far. -/
def strListJoinLoop (list : List Bytes) (splits : Bytes) : ℕ → ℕ → Bytes → Run (ℕ × Bytes)
  | 0, _, _ => .error .diverge
  | fuel + 1, i, result =>
    if i < list.length - 1 then do
      let element ← index list i
      strListJoinLoop list splits fuel (i + 1) (result ++ (element ++ splits))
    else .ok (i, result)

/-- `str_list_join(list, splits)`. -/
def strListJoin (list : List Bytes) (splits : Bytes) : Run Bytes :=
  if list = [] then .ok []
  else do
    let (i, result) ← strListJoinLoop list splits list.length 0 []
    let element ← index list i
    .ok (result ++ element)

theorem index_append_cons {α : Type} (front : List α) (a : α) (back : List α) :
    index (front ++ a :: back) front.length = .ok a :=
  index_of_get (by simp)

/-- **The loop** joins what is left of the list: `front` is behind it, and `last` is the last element. -/
theorem strListJoinLoop_eq (splits : Bytes) (rest : List Bytes) (last : Bytes) :
    ∀ (front : List Bytes) (result : Bytes) (fuel : ℕ), rest.length < fuel →
      strListJoinLoop (front ++ (rest ++ [last])) splits fuel front.length result =
        .ok (front.length + rest.length, result ++ rest.flatMap (· ++ splits)) := by
  induction rest with
  | nil =>
    intro front result fuel hfuel
    obtain ⟨fuel, rfl⟩ : ∃ k, fuel = k + 1 := ⟨fuel - 1, by omega⟩
    rw [strListJoinLoop, if_neg (by simp)]
    simp
  | cons element rest ih =>
    intro front result fuel hfuel
    obtain ⟨fuel, rfl⟩ : ∃ k, fuel = k + 1 := ⟨fuel - 1, by omega⟩
    have hnext := ih (front ++ [element]) (result ++ (element ++ splits)) fuel (by simp at hfuel; omega)
    rw [List.append_assoc, List.length_append, List.length_singleton] at hnext
    rw [strListJoinLoop, if_pos (by simp), List.cons_append, index_append_cons, ok_bind]
    rw [List.singleton_append] at hnext
    rw [hnext]
    simp only [List.length_cons, List.flatMap_cons, List.append_assoc]
    congr 2
    omega

theorem flatMap_append_last (splits : Bytes) (rest : List Bytes) (last : Bytes) :
    rest.flatMap (· ++ splits) ++ last = splits.intercalate (rest ++ [last]) := by
  induction rest with
  | nil => simp
  | cons element rest ih =>
    rw [List.cons_append, List.intercalate_cons_of_ne_nil (by simp), ← ih]
    simp

/-- **`str_list_join`** puts the separator between the elements. -/
theorem strListJoin_eq (list : List Bytes) (splits : Bytes) :
    strListJoin list splits = .ok (splits.intercalate list) := by
  rcases List.eq_nil_or_concat list with rfl | ⟨rest, last, rfl⟩
  · rfl
  · have hloop := strListJoinLoop_eq splits rest last [] [] (rest ++ [last]).length (by simp)
    rw [List.nil_append, List.length_nil, Nat.zero_add, List.nil_append] at hloop
    rw [List.concat_eq_append, strListJoin, if_neg (by simp), hloop, ok_bind]
    simp only [index_append_cons, ok_bind, flatMap_append_last]

/-- **Splitting and joining at one character.**  The tokens of a string hold no separator and join to the string;
without the empty ones they are the others, in order; and a list without the separator in its elements comes back
from its join. -/
theorem strSplit_strListJoin (s : Bytes) (c : UInt8) (list : List Bytes) :
    (∃ ts, strSplit s [c] false = .ok ts ∧ strSplit s [c] true = .ok (ts.filter (· ≠ [])) ∧
      (s ≠ [] → (∀ t ∈ ts, c ∉ t) ∧ strListJoin ts [c] = .ok s)) ∧
    (∃ joined, strListJoin list [c] = .ok joined ∧
      (joined ≠ [] → (∀ t ∈ list, c ∉ t) → strSplit joined [c] false = .ok list)) := by
  constructor
  · refine ⟨if s = [] then [] else s.splitOn c, ?_, ?_, fun hs => ⟨fun t ht => ?_, ?_⟩⟩
    · rw [strSplit_eq, keptTokens, if_neg Bool.false_ne_true]
    · rw [strSplit_eq, keptTokens, if_pos rfl]
      split_ifs <;> rfl
    · rw [if_neg hs] at ht
      exact not_mem_of_mem_splitOn ht
    · rw [strListJoin_eq, if_neg hs, List.intercalate_splitOn]
  · refine ⟨[c].intercalate list, strListJoin_eq _ _, fun hjoined hlist => ?_⟩
    have hne : list ≠ [] := by
      rintro rfl
      exact hjoined rfl
    rw [strSplit_eq, if_neg hjoined, List.splitOn_intercalate c hlist hne, keptTokens, if_neg Bool.false_ne_true]

/-! ## Prefixes and letter case -/

/-- `str_starts_with`. -/
def strStartsWith (str pre : Bytes) : Bool := pre.isPrefixOf str

/-- `str_ends_with`. -/
def strEndsWith (str suf : Bytes) : Bool := suf.isSuffixOf str

/-- `str_to_lower`. -/
def strToLower (str : Bytes) : Bytes := str.map tolower

/-- `str_to_upper`. -/
def strToUpper (str : Bytes) : Bytes := str.map toupper

/-! ## `str_trimmed` -/

/-- `str[i] >= 1 and str[i] <= 32`; the bytes from 128 on are negative there. -/
def isBlank (c : UInt8) : Bool := 1 ≤ c && c ≤ 32

/-- The second loop of `str_trimmed`: the last index up to `right` without a blank, `none` for a negative one. -/
def trimRight (str : Bytes) : ℕ → Option ℕ
  | 0 => if str[0]?.any isBlank then none else some 0
  | right + 1 => if str[right + 1]?.any isBlank then trimRight str right else some (right + 1)

/-- `str_trimmed`; the right end is computed in an `int`. -/
def strTrimmed (str : Bytes) : Run Bytes :=
  let left := (str.takeWhile isBlank).length
  if str.length ≤ left then .ok []
  else match (toInt32 (str.length - 1)).bind (trimRight str) with
    | none => .ok []
    | some right => substrFrom (str.take (right + 1)) left

/-- What `str_trimmed` returns. -/
def trimmed (str : Bytes) : Bytes :=
  match (toInt32 (str.length - 1)).bind (trimRight str) with
  | none => []
  | some right => (str.take (right + 1)).drop (str.takeWhile isBlank).length

theorem trimRight_spec {str : Bytes} {right k : ℕ} (h : trimRight str right = some k) :
    k ≤ right ∧ str[k]?.any isBlank = false := by
  induction right with
  | zero =>
    simp only [trimRight] at h
    split_ifs at h with hb
    obtain rfl : 0 = k := by simpa using h
    exact ⟨le_rfl, by simpa using hb⟩
  | succ right ih =>
    simp only [trimRight] at h
    split_ifs at h with hb
    · obtain ⟨h1, h2⟩ := ih h
      exact ⟨by omega, h2⟩
    · obtain rfl : right + 1 = k := by simpa using h
      exact ⟨le_rfl, by simpa using hb⟩

theorem any_isBlank_of_lt_takeWhile {str : Bytes} {k : ℕ} (h : k < (str.takeWhile isBlank).length) :
    str[k]?.any isBlank = true := by
  have hk : k < str.length := lt_of_lt_of_le h (List.takeWhile_prefix _).length_le
  have hmem := List.mem_takeWhile_imp (List.getElem_mem h)
  rw [(List.takeWhile_prefix _).getElem h] at hmem
  rw [List.getElem?_eq_getElem hk]
  exact hmem

/-- The blanks on the left end where the loop on the right stops, or before. -/
theorem takeWhile_le_trimRight {str : Bytes} {right k : ℕ} (h : trimRight str right = some k) :
    (str.takeWhile isBlank).length ≤ k := by
  by_contra hc
  have h1 := any_isBlank_of_lt_takeWhile (not_le.mp hc)
  rw [(trimRight_spec h).2] at h1
  exact absurd h1 (by simp)

/-- **`str_trimmed` never leaves the string**, whatever its length does to the `int`. -/
theorem strTrimmed_eq (str : Bytes) : strTrimmed str = .ok (trimmed str) := by
  simp only [strTrimmed, trimmed]
  cases ht : (toInt32 (str.length - 1)).bind (trimRight str) with
  | none => simp only [ite_self]
  | some k =>
    simp only
    split_ifs with hl
    · rw [List.drop_eq_nil_of_le (le_trans (List.length_take_le' _ _) hl)]
    · obtain ⟨right, -, hr⟩ := Option.bind_eq_some_iff.mp ht
      have := takeWhile_le_trimRight hr
      rw [substrFrom_of_le (by rw [List.length_take]; omega)]

theorem take_trimRight {str : Bytes} {right : ℕ} (h : right < str.length) :
    (str.take (right + 1)).rdropWhile isBlank =
      match trimRight str right with
      | none => []
      | some k => str.take (k + 1) := by
  induction right with
  | zero =>
    rw [List.take_add_one, List.take_zero, List.nil_append, List.getElem?_eq_getElem h, Option.toList_some,
      List.rdropWhile_singleton, trimRight, List.getElem?_eq_getElem h, Option.any_some]
    split_ifs <;> simp [List.take_add_one, List.getElem?_eq_getElem h]
  | succ right ih =>
    rw [List.take_add_one, List.getElem?_eq_getElem h, Option.toList_some, List.rdropWhile_concat, trimRight,
      List.getElem?_eq_getElem h, Option.any_some]
    split_ifs
    · exact ih (by omega)
    · simp [List.take_add_one, List.getElem?_eq_getElem h]

/-- **`str_trimmed` drops the blanks on both sides** of a string that an `int` can index. -/
theorem trimmed_eq {str : Bytes} (h : str.length < 2147483648) :
    trimmed str = (str.rdropWhile isBlank).drop (str.takeWhile isBlank).length := by
  rw [trimmed, toInt32_of_lt (by omega), Option.bind_some]
  rcases Nat.eq_zero_or_pos str.length with h0 | hpos
  · obtain rfl := List.length_eq_zero_iff.mp h0
    rfl
  · have hr := take_trimRight (show str.length - 1 < str.length by omega)
    rw [show str.length - 1 + 1 = str.length by omega, List.take_length] at hr
    rw [hr]
    cases trimRight str (str.length - 1) <;> simp

/-! ## `from_percent_encoding` -/

/-- The value of a hexadecimal digit; any other byte is left as it is. -/
def hexNibble (c : UInt8) : UInt8 :=
  if 48 ≤ c ∧ c ≤ 57 then c - 48
  else if 97 ≤ c ∧ c ≤ 102 then c - 97 + 10
  else if 65 ≤ c ∧ c ≤ 70 then c - 65 + 10
  else c

/-- `static_cast<char>((a << 4) | b)`. -/
def hexPair (a b : UInt8) : UInt8 := (hexNibble a <<< 4) ||| hexNibble b

theorem hexNibble_eq : ∀ a : UInt8, digitVal a < 16 → hexNibble a = UInt8.ofNat (digitVal a) :=
  forall_byte (by decide +kernel)

theorem hexPair_eq {a b : UInt8} (ha : digitVal a < 16) (hb : digitVal b < 16) :
    hexPair a b = UInt8.ofNat (digitVal a * 16 + digitVal b) := by
  have key : ∀ x < 16, ∀ y < 16, (UInt8.ofNat x <<< 4) ||| UInt8.ofNat y = UInt8.ofNat (x * 16 + y) := by
    decide
  rw [hexPair, hexNibble_eq a ha, hexNibble_eq b hb]
  exact key _ ha _ hb

/-- `from_percent_encoding`.  The source decodes in place: it writes at or before where it reads. -/
def fromPercentEncoding : Bytes → Bytes
  | [] => []
  | [c] => [c]
  | [c, a] => [c, a]
  | c :: a :: b :: s =>
    if c = 37 then hexPair a b :: fromPercentEncoding s else c :: fromPercentEncoding (a :: b :: s)

@[simp] theorem fromPercentEncoding_nil : fromPercentEncoding [] = [] := rfl

theorem fromPercentEncoding_cons {c : UInt8} (h : c ≠ 37) (s : Bytes) :
    fromPercentEncoding (c :: s) = c :: fromPercentEncoding s := by
  match s with
  | [] => rfl
  | [_] => rfl
  | _ :: _ :: _ => rw [fromPercentEncoding, if_neg h]

theorem fromPercentEncoding_pair (a b : UInt8) (s : Bytes) :
    fromPercentEncoding (37 :: a :: b :: s) = hexPair a b :: fromPercentEncoding s := rfl

theorem length_fromPercentEncoding_le : ∀ s : Bytes, (fromPercentEncoding s).length ≤ s.length
  | [] => le_rfl
  | [_] => le_rfl
  | [_, _] => le_rfl
  | c :: a :: b :: s => by
    by_cases h : c = 37
    · subst h
      have := length_fromPercentEncoding_le s
      simp only [fromPercentEncoding_pair, List.length_cons]
      omega
    · have := length_fromPercentEncoding_le (a :: b :: s)
      simp only [fromPercentEncoding_cons h, List.length_cons] at this ⊢
      omega

end Gts3
