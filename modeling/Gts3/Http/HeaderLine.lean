import Gts3.Algorithm
import Gts3.Http.Types

/-!
# The line of a header

`state_handler_reading_headers` (`gts/http/parser.cpp`) and the trailer of `read_body_chunked_mode`
(`gts/http/detail/request_impl.cpp`) read a header line with the same steps; a line that does not fit makes each of
them reset in its own way.  `loadHeaderLine` is these steps, `headerLine` what they compute (`loadHeaderLine_eq`).
-/

namespace Gts3.Http

open Lib Lib.Search Lib.Cxx

/-- The loop over the statements of a cookie header.  The flag is lost at a statement without `=`. -/
def loadCookies : BasicCookies → List Bytes → Run (BasicCookies × Bool)
  | cookies, [] => .ok (cookies, true)
  | cookies, statement :: list => do
    let statement ← strTrimmed statement
    match find [61] statement with
    | none => .ok (cookies, false)
    | some pos => do
      let key ← strTrimmed (← substr statement 0 pos)
      let value ← strTrimmed (← substrFrom statement (pos + 1))
      loadCookies (cookies.assign key value) list

/-- A header line, up to the reset after an error: the flag is lost when the line does not fit. -/
def loadHeaderLine (headers : Headers) (cookies : BasicCookies) (lineBuf : Bytes) :
    Run (Headers × BasicCookies × Bool) :=
  match find [58] lineBuf with
  | none => .ok (headers, cookies, false)
  | some colonIndex => do
    let key := strToLower (← strTrimmed (← substr lineBuf 0 colonIndex))
    let value := fromPercentEncoding (← strTrimmed (← substrFrom lineBuf (colonIndex + 1)))
    if key ≠ lit "cookie" then .ok (headers.assign key value, cookies, true)
    else do
      let list ← strSplit value [59] true
      let (cookies, good) ← loadCookies cookies list
      .ok (headers, cookies, good)

/-! ## What the line means -/

/-- The name and the value of a cookie statement. -/
def cookieItem (statement : Bytes) : Option (Bytes × Bytes) :=
  (find [61] (trimmed statement)).map fun pos =>
    (trimmed ((trimmed statement).take pos), trimmed ((trimmed statement).drop (pos + 1)))

/-- The cookies of the statements up to the first one that does not fit. -/
def cookieItems : BasicCookies → List Bytes → BasicCookies × Bool
  | cookies, [] => (cookies, true)
  | cookies, statement :: list =>
    match cookieItem statement with
    | none => (cookies, false)
    | some (key, value) => cookieItems (cookies.assign key value) list

/-- The name of a header line with its colon at `colonIndex`. -/
def headerKey (line : Bytes) (colonIndex : ℕ) : Bytes := strToLower (trimmed (line.take colonIndex))

/-- The value of a header line with its colon at `colonIndex`. -/
def headerValue (line : Bytes) (colonIndex : ℕ) : Bytes :=
  fromPercentEncoding (trimmed (line.drop (colonIndex + 1)))

/-- What a header line does to the headers and the cookies. -/
def headerLine (headers : Headers) (cookies : BasicCookies) (line : Bytes) : Headers × BasicCookies × Bool :=
  match find [58] line with
  | none => (headers, cookies, false)
  | some colonIndex =>
    if headerKey line colonIndex ≠ lit "cookie" then
      (headers.assign (headerKey line colonIndex) (headerValue line colonIndex), cookies, true)
    else (headers, cookieItems cookies (tokens 59 (headerValue line colonIndex)))

theorem loadCookies_eq (cookies : BasicCookies) (list : List Bytes) :
    loadCookies cookies list = .ok (cookieItems cookies list) := by
  induction list generalizing cookies with
  | nil => rfl
  | cons statement list ih =>
    rw [loadCookies, strTrimmed_eq, ok_bind, cookieItems, cookieItem]
    cases hf : find [61] (trimmed statement) with
    | none => rfl
    | some pos =>
      have hpos := find_le hf
      simp only [substr_zero, ok_bind, strTrimmed_eq, Option.map_some,
        substrFrom_of_le (show pos + 1 ≤ (trimmed statement).length from hpos), ih]

/-- **A header line is read without a fault.** -/
theorem loadHeaderLine_eq (headers : Headers) (cookies : BasicCookies) (line : Bytes) :
    loadHeaderLine headers cookies line = .ok (headerLine headers cookies line) := by
  rw [loadHeaderLine, headerLine]
  cases hf : find [58] line with
  | none => rfl
  | some colonIndex =>
    have hpos := find_le hf
    simp only [substr_zero, ok_bind, strTrimmed_eq,
      substrFrom_of_le (show colonIndex + 1 ≤ line.length from hpos), strSplit_tokens, loadCookies_eq]
    rw [← headerKey, ← headerValue]
    split_ifs <;> rfl

/-! ## Statements that fit -/

/-- All statements are name and value. -/
def CookieItemsFit (list : List Bytes) : Prop := ∀ s ∈ list, 61 ∈ trimmed s

instance (list : List Bytes) : Decidable (CookieItemsFit list) :=
  inferInstanceAs (Decidable (∀ s ∈ list, _))

theorem cookieItem_isSome {s : Bytes} : (cookieItem s).isSome = true ↔ 61 ∈ trimmed s := by
  rw [cookieItem, Option.isSome_map, ← not_iff_not, Bool.not_eq_true, Option.isSome_eq_false_iff,
    Option.isNone_iff_eq_none, find_singleton_eq_none]

theorem cookieItems_snd (cookies : BasicCookies) (list : List Bytes) :
    (cookieItems cookies list).2 = true ↔ CookieItemsFit list := by
  induction list generalizing cookies with
  | nil => simp [cookieItems, CookieItemsFit]
  | cons s list ih =>
    rw [cookieItems]
    cases hi : cookieItem s with
    | none =>
      have hn : ¬ (61 ∈ trimmed s) := by simp [← cookieItem_isSome, hi]
      simp [CookieItemsFit, hn]
    | some item =>
      have hs : 61 ∈ trimmed s := cookieItem_isSome.mp (by simp [hi])
      simp only [ih, CookieItemsFit, List.forall_mem_cons, hs, true_and]

/-! ## The spelling of a name -/

/-- The entries of a header map differ in more than letter case. -/
theorem headers_pairwise_lower (m : Headers) : m.entries.Pairwise (fun e e' => e.1.map tolower ≠ e'.1.map tolower) := by
  refine m.sorted.imp fun {e e'} hlt hsame => ?_
  exact not_same_of_lt hlt ((same_lessCaseInsensitive e.1 e'.1).mpr hsame)

theorem map_tolower_strToLower (s : Bytes) : (strToLower s).map tolower = s.map tolower := by
  have hidem : ∀ c, tolower (tolower c) = tolower c := forall_byte (by decide +kernel)
  rw [strToLower, List.map_map]
  exact List.map_congr_left fun c _ => hidem c

/-- **`less_case_insensitive` is a strict weak order**, and strings are incomparable exactly when they agree in lower
case.  So an entry is found under every spelling of its name, also the one a header line has just stored, and no two
entries differ by letter case only. -/
theorem lessCaseInsensitive_strictWeak (a b c : Bytes) (headers : Headers) :
    (lessCaseInsensitive a a = false ∧
      (lessCaseInsensitive a b = true → lessCaseInsensitive b c = true → lessCaseInsensitive a c = true) ∧
      (Same lessCaseInsensitive a b → Same lessCaseInsensitive b c → Same lessCaseInsensitive a c) ∧
      (Same lessCaseInsensitive a b ↔ a.map tolower = b.map tolower)) ∧
    (∀ e ∈ headers.entries, ∀ name, name.map tolower = e.1.map tolower → headers.find? name = some e.2) ∧
    (∀ value name, name.map tolower = a.map tolower → (headers.assign a value).find? name = some value) ∧
    (∀ line cookies colon name, find [58] line = some colon → headerKey line colon ≠ lit "cookie" →
      name.map tolower = (trimmed (line.take colon)).map tolower →
      ∃ headers', loadHeaderLine headers cookies line = .ok (headers', cookies, true) ∧
        headers'.find? name = some (headerValue line colon)) ∧
    headers.entries.Pairwise (fun e e' => e.1.map tolower ≠ e'.1.map tolower) := by
  have hassign : ∀ (key value name : Bytes), name.map tolower = key.map tolower →
      (headers.assign key value).find? name = some value := by
    intro key value name hname
    rw [OrdMap.find?_assign, if_pos ((same_lessCaseInsensitive key name).mpr hname.symm)]
  refine ⟨⟨StrictWeak.irrefl a, StrictWeak.trans, Same.trans, same_lessCaseInsensitive a b⟩, ?_, hassign a, ?_,
    headers_pairwise_lower headers⟩
  · intro e he name hname
    exact OrdMap.find?_of_mem he ((same_lessCaseInsensitive e.1 name).mpr hname.symm)
  · intro line cookies colon name hcolon hkey hname
    refine ⟨headers.assign (headerKey line colon) (headerValue line colon), ?_, ?_⟩
    · rw [loadHeaderLine_eq, headerLine, hcolon]
      simp only
      rw [if_pos hkey]
    · refine hassign _ _ _ ?_
      rw [hname, headerKey, map_tolower_strToLower]

end Gts3.Http
