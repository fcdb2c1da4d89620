import Gts3.Lib.HttpMessage
import Gts3.Lib.Maps
import Mathlib.Data.List.Lex

/-!
# `gts/http/types.h`, `gts/http/container.h`: methods, status codes and header maps

A header map is ordered by `lessCaseInsensitive`; two spellings of a name are one key exactly when they agree in
lower case (`same_lessCaseInsensitive`).  The other maps of a request are unordered.
-/

namespace Gts3.Http

open Lib Lib.Cxx Lib.HttpMessage

/-! ## Methods -/

/-- `enum method`. -/
inductive Method
  | unknown
  | get
  | put
  | post
  | head
  | delete
  | options
  | connect
  | trach
  deriving DecidableEq, Repr

/-- `from_method_string`. -/
def fromMethodString (m : Bytes) : Method :=
  if m = lit "GET" then .get
  else if m = lit "PUT" then .put
  else if m = lit "POST" then .post
  else if m = lit "HEAD" then .head
  else if m = lit "DELETE" then .delete
  else if m = lit "OPTIONS" then .options
  else if m = lit "CONNECT" then .connect
  else if m = lit "TRACH" then .trach
  else .unknown

/-! ## Status codes -/

/-- The table of `status_description`. -/
def statusDescriptions : List (ℕ × Bytes) := [
  (100, lit "Continue"), (101, lit "Switching Protocols"), (102, lit "Processing"),
  (200, lit "OK"), (201, lit "Created"), (202, lit "Accepted"), (203, lit "Non-Authoritative Information"),
  (204, lit "No Content"), (205, lit "Reset Content"), (206, lit "Partial Content"), (207, lit "Multi-Status"),
  (208, lit "Already Reported"), (226, lit "IM Used"),
  (300, lit "Multiple Choices"), (301, lit "Moved Permanently"), (302, lit "Found"), (303, lit "See Other"),
  (304, lit "Not Modified"), (305, lit "Use Proxy"), (307, lit "Temporary Redirect"),
  (308, lit "Permanent Redirect"),
  (400, lit "Bad Request"), (401, lit "Unauthorized"), (402, lit "Payment Required"), (403, lit "Forbidden"),
  (404, lit "Not Found"), (405, lit "Method Not Allowed"), (406, lit "Not Acceptable"),
  (407, lit "Proxy Authentication Required"), (408, lit "Request Timeout"), (409, lit "Conflict"),
  (410, lit "Gone"), (411, lit "Length Required"), (412, lit "Precondition Failed"),
  (413, lit "Payload Too Large"), (414, lit "URI Too Long"), (415, lit "Unsupported Media Type"),
  (416, lit "Range Not Satisfiable"), (417, lit "Expectation Failed"), (421, lit "Misdirected Request"),
  (422, lit "Unprocessable Entity"), (423, lit "Locked"), (424, lit "Failed Dependency"),
  (426, lit "Upgrade Required"), (428, lit "Precondition Required"), (429, lit "Too Many Requests"),
  (431, lit "Request Header Fields Too Large"), (451, lit "Unavailable For Legal Reasons"),
  (500, lit "Internal Server Error"), (501, lit "Not Implemented"), (502, lit "Bad Gateway"),
  (503, lit "Service Unavailable"), (504, lit "Gateway Timeout"), (505, lit "HTTP Version Not Supported"),
  (506, lit "Variant Also Negotiates"), (507, lit "Insufficient Storage"), (508, lit "Loop Detected"),
  (510, lit "Not Extended"), (511, lit "Network Authentication Required")]

/-- `enum status`: a code of the table. -/
structure Status where
  code : ℕ
  known : (statusDescriptions.lookup code).isSome = true
  deriving DecidableEq

namespace Status

/-- `hs_ok`. -/
def ok : Status := ⟨200, by decide⟩

/-- `hs_partial_content`. -/
def partialContent : Status := ⟨206, by decide⟩

/-- `hs_bad_request`. -/
def badRequest : Status := ⟨400, by decide⟩

/-- `hs_forbidden`. -/
def forbidden : Status := ⟨403, by decide⟩

/-- `hs_not_found`. -/
def notFound : Status := ⟨404, by decide⟩

/-- `hs_method_not_allowed`. -/
def methodNotAllowed : Status := ⟨405, by decide⟩

/-- `hs_not_acceptable`. -/
def notAcceptable : Status := ⟨406, by decide⟩

/-- `hs_range_not_satisfiable`. -/
def rangeNotSatisfiable : Status := ⟨416, by decide⟩

/-- `hs_not_implemented`. -/
def notImplemented : Status := ⟨501, by decide⟩

/-- `hs_service_unavailable`. -/
def serviceUnavailable : Status := ⟨503, by decide⟩

end Status

/-- `status_description`. -/
def statusDescription (s : Status) : Bytes := (statusDescriptions.lookup s.code).get s.known

theorem statusDescription_mem (s : Status) : (s.code, statusDescription s) ∈ statusDescriptions := by
  have h := Option.some_get s.known
  obtain ⟨p, l, hl, hs⟩ := List.lookup_eq_some_iff.mp h.symm
  rw [hl]
  simp [statusDescription]

/-- No description holds a line end. -/
theorem statusDescription_noLineEnd (s : Status) : NoLineEnd (statusDescription s) := by
  have hall : ∀ e ∈ statusDescriptions, NoLineEnd e.2 := by decide +kernel
  exact hall _ (statusDescription_mem s)

/-! ## Header names -/

namespace Header

/-- `header::accept_encoding`. -/
def acceptEncoding : Bytes := lit "Accept-Encoding"

/-- `header::accept_ranges`. -/
def acceptRanges : Bytes := lit "Accept-Ranges"

/-- `header::content_length`. -/
def contentLength : Bytes := lit "Content-Length"

/-- `header::content_range`. -/
def contentRange : Bytes := lit "Content-Range"

/-- `header::content_type`. -/
def contentType : Bytes := lit "Content-Type"

/-- `header::connection`. -/
def connection : Bytes := lit "Connection"

/-- `header::transfer_encoding`. -/
def transferEncoding : Bytes := lit "Transfer-Encoding"

end Header

/-! ## Maps -/

/-- `nocase_compare`. -/
def nocaseCompare (c1 c2 : UInt8) : Bool := tolower c1 < tolower c2

/-- `less_case_insensitive`. -/
def lessCaseInsensitive (v1 v2 : Bytes) : Bool := lexicographicalCompare nocaseCompare v1 v2

/-- The numbers that are compared. -/
def lowerNats (v : Bytes) : List ℕ := v.map (fun c => (tolower c).toNat)

theorem nocaseCompare_iff (c1 c2 : UInt8) : nocaseCompare c1 c2 = true ↔ (tolower c1).toNat < (tolower c2).toNat := by
  simp [nocaseCompare, UInt8.lt_iff_toNat_lt]

theorem lessCaseInsensitive_iff (v1 v2 : Bytes) :
    lessCaseInsensitive v1 v2 = true ↔ lowerNats v1 < lowerNats v2 := by
  unfold lessCaseInsensitive
  induction v1 generalizing v2 with
  | nil => cases v2 <;> simp [lexicographicalCompare, lowerNats]
  | cons a s ih =>
    cases v2 with
    | nil => simp [lexicographicalCompare, lowerNats]
    | cons b t =>
      simp only [lowerNats] at ih
      simp only [lexicographicalCompare, lowerNats, List.map_cons, List.cons_lt_cons_iff, Bool.or_eq_true,
        Bool.and_eq_true, Bool.not_eq_true', ← Bool.not_eq_true, nocaseCompare_iff, ih]
      constructor
      · rintro (h | ⟨h1, h2⟩)
        · exact Or.inl h
        · rcases Nat.lt_or_ge (tolower a).toNat (tolower b).toNat with h | h
          · exact Or.inl h
          · exact Or.inr ⟨by omega, h2⟩
      · rintro (h | ⟨h1, h2⟩)
        · exact Or.inl h
        · exact Or.inr ⟨by omega, h2⟩

theorem lowerNats_eq_iff (v1 v2 : Bytes) : lowerNats v1 = lowerNats v2 ↔ SameName v1 v2 := by
  have h : ∀ v : Bytes, lowerNats v = (v.map tolower).map UInt8.toNat := by
    intro v
    rw [lowerNats, List.map_map]
    rfl
  have hinj : Function.Injective UInt8.toNat := fun a b hab => UInt8.toNat_inj.mp hab
  rw [h, h, SameName, (List.map_injective_iff.mpr hinj).eq_iff]

/-- Two spellings are one key when they agree in lower case. -/
theorem same_lessCaseInsensitive (v1 v2 : Bytes) : Same lessCaseInsensitive v1 v2 ↔ SameName v1 v2 := by
  rw [← lowerNats_eq_iff]
  simp only [Same, ← Bool.not_eq_true, lessCaseInsensitive_iff, not_lt]
  exact ⟨fun h => le_antisymm h.2 h.1, fun h => ⟨h.ge, h.le⟩⟩

instance : StrictWeak lessCaseInsensitive where
  irrefl a := by simp [← Bool.not_eq_true, lessCaseInsensitive_iff]
  trans h h' := by
    rw [lessCaseInsensitive_iff] at h h' ⊢
    exact h.trans h'
  incomp_trans {a b c} h1 h2 h3 h4 := by
    have h := (same_lessCaseInsensitive a b).mp ⟨h1, h2⟩
    have h' := (same_lessCaseInsensitive b c).mp ⟨h3, h4⟩
    exact (same_lessCaseInsensitive a c).mpr (h.trans h')

/-- `http::headers`. -/
abbrev Headers := OrdMap Bytes Bytes lessCaseInsensitive

/-- `http::parameters`. -/
abbrev Parameters := UMap Bytes Bytes

/-- `http::basic_cookies`. -/
abbrev BasicCookies := UMap Bytes Bytes

end Gts3.Http
