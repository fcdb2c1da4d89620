import Gts3.Http.Multipart
import Gts3.Lib.CookieJar
import Gts3.Web.HeaderBlock

/-!
# Cookies of a client over many answers

`Response.cookieText` is what a response says of a cookie, and the parser reads the cookies of a request.  Between them
is a client, which keeps the cookies of all answers and sends those that belong to a request.  The cookie that the
server reads under a name is the last one that was set for the shortest path (`cookies_iff`). -/

namespace Gts3.Web

open Lib Lib.Search Lib.Cxx Lib.HttpMessage Lib.WebSocketHandshake Lib.CookieJar Lib.Overlay Gts3.Http

/-! ## What the server writes -/

/-- The value of the field of a cookie. -/
def cookieField (e : Bytes × Cookie) : Bytes :=
  [59].intercalate ((e.1 ++ 61 :: e.2.value) :: e.2.attributes.entries.map fun a => a.1 ++ 61 :: a.2)

/-- The fields that a response writes. -/
def writtenFields (headers : Headers) (cookies : Cookies) : List (Bytes × Bytes) :=
  (headers.erase (lit "set-cookie")).entries ++ cookies.entries.map fun e => (lit "set-cookie", cookieField e)

/-- Texts with a semicolon behind each, but the last. -/
theorem dropLast_flatMap_concat (c : UInt8) (t : Bytes) (ts : List Bytes) :
    ((t :: ts).flatMap (· ++ [c])).dropLast = [c].intercalate (t :: ts) := by
  induction ts generalizing t with
  | nil => simp [List.intercalate_singleton]
  | cons t' ts ih =>
    rw [List.flatMap_cons, List.dropLast_append_of_ne_nil (by simp), ih, List.intercalate_cons_cons]

theorem cookieText_eq (e : Bytes × Cookie) : Response.cookieText e = lit "set-cookie: " ++ cookieField e := by
  have htexts : lit "set-cookie: " ++ e.1 ++ lit "=" ++ e.2.value ++ lit ";" ++
      e.2.attributes.entries.flatMap (fun a => a.1 ++ lit "=" ++ a.2 ++ lit ";") =
      lit "set-cookie: " ++ ((e.1 ++ 61 :: e.2.value) :: e.2.attributes.entries.map fun a => a.1 ++ 61 :: a.2).flatMap
        (· ++ [59]) := by
    simp [lit, List.flatMap_map]
  rw [Response.cookieText, htexts, List.dropLast_append_of_ne_nil (by simp), dropLast_flatMap_concat, cookieField]

theorem serialize_eq (headers : Headers) (cookies : Cookies) :
    Response.serialize (headers.erase (lit "set-cookie")) cookies =
      (writtenFields headers cookies).flatMap fieldLine := by
  have hname : lit "set-cookie: " = lit "set-cookie" ++ lit ": " := rfl
  rw [Response.serialize, writtenFields, List.flatMap_append, List.flatMap_map]
  congr 1
  refine List.flatMap_congr fun e _ => ?_
  rw [cookieText_eq, hname, fieldLine]

/-- **Sending the headers**: one block with the cookies behind the headers. -/
theorem sendHeaders_block {resp : Response} (h : resp.Connected) :
    ∃ sent : Response, resp.sendHeaders = .ok sent ∧ sent.Connected ∧ sent.isChunked = resp.isChunked ∧
      sent.out = resp.out ++ block (statusLine resp.request.version resp.status.code (statusDescription resp.status))
        (writtenFields resp.headers resp.cookies) := by
  have h' : ({ resp with headers := resp.headers.erase (lit "set-cookie") } : Response).Connected := h
  set text := block (statusLine resp.request.version resp.status.code (statusDescription resp.status))
    (writtenFields resp.headers resp.cookies)
  refine ⟨({ resp with headers := resp.headers.erase (lit "set-cookie") } : Response).put text, ?_, h'.put _, ?_,
    h'.out_put _⟩
  · simp only [Response.sendHeaders, Response.serializeHeadersAndCookies, h'.send_eq, serialize_eq]
    congr 2
  · rw [Response.put_isChunked, Response.isChunked, Response.isChunked, Response.transferEncodingChunked,
      Response.transferEncodingChunked, Response.find?_erase_setCookie _ (by decide)]

/-- An answer to a request for the path: its response, and the body of the first write. -/
structure Answer where
  path : Bytes
  response : Response
  body : Bytes

/-- The fields that the answer begins with. -/
def Answer.fields (a : Answer) : List (Bytes × Bytes) :=
  writtenFields (preparedHeaders a.response a.body.length) a.response.cookies

/-! ## Cookies that can be read back -/

/-- A name or an attribute. -/
def Plain (low : UInt8) (bad : List UInt8) (s : Bytes) : Prop := ∀ c ∈ s, low ≤ c ∧ c ∉ bad

instance (low : UInt8) (bad : List UInt8) (s : Bytes) : Decidable (Plain low bad s) := decidableForallMem s

/-- Name and value of a cookie, without `;` and `%`. -/
structure PlainItem (item : Bytes × Bytes) : Prop where
  name_ne : item.1 ≠ []
  name : Plain 33 [37, 59, 61] item.1
  value : Plain 32 [37, 59] item.2
  value_trimmed : Trim.Trimmed isBlank item.2

/-- Name and value of an attribute.  The cookie is for the host alone, and lasts as long as the client. -/
structure PlainAttribute (a : Bytes × Bytes) : Prop where
  name : Plain 33 [59, 61] a.1
  value : Plain 32 [59] a.2
  value_trimmed : Trim.Trimmed isBlank a.2
  known : ¬ SameName a.1 (lit "Domain") ∧ ¬ SameName a.1 (lit "Expires") ∧ ¬ SameName a.1 (lit "Max-Age")

/-- Nothing has been written, headers can stand on lines of their own, and cookies can be read back. -/
structure Answer.Good (a : Answer) : Prop where
  connected : a.response.Connected
  headersWrited : a.response.headersWrited = false
  out : a.response.out = []
  version : a.response.request.version = lit "1.1"
  fields : ∀ e ∈ a.response.headers.entries, FieldOk e ∧ 58 ∉ e.1
  items : ∀ e ∈ a.response.cookies.entries, PlainItem (e.1, e.2.value)
  attributes : ∀ e ∈ a.response.cookies.entries, ∀ p ∈ e.2.attributes.entries, PlainAttribute p

/-- The path that a cookie is for. -/
def pathOf (default : Bytes) (cookie : Cookie) : Bytes :=
  match cookie.attributes.find? (lit "Path") with
  | none => default
  | some path => if path.head? = some 47 then path else default

/-- What a client keeps of the cookies of an answer. -/
def Answer.kept (a : Answer) : List ((Bytes × Bytes) × Stored) :=
  a.response.cookies.entries.map fun e =>
    ((e.1, pathOf (defaultPath a.path) e.2), ⟨e.2.value, (e.2.attributes.find? (lit "Secure")).isSome⟩)

theorem Answer.mem_kept {a : Answer} {key : Bytes × Bytes} {stored : Stored} :
    (key, stored) ∈ a.kept ↔ ∃ cookie, a.response.cookies.find? key.1 = some cookie ∧
      pathOf (defaultPath a.path) cookie = key.2 ∧
      stored = ⟨cookie.value, (cookie.attributes.find? (lit "Secure")).isSome⟩ := by
  constructor
  · intro h
    obtain ⟨e, he, heq⟩ := List.mem_map.mp h
    obtain ⟨rfl, rfl⟩ := Prod.mk.inj heq
    exact ⟨e.2, UMap.find?_eq_some_iff.mpr he, rfl, rfl⟩
  · rintro ⟨cookie, hfind, hpath, rfl⟩
    exact List.mem_map.mpr ⟨(key.1, cookie), UMap.find?_eq_some_iff.mp hfind, by rw [hpath]⟩

/-! ## The field of a cookie -/

section Field

variable {low : UInt8} {bad : List UInt8} {s : Bytes}

theorem Plain.not_mem {c : UInt8} (h : Plain low bad s) (hc : c < low ∨ c ∈ bad) : c ∉ s := by
  intro hmem
  obtain ⟨hle, hnot⟩ := h c hmem
  rcases hc with hc | hc
  · exact absurd hle (UInt8.not_le.mpr hc)
  · exact hnot hc

theorem Plain.noLineEnd (h : Plain low bad s) (hlow : 13 < low) : NoLineEnd s := by
  have hten : (10 : UInt8) < low := by
    rw [UInt8.lt_iff_toNat_lt] at hlow ⊢
    exact lt_trans (by decide) hlow
  intro c hc
  exact ⟨fun heq => h.not_mem (Or.inl hlow) (heq ▸ hc), fun heq => h.not_mem (Or.inl hten) (heq ▸ hc)⟩

theorem isBlank_of_le {c : UInt8} (h : 33 ≤ c) : isBlank c = false := by
  rw [isBlank, Bool.and_eq_false_iff, decide_eq_false_iff_not, decide_eq_false_iff_not]
  right
  rw [UInt8.le_iff_toNat_le] at h ⊢
  have h33 : (33 : UInt8).toNat = 33 := rfl
  have h32 : (32 : UInt8).toNat = 32 := rfl
  omega

theorem Plain.trimmed (h : Plain 33 bad s) : Trim.Trimmed isBlank s :=
  Trim.trimmed_of_forall fun c hc => isBlank_of_le (h c hc).1

/-- The blanks of a client are blanks of the server. -/
theorem trimmed_blanks (h : Trim.Trimmed isBlank s) : Trim.Trimmed Trim.isBlank s := by
  have hblank : ∀ c, isBlank c = false → Trim.isBlank c = false := forall_byte (by decide +kernel)
  exact ⟨fun c hc => hblank c (h.1 c hc), fun c hc => hblank c (h.2 c hc)⟩

end Field

/-- The attributes that a client finds are those of the server. -/
theorem attributeValue_entries {attributes : Headers} (h : ∀ a ∈ attributes.entries, PlainAttribute a) (name : Bytes) :
    attributeValue name (attributes.entries.map fun a => a.1 ++ 61 :: a.2) = attributes.find? name := by
  have hname : ∀ a ∈ attributes.entries, nameOf (a.1 ++ 61 :: a.2) = a.1 := fun a ha =>
    nameOf_pair ((h a ha).name.not_mem (Or.inr (by decide))) (trimmed_blanks (h a ha).name.trimmed) a.2
  have hvalue : ∀ a ∈ attributes.entries, valueOf (a.1 ++ 61 :: a.2) = a.2 := fun a ha =>
    valueOf_pair ((h a ha).name.not_mem (Or.inr (by decide))) (trimmed_blanks (h a ha).value_trimmed)
  have hmem : ∀ text, text ∈ (attributes.entries.map fun a => a.1 ++ 61 :: a.2).reverse →
      ∃ a ∈ attributes.entries, text = a.1 ++ 61 :: a.2 := by
    intro text htext
    obtain ⟨a, ha, rfl⟩ := List.mem_map.mp (List.mem_reverse.mp htext)
    exact ⟨a, ha, rfl⟩
  rw [attributeValue]
  cases hfind : attributes.find? name with
  | none =>
    rw [Option.map_eq_none_iff, List.find?_eq_none]
    intro text htext
    obtain ⟨a, ha, rfl⟩ := hmem text htext
    rw [hname a ha, decide_eq_true_iff]
    exact fun hsame => OrdMap.find?_eq_none.mp hfind a ha ((same_lessCaseInsensitive _ _).mpr hsame)
  | some value =>
    obtain ⟨e, he, hsame, -⟩ := OrdMap.find?_eq_some_mem hfind
    cases hlast : (attributes.entries.map fun a => a.1 ++ 61 :: a.2).reverse.find?
        fun av => SameName (nameOf av) name with
    | none =>
      have hnot := List.find?_eq_none.mp hlast (e.1 ++ 61 :: e.2)
        (List.mem_reverse.mpr (List.mem_map_of_mem he))
      rw [hname e he, decide_eq_true_iff] at hnot
      exact absurd ((same_lessCaseInsensitive _ _).mp hsame) hnot
    | some text =>
      have hsame' := List.find?_some hlast
      obtain ⟨a, ha, rfl⟩ := hmem text (List.mem_of_find?_eq_some hlast)
      rw [decide_eq_true_iff, hname a ha] at hsame'
      have hown := OrdMap.find?_of_mem ha ((same_lessCaseInsensitive _ _).mpr hsame')
      rw [Option.map_some, hvalue a ha, ← hown, hfind]

/-- **A client reads** what a response says of a cookie. -/
theorem parse_cookieField {e : Bytes × Cookie} (hitem : PlainItem (e.1, e.2.value))
    (hattributes : ∀ p ∈ e.2.attributes.entries, PlainAttribute p) (default : Bytes) :
    parse default (cookieField e) =
      some ((e.1, pathOf default e.2), ⟨e.2.value, (e.2.attributes.find? (lit "Secure")).isSome⟩) := by
  have hnot : ∀ text ∈ (e.1 ++ 61 :: e.2.value) :: e.2.attributes.entries.map fun a => a.1 ++ 61 :: a.2, 59 ∉ text := by
    intro text htext
    rcases List.mem_cons.mp htext with rfl | htext
    · have hname : 59 ∉ e.1 := hitem.name.not_mem (Or.inr (by decide))
      have hvalue : 59 ∉ e.2.value := hitem.value.not_mem (Or.inr (by decide))
      simp [hname, hvalue]
    · obtain ⟨a, ha, rfl⟩ := List.mem_map.mp htext
      have hname : 59 ∉ a.1 := (hattributes a ha).name.not_mem (Or.inr (by decide))
      have hvalue : 59 ∉ a.2 := (hattributes a ha).value.not_mem (Or.inr (by decide))
      simp [hname, hvalue]
  have hequals : 61 ∉ e.1 := hitem.name.not_mem (Or.inr (by decide))
  have hname : nameOf (e.1 ++ 61 :: e.2.value) = e.1 :=
    nameOf_pair hequals (trimmed_blanks hitem.name.trimmed) e.2.value
  have hvalue : valueOf (e.1 ++ 61 :: e.2.value) = e.2.value :=
    valueOf_pair hequals (trimmed_blanks hitem.value_trimmed)
  have hpair : ¬ (61 ∉ e.1 ++ 61 :: e.2.value ∨ e.1 = []) := by
    rw [not_or, not_not]
    exact ⟨by simp, hitem.name_ne⟩
  rw [parse, cookieField, List.splitOn_intercalate 59 hnot (by simp)]
  simp only [cookiePath, attributeValue_entries hattributes, hname, hvalue, pathOf]
  exact if_neg hpair

/-! ## Answers -/

/-- **The first write** of an answer is a head with a field for each cookie. -/
theorem Answer.Good.isHead {a : Answer} (h : a.Good) {resp : Response} (hwrite : a.response.write a.body = .ok resp) :
    IsHead resp.out a.response.status.code a.fields := by
  have hprepared : ({ a.response with headersWrited := true, headers := preparedHeaders a.response a.body.length } :
      Response).Connected := h.connected
  obtain ⟨sent, hsend, -, -, hsent⟩ := sendHeaders_block hprepared
  have hout : sent.out = block (statusLine a.response.request.version a.response.status.code
      (statusDescription a.response.status)) a.fields := by
    rw [hsent]
    exact (congrArg (· ++ _) h.out).trans (List.nil_append _)
  have hok : ∀ f ∈ a.fields, FieldOk f ∧ 58 ∉ f.1 := by
    intro f hf
    rcases List.mem_append.mp hf with hf | hf
    · exact preparedHeaders_fields h.fields a.body.length f (OrdMap.mem_erase hf)
    · obtain ⟨e, he, rfl⟩ := List.mem_map.mp hf
      have htext : NoLineEnd (Response.cookieText e) :=
        noLineEnd_cookieText ((h.items e he).name.noLineEnd (by decide)) ((h.items e he).value.noLineEnd (by decide))
          fun p hp => ⟨(h.attributes e he p hp).name.noLineEnd (by decide),
            (h.attributes e he p hp).value.noLineEnd (by decide)⟩
      rw [cookieText_eq] at htext
      exact ⟨⟨(by decide : NoLineEnd (lit "set-cookie")), fun c hc => htext c (List.mem_append_right _ hc)⟩,
        (by decide : 58 ∉ lit "set-cookie")⟩
  have hbody : sent.out <+: resp.out := by
    simp only [Response.write, h.headersWrited, if_true, prepareHeaders_eq, hsend, ok_bind] at hwrite
    split_ifs at hwrite
    · exact Response.writeBody_out hwrite
    · rw [Except.ok.inj hwrite]
  obtain ⟨rest, hrest⟩ := hbody
  rw [← hrest, hout, h.version]
  exact ⟨lit "1.1", statusDescription a.response.status, rest, by decide,
    noLineEnd_statusLine (by decide) a.response.status, hok, rfl⟩

/-- The client gets the bytes of the answer. -/
def Answer.Received (a : Answer) (jar jar' : Jar) : Prop :=
  ∃ resp code fields, a.response.write a.body = .ok resp ∧ IsHead resp.out code fields ∧
    jar' = jar.receive (defaultPath a.path) fields

/-- What a client has after answers, one after the other. -/
def Browsed : Jar → List Answer → Jar → Prop
  | jar, [], jar' => jar = jar'
  | jar, a :: answers, jar' => ∃ next, a.Received jar next ∧ Browsed next answers jar'

/-- **What a client keeps** of an answer. -/
theorem Answer.Received.find? {a : Answer} {jar jar' : Jar} (h : a.Received jar jar') (ha : a.Good)
    (key : Bytes × Bytes) : jar'.find? key = (lastValue key a.kept).or (jar.find? key) := by
  obtain ⟨resp, code, fields, hwrite, hhead, rfl⟩ := h
  obtain ⟨-, rfl⟩ := hhead.unique (ha.isHead hwrite)
  have hheaders : (((preparedHeaders a.response a.body.length).erase (lit "set-cookie")).entries.filter
      fun f => SameName f.1 (lit "set-cookie")) = [] := by
    rw [List.filter_eq_nil_iff]
    intro f hf hsame
    have hnone :
        ((preparedHeaders a.response a.body.length).erase (lit "set-cookie")).find? (lit "set-cookie") = none := by
      rw [OrdMap.find?_erase, if_pos (Same.refl _)]
    exact OrdMap.find?_eq_none.mp hnone f hf ((same_lessCaseInsensitive _ _).mpr (of_decide_eq_true hsame))
  have hcookies : ((a.response.cookies.entries.map fun e => (lit "set-cookie", cookieField e)).filter
      fun f => SameName f.1 (lit "set-cookie")).filterMap (fun f => parse (defaultPath a.path) f.2) = a.kept := by
    rw [List.filter_eq_self.mpr fun f hf => by
      obtain ⟨e, -, rfl⟩ := List.mem_map.mp hf
      exact decide_eq_true rfl, List.filterMap_map, Answer.kept, ← List.filterMap_eq_map]
    refine List.filterMap_congr fun e he => ?_
    exact parse_cookieField (ha.items e he) (ha.attributes e he) _
  rw [find?_receive, Answer.fields, writtenFields, List.filter_append, hheaders, List.nil_append, hcookies]

/-- **What a client keeps** of all answers is what was set last. -/
theorem Browsed.find? {answers : List Answer} {jar jar' : Jar} (h : Browsed jar answers jar')
    (hgood : ∀ a ∈ answers, a.Good) (key : Bytes × Bytes) :
    jar'.find? key = (lastValue key (answers.flatMap Answer.kept)).or (jar.find? key) := by
  induction answers generalizing jar with
  | nil =>
    obtain rfl : jar = jar' := h
    rfl
  | cons a answers ih =>
    obtain ⟨ha, hanswers⟩ := List.forall_mem_cons.mp hgood
    obtain ⟨next, hreceived, hrest⟩ := h
    rw [ih hrest hanswers, hreceived.find? ha, List.flatMap_cons, lastValue_append, Option.or_assoc]

/-! ## The request -/

/-- The line of the items, when there are any. -/
def cookieLines (items : List (Bytes × Bytes)) : List Bytes :=
  if items = [] then [] else [lit "Cookie: " ++ cookieString items]

/-- A request for the path with the items, and whatever other headers. -/
structure CookieRequest (h : Head) (path : Bytes) (items : List (Bytes × Bytes)) : Prop where
  target : ∃ method query version, h.requestLine = method ++ 32 :: (path ++ query ++ 32 :: version) ∧
    (query = [] ∨ query.head? = some 63)
  headers : ∃ pre post, h.headers = pre ++ cookieLines items ++ post ∧
    ∀ l ∈ pre ++ post, ∀ v, ¬ ReadsAs (l ++ crlf) (lit "cookie") v

theorem headerKey_lower (line : Bytes) (colon : ℕ) :
    headerKey line colon = lit "cookie" ↔ SameName (headerKey line colon) (lit "cookie") := by
  have hlower : (headerKey line colon).map tolower = headerKey line colon := map_tolower_strToLower _
  have hcookie : (lit "cookie").map tolower = lit "cookie" := by decide
  rw [SameName, hlower, hcookie]

/-- A line that is no cookie header leaves the cookies. -/
theorem cookies_withHeaderLine {line : Bytes} (h : ∀ v, ¬ ReadsAs line (lit "cookie") v) (r : Request) :
    (withHeaderLine r line).1.cookies = r.cookies := by
  rw [withHeaderLine, headerLine]
  cases hcolon : find [58] line with
  | none => rfl
  | some colon =>
    have hkey : headerKey line colon ≠ lit "cookie" := fun heq =>
      h _ ⟨colon, hcolon, (headerKey_lower line colon).mp heq, rfl⟩
    simp only [if_pos hkey]

theorem cookies_readHeaders {lines : List Bytes} (h : ∀ l ∈ lines, ∀ v, ¬ ReadsAs (l ++ crlf) (lit "cookie") v)
    (r : Request) : (readHeaders r lines).cookies = r.cookies := by
  induction lines generalizing r with
  | nil => rfl
  | cons l lines ih =>
    obtain ⟨hl, hlines⟩ := List.forall_mem_cons.mp h
    rw [readHeaders, List.foldl_cons]
    exact (ih hlines _).trans (cookies_withHeaderLine hl r)

variable {items : List (Bytes × Bytes)}

theorem PlainItem.trimmed_text {item : Bytes × Bytes} (h : PlainItem item) :
    Trim.Trimmed isBlank (item.1 ++ 61 :: item.2) := h.name.trimmed.append_cons (by decide) h.value_trimmed

theorem PlainItem.not_mem {item : Bytes × Bytes} (h : PlainItem item) {c : UInt8} (hc : c = 37 ∨ c = 59) :
    c ∉ item.1 ++ 61 :: item.2 := by
  have hname : c ∉ item.1 := h.name.not_mem (Or.inr (by rcases hc with rfl | rfl <;> decide))
  have hvalue : c ∉ item.2 := h.value.not_mem (Or.inr (by rcases hc with rfl | rfl <;> decide))
  have hequals : c ≠ 61 := by rcases hc with rfl | rfl <;> decide
  simp [hname, hvalue, hequals]

theorem PlainItem.reads {item : Bytes × Bytes} (h : PlainItem item) {front : Bytes} (hfront : front = [] ∨ front = [32])
    (hlen : (front ++ (item.1 ++ 61 :: item.2)).length < 2147483648) :
    Http.cookieItem (front ++ (item.1 ++ 61 :: item.2)) = some item := by
  have htrim : trimmed (front ++ (item.1 ++ 61 :: item.2)) = item.1 ++ 61 :: item.2 := by
    rw [trimmed_eq_trim hlen]
    rcases hfront with rfl | rfl
    · exact h.trimmed_text.trim_eq
    · exact (Trim.trim_cons_of_pos (by decide)).trans h.trimmed_text.trim_eq
  have hequals : 61 ∉ item.1 := h.name.not_mem (Or.inr (by decide))
  have hitem : item.1.length < 2147483648 ∧ item.2.length < 2147483648 := by
    simp only [List.length_append, List.length_cons] at hlen
    omega
  have hsplit : item.1 ++ 61 :: item.2 = item.1 ++ [61] ++ item.2 := by simp
  rw [Http.cookieItem, htrim, find_singleton_append hequals, Option.map_some, List.take_left, hsplit,
    List.drop_left' (by simp), trimmed_eq_trim hitem.1, h.name.trimmed.trim_eq, trimmed_eq_trim hitem.2,
    h.value_trimmed.trim_eq]

theorem intercalate_cons_left {sep t : Bytes} (c : UInt8) (ts : List Bytes) :
    sep.intercalate ((c :: t) :: ts) = c :: sep.intercalate (t :: ts) := by
  cases ts with
  | nil => simp [List.intercalate_singleton]
  | cons t' ts => simp [List.intercalate_cons_cons]

/-- The blank behind a semicolon belongs to the next text. -/
theorem intercalate_semicolon (t : Bytes) (ts : List Bytes) :
    (lit "; ").intercalate (t :: ts) = [59].intercalate (t :: ts.map ([32] ++ ·)) := by
  induction ts generalizing t with
  | nil => rfl
  | cons t' ts ih =>
    rw [List.map_cons, List.intercalate_cons_cons, List.intercalate_cons_cons, ih, List.singleton_append,
      intercalate_cons_left]
    simp [lit]

/-- The statements of the line of the items. -/
def statements : List (Bytes × Bytes) → List Bytes
  | [] => []
  | item :: items => (item.1 ++ 61 :: item.2) :: items.map fun item => [32] ++ (item.1 ++ 61 :: item.2)

theorem tokens_cookieString (h : ∀ item ∈ items, PlainItem item) :
    tokens 59 (cookieString items) = statements items := by
  cases items with
  | nil => rfl
  | cons item items =>
    obtain ⟨hitem, hitems⟩ := List.forall_mem_cons.mp h
    have hnot : ∀ t ∈ statements (item :: items), 59 ∉ t := by
      intro t ht
      rcases List.mem_cons.mp ht with rfl | ht
      · exact hitem.not_mem (Or.inr rfl)
      · obtain ⟨item', hitem', rfl⟩ := List.mem_map.mp ht
        simpa using (hitems item' hitem').not_mem (Or.inr rfl)
    have hne : ∀ t ∈ statements (item :: items), t ≠ [] := by
      intro t ht
      rcases List.mem_cons.mp ht with rfl | ht
      · simp
      · obtain ⟨item', -, rfl⟩ := List.mem_map.mp ht
        simp
    rw [cookieString, List.map_cons, intercalate_semicolon, List.map_map]
    exact tokens_intercalate hnot hne

/-- Statements that are read as items are assigned one after the other. -/
theorem cookieItems_eq {list : List Bytes} (h : List.Forall₂ (fun s item => Http.cookieItem s = some item) list items)
    (cookies : BasicCookies) :
    cookieItems cookies list = (items.foldl (fun cookies item => cookies.assign item.1 item.2) cookies, true) := by
  induction h generalizing cookies with
  | nil => rfl
  | cons hitem _ ih =>
    rw [cookieItems, hitem, List.foldl_cons]
    exact ih _

theorem length_le_intercalate {sep t : Bytes} {ts : List Bytes} (h : t ∈ ts) :
    t.length ≤ (sep.intercalate ts).length := by
  induction ts with
  | nil => exact absurd h List.not_mem_nil
  | cons t' ts ih =>
    cases ts with
    | nil =>
      obtain rfl := List.mem_singleton.mp h
      rw [List.intercalate_singleton]
    | cons t'' ts =>
      rw [List.intercalate_cons_cons, List.length_append, List.length_append]
      rcases List.mem_cons.mp h with rfl | h
      · omega
      · have hle := ih h
        omega

theorem statements_items (h : ∀ item ∈ items, PlainItem item) (hshort : Short (cookieString items)) :
    List.Forall₂ (fun s item => Http.cookieItem s = some item) (statements items) items := by
  have hlen : ∀ item ∈ items, ([32] ++ (item.1 ++ 61 :: item.2)).length < 2147483648 := by
    intro item hitem
    have hle : (item.1 ++ 61 :: item.2).length ≤ (cookieString items).length :=
      length_le_intercalate (List.mem_map_of_mem hitem)
    have hlt : (cookieString items).length < 2147483000 := hshort
    rw [List.length_append, List.length_singleton]
    omega
  cases items with
  | nil => exact List.Forall₂.nil
  | cons item items =>
    obtain ⟨hitem, hitems⟩ := List.forall_mem_cons.mp h
    obtain ⟨hfirst, hrest⟩ := List.forall_mem_cons.mp hlen
    have hown : ([] ++ (item.1 ++ 61 :: item.2)).length < 2147483648 := by
      rw [List.length_append, List.length_singleton] at hfirst
      rw [List.nil_append]
      omega
    have hread : Http.cookieItem ([] ++ (item.1 ++ 61 :: item.2)) = some item := hitem.reads (Or.inl rfl) hown
    refine List.Forall₂.cons hread ?_
    rw [List.forall₂_map_left_iff]
    exact List.forall₂_same.mpr fun item' hitem' => (hitems item' hitem').reads (Or.inr rfl) (hrest item' hitem')

/-- **The line of the items** is read as the items. -/
theorem headerLine_items (h : ∀ item ∈ items, PlainItem item) (hshort : Short (cookieString items))
    (headers : Headers) (cookies : BasicCookies) :
    headerLine headers cookies (fieldLine (lit "Cookie", cookieString items)) =
      (headers, items.foldl (fun cookies item => cookies.assign item.1 item.2) cookies, true) := by
  have hcolon : find [58] (fieldLine (lit "Cookie", cookieString items)) = some 6 := by
    have hassoc : fieldLine (lit "Cookie", cookieString items) =
        lit "Cookie" ++ lit ": " ++ (cookieString items ++ crlf) := by
      rw [fieldLine, List.append_assoc (lit "Cookie" ++ lit ": ")]
    rw [hassoc]
    exact find_colon (by decide) (cookieString items ++ crlf)
  have hkey : headerKey (fieldLine (lit "Cookie", cookieString items)) 6 = lit "cookie" := by
    have hassoc : fieldLine (lit "Cookie", cookieString items) =
        lit "Cookie" ++ lit ": " ++ (cookieString items ++ crlf) := by
      rw [fieldLine, List.append_assoc (lit "Cookie" ++ lit ": ")]
    rw [hassoc]
    exact (headerKey_fieldLine (cookieString items ++ crlf)).trans (by decide)
  have htrim : Trim.Trimmed isBlank (cookieString items) := by
    refine Trim.trimmed_intercalate fun t ht => ?_
    obtain ⟨item, hitem, rfl⟩ := List.mem_map.mp ht
    exact ⟨by simp, (h item hitem).trimmed_text⟩
  have hpercent : 37 ∉ cookieString items := by
    refine not_mem_intercalate (by decide) fun t ht => ?_
    obtain ⟨item, hitem, rfl⟩ := List.mem_map.mp ht
    exact (h item hitem).not_mem (Or.inl rfl)
  have hvalue : headerValue (fieldLine (lit "Cookie", cookieString items)) 6 = cookieString items :=
    (headerValue_fieldLine hshort).trans (fromPercentEncoding_trimmed hshort htrim hpercent)
  rw [headerLine, hcolon]
  simp only [hkey, ne_eq, not_true_eq_false, if_false, hvalue, tokens_cookieString h,
    cookieItems_eq (statements_items h hshort)]

theorem cookies_requestLine {r r' : Request} {line : Bytes} (h : Http.requestLine r line = some r') :
    r'.cookies = r.cookies := by
  rw [Http.requestLine] at h
  split at h
  · split_ifs at h
    rw [← Option.some.inj h, withTarget]
    split <;> rfl
  · cases h

theorem cookieLines_short {h : Head} {path : Bytes} (hw : h.WellFormed) (hrequest : CookieRequest h path items)
    (hne : items ≠ []) : Short (cookieString items) := by
  obtain ⟨pre, post, hheaders, -⟩ := hrequest.headers
  have hmem : lit "Cookie: " ++ cookieString items ∈ h.headers := by
    rw [hheaders, cookieLines, if_neg hne]
    simp
  have hlen := hw.header_short _ hmem
  have hshort : (cookieString items).length < 2147483000 := by
    rw [List.length_append] at hlen
    omega
  exact hshort

/-- **The cookies of the request** are the items. -/
theorem CookieRequest.cookies {h : Head} {path : Bytes} (hw : h.WellFormed) (hrequest : CookieRequest h path items)
    (hitems : ∀ item ∈ items, PlainItem item) (name : Bytes) : h.request.cookies.find? name = lastValue name items := by
  obtain ⟨r, hr⟩ := hw.requestLine_isSome
  obtain ⟨pre, post, hheaders, hother⟩ := hrequest.headers
  have hpre := fun l hl => hother l (List.mem_append_left post hl)
  have hpost := fun l hl => hother l (List.mem_append_right pre hl)
  have hempty : r.cookies = UMap.empty := cookies_requestLine hr
  have hread : h.request.cookies = items.foldl (fun cookies item => cookies.assign item.1 item.2) UMap.empty := by
    rw [Head.request, hr, Option.getD_some, hheaders, readHeaders, List.foldl_append, List.foldl_append]
    refine (cookies_readHeaders hpost _).trans ?_
    by_cases hne : items = []
    · subst hne
      exact (cookies_readHeaders hpre r).trans hempty
    · have hline : lit "Cookie: " ++ cookieString items ++ crlf = fieldLine (lit "Cookie", cookieString items) := rfl
      rw [cookieLines, if_neg hne, List.foldl_cons, List.foldl_nil, withHeaderLine, hline,
        headerLine_items hitems (cookieLines_short hw hrequest hne)]
      have hbefore : (pre.foldl (fun r l => (withHeaderLine r (l ++ crlf)).1) r).cookies = UMap.empty :=
        (cookies_readHeaders hpre r).trans hempty
      simp only [hbefore]
  rw [hread, find?_foldl_assign, overlay_apply]
  exact Option.or_none

/-- The items are name and value for the parser as well. -/
theorem CookieRequest.fit {h : Head} {path : Bytes} (hw : h.WellFormed) (hrequest : CookieRequest h path items)
    (hitems : ∀ item ∈ items, PlainItem item) : h.CookiesFit := by
  obtain ⟨pre, post, hheaders, hother⟩ := hrequest.headers
  have hplain : ∀ l ∈ pre ++ post, CookieItemsFit (decodedItems (l ++ crlf)) := by
    intro l hl
    rw [decodedItems]
    cases hcolon : find [58] (l ++ crlf) with
    | none => exact fun s hs => absurd hs List.not_mem_nil
    | some colon =>
      have hkey : headerKey (l ++ crlf) colon ≠ lit "cookie" := fun heq =>
        hother l hl _ ⟨colon, hcolon, (headerKey_lower _ _).mp heq, rfl⟩
      simp only [if_neg hkey]
      exact fun s hs => absurd hs List.not_mem_nil
  intro l hl
  rw [hheaders, List.append_assoc] at hl
  rcases List.mem_append.mp hl with hl | hl
  · exact hplain l (List.mem_append_left _ hl)
  rcases List.mem_append.mp hl with hl | hl
  · rw [cookieLines] at hl
    split_ifs at hl with hne
    · exact absurd hl List.not_mem_nil
    · obtain rfl := List.mem_singleton.mp hl
      have hcolon : 58 ∈ lit "Cookie: " ++ cookieString items ++ crlf := by simp [lit]
      have hline : lit "Cookie: " ++ cookieString items ++ crlf = fieldLine (lit "Cookie", cookieString items) := rfl
      rw [← headerLine_good Request.new _ hcolon, withHeaderLine, hline,
        headerLine_items hitems (cookieLines_short hw hrequest hne)]
  · exact hplain l (List.mem_append_right _ hl)

/-! ## The loop -/

/-- Every cookie can be read back. -/
def PlainJar (jar : Jar) : Prop := ∀ key stored, jar.find? key = some stored → PlainItem (key.1, stored.value)

theorem plainJar_empty : PlainJar UMap.empty := fun _ _ h => by cases h

theorem Answer.Good.plain_kept {a : Answer} (h : a.Good) {key : Bytes × Bytes} {stored : Stored}
    (hkept : (key, stored) ∈ a.kept) : PlainItem (key.1, stored.value) := by
  obtain ⟨cookie, hfind, -, rfl⟩ := mem_kept.mp hkept
  exact h.items (key.1, cookie) (UMap.find?_eq_some_iff.mp hfind)

theorem Answer.Received.plainJar {a : Answer} {jar jar' : Jar} (h : a.Received jar jar') (ha : a.Good)
    (hjar : PlainJar jar) : PlainJar jar' := by
  intro key stored hstored
  rw [h.find? ha, Option.or_eq_some_iff] at hstored
  rcases hstored with hlast | ⟨-, hold⟩
  · exact ha.plain_kept (mem_of_lastValue hlast)
  · exact hjar key stored hold

theorem Browsed.plainJar {answers : List Answer} {jar jar' : Jar} (h : Browsed jar answers jar')
    (hgood : ∀ a ∈ answers, a.Good) (hjar : PlainJar jar) : PlainJar jar' := by
  induction answers generalizing jar with
  | nil =>
    obtain rfl : jar = jar' := h
    exact hjar
  | cons a answers ih =>
    obtain ⟨ha, hanswers⟩ := List.forall_mem_cons.mp hgood
    obtain ⟨next, hreceived, hrest⟩ := h
    exact ih hrest hanswers (hreceived.plainJar ha hjar)

/-- **A request of the client** is read with the cookies that have the shortest paths. -/
theorem CookieRequest.read {jar : Jar} {https : Bool} {path : Bytes} {h : Head} (hjar : PlainJar jar)
    (hsends : jar.Sends https path items) (hw : h.WellFormed) (hrequest : CookieRequest h path items)
    {segs : List Bytes} (hne : ∀ g ∈ segs, g ≠ []) (hsegs : segs.flatten = h.bytes) (sock : TcpSocket) :
    ∃ bs p, feed .new segs = .ok (bs ++ [true], p) ∧ (p.getRequest (some sock)).1 = some (carried h sock) ∧
      ∀ name value, (carried h sock).cookies.find? name = some value ↔ Shortest jar.find? https path name value := by
  have hitems : ∀ item ∈ items, PlainItem item := by
    intro item hitem
    obtain ⟨cookiePath, stored, hstored, hvalue⟩ := hsends.mem hitem
    have hplain := hjar _ _ hstored
    rwa [← hvalue] at hplain
  obtain ⟨bs, p, hfeed, hcontext⟩ := hw.feed (hrequest.fit hw hitems) hne hsegs
  refine ⟨bs, p, hfeed, ?_, fun name value => ?_⟩
  · rw [Parser.getRequest, hcontext]
    rfl
  · have hcookies : (carried h sock).cookies = h.request.cookies := (h.request.sameHead_finished []).2.2.2.2.2.2
    rw [hcookies, hrequest.cookies hw hitems, hsends.lastValue_iff]

/-- **Cookies come back.**  A client keeps the cookies of any answers, one after the other, and sends those that belong
to a request; however the request is cut, the server reads under each name what was set last for the shortest path. -/
theorem cookies_iff {answers : List Answer} {jar : Jar} {https : Bool} {path : Bytes} {h : Head}
    (hgood : ∀ a ∈ answers, a.Good) (hbrowsed : Browsed UMap.empty answers jar) (hsends : jar.Sends https path items)
    (hw : h.WellFormed) (hrequest : CookieRequest h path items) {segs : List Bytes} (hne : ∀ g ∈ segs, g ≠ [])
    (hsegs : segs.flatten = h.bytes) (sock : TcpSocket) :
    ∃ bs p, feed .new segs = .ok (bs ++ [true], p) ∧ (p.getRequest (some sock)).1 = some (carried h sock) ∧
      ∀ name value, (carried h sock).cookies.find? name = some value ↔
        Shortest (lastValue · (answers.flatMap Answer.kept)) https path name value := by
  have hfind : jar.find? = (lastValue · (answers.flatMap Answer.kept)) := by
    funext key
    rw [hbrowsed.find? hgood key]
    exact Option.or_none
  rw [← hfind]
  exact hrequest.read (hbrowsed.plainJar hgood plainJar_empty) hsends hw hne hsegs sock

/-! ## Two answers -/

theorem Answer.Good.received {a : Answer} (h : a.Good)
    (hplain : a.response.headers.find? Header.transferEncoding = none) (jar : Jar) :
    a.Received jar (jar.receive (defaultPath a.path) a.fields) := by
  obtain ⟨resp, hwrite⟩ : ∃ resp, a.response.write a.body = .ok resp := by
    have hprepared : ({ a.response with headersWrited := true, headers := preparedHeaders a.response a.body.length } :
        Response).Connected := h.connected
    obtain ⟨sent, hsend, hconn, hchunked, -⟩ := sendHeaders_block hprepared
    have hnone : (preparedHeaders a.response a.body.length).find? Header.transferEncoding = none :=
      (find?_preparedHeaders a.response a.body.length (by decide)).trans hplain
    have hnot : sent.isChunked = false := by
      rw [hchunked, Response.isChunked, Response.transferEncodingChunked]
      simp only [hnone, ite_self]
    simp only [Response.write, h.headersWrited, if_true, prepareHeaders_eq, hsend, ok_bind, hnot,
      hconn.writeBody_plain]
    split_ifs
    · exact ⟨_, rfl⟩
    · exact ⟨_, rfl⟩
  exact ⟨resp, _, _, hwrite, h.isHead hwrite, rfl⟩

/-- An answer with cookies. -/
def answerWith (path : Bytes) (request : Request) (cookies : Cookies) : Answer :=
  ⟨path, { Response.new request with cookies := cookies }, []⟩

theorem answerWith_good {path : Bytes} {request : Request} {cookies : Cookies}
    (hversion : request.version = lit "1.1") (hconn : (Response.new request).Connected)
    (hout : (Response.new request).out = [])
    (hitems : ∀ e ∈ cookies.entries, PlainItem (e.1, e.2.value))
    (hattributes : ∀ e ∈ cookies.entries, ∀ p ∈ e.2.attributes.entries, PlainAttribute p) :
    (answerWith path request cookies).Good where
  connected := hconn
  headersWrited := rfl
  out := hout
  version := hversion
  fields := (by decide :
    ∀ e ∈ (OrdMap.empty.assign Header.contentType (lit "text/plain; charset=utf-8") : Headers).entries,
      FieldOk e ∧ 58 ∉ e.1)
  items := hitems
  attributes := hattributes

/-- A cookie without a path for a page below `/a`, and one of the same name for all paths. -/
def twoAnswers : List Answer :=
  [answerWith (lit "/a/b") plainRequest (UMap.empty.assign (lit "x") ⟨lit "1", OrdMap.empty⟩),
    answerWith (lit "/") plainRequest
      (UMap.empty.assign (lit "x") ⟨lit "2", OrdMap.empty.assign (lit "Path") (lit "/")⟩)]

/-- What the client has then. -/
def twoCookies : Jar :=
  (UMap.empty.assign (lit "x", lit "/a") ⟨lit "1", false⟩).assign (lit "x", lit "/") ⟨lit "2", false⟩

theorem twoAnswers_good : ∀ a ∈ twoAnswers, a.Good := by
  have hone : PlainItem (lit "x", lit "1") :=
    ⟨by decide, by decide, by decide, Trim.trim_eq_self_iff.mp (by decide)⟩
  have htwo : PlainItem (lit "x", lit "2") :=
    ⟨by decide, by decide, by decide, Trim.trim_eq_self_iff.mp (by decide)⟩
  have hpath : PlainAttribute (lit "Path", lit "/") :=
    ⟨by decide, by decide, Trim.trim_eq_self_iff.mp (by decide), by decide⟩
  have hconn : (Response.new plainRequest).Connected := ⟨_, rfl, rfl⟩
  rw [twoAnswers, List.forall_mem_cons, List.forall_mem_singleton]
  constructor
  · exact answerWith_good rfl hconn rfl (List.forall_mem_singleton.mpr hone)
      (List.forall_mem_singleton.mpr fun p hp => absurd hp List.not_mem_nil)
  · exact answerWith_good rfl hconn rfl (List.forall_mem_singleton.mpr htwo)
      (List.forall_mem_singleton.mpr (List.forall_mem_singleton.mpr hpath))

theorem browsed_twoAnswers : Browsed UMap.empty twoAnswers twoCookies := by
  obtain ⟨hfirst, hsecond⟩ := List.forall_mem_cons.mp twoAnswers_good
  refine ⟨_, hfirst.received rfl _, _, (hsecond _ List.mem_cons_self).received rfl _, ?_⟩
  rw [Browsed]
  decide

/-- The request that the client sends then. -/
def twoCookiesHead : Head := ⟨lit "GET /a/c HTTP/1.1", [lit "Host: b", lit "Cookie: x=1; x=2"]⟩

theorem twoCookiesHead_wellFormed : twoCookiesHead.WellFormed where
  requestLine_noEnd := by decide
  requestLine_short := by decide
  requestLine_parts := ⟨lit "GET", lit "/a/c", lit "HTTP/1.1\r\n", by decide⟩
  header_noEnd := by decide
  header_short := by decide
  header_colon := by decide
  cookie_items := by decide

theorem not_readsAs_host : ∀ l ∈ [lit "Host: b"], ∀ v, ¬ ReadsAs (l ++ crlf) (lit "cookie") v := by
  rw [List.forall_mem_singleton]
  intro v hread
  have hhost : ReadsAs (lit "Host: b" ++ crlf) (lit "Host") (lit "b") :=
    ⟨4, by decide, by decide, by decide⟩
  exact absurd (hread.sameName hhost) (by decide)

theorem twoCookiesHead_request :
    CookieRequest twoCookiesHead (lit "/a/c") [(lit "x", lit "1"), (lit "x", lit "2")] where
  target := ⟨lit "GET", [], lit "HTTP/1.1", by decide, Or.inl rfl⟩
  headers := ⟨[lit "Host: b"], [], by decide, not_readsAs_host⟩

theorem twoCookies_sends : twoCookies.Sends false (lit "/a/c") [(lit "x", lit "1"), (lit "x", lit "2")] :=
  ⟨twoCookies.entries, List.Perm.of_eq (by decide), by decide, by decide⟩

/-- The cookie for all paths is read, and not the one for the pages below `/a`. -/
theorem cookies_two : ∃ bs p, feed .new [twoCookiesHead.bytes] = .ok (bs ++ [true], p) ∧
    (p.getRequest (some ⟨true, 1024, [], [], []⟩)).1 = some (carried twoCookiesHead ⟨true, 1024, [], [], []⟩) ∧
    ∀ name value, (carried twoCookiesHead ⟨true, 1024, [], [], []⟩).cookies.find? name = some value ↔
      Shortest (lastValue · (twoAnswers.flatMap Answer.kept)) false (lit "/a/c") name value :=
  cookies_iff twoAnswers_good browsed_twoAnswers twoCookies_sends twoCookiesHead_wellFormed twoCookiesHead_request
    (by decide) (by simp) ⟨true, 1024, [], [], []⟩

end Gts3.Web
