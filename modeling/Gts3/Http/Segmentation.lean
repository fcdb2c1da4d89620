import Gts3.Http.HeadMachine

/-!
# Request heads in segments

A `Head` is a request line and header lines; `WellFormed` says what the parser is promised.  When the items of its
cookie headers are still name and value after percent-decoding, the head is read in the same way however the stream
is cut (`segmentationInvariant_iff`); the result is `Head.request`.  An item that decodes to text with a semicolon
ends the reading at the line of its header.
-/

namespace Gts3.Http

open Lib Lib.Search Lib.Cxx Lib.LineMachine Lib.HttpMessage

/-- The lines of a request head, without their line ends. -/
structure Head where
  requestLine : Bytes
  headers : List Bytes
  deriving DecidableEq

namespace Head

/-- The lines in front of the blank line. -/
def lines (h : Head) : List Bytes := (h.requestLine ++ crlf) :: h.headers.map (· ++ crlf)

/-- The bytes of a head. -/
def bytes (h : Head) : Bytes := (h.lines ++ [crlf]).flatten

end Head

/-- The items of a cookie header as they stand in the line; no items for any other header. -/
def rawItems (line : Bytes) : List Bytes :=
  match find [58] line with
  | none => []
  | some colonIndex =>
    if headerKey line colonIndex = lit "cookie" then tokens 59 (trimmed (line.drop (colonIndex + 1))) else []

/-- The items of a cookie header after percent-decoding; no items for any other header. -/
def decodedItems (line : Bytes) : List Bytes :=
  match find [58] line with
  | none => []
  | some colonIndex =>
    if headerKey line colonIndex = lit "cookie" then tokens 59 (headerValue line colonIndex) else []

/-- A request line of three parts with a known method and an HTTP version, header lines with a colon, cookie
headers of name and value items, and no line of more than 1024 bytes. -/
structure Head.WellFormed (h : Head) : Prop where
  requestLine_noEnd : find crlf h.requestLine = none
  requestLine_short : h.requestLine.length + 2 ≤ 1024
  requestLine_parts : ∃ methodPart targetPart versionPart,
    tokens 32 (h.requestLine ++ crlf) = [methodPart, targetPart, versionPart] ∧
    fromMethodString methodPart ≠ .unknown ∧ strStartsWith (strToUpper versionPart) (lit "HTTP/") = true
  header_noEnd : ∀ l ∈ h.headers, find crlf l = none
  header_short : ∀ l ∈ h.headers, l.length + 2 ≤ 1024
  header_colon : ∀ l ∈ h.headers, 58 ∈ l
  cookie_items : ∀ l ∈ h.headers, CookieItemsFit (rawItems (l ++ crlf))

/-- The items of every cookie header are name and value after percent-decoding. -/
def Head.CookiesFit (h : Head) : Prop := ∀ l ∈ h.headers, CookieItemsFit (decodedItems (l ++ crlf))

/-- The parser takes the request line and every header line. -/
structure Head.Accepted (h : Head) : Prop where
  requestLine_noEnd : find crlf h.requestLine = none
  requestLine_isSome : ∃ r, Http.requestLine Request.new (h.requestLine ++ crlf) = some r
  header_noEnd : ∀ l ∈ h.headers, find crlf l = none
  header_colon : ∀ l ∈ h.headers, 58 ∈ l
  cookiesFit : h.CookiesFit

/-! ## Feeding segments -/

/-- `load` on one segment after the other, with the values it returns. -/
def feed : Parser → List Bytes → Run (List Bool × Parser)
  | p, [] => .ok ([], p)
  | p, g :: segs => do
    let (b, p) ← p.load g
    let (bs, p) ← feed p segs
    .ok (b :: bs, p)

/-- The parts of two requests that come from their heads are equal. -/
def Request.SameHead (r r' : Request) : Prop :=
  r.method = r'.method ∧ r.version = r'.version ∧ r.path = r'.path ∧ r.parametersString = r'.parametersString ∧
    r.parameters = r'.parameters ∧ r.headers = r'.headers ∧ r.cookies = r'.cookies

/-- However a stream that starts with the head is cut: every segment before the one with the last byte of the blank
line gives false, that one gives true; the request has the parts it has when the stream comes in one piece, and the
body it starts with is what follows the blank line in that segment. -/
def SegmentationInvariant (h : Head) : Prop :=
  ∀ (tail : Bytes) (segs : List Bytes), (∀ g ∈ segs, g ≠ []) → segs.flatten = h.bytes ++ tail →
    ∃ (pre : List Bytes) (g : Bytes) (post : List Bytes) (rest : Bytes) (p q : Parser) (r r₁ r₀ : Request),
      segs = pre ++ g :: post ∧ pre.flatten.length < h.bytes.length ∧
      pre.flatten ++ g = h.bytes ++ rest ∧
      feed .new (pre ++ [g]) = .ok (List.replicate pre.length false ++ [true], p) ∧ p.context = some r ∧
      Parser.new.load (h.bytes ++ tail) = .ok (true, q) ∧ q.context = some r₁ ∧
      r.SameHead r₁ ∧ r = r₀.finished rest ∧ r₁ = r₀.finished tail

theorem Request.sameHead_finished (r : Request) (b : Bytes) : (r.finished b).SameHead r := by
  unfold finished withBody
  simp only
  split
  · exact ⟨rfl, rfl, rfl, rfl, rfl, rfl, rfl⟩
  · split_ifs <;> exact ⟨rfl, rfl, rfl, rfl, rfl, rfl, rfl⟩

theorem Request.finished_sameHead (r : Request) (b b' : Bytes) : (r.finished b).SameHead (r.finished b') := by
  obtain ⟨h1, h2, h3, h4, h5, h6, h7⟩ := r.sameHead_finished b
  obtain ⟨h1', h2', h3', h4', h5', h6', h7'⟩ := r.sameHead_finished b'
  exact ⟨h1.trans h1'.symm, h2.trans h2'.symm, h3.trans h3'.symm, h4.trans h4'.symm, h5.trans h5'.symm,
    h6.trans h6'.symm, h7.trans h7'.symm⟩

/-- Segments that the machine only collects make `load` return false. -/
theorem feed_feeds {p : Parser} {s s' : HeadState} {q : Bytes} (hp : p.Sim s) {segs : List Bytes}
    (h : feeds headMachine s p.buffer segs = some (s', q)) :
    ∃ p', feed p segs = .ok (List.replicate segs.length false, p') ∧ p'.Sim s' ∧ p'.buffer = q := by
  induction segs generalizing p s with
  | nil =>
    obtain ⟨rfl, rfl⟩ : s = s' ∧ p.buffer = q := by simpa [feeds] using h
    exact ⟨p, rfl, hp, rfl⟩
  | cons g segs ih =>
    obtain ⟨b, p₁, hload, hsim⟩ := load_sim hp g
    rw [feeds] at h
    cases ho : drain headMachine s (p.buffer ++ g) with
    | more s₁ buf =>
      rw [ho] at h hsim
      obtain ⟨rfl, hp₁, rfl, -⟩ := hsim
      obtain ⟨p', hfeed, hp', hq⟩ := ih hp₁ h
      exact ⟨p', by simp only [feed, hload, ok_bind, hfeed]; rfl, hp', hq⟩
    | done s₁ r rest => simp [ho] at h

theorem feed_append {p p' : Parser} {segs : List Bytes} {bs : List Bool} (h : feed p segs = .ok (bs, p'))
    {g : Bytes} {b : Bool} {p'' : Parser} (hg : p'.load g = .ok (b, p'')) :
    feed p (segs ++ [g]) = .ok (bs ++ [b], p'') := by
  induction segs generalizing p bs with
  | nil =>
    obtain ⟨rfl, rfl⟩ : [] = bs ∧ p = p' := by simpa [feed] using h
    simp only [List.nil_append, feed, hg, ok_bind]
  | cons g' segs ih =>
    simp only [feed, List.cons_append] at h ⊢
    cases hl : p.load g' with
    | error e => simp [hl] at h
    | ok res =>
      obtain ⟨b₁, p₁⟩ := res
      simp only [hl, ok_bind] at h ⊢
      cases hf : feed p₁ segs with
      | error e => simp [hf] at h
      | ok res =>
        obtain ⟨bs₁, p₂⟩ := res
        simp only [hf, ok_bind, Except.ok.injEq, Prod.mk.injEq] at h
        obtain ⟨rfl, rfl⟩ := h
        simp only [ih hf, ok_bind, List.cons_append]

/-! ## The lines of a head -/

theorem headerLine_good (r : Request) (line : Bytes) (hc : 58 ∈ line) :
    (withHeaderLine r line).2 = true ↔ CookieItemsFit (decodedItems line) := by
  simp only [withHeaderLine, headerLine, decodedItems]
  cases hf : find [58] line with
  | none => exact absurd hc (find_singleton_eq_none.mp hf)
  | some colonIndex =>
    simp only
    by_cases hk : headerKey line colonIndex = lit "cookie"
    · rw [if_neg (not_not.mpr hk), if_pos hk, cookieItems_snd]
    · rw [if_pos hk, if_neg hk]
      simp [CookieItemsFit]

theorem line_ne_crlf {l : Bytes} (h : 58 ∈ l) : l ++ crlf ≠ crlf := by
  intro he
  have : l = [] := by simpa using he
  simp [this] at h

/-- The request after the header lines. -/
def readHeaders (r : Request) (headers : List Bytes) : Request :=
  headers.foldl (fun r l => (withHeaderLine r (l ++ crlf)).1) r

theorem runLines_headers {headers : List Bytes} (hc : ∀ l ∈ headers, 58 ∈ l)
    (hfit : ∀ l ∈ headers, CookieItemsFit (decodedItems (l ++ crlf))) (r : Request) :
    runLines headMachine (.reading r) (headers.map (· ++ crlf)) = some (.reading (readHeaders r headers)) := by
  induction headers generalizing r with
  | nil => rfl
  | cons l headers ih =>
    have hgood := (headerLine_good r (l ++ crlf) (by simp [hc l (by simp)])).mpr (hfit l (by simp))
    simp only [List.map_cons, runLines, headMachine_line, headLine, if_neg (line_ne_crlf (hc l (by simp))), hgood,
      if_true]
    exact ih (fun l' hl' => hc l' (by simp [hl'])) (fun l' hl' => hfit l' (by simp [hl'])) _

namespace Head

variable {h : Head}

/-- The request that a well-formed head describes. -/
def request (h : Head) : Request :=
  readHeaders ((Http.requestLine Request.new (h.requestLine ++ crlf)).getD Request.new) h.headers

theorem WellFormed.requestLine_isSome (hw : h.WellFormed) :
    ∃ r, Http.requestLine Request.new (h.requestLine ++ crlf) = some r := by
  obtain ⟨m, t, v, ht, hm, hv⟩ := hw.requestLine_parts
  simp [Http.requestLine, ht, hm, hv]

theorem WellFormed.accepted (hw : h.WellFormed) (hfit : h.CookiesFit) : h.Accepted :=
  ⟨hw.requestLine_noEnd, hw.requestLine_isSome, hw.header_noEnd, hw.header_colon, hfit⟩

theorem isLine_of_noEnd (hr : find crlf h.requestLine = none) (hh : ∀ l ∈ h.headers, find crlf l = none) :
    ∀ l ∈ h.lines ++ [crlf], IsLine headMachine.delim l := by
  intro l hl
  simp only [lines, List.mem_append, List.mem_cons, List.mem_map, List.not_mem_nil, or_false] at hl
  rcases hl with (rfl | ⟨l', hl', rfl⟩) | rfl
  · exact ⟨_, hr, rfl⟩
  · exact ⟨_, hh l' hl', rfl⟩
  · exact ⟨[], rfl, rfl⟩

theorem WellFormed.isLine (hw : h.WellFormed) : ∀ l ∈ h.lines ++ [crlf], IsLine headMachine.delim l :=
  isLine_of_noEnd hw.requestLine_noEnd hw.header_noEnd

theorem WellFormed.line_short (hw : h.WellFormed) : ∀ l ∈ h.lines ++ [crlf], l.length ≤ headMachine.limit := by
  intro l hl
  simp only [lines, List.mem_append, List.mem_cons, List.mem_map, List.not_mem_nil, or_false] at hl
  rcases hl with (rfl | ⟨l', hl', rfl⟩) | rfl
  · simpa [crlf] using hw.requestLine_short
  · simpa [crlf] using hw.header_short l' hl'
  · simp [crlf]

/-- An accepted head moves the machine up to the blank line. -/
theorem Accepted.runLines (ha : h.Accepted) :
    LineMachine.runLines headMachine .waiting h.lines = some (.reading h.request) := by
  obtain ⟨r, hr⟩ := ha.requestLine_isSome
  simp only [lines, LineMachine.runLines, headMachine_line, headLine, hr, request, Option.getD_some]
  exact runLines_headers ha.header_colon ha.cookiesFit r

/-- **A head and what follows it**, in one piece. -/
theorem Accepted.drain (ha : h.Accepted) (tail : Bytes) :
    LineMachine.drain headMachine .waiting (h.bytes ++ tail) = .done .waiting (.complete h.request) tail := by
  have hlines := isLine_of_noEnd ha.requestLine_noEnd ha.header_noEnd
  rw [bytes, List.flatten_append, List.append_assoc, drain_lines (fun l hl => hlines l (by simp [hl])) ha.runLines,
    List.flatten_singleton, drain_line (hlines crlf (by simp))]
  simp [headLine]

/-- **The parser hands out** the request of an accepted head. -/
theorem Accepted.load (ha : h.Accepted) (tail : Bytes) :
    ∃ p, Parser.new.load (h.bytes ++ tail) = .ok (true, p) ∧ p.context = some (h.request.finished tail) := by
  obtain ⟨b, p, hload, hsim⟩ := load_sim Parser.sim_new (h.bytes ++ tail)
  rw [show Parser.new.buffer ++ (h.bytes ++ tail) = h.bytes ++ tail from rfl, ha.drain] at hsim
  obtain ⟨rfl, -, -, hctx⟩ := hsim
  exact ⟨p, hload, hctx⟩

/-- The value for a name behind a header line: the line's own, percent-decoded, when it has the name. -/
def valueBehind (key : Bytes) (value : Option Bytes) (line : Bytes) : Option Bytes :=
  match find [58] line with
  | none => value
  | some colonIndex => if SameName (headerKey line colonIndex) key then some (headerValue line colonIndex) else value

/-- The value of the last header line with the name. -/
def lastValue (h : Head) (key : Bytes) : Option Bytes :=
  h.headers.foldl (fun value l => valueBehind key value (l ++ crlf)) none

theorem find?_withHeaderLine {key : Bytes} (hkey : ¬ SameName (lit "cookie") key) (r : Request) (line : Bytes) :
    (withHeaderLine r line).1.headers.find? key = valueBehind key (r.headers.find? key) line := by
  rw [withHeaderLine, headerLine, valueBehind]
  cases hf : find [58] line with
  | none => rfl
  | some colonIndex =>
    simp only
    by_cases hc : headerKey line colonIndex = lit "cookie"
    · rw [if_neg (not_not.mpr hc), if_neg (by rw [hc]; exact hkey)]
    · rw [if_pos hc, OrdMap.find?_assign, if_congr (same_lessCaseInsensitive _ _) rfl rfl]

/-- The headers of a request are the last values of the names. -/
theorem find?_readHeaders {key : Bytes} (hkey : ¬ SameName (lit "cookie") key) (r : Request) (headers : List Bytes) :
    (readHeaders r headers).headers.find? key =
      headers.foldl (fun value l => valueBehind key value (l ++ crlf)) (r.headers.find? key) := by
  induction headers generalizing r with
  | nil => rfl
  | cons l headers ih =>
    rw [readHeaders, List.foldl_cons, ← readHeaders, ih, List.foldl_cons, find?_withHeaderLine hkey]

theorem withTarget_headers (r : Request) (target : Bytes) : (withTarget r target).headers = r.headers := by
  unfold withTarget
  split <;> rfl

theorem requestLine_headers {cache r : Request} {line : Bytes} (h : Http.requestLine cache line = some r) :
    r.headers = cache.headers := by
  unfold Http.requestLine at h
  split at h
  · split_ifs at h
    obtain rfl := Option.some.inj h
    rw [withTarget_headers]
  · cases h

/-- **The headers of the request** are the last values in the head. -/
theorem find?_request (h : Head) {key : Bytes} (hkey : ¬ SameName (lit "cookie") key) :
    h.request.headers.find? key = h.lastValue key := by
  have hnone : ((Http.requestLine Request.new (h.requestLine ++ crlf)).getD Request.new).headers.find? key = none := by
    cases hr : Http.requestLine Request.new (h.requestLine ++ crlf) with
    | none => rfl
    | some r =>
      rw [Option.getD_some, requestLine_headers hr]
      rfl
  rw [request, find?_readHeaders hkey, hnone, lastValue]

/-- The reading is over at the first cookie header that does not fit. -/
theorem WellFormed.exists_reject (hw : h.WellFormed) (hfit : ¬ h.CookiesFit) :
    ∃ a b, h.bytes = a ++ b ∧ b ≠ [] ∧ a ≠ [] ∧
      ∃ rest, LineMachine.drain headMachine .waiting a = .done .waiting .rejected rest := by
  -- the headers up to the first one that does not fit
  obtain ⟨good, l, bad, hsplit, hgood, hl⟩ : ∃ good l bad, h.headers = good ++ l :: bad ∧
      (∀ l ∈ good, CookieItemsFit (decodedItems (l ++ crlf))) ∧ ¬ CookieItemsFit (decodedItems (l ++ crlf)) := by
    unfold CookiesFit at hfit
    generalize h.headers = ls at hfit
    induction ls with
    | nil => simp at hfit
    | cons l ls ih =>
      by_cases hl : CookieItemsFit (decodedItems (l ++ crlf))
      · obtain ⟨good, l', bad, rfl, hgood, hl'⟩ := ih (by simpa [hl] using hfit)
        exact ⟨l :: good, l', bad, rfl, by simpa [hl] using hgood, hl'⟩
      · exact ⟨[], l, ls, rfl, by simp, hl⟩
  have hmem : l ∈ h.headers := by simp [hsplit]
  have hgmem : ∀ l' ∈ good, l' ∈ h.headers := fun l' hl' => by simp [hsplit, hl']
  obtain ⟨r, hr⟩ := hw.requestLine_isSome
  have hrun : LineMachine.runLines headMachine .waiting ((h.requestLine ++ crlf) :: good.map (· ++ crlf)) =
      some (.reading (readHeaders r good)) := by
    simp only [LineMachine.runLines, headMachine_line, headLine, hr]
    exact runLines_headers (fun l' hl' => hw.header_colon l' (hgmem l' hl')) hgood r
  have hlines : ∀ x ∈ (h.requestLine ++ crlf) :: good.map (· ++ crlf), IsLine headMachine.delim x := by
    intro x hx
    refine hw.isLine x ?_
    simp only [lines, hsplit, List.mem_append, List.mem_cons, List.mem_map] at hx ⊢
    rcases hx with rfl | ⟨l', hl', rfl⟩
    · exact Or.inl (Or.inl rfl)
    · exact Or.inl (Or.inr ⟨l', Or.inl hl', rfl⟩)
  refine ⟨((h.requestLine ++ crlf) :: good.map (· ++ crlf)).flatten ++ (l ++ crlf),
    (bad.map (· ++ crlf)).flatten ++ crlf, ?_, by simp [crlf], by simp [crlf], [], ?_⟩
  · simp [bytes, lines, hsplit]
  · have hbad : (withHeaderLine (readHeaders r good) (l ++ crlf)).2 ≠ true := fun hc =>
      hl ((headerLine_good _ _ (by simp [hw.header_colon l hmem])).mp hc)
    have hline : IsLine headMachine.delim (l ++ crlf) := ⟨l, hw.header_noEnd l hmem, rfl⟩
    rw [drain_lines hlines hrun, ← List.append_nil (l ++ crlf), drain_line hline]
    simp [headLine, line_ne_crlf (hw.header_colon l hmem), hbad]

end Head

/-- The first segment ends with a cookie header that does not fit, and is answered with true. -/
theorem SegmentationInvariant.cookiesFit {h : Head} (hw : h.WellFormed) (hinv : SegmentationInvariant h) :
    h.CookiesFit := by
  by_contra hfit
  obtain ⟨a, b, hab, hb, ha, rest, hdrain⟩ := hw.exists_reject hfit
  obtain ⟨pre, g, post, rest', p, q, r, r₁, r₀, hsegs, hlen, hcut, hfeed, -⟩ :=
    hinv [] [a, b] (by simp [ha, hb]) (by simp [hab])
  obtain ⟨b', p₁, hload, hsim⟩ := load_sim Parser.sim_new a
  rw [show Parser.new.buffer ++ a = a from rfl, hdrain] at hsim
  obtain ⟨rfl, -⟩ := hsim
  cases pre with
  | nil =>
    obtain ⟨rfl, -⟩ : a = g ∧ [b] = post := by simpa using hsegs
    rw [hab, List.flatten_nil, List.nil_append, List.append_assoc, List.self_eq_append_right] at hcut
    exact hb (List.append_eq_nil_iff.mp hcut).1
  | cons x pre =>
    obtain ⟨rfl, -⟩ : a = x ∧ [b] = pre ++ g :: post := by simpa using hsegs
    simp only [List.cons_append, feed, hload, ok_bind] at hfeed
    cases hf : feed p₁ (pre ++ [g]) with
    | error e => simp [hf] at hfeed
    | ok res => simp [hf, List.replicate_succ] at hfeed

/-- **Segments.**  A well-formed head is read in the same way however the stream is cut if and only if the items of
its cookie headers are name and value after percent-decoding as well. -/
theorem segmentationInvariant_iff {h : Head} (hw : h.WellFormed) : SegmentationInvariant h ↔ h.CookiesFit := by
  refine ⟨SegmentationInvariant.cookiesFit hw, fun hfit tail segs _ hflat => ?_⟩
  obtain ⟨pre, g, post, rest, s, q, rfl, hlen, hcut, -, hfeeds, hdrain⟩ :=
    feeds_whole hw.isLine hw.line_short (hw.accepted hfit).runLines
      (show headMachine.line (.reading h.request) crlf = .stop .waiting (.complete h.request) from rfl) hflat
  obtain ⟨p₁, hfeed, hp₁, rfl⟩ := feed_feeds Parser.sim_new hfeeds
  obtain ⟨b, p₂, hload, hsim⟩ := load_sim hp₁ g
  rw [hdrain] at hsim
  obtain ⟨rfl, -, -, hctx⟩ := hsim
  obtain ⟨q₁, hload₁, hctx₁⟩ := (hw.accepted hfit).load tail
  exact ⟨pre, g, post, rest, p₂, q₁, _, _, h.request, rfl, hlen, hcut, feed_append hfeed hload, hctx, hload₁,
    hctx₁, Request.finished_sameHead _ _ _, rfl, rfl⟩

/-- A head with a cookie. -/
def plainCookieHead : Head := ⟨lit "GET /a HTTP/1.1", [lit "Host: b", lit "Cookie: c=1; d=2"]⟩

theorem plainCookieHead_wellFormed : plainCookieHead.WellFormed where
  requestLine_noEnd := by decide
  requestLine_short := by decide
  requestLine_parts := ⟨lit "GET", lit "/a", lit "HTTP/1.1\r\n", by decide⟩
  header_noEnd := by decide
  header_short := by decide
  header_colon := by decide
  cookie_items := by decide

theorem segmentationInvariant_plainCookie : SegmentationInvariant plainCookieHead :=
  (segmentationInvariant_iff plainCookieHead_wellFormed).mpr (by unfold Head.CookiesFit; decide)

/-- A head with a cookie whose value has a percent-encoded semicolon. -/
def encodedCookieHead : Head := ⟨lit "GET /a HTTP/1.1", [lit "Cookie: c=1%3Bd"]⟩

theorem encodedCookieHead_wellFormed : encodedCookieHead.WellFormed where
  requestLine_noEnd := by decide
  requestLine_short := by decide
  requestLine_parts := ⟨lit "GET", lit "/a", lit "HTTP/1.1\r\n", by decide⟩
  header_noEnd := by decide
  header_short := by decide
  header_colon := by decide
  cookie_items := by decide

/-- The encoded semicolon ends the head at the cookie header. -/
theorem not_segmentationInvariant_encodedCookie : ¬ ∀ h : Head, h.WellFormed → SegmentationInvariant h := by
  intro hall
  have hfit := (hall _ encodedCookieHead_wellFormed).cookiesFit encodedCookieHead_wellFormed
  revert hfit
  unfold Head.CookiesFit
  decide

end Gts3.Http
