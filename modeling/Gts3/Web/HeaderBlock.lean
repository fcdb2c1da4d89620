import Gts3.Web.SocketHandshake

/-!
# The header block of a response

Two values of the request stand in headers of the response: `service_io` reflects the origin, and the constructor of
`socket` the first subprotocol.  Header values are percent-decoded, so both can hold line ends, and the block has one
line for each header and cookie if and only if those that stay in it do not (`oneLineEach_iff`).
-/

namespace Gts3.Web

open Lib Lib.Search Lib.Cxx Lib.HttpMessage Lib.WebSocketHandshake Gts3.Http

/-! ## What the server does with a response -/

/-- The header a subprotocol is reflected in. -/
def protocolHeader : Bytes := lit "Sec-WebSocket-Protocol"

/-- The headers with values of the request. -/
def reflectedNames : List Bytes := [allowOrigin, protocolHeader]

/-- What a handler does before the headers are written. -/
inductive ServerOp
  | setHeader (key value : Bytes)
  | unsetHeader (key : Bytes)
  | setCookie (key : Bytes) (cookie : Cookie)
  | unsetCookie (key : Bytes)
  /-- The constructor of `socket`, up to its write. -/
  | openSocket (secWebsocketProtocol : Bytes)

namespace ServerOp

/-- The operation. -/
def apply (r : Response) : ServerOp → Response
  | setHeader key value => r.setHeader key value
  | unsetHeader key => r.unsetHeader key
  | setCookie key cookie => r.setCookie key cookie
  | unsetCookie key => r.unsetCookie key
  | openSocket secWebsocketProtocol => socketHeaders secWebsocketProtocol r

/-- The server's own texts hold no line end. -/
def Clean : ServerOp → Prop
  | setHeader key value => NoLineEnd key ∧ NoLineEnd value
  | unsetHeader _ => True
  | setCookie key cookie => NoLineEnd key ∧ NoLineEnd cookie.value ∧ ∀ a ∈ cookie.attributes.entries, FieldOk a
  | unsetCookie _ => True
  | openSocket _ => True

/-- The operation replaces or removes the header by a text of the server's own. -/
def Overrides (name : Bytes) : ServerOp → Prop
  | setHeader key _ => SameName key name
  | unsetHeader key => SameName key name
  | setCookie _ _ => False
  | unsetCookie _ => False
  | openSocket _ => False

instance (name : Bytes) (op : ServerOp) : Decidable (op.Overrides name) := by
  cases op <;> unfold Overrides <;> infer_instance

end ServerOp

/-- A socket is opened without a subprotocol of the server's own, and the header stays as it is then. -/
def ReflectsProtocol (ops : List ServerOp) : Prop :=
  ∃ pre post, ops = pre ++ .openSocket [] :: post ∧ ∀ op ∈ post, ¬ op.Overrides protocolHeader

/-- The header block has one line for each header and for each cookie. -/
def OneLineEach (r : Response) : Prop :=
  HasLines r.serializeHeadersAndCookies.1
    (r.serializeHeadersAndCookies.2.headers.entries.length + r.serializeHeadersAndCookies.2.cookies.entries.length)

/-- A head that the constructor of `socket` takes for a handshake. -/
def AsksSocket (h : Head) : Prop :=
  (∃ v, h.lastValue (lit "Upgrade") = some v ∧ strToLower v = lit "websocket") ∧
    ∃ v, h.lastValue (lit "Sec-WebSocket-Key") = some v

/-- The first subprotocol that a head asks for, as it is reflected. -/
def askedProtocol (h : Head) : Bytes :=
  ((tokens 44 ((h.lastValue protocolHeader).getD [])).map trimmed).headD []

/-! ## The block -/

/-- The entries of the block, without their line ends. -/
def blockEntries (r : Response) : List Bytes :=
  (r.headers.erase (lit "set-cookie")).entries.map (fun e => e.1 ++ lit ": " ++ e.2) ++
    r.cookies.entries.map Response.cookieText

theorem oneLineEach_iff_entries (r : Response) : OneLineEach r ↔ ∀ e ∈ blockEntries r, find crlf e = none := by
  rw [← hasLines_flatMap_iff]
  have htext : r.serializeHeadersAndCookies.1 = (blockEntries r).flatMap (· ++ crlf) := by
    simp [Response.serializeHeadersAndCookies, Response.serialize, blockEntries, List.flatMap_map, List.append_assoc]
  have hlen : (blockEntries r).length = r.serializeHeadersAndCookies.2.headers.entries.length +
      r.serializeHeadersAndCookies.2.cookies.entries.length := by
    simp [Response.serializeHeadersAndCookies, blockEntries]
  rw [OneLineEach, htext, hlen]

/-- A cookie without line ends makes a text without line ends. -/
theorem noLineEnd_cookieText {e : Bytes × Cookie} (hk : NoLineEnd e.1) (hv : NoLineEnd e.2.value)
    (ha : ∀ a ∈ e.2.attributes.entries, FieldOk a) : NoLineEnd (Response.cookieText e) := by
  have hlit : NoLineEnd (lit "set-cookie: ") ∧ NoLineEnd (lit "=") ∧ NoLineEnd (lit ";") := by decide
  have hattrs : NoLineEnd (e.2.attributes.entries.flatMap (fun a => a.1 ++ lit "=" ++ a.2 ++ lit ";")) := by
    intro c hc
    obtain ⟨a, hmem, hca⟩ := List.mem_flatMap.mp hc
    exact ((((ha a hmem).1.append hlit.2.1).append (ha a hmem).2).append hlit.2.2) c hca
  intro c hc
  exact (((((hlit.1.append hk).append hlit.2.1).append hv).append hlit.2.2).append hattrs) c
    (List.mem_of_mem_dropLast hc)

/-- All texts of a response are free of line ends, but perhaps the values of the reflected headers. -/
structure CleanBut (r : Response) : Prop where
  keys : ∀ e ∈ r.headers.entries, NoLineEnd e.1
  values : ∀ e ∈ r.headers.entries, (∀ name ∈ reflectedNames, ¬ SameName e.1 name) → NoLineEnd e.2
  cookies : ∀ e ∈ r.cookies.entries,
    NoLineEnd e.1 ∧ NoLineEnd e.2.value ∧ ∀ a ∈ e.2.attributes.entries, FieldOk a

theorem CleanBut.oneLineEach_iff_reflected {r : Response} (h : CleanBut r) :
    OneLineEach r ↔ ∀ name ∈ reflectedNames, ∀ v, r.headers.find? name = some v → find crlf v = none := by
  have hcolon : NoLineEnd (lit ": ") := by decide
  have hsc : ∀ name ∈ reflectedNames, ¬ SameName (lit "set-cookie") name := by decide
  rw [oneLineEach_iff_entries]
  constructor
  · intro hall name hname v hv
    have hv : (r.headers.erase (lit "set-cookie")).find? name = some v := by
      rw [OrdMap.find?_erase, if_neg fun hs => hsc name hname ((same_lessCaseInsensitive _ _).mp hs), hv]
    obtain ⟨e, he, -, rfl⟩ := OrdMap.find?_eq_some_mem hv
    have hmem : e.1 ++ lit ": " ++ e.2 ∈ blockEntries r :=
      List.mem_append_left _ (List.mem_map.mpr ⟨e, he, rfl⟩)
    exact (((h.keys e (OrdMap.mem_erase he)).append hcolon).find_crlf_append e.2).mp (hall _ hmem)
  · intro hv x hx
    rcases List.mem_append.mp hx with hx | hx
    · obtain ⟨e, he, rfl⟩ := List.mem_map.mp hx
      have he' := OrdMap.mem_erase he
      refine (((h.keys e he').append hcolon).find_crlf_append e.2).mpr ?_
      by_cases hs : ∃ name ∈ reflectedNames, SameName e.1 name
      · obtain ⟨name, hname, hs⟩ := hs
        exact hv name hname e.2 (OrdMap.find?_of_mem he' ((same_lessCaseInsensitive _ _).mpr hs))
      · exact (h.values e he' fun name hname hsame => hs ⟨name, hname, hsame⟩).find_crlf
    · obtain ⟨e, he, rfl⟩ := List.mem_map.mp hx
      obtain ⟨hk, hval, ha⟩ := h.cookies e he
      exact (noLineEnd_cookieText hk hval ha).find_crlf

/-! ## Texts without line ends -/

theorem CleanBut.setHeader {r : Response} (h : CleanBut r) {key value : Bytes} (hk : NoLineEnd key)
    (hv : (∀ name ∈ reflectedNames, ¬ SameName key name) → NoLineEnd value) : CleanBut (r.setHeader key value) := by
  refine ⟨fun e he => ?_, fun e he hn => ?_, h.cookies⟩
  · rcases OrdMap.mem_assign he with rfl | ⟨-, e', he', h1⟩ | he
    · exact hk
    · exact h1 ▸ h.keys e' he'
    · exact h.keys e he
  · have hfind := OrdMap.find?_of_mem he (Same.refl e.1)
    rw [Response.setHeader, OrdMap.find?_assign] at hfind
    split_ifs at hfind with hs
    · obtain rfl : value = e.2 := by simpa using hfind
      exact hv fun name hname hka => hn name hname (((same_lessCaseInsensitive _ _).mp hs).symm.trans hka)
    · obtain ⟨e', he', hs', h2⟩ := OrdMap.find?_eq_some_mem hfind
      exact h2 ▸ h.values e' he' fun name hname hka =>
        hn name hname (((same_lessCaseInsensitive _ _).mp hs').symm.trans hka)

theorem CleanBut.switchHeaders {r : Response} (h : CleanBut r) (swKey : Bytes) : CleanBut (switchHeaders swKey r) := by
  have haccept : NoLineEnd (sha1Base64 (swKey ++ lit "258EAFA5-E914-47DA-95CA-C5AB0DC85B11")) := by
    rw [sha1Base64, Sha1.base64_eq]
    exact noLineEnd_encode64 _
  exact ((h.setHeader (by decide) fun _ => haccept).setHeader (by decide) fun _ => by decide).setHeader (by decide)
    fun _ => by decide

theorem CleanBut.socketHeaders {r : Response} (h : CleanBut r) (secWebsocketProtocol : Bytes) :
    CleanBut (socketHeaders secWebsocketProtocol r) := by
  rw [Web.socketHeaders]
  cases r.request.headers.find? (lit "Sec-WebSocket-Key") with
  | none => exact h
  | some swKey =>
    simp only
    split_ifs
    · exact h
    · exact (h.setHeader (by decide) fun hn => absurd rfl (hn protocolHeader (by decide))).switchHeaders swKey
    · exact h.switchHeaders swKey
    · exact h

theorem CleanBut.apply {r : Response} (h : CleanBut r) {op : ServerOp} (hop : op.Clean) : CleanBut (op.apply r) := by
  cases op with
  | setHeader key value => exact h.setHeader hop.1 fun _ => hop.2
  | unsetHeader key =>
    exact ⟨fun e he => h.keys e (OrdMap.mem_erase he), fun e he => h.values e (OrdMap.mem_erase he), h.cookies⟩
  | setCookie key cookie =>
    refine ⟨h.keys, h.values, fun e he => ?_⟩
    rcases UMap.mem_assign he with rfl | ⟨h1, h2⟩ | he
    · exact hop
    · obtain ⟨e', he', hke⟩ := h1
      exact ⟨hke ▸ (h.cookies e' he').1, h2 ▸ hop.2⟩
    · exact h.cookies e he
  | unsetCookie key => exact ⟨h.keys, h.values, fun e he => h.cookies e (UMap.mem_erase he)⟩
  | openSocket secWebsocketProtocol => exact h.socketHeaders secWebsocketProtocol

/-- **All operations** of a handler leave the texts clean. -/
theorem CleanBut.foldl {ops : List ServerOp} (hops : ∀ op ∈ ops, op.Clean) {r : Response} (h : CleanBut r) :
    CleanBut (ops.foldl ServerOp.apply r) := by
  induction ops generalizing r with
  | nil => exact h
  | cons op ops ih =>
    exact ih (fun op' hop' => hops op' (List.mem_cons_of_mem _ hop')) (h.apply (hops op List.mem_cons_self))

/-! ## The reflected values -/

theorem find?_switchHeaders (r : Response) (swKey : Bytes) {name : Bytes} (hname : name ∈ reflectedNames) :
    (switchHeaders swKey r).headers.find? name = r.headers.find? name := by
  have hother : ∀ name ∈ reflectedNames, ¬ SameName (lit "Upgrade") name ∧ ¬ SameName Header.connection name ∧
      ¬ SameName (lit "Sec-WebSocket-Accept") name := by decide
  obtain ⟨hupgrade, hconnection, haccept⟩ := hother name hname
  rw [switchHeaders, find?_setHeader, if_neg hupgrade, find?_setHeader, if_neg hconnection, find?_setHeader,
    if_neg haccept]

/-- The constructor of `socket` reflects the subprotocol when the request is a handshake. -/
theorem find?_openSocket {r : Response} (h : handshakes r.request = true) :
    (socketHeaders [] r).headers.find? protocolHeader = some (firstProtocol r.request) := by
  rw [socketHeaders]
  cases hkey : r.request.headers.find? (lit "Sec-WebSocket-Key") with
  | none => simp [handshakes, hkey] at h
  | some swKey =>
    simp only [h, Bool.true_eq_false, if_false, if_true]
    rw [find?_switchHeaders _ _ (by decide), find?_setHeader]
    exact if_pos rfl

theorem find?_socketHeaders (r : Response) {secWebsocketProtocol name : Bytes} (hname : name ∈ reflectedNames)
    (hno : secWebsocketProtocol = [] → SameName protocolHeader name → handshakes r.request = false) :
    (socketHeaders secWebsocketProtocol r).headers.find? name = r.headers.find? name := by
  rw [socketHeaders]
  cases r.request.headers.find? (lit "Sec-WebSocket-Key") with
  | none => rfl
  | some swKey =>
    simp only
    split_ifs with hhandshakes hempty
    · rfl
    · rw [find?_switchHeaders _ _ hname, find?_setHeader]
      exact if_neg fun hsame => hhandshakes (hno hempty hsame)
    · exact find?_switchHeaders r swKey hname
    · rfl

/-- A header that is overridden holds a text of the server's own. -/
theorem ServerOp.Overrides.find? {op : ServerOp} {name : Bytes} (ho : op.Overrides name) (hop : op.Clean)
    (r : Response) : ∀ v, (op.apply r).headers.find? name = some v → NoLineEnd v := by
  intro v hv
  cases op with
  | setHeader key value =>
    have hsame : SameName key name := ho
    rw [ServerOp.apply, find?_setHeader, if_pos hsame] at hv
    exact Option.some.inj hv ▸ hop.2
  | unsetHeader key =>
    rw [ServerOp.apply, Response.unsetHeader, OrdMap.find?_erase,
      if_pos ((same_lessCaseInsensitive key name).mpr ho)] at hv
    cases hv
  | setCookie key cookie => exact ho.elim
  | unsetCookie key => exact ho.elim
  | openSocket secWebsocketProtocol => exact ho.elim

/-- An operation that neither overrides a header nor reflects the subprotocol in it leaves it. -/
theorem find?_apply (r : Response) {op : ServerOp} {name : Bytes} (hname : name ∈ reflectedNames)
    (ho : ¬ op.Overrides name)
    (hno : op = .openSocket [] → SameName protocolHeader name → handshakes r.request = false) :
    (op.apply r).headers.find? name = r.headers.find? name := by
  cases op with
  | setHeader key value =>
    rw [ServerOp.apply, find?_setHeader]
    exact if_neg ho
  | unsetHeader key =>
    rw [ServerOp.apply, Response.unsetHeader, OrdMap.find?_erase,
      if_neg fun hs => ho ((same_lessCaseInsensitive key name).mp hs)]
  | setCookie key cookie => rfl
  | unsetCookie key => rfl
  | openSocket secWebsocketProtocol => exact find?_socketHeaders r hname fun hempty => hno (hempty ▸ rfl)

theorem request_apply (r : Response) (op : ServerOp) : (op.apply r).request = r.request := by
  cases op with
  | openSocket secWebsocketProtocol =>
    rw [ServerOp.apply, socketHeaders]
    cases r.request.headers.find? (lit "Sec-WebSocket-Key") with
    | none => rfl
    | some swKey =>
      simp only
      split_ifs <;> rfl
  | _ => rfl

theorem request_foldl (r : Response) (ops : List ServerOp) : (ops.foldl ServerOp.apply r).request = r.request := by
  induction ops generalizing r with
  | nil => rfl
  | cons op ops ih => rw [List.foldl_cons, ih, request_apply]

/-- **The origin** stays as it is, or is overridden. -/
theorem find?_foldl_origin {ops : List ServerOp} (hops : ∀ op ∈ ops, op.Clean) (r : Response) :
    ((∃ op ∈ ops, op.Overrides allowOrigin) →
      ∀ v, (ops.foldl ServerOp.apply r).headers.find? allowOrigin = some v → NoLineEnd v) ∧
    ((∀ op ∈ ops, ¬ op.Overrides allowOrigin) →
      (ops.foldl ServerOp.apply r).headers.find? allowOrigin = r.headers.find? allowOrigin) := by
  induction ops using List.reverseRecOn with
  | nil => exact ⟨fun ⟨op, hop, _⟩ => absurd hop List.not_mem_nil, fun _ => rfl⟩
  | append_singleton ops op ih =>
    obtain ⟨ihover, ihkept⟩ := ih fun op' hop' => hops op' (List.mem_append_left _ hop')
    have hleft : ¬ op.Overrides allowOrigin → (op.apply (ops.foldl ServerOp.apply r)).headers.find? allowOrigin =
        (ops.foldl ServerOp.apply r).headers.find? allowOrigin := fun ho =>
      find?_apply _ (by decide) ho fun _ hsame => absurd hsame (by decide)
    rw [List.foldl_append, List.foldl_cons, List.foldl_nil]
    constructor
    · rintro ⟨op', hop', ho'⟩
      by_cases ho : op.Overrides allowOrigin
      · exact ho.find? (hops op (by simp)) _
      · rw [hleft ho]
        rcases List.mem_append.mp hop' with hop' | hop'
        · exact ihover ⟨op', hop', ho'⟩
        · exact absurd (List.mem_singleton.mp hop' ▸ ho') ho
    · intro hnot
      rw [hleft (hnot op (by simp)), ihkept fun op' hop' => hnot op' (List.mem_append_left _ hop')]

theorem not_reflectsProtocol_nil : ¬ ReflectsProtocol [] := by
  rintro ⟨pre, post, heq, -⟩
  simp at heq

/-- The last operation decides, or what is in front of it. -/
theorem reflectsProtocol_concat {ops : List ServerOp} {op : ServerOp} :
    ReflectsProtocol (ops ++ [op]) ↔ op = .openSocket [] ∨ ¬ op.Overrides protocolHeader ∧ ReflectsProtocol ops := by
  constructor
  · rintro ⟨pre, post, heq, hpost⟩
    rcases List.eq_nil_or_concat' post with rfl | ⟨post, last, rfl⟩
    · exact Or.inl (List.singleton_inj.mp (List.append_inj' heq rfl).2)
    · rw [← List.cons_append, ← List.append_assoc] at heq
      obtain ⟨hops, hlast⟩ := List.append_inj' heq rfl
      obtain rfl := List.singleton_inj.mp hlast
      exact Or.inr ⟨hpost op (by simp), pre, post, hops, fun op' hop' => hpost op' (List.mem_append_left _ hop')⟩
  · rintro (rfl | ⟨ho, pre, post, rfl, hpost⟩)
    · exact ⟨ops, [], rfl, fun op' hop' => absurd hop' List.not_mem_nil⟩
    · refine ⟨pre, post ++ [op], by simp, fun op' hop' => ?_⟩
      rcases List.mem_append.mp hop' with hop' | hop'
      · exact hpost op' hop'
      · exact List.mem_singleton.mp hop' ▸ ho

/-- **The subprotocol** stands in its header when a socket was opened on a handshake; else nothing of the request
does. -/
theorem find?_foldl_protocol {ops : List ServerOp} (hops : ∀ op ∈ ops, op.Clean) {r : Response}
    (hnone : r.headers.find? protocolHeader = none) :
    (ReflectsProtocol ops → handshakes r.request = true →
      (ops.foldl ServerOp.apply r).headers.find? protocolHeader = some (firstProtocol r.request)) ∧
    (¬ (ReflectsProtocol ops ∧ handshakes r.request = true) →
      ∀ v, (ops.foldl ServerOp.apply r).headers.find? protocolHeader = some v → NoLineEnd v) := by
  induction ops using List.reverseRecOn with
  | nil =>
    refine ⟨fun hreflects => absurd hreflects not_reflectsProtocol_nil, fun _ v hv => ?_⟩
    rw [List.foldl_nil, hnone] at hv
    cases hv
  | append_singleton ops op ih =>
    obtain ⟨ihreflects, ihother⟩ := ih fun op' hop' => hops op' (List.mem_append_left _ hop')
    have hrequest := request_foldl r ops
    rw [List.foldl_append, List.foldl_cons, List.foldl_nil, reflectsProtocol_concat]
    -- an operation that is not the one that reflects the subprotocol
    have hleft : ¬ op.Overrides protocolHeader → ¬ (op = .openSocket [] ∧ handshakes r.request = true) →
        (op.apply (ops.foldl ServerOp.apply r)).headers.find? protocolHeader =
          (ops.foldl ServerOp.apply r).headers.find? protocolHeader := fun ho hnot =>
      find?_apply _ (by decide) ho fun hopen _ => by
        rw [hrequest]
        exact Bool.eq_false_iff.mpr fun hhandshakes => hnot ⟨hopen, hhandshakes⟩
    constructor
    · intro hreflects hhandshakes
      by_cases hopen : op = .openSocket []
      · rw [hopen, ServerOp.apply, find?_openSocket (by rw [hrequest, hhandshakes]), hrequest]
      · obtain ⟨ho, hreflects⟩ := hreflects.resolve_left hopen
        rw [hleft ho fun hboth => hopen hboth.1, ihreflects hreflects hhandshakes]
    · intro hnot
      by_cases ho : op.Overrides protocolHeader
      · exact ho.find? (hops op (by simp)) _
      · rw [hleft ho fun hboth => hnot ⟨Or.inl hboth.1, hboth.2⟩]
        exact ihother fun hboth => hnot ⟨Or.inr ⟨ho, hboth.1⟩, hboth.2⟩

/-! ## The constructor of `service_io` -/

theorem cleanBut_new (request : Request) : CleanBut (Response.new request) := by
  have hentry : ∀ e ∈ (Response.new request).headers.entries,
      e = (Header.contentType, lit "text/plain; charset=utf-8") := by
    intro e he
    simpa [Response.new, OrdMap.assign, OrdMap.insertEntries, OrdMap.empty] using he
  refine ⟨fun e he => ?_, fun e he _ => ?_, by simp [Response.new, UMap.empty]⟩
  · rw [hentry e he]
    decide
  · rw [hentry e he]
    decide

theorem cleanBut_serviceIo (request : Request) : CleanBut (serviceIo request) := by
  have hserver : CleanBut ((Response.new request).setHeader (lit "server") (lit "gts3")) :=
    (cleanBut_new request).setHeader (by decide) fun _ => by decide
  have hclose : ∀ {r : Response}, CleanBut r → CleanBut (if request.version = lit "1.1" then
      if request.keepAlive then r else r.setHeader (lit "connection") (lit "close") else r) := by
    intro r hr
    split_ifs
    · exact hr
    · exact hr.setHeader (by decide) fun _ => by decide
    · exact hr
  unfold serviceIo
  cases request.headers.find? (lit "origin") with
  | none => exact hclose hserver
  | some v =>
    exact hclose (hserver.setHeader (by decide) fun hn => absurd rfl (hn allowOrigin (by decide)))

theorem find?_serviceIo_origin (request : Request) :
    (serviceIo request).headers.find? allowOrigin = request.headers.find? (lit "origin") := by
  have hclose : ∀ {r : Response}, (if request.version = lit "1.1" then
      if request.keepAlive then r else r.setHeader (lit "connection") (lit "close") else r).headers.find? allowOrigin =
      r.headers.find? allowOrigin := by
    intro r
    split_ifs
    · rfl
    · rw [find?_setHeader, if_neg (by decide)]
    · rfl
  have hnone : (Response.new request).headers.find? allowOrigin = none := by
    rw [Response.new, OrdMap.find?_assign, if_neg (by decide), OrdMap.find?_empty]
  unfold serviceIo
  cases request.headers.find? (lit "origin") with
  | none => rw [hclose, find?_setHeader, if_neg (by decide), hnone]
  | some v =>
    rw [hclose, find?_setHeader]
    exact if_pos rfl

/-! ## The lines of the block -/

section Carried

variable {h : Head} {request : Request}

theorem handshakes_iff (hheaders : request.headers = h.request.headers) : handshakes request = true ↔ AsksSocket h := by
  rw [handshakes, hheaders, h.find?_request (by decide), h.find?_request (by decide), Bool.and_eq_true,
    Option.any_eq_true, Option.isSome_iff_exists, AsksSocket]
  simp only [decide_eq_true_eq]

theorem firstProtocol_eq (hheaders : request.headers = h.request.headers) :
    firstProtocol request = askedProtocol h := by
  rw [firstProtocol, hheaders, h.find?_request (by decide), askedProtocol, protocolHeader]

end Carried

/-- **The lines of the block.**  A handler with texts of its own turns the response to an accepted head into a block
with one line for each header and cookie if and only if it overrides the reflected origin, or the origin holds no
line end after percent-decoding, and neither does the subprotocol when it is reflected. -/
theorem oneLineEach_iff {h : Head} (ha : h.Accepted) (tail : Bytes) {ops : List ServerOp}
    (hops : ∀ op ∈ ops, op.Clean) :
    ∃ p request, Parser.new.load (h.bytes ++ tail) = .ok (true, p) ∧ p.context = some request ∧
      (OneLineEach (ops.foldl ServerOp.apply (serviceIo request)) ↔
        ((∃ op ∈ ops, op.Overrides allowOrigin) ∨ ∀ v, h.lastValue (lit "origin") = some v → find crlf v = none) ∧
        (ReflectsProtocol ops → AsksSocket h → find crlf (askedProtocol h) = none)) := by
  obtain ⟨p, hload, hctx⟩ := ha.load tail
  refine ⟨p, _, hload, hctx, ?_⟩
  obtain ⟨-, -, -, -, -, hheaders, -⟩ := h.request.sameHead_finished tail
  have hrequest := request_serviceIo (h.request.finished tail)
  obtain ⟨hoverridden, hkept⟩ := find?_foldl_origin hops (serviceIo (h.request.finished tail))
  have hnone : (serviceIo (h.request.finished tail)).headers.find? protocolHeader = none :=
    find?_serviceIo (h.request.finished tail) (by decide)
  obtain ⟨hreflected, hother⟩ := find?_foldl_protocol hops hnone
  rw [hrequest, firstProtocol_eq hheaders] at hreflected
  rw [hrequest] at hother
  have hsocket := handshakes_iff hheaders
  rw [((cleanBut_serviceIo _).foldl hops).oneLineEach_iff_reflected, reflectedNames, List.forall_mem_cons,
    List.forall_mem_singleton]
  refine and_congr ?_ ?_
  · by_cases ho : ∃ op ∈ ops, op.Overrides allowOrigin
    · exact iff_of_true (fun v hv => (hoverridden ho v hv).find_crlf) (Or.inl ho)
    · rw [hkept fun op hop hover => ho ⟨op, hop, hover⟩, find?_serviceIo_origin, hheaders, h.find?_request (by decide)]
      exact (or_iff_right ho).symm
  · constructor
    · exact fun hall hreflects hasks => hall _ (hreflected hreflects (hsocket.mpr hasks))
    · intro hclean v hv
      by_cases hboth : ReflectsProtocol ops ∧ handshakes (h.request.finished tail) = true
      · rw [hreflected hboth.1 hboth.2] at hv
        exact Option.some.inj hv ▸ hclean hboth.1 (hsocket.mp hboth.2)
      · exact (hother hboth v hv).find_crlf

/-- A handshake with an origin and a subprotocol of one line. -/
def plainOriginHead : Head := ⟨lit "GET /a HTTP/1.1", [lit "Origin: http://b", lit "Upgrade: websocket",
  lit "Sec-WebSocket-Key: k", lit "Sec-WebSocket-Protocol: chat"]⟩

theorem plainOriginHead_accepted : plainOriginHead.Accepted where
  requestLine_noEnd := by decide
  requestLine_isSome := Option.isSome_iff_exists.mp (by decide)
  header_noEnd := by decide
  header_colon := by decide
  cookiesFit := by unfold Head.CookiesFit; decide

theorem oneLineEach_plainOrigin :
    ∃ p request, Parser.new.load (plainOriginHead.bytes ++ []) = .ok (true, p) ∧ p.context = some request ∧
      OneLineEach (ServerOp.apply (serviceIo request) (.openSocket [])) := by
  have hops : ∀ op ∈ [ServerOp.openSocket []], op.Clean := List.forall_mem_singleton.mpr trivial
  obtain ⟨p, request, hload, hctx, hiff⟩ := oneLineEach_iff plainOriginHead_accepted [] hops
  exact ⟨p, request, hload, hctx, hiff.mpr ⟨Or.inr (by decide), fun _ _ => by decide⟩⟩

/-- A head with a percent-encoded line end in its origin. -/
def encodedOriginHead : Head := ⟨lit "GET /a HTTP/1.1", [lit "Origin: b%0d%0aX: y"]⟩

theorem encodedOriginHead_accepted : encodedOriginHead.Accepted where
  requestLine_noEnd := by decide
  requestLine_isSome := Option.isSome_iff_exists.mp (by decide)
  header_noEnd := by decide
  header_colon := by decide
  cookiesFit := by unfold Head.CookiesFit; decide

/-- The encoded line end makes a header line of its own. -/
theorem not_oneLineEach_encodedOrigin :
    ¬ ∀ (h : Head), h.Accepted → ∀ (tail : Bytes) (ops : List ServerOp), (∀ op ∈ ops, op.Clean) →
      ∀ p request, Parser.new.load (h.bytes ++ tail) = .ok (true, p) → p.context = some request →
        OneLineEach (ops.foldl ServerOp.apply (serviceIo request)) := by
  intro hall
  obtain ⟨p, hload, hctx⟩ := encodedOriginHead_accepted.load []
  have hone := hall _ encodedOriginHead_accepted [] [] (by simp) p _ hload hctx
  rw [List.foldl_nil, oneLineEach_iff_entries] at hone
  revert hone
  decide

end Gts3.Web
