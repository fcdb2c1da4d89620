import Gts3.Http.SessionUse
import Gts3.Web.CookieLoop

/-!
# One session for many visits

Every visit of a client calls `request::session(true)`, and `set_cookie_session_id` sets a cookie without a path.  The
client sends it along below the directory of the page of the first visit only, so later visits have the session of the
first one if and only if they are there (`one_session_iff`).
-/

namespace Gts3.Http.SessionCall

open Lib Lib.Cxx

variable {c : SessionCall} {id key : Bytes} {x : ℕ}

/-- Without a cookie there is a new session, and a cookie with its id. -/
theorem session_new (hnone : c.cookies.find? (lit "session_id") = none) (hfresh : c.sessions.get id = none) (now : ℕ) :
    ∃ c', c.session true id now = .ok (c', some c.sessions.impls.length) ∧
      c'.sessions = c.sessions.create id now 0 ∧
      c'.responseCookies =
        c.responseCookies.map fun cookies => cookies.assign (lit "session_id") ⟨id, OrdMap.empty⟩ := by
  have hget := Sessions.get_create c.sessions id now 0
  rw [hfresh, Option.getD_none] at hget
  obtain ⟨impl, himpl, rfl, -⟩ := Sessions.impls_create_self c.sessions id now 0
  refine ⟨({ c with sessions := c.sessions.create impl.id now 0 } : SessionCall).setCookieSessionId impl.id,
    ?_, rfl, rfl⟩
  simp only [session, hnone, Bool.true_eq_false, if_false, makeSession, hget, himpl]

/-- With the cookie of a session that is there, that one is the result. -/
theorem session_found (hinv : c.sessions.Inv) (hkey : c.cookies.find? (lit "session_id") = some key)
    (hget : c.sessions.get key = some x) (id : Bytes) (now : ℕ) :
    ∃ c', c.session true id now = .ok (c', some x) ∧ c'.sessions.Inv ∧
      (∀ key, c'.sessions.get key = c.sessions.get key) ∧ c'.responseCookies = c.responseCookies := by
  obtain ⟨impl, himpl, -⟩ := hinv.hash key x hget
  refine ⟨if impl.isValid then { c with sessions := c.sessions.expand x 0 } else c, ?_, ?_⟩
  · simp only [session, hkey, hget, himpl]
  · split_ifs
    · have hx : x < c.sessions.impls.length := (List.getElem?_eq_some_iff.mp himpl).1
      exact ⟨hinv.next (e := .expand x 0) hx, Sessions.get_expand c.sessions x 0, rfl⟩
    · exact ⟨hinv, fun _ => rfl, rfl⟩

end Gts3.Http.SessionCall

namespace Gts3.Web

open Lib Lib.Search Lib.Cxx Lib.HttpMessage Lib.CookieJar Lib.Overlay Gts3.Http

/-! ## Visits -/

/-- The sessions of the server, and the cookies of a client. -/
structure World where
  sessions : Sessions
  jar : Jar

/-- A visit of the client: the path, the id for a new session, the time, and the session that it gets. -/
structure Visit where
  path : Bytes
  id : Bytes
  now : ℕ
  session : ℕ

/-- What happens at a visit, from the cookies of the client to the bytes that it gets. -/
structure Exchange (https : Bool) (s s' : World) (v : Visit) where
  items : List (Bytes × Bytes)
  sends : s.jar.Sends https v.path items
  head : Head
  wellFormed : head.WellFormed
  carries : CookieRequest head v.path items
  segs : List Bytes
  segs_ne : ∀ g ∈ segs, g ≠ []
  flatten : segs.flatten = head.bytes
  results : List Bool
  parser : Parser
  fed : feed .new segs = .ok (results, parser)
  sock : TcpSocket
  request : Request
  handed : (parser.getRequest (some sock)).1 = some request
  /-- The id is a new one. -/
  fresh : s.sessions.get v.id = none
  call : SessionCall
  called : SessionCall.session ⟨s.sessions, request.cookies, some UMap.empty⟩ true v.id v.now =
    .ok (call, some v.session)
  answer : Answer
  path : answer.path = v.path
  response : answer.response.request = request
  good : answer.Good
  /-- The handler sets no cookie of this name. -/
  cookie : answer.response.cookies.find? (lit "session_id") =
    call.responseCookies.bind fun cookies => cookies.find? (lit "session_id")
  received : answer.Received s.jar s'.jar
  sessions : s'.sessions = call.sessions

/-- Visits of the client, and whatever else happens to sessions in between, as long as no session of the client ends. -/
inductive Visits (https : Bool) : World → List Visit → World → Prop
  | nil (s : World) : Visits https s [] s
  | visit {s s' t : World} {v : Visit} {vs : List Visit} (e : Exchange https s s' v) (rest : Visits https s' vs t) :
    Visits https s (v :: vs) t
  | other {s t : World} {vs : List Visit} (e : SessionEvent) (enabled : Sessions.system.Enabled s.sessions e)
    (stays : ∀ path stored, s.jar.find? (lit "session_id", path) = some stored →
      (s.sessions.next e).get stored.value = s.sessions.get stored.value)
    (rest : Visits https { s with sessions := s.sessions.next e } vs t) : Visits https s vs t

/-! ## The cookie of the session -/

theorem Answer.lastValue_kept (a : Answer) (name path : Bytes) :
    lastValue (name, path) a.kept = (a.response.cookies.find? name).bind fun cookie =>
      if pathOf (defaultPath a.path) cookie = path then
        some ⟨cookie.value, (cookie.attributes.find? (lit "Secure")).isSome⟩ else none := by
  by_cases h : ∃ cookie, a.response.cookies.find? name = some cookie ∧ pathOf (defaultPath a.path) cookie = path
  · obtain ⟨cookie, hfind, rfl⟩ := h
    rw [hfind, Option.bind_some, if_pos rfl]
    refine lastValue_of_forall (List.mem_map_of_mem (mem_kept.mpr ⟨cookie, hfind, rfl, rfl⟩)) ?_
    rintro ⟨key, stored⟩ hkept rfl
    obtain ⟨cookie', hfind', -, rfl⟩ := mem_kept.mp hkept
    rw [Option.some.inj (hfind.symm.trans hfind')]
  · have hnone : lastValue (name, path) a.kept = none := by
      refine lastValue_eq_none_iff.mpr fun hmem => ?_
      obtain ⟨⟨_, stored⟩, hkept, rfl⟩ := List.mem_map.mp hmem
      obtain ⟨cookie, hfind, hpath, -⟩ := mem_kept.mp hkept
      exact h ⟨cookie, hfind, hpath⟩
    rw [hnone, eq_comm, Option.bind_eq_none_iff]
    intro cookie hfind
    exact if_neg fun hpath => h ⟨cookie, hfind, hpath⟩

/-- The client has one cookie for a session, for this directory. -/
structure Held (s : World) (dir id : Bytes) (x : ℕ) : Prop where
  inv : s.sessions.Inv
  plain : PlainJar s.jar
  get : s.sessions.get id = some x
  cookie : ∀ path, s.jar.find? (lit "session_id", path) = if path = dir then some ⟨id, false⟩ else none

variable {https : Bool} {s s' t : World} {v : Visit} {vs : List Visit} {dir id : Bytes} {x : ℕ}

theorem Exchange.cookies (e : Exchange https s s' v) (hplain : PlainJar s.jar) (name value : Bytes) :
    e.request.cookies.find? name = some value ↔ Shortest s.jar.find? https v.path name value := by
  obtain ⟨bs, p, hfeed, hrequest, hcookies⟩ :=
    e.carries.read hplain e.sends e.wellFormed e.segs_ne e.flatten e.sock
  obtain ⟨-, rfl⟩ := Prod.mk.inj (Except.ok.inj (e.fed.symm.trans hfeed))
  rw [Option.some.inj (e.handed.symm.trans hrequest)]
  exact hcookies name value

/-- Without a cookie for the page, the server reads none. -/
theorem Exchange.cookies_none (e : Exchange https s s' v) (hplain : PlainJar s.jar) {name : Bytes}
    (h : ∀ path stored, s.jar.find? (name, path) = some stored → ¬ PathMatches path v.path) :
    e.request.cookies.find? name = none := by
  refine Option.eq_none_iff_forall_ne_some.mpr fun value hvalue => ?_
  obtain ⟨path, stored, hfind, hsendable, -⟩ := (e.cookies hplain name value).mp hvalue
  exact h path stored hfind hsendable.1

/-- **A visit without a cookie** gets a new session, with a cookie for its directory. -/
theorem Exchange.new (e : Exchange https s s' v) (hinv : s.sessions.Inv)
    (hnone : e.request.cookies.find? (lit "session_id") = none) :
    v.session = s.sessions.impls.length ∧ s'.sessions.Inv ∧ s'.sessions.get v.id = some v.session ∧
      ∀ path, s'.jar.find? (lit "session_id", path) =
        if defaultPath v.path = path then some ⟨v.id, false⟩ else s.jar.find? (lit "session_id", path) := by
  obtain ⟨c, hcall, hsessions, hcookies⟩ := SessionCall.session_new
    (c := ⟨s.sessions, e.request.cookies, some UMap.empty⟩) hnone e.fresh v.now
  obtain ⟨hc, hx⟩ := Prod.mk.inj (Except.ok.inj (e.called.symm.trans hcall))
  have hsession : v.session = s.sessions.impls.length := Option.some.inj hx
  have hworld : s'.sessions = s.sessions.create v.id v.now 0 := by rw [e.sessions, hc, hsessions]
  have hset : e.answer.response.cookies.find? (lit "session_id") = some ⟨v.id, OrdMap.empty⟩ := by
    rw [e.cookie, hc, hcookies, Option.map_some, Option.bind_some, UMap.find?_assign, if_pos rfl]
  refine ⟨hsession, hworld ▸ hinv.create e.fresh v.now 0, ?_, fun path => ?_⟩
  · rw [hworld, Sessions.get_create, e.fresh, Option.getD_none, hsession]
  · have hpath : pathOf (defaultPath e.answer.path) ⟨v.id, OrdMap.empty⟩ = defaultPath v.path := by
      rw [pathOf, OrdMap.find?_empty, e.path]
    rw [e.received.find? e.good, Answer.lastValue_kept, hset, Option.bind_some, hpath, OrdMap.find?_empty]
    split_ifs
    · rfl
    · exact Option.none_or

/-- **A visit with the cookie** gets the session, and the cookies for it stay. -/
theorem Exchange.again (e : Exchange https s s' v) (hinv : s.sessions.Inv)
    (hcookie : e.request.cookies.find? (lit "session_id") = some id) (hget : s.sessions.get id = some x) :
    v.session = x ∧ s'.sessions.Inv ∧ (∀ key, s'.sessions.get key = s.sessions.get key) ∧
      ∀ path, s'.jar.find? (lit "session_id", path) = s.jar.find? (lit "session_id", path) := by
  obtain ⟨c, hcall, hsessions, hkeep, hcookies⟩ := SessionCall.session_found
    (c := ⟨s.sessions, e.request.cookies, some UMap.empty⟩) hinv hcookie hget v.id v.now
  obtain ⟨hc, hx⟩ := Prod.mk.inj (Except.ok.inj (e.called.symm.trans hcall))
  have hset : e.answer.response.cookies.find? (lit "session_id") = none := by
    rw [e.cookie, hc, hcookies]
    rfl
  refine ⟨Option.some.inj hx, ?_, ?_, fun path => ?_⟩
  · rw [e.sessions, hc]
    exact hsessions
  · rw [e.sessions, hc]
    exact hkeep
  · rw [e.received.find? e.good, Answer.lastValue_kept, hset]
    exact Option.none_or

theorem Exchange.held (e : Exchange https s s' v) (hinv : s.sessions.Inv) (hjar : s.jar = UMap.empty) :
    Held s' (defaultPath v.path) v.id v.session := by
  have hplain : PlainJar s.jar := hjar ▸ plainJar_empty
  have hnone : e.request.cookies.find? (lit "session_id") = none := by
    refine e.cookies_none hplain fun path stored hfind => ?_
    rw [hjar] at hfind
    cases hfind
  obtain ⟨-, hinv', hget, hcookie⟩ := e.new hinv hnone
  refine ⟨hinv', e.received.plainJar e.good hplain, hget, fun path => ?_⟩
  rw [hcookie, hjar]
  exact if_congr eq_comm rfl rfl

/-- **One visit** gets the session exactly below the directory. -/
theorem Held.exchange (h : Held s dir id x) (e : Exchange https s s' v) :
    (v.session = x ↔ PathMatches dir v.path) ∧ (PathMatches dir v.path → Held s' dir id x) := by
  by_cases hpath : PathMatches dir v.path
  · have hcookie : e.request.cookies.find? (lit "session_id") = some id := by
      refine (e.cookies h.plain _ id).mpr ⟨dir, ⟨id, false⟩, by rw [h.cookie, if_pos rfl], ⟨hpath, nofun⟩, rfl, ?_⟩
      rintro path stored hfind -
      rw [h.cookie, Option.ite_none_right_eq_some] at hfind
      exact hfind.1 ▸ le_rfl
    obtain ⟨hsession, hinv, hget, hjar⟩ := e.again h.inv hcookie h.get
    refine ⟨iff_of_true hsession hpath, fun _ => ⟨hinv, e.received.plainJar e.good h.plain, ?_, fun path => ?_⟩⟩
    · rw [hget, h.get]
    · rw [hjar, h.cookie]
  · have hnone : e.request.cookies.find? (lit "session_id") = none := by
      refine e.cookies_none h.plain fun path stored hfind hmatches => ?_
      rw [h.cookie, Option.ite_none_right_eq_some] at hfind
      exact hpath (hfind.1 ▸ hmatches)
    obtain ⟨hsession, -⟩ := e.new h.inv hnone
    obtain ⟨impl, himpl, -⟩ := h.inv.hash id x h.get
    have hx : x < s.sessions.impls.length := (List.getElem?_eq_some_iff.mp himpl).1
    exact ⟨iff_of_false (by omega) hpath, fun hpath' => absurd hpath' hpath⟩

theorem Held.other (h : Held s dir id x) {e : SessionEvent} (he : Sessions.system.Enabled s.sessions e)
    (hstays : ∀ path stored, s.jar.find? (lit "session_id", path) = some stored →
      (s.sessions.next e).get stored.value = s.sessions.get stored.value) :
    Held { s with sessions := s.sessions.next e } dir id x where
  inv := h.inv.next he
  plain := h.plain
  get := (hstays dir ⟨id, false⟩ (by rw [h.cookie, if_pos rfl])).trans h.get
  cookie := h.cookie

/-- **All visits** get the session exactly when all are below the directory. -/
theorem Held.visits (hvisits : Visits https s vs t) (h : Held s dir id x) :
    (∀ v ∈ vs, v.session = x) ↔ ∀ v ∈ vs, PathMatches dir v.path := by
  induction hvisits with
  | nil => exact iff_of_true (fun v hv => absurd hv List.not_mem_nil) fun v hv => absurd hv List.not_mem_nil
  | visit e rest ih =>
    obtain ⟨hsession, hheld⟩ := h.exchange e
    rw [List.forall_mem_cons, List.forall_mem_cons, hsession]
    exact and_congr_right fun hpath => ih (hheld hpath)
  | other e he hstays rest ih => exact ih (h.other he hstays)

/-- **One session for all visits** of a client: its later visits get the session of the first one if and only if all
their paths are below the directory of the first. -/
theorem one_session_iff (hvisits : Visits https s (v :: vs) t) (hinv : Sessions.system.Reachable s.sessions)
    (hjar : s.jar = UMap.empty) :
    (∀ v' ∈ vs, v'.session = v.session) ↔ ∀ v' ∈ vs, PathMatches (defaultPath v.path) v'.path := by
  obtain ⟨visits, hlist⟩ : ∃ visits, visits = v :: vs := ⟨_, rfl⟩
  rw [← hlist] at hvisits
  induction hvisits with
  | nil => cases hlist
  | visit e rest _ =>
    obtain ⟨rfl, rfl⟩ := List.cons.inj hlist
    exact Held.visits rest (e.held (Sessions.reachable_inv hinv) hjar)
  | other e he _ _ ih => exact ih (hinv.next he) hjar hlist

/-! ## Two visits -/

/-- The first request of a client. -/
def firstHead : Head := ⟨lit "GET /a HTTP/1.1", [lit "Host: b"]⟩

/-- The second one, for a page of the same directory. -/
def secondHead : Head := ⟨lit "GET /b HTTP/1.1", [lit "Host: b", lit "Cookie: session_id=k"]⟩

/-- A socket that nothing has been written to. -/
def openSocket : TcpSocket := ⟨true, 1024, [], [], []⟩

/-- What the client has in between. -/
def firstJar : Jar := UMap.empty.assign (lit "session_id", lit "/") ⟨lit "k", false⟩

/-- The answer to the first request. -/
def firstAnswer : Answer :=
  answerWith (lit "/a") (carried firstHead openSocket) (UMap.empty.assign (lit "session_id") ⟨lit "k", OrdMap.empty⟩)

/-- The answer to the second request. -/
def secondAnswer : Answer := answerWith (lit "/b") (carried secondHead openSocket) UMap.empty

theorem firstHead_wellFormed : firstHead.WellFormed where
  requestLine_noEnd := by decide
  requestLine_short := by decide
  requestLine_parts := ⟨lit "GET", lit "/a", lit "HTTP/1.1\r\n", by decide⟩
  header_noEnd := by decide
  header_short := by decide
  header_colon := by decide
  cookie_items := by decide

theorem secondHead_wellFormed : secondHead.WellFormed where
  requestLine_noEnd := by decide
  requestLine_short := by decide
  requestLine_parts := ⟨lit "GET", lit "/b", lit "HTTP/1.1\r\n", by decide⟩
  header_noEnd := by decide
  header_short := by decide
  header_colon := by decide
  cookie_items := by decide

theorem plainItem_session : PlainItem (lit "session_id", lit "k") :=
  ⟨by decide, by decide, by decide, Trim.trim_eq_self_iff.mp (by decide)⟩

theorem firstAnswer_good : firstAnswer.Good :=
  answerWith_good (by decide) ⟨openSocket, rfl, rfl⟩ rfl (List.forall_mem_singleton.mpr plainItem_session)
    (List.forall_mem_singleton.mpr fun p hp => absurd hp List.not_mem_nil)

theorem secondAnswer_good : secondAnswer.Good :=
  answerWith_good (by decide) ⟨openSocket, rfl, rfl⟩ rfl (fun e he => absurd he List.not_mem_nil)
    fun e he => absurd he List.not_mem_nil

theorem firstAnswer_received : firstAnswer.Received UMap.empty firstJar := by
  have hjar : Jar.receive (defaultPath firstAnswer.path) UMap.empty firstAnswer.fields = firstJar := by
    decide
  exact hjar ▸ firstAnswer_good.received rfl UMap.empty

theorem firstHead_request : CookieRequest firstHead (lit "/a") [] where
  target := ⟨lit "GET", [], lit "HTTP/1.1", by decide, Or.inl rfl⟩
  headers := ⟨[lit "Host: b"], [], by decide, not_readsAs_host⟩

theorem secondHead_request : CookieRequest secondHead (lit "/b") [(lit "session_id", lit "k")] where
  target := ⟨lit "GET", [], lit "HTTP/1.1", by decide, Or.inl rfl⟩
  headers := ⟨[lit "Host: b"], [], by decide, not_readsAs_host⟩

/-- Two visits of a client that is new to the server. -/
theorem exists_visits : ∃ t, Visits true ⟨Sessions.new, UMap.empty⟩
    [⟨lit "/a", lit "k", 1000, 0⟩, ⟨lit "/b", lit "m", 1010, 0⟩] t := by
  have hsends : Jar.Sends UMap.empty true (lit "/a") [] := ⟨[], List.Perm.nil, List.Pairwise.nil, rfl⟩
  have hsends' : firstJar.Sends true (lit "/b") [(lit "session_id", lit "k")] :=
    ⟨firstJar.entries, List.Perm.of_eq (by decide), by decide, by decide⟩
  have hplain := firstAnswer_received.plainJar firstAnswer_good plainJar_empty
  obtain ⟨bs, p, hfed, hhanded, -⟩ := firstHead_request.read plainJar_empty hsends firstHead_wellFormed
    (by decide : ∀ g ∈ [firstHead.bytes], g ≠ []) (by simp) openSocket
  obtain ⟨bs', p', hfed', hhanded', -⟩ := secondHead_request.read hplain hsends' secondHead_wellFormed
    (by decide : ∀ g ∈ [secondHead.bytes], g ≠ []) (by simp) openSocket
  have hnew : Sessions.new.Inv := Sessions.reachable_inv .init
  obtain ⟨call, hcalled, hsessions, hset⟩ := SessionCall.session_new
    (c := ⟨Sessions.new, (carried firstHead openSocket).cookies, some UMap.empty⟩) (by decide)
    (by decide : Sessions.new.get (lit "k") = none) 1000
  have hinv : call.sessions.Inv := hsessions ▸ hnew.create (by decide) 1000 0
  have hget : call.sessions.get (lit "k") = some 0 := by
    rw [hsessions]
    decide
  have hfresh : call.sessions.get (lit "m") = none := by
    rw [hsessions]
    decide
  obtain ⟨call', hcalled', -, -, hset'⟩ := SessionCall.session_found
    (c := ⟨call.sessions, (carried secondHead openSocket).cookies, some UMap.empty⟩) hinv
    (by decide : (carried secondHead openSocket).cookies.find? (lit "session_id") = some (lit "k")) hget
    (lit "m") 1010
  have hfirst : Exchange true ⟨Sessions.new, UMap.empty⟩ ⟨call.sessions, firstJar⟩ ⟨lit "/a", lit "k", 1000, 0⟩ :=
    { items := [], sends := hsends, head := firstHead, wellFormed := firstHead_wellFormed, carries := firstHead_request
      segs := [firstHead.bytes], segs_ne := by decide, flatten := by simp
      results := bs ++ [true], parser := p, fed := hfed, sock := openSocket, request := _, handed := hhanded
      fresh := by decide, call := call, called := hcalled
      answer := firstAnswer, path := rfl, response := rfl, good := firstAnswer_good
      cookie := by rw [hset]; rfl
      received := firstAnswer_received, sessions := rfl }
  have hsecond : Exchange true ⟨call.sessions, firstJar⟩
      ⟨call'.sessions, firstJar.receive (defaultPath secondAnswer.path) secondAnswer.fields⟩
      ⟨lit "/b", lit "m", 1010, 0⟩ :=
    { items := _, sends := hsends', head := secondHead, wellFormed := secondHead_wellFormed
      carries := secondHead_request
      segs := [secondHead.bytes], segs_ne := by decide, flatten := by simp
      results := bs' ++ [true], parser := p', fed := hfed', sock := openSocket, request := _, handed := hhanded'
      fresh := hfresh, call := call', called := hcalled'
      answer := secondAnswer, path := rfl, response := rfl, good := secondAnswer_good
      cookie := by rw [hset']; rfl
      received := secondAnswer_good.received rfl firstJar, sessions := rfl }
  exact ⟨_, .visit hfirst (.visit hsecond (.nil _))⟩

/-- Both visits get the first session. -/
theorem one_session_two : (∀ v ∈ [(⟨lit "/b", lit "m", 1010, 0⟩ : Visit)], v.session = 0) ↔
    ∀ v ∈ [(⟨lit "/b", lit "m", 1010, 0⟩ : Visit)], PathMatches (defaultPath (lit "/a")) v.path := by
  obtain ⟨t, hvisits⟩ := exists_visits
  exact one_session_iff hvisits .init rfl

end Gts3.Web
