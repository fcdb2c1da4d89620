import Gts3.Http.FieldLine
import Gts3.Http.ResponseFraming
import Gts3.Lib.WebSocketHandshake
import Gts3.Sha1Text
import Gts3.Value
import Gts3.Web.Routes
import Gts3.Web.ServiceIo

/-!
# `gts/web/socket.cpp`: the opening handshake

`newSocket` is the constructor of `socket`, and `answer` what the server does with a request for a path of
`new_websocket_connection`, from `method_call` to the end of the response.  A client that follows the protocol takes
the answer if and only if the server reads `Connection` and `Upgrade` as one word each and a subprotocol was asked for
(`handshake_iff`); the function of the plugin is invoked without the last of these.
-/

namespace Gts3.Http

/-- `hs_switching_protocols`. -/
def Status.switchingProtocols : Status := ⟨101, by decide⟩

/-- `response::take`; `none` when it ends the program. -/
def Response.take (r : Response) : Option (TcpSocket × Response) :=
  if r.request.isValid = false then none
  else r.request.socket.map fun sock => (sock, { r with request := { r.request with socket := none } })

end Gts3.Http

namespace Gts3.Web

open Lib Lib.Search Lib.Cxx Lib.HttpMessage Lib.WebSocketHandshake Gts3.Http

/-! ## The constructor -/

/-- What the constructor of `socket` comes to. -/
inductive Handshake (m : DataModel)
  /-- It throws. -/
  | thrown (what : Bytes) (response : Response)
  /-- It has the socket of the request, and the version. -/
  | opened (sock : TcpSocket) (version : IntType.int.Val m) (response : Response)
  /-- `take` ends the program. -/
  | fatal (response : Response)
  deriving DecidableEq

/-- `sha1(text).finalize().base64()`. -/
def sha1Base64 (text : Bytes) : Bytes := Sha1.base64 (Sha1Impl.new.append (.text text)).finalize.state

/-- The loop over the protocols of the client. -/
def trimProtocols : List Bytes → Run (List Bytes)
  | [] => .ok []
  | sswp :: swpList => do
    let sswp ← strTrimmed sswp
    let swpList ← trimProtocols swpList
    .ok (sswp :: swpList)

/-- `header_or("Sec-WebSocket-Version", version_unknown)`. -/
def webSocketVersion (m : DataModel) (headers : Headers) : IntType.int.Val m :=
  Value.get m .int ((headers.find? (lit "Sec-WebSocket-Version")).getD (lit "-1"))

/-- The three headers of the switch. -/
def switchHeaders (swKey : Bytes) (resp : Response) : Response :=
  let accept := sha1Base64 (swKey ++ lit "258EAFA5-E914-47DA-95CA-C5AB0DC85B11")
  let resp := resp.setHeader (lit "Sec-WebSocket-Accept") accept
  let resp := resp.setHeader Header.connection (lit "upgrade")
  resp.setHeader (lit "Upgrade") (lit "websocket")

/-- The end of the constructor: the answer is written, and the socket is taken. -/
def switchProtocols (m : DataModel) (swKey : Bytes) (resp : Response) : Run (Handshake m) := do
  let resp ← ((switchHeaders swKey resp).setStatus .switchingProtocols).write []
  let version := webSocketVersion m resp.request.headers
  match resp.take with
  | none => .ok (.fatal resp)
  | some (sock, resp) => .ok (.opened sock version resp)

/-- `socket(req, resp, sec_websocket_protocol)`, where `resp` is the response to `req`. -/
def newSocket (m : DataModel) (resp : Response) (secWebsocketProtocol : Bytes) : Run (Handshake m) :=
  let headers := resp.request.headers
  let notSupported := Handshake.thrown (lit "gts::websocket: Protocol upgrade is not supported.") resp
  match headers.find? (lit "Upgrade") with
  | none => .ok notSupported
  | some upgrade =>
    if strToLower upgrade ≠ lit "websocket" then .ok notSupported
    else
      match headers.find? (lit "Sec-WebSocket-Key") with
      | none => do
        let resp ← (resp.setStatus .forbidden).write (lit "'Sec-WebSocket-Key' not found.")
        .ok (.thrown (lit "gts::websocket: http header 'Sec-WebSocket-Key' not found.") resp)
      | some swKey => do
        let swpList ← strSplit ((headers.find? (lit "Sec-WebSocket-Protocol")).getD []) [44] true
        let swpList ← trimProtocols swpList
        if secWebsocketProtocol = [] then
          switchProtocols m swKey (resp.setHeader (lit "Sec-WebSocket-Protocol") (swpList.headD []))
        else if secWebsocketProtocol ∉ swpList then do
          let resp ← (resp.setStatus .forbidden).write (lit "'Sec-WebSocket-Protocol' not supported.")
          .ok (.thrown (lit "gts::websocket: 'Sec-WebSocket-Protocol' not supported.") resp)
        else switchProtocols m swKey resp

/-- The first subprotocol that the request asks for. -/
def firstProtocol (request : Request) : Bytes :=
  ((tokens 44 ((request.headers.find? (lit "Sec-WebSocket-Protocol")).getD [])).map trimmed).headD []

/-- The response that the constructor writes, but for its status. -/
def socketHeaders (secWebsocketProtocol : Bytes) (resp : Response) : Response :=
  match resp.request.headers.find? (lit "Sec-WebSocket-Key") with
  | none => resp
  | some swKey =>
    if handshakes resp.request = false then resp
    else if secWebsocketProtocol = [] then
      switchHeaders swKey (resp.setHeader (lit "Sec-WebSocket-Protocol") (firstProtocol resp.request))
    else if secWebsocketProtocol ∉
        (tokens 44 ((resp.request.headers.find? (lit "Sec-WebSocket-Protocol")).getD [])).map trimmed then resp
    else switchHeaders swKey resp

/-! ## Functions with a socket -/

/-- The parameters that functions of `new_websocket_connection` have. -/
def websocketSignatures : List (List ParameterType) :=
  [[.socketPtr], [.socketPtr, .environments], [.environments, .socketPtr]]

/-- What `method_call` comes to, what has been written, and the response it leaves, when there is one. -/
structure Called where
  outcome : CallOutcome
  sent : Bytes
  response : Option Response
  deriving DecidableEq

/-- `method_call` of a function with a socket. -/
def connect (m : DataModel) (method : RttrMethod) (resp : Response) : Run Called :=
  let p1Type := parameterType resp.request
  if p1Type = .socketPtr then do
    match ← newSocket m resp [] with
    | .thrown _ resp => .ok ⟨.ignored, resp.out, some resp⟩
    | .fatal resp => .ok ⟨.aborted, resp.out, none⟩
    | .opened sock _ resp => .ok ⟨.invoked method, sock.sent, some resp⟩
  else
    match PluginsService.methodCall method p1Type resp.request with
    | .aborted => .ok ⟨.aborted, resp.out, none⟩
    | outcome => .ok ⟨outcome, resp.out, some resp⟩

/-- A request for a path of `new_websocket_connection`, up to the end of its response. -/
def answer (m : DataModel) (method : RttrMethod) (request : Request) : Run (CallOutcome × Bytes) := do
  let called ← connect m method (serviceIo request)
  match called.response with
  | none => .ok (called.outcome, called.sent)
  | some resp => do
    let resp ← resp.destroy none
    .ok (called.outcome, if resp.request.socket = none then called.sent else resp.out)

/-! ## The constructor on a response that nothing has been written to -/

/-- Nothing has been written, and every header can stand on a line of its own. -/
structure Unwritten (resp : Response) : Prop where
  valid : resp.request.isValid = true
  cookies : resp.cookies = UMap.empty
  headersWrited : resp.headersWrited = false
  out : resp.out = []
  version : resp.request.version = lit "1.1"
  fields : ∀ e ∈ resp.headers.entries, FieldOk e ∧ 58 ∉ e.1

variable {m : DataModel} {resp : Response} {key value : Bytes}

theorem fields_assign {headers : Headers} (h : ∀ e ∈ headers.entries, FieldOk e ∧ 58 ∉ e.1)
    (hkey : NoLineEnd key ∧ 58 ∉ key) (hvalue : NoLineEnd value) :
    ∀ e ∈ (headers.assign key value).entries, FieldOk e ∧ 58 ∉ e.1 := by
  intro e he
  rcases OrdMap.mem_assign he with rfl | ⟨hsame, e', he', hname⟩ | he
  · exact ⟨⟨hkey.1, hvalue⟩, hkey.2⟩
  · obtain ⟨hok, hcolon⟩ := h e' he'
    exact ⟨⟨hname ▸ hok.1, hsame ▸ hvalue⟩, hname ▸ hcolon⟩
  · exact h e he

theorem Unwritten.setHeader (h : Unwritten resp) (hkey : NoLineEnd key ∧ 58 ∉ key) (hvalue : NoLineEnd value) :
    Unwritten (resp.setHeader key value) :=
  { h with fields := fields_assign h.fields hkey hvalue }

theorem Unwritten.setStatus (h : Unwritten resp) (status : Status) : Unwritten (resp.setStatus status) := { h with }

/-- The response to a request without an origin that breaks its line. -/
theorem unwritten_serviceIo {request : Request} (hvalid : request.isValid = true)
    (hversion : request.version = lit "1.1") (hsent : ∀ sock, request.socket = some sock → sock.sent = [])
    (horigin : ∀ v, request.headers.find? (lit "origin") = some v → NoLineEnd v) : Unwritten (serviceIo request) := by
  have hnew : Unwritten (Response.new request) := by
    refine ⟨hvalid, rfl, rfl, ?_, hversion, ?_⟩
    · rw [Response.out, Response.new]
      cases hsock : request.socket with
      | none => rfl
      | some sock => exact hsent sock hsock
    · exact fields_assign (by simp [OrdMap.empty]) (by decide) (by decide)
  have hserver : Unwritten ((Response.new request).setHeader (lit "server") (lit "gts3")) :=
    hnew.setHeader (by decide) (by decide)
  rw [serviceIo, if_pos hversion]
  cases ho : request.headers.find? (lit "origin") with
  | none =>
    simp only
    split_ifs
    · exact hserver
    · exact hserver.setHeader (by decide) (by decide)
  | some v =>
    have hallow : Unwritten (((Response.new request).setHeader (lit "server") (lit "gts3")).setHeader allowOrigin v) :=
      hserver.setHeader (by decide) (horigin v ho)
    simp only
    split_ifs
    · exact hallow
    · exact hallow.setHeader (by decide) (by decide)

theorem find?_serviceIo (request : Request) {name : Bytes}
    (hname : ∀ key ∈ [Header.contentType, lit "server", allowOrigin, lit "connection"], ¬ SameName key name) :
    (serviceIo request).headers.find? name = none := by
  simp only [List.forall_mem_cons] at hname
  obtain ⟨htype, hserver, horigin, hconnection, -⟩ := hname
  have hnew : ((Response.new request).setHeader (lit "server") (lit "gts3")).headers.find? name = none := by
    have htypes := find?_setHeader { Response.new request with headers := OrdMap.empty } Header.contentType name
      (lit "text/plain; charset=utf-8")
    rw [if_neg htype] at htypes
    rw [find?_setHeader, if_neg hserver]
    exact htypes
  rw [serviceIo]
  cases request.headers.find? (lit "origin") <;> simp only <;> split_ifs <;>
    simp only [find?_setHeader, horigin, hconnection, if_false, hnew]

/-- The headers as `write` completes them for a body of this size. -/
def preparedHeaders (resp : Response) (size : ℕ) : Headers :=
  (({ resp with headersWrited := true } : Response).prepareHeaders size).headers

theorem prepareHeaders_eq (resp : Response) (size : ℕ) :
    ({ resp with headersWrited := true } : Response).prepareHeaders size =
      { resp with headersWrited := true, headers := preparedHeaders resp size } := by
  unfold preparedHeaders Response.prepareHeaders
  split_ifs <;> rfl

theorem preparedHeaders_fields (h : ∀ e ∈ resp.headers.entries, FieldOk e ∧ 58 ∉ e.1) (size : ℕ) :
    ∀ e ∈ (preparedHeaders resp size).entries, FieldOk e ∧ 58 ∉ e.1 := by
  have hset : ∀ e ∈ (resp.headers.assign Header.contentLength (formatNat 10 size)).entries, FieldOk e ∧ 58 ∉ e.1 :=
    fields_assign h (by decide) (noLineEnd_length size)
  unfold preparedHeaders Response.prepareHeaders
  split_ifs
  · exact h
  · exact h
  · exact hset
  · exact hset

theorem find?_preparedHeaders (resp : Response) (size : ℕ) {name : Bytes}
    (hname : ¬ SameName Header.contentLength name) :
    (preparedHeaders resp size).find? name = resp.headers.find? name := by
  have hset := find?_setHeader resp Header.contentLength name (formatNat 10 size)
  rw [if_neg hname] at hset
  unfold preparedHeaders Response.prepareHeaders
  split_ifs
  · rfl
  · rfl
  · exact hset
  · exact hset

/-- A block of a status line and fields is a head. -/
theorem isHead_block {version : Bytes} (hversion : version = lit "1.1") (status : Status) {headers : Headers}
    (hfields : ∀ e ∈ headers.entries, FieldOk e ∧ 58 ∉ e.1) (body : Bytes) :
    IsHead (block (statusLine version status.code (statusDescription status)) headers.entries ++ body) status.code
      headers.entries := by
  subst hversion
  exact ⟨lit "1.1", statusDescription status, body, by decide, noLineEnd_statusLine (by decide) status, hfields, rfl⟩

/-- The answer when nothing but the headers is written. -/
theorem Unwritten.write_nil (h : Unwritten resp) :
    ∃ resp', resp.write [] = .ok resp' ∧ resp'.request.isValid = true ∧ resp'.request.headers = resp.request.headers ∧
      IsHead resp'.out resp.status.code ((preparedHeaders resp 0).erase (lit "set-cookie")).entries := by
  have hconn : (({ resp with headersWrited := true } : Response).prepareHeaders 0).Connected := by
    rw [prepareHeaders_eq]
    exact Response.connected_of_isValid h.valid
  have hcookies : (({ resp with headersWrited := true } : Response).prepareHeaders 0).cookies = UMap.empty := by
    rw [prepareHeaders_eq]
    exact h.cookies
  have hwrite := Response.write_first h.headersWrited [] rfl hconn hcookies
  rw [if_neg (by simp)] at hwrite
  refine ⟨_, hwrite, ?_, ?_, ?_⟩
  · rw [Response.headersSent, Response.put_isValid, List.length_nil, prepareHeaders_eq]
    exact h.valid
  · rw [List.length_nil, prepareHeaders_eq]
    rfl
  · have hout : ({ resp with headersWrited := true, headers := preparedHeaders resp 0 } : Response).out = [] := h.out
    have hfields : ∀ e ∈ ((preparedHeaders resp 0).erase (lit "set-cookie")).entries, FieldOk e ∧ 58 ∉ e.1 :=
      fun e he => preparedHeaders_fields h.fields 0 e (OrdMap.mem_erase he)
    rw [List.length_nil, hconn.out_headersSent, prepareHeaders_eq, hout, List.nil_append]
    have hhead := isHead_block h.version resp.status hfields []
    rwa [List.append_nil] at hhead

/-- The headers of the default answer. -/
def defaultHeaders (resp : Response) : Headers :=
  ((resp.headers.assign Header.contentLength (formatNat 10 (Response.defaultBody resp.status).length)).erase
    Header.transferEncoding).erase (lit "set-cookie")

theorem defaultHeaders_fields (h : Unwritten resp) : ∀ e ∈ (defaultHeaders resp).entries, FieldOk e ∧ 58 ∉ e.1 := by
  intro e he
  exact fields_assign h.fields (by decide) (noLineEnd_length _) e (OrdMap.mem_erase (OrdMap.mem_erase he))

theorem Unwritten.writeDefault (h : Unwritten resp) :
    ∃ resp', resp.writeDefault none = .ok resp' ∧ resp'.Connected ∧ resp'.headersContains Header.contentLength = true ∧
      IsHead resp'.out resp.status.code (defaultHeaders resp).entries := by
  set body := Response.defaultBody resp.status
  set sized : Response := { resp with
    headersWrited := true
    headers := (resp.headers.assign Header.contentLength (formatNat 10 body.length)).erase Header.transferEncoding }
    with hsized
  have hconn : sized.Connected := Response.connected_of_isValid h.valid
  have hout : sized.out = [] := h.out
  have hlength : sized.headersSent.headers.find? Header.contentLength = some (formatNat 10 body.length) := by
    rw [Response.headersSent_find? _ (by decide), hsized, OrdMap.find?_erase, if_neg (by decide)]
    exact OrdMap.find?_assign_self _ _ _
  refine ⟨sized.headersSent.put body, ?_, hconn.headersSent.put _, ?_, ?_⟩
  · rw [Response.writeDefault, if_neg (by rw [h.headersWrited]; decide)]
    change (do
      let r ← sized.sendHeaders
      r.send body) = _
    rw [hconn.sendHeaders_eq h.cookies, ok_bind, hconn.headersSent.send_eq]
  · rw [Response.put_headersContains, Response.headersContains, hlength]
    rfl
  · rw [hconn.headersSent.out_put, hconn.out_headersSent, hout, List.nil_append]
    exact isHead_block h.version resp.status (defaultHeaders_fields h) body

/-- A response that nothing was written to is answered by default, and not with a switch of protocols. -/
theorem Unwritten.destroy (h : Unwritten resp) (hstatus : resp.status.code ≠ 101) :
    ∃ resp' code fields, resp.destroy none = .ok resp' ∧ resp'.Connected ∧ IsHead resp'.out code fields ∧
      code ≠ 101 := by
  obtain ⟨status, hcode, hif⟩ : ∃ status : Status, status.code ≠ 101 ∧
      (if resp.request.websocket then resp.setStatus .notAcceptable else resp) = resp.setStatus status := by
    split_ifs
    · exact ⟨.notAcceptable, by decide, rfl⟩
    · exact ⟨resp.status, hstatus, rfl⟩
  obtain ⟨resp', hwrite, hconn, hlength, hhead⟩ := (h.setStatus status).writeDefault
  refine ⟨resp', _, _, ?_, hconn, hhead, hcode⟩
  rw [Response.destroy, if_neg (by simp [h.valid]), if_pos h.headersWrited, hif, hwrite]
  exact chunkEnd_nothing (Or.inl hlength) OrdMap.empty

/-! ## What the constructor writes -/

/-- `sha1` and `base64` make the value that the client expects. -/
theorem sha1Base64_eq {text : Bytes} (hlen : text.length < 2 ^ 61) :
    sha1Base64 text = Rfc4648.encode64 (digestBytes (Fips180.sha1 text)) := by
  have habsorbed := Sha1Impl.absorbed_new.append (.text text)
  have hwords := habsorbed.finalize (by simpa [Sha1Impl.Append.bytes] using hlen)
  rw [List.nil_append] at hwords
  have hbytes : ∀ state : Vector UInt32 5, Sha1.stateBytes state = digestBytes (Sha1.words state) := by
    intro state
    rw [Sha1.stateBytes, Sha1.toList_eq]
    rfl
  rw [sha1Base64, Sha1.base64_eq, hbytes, hwords]
  rfl

theorem trimProtocols_eq (swpList : List Bytes) : trimProtocols swpList = .ok (swpList.map trimmed) := by
  induction swpList with
  | nil => rfl
  | cons sswp swpList ih => rw [trimProtocols, strTrimmed_eq, ok_bind, ih, ok_bind, List.map_cons]

/-- **The switch of protocols**: the socket with the answer is taken, and the headers of the answer are those of the
response with three more. -/
theorem Unwritten.switchProtocols (h : Unwritten resp) (m : DataModel) (swKey : Bytes) :
    ∃ sock version resp' headers, Web.switchProtocols m swKey resp = .ok (.opened sock version resp') ∧
      resp'.request.socket = none ∧ IsHead sock.sent 101 (headers : Headers).entries ∧
      headers.find? (lit "Upgrade") = some (lit "websocket") ∧ headers.find? (lit "Connection") = some (lit "upgrade") ∧
      headers.find? (lit "Sec-WebSocket-Accept") = some (sha1Base64 (swKey ++ guid)) ∧
      ∀ name, (∀ key ∈ [lit "Upgrade", Header.connection, lit "Sec-WebSocket-Accept", Header.contentLength,
        lit "set-cookie"], ¬ SameName key name) → headers.find? name = resp.headers.find? name := by
  set accept := sha1Base64 (swKey ++ guid) with haccept
  have hnoEnd : NoLineEnd accept := by
    rw [haccept, sha1Base64, Sha1.base64_eq]
    exact noLineEnd_encode64 _
  set resp₃ := ((resp.setHeader (lit "Sec-WebSocket-Accept") accept).setHeader Header.connection
    (lit "upgrade")).setHeader (lit "Upgrade") (lit "websocket") with hresp₃
  have hresp : Unwritten resp₃ :=
    ((h.setHeader (by decide) hnoEnd).setHeader (by decide) (by decide)).setHeader (by decide) (by decide)
  obtain ⟨resp₄, hwrite, hvalid, hheaders, hhead⟩ := (hresp.setStatus .switchingProtocols).write_nil
  obtain ⟨sock, hsock, -⟩ := Response.connected_of_isValid hvalid
  have htake : resp₄.take = some (sock, { resp₄ with request := { resp₄.request with socket := none } }) := by
    rw [Response.take, if_neg (by simp [hvalid]), hsock]
    rfl
  have hsent : sock.sent = resp₄.out := by
    rw [Response.out, hsock]
  have hfind : ∀ name, ¬ SameName (lit "set-cookie") name → ¬ SameName Header.contentLength name →
      ((preparedHeaders (resp₃.setStatus .switchingProtocols) 0).erase (lit "set-cookie")).find? name =
        resp₃.headers.find? name := by
    intro name hcookie hlength
    rw [Response.find?_erase_setCookie _ hcookie, find?_preparedHeaders _ _ hlength]
    rfl
  refine ⟨sock, webSocketVersion m resp₄.request.headers,
    { resp₄ with request := { resp₄.request with socket := none } },
    (preparedHeaders (resp₃.setStatus .switchingProtocols) 0).erase (lit "set-cookie"), ?_, rfl, hsent ▸ hhead,
    ?_, ?_, ?_, ?_⟩
  · have hrun : Web.switchProtocols m swKey resp = (do
        let resp ← (resp₃.setStatus .switchingProtocols).write []
        match resp.take with
        | none => .ok (.fatal resp)
        | some (sock, resp') => .ok (.opened sock (webSocketVersion m resp.request.headers) resp')) := rfl
    simp only [hrun, hwrite, ok_bind, htake]
  · rw [hfind _ (by decide) (by decide), hresp₃, find?_setHeader, if_pos (by decide)]
  · rw [hfind _ (by decide) (by decide), hresp₃, find?_setHeader, if_neg (by decide), find?_setHeader,
      if_pos (by decide)]
  · rw [hfind _ (by decide) (by decide), hresp₃, find?_setHeader, if_neg (by decide), find?_setHeader,
      if_neg (by decide), find?_setHeader, if_pos (by decide)]
  · intro name hname
    simp only [List.forall_mem_cons] at hname
    obtain ⟨hupgrade, hconnection, hacc, hlength, hcookie, -⟩ := hname
    rw [hfind _ hcookie hlength, hresp₃, find?_setHeader, if_neg hupgrade, find?_setHeader, if_neg hconnection,
      find?_setHeader, if_neg hacc]

/-- What the constructor has written when it ends. -/
def Handshake.sent : Handshake m → Bytes
  | .thrown _ resp => resp.out
  | .opened sock _ _ => sock.sent
  | .fatal resp => resp.out

theorem switchProtocols_block {swKey : Bytes} {outcome : Handshake m}
    (h : Web.switchProtocols m swKey resp = .ok outcome) :
    ∃ resp', ((switchHeaders swKey resp).setStatus .switchingProtocols).write [] = .ok resp' ∧
      outcome.sent = resp'.out := by
  rw [Web.switchProtocols] at h
  obtain ⟨resp', hwrite, h⟩ := run_bind_eq_ok.mp h
  refine ⟨resp', hwrite, ?_⟩
  simp only [Response.take] at h
  split_ifs at h with hvalid
  · obtain rfl := Except.ok.inj h
    rfl
  · cases hsock : resp'.request.socket with
    | none =>
      simp only [hsock, Option.map_none] at h
      obtain rfl := Except.ok.inj h
      rfl
    | some sock =>
      simp only [hsock, Option.map_some] at h
      obtain rfl := Except.ok.inj h
      rw [Handshake.sent, Response.out, hsock]

/-- **The block** that the constructor writes is the one of `socketHeaders`. -/
theorem newSocket_block {secWebsocketProtocol : Bytes} {outcome : Handshake m}
    (h : newSocket m resp secWebsocketProtocol = .ok outcome) :
    (∃ what, outcome = .thrown what resp) ∨ ∃ status body resp',
      ((socketHeaders secWebsocketProtocol resp).setStatus status).write body = .ok resp' ∧
        outcome.sent = resp'.out := by
  have hthrown : ∀ {what text : Bytes}, (do
      let resp ← (resp.setStatus .forbidden).write text
      .ok (Handshake.thrown what resp)) = .ok outcome →
      ∃ status body resp', (resp.setStatus status).write body = .ok resp' ∧ outcome.sent = resp'.out := by
    intro what text hrun
    obtain ⟨resp', hwrite, hrun⟩ := run_bind_eq_ok.mp hrun
    obtain rfl := Except.ok.inj hrun
    exact ⟨_, _, resp', hwrite, rfl⟩
  simp only [newSocket, strSplit_tokens, ok_bind, trimProtocols_eq] at h
  rw [socketHeaders, handshakes]
  cases hupgrade : resp.request.headers.find? (lit "Upgrade") with
  | none =>
    rw [hupgrade] at h
    exact Or.inl ⟨_, (Except.ok.inj h).symm⟩
  | some upgrade =>
    simp only [hupgrade] at h
    by_cases hwebsocket : strToLower upgrade = lit "websocket"
    · right
      rw [if_neg (not_not.mpr hwebsocket)] at h
      cases hkey : resp.request.headers.find? (lit "Sec-WebSocket-Key") with
      | none =>
        simp only [hkey] at h
        exact hthrown h
      | some swKey =>
        simp only [hkey] at h
        simp only [Option.any_some, hwebsocket, decide_true, Option.isSome_some, Bool.and_self, Bool.true_eq_false,
          if_false]
        split_ifs at h ⊢ with hempty hmem
        · exact ⟨_, _, switchProtocols_block h⟩
        · exact ⟨_, _, switchProtocols_block h⟩
        · exact hthrown h
    · rw [if_pos hwebsocket] at h
      exact Or.inl ⟨_, (Except.ok.inj h).symm⟩

/-! ## What `method_call` comes to -/

/-- The first write of a response without a coding. -/
theorem write_plain (resp : Response) (hvalid : resp.request.isValid = true) (hcookies : resp.cookies = UMap.empty)
    (hwrited : resp.headersWrited = false) (hplain : resp.headers.find? Header.transferEncoding = none) (body : Bytes) :
    ∃ resp', resp.write body = .ok resp' ∧ resp'.request.isValid = true := by
  have hconn :
      ({ resp with headersWrited := true, headers := preparedHeaders resp body.length } : Response).Connected :=
    Response.connected_of_isValid hvalid
  have hchunked : ({ resp with headersWrited := true, headers := preparedHeaders resp body.length } :
      Response).isChunked = false := by
    have hnone : (preparedHeaders resp body.length).find? Header.transferEncoding = none :=
      (find?_preparedHeaders resp body.length (by decide)).trans hplain
    rw [Response.isChunked, Response.transferEncodingChunked]
    simp only [hnone, ite_self]
  have hwrite := Response.write_first hwrited body (prepareHeaders_eq resp body.length) hconn hcookies
  rw [hwrite, hchunked, hconn.headersSent.writeBody_plain]
  have hsent : (Response.headersSent { resp with headersWrited := true, headers := preparedHeaders resp body.length }
      ).request.isValid = true := by
    rw [Response.headersSent, Response.put_isValid]
    exact hvalid
  split_ifs
  · exact ⟨_, rfl, by rw [Response.put_isValid, hsent]⟩
  · exact ⟨_, rfl, hsent⟩

theorem switchProtocols_opened (resp : Response) (hvalid : resp.request.isValid = true)
    (hcookies : resp.cookies = UMap.empty)
    (hwrited : resp.headersWrited = false) (hplain : resp.headers.find? Header.transferEncoding = none)
    (m : DataModel) (swKey : Bytes) :
    ∃ sock version resp', Web.switchProtocols m swKey resp = .ok (.opened sock version resp') := by
  set accept := sha1Base64 (swKey ++ guid) with haccept
  set resp₃ := ((resp.setHeader (lit "Sec-WebSocket-Accept") accept).setHeader Header.connection
    (lit "upgrade")).setHeader (lit "Upgrade") (lit "websocket") with hresp₃
  have hplain₃ : resp₃.headers.find? Header.transferEncoding = none := by
    rw [hresp₃, find?_setHeader, if_neg (by decide), find?_setHeader, if_neg (by decide), find?_setHeader,
      if_neg (by decide), hplain]
  obtain ⟨resp₄, hwrite, hvalid₄⟩ :=
    write_plain (resp₃.setStatus .switchingProtocols) hvalid hcookies hwrited hplain₃ []
  obtain ⟨sock, hsock, -⟩ := Response.connected_of_isValid hvalid₄
  have htake : resp₄.take = some (sock, { resp₄ with request := { resp₄.request with socket := none } }) := by
    rw [Response.take, if_neg (by simp [hvalid₄]), hsock]
    rfl
  have hrun : Web.switchProtocols m swKey resp = (do
      let resp ← (resp₃.setStatus .switchingProtocols).write []
      match resp.take with
      | none => .ok (.fatal resp)
      | some (sock, resp') => .ok (.opened sock (webSocketVersion m resp.request.headers) resp')) := rfl
  rw [hrun, hwrite, ok_bind, htake]
  exact ⟨_, _, _, rfl⟩

/-- The constructor has a socket when the headers are a handshake, and throws otherwise. -/
theorem newSocket_cases (hvalid : resp.request.isValid = true) (hcookies : resp.cookies = UMap.empty)
    (hwrited : resp.headersWrited = false) (hplain : resp.headers.find? Header.transferEncoding = none)
    (m : DataModel) :
    (handshakes resp.request = true ∧ ∃ sock version resp', newSocket m resp [] = .ok (.opened sock version resp')) ∨
      (handshakes resp.request = false ∧ ∃ what resp', newSocket m resp [] = .ok (.thrown what resp')) := by
  rw [handshakes, newSocket]
  cases hupgrade : resp.request.headers.find? (lit "Upgrade") with
  | none => exact Or.inr ⟨rfl, _, _, rfl⟩
  | some upgrade =>
    by_cases hwebsocket : strToLower upgrade = lit "websocket"
    · cases hkey : resp.request.headers.find? (lit "Sec-WebSocket-Key") with
      | none =>
        obtain ⟨resp', hwrite, -⟩ := write_plain (resp.setStatus .forbidden) hvalid hcookies hwrited hplain
          (lit "'Sec-WebSocket-Key' not found.")
        refine Or.inr ⟨Bool.and_false _, lit "gts::websocket: http header 'Sec-WebSocket-Key' not found.", resp', ?_⟩
        rw [hwrite, ok_bind]
        exact if_neg (not_not.mpr hwebsocket)
      | some swKey =>
        refine Or.inl ⟨by simp [hwebsocket], ?_⟩
        have hopened : ∀ first, ∃ sock version resp', Web.switchProtocols m swKey
            (resp.setHeader (lit "Sec-WebSocket-Protocol") first) = .ok (.opened sock version resp') := by
          intro first
          refine switchProtocols_opened (resp.setHeader _ first) hvalid hcookies hwrited ?_ m swKey
          rw [find?_setHeader, if_neg (by decide), hplain]
        obtain ⟨sock, version, resp', hrun⟩ := hopened ((((tokens 44
          ((resp.request.headers.find? (lit "Sec-WebSocket-Protocol")).getD [])).map trimmed).headD []))
        refine ⟨sock, version, resp', ?_⟩
        simp only [strSplit_tokens, ok_bind, trimProtocols_eq]
        rw [if_neg (not_not.mpr hwebsocket), if_pos trivial, hrun]
    · refine Or.inr ⟨by simp [hwebsocket], _, _, if_pos hwebsocket⟩

/-- **`method_call`** comes to what the registry says of it. -/
theorem connect_methodCall (m : DataModel) {request : Request} (hvalid : request.isValid = true) {method : RttrMethod}
    (hsignature : method.function.parameters ∈ websocketSignatures) :
    ∃ called, connect m method (serviceIo request) = .ok called ∧
      called.outcome = PluginsService.methodCall method (parameterType request) request := by
  by_cases htype : parameterType request = .socketPtr
  · have hplain : (serviceIo request).headers.find? Header.transferEncoding = none :=
      find?_serviceIo request (by decide)
    have hcall : PluginsService.methodCall method .socketPtr request =
        if handshakes request then .invoked method else .ignored := by
      simp only [websocketSignatures, List.mem_cons, List.not_mem_nil, or_false] at hsignature
      rw [PluginsService.methodCall]
      rcases hsignature with hone | htwo | htwo
      · simp [hone]
      · cases hhandshakes : handshakes request <;> simp [htwo]
      · cases hhandshakes : handshakes request <;> simp [htwo]
    have hrequest := request_serviceIo request
    have hcases := newSocket_cases (hrequest.symm ▸ hvalid : (serviceIo request).request.isValid = true)
      (cookies_serviceIo request) (headersWrited_serviceIo request) hplain m
    rw [hrequest] at hcases
    rw [connect, hrequest, if_pos htype, htype, hcall]
    rcases hcases with ⟨hhandshakes, sock, version, resp', hrun⟩ | ⟨hhandshakes, what, resp', hrun⟩
    · rw [hrun, hhandshakes]
      exact ⟨_, rfl, rfl⟩
    · rw [hrun, hhandshakes]
      exact ⟨_, rfl, rfl⟩
  · rw [connect, request_serviceIo, if_neg htype]
    cases hcall : PluginsService.methodCall method (parameterType request) request <;> exact ⟨_, rfl, rfl⟩

/-! ## A client of the protocol -/

/-- The head has the fields of the offer, no other line is read as one of them, and the origin is no two lines. -/
structure Carries (h : Head) (o : Offer) : Prop where
  version : h.request.version = lit "1.1"
  sent : ∀ f ∈ o.fields, ∃ l ∈ h.headers, l ++ crlf = fieldLine f
  other : ∀ l ∈ h.headers, ∀ name ∈ Offer.names, ∀ v, ReadsAs (l ++ crlf) name v →
    ∃ f ∈ o.fields, l ++ crlf = fieldLine f
  origin : ∀ v, h.lastValue (lit "origin") = some v → NoLineEnd v

/-- The server reads `Connection` and `Upgrade` as one word each. -/
def Upgrades (o : Offer) : Prop :=
  strToLower (fromPercentEncoding (trimmed o.connection)) = lit "upgrade" ∧
    strToLower (fromPercentEncoding (trimmed o.upgrade)) = lit "websocket"

variable {h : Head} {o : Offer}

theorem names_plain : ∀ name ∈ Offer.names, 58 ∉ name ∧ trimmed name = name := by decide

theorem fields_names (o : Offer) : o.fields.map Prod.fst <+: Offer.names := by
  rw [Offer.fields]
  split_ifs
  · exact ⟨[lit "Sec-WebSocket-Protocol"], rfl⟩
  · exact ⟨[], rfl⟩

theorem field_name {f : Bytes × Bytes} (hf : f ∈ o.fields) : f.1 ∈ Offer.names :=
  (fields_names o).subset (List.mem_map_of_mem hf)

theorem field_unique {f f' : Bytes × Bytes} (hf : f ∈ o.fields) (hf' : f' ∈ o.fields) (hname : SameName f.1 f'.1) :
    f = f' := by
  have hnames : ∀ name ∈ Offer.names, ∀ name' ∈ Offer.names, SameName name name' → name = name' := by decide
  have hnodup : (o.fields.map Prod.fst).Nodup :=
    (by decide : Offer.names.Nodup).sublist (fields_names o).sublist
  exact List.inj_on_of_nodup_map hnodup hf hf' (hnames _ (field_name hf) _ (field_name hf') hname)

/-- What the server reads of a field of the offer. -/
theorem Carries.lastValue (hw : h.WellFormed) (hc : Carries h o) {f : Bytes × Bytes} (hf : f ∈ o.fields) :
    Short f.2 ∧ h.lastValue f.1 = some (fromPercentEncoding (trimmed f.2)) := by
  have hread : ∀ l ∈ h.headers, ∀ f ∈ o.fields, l ++ crlf = fieldLine f →
      Short f.2 ∧ ReadsAs (l ++ crlf) f.1 (fromPercentEncoding (trimmed f.2)) := by
    intro l hl f hf hline
    obtain ⟨hcolon, htrim⟩ := names_plain f.1 (field_name hf)
    have hshort : Short f.2 := by
      have hlen := hw.header_short l hl
      have heq := congrArg List.length hline
      simp only [fieldLine, List.length_append, Short] at heq ⊢
      have hcrlf : crlf.length = 2 := rfl
      omega
    exact ⟨hshort, hline ▸ readsAs_fieldLine hcolon htrim hshort⟩
  obtain ⟨l, hl, hline⟩ := hc.sent f hf
  obtain ⟨hshort, hreads⟩ := hread l hl f hf hline
  refine ⟨hshort, Head.lastValue_eq_some ⟨l, hl, hreads⟩ fun l' hl' value' hreads' => ?_⟩
  obtain ⟨f', hf', hline'⟩ := hc.other l' hl' f.1 (field_name hf) value' hreads'
  obtain ⟨-, hown⟩ := hread l' hl' f' hf' hline'
  obtain rfl := field_unique hf hf' (hreads'.sameName hown)
  exact hreads'.unique hown

theorem Carries.find? (hw : h.WellFormed) (hc : Carries h o) {f : Bytes × Bytes} (hf : f ∈ o.fields) :
    h.request.headers.find? f.1 = some (fromPercentEncoding (trimmed f.2)) := by
  have hcookie : ∀ name ∈ Offer.names, ¬ SameName (lit "cookie") name := by decide
  rw [h.find?_request (hcookie _ (field_name hf)), (hc.lastValue hw hf).2]

theorem Carries.find?_key (hw : h.WellFormed) (hc : Carries h o) :
    h.request.headers.find? (lit "Sec-WebSocket-Key") = some o.key := by
  have hf : (lit "Sec-WebSocket-Key", o.key) ∈ o.fields := by simp [Offer.fields]
  have hplain : ∀ c ∈ o.key, isBlank c = false ∧ c ≠ 37 := Rfc4648.forall_mem_encode64 (by decide) (by decide) o.nonce
  have hread := hc.find? hw hf
  rwa [fromPercentEncoding_trimmed (hc.lastValue hw hf).1 (Trim.trimmed_of_forall fun c hc => (hplain c hc).1)
    fun hmem => (hplain 37 hmem).2 rfl] at hread

theorem isToken_plain {p : Bytes} (hp : IsToken p) : p ≠ [] ∧ 44 ∉ p ∧ 37 ∉ p ∧ Trim.Trimmed isBlank p := by
  refine ⟨hp.1, fun h => (hp.2 44 h).2.2.2 (by decide), fun h => (hp.2 37 h).2.2.1 rfl,
    Trim.trimmed_of_forall fun c hc => ?_⟩
  have hge := (hp.2 c hc).1
  rw [isBlank, Bool.and_eq_false_iff, decide_eq_false_iff_not, decide_eq_false_iff_not]
  right
  rw [UInt8.le_iff_toNat_le] at hge ⊢
  have h33 : (33 : UInt8).toNat = 33 := rfl
  have h32 : (32 : UInt8).toNat = 32 := rfl
  omega

theorem not_mem_intercalate {c : UInt8} {sep : Bytes} {ts : List Bytes} (hsep : c ∉ sep) (h : ∀ t ∈ ts, c ∉ t) :
    c ∉ sep.intercalate ts := by
  induction ts with
  | nil => exact List.not_mem_nil
  | cons t ts ih =>
    obtain ⟨ht, hts⟩ := List.forall_mem_cons.mp h
    cases ts with
    | nil => rwa [List.intercalate_singleton]
    | cons t' ts =>
      rw [List.intercalate_cons_cons]
      simp [ht, hsep, ih hts]

/-- The first protocol that the server reads is the first one of the client. -/
theorem Carries.protocols (hw : h.WellFormed) (hc : Carries h o) :
    ((tokens 44 ((h.request.headers.find? (lit "Sec-WebSocket-Protocol")).getD [])).map trimmed).headD [] =
      o.protocols.headD [] := by
  have hname : ¬ SameName (lit "cookie") (lit "Sec-WebSocket-Protocol") := by decide
  cases hp : o.protocols with
  | nil =>
    have hnone : h.lastValue (lit "Sec-WebSocket-Protocol") = none := by
      refine Head.lastValue_eq_none fun l hl v hread => ?_
      obtain ⟨f, hf, hline⟩ := hc.other l hl _ (by decide) v hread
      have hnames := names_plain f.1 (field_name hf)
      have hown : ReadsAs (fieldLine f) f.1 (fromPercentEncoding (trimmed f.2)) :=
        readsAs_fieldLine hnames.1 hnames.2 (hc.lastValue hw hf).1
      have hsame := hread.sameName (hline ▸ hown)
      have hother : ∀ name ∈ o.fields.map Prod.fst, ¬ SameName (lit "Sec-WebSocket-Protocol") name := by
        rw [Offer.fields, if_pos hp]
        exact (by decide : ∀ name ∈ [lit "Upgrade", lit "Connection", lit "Sec-WebSocket-Key",
          lit "Sec-WebSocket-Version"], ¬ SameName (lit "Sec-WebSocket-Protocol") name)
      exact hother f.1 (List.mem_map_of_mem hf) hsame
    rw [h.find?_request hname, hnone]
    rfl
  | cons p ps =>
    have htoken : ∀ t ∈ p :: ps, IsToken t := fun t ht => o.protocol_token t (hp ▸ ht)
    obtain ⟨hne, hcomma, -, htrim⟩ := isToken_plain (htoken p List.mem_cons_self)
    have hf : (lit "Sec-WebSocket-Protocol", (lit ", ").intercalate o.protocols) ∈ o.fields := by
      simp [Offer.fields, hp]
    have hread := hc.find? hw hf
    rw [hp] at hf hread
    have hshort : Short ((lit ", ").intercalate (p :: ps)) := (hc.lastValue hw hf).1
    have hpercent : 37 ∉ (lit ", ").intercalate (p :: ps) :=
      not_mem_intercalate (by decide) fun t ht => (isToken_plain (htoken t ht)).2.2.1
    have htrimmed : Trim.Trimmed isBlank ((lit ", ").intercalate (p :: ps)) :=
      Trim.trimmed_intercalate fun t ht => ⟨(isToken_plain (htoken t ht)).1, (isToken_plain (htoken t ht)).2.2.2⟩
    rw [fromPercentEncoding_trimmed hshort htrimmed hpercent] at hread
    have hp' : trimmed p = p := by
      have hlen : p.length ≤ ((lit ", ").intercalate (p :: ps)).length := by
        cases ps with
        | nil => rw [List.intercalate_singleton]
        | cons p' ps => simp [List.intercalate_cons_cons]
      rw [trimmed_eq_trim (lt_of_le_of_lt hlen (lt_trans hshort (by decide))), htrim.trim_eq]
    rw [hread, Option.getD_some, List.headD_cons]
    cases ps with
    | nil => rw [List.intercalate_singleton, tokens_of_not_mem hcomma hne, List.map_cons, List.headD_cons, hp']
    | cons p' ps =>
      have hsplit : (lit ", ").intercalate (p :: p' :: ps) = p ++ 44 :: (32 :: (lit ", ").intercalate (p' :: ps)) := by
        rw [List.intercalate_cons_cons, List.append_assoc]
        rfl
      rw [hsplit, tokens_append_cons hcomma hne, List.map_cons, List.headD_cons, hp']

/-! ## The answer -/

theorem hasField_of_find? {headers : Headers} {name value : Bytes} {P : Bytes → Prop}
    (hfind : headers.find? name = some value) (hvalue : P value) : HasField headers.entries name P := by
  refine ⟨?_, fun f hf hname => ?_⟩
  · obtain ⟨e, he, hsame, -⟩ := OrdMap.find?_eq_some_mem hfind
    exact ⟨e, he, (same_lessCaseInsensitive _ _).mp hsame⟩
  · have hown := OrdMap.find?_of_mem hf ((same_lessCaseInsensitive _ _).mpr hname)
    rw [hfind] at hown
    exact Option.some.inj hown ▸ hvalue

/-- The client takes the fields of the answer when it has asked for a protocol. -/
theorem acceptsFields_iff {headers : Headers} (hupgrade : headers.find? (lit "Upgrade") = some (lit "websocket"))
    (hconnection : headers.find? (lit "Connection") = some (lit "upgrade"))
    (haccept : headers.find? (lit "Sec-WebSocket-Accept") = some (acceptValue o.key))
    (hextension : headers.find? (lit "Sec-WebSocket-Extensions") = none)
    (hprotocol : headers.find? (lit "Sec-WebSocket-Protocol") = some (o.protocols.headD [])) :
    o.AcceptsFields 101 headers.entries ↔ o.protocols ≠ [] := by
  constructor
  · rintro haccepts hnil
    obtain ⟨e, he, hsame, hvalue⟩ := OrdMap.find?_eq_some_mem hprotocol
    have hmem := haccepts.protocol e he ((same_lessCaseInsensitive _ _).mp hsame)
    rw [hnil] at hmem
    exact absurd hmem List.not_mem_nil
  · intro hne
    refine ⟨rfl, hasField_of_find? hupgrade rfl, hasField_of_find? hconnection ⟨lit "upgrade", by decide, by decide⟩,
      hasField_of_find? haccept rfl, fun f hf hname => ?_, fun f hf hname => ?_⟩
    · exact OrdMap.find?_eq_none.mp hextension f hf ((same_lessCaseInsensitive _ _).mpr hname)
    · refine (hasField_of_find? (P := (· ∈ o.protocols)) hprotocol ?_).2 f hf hname
      obtain ⟨p, ps, hp⟩ := List.exists_cons_of_ne_nil hne
      simp [hp]

/-- The request that the parser hands out. -/
def carried (h : Head) (sock : TcpSocket) : Request := { h.request.finished [] with socket := some sock }

theorem carried_headers (h : Head) (sock : TcpSocket) : (carried h sock).headers = h.request.headers :=
  (h.request.sameHead_finished []).2.2.2.2.2.1

theorem carried_version (h : Head) (sock : TcpSocket) : (carried h sock).version = h.request.version :=
  (h.request.sameHead_finished []).2.1

/-- `call` takes the request for a handshake when it reads the two headers as one word each. -/
theorem Carries.parameterType (hw : h.WellFormed) (hc : Carries h o) {request : Request}
    (hheaders : request.headers = h.request.headers) :
    (Web.parameterType request = .socketPtr ↔ Upgrades o) ∧ (Web.parameterType request ≠ .socketPtr →
      Web.parameterType request = .response) := by
  have hconnection := hc.find? hw (f := (lit "Connection", o.connection)) (by simp [Offer.fields])
  have hupgrade := hc.find? hw (f := (lit "Upgrade", o.upgrade)) (by simp [Offer.fields])
  refine ⟨?_, fun hne => (PluginsService.parameterType_eq request).resolve_right hne⟩
  rw [Web.parameterType, hheaders, Header.connection, hconnection, hupgrade]
  simp only [Upgrades]
  split_ifs <;> simp [*]

/-- **The constructor** for an offer whose two headers are one word each. -/
theorem Carries.newSocket (hw : h.WellFormed) (hc : Carries h o) (hupgrades : Upgrades o) {request : Request}
    (hheaders : request.headers = h.request.headers) (hunwritten : Unwritten (serviceIo request)) (m : DataModel) :
    ∃ sock version resp', Web.newSocket m (serviceIo request) [] = .ok (.opened sock version resp') ∧
      resp'.request.socket = none ∧ (o.Accepts sock.sent ↔ o.protocols ≠ []) := by
  have hupgrade := hc.find? hw (f := (lit "Upgrade", o.upgrade)) (by simp [Offer.fields])
  have hfirst := hc.protocols hw
  have hnoEnd : NoLineEnd (o.protocols.headD []) := by
    cases hp : o.protocols with
    | nil => exact fun c hc => absurd hc List.not_mem_nil
    | cons p ps =>
      intro c hc
      have hge := ((o.protocol_token p (by simp [hp])).2 c hc).1
      constructor <;> (rintro rfl; exact absurd hge (by decide))
  have hprotocol : Unwritten ((serviceIo request).setHeader (lit "Sec-WebSocket-Protocol") (o.protocols.headD [])) :=
    hunwritten.setHeader (by decide) hnoEnd
  obtain ⟨sock, version, resp', headers, hrun, htaken, hhead, hfindUpgrade, hfindConnection, hfindAccept, hother⟩ :=
    hprotocol.switchProtocols m o.key
  have hkey : o.key.length < 2 ^ 60 := by
    have hread := (hc.lastValue hw (f := (lit "Sec-WebSocket-Key", o.key)) (by simp [Offer.fields])).1
    exact lt_trans hread (by decide)
  have hguid : guid.length = 36 := by decide
  have haccept : sha1Base64 (o.key ++ guid) = acceptValue o.key :=
    sha1Base64_eq (by rw [List.length_append, hguid]; omega)
  refine ⟨sock, version, resp', ?_, htaken, ?_⟩
  · rw [Web.newSocket, request_serviceIo, hheaders, hupgrade]
    simp only [hc.find?_key hw, strSplit_tokens, ok_bind, trimProtocols_eq, hfirst]
    rw [if_neg (not_not.mpr hupgrades.2), if_pos trivial]
    exact hrun
  · rw [Offer.accepts_iff hhead]
    refine acceptsFields_iff hfindUpgrade hfindConnection (haccept ▸ hfindAccept) ?_ ?_
    · rw [hother _ (by decide), find?_setHeader, if_neg (by decide)]
      exact find?_serviceIo request (by decide)
    · rw [hother _ (by decide), find?_setHeader, if_pos (by decide)]

/-- **A request that is no handshake** for the server gets the default answer, or ends the program. -/
theorem answer_response (m : DataModel) {request : Request} (hunwritten : Unwritten (serviceIo request))
    (htype : Web.parameterType request = .response) {method : RttrMethod}
    (hsignature : method.function.parameters ∈ websocketSignatures) (o : Offer) :
    ∃ outcome sent, answer m method request = .ok (outcome, sent) ∧ ¬ o.Accepts sent ∧ outcome ≠ .invoked method ∧
      (outcome = .aborted ↔ method.function.parameters.length = 2) := by
  have habort : ∀ {t t' : ParameterType}, method.function.parameters = [t, t'] → (t = .socketPtr ∨ t = .environments) →
      connect m method (serviceIo request) = .ok ⟨.aborted, [], none⟩ := by
    intro t t' hparameters ht
    rw [connect, request_serviceIo, htype, if_neg (by decide), PluginsService.methodCall, hparameters]
    rcases ht with rfl | rfl <;> simp [hunwritten.out]
  have hended : ∀ {t t' : ParameterType}, method.function.parameters = [t, t'] → (t = .socketPtr ∨ t = .environments) →
      ∃ outcome sent, answer m method request = .ok (outcome, sent) ∧ ¬ o.Accepts sent ∧ outcome ≠ .invoked method ∧
        (outcome = .aborted ↔ method.function.parameters.length = 2) := by
    intro t t' hparameters ht
    refine ⟨.aborted, [], ?_, o.not_accepts_nil, by simp, by simp [hparameters]⟩
    rw [answer, habort hparameters ht]
    rfl
  simp only [websocketSignatures, List.mem_cons, List.not_mem_nil, or_false] at hsignature
  rcases hsignature with hone | htwo | htwo
  · -- one parameter: nothing is written before the end of the response
    obtain ⟨resp', code, fields, hdestroy, hconn, hhead, hcode⟩ :=
      hunwritten.destroy (by rw [status_serviceIo]; decide)
    obtain ⟨sock, hsock, -⟩ := hconn
    have hconnect : connect m method (serviceIo request) = .ok ⟨.ignored, [], some (serviceIo request)⟩ := by
      rw [connect, request_serviceIo, htype, if_neg (by decide), PluginsService.methodCall, hone]
      simp [hunwritten.out]
    refine ⟨.ignored, resp'.out, ?_, ?_, by simp, by simp [hone]⟩
    · simp only [answer, hconnect, ok_bind, hdestroy, hsock, reduceCtorEq, if_false]
    · rw [Offer.accepts_iff hhead]
      exact fun haccepts => hcode haccepts.code
  · exact hended htwo (Or.inl rfl)
  · exact hended htwo (Or.inr rfl)

/-- **The opening handshake.**  However the stream of the client is cut, it takes the answer if and only if the server
reads `Connection` and `Upgrade` as one word each and the client has asked for a subprotocol.  The function of the
plugin is invoked whether it has or not, and a function of two parameters ends the program when the headers are read
in another way. -/
theorem handshake_iff (m : DataModel) (hw : h.WellFormed) (hfit : h.CookiesFit) (hc : Carries h o) {segs : List Bytes}
    (hne : ∀ g ∈ segs, g ≠ []) (hsegs : segs.flatten = h.bytes) {sock : TcpSocket} (hsent : sock.sent = [])
    (hvalid : (carried h sock).isValid = true) {method : RttrMethod}
    (hsignature : method.function.parameters ∈ websocketSignatures) :
    ∃ bs p outcome sent, feed .new segs = .ok (bs ++ [true], p) ∧ (p.getRequest (some sock)).1 = some (carried h sock) ∧
      answer m method (carried h sock) = .ok (outcome, sent) ∧ (o.Accepts sent ↔ Upgrades o ∧ o.protocols ≠ []) ∧
      (outcome = .invoked method ↔ Upgrades o) ∧
      (outcome = .aborted ↔ ¬ Upgrades o ∧ method.function.parameters.length = 2) := by
  obtain ⟨bs, p, hfeed, hcontext⟩ := hw.feed hfit hne hsegs
  have hrequest : (p.getRequest (some sock)).1 = some (carried h sock) := by
    rw [Parser.getRequest, hcontext]
    rfl
  have hheaders := carried_headers h sock
  have hunwritten : Unwritten (serviceIo (carried h sock)) := by
    refine unwritten_serviceIo hvalid ((carried_version h sock).trans hc.version) ?_ fun v hv => hc.origin v ?_
    · intro sock' hsock'
      rw [← Option.some.inj hsock', hsent]
    · rwa [hheaders, h.find?_request (by decide)] at hv
  obtain ⟨htype, hresponse⟩ := hc.parameterType hw hheaders
  by_cases hupgrades : Upgrades o
  · obtain ⟨sock', version, resp', hrun, htaken, haccepts⟩ := hc.newSocket hw hupgrades hheaders hunwritten m
    have hconnect : connect m method (serviceIo (carried h sock)) =
        .ok ⟨.invoked method, sock'.sent, some resp'⟩ := by
      rw [connect, request_serviceIo, if_pos (htype.mpr hupgrades), hrun, ok_bind]
    have hdestroy : resp'.destroy none = .ok resp' := by
      rw [Response.destroy, Request.isValid, htaken]
      rfl
    refine ⟨bs, p, .invoked method, sock'.sent, hfeed, hrequest, ?_, ?_, by simp [hupgrades], by simp [hupgrades]⟩
    · simp only [answer, hconnect, ok_bind, hdestroy, htaken, if_true]
    · rw [haccepts, and_iff_right hupgrades]
  · obtain ⟨outcome, sent, hrun, hnot, hinvoked, haborted⟩ :=
      answer_response m hunwritten (hresponse (mt htype.mp hupgrades)) hsignature o
    exact ⟨bs, p, outcome, sent, hfeed, hrequest, hrun, by simp [hnot, hupgrades], by simp [hinvoked, hupgrades],
      by simp [haborted, hupgrades]⟩

/-- A client that asks for one of two protocols. -/
def chatOffer : Offer where
  nonce := lit "the sample nonce"
  nonce_length := by decide
  connection := lit "Upgrade"
  upgrade := lit "websocket"
  protocols := [lit "chat", lit "superchat"]
  protocol_token := by decide

/-- Its request. -/
def chatHead : Head :=
  ⟨lit "GET /a HTTP/1.1", [lit "Host: b", lit "Upgrade: websocket", lit "Connection: Upgrade",
    lit "Sec-WebSocket-Key: dGhlIHNhbXBsZSBub25jZQ==", lit "Sec-WebSocket-Protocol: chat, superchat",
    lit "Sec-WebSocket-Version: 13"]⟩

theorem chatHead_wellFormed : chatHead.WellFormed where
  requestLine_noEnd := by decide
  requestLine_short := by decide
  requestLine_parts := ⟨lit "GET", lit "/a", lit "HTTP/1.1\r\n", by decide⟩
  header_noEnd := by decide
  header_short := by decide
  header_colon := by decide
  cookie_items := by decide

theorem chatHead_carries : Carries chatHead chatOffer where
  version := by decide
  sent := by decide
  other := by
    have hlines : ∀ l ∈ chatHead.headers, l = lit "Host: b" ∨ ∃ f ∈ chatOffer.fields, l ++ crlf = fieldLine f := by
      decide
    rintro l hl name hname v hread
    rcases hlines l hl with rfl | hfield
    · have hhost : ReadsAs (lit "Host: b" ++ crlf) (lit "Host") (lit "b") :=
        ⟨4, by decide, by decide, by decide⟩
      have hnot : ∀ name ∈ Offer.names, ¬ SameName name (lit "Host") := by decide
      exact absurd (hread.sameName hhost) (hnot name hname)
    · exact hfield
  origin := by
    have hnone : chatHead.lastValue (lit "origin") = none := by decide
    rintro v hv
    rw [hnone] at hv
    cases hv

theorem handshake_chat : ∃ bs p outcome sent, feed .new [chatHead.bytes] = .ok (bs ++ [true], p) ∧
    (p.getRequest (some ⟨true, 1024, [], [], []⟩)).1 = some (carried chatHead ⟨true, 1024, [], [], []⟩) ∧
    answer .lp64 ⟨lit "chat", [.socketPtr], 0⟩ (carried chatHead ⟨true, 1024, [], [], []⟩) = .ok (outcome, sent) ∧
    (chatOffer.Accepts sent ↔ Upgrades chatOffer ∧ chatOffer.protocols ≠ []) ∧
    (outcome = .invoked ⟨lit "chat", [.socketPtr], 0⟩ ↔ Upgrades chatOffer) ∧
    (outcome = .aborted ↔ ¬ Upgrades chatOffer ∧ [ParameterType.socketPtr].length = 2) :=
  handshake_iff .lp64 chatHead_wellFormed (by unfold Head.CookiesFit; decide) chatHead_carries
    (by decide) (by simp) rfl (by decide) (by decide)

end Gts3.Web
