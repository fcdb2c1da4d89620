import Gts3.Http.WriteFile
import Gts3.Web.Dispatch
import Gts3.Web.ServiceIo

/-!
# What a task sends: the answers to `HEAD` and to `GET`

`answer` carries the trace of a task out on the response.  `CALL_HEAD` always ends in `return_to_null`, which writes
the text of the status as a body, and asks for the file the wrong way round: what is there is answered with 404
(`headStatus`).  So the answer to `HEAD` never agrees with the one to `GET` (`not_headAgrees`), and for a static
resource not even the statuses do, unless it is a directory or only a page (`sameStatus_iff`). -/

namespace Gts3.Web

open Lib Lib.Search Lib.Cxx Lib.HttpMessage Lib.FileStream Gts3.Http

/-! ## `return_to_null` -/

/-- `response::close`, `tcp_socket::close`. -/
def closeSocket (r : Response) : Run Response :=
  match r.request.socket with
  | none => .error .nullPointer
  | some sock => .ok { r with request := { r.request with socket := some { sock with isOpen := false } } }

/-- `service_io::return_to_null`. -/
def returnToNull (r : Response) (status : Status) : Run Response := do
  let body := Response.defaultBody status
  let r ← ((r.setHeader (lit "content-length") (formatNat 10 body.length)).setStatus status).write body
  if r.request.keepAlive then .ok r else closeSocket r

/-! ## Carrying a trace out -/

/-- What the answers of a task depend on; there are no filters.  Handlers of routes and CGI programs write as they
like. -/
structure Site where
  config : Config
  files : Files
  isDirectory : Bytes → Bool
  isDirectory_of_isDots : ∀ p, IsDots (lastComponent p) → files.fileExists p = true → isDirectory p = true
  pathHash : UMap Bytes (List Method)
  handler : Bytes → Response → Run Response
  cgi : Bytes → Response → Run Response
  deft : WriteDefault

theorem noPaths_sorted : ([] : List Bytes).Pairwise (· < ·) := List.Pairwise.nil

theorem noPaths_ne_nil : ∀ p ∈ ([] : List Bytes), p ≠ [] := List.forall_mem_nil _

namespace Site

variable (site : Site)

/-- The plugins and files of the site. -/
def env : Env where
  config := site.config
  fs := ⟨site.files.fileExists, site.isDirectory, fun p => (site.files.content p).isSome, site.isDirectory_of_isDots⟩
  filterPathMap := ⟨[], noPaths_sorted, noPaths_ne_nil⟩
  pathHash := site.pathHash
  filterMethod _ _ := ⟨false, false⟩

/-- What is written for an event; a file goes out as in `file_transfer::call`. -/
def perform (r : Response) : Event → Run Response
  | .filter _ _ => .ok r
  | .handler path => site.handler path r
  | .cgi fileName => site.cgi fileName r
  | .file fileName =>
    match site.files.content fileName with
    | none => .ok r
    | some content =>
      match r.request.headers.find? Header.range with
      | some rangeStr => FileTransfer.transferRange site.files site.deft r fileName (.opened content) rangeStr
      | none => r.defaultTransfer (.opened content) (site.files.mimeType fileName)
  | .returnToNull status => returnToNull r status
  | .writeDefault status => (r.setStatus status).writeDefault site.deft
  | .close => closeSocket r

/-- The events one after the other. -/
def performAll : Response → List Event → Run Response
  | r, [] => .ok r
  | r, e :: events => do performAll (← site.perform r e) events

/-- A task with its response, which is destroyed in the end. -/
def answer (request : Request) : Run Response := do
  let r ← site.performAll (serviceIo request) (Task.run site.env request).trace
  r.destroy site.deft

end Site

/-! ## Answers that are complete -/

/-- An answer has been written, and nothing will be written behind it. -/
structure Complete (r r' : Response) (status : Status) (body : Bytes) : Prop where
  answered : r.Answered r' status body
  written : r'.headersWrited = true
  length : r'.headersContains Header.contentLength = true
  socket : r'.request.socket.isSome = true

section Complete

variable {r r' : Response} {status : Status} {body : Bytes}

theorem isSome_of_connected (h : r.Connected) : r.request.socket.isSome = true := by
  obtain ⟨sock, hsock, -⟩ := h
  rw [hsock]
  rfl

theorem Complete.close (h : Complete r r' status body) :
    ∃ r'', closeSocket r' = .ok r'' ∧ Complete r r'' status body := by
  obtain ⟨sock, hsock⟩ := Option.isSome_iff_exists.mp h.socket
  have hclose : closeSocket r' =
      .ok { r' with request := { r'.request with socket := some { sock with isOpen := false } } } := by
    rw [closeSocket, hsock]
  have hout := h.answered
  rw [Response.Answered, Response.out, hsock] at hout
  exact ⟨_, hclose, hout, h.written, h.length, rfl⟩

theorem Complete.destroy (h : Complete r r' status body) (g : WriteDefault) : r'.destroy g = .ok r' := by
  unfold Response.destroy Response.chunkEnd
  simp only [h.written, h.length, Bool.true_eq_false, if_false, ok_bind, true_or, if_true, ite_self]

/-- **Headers of a known length and the body** are a complete answer. -/
theorem complete_write (hr : r.Connected) (hw : r.headersWrited = false) (hchunked : r.isChunked = false)
    (hlength : r.headersContains Header.contentLength = true) {body : Bytes} (hbody : 0 < body.length) :
    ∃ r', r.write body = .ok r' ∧ Complete r r' r.status body ∧ r'.request.keepAlive = r.request.keepAlive := by
  set r₁ : Response := { r with headersWrited := true } with hr₁
  have h₁ : r₁.Connected := hr
  have hlength₁ : r₁.headersContains Header.contentLength = true := hlength
  have hprepare : r₁.prepareHeaders body.length = r₁ := by
    rw [Response.prepareHeaders, if_pos hlength₁]
  have hplain : r₁.blockSent.isChunked = false := r₁.blockSent_isChunked.trans hchunked
  have hconnected := h₁.blockSent.connected
  have hwrite : r.write body = .ok (r₁.blockSent.put body) := by
    unfold Response.write
    simp only [hw, if_true, ← hr₁, hprepare, h₁.sendHeaders_block, ok_bind, hbody, hplain, hconnected.writeBody_plain]
  refine ⟨_, hwrite, ⟨h₁.answered_blockSent.put hconnected body, rfl, ?_, ?_⟩, rfl⟩
  · exact (r₁.headersContains_blockSent_put body).trans hlength
  · exact isSome_of_connected (hconnected.put _)

/-- **`return_to_null`** answers with the status, and with its text as the body. -/
theorem complete_returnToNull (hr : r.Connected) (hw : r.headersWrited = false) (hchunked : r.isChunked = false)
    (status : Status) :
    ∃ r', returnToNull r status = .ok r' ∧ Complete r r' status (Response.defaultBody status) := by
  set r₁ := (r.setHeader (lit "content-length") (formatNat 10 (Response.defaultBody status).length)).setStatus status
    with hr₁
  have hlength : r₁.headersContains Header.contentLength = true := by
    have hsame : Same lessCaseInsensitive (lit "content-length") Header.contentLength :=
      (same_lessCaseInsensitive _ _).mpr (by decide)
    rw [hr₁, Response.headersContains, Response.setStatus, Response.setHeader, OrdMap.find?_assign, if_pos hsame]
    rfl
  have hchunked₁ : r₁.isChunked = false := (r.setHeader_isChunked (by decide) _).trans hchunked
  have hbody : 0 < (Response.defaultBody status).length := by
    rw [Response.defaultBody, List.length_append]
    exact Nat.succ_pos _
  obtain ⟨r₂, hwrite, hcomplete, hkeep⟩ := complete_write (r := r₁) hr hw hchunked₁ hlength hbody
  have hcomplete' : Complete r r₂ status (Response.defaultBody status) :=
    ⟨hcomplete.answered, hcomplete.written, hcomplete.length, hcomplete.socket⟩
  unfold returnToNull
  simp only [← hr₁, hwrite, ok_bind]
  split_ifs
  · exact ⟨r₂, rfl, hcomplete'⟩
  · exact hcomplete'.close

/-- `write_default` answers, when there is no default function. -/
theorem complete_writeDefault (hr : r.Connected) (hw : r.headersWrited = false) (status : Status) :
    ∃ r', (r.setStatus status).writeDefault none = .ok r' ∧ Complete r r' status (Response.defaultBody status) := by
  have hr₁ : (r.setStatus status).Connected := hr
  obtain ⟨r', hwrite, hanswered, hlength, hwritten, hconnected⟩ := hr₁.answered_writeDefault hw
  exact ⟨r', hwrite, hanswered, hwritten, hlength, isSome_of_connected hconnected⟩

theorem complete_defaultTransfer (hr : r.Connected) (hw : r.headersWrited = false) (hchunked : r.isChunked = false)
    {bufSize : ℕ} (hbuf : r.tcpIpBufferSize = .ok bufSize) (hbufSize : 0 < bufSize) {content : Bytes}
    (hne : content ≠ []) (mimeType : Bytes) :
    ∃ r', r.defaultTransfer (.opened content) mimeType = .ok r' ∧ Complete r r' r.status content := by
  have h₁ : (r.fileHeaders mimeType content.length).Connected := hr
  have hlength := r.find?_fileHeaders mimeType content.length
  have hanswered := (h₁.answered_started hw).put h₁.started.2.connected content
  have hstarted := Response.started_eq (r := r.fileHeaders mimeType content.length) hw hlength
  refine ⟨_, Response.defaultTransfer_sends hr hchunked hbuf hbufSize hne mimeType, hanswered, ?_, ?_, ?_⟩
  · rw [hstarted]
    rfl
  · rw [hstarted, Response.headersContains_blockSent_put, Response.headersContains]
    exact (congrArg Option.isSome hlength).trans rfl
  · exact isSome_of_connected (h₁.started.2.connected.put _)

end Complete

/-! ## The start of a response -/

section ServiceIo

variable {request : Request}

/-- Only headers have been set, and none says how the body is encoded. -/
def HeadersOnly (request : Request) (r : Response) : Prop :=
  ∃ headers, r = { Response.new request with headers } ∧ headers.find? Header.transferEncoding = none

theorem HeadersOnly.setHeader {r : Response} (h : HeadersOnly request r) {key : Bytes}
    (hkey : ¬ SameName key Header.transferEncoding) (value : Bytes) : HeadersOnly request (r.setHeader key value) := by
  obtain ⟨headers, rfl, hnone⟩ := h
  refine ⟨headers.assign key value, rfl, ?_⟩
  rw [OrdMap.find?_assign, if_neg fun hs => hkey ((same_lessCaseInsensitive _ _).mp hs), hnone]

theorem headersOnly_serviceIo (request : Request) : HeadersOnly request (serviceIo request) := by
  have hnew : HeadersOnly request (Response.new request) := by
    refine ⟨_, rfl, ?_⟩
    rw [OrdMap.find?_assign, if_neg fun hs => absurd ((same_lessCaseInsensitive _ _).mp hs) (by decide)]
    exact OrdMap.find?_empty _
  have hserver := hnew.setHeader (by decide : ¬ SameName (lit "server") Header.transferEncoding) (lit "gts3")
  have hclose : ∀ {r : Response}, HeadersOnly request r → HeadersOnly request (if request.version = lit "1.1" then
      if request.keepAlive then r else r.setHeader (lit "connection") (lit "close") else r) := by
    intro r hr
    split_ifs
    · exact hr
    · exact hr.setHeader (by decide) _
    · exact hr
  unfold serviceIo
  cases request.headers.find? (lit "origin") with
  | none => exact hclose hserver
  | some v => exact hclose (hserver.setHeader (by decide : ¬ SameName allowOrigin Header.transferEncoding) v)

/-- What holds before the first write. -/
structure Fresh (r : Response) : Prop where
  connected : r.Connected
  unwritten : r.headersWrited = false
  status : r.status = .ok
  plain : r.isChunked = false

theorem fresh_serviceIo (hopen : (Response.new request).Connected) : Fresh (serviceIo request) := by
  obtain ⟨headers, heq, hnone⟩ := headersOnly_serviceIo request
  rw [heq]
  refine ⟨hopen, rfl, rfl, ?_⟩
  simp only [Response.isChunked, Response.transferEncodingChunked, hnone, ite_self]

end ServiceIo

/-! ## One event and the end of the connection -/

namespace Site

variable {site : Site} {request : Request}

/-- A task with one event before the socket is closed. -/
theorem answer_of_event {s : TaskState} {e : Event} (hdispatch : Task.dispatch site.env request ⟨[], false, []⟩ = s)
    (htrace : s.trace = [e]) {r : Response} {status : Status} {body : Bytes}
    (hperform : site.perform (serviceIo request) e = .ok r) (hr : Complete (serviceIo request) r status body) :
    ∃ r', site.answer request = .ok r' ∧ (serviceIo request).Answered r' status body := by
  unfold answer
  rw [Task.run, hdispatch]
  split_ifs
  · refine ⟨r, ?_, hr.answered⟩
    rw [htrace, performAll, hperform, ok_bind, performAll, ok_bind]
    exact hr.destroy site.deft
  · obtain ⟨r', hclose, hr'⟩ := hr.close
    refine ⟨r', ?_, hr'.answered⟩
    rw [TaskState.emit_trace, htrace, List.singleton_append, performAll, hperform, ok_bind, performAll, perform, hclose,
      ok_bind, performAll, ok_bind]
    exact hr'.destroy site.deft

/-! ## The answer to `HEAD` -/

/-- The status of the answer to `HEAD`: what is there as a file is not found. -/
def headStatus (env : Env) (url : Bytes) : Status :=
  if (env.pathHash.find? url).isSome then .ok
  else if (cgiRest env.config url).any fun rest => env.fs.fileExists (cStr (cgiName env.config rest)) then .ok
  else if env.fs.fileExists (cStr (env.config.resourceRoot.path ++ url)) then .notFound
  else .ok

theorem callHead_eq (env : Env) (request : Request) (s : TaskState) :
    (Task.callHead env request s).trace = s.trace ++ [.returnToNull (headStatus env (normalPath request.path))] := by
  have hpath : (if request.path = [] then { s with urlName := lit "/" } else { s with urlName := request.path }) =
      atPath request s := by
    rw [atPath]
    split_ifs <;> rfl
  have hlast : ∀ s' : TaskState, s'.trace = s.trace →
      (if env.fs.fileExists (cStr (env.config.resourceRoot.path ++ normalPath request.path)) = true then
        s'.emit (.returnToNull .notFound) else s'.emit (.returnToNull .ok)).trace =
      s.trace ++ [.returnToNull
        (if env.fs.fileExists (cStr (env.config.resourceRoot.path ++ normalPath request.path)) then .notFound
          else .ok)] := by
    intro s' hs
    split_ifs
    · rw [TaskState.emit_trace, hs]
    · rw [TaskState.emit_trace, hs]
  unfold Task.callHead headStatus cgiRest cgiName
  simp only [hpath, check_atPath]
  by_cases hservice : (env.pathHash.find? (normalPath request.path)).isSome = true
  · rw [if_pos hservice, if_pos hservice]
    rfl
  rw [if_neg hservice, if_neg hservice]
  cases find [47] ((normalPath request.path).drop 1) with
  | none => exact hlast _ rfl
  | some pos =>
    by_cases hunder : (normalPath request.path).take (pos + 1) = env.config.cgiAccess
    · simp only [hunder, decide_true, if_true, Option.any_some, Bool.true_and]
      by_cases hprogram :
          env.fs.fileExists (cStr (env.config.cgiPath.path ++ (normalPath request.path).drop (pos + 2))) = true
      · rw [if_pos hprogram, if_pos hprogram]
        rfl
      · rw [if_neg hprogram, if_neg hprogram]
        exact hlast _ rfl
    · simp only [hunder, decide_false, if_false, Option.any_none, Bool.false_and, Bool.false_eq_true]
      exact hlast _ rfl

/-- **The answer to `HEAD`** has the text of its status as a body. -/
theorem answer_head (site : Site) {request : Request} (hmethod : request.method = .head)
    (hopen : (Response.new request).Connected) :
    ∃ r', site.answer request = .ok r' ∧
      (serviceIo request).Answered r' (headStatus site.env (normalPath request.path))
        (Response.defaultBody (headStatus site.env (normalPath request.path))) := by
  have hfresh := fresh_serviceIo hopen
  obtain ⟨r, hr, hcomplete⟩ := complete_returnToNull hfresh.connected hfresh.unwritten hfresh.plain
    (headStatus site.env (normalPath request.path))
  have htrace : (Task.dispatch site.env request ⟨[], false, []⟩).trace =
      [.returnToNull (headStatus site.env (normalPath request.path))] := by
    rw [Task.dispatch, hmethod]
    exact callHead_eq site.env request ⟨[], false, []⟩
  exact answer_of_event rfl htrace hr hcomplete

/-- **`HEAD` agrees with `GET`**: both are answered with the same status, `HEAD` without a body. -/
def HeadAgrees (site : Site) (request : Request) : Prop :=
  ∃ head get status body, site.answer { request with method := .head } = .ok head ∧
    site.answer { request with method := .get } = .ok get ∧
    (serviceIo { request with method := .head }).Answered head status [] ∧
    (serviceIo { request with method := .get }).Answered get status body

theorem answer_head_body {head : Response} (hmethod : request.method = .head) (hopen : (Response.new request).Connected)
    (hhead : site.answer request = .ok head) (status : Status) : ¬ (serviceIo request).Answered head status [] := by
  intro hempty
  obtain ⟨r', hr', hanswered⟩ := answer_head site hmethod hopen
  obtain rfl := Except.ok.inj (hhead.symm.trans hr')
  -- the text of a status ends with a bracket, headers with a line feed
  have hbracket : head.out.getLast? = some 41 := by
    rw [hanswered, List.getLast?_append, List.getLast?_append, getLast?_defaultBody]
    rfl
  rw [hempty, List.append_nil, List.getLast?_append, getLast?_block, Option.some_or] at hbracket
  exact absurd hbracket (by decide)

/-- **`HEAD` never agrees with `GET`**, whatever the site and the path are. -/
theorem not_headAgrees (site : Site) {request : Request} (hopen : (Response.new request).Connected) :
    ¬ site.HeadAgrees request := by
  rintro ⟨head, get, status, body, hhead, -, hempty, -⟩
  exact answer_head_body (rfl : ({ request with method := .head } : Request).method = .head) hopen hhead status hempty

/-! ## The answer to `GET` for a static resource -/

/-- How `CALL_GET` ends for a static resource. -/
def getEvent (env : Env) (url : Bytes) : Event :=
  let open' (fileName : Bytes) : Event :=
    if env.fs.canOpen fileName then .file fileName else .writeDefault .forbidden
  let fileName := staticName env.config url
  if env.fs.isDirectory (cStr fileName) then .returnToNull .notFound
  else if env.fs.fileExists (cStr fileName) then open' (cStr fileName)
  else if env.fs.fileExists (cStr (fileName ++ lit ".html")) then open' (cStr (fileName ++ lit ".html"))
  else .writeDefault .notFound

/-- The status of that answer. -/
def getStatus (env : Env) (url : Bytes) : Status :=
  match getEvent env url with
  | .returnToNull status | .writeDefault status => status
  | _ => .ok

/-- The path belongs to a static resource: it has no service and no CGI program. -/
structure Static (env : Env) (url : Bytes) : Prop where
  noService : env.pathHash.find? url = none
  noCgi : ∀ rest, cgiRest env.config url = some rest → env.fs.fileExists (cStr (cgiName env.config rest)) = false

theorem doParsing_static (hstatic : Static site.env (normalPath request.path)) (s : TaskState) :
    Task.doParsing site.env request s = (false, { s with urlName := normalPath request.path }) := by
  rw [doParsing_none hstatic.noService]
  cases hrest : cgiRest site.env.config (normalPath request.path) with
  | none => rfl
  | some rest =>
    have hno := hstatic.noCgi rest hrest
    rw [cgiName] at hno
    simp only [Task.callCgi, Task.cgiExists, hno, Bool.false_eq_true, if_false, ne_eq, not_true_eq_false]

theorem writeFile_static (env : Env) (url : Bytes)
    (hdir : env.fs.isDirectory (cStr (staticName env.config url)) = false)
    {s : TaskState} (hw : s.headersWrited = false) :
    (Task.writeFile env (staticName env.config url) s).trace = s.trace ++ [getEvent env url] := by
  have habsolute : absolutePath env.config.home env.config.resourceRoot.path (staticName env.config url) =
      staticName env.config url := absolutePath_of_dirPath _ _ _ _
  unfold Task.writeFile Task.transferCheck getEvent
  simp only [hw, Bool.false_eq_true, if_false, hdir, habsolute]
  split_ifs <;> rfl

/-- **A static resource** ends in one event. -/
theorem callGet_static (hstatic : Static site.env (normalPath request.path)) {s : TaskState}
    (hw : s.headersWrited = false) :
    (Task.callGet site.env request s).trace = s.trace ++ [getEvent site.env (normalPath request.path)] := by
  have hurl : (if normalPath request.path = lit "/" then { s with urlName := site.env.config.defaultResource }
        else { s with urlName := normalPath request.path }) =
      { s with urlName := if normalPath request.path = lit "/" then site.env.config.defaultResource
        else normalPath request.path } := by
    split_ifs <;> rfl
  have hfilter : ∀ s', PluginsService.callFilter site.env s' = (false, s') := fun s' => rfl
  rw [Task.callGet, doParsing_static hstatic]
  simp only [Bool.false_eq_true, if_false, hfilter, hurl]
  rw [← staticName]
  by_cases hdir : site.env.fs.isDirectory (cStr (staticName site.env.config (normalPath request.path))) = true
  · rw [if_pos hdir, getEvent, if_pos hdir]
    rfl
  · rw [if_neg hdir]
    exact writeFile_static site.env _ (Bool.eq_false_iff.mpr hdir) hw

theorem getEvent_cases (env : Env) (url : Bytes) :
    (getEvent env url = .returnToNull (getStatus env url)) ∨ (getEvent env url = .writeDefault (getStatus env url)) ∨
      ∃ fileName, getEvent env url = .file fileName ∧ env.fs.canOpen fileName = true ∧ getStatus env url = .ok := by
  unfold getStatus getEvent
  dsimp only
  split_ifs with hdir hfile hopen hpage hopen
  · exact Or.inl rfl
  · exact Or.inr (Or.inr ⟨_, rfl, hopen, rfl⟩)
  · exact Or.inr (Or.inl rfl)
  · exact Or.inr (Or.inr ⟨_, rfl, hopen, rfl⟩)
  · exact Or.inr (Or.inl rfl)
  · exact Or.inr (Or.inl rfl)

/-- **The answer to `GET`** for a static resource, asked for as a whole. -/
theorem answer_get (site : Site) {request : Request} (hmethod : request.method = .get)
    (hopen : (Response.new request).Connected)
    (hstatic : Static site.env (normalPath request.path)) (hrange : request.headers.find? Header.range = none)
    (hdeft : site.deft = none) {bufSize : ℕ} (hbuf : (Response.new request).tcpIpBufferSize = .ok bufSize)
    (hbufSize : 0 < bufSize) (hcontent : ∀ fileName, site.files.content fileName ≠ some []) :
    ∃ r' body, site.answer request = .ok r' ∧
      (serviceIo request).Answered r' (getStatus site.env (normalPath request.path)) body := by
  have hfresh := fresh_serviceIo hopen
  have htrace : (Task.dispatch site.env request ⟨[], false, []⟩).trace =
      [getEvent site.env (normalPath request.path)] := by
    rw [Task.dispatch, hmethod]
    exact callGet_static hstatic rfl
  have hperform : ∃ r body, site.perform (serviceIo request) (getEvent site.env (normalPath request.path)) = .ok r ∧
      Complete (serviceIo request) r (getStatus site.env (normalPath request.path)) body := by
    rcases getEvent_cases site.env (normalPath request.path) with h | h | ⟨fileName, h, hcan, hstatus⟩
    · obtain ⟨r, hr, hcomplete⟩ := complete_returnToNull hfresh.connected hfresh.unwritten hfresh.plain
        (getStatus site.env (normalPath request.path))
      exact ⟨r, _, by rw [h, perform, hr], hcomplete⟩
    · obtain ⟨r, hr, hcomplete⟩ := complete_writeDefault hfresh.connected hfresh.unwritten
        (getStatus site.env (normalPath request.path))
      exact ⟨r, _, by rw [h, perform, hdeft, hr], hcomplete⟩
    · obtain ⟨content, hfile⟩ := Option.isSome_iff_exists.mp hcan
      have hne : content ≠ [] := fun h0 => hcontent fileName (h0 ▸ hfile)
      have hsize : (serviceIo request).tcpIpBufferSize = .ok bufSize := by
        rw [Response.tcpIpBufferSize, request_serviceIo]
        exact hbuf
      obtain ⟨r, hr, hcomplete⟩ :=
        complete_defaultTransfer hfresh.connected hfresh.unwritten hfresh.plain hsize hbufSize
        hne (site.files.mimeType fileName)
      rw [hfresh.status, ← hstatus] at hcomplete
      exact ⟨r, content, by rw [h, perform, hfile]; simp only [request_serviceIo, hrange, hr], hcomplete⟩
  obtain ⟨r, body, hr, hcomplete⟩ := hperform
  obtain ⟨r', hr', hanswered⟩ := answer_of_event rfl htrace hr hcomplete
  exact ⟨r', body, hr', hanswered⟩

/-! ## The statuses of both -/

/-- Both are answered with the same status, whatever the bodies are. -/
def SameStatus (site : Site) (request : Request) : Prop :=
  ∃ head get status body body', site.answer { request with method := .head } = .ok head ∧
    site.answer { request with method := .get } = .ok get ∧
    (serviceIo { request with method := .head }).Answered head status body ∧
    (serviceIo { request with method := .get }).Answered get status body'

/-- The path is a directory, or there is only a page under its name. -/
def OnlyPage (env : Env) (url : Bytes) : Prop :=
  let fileName := env.config.resourceRoot.path ++ url
  if env.fs.isDirectory (cStr fileName) then env.fs.fileExists (cStr fileName) = true
  else env.fs.fileExists (cStr fileName) = false ∧ env.fs.fileExists (cStr (fileName ++ lit ".html")) = true ∧
    env.fs.canOpen (cStr (fileName ++ lit ".html")) = true

theorem headStatus_eq_getStatus_iff {env : Env} {url : Bytes} (hstatic : Static env url) (hroot : url ≠ lit "/") :
    headStatus env url = getStatus env url ↔ OnlyPage env url := by
  have hcgi :
      ((cgiRest env.config url).any fun rest => env.fs.fileExists (cStr (cgiName env.config rest))) = false := by
    cases hrest : cgiRest env.config url with
    | none => rfl
    | some rest => exact hstatic.noCgi rest hrest
  have hname : staticName env.config url = env.config.resourceRoot.path ++ url := by
    rw [staticName, if_neg hroot]
  unfold headStatus getStatus getEvent OnlyPage
  simp only [hstatic.noService, hcgi, hname, Option.isSome_none, Bool.false_eq_true, if_false]
  generalize env.config.resourceRoot.path ++ url = fileName
  cases hfile : env.fs.fileExists (cStr fileName) with
  | true =>
    -- `HEAD` is answered with 404
    cases hdir : env.fs.isDirectory (cStr fileName) with
    | true => simp
    | false => cases env.fs.canOpen (cStr fileName) <;> simp [Status.notFound, Status.ok, Status.forbidden]
  | false =>
    cases hdir : env.fs.isDirectory (cStr fileName) with
    | true => simp [Status.notFound, Status.ok]
    | false =>
      cases hpage : env.fs.fileExists (cStr (fileName ++ lit ".html")) with
      | true => cases env.fs.canOpen (cStr (fileName ++ lit ".html")) <;> simp [Status.ok, Status.forbidden]
      | false => simp [Status.notFound, Status.ok]

/-- **The statuses** of both agree for directories, and where the name has to be completed to a page; a file that `GET`
serves under its own name is not found by `HEAD`. -/
theorem sameStatus_iff {request : Request} (hopen : (Response.new request).Connected)
    (hstatic : Static site.env (normalPath request.path)) (hroot : normalPath request.path ≠ lit "/")
    (hrange : request.headers.find? Header.range = none) (hdeft : site.deft = none) {bufSize : ℕ}
    (hbuf : (Response.new request).tcpIpBufferSize = .ok bufSize) (hbufSize : 0 < bufSize)
    (hcontent : ∀ fileName, site.files.content fileName ≠ some []) :
    site.SameStatus request ↔ OnlyPage site.env (normalPath request.path) := by
  obtain ⟨head, hhead, hheadStatus⟩ := answer_head site
    (rfl : ({ request with method := .head } : Request).method = .head) hopen
  obtain ⟨get, body, hget, hgetStatus⟩ := answer_get site
    (rfl : ({ request with method := .get } : Request).method = .get) hopen
    hstatic hrange hdeft hbuf hbufSize hcontent
  rw [← headStatus_eq_getStatus_iff hstatic hroot]
  constructor
  · rintro ⟨head', get', status, _, _, hhead', hget', hheadStatus', hgetStatus'⟩
    obtain rfl := Except.ok.inj (hhead.symm.trans hhead')
    obtain rfl := Except.ok.inj (hget.symm.trans hget')
    exact (hheadStatus.status_unique hheadStatus').trans (hgetStatus'.status_unique hgetStatus)
  · intro heq
    have hheadStatus' := hheadStatus
    change (serviceIo _).Answered head (headStatus site.env (normalPath request.path)) _ at hheadStatus'
    rw [heq] at hheadStatus'
    exact ⟨head, get, _, _, body, hhead, hget, hheadStatus', hgetStatus⟩

/-- A site with one file. -/
def oneFileSite (path content : Bytes) : Site where
  config := plainConfig
  files := ⟨id, (onlyFile path).fileExists, fun q => if q = path then some content else none, fun _ => lit "text/plain",
    lit "b"⟩
  isDirectory := (onlyFile path).isDirectory
  isDirectory_of_isDots := (onlyFile path).isDirectory_of_isDots
  pathHash := UMap.empty
  handler _ r := .ok r
  cgi _ r := .ok r
  deft := none

/-- A request for a file. -/
def fileRequest : Request :=
  { Request.new with socket := some ⟨true, 3, [], [], []⟩, version := lit "1.1", path := lit "/a" }

theorem not_headAgrees_missing : ¬ (oneFileSite (lit "/srv/www//b") (lit "gts3")).HeadAgrees fileRequest :=
  not_headAgrees _ ⟨_, rfl, rfl⟩

/-- `HEAD` does not find a file that is there, and says so in a body. -/
theorem not_headAgrees_file :
    ¬ (oneFileSite (lit "/srv/www//a") (lit "gts3")).HeadAgrees fileRequest ∧
      ¬ (oneFileSite (lit "/srv/www//a") (lit "gts3")).SameStatus fileRequest := by
  constructor
  · rintro ⟨head, get, status, body, hhead, -, hempty, -⟩
    exact answer_head_body (rfl : ({ fileRequest with method := .head } : Request).method = .head) ⟨_, rfl, rfl⟩ hhead
      status hempty
  · have hnoCgi : cgiRest plainConfig (normalPath fileRequest.path) = none := by decide
    have hstatic : Static (oneFileSite (lit "/srv/www//a") (lit "gts3")).env (normalPath fileRequest.path) := by
      refine ⟨rfl, fun rest hrest => ?_⟩
      cases hnoCgi.symm.trans hrest
    have hcontent : ∀ fileName, (oneFileSite (lit "/srv/www//a") (lit "gts3")).files.content fileName ≠ some [] := by
      intro fileName
      dsimp only [oneFileSite]
      split_ifs <;> simp [lit]
    rw [sameStatus_iff ⟨_, rfl, rfl⟩ hstatic (by decide) rfl rfl rfl (by decide) hcontent]
    unfold OnlyPage
    decide

end Site

end Gts3.Web
