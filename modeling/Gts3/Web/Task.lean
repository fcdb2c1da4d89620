import Gts3.Http.Request

/-!
# `gts/web/service/task.cpp`, `plugins_service.cpp`: from a request to a resource

`Task.run` is `task::run` up to the point where a handler, a CGI program or a file takes over.  What happens on the
way is recorded in a trace: the calls of filters with their results, and the resource that is executed or opened.
What filters answer and what the file system holds are parameters.
-/

namespace Gts3.Web

open Lib Lib.Search Lib.Cxx Gts3.Http

/-! ## Files -/

/-- What follows the last slash of a path. -/
def lastComponent (path : Bytes) : Bytes := path.rtakeWhile (· ≠ 47)

/-- A last component that only a directory can have. -/
def IsDots (component : Bytes) : Prop := component = [] ∨ component = lit "." ∨ component = lit ".."

instance (component : Bytes) : Decidable (IsDots component) := inferInstanceAs (Decidable (_ ∨ _))

/-- What the system calls answer for a path. -/
structure FileSystem where
  fileExists : Bytes → Bool
  isDirectory : Bytes → Bool
  canOpen : Bytes → Bool
  isDirectory_of_isDots : ∀ p, IsDots (lastComponent p) → fileExists p = true → isDirectory p = true

/-- The path of a directory: absolute, with a slash at its end. -/
structure DirPath where
  path : Bytes
  absolute : path.head? = some 47
  slash : path.getLast? = some 47
  noNul : 0 ∉ path

/-- `absolute_path`: home directory and base are there for paths that are not absolute. -/
def absolutePath (home base path : Bytes) : Bytes :=
  if strStartsWith path (lit "/") then path
  else if strStartsWith path (lit "~/") then
    (if strEndsWith home (lit "/") then home else home ++ lit "/") ++ path.drop 2
  else base ++ path

/-! ## What a task works with -/

/-- `g_cgi_access`, `g_cgi_path`, `g_default_resource`, `resource_root()`, and the home directory. -/
structure Config where
  resourceRoot : DirPath
  cgiPath : DirPath
  cgiAccess : Bytes
  defaultResource : Bytes
  home : Bytes

/-- The keys of `g_filter_path_map`, in its order. -/
structure FilterPaths where
  paths : List Bytes
  sorted : paths.Pairwise (· < ·)
  ne_nil : ∀ p ∈ paths, p ≠ []

/-- What the trace of a task records. -/
inductive Event
  | filter (path : Bytes) (result : Bool)
  | handler (path : Bytes)
  | cgi (fileName : Bytes)
  | file (fileName : Bytes)
  | returnToNull (status : Status)
  | writeDefault (status : Status)
  | close
  deriving DecidableEq

namespace Event

/-- A resource is executed or opened. -/
def IsResource : Event → Prop
  | handler _ | cgi _ | file _ => True
  | _ => False

end Event

/-- What a filter returns, and whether it has written the headers of the response. -/
structure FilterOutcome where
  result : Bool
  writes : Bool

/-- The plugins and the file system; a filter may answer as it likes, depending on all that has happened. -/
structure Env where
  config : Config
  fs : FileSystem
  filterPathMap : FilterPaths
  pathHash : UMap Bytes (List Method)
  filterMethod : List Event → Bytes → FilterOutcome

/-- `sio.url_name`, whether the headers of the response are written, and the trace. -/
structure TaskState where
  urlName : Bytes
  headersWrited : Bool
  trace : List Event
  deriving DecidableEq

namespace TaskState

/-- The event is recorded. -/
def emit (s : TaskState) (e : Event) : TaskState := { s with trace := s.trace ++ [e] }

@[simp] theorem emit_trace (s : TaskState) (e : Event) : (s.emit e).trace = s.trace ++ [e] := rfl

end TaskState

/-! ## `plugins_service` -/

namespace PluginsService

/-- `lambda_call_filter`. -/
def lambdaCallFilter (env : Env) (path : Bytes) (s : TaskState) : Bool × TaskState :=
  let outcome := env.filterMethod s.trace path
  (outcome.result, { s.emit (.filter path outcome.result) with
    headersWrited := s.headersWrited || outcome.writes })

/-- The loop of `call_filter`. -/
def callFilterLoop (env : Env) : List Bytes → TaskState → Bool × TaskState
  | [], s => (false, s)
  | path :: rest, s =>
    if strStartsWith s.urlName path = false then callFilterLoop env rest s
    else if path.getLast? = some 47 then
      if s.urlName ≠ path then
        let (b, s) := lambdaCallFilter env path s
        if b then (true, s) else callFilterLoop env rest s
      else callFilterLoop env rest s
    else
      let (b, s) := lambdaCallFilter env path s
      if b then (true, s) else callFilterLoop env rest s

/-- `call_filter`. -/
def callFilter (env : Env) (s : TaskState) : Bool × TaskState := callFilterLoop env env.filterPathMap.paths s

/-- `check`: the services of the path, after an empty path and a slash at the end are put right. -/
def check (env : Env) (s : TaskState) : Option (List Method) × TaskState :=
  let s := if s.urlName = [] then { s with urlName := lit "/" }
    else if s.urlName.length > 1 ∧ s.urlName.getLast? = some 47 then { s with urlName := s.urlName.dropLast }
    else s
  (env.pathHash.find? s.urlName, s)

/-- `call`. -/
def call (env : Env) (request : Request) (s : TaskState) : Bool × TaskState :=
  match check env s with
  | (none, s) => (false, s)
  | (some services, s) =>
    if request.method ∉ services then (true, s.emit (.returnToNull .methodNotAllowed))
    else
      let (b, s) := callFilter env s
      if b then (true, s) else (true, s.emit (.handler s.urlName))

end PluginsService

/-! ## `task` -/

namespace Task

/-- `cgi_service::exists`: the file name, empty when there is no such file. -/
def cgiExists (env : Env) (s : TaskState) : Bytes := if env.fs.fileExists (cStr s.urlName) then s.urlName else []

/-- The branch of `TASK_DO_PARSING` for a path under the CGI prefix, with what follows the prefix. -/
def callCgi (env : Env) (rest : Bytes) (s : TaskState) : Bool × TaskState :=
  let tmp := s.urlName
  let s := { s with urlName := env.config.cgiPath.path ++ rest }
  let fileName := cgiExists env s
  if fileName ≠ [] then
    let (b, s) := PluginsService.callFilter env s
    if b = false then (true, s.emit (.cgi (cStr s.urlName))) else (false, { s with urlName := tmp })
  else (false, { s with urlName := tmp })

/-- `TASK_DO_PARSING`; the flag says that the task returns. -/
def doParsing (env : Env) (request : Request) (s : TaskState) : Bool × TaskState :=
  let s := { s with urlName := request.path }
  let s := if s.urlName = [] then { s with urlName := lit "/" } else s
  let (b, s) := PluginsService.call env request s
  if b then (true, s)
  else match find [47] (s.urlName.drop 1) with
    | none => (false, s)
    | some pos =>
      if s.urlName.take (pos + 1) = env.config.cgiAccess then callCgi env (s.urlName.drop (pos + 2)) s
      else (false, s)

/-- `file_transfer::check`: the file that is opened. -/
def transferCheck (env : Env) (fileName : Bytes) (s : TaskState) : TaskState :=
  let open' (fileName : Bytes) : TaskState :=
    if env.fs.canOpen (cStr fileName) then s.emit (.file (cStr fileName)) else s.emit (.writeDefault .forbidden)
  if env.fs.fileExists (cStr fileName) then open' fileName
  else if env.fs.fileExists (cStr (fileName ++ lit ".html")) then open' (fileName ++ lit ".html")
  else s.emit (.writeDefault .notFound)

/-- `write_file`. -/
def writeFile (env : Env) (fileName : Bytes) (s : TaskState) : TaskState :=
  if s.headersWrited then s
  else transferCheck env (absolutePath env.config.home env.config.resourceRoot.path fileName) s

/-- `CALL_GET`. -/
def callGet (env : Env) (request : Request) (s : TaskState) : TaskState :=
  let (b, s) := doParsing env request s
  if b then s
  else
    let s := if s.urlName = lit "/" then { s with urlName := env.config.defaultResource } else s
    let s := { s with urlName := env.config.resourceRoot.path ++ s.urlName }
    if env.fs.isDirectory (cStr s.urlName) then s.emit (.returnToNull .notFound)
    else
      let (b, s) := PluginsService.callFilter env s
      if b then s else writeFile env s.urlName s

/-- `CALL_POST`, `CALL_PUT` and `CALL_DELETE`. -/
def callOther (env : Env) (request : Request) (s : TaskState) : TaskState :=
  let (b, s) := doParsing env request s
  if b then s else s.emit (.returnToNull .notImplemented)

/-- `CALL_HEAD`: nothing is executed or opened, the answer only says what is there. -/
def callHead (env : Env) (request : Request) (s : TaskState) : TaskState :=
  let s := { s with urlName := request.path }
  let s := if s.urlName = [] then { s with urlName := lit "/" } else s
  let (services, s) := PluginsService.check env s
  if services.isSome then s.emit (.returnToNull .ok)
  else
    let inCgi := match find [47] (s.urlName.drop 1) with
      | none => false
      | some pos => s.urlName.take (pos + 1) = env.config.cgiAccess &&
          env.fs.fileExists (cStr (env.config.cgiPath.path ++ s.urlName.drop (pos + 2)))
    if inCgi = true then s.emit (.returnToNull .ok)
    else if env.fs.fileExists (cStr (env.config.resourceRoot.path ++ s.urlName)) then
      s.emit (.returnToNull .notFound)
    else s.emit (.returnToNull .ok)

/-- The method decides what `run` calls. -/
def dispatch (env : Env) (request : Request) (s : TaskState) : TaskState :=
  match request.method with
  | .get => callGet env request s
  | .post | .put | .delete => callOther env request s
  | .head => callHead env request s
  | .options | .connect | .trach => s.emit (.returnToNull .serviceUnavailable)
  | .unknown => s.emit (.writeDefault .badRequest)

/-- `run`. -/
def run (env : Env) (request : Request) : TaskState :=
  let s := dispatch env request ⟨[], false, []⟩
  if request.keepAlive then s else s.emit .close

end Task

end Gts3.Web
