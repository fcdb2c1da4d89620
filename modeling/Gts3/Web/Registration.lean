import Gts3.Web.Task
import Gts3.Http.Parser

/-!
# `gts/web/detail/registration.h`: the services of the plugins

`requestHandleMethod` and `filterMethod` are the registrations of free functions and of members of a class.
`PluginsService.callMethod` is `plugins_service::call` down to the function that is invoked: which one, and whether its
parameters are what the request asks for.
-/

namespace Gts3.Web

open Lib Lib.Cxx Gts3.Http

/-! ## Services -/

/-- The types of parameters that registered functions have. -/
inductive ParameterType
  | request
  | response
  | socketPtr
  | environments
  deriving DecidableEq, Repr

/-- A function that is registered: what it takes, and which one it is. -/
structure Function where
  parameters : List ParameterType
  id : ℕ
  deriving DecidableEq, Repr

/-- A valid `rttr::method`. -/
structure RttrMethod where
  name : Bytes
  function : Function
  deriving DecidableEq

/-- `registration::service`; nothing stands for an invalid class type or method. -/
structure Service where
  classType : Option ℕ
  method : Option RttrMethod
  deriving DecidableEq

/-- `registration::service_array`. -/
abbrev ServiceArray := Vector Service 8

/-- `service_array()`. -/
def ServiceArray.new : ServiceArray := Vector.replicate 8 ⟨none, none⟩

/-- `g_path_hash`. -/
abbrev PathHash := UMap Bytes ServiceArray

/-- The value of an enumerator of `enum method`. -/
def methodValue : Method → ℤ
  | .unknown => -1
  | .get => 0x01
  | .put => 0x02
  | .post => 0x04
  | .head => 0x08
  | .delete => 0x10
  | .options => 0x20
  | .connect => 0x40
  | .trach => 0x80

/-- The methods from `GET` to `TRACH`, each with twice the value of the one before. -/
def knownMethods : List Method := [.get, .put, .post, .head, .delete, .options, .connect, .trach]

/-- `method_string`; the assertion in it fails for no known method. -/
def methodString : Method → Bytes
  | .get => lit "GET"
  | .put => lit "PUT"
  | .post => lit "POST"
  | .head => lit "HEAD"
  | .delete => lit "DELETE"
  | .options => lit "OPTIONS"
  | .connect => lit "CONNECT"
  | .trach => lit "TRACH"
  | .unknown => []

/-- The loop of `log2`. -/
def log2Loop : ℕ → ℤ → ℤ → ℕ → Option ℕ
  | 0, _, _, _ => none
  | fuel + 1, n, sum, res => if sum = n then some res else log2Loop fuel n (sum * 2) (res + 1)

/-- `registration::log2`; nothing for a value that the assertion refuses. -/
def log2 (n : Method) : Option ℕ :=
  if methodValue n < methodValue .get ∨ methodValue .trach < methodValue n then none
  else if n = .get then some 0
  else log2Loop 8 (methodValue n) 2 1

/-! ## Registration -/

/-- Why a registration ends the program. -/
inductive Fatal
  | invalidMethod
  | multipleRegistration
  | assertion
  deriving DecidableEq, Repr

/-- The loop of `service_array_insert` over the methods. -/
def insertLoop (classType : Option ℕ) (methodName : Bytes) (func : Function) (httpMethod : ℤ) :
    List Method → ServiceArray → Except Fatal ServiceArray
  | [], array => .ok array
  | m :: methods, array =>
    if httpMethod.toNat &&& (methodValue m).toNat = 0 then insertLoop classType methodName func httpMethod methods array
    else match (log2 m).bind (fun hc => (array[hc]?).map (hc, ·)) with
      | none => .error .assertion
      | some (hc, service) =>
        if service.method.isSome then .error .multipleRegistration
        else insertLoop classType methodName func httpMethod methods
          (array.setIfInBounds hc ⟨classType, some ⟨methodName ++ methodString m, func⟩⟩)

/-- `service_array_insert` for one value of flags. -/
def serviceArrayInsertOne (classType : Option ℕ) (methodName : Bytes) (func : Function) (httpMethod : ℤ)
    (array : ServiceArray) : Except Fatal ServiceArray :=
  if httpMethod < methodValue .get ∨ methodValue .trach < httpMethod then .error .invalidMethod
  else insertLoop classType methodName func httpMethod knownMethods array

/-- `service_array_insert` for a pack of flags. -/
def serviceArrayInsert (classType : Option ℕ) (methodName : Bytes) (func : Function) :
    List ℤ → ServiceArray → Except Fatal ServiceArray
  | [], array => .ok array
  | httpMethod :: tail, array =>
    (serviceArrayInsertOne classType methodName func httpMethod array).bind
      (serviceArrayInsert classType methodName func tail)

/-- The end of `_request_handle_method`: the services of the path are put into the hash. -/
def insertServices (pathHash : PathHash) (path : Bytes) (classType : Option ℕ) (methodName : Bytes) (func : Function)
    (httpMethods : List ℤ) : Except Fatal PathHash :=
  let pathHash := pathHash.emplace path .new
  (serviceArrayInsert classType methodName func httpMethods
    ((pathHash.find? path).getD .new)).map (pathHash.assign path)

/-- The path of a free function, as `_request_handle_method` makes it a key. -/
def requestPath (path : Bytes) : Bytes :=
  if path = [] then lit "/"
  else
    let path := unique sameSlash path
    let path := if path.head? ≠ some 47 then 47 :: path else path
    if path.length > 1 ∧ path.getLast? = some 47 then path.dropLast else path

/-- The name under which a function for a path and a method is registered, up to the method. -/
def requestName (path : Bytes) : Bytes := lit "gts.web.plugin.new_request." ++ path ++ lit "."

/-- `registration::_request_handle_method`. -/
def requestHandleMethod (pathHash : PathHash) (path : Bytes) (func : Function) (httpMethods : List ℤ) :
    Except Fatal PathHash :=
  insertServices pathHash (requestPath path) none (requestName (requestPath path)) func httpMethods

/-! ## Registration of the members of a class -/

/-- `m_path` of a `class_`. -/
def classPath (path : Bytes) : Bytes :=
  if path = lit "/" then path
  else if path = [] then lit "/"
  else
    let path := unique sameSlash path
    let path := if path.getLast? ≠ some 47 then path ++ [47] else path
    if path.head? ≠ some 47 then 47 :: path else path

/-- The path of a member, as `class_::_request_handle_method` makes it a key. -/
def classRequestPath (mPath path : Bytes) : Bytes :=
  if path ≠ [] then
    let path := unique sameSlash path
    let path := if path.head? = some 47 then path.drop 1 else path
    let path := if path ≠ [] ∧ path.getLast? = some 47 then path.dropLast else path
    mPath ++ path
  else mPath.dropLast

/-- `class_::_request_handle_method`. -/
def classRequestHandleMethod (pathHash : PathHash) (classType : ℕ) (mPath path : Bytes) (func : Function)
    (httpMethods : List ℤ) : Except Fatal PathHash :=
  insertServices pathHash (classRequestPath mPath path) (some classType)
    (lit "new_request." ++ classRequestPath mPath path ++ lit ".") func httpMethods

/-- The path of a filter, as `class_::_filter_method` makes it a key. -/
def classFilterPath (mPath path : Bytes) : Bytes :=
  let path := if path = [] then mPath.dropLast
    else
      let path := unique sameSlash path
      let path := if path.head? ≠ some 47 then 47 :: path else path
      let path := if path ≠ [] ∧ path.getLast? = some 47 then path.dropLast else path
      mPath ++ path
  if path.head? ≠ some 47 then 47 :: path else path

/-! ## `plugins_service::call` -/

/-- What `plugins_service::call` comes to. -/
inductive CallOutcome
  /-- No services under the path: `call` returns false. -/
  | notFound
  | methodNotAllowed
  /-- A filter has answered. -/
  | filtered
  /-- The function is invoked. -/
  | invoked (method : RttrMethod)
  /-- `call` returns true, and the function has not been invoked. -/
  | ignored
  /-- The program ends: an assertion fails, or the parameter types are taken for a bug. -/
  | aborted
  deriving DecidableEq

/-- `make_websocket_ptr` constructs a socket and does not throw. -/
def handshakes (request : Request) : Bool :=
  (request.headers.find? (lit "Upgrade")).any (fun v => strToLower v = lit "websocket") &&
    (request.headers.find? (lit "Sec-WebSocket-Key")).isSome

/-- `p1_type` in `call`. -/
def parameterType (request : Request) : ParameterType :=
  match request.headers.find? Header.connection with
  | none => .response
  | some v =>
    if strToLower v = lit "upgrade" then
      match request.headers.find? (lit "Upgrade") with
      | none => .response
      | some v => if strToLower v = lit "websocket" then .socketPtr else .response
    else .response

namespace PluginsService

/-- `method_call`. -/
def methodCall (method : RttrMethod) (p1Type : ParameterType) (request : Request) : CallOutcome :=
  match method.function.parameters with
  | [t0] =>
    if t0 = p1Type then
      match p1Type with
      | .request | .response => .invoked method
      | .socketPtr => if handshakes request then .invoked method else .ignored
      | .environments => .aborted
    else if t0 = .socketPtr then .ignored
    else .aborted
  | [t0, t1] =>
    if p1Type = .socketPtr ∧ handshakes request = false then .ignored
    else if p1Type = .socketPtr ∧ ((t0 = .socketPtr ∧ t1 = .environments) ∨ (t0 = .environments ∧ t1 = .socketPtr)) then
      .invoked method
    else if (t0 = .request ∧ t1 = .response) ∨ (t0 = .response ∧ t1 = .request) then .invoked method
    else .aborted
  | [t0, t1, t2] =>
    if (t0 = .request ∧ t1 = .response ∧ t2 = .environments) ∨ (t0 = .response ∧ t1 = .request ∧ t2 = .environments) ∨
        (t0 = .response ∧ t1 = .environments ∧ t2 = .request) ∨ (t0 = .environments ∧ t1 = .response ∧ t2 = .request) ∨
        (t0 = .environments ∧ t1 = .request ∧ t2 = .response) ∨
          (t0 = .request ∧ t1 = .environments ∧ t2 = .response) then
      .invoked method
    else .aborted
  | _ => .aborted

/-- `check`, in the hash itself. -/
def checkServices (pathHash : PathHash) (s : TaskState) : Option ServiceArray × TaskState :=
  let s := if s.urlName = [] then { s with urlName := lit "/" }
    else if s.urlName.length > 1 ∧ s.urlName.getLast? = some 47 then { s with urlName := s.urlName.dropLast }
    else s
  (pathHash.find? s.urlName, s)

/-- `call`, in the hash itself and down to the function. -/
def callMethod (pathHash : PathHash) (env : Env) (request : Request) (s : TaskState) : CallOutcome × TaskState :=
  match checkServices pathHash s with
  | (none, s) => (.notFound, s)
  | (some array, s) =>
    match (log2 request.method).bind (array[·]?) with
    | none => (.aborted, s)
    | some ss =>
      match ss.method with
      | none => (.methodNotAllowed, s.emit (.returnToNull .methodNotAllowed))
      | some method =>
        let (b, s) := callFilter env s
        if b then (.filtered, s) else (methodCall method (parameterType request) request, s)

end PluginsService

end Gts3.Web
