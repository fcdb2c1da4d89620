import Gts3.Http.Request

/-!
# `gts/http/parser.cpp`: the parser of request heads

`parser_impl` with its buffer, its cached request and the request it hands out, as the source has it.  A null
`m_cache` that is used is a fault, and the loop of `load` gets as many rounds as there are bytes in the buffer.
-/

namespace Gts3.Http

open Lib Lib.Search Lib.Cxx

/-- `enum class state`. -/
inductive State
  | waitingRequest
  | readingHeaders
  deriving DecidableEq, Repr

/-- `parser_impl`. -/
structure Parser where
  state : State
  buffer : Bytes
  cache : Option Request
  context : Option Request
  deriving DecidableEq

/-- The test of `std::unique` on the path. -/
def sameSlash (c0 c1 : UInt8) : Bool := c0 == c1 && c0 == 47

/-- The loop over the parameters of the request line. -/
def loadParameters : Parameters → List Bytes → Run Parameters
  | parameters, [] => .ok parameters
  | parameters, paraStr :: list =>
    match find [61] paraStr with
    | none => loadParameters (parameters.emplace paraStr paraStr) list
    | some pos => do
      let key ← substr paraStr 0 pos
      let value ← substrFrom paraStr (pos + 1)
      loadParameters (parameters.emplace key value) list

namespace Parser

/-- `parser_impl(buf_size)`. -/
def new : Parser := ⟨.waitingRequest, [], some Request.new, none⟩

/-- The part of `state_handler_waiting_request` that takes the resource line apart. -/
def loadResource (cache : Request) (resourceLine : Bytes) : Run Request :=
  match find [63] resourceLine with
  | none => .ok { cache with path := resourceLine }
  | some pos => do
    let path ← substr resourceLine 0 pos
    let parametersString ← substrFrom resourceLine (pos + 1)
    let parameters ← loadParameters cache.parameters (← strSplit parametersString [38] true)
    .ok { cache with path, parametersString, parameters }

/-- The part of `state_handler_waiting_request` that fills the cached request. -/
def loadTarget (cache : Request) (target : Bytes) : Run Request := do
  let cache ← loadResource cache (fromPercentEncoding target)
  .ok { cache with path := unique sameSlash cache.path }

/-- `state_handler_waiting_request`. -/
def stateHandlerWaitingRequest (p : Parser) (lineBuf : Bytes) : Run (Bool × Parser) := do
  match ← strSplit lineBuf [32] true with
  | [methodPart, targetPart, versionPart] =>
    if strStartsWith (strToUpper versionPart) (lit "HTTP/") = false then .ok (false, { p with buffer := [] })
    else
      let method := fromMethodString methodPart
      if method = .unknown then .ok (false, { p with buffer := [] })
      else do
        let cache := p.cache.getD Request.new
        let version ← substr versionPart 5 3
        let cache ← loadTarget { cache with method, version } targetPart
        .ok (true, { p with cache := some cache, state := .readingHeaders })
  | _ => .ok (false, { p with buffer := [] })

/-- `next_request_ready`. -/
def nextRequestReady (p : Parser) : Run (Option Request × Parser) :=
  match p.cache with
  | none => .error .nullPointer
  | some request => do
    let request ← request.finish p.buffer
    .ok (some request, { p with state := .waitingRequest, cache := none, buffer := [] })

/-- `reset`. -/
def reset (p : Parser) : Parser := { p with state := .waitingRequest, buffer := [], cache := none }

/-- `state_handler_reading_headers`. -/
def stateHandlerReadingHeaders (p : Parser) (lineBuf : Bytes) : Run (Option Request × Parser) :=
  if lineBuf = crlf then p.nextRequestReady
  else match p.cache with
    | none => .error .nullPointer
    | some cache => do
      let (headers, cookies, good) ← loadHeaderLine cache.headers cache.cookies lineBuf
      let p := { p with cache := some { cache with headers, cookies } }
      .ok (if good then (none, p) else (some Request.new, p.reset))

/-- The loop of `load`. -/
def loadLoop : ℕ → Parser → Run (Bool × Parser)
  | 0, _ => .error .diverge
  | fuel + 1, p =>
    if p.buffer = [] then .ok (false, p)
    else match find crlf p.buffer with
      | none =>
        if p.buffer.length < 1024 then .ok (false, p)
        else match p.state with
          | .waitingRequest => .ok (false, { p with buffer := [] })
          | .readingHeaders => .ok (false, p.reset)
      | some pos => do
        let lineBuf ← substr p.buffer 0 (pos + 2)
        let p := { p with buffer := p.buffer.drop (pos + 2) }
        match p.state with
        | .waitingRequest => do
          let (_, p) ← p.stateHandlerWaitingRequest lineBuf
          loadLoop fuel p
        | .readingHeaders => do
          match ← p.stateHandlerReadingHeaders lineBuf with
          | (some request, p) => .ok (true, { p with context := some request })
          | (none, p) => loadLoop fuel p

/-- `load`. -/
def load (p : Parser) (data : Bytes) : Run (Bool × Parser) :=
  loadLoop ((p.buffer ++ data).length + 1) { p with buffer := p.buffer ++ data }

/-- `get_request`. -/
def getRequest (p : Parser) (socket : Option TcpSocket) : Option Request × Parser :=
  match p.context with
  | none => (none, p)
  | some request => (some { request with socket }, { p with context := none })

end Parser

end Gts3.Http
