import Gts3.Http.Request

/-!
# `gts/http/response.cpp`: writing a response

The fields of `response_impl` and the calls that write.  What has been written is in the socket of the request.
-/

namespace Gts3.Http

open Lib Lib.Cxx Lib.HttpMessage

/-- `http::cookie`: a value with attributes. -/
structure Cookie where
  value : Bytes
  attributes : Headers
  deriving DecidableEq

/-- `http::cookies`. -/
abbrev Cookies := UMap Bytes Cookie

/-- `response_impl`. -/
structure Response where
  request : Request
  status : Status
  cookies : Cookies
  headers : Headers
  chunkAttributes : List Bytes
  chunkEndWrited : Bool
  headersWrited : Bool
  deriving DecidableEq

/-- The function of `set_default_write`: the bodies it hands to `write`, when there is one. -/
abbrev WriteDefault := Option (Response → List Bytes)

namespace Response

/-- `response(request)`. -/
def new (request : Request) : Response where
  request := request
  status := .ok
  cookies := UMap.empty
  headers := OrdMap.empty.assign Header.contentType (lit "text/plain; charset=utf-8")
  chunkAttributes := []
  chunkEndWrited := false
  headersWrited := false

/-- `socket().write_some(data)`. -/
def send (r : Response) (data : Bytes) : Run Response :=
  match r.request.socket with
  | none => .error .nullPointer
  | some sock => .ok { r with request := { r.request with socket := some (sock.writeSome data) } }

/-! ## Headers -/

/-- `set_header`. -/
def setHeader (r : Response) (key value : Bytes) : Response := { r with headers := r.headers.assign key value }

/-- `unset_header`. -/
def unsetHeader (r : Response) (key : Bytes) : Response := { r with headers := r.headers.erase key }

/-- `unset_cookie`. -/
def unsetCookie (r : Response) (key : Bytes) : Response := { r with cookies := r.cookies.erase key }

/-- `set_cookie`. -/
def setCookie (r : Response) (key : Bytes) (cookie : Cookie) : Response :=
  { r with cookies := r.cookies.assign key cookie }

/-- `set_status`. -/
def setStatus (r : Response) (status : Status) : Response := { r with status }

/-- `headers_contains`. -/
def headersContains (r : Response) (key : Bytes) : Bool := (r.headers.find? key).isSome

/-- The text of a cookie up to the line end: its last semicolon is taken away again. -/
def cookieText (e : Bytes × Cookie) : Bytes :=
  (lit "set-cookie: " ++ e.1 ++ lit "=" ++ e.2.value ++ lit ";" ++
    e.2.attributes.entries.flatMap (fun a => a.1 ++ lit "=" ++ a.2 ++ lit ";")).dropLast

/-- The loops of `serialize_headers_and_cookies`. -/
def serialize (headers : Headers) (cookies : Cookies) : Bytes :=
  headers.entries.flatMap (fun e => e.1 ++ lit ": " ++ e.2 ++ crlf) ++
    cookies.entries.flatMap (fun e => cookieText e ++ crlf)

/-- `serialize_headers_and_cookies`; a header `set-cookie` is erased first. -/
def serializeHeadersAndCookies (r : Response) : Bytes × Response :=
  let r := { r with headers := r.headers.erase (lit "set-cookie") }
  (serialize r.headers r.cookies, r)

/-- The status line that `write` and `write_default` begin with. -/
def statusText (r : Response) : Bytes :=
  lit "HTTP/" ++ r.request.version ++ lit " " ++ formatNat 10 r.status.code ++ lit " " ++
    statusDescription r.status ++ crlf

/-- Status line, headers, cookies and the blank line go out. -/
def sendHeaders (r : Response) : Run Response :=
  let result := r.statusText
  let (text, r) := r.serializeHeadersAndCookies
  r.send (result ++ text ++ crlf)

/-! ## Bodies -/

/-- Whether the header `Transfer-Encoding` says chunked. -/
def transferEncodingChunked (r : Response) : Bool :=
  match r.headers.find? Header.transferEncoding with
  | none => false
  | some v => strToLower v = lit "chunked"

/-- `is_chunked`. -/
def isChunked (r : Response) : Bool := if r.request.version ≠ lit "1.1" then false else r.transferEncodingChunked

/-- The size line of a chunk, which uses the chunk attributes up. -/
def sendChunkSize (r : Response) (size : ℕ) : Run Response :=
  if r.chunkAttributes = [] then r.send (formatNat 16 size ++ crlf)
  else
    let attributes := (r.chunkAttributes.flatMap (fun attr => attr ++ lit ";")).dropLast
    { r with chunkAttributes := [] }.send (formatNat 16 size ++ lit "; " ++ attributes ++ crlf)

/-- `write_body`. -/
def writeBody (r : Response) (body : Bytes) (isChunked : Bool) : Run Response :=
  match r.request.socket with
  | none => .error .nullPointer
  | some sock =>
    if sock.isOpen = false then .ok r
    else if isChunked = false then r.send body
    else do
      let r ← r.sendChunkSize body.length
      let r ← r.send body
      if body.length > 0 then r.send crlf else .ok r

/-- The headers that `write` completes before it sends them. -/
def prepareHeaders (r : Response) (size : ℕ) : Response :=
  if r.headersContains Header.contentLength then r
  else if r.request.version = lit "1.1" then
    if r.transferEncodingChunked then r else r.setHeader Header.contentLength (formatNat 10 size)
  else r.setHeader Header.contentLength (formatNat 10 size)

/-- `write(size, body)`. -/
def write (r : Response) (body : Bytes) : Run Response := do
  let r ← if r.headersWrited = false then ({ r with headersWrited := true }.prepareHeaders body.length).sendHeaders
    else .ok r
  if body.length > 0 then r.writeBody body r.isChunked else .ok r

/-- `write` for several bodies. -/
def writeAll : Response → List Bytes → Run Response
  | r, [] => .ok r
  | r, body :: bodies => do writeAll (← r.write body) bodies

/-- The text that `write_default` sends as the body. -/
def defaultBody (status : Status) : Bytes :=
  statusDescription status ++ lit " (" ++ formatNat 10 status.code ++ lit ")"

/-- `write_default`. -/
def writeDefault (g : WriteDefault) (r : Response) : Run Response :=
  if r.headersWrited then .ok r
  else
    let r := { r with headersWrited := true }
    match g with
    | some deft => r.writeAll (deft r)
    | none => do
      let body := defaultBody r.status
      let r := (r.setHeader Header.contentLength (formatNat 10 body.length)).unsetHeader Header.transferEncoding
      let r ← r.sendHeaders
      r.send body

/-- `set_chunk_attribute`. -/
def setChunkAttribute (r : Response) (attr : Bytes) : Response :=
  { r with chunkAttributes := r.chunkAttributes ++ [attr] }

/-- `chunk_end(headers)`. -/
def chunkEnd (r : Response) (headers : Headers) : Run Response :=
  if r.headersContains Header.contentLength ∨ r.chunkEndWrited then .ok r
  else if r.request.version ≠ lit "1.1" then .ok r
  else if r.transferEncodingChunked = false then .ok r
  else do
    let r := { r with chunkEndWrited := true }
    let r ← r.send (lit "0\r\n")
    r.send (headers.entries.flatMap (fun e => e.1 ++ lit ": " ++ e.2 ++ crlf) ++ crlf)

/-- The destructor. -/
def destroy (g : WriteDefault) (r : Response) : Run Response :=
  if r.request.isValid = false then .ok r
  else do
    let r ← if r.headersWrited = false then
        (if r.request.websocket then r.setStatus .notAcceptable else r).writeDefault g
      else .ok r
    r.chunkEnd OrdMap.empty

end Response

end Gts3.Http
