import Gts3.Http.HeaderLine
import Gts3.TcpSocket

/-!
# `gts/http/request.cpp`, `gts/http/detail/request_impl.cpp`: a request and its body

The fields of `request_impl`, `finish`, and the readers of the body as the source has them.  What `finish` computes
is `finished` (`finish_eq`).
-/

namespace Gts3.Http

open Lib Lib.Search Lib.Cxx

/-- `enum class rb_status`. -/
inductive RbStatus
  | length
  | waitSize
  | waitContent
  | waitHeaders
  | chunkedEnd
  | finished
  deriving DecidableEq, Repr

/-- The variant `m_rb_context`. -/
inductive RbContext
  | invalid
  | size (tplen : ℕ)
  | string (abuf : Bytes)
  deriving DecidableEq, Repr

/-- `request_impl`. -/
structure Request where
  keepAlive : Bool
  supportGzip : Bool
  websocket : Bool
  rbStatus : RbStatus
  rbContext : RbContext
  socket : Option TcpSocket
  method : Method
  version : Bytes
  path : Bytes
  parameters : Parameters
  headers : Headers
  cookies : BasicCookies
  parametersString : Bytes
  body : Bytes
  deriving DecidableEq

namespace Request

/-- `new request()`. -/
def new : Request where
  keepAlive := true
  supportGzip := false
  websocket := false
  rbStatus := .length
  rbContext := .invalid
  socket := none
  method := .get
  version := []
  path := []
  parameters := UMap.empty
  headers := OrdMap.empty
  cookies := UMap.empty
  parametersString := []
  body := []

instance : Inhabited Request := ⟨new⟩

/-! ## `finish` -/

/-- The loop of `finish` over the accepted encodings. -/
def acceptsGzip : List Bytes → Run Bool
  | [] => .ok false
  | str :: list => do
    if strToLower (← strTrimmed str) = lit "gzip" then .ok true else acceptsGzip list

/-- The first part of `finish`: whether the connection stays open. -/
def finishKeepAlive (r : Request) : Bool :=
  match r.headers.find? Header.connection with
  | none => r.version ≠ lit "1.0"
  | some v => strToLower v ≠ lit "close"

/-- The second part of `finish`: whether the client takes compressed answers. -/
def finishGzip (r : Request) : Run Bool :=
  match r.headers.find? Header.acceptEncoding with
  | none => .ok false
  | some v => do acceptsGzip (← strSplit v [44] true)

/-- The third part of `finish`: how the body is read, from the bytes behind the head. -/
def finishBody (r : Request) (body : Bytes) : Run Request :=
  match r.headers.find? Header.contentLength with
  | some v => do
    let tplen := (strtoull 10 v).value
    let body ← if body.length > tplen then substr body 0 tplen else .ok body
    .ok { r with body, rbStatus := if tplen > 0 then .length else .finished, rbContext := .size tplen }
  | none =>
    if r.version = lit "1.1" then
      match r.headers.find? Header.transferEncoding with
      | none => .ok { r with body, rbStatus := .finished }
      | some v =>
        if v ≠ lit "chunked" then .ok { r with body, rbStatus := .finished }
        else .ok { r with body := [], rbStatus := .waitSize, rbContext := .string body }
    else .ok { r with body, rbStatus := .finished, rbContext := .size 0 }

/-- The last part of `finish`: whether this is a websocket handshake. -/
def finishWebsocket (r : Request) : Bool :=
  if r.version = lit "1.1" then
    match r.headers.find? (lit "connection"), r.headers.find? (lit "upgrade") with
    | some c, some u => strToLower c = lit "upgrade" ∧ strToLower u = lit "websocket"
    | _, _ => r.websocket
  else r.websocket

/-- `finish`. -/
def finish (r : Request) (body : Bytes) : Run Request := do
  let r := { r with keepAlive := finishKeepAlive r }
  let r := { r with supportGzip := ← finishGzip r }
  let r ← finishBody r body
  .ok { r with websocket := finishWebsocket r }

/-! ## Tests on a request -/

/-- `is_valid`. -/
def isValid (r : Request) : Bool :=
  match r.socket with
  | none => false
  | some sock =>
    if !sock.isOpen || r.version = [] || r.path = [] then false
    else if r.method = .get then
      match r.headers.find? Header.contentLength with
      | none => true
      | some v => (strtoull 10 v).value ≤ 1024
    else true

/-- `can_read_body`. -/
def canReadBody (r : Request) : Bool := r.isValid && r.rbStatus ≠ .finished

/-! ## Reading a body with a length -/

/-- The variables of the loop of `read_body_length_mode`; `count` bytes of the buffer are filled. -/
structure LengthLoop where
  sock : TcpSocket
  tplen : ℕ
  size : ℕ
  count : ℕ
  buf : Buffer
  error : Option ErrorCode

/-- The loop of `read_body_length_mode`. -/
def readLengthLoop : ℕ → LengthLoop → Run LengthLoop
  | 0, _ => .error .diverge
  | fuel + 1, l =>
    if 0 < l.tplen ∧ 0 < l.size then do
      let (data, error, sock) ← l.sock.readSome l.size
      let buf ← l.buf.memcpy l.count data
      let size ← minus l.size data.length
      let tplen ← minus l.tplen data.length
      let l := { sock, tplen, size, count := l.count + data.length, buf, error }
      match error with
      | none => readLengthLoop fuel l
      | some _ =>
        if 0 < data.length then readLengthLoop fuel { l with error := none }
        else if 0 < l.count then .ok { l with error := none }
        else .ok l
    else .ok l

/-- What a body reader leaves: the request, the filled buffer, the error and the number of bytes. -/
structure ReadBody where
  request : Request
  buf : Buffer
  error : Option ErrorCode
  count : ℕ

/-- The end of `read_body_length_mode`. -/
def endLengthMode (r : Request) (tplen : ℕ) (buf : Buffer) (error : Option ErrorCode) (count : ℕ) : ReadBody :=
  if tplen = 0 then ⟨{ r with rbContext := .size 0, rbStatus := .finished }, buf, none, count⟩
  else ⟨{ r with rbContext := .size tplen }, buf, error, count⟩

/-- `read_body_length_mode`. -/
def readBodyLengthMode (r : Request) (buf : Buffer) (size : ℕ) : Run ReadBody :=
  match r.rbContext with
  | .size tplen => do
    let size := if size > tplen then tplen else size
    if size > r.body.length then
      let buf ← buf.memcpy 0 r.body
      let count := r.body.length
      let tplen ← minus tplen count
      let size ← minus size count
      match r.socket with
      | none => .error .nullPointer
      | some sock => do
        let l ← readLengthLoop (sock.script.length + 1) { sock, tplen, size, count, buf, error := none }
        .ok (endLengthMode { r with body := [], socket := some l.sock } l.tplen l.buf l.error l.count)
    else do
      let buf ← buf.memcpy 0 (r.body.take size)
      let tplen ← minus tplen size
      .ok (endLengthMode { r with body := r.body.drop size } tplen buf none size)
  | _ => .error .badVariant

/-! ## Reading a chunked body -/

/-- The variables of the loop of `read_body_chunked_mode`. -/
structure ChunkLoop where
  status : RbStatus
  size : ℕ
  body : Bytes
  headers : Headers
  cookies : BasicCookies
  deriving DecidableEq

/-- How the loop goes on behind a line: with the next line, behind it, or with an error. -/
inductive ChunkStep
  | next (l : ChunkLoop)
  | stop (l : ChunkLoop)
  | reset (l : ChunkLoop)
  deriving DecidableEq

/-- The loop body for a size line. -/
def chunkSizeLine (l : ChunkLoop) (lineBuf : Bytes) (pos : ℕ) : ChunkStep :=
  let lineBuf := lineBuf.take pos
  let lineBuf := match find [59] lineBuf with
    | none => lineBuf
    | some pos => lineBuf.take pos
  if lineBuf.length > 16 then .reset l
  else match stoull 16 lineBuf with
    | none => .reset l
    | some size => .next { l with size, status := if size = 0 then .waitHeaders else .waitContent }

/-- The loop body for a line of data. -/
def chunkContentLine (l : ChunkLoop) (lineBuf : Bytes) (pos : ℕ) : ChunkStep :=
  let lineBuf := lineBuf.take pos
  if l.size < lineBuf.length then .next { l with size := lineBuf.length, body := l.body ++ lineBuf }
  else .next { l with status := .waitSize, body := l.body ++ lineBuf }

/-- The loop body for a line of the trailer. -/
def chunkTrailerLine (l : ChunkLoop) (lineBuf : Bytes) : Run ChunkStep :=
  if lineBuf = crlf then .ok (.stop { l with status := .chunkedEnd })
  else do
    let (headers, cookies, good) ← loadHeaderLine l.headers l.cookies lineBuf
    let l := { l with headers, cookies }
    .ok (if good then .next l else .reset l)

/-- The loop body of `read_body_chunked_mode` for a line that ends behind `pos`. -/
def chunkStep (l : ChunkLoop) (lineBuf : Bytes) (pos : ℕ) : Run ChunkStep :=
  match l.status with
  | .waitSize => .ok (chunkSizeLine l lineBuf pos)
  | .waitContent => .ok (chunkContentLine l lineBuf pos)
  | .waitHeaders => chunkTrailerLine l lineBuf
  | _ => .ok (.next l)

/-- The loop of `read_body_chunked_mode`, with the unread rest of `abuf`; the flag says that it was reset. -/
def readChunkedLoop : ℕ → ChunkLoop → Bytes → Run (ChunkLoop × Bytes × Bool)
  | 0, _, _ => .error .diverge
  | fuel + 1, l, abuf =>
    if abuf = [] then .ok (l, abuf, false)
    else match find crlf abuf with
      | none => .ok (l, abuf, 1024 ≤ abuf.length)
      | some pos => do
        let lineBuf ← substr abuf 0 (pos + 2)
        let abuf := abuf.drop (pos + 2)
        match ← chunkStep l lineBuf pos with
        | .next l => readChunkedLoop fuel l abuf
        | .stop l => .ok (l, abuf, false)
        | .reset l => .ok (l, abuf, true)

/-- The end of `read_body_chunked_mode`: decoded bytes are copied to the front of the buffer. -/
def endChunkedMode (r : Request) (buf : Buffer) (size count : ℕ) (error : Option ErrorCode) : Run ReadBody :=
  if size ≤ r.body.length then do
    let buf ← buf.memcpy 0 (r.body.take size)
    .ok ⟨{ r with body := r.body.drop size }, buf, error, count + size⟩
  else do
    let buf ← buf.memcpy 0 r.body
    .ok ⟨{ r with body := [], rbStatus := if r.rbStatus = .chunkedEnd then .finished else r.rbStatus },
      buf, error, count + r.body.length⟩

/-- What `read_body_chunked_mode` does with the bytes it has not decoded yet. -/
def decodeChunked (r : Request) (abuf : Bytes) (buf : Buffer) (size count : ℕ) (error : Option ErrorCode) :
    Run ReadBody := do
  let (l, abuf, failed) ← readChunkedLoop (abuf.length + 1)
    ⟨r.rbStatus, 0, r.body, r.headers, r.cookies⟩ abuf
  let r := { r with rbStatus := l.status, body := l.body, headers := l.headers, cookies := l.cookies,
                    rbContext := .string abuf }
  if failed then .ok ⟨{ r with rbStatus := .finished }, buf, some .wrongProtocolType, 0⟩
  else endChunkedMode r buf size count error

/-- `read_body_chunked_mode`. -/
def readBodyChunkedMode (r : Request) (buf : Buffer) (size : ℕ) : Run ReadBody :=
  if size ≤ r.body.length then do
    let buf ← buf.memcpy 0 (r.body.take size)
    .ok ⟨{ r with body := r.body.drop size }, buf, none, size⟩
  else do
    let buf ← buf.memcpy 0 r.body
    let size := size - r.body.length
    let count := r.body.length
    let r := { r with body := [] }
    if r.rbStatus = .chunkedEnd then .ok ⟨{ r with rbStatus := .finished }, buf, none, count⟩
    else match r.rbContext with
      | .string abuf =>
        if abuf = [] then
          match r.socket with
          | none => .error .nullPointer
          | some sock => do
            let (data, error, sock) ← sock.readSome sock.sendBufferSize
            let r := { r with socket := some sock }
            match error with
            | none => decodeChunked r data buf size count none
            | some e =>
              if 0 < data.length then decodeChunked r data buf size count none
              else .ok ⟨r, buf, if 0 < count then none else some e, count⟩
        else decodeChunked r abuf buf size count none
      | _ => .error .badVariant

/-! ## `read_body` and `read_all_body` -/

/-- `read_body(error, buf, size)`. -/
def readBodyInto (r : Request) (buf : Buffer) (size : ℕ) : Run ReadBody :=
  if size = 0 then .ok ⟨r, buf, none, 0⟩
  else if r.rbStatus = .finished then .ok ⟨r, buf, none, 0⟩
  else if r.rbStatus = .length then readBodyLengthMode r buf size
  else readBodyChunkedMode r buf size

/-- `read_body(error, size)`. -/
def readBody (r : Request) (size : ℕ) : Run (Bytes × Option ErrorCode × Request) :=
  if r.rbStatus = .finished then .ok ([], none, r)
  else do
    let size ← if size = 0 then
        match r.socket with
        | none => .error .nullPointer
        | some sock => .ok sock.sendBufferSize
      else .ok size
    let res ← if r.rbStatus = .length then readBodyLengthMode r (Buffer.zeros size) size
      else readBodyChunkedMode r (Buffer.zeros size) size
    .ok (res.buf.front res.count, res.error, res.request)

/-- The loop of `read_all_body`. -/
def readAllLoop (tcpBufSize : ℕ) : ℕ → Request → Buffer → Bytes → Run (Bytes × Option ErrorCode × Request)
  | 0, _, _, _ => .error .diverge
  | fuel + 1, r, buf, result =>
    if r.canReadBody then do
      let res ← readBodyInto r buf tcpBufSize
      match res.error with
      | some e => .ok (result, some e, res.request)
      | none => readAllLoop tcpBufSize fuel res.request res.buf (result ++ res.buf.front res.count)
    else .ok (result, none, r)

/-- `read_all_body`, with a bound on the number of rounds of its loop. -/
def readAllBody (fuel : ℕ) (r : Request) : Run (Bytes × Option ErrorCode × Request) :=
  match r.socket with
  | none => .error .nullPointer
  | some sock => readAllLoop sock.sendBufferSize fuel r (Buffer.zeros 65536) []

/-! ## What `finish` computes -/

/-- Whether one of the encodings is gzip. -/
def acceptsGzipPure (list : List Bytes) : Bool := list.any (fun str => strToLower (trimmed str) = lit "gzip")

theorem acceptsGzip_eq (list : List Bytes) : acceptsGzip list = .ok (acceptsGzipPure list) := by
  induction list with
  | nil => rfl
  | cons str list ih =>
    rw [acceptsGzip, strTrimmed_eq, ok_bind, acceptsGzipPure, List.any_cons]
    split_ifs with h
    · simp [h]
    · rw [ih, acceptsGzipPure]
      simp [h]

/-- What `finish` makes of the accepted encodings. -/
def gzip (r : Request) : Bool :=
  match r.headers.find? Header.acceptEncoding with
  | none => false
  | some v => acceptsGzipPure (tokens 44 v)

theorem finishGzip_eq (r : Request) : finishGzip r = .ok r.gzip := by
  unfold finishGzip gzip
  cases r.headers.find? Header.acceptEncoding with
  | none => rfl
  | some v => simp only [strSplit_tokens, ok_bind, acceptsGzip_eq]

/-- What `finish` makes of the bytes behind the head. -/
def withBody (r : Request) (body : Bytes) : Request :=
  match r.headers.find? Header.contentLength with
  | some v =>
    { r with body := body.take (strtoull 10 v).value,
             rbStatus := if (strtoull 10 v).value > 0 then .length else .finished,
             rbContext := .size (strtoull 10 v).value }
  | none =>
    if r.version = lit "1.1" then
      if r.headers.find? Header.transferEncoding = some (lit "chunked") then
        { r with body := [], rbStatus := .waitSize, rbContext := .string body }
      else { r with body, rbStatus := .finished }
    else { r with body, rbStatus := .finished, rbContext := .size 0 }

theorem finishBody_eq (r : Request) (body : Bytes) : finishBody r body = .ok (r.withBody body) := by
  unfold finishBody withBody
  cases r.headers.find? Header.contentLength with
  | some v =>
    simp only [substr_zero]
    by_cases h : body.length > (strtoull 10 v).value
    · simp only [if_pos h, ok_bind]
    · simp only [if_neg h, ok_bind, List.take_of_length_le (Nat.le_of_not_lt h)]
  | none =>
    simp only
    split_ifs with hv hte
    · rw [hte]; rfl
    · cases hf : r.headers.find? Header.transferEncoding with
      | none => rfl
      | some v => simp only; rw [if_pos (by rintro rfl; exact hte hf)]
    · rfl

/-- What `finish` computes. -/
def finished (r : Request) (body : Bytes) : Request :=
  let r := { r with keepAlive := finishKeepAlive r, supportGzip := r.gzip }
  { r.withBody body with websocket := finishWebsocket (r.withBody body) }

/-- **`finish` never faults.** -/
theorem finish_eq (r : Request) (body : Bytes) : finish r body = .ok (r.finished body) := by
  simp only [finish, finishGzip_eq, ok_bind, finishBody_eq]
  rfl

end Request

end Gts3.Http
