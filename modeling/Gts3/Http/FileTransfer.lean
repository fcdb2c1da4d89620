import Gts3.Lib.FileStream
import Gts3.Http.RangeTransfer

/-!
# `gts/http/response.cpp`: `file_transfer` and `write_file`

A file goes out in pieces of the size of the socket's send buffer, as a whole (`defaultTransfer`) or in ranges
(`sendRange`).  What the file system answers, the types of files and the boundary, which holds the time, are
parameters.
-/

namespace Gts3.Http

open Lib Lib.Cxx Lib.FileStream

/-- `header::range`. -/
def Header.range : Bytes := lit "Range"

/-- What `file_transfer` asks for about files: `absolute_path`, `fs::exists`, what opening a file gives,
`get_mime_type`, and the boundary. -/
structure Files where
  absolutePath : Bytes → Bytes
  fileExists : Bytes → Bool
  /-- The bytes of the file, `none` when it cannot be opened. -/
  content : Bytes → Option Bytes
  mimeType : Bytes → Bytes
  boundary : Bytes

/-- `read(buf, n)` and `gcount()`. -/
def readInto (f : InFile) (buf : Buffer) (n : ℕ) : Run (ℕ × Buffer × InFile) := do
  let (data, f) := f.read n
  let buf ← buf.memcpy 0 data
  .ok (data.length, buf, f)

namespace Response

/-- `tcp_ip_buffer_size`. -/
def tcpIpBufferSize (r : Response) : Run ℕ :=
  match r.request.socket with
  | none => .error .nullPointer
  | some sock => .ok sock.sendBufferSize

/-! ## `write_body` -/

/-- `write_body(body, size, is_chunked)`, with what it returns: something of the body has been written. -/
def writeBodyGood (r : Response) (body : Bytes) (isChunked : Bool) : Run (Bool × Response) :=
  match r.request.socket with
  | none => .error .nullPointer
  | some sock => do
    let r ← r.writeBody body isChunked
    .ok (sock.isOpen && decide (0 < body.length), r)

/-- `write_body(body, is_chunked)` for a `char*`: it becomes a string, which ends at the first zero. -/
def writeBodyText (r : Response) (buf : Buffer) (isChunked : Bool) : Run (Bool × Response) :=
  if (0 : UInt8) ∈ buf.front buf.size then r.writeBodyGood (cStr (buf.front buf.size)) isChunked
  else .error .badIndex

/-! ## The whole file -/

/-- The loop of `default_transfer`. -/
def defaultLoop (bufSize : ℕ) (isChunked : Bool) : ℕ → Response → InFile → Buffer → Run Response
  | 0, _, _, _ => .error .diverge
  | fuel + 1, r, f, buf =>
    if f.eof then .ok r
    else do
      let (size, buf, f) ← readInto f buf bufSize
      if size = 0 then .ok r
      else do
        let (good, r) ← r.writeBodyGood (buf.front size) isChunked
        if good then defaultLoop bufSize isChunked fuel r f buf else .ok r

/-- `default_transfer`. -/
def defaultTransfer (r : Response) (f : InFile) (mimeType : Bytes) : Run Response :=
  let fileSize := f.content.length
  if fileSize = 0 then .ok r
  else do
    let r ← ((r.setHeader Header.contentLength (formatNat 10 fileSize)).setHeader Header.contentType mimeType).write []
    let bufSize ← r.tcpIpBufferSize
    defaultLoop bufSize r.isChunked (fileSize + 2) r f (Buffer.zeros bufSize)

/-! ## Ranges -/

/-- The loop of `send_range` for one range, of which `size` bytes are left. -/
def singleLoop (bufSize : ℕ) (isChunked : Bool) : ℕ → ℕ → Response → InFile → Buffer → Run Response
  | 0, _, _, _, _ => .error .diverge
  | fuel + 1, size, r, f, buf =>
    if f.eof then .ok r
    else if size ≤ bufSize then do
      let (count, buf, _) ← readInto f buf size
      if count = 0 then .ok r
      else do
        let (_, r) ← r.writeBodyGood (buf.front count) isChunked
        .ok r
    else do
      let (count, buf, f) ← readInto f buf bufSize
      let (good, r) ← r.writeBodyGood (buf.front count) isChunked
      if good then singleLoop bufSize isChunked fuel (size - bufSize) r f buf else .ok r

/-- The inner loop of `send_range` for several ranges; the flag says whether it goes on with the next range. -/
def partLoop (bufSize : ℕ) (isChunked : Bool) :
    ℕ → ℕ → Response → InFile → Buffer → Run (Bool × Response × InFile × Buffer)
  | 0, _, _, _, _ => .error .diverge
  | fuel + 1, size, r, f, buf =>
    if f.eof then .ok (true, r, f, buf)
    else if size ≤ bufSize then do
      let (count, buf, f) ← readInto f buf size
      if count = 0 then .ok (true, r, f, buf)
      else do
        -- the line end behind the bytes of the range, without a look at the size of the buffer
        let buf ← buf.memcpy count crlf
        let (good, r) ← r.writeBodyGood (buf.front (count + 2)) isChunked
        .ok (good, r, f, buf)
    else do
      let (count, buf, f) ← readInto f buf bufSize
      if count = 0 then .ok (false, r, f, buf)
      else do
        -- `write_body(buf, size)`: the size becomes `is_chunked`
        let (good, r) ← r.writeBodyText buf (decide (count ≠ 0))
        if good then partLoop bufSize isChunked fuel (size - bufSize) r f buf else .ok (false, r, f, buf)

/-- What stands in front of the bytes of a range. -/
def partHeader (boundary ctLine : Bytes) (value : RangeValue) : Bytes :=
  lit "--" ++ boundary ++ crlf ++ ctLine ++ crlf ++ value.crLine ++ crlf ++ crlf

/-- What stands behind the last range. -/
def closingBoundary (boundary : Bytes) : Bytes := lit "--" ++ boundary ++ lit "--" ++ crlf

/-- The loop of `send_range` over several ranges, and what is written behind it. -/
def partsLoop (boundary ctLine : Bytes) (bufSize : ℕ) (isChunked : Bool) :
    List RangeValue → Response → InFile → Buffer → Run Response
  | [], r, _, _ => do
    let (_, r) ← r.writeBodyGood (closingBoundary boundary) isChunked
    .ok r
  | value :: queue, r, f, buf => do
    let (good, r) ← r.writeBodyGood (partHeader boundary ctLine value) isChunked
    if good then do
      let (cont, r, f, buf) ← partLoop bufSize isChunked (value.size + 1) value.size r (f.seekg value.rangeBegin) buf
      if cont then partsLoop boundary ctLine bufSize isChunked queue r f buf else .ok r
    else .ok r

/-- `send_range`. -/
def sendRange (r : Response) (f : InFile) (boundary ctLine : Bytes) (queue : List RangeValue) : Run Response := do
  let r ← r.write []
  let bufSize ← r.tcpIpBufferSize
  match queue with
  | [] => .ok r
  | [value] =>
    singleLoop bufSize r.isChunked (value.size + 1) value.size r (f.seekg value.rangeBegin) (Buffer.zeros bufSize)
  | queue => partsLoop boundary ctLine bufSize r.isChunked queue r f (Buffer.zeros bufSize)

end Response

/-! ## `file_transfer` -/

namespace FileTransfer

variable (files : Files) (g : WriteDefault)

/-- `check`: the file that has been opened, under the name it was found. -/
def check (r : Response) (fileName : Bytes) : Run (Response × Option (Bytes × InFile)) :=
  let open' (fileName : Bytes) : Run (Response × Option (Bytes × InFile)) :=
    match files.content fileName with
    | some content => .ok (r, some (fileName, .opened content))
    | none => do
      let r ← (r.setStatus .forbidden).writeDefault g
      .ok (r, none)
  if files.fileExists fileName then open' fileName
  else if files.fileExists (fileName ++ lit ".html") then open' (fileName ++ lit ".html")
  else do
    let r ← (r.setStatus .notFound).writeDefault g
    .ok (r, none)

/-- `range_transfer`, with the call it ends with. -/
def transferRange (r : Response) (fileName : Bytes) (f : InFile) (rangeStr : Bytes) : Run Response := do
  match ← rangeTransfer r f.content.length files.boundary (files.mimeType fileName) rangeStr with
  | (r, .writeDefault status) => (r.setStatus status).writeDefault g
  | (r, .sendRange boundary ctLine queue) => r.sendRange f boundary ctLine queue

/-- `call`. -/
def call (r : Response) (fileName : Bytes) : Run Response := do
  match ← check files g r fileName with
  | (r, none) => .ok r
  | (r, some (fileName, f)) =>
    match r.request.headers.find? Header.range with
    | some rangeStr => transferRange files g r fileName f rangeStr
    | none => r.defaultTransfer f (files.mimeType fileName)

end FileTransfer

/-! ## `write_file` -/

/-- `response::range`. -/
structure FileRange where
  rangeBegin : ℕ
  rangeEnd : ℕ
  begin_lt : rangeBegin < 2 ^ 64
  end_lt : rangeEnd < 2 ^ 64
  deriving DecidableEq

namespace Response

variable (files : Files) (g : WriteDefault)

/-- `write_file(file_name)`. -/
def writeFile (r : Response) (fileName : Bytes) : Run Response :=
  if r.headersWrited then .ok r else FileTransfer.call files g r (files.absolutePath fileName)

/-- `write_file(file_name, range_http_value)`. -/
def writeFileRange (r : Response) (fileName rangeStr : Bytes) : Run Response :=
  if r.headersWrited then .ok r
  else do
    match ← FileTransfer.check files g r (files.absolutePath fileName) with
    | (r, none) => .ok r
    | (r, some (fileName, f)) => FileTransfer.transferRange files g r fileName f rangeStr

/-- The loop of `write_file(file_name, vector)`; it throws when a range begins before its end. -/
def rangesText : Bytes → List FileRange → Option Bytes
  | str, [] => some str
  | str, range :: ranges =>
    if range.rangeBegin ≥ range.rangeEnd then
      rangesText (str ++ (formatNat 10 range.rangeBegin ++ lit "-" ++ formatNat 10 range.rangeEnd ++ lit ",")) ranges
    else none

/-- `write_file(file_name, vector)`, `none` when it throws. -/
def writeFileRanges (r : Response) (fileName : Bytes) (ranges : List FileRange) : Option (Run Response) :=
  if ranges = [] then some (r.writeFile files g fileName)
  else (rangesText (lit "bytes=") ranges).map fun str => r.writeFileRange files g fileName str.dropLast

end Response

end Gts3.Http
