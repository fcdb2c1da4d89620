import Gts3.Http.AllBody
import Gts3.Http.SaveFile
import Gts3.Http.WriteFile

/-!
# A file that is uploaded and served again

`save_file` reads a body with a length through a buffer of the size of the socket's send buffer, so nothing is written
behind the buffer, and a peer that sends the whole body is read to the end (`saveLoop_sends`).  The file holds the body
then, whatever it held before and however the body came.  What is in the socket behind the body is left to the next
request; what came behind the body in the segment of the head has been cut off before.
`write_file` serves it as it was sent (`stored_served`), except that an empty body leaves a file that is not served.
-/

namespace Gts3.Http

open Lib Lib.Cxx Lib.HttpMessage Lib.FileStream

namespace Request

variable {r : Request} {sock : TcpSocket} {tplen : ℕ}

/-- **The loop of `save_file`** when the peer sends the body. -/
theorem saveLoop_sends {tcp : ℕ} {s : SaveLoop} (h : s.request.Owes sock tplen)
    (hsends : sock.Sends (tplen - s.request.body.length)) (hvalid : s.request.isValid = true) (htcp : 0 < tcp)
    (hbuf : tcp ≤ s.buf.size) (herror : s.error = none) {start : ℕ} {data : Bytes} (hfile : s.file.Holds start data) :
    ∃ fuel s' sock', saveLoop tcp fuel none s = .ok s' ∧ s'.error = none ∧ s'.sum = s.sum + tplen ∧
      s'.file.Holds start (data ++ (s.request.body ++ sock.stream).take tplen) ∧ s'.request.Owes sock' 0 ∧
      s'.request.body ++ sock'.stream = (s.request.body ++ sock.stream).drop tplen := by
  induction hn : tplen using Nat.strong_induction_on generalizing s sock tplen data with
  | _ n ih =>
    subst hn
    by_cases hz : tplen = 0
    · refine ⟨1, s, sock, ?_, herror, by rw [hz, Nat.add_zero], ?_, hz ▸ h, by rw [hz, List.drop_zero]⟩
      · rw [saveLoop, if_neg (by rw [h.canReadBody_iff]; exact fun hno => hno.2 hz)]
      · rw [hz, List.take_zero, List.append_nil]
        exact hfile
    · have hroom : min tcp tplen ≤ s.buf.size := by omega
      obtain ⟨res, sock₁, hok, hgives, hcount, hnoError, hsends₁⟩ :=
        readBodyLengthMode_sends h.socket_eq h.context hroom hsends
      have hgiven := h.gives hz hgives
      have hbytes := hgiven.bytes_eq
      have howes := hgiven.owes
      rw [Buffer.length_front] at howes
      have hpos : res.count ≠ 0 := by omega
      -- the rounds behind the first one
      obtain ⟨fuel, s', sock', hloop, herror', hsum, hholds, hdone, hleft⟩ := ih (tplen - res.count) (by omega)
        (s := { s with
          request := res.request
          buf := res.buf
          given := s.given ++ res.buf.front res.count
          sum := s.sum + res.count
          file := s.file.write (res.buf.front res.count) })
        howes hsends₁ (by rw [hgives.isValid_eq h.socket_eq]; exact hvalid)
        (by simp only [hgives.bufSize_eq]; exact hbuf) herror (hfile.write _) rfl
      refine ⟨fuel + 1, s', sock', ?_, herror', ?_, ?_, hdone, ?_⟩
      · rw [saveLoop, if_pos (h.canReadBody_iff.mpr ⟨hvalid, hz⟩), h.readBodyInto_eq hz s.buf htcp, hok]
        simp only [ok_bind, hnoError, if_neg hpos, hloop]
      · rw [hsum]
        show s.sum + res.count + (tplen - res.count) = s.sum + tplen
        omega
      · have htake : (res.buf.front res.count ++ (res.request.body ++ sock₁.stream)).take tplen =
            res.buf.front res.count ++ (res.request.body ++ sock₁.stream).take (tplen - res.count) := by
          rw [List.take_append, Buffer.length_front, List.take_of_length_le (by rw [Buffer.length_front]; omega)]
        rw [← hbytes, htake, ← List.append_assoc]
        exact hholds
      · have hdrop : (res.buf.front res.count ++ (res.request.body ++ sock₁.stream)).drop tplen =
            (res.request.body ++ sock₁.stream).drop (tplen - res.count) := by
          rw [List.drop_append, Buffer.length_front, List.drop_of_length_le (by rw [Buffer.length_front]; omega),
            List.nil_append]
        rw [← hbytes, hdrop]
        exact hleft

/-- A body with a length, with a peer that sends it, for a call that opens its file. -/
structure Uploads (disk : Disk) (r : Request) (sock : TcpSocket) (tplen : ℕ) (fileName : Bytes) : Prop where
  owes : r.Owes sock tplen
  valid : r.isValid = true
  sends : sock.Sends (tplen - r.body.length)
  buffer : 0 < sock.sendBufferSize
  opens : Opens disk fileName

/-- **`save_file`** leaves the body in the file, and the bytes behind it to the next request. -/
theorem Uploads.saveFile {disk : Disk} {fileName : Bytes} (h : r.Uploads disk sock tplen fileName) :
    ∃ fuel res sock', r.saveFile disk fuel fileName 0 = .ok res ∧ res.error = none ∧ res.sum = tplen ∧
      res.content = some ((r.body ++ sock.stream).take tplen) ∧ res.request.Owes sock' 0 ∧
      res.request.body ++ sock'.stream = (r.body ++ sock.stream).drop tplen := by
  have hstarts : Starts disk fileName 0 := ⟨h.opens, fun hno => absurd hno (lt_irrefl _)⟩
  obtain ⟨fuel, s', sock', hloop, herror, hsum, hholds, hdone, hleft⟩ :=
    saveLoop_sends (s := ⟨r, Buffer.zeros sock.sendBufferSize, OutFile.opened.seekp 0, 0, none, []⟩) h.owes h.sends
      h.valid h.buffer le_rfl rfl (OutFile.holds_seekp 0)
  have hcontent : s'.file.content = (r.body ++ sock.stream).take tplen := by
    simpa using hholds.drop_eq
  have hsum' : s'.sum = tplen := by simpa using hsum
  refine ⟨fuel, ⟨s'.request, s'.sum, s'.error, some s'.file.content, s'.given⟩, sock', ?_, herror, hsum',
    congrArg some hcontent, hdone, hleft⟩
  have hsave := (save_cases disk fuel r none fileName 0).resolve_left fun hno => hno.1 hstarts
  rw [Request.saveFile, hsave.2, h.owes.socket_eq]
  simp only [hloop, ok_bind]

end Request

/-- A response that nothing has been done to, for a request without a range. -/
structure Response.Untouched (r : Response) : Prop where
  noRange : r.request.headers.find? Header.range = none
  valid : r.request.isValid = true
  fresh : r.headersWrited = false
  status : r.status = .ok
  unchunked : r.isChunked = false
  buffer : ∃ bufSize, r.tcpIpBufferSize = .ok bufSize ∧ 0 < bufSize

/-- **Stored and served**: a body that a peer uploads is, as long as it is not empty, what any later request for the
file is answered with, byte for byte; and of the bytes that the request had and that were in the socket, those behind
the body are still there. -/
theorem stored_served {disk : Disk} {r : Request} {sock : TcpSocket} {tplen : ℕ} {fileName : Bytes}
    (h : r.Uploads disk sock tplen fileName) :
    ∃ fuel res sock' body, r.saveFile disk fuel fileName 0 = .ok res ∧ res.error = none ∧ res.sum = tplen ∧
      res.content = some body ∧ body.length = tplen ∧ res.request.Owes sock' 0 ∧
      body ++ (res.request.body ++ sock'.stream) = r.body ++ sock.stream ∧
      ∀ (files : Files) (r' : Response) (url name : Bytes), files.found (files.absolutePath url) = some name →
        files.content name = res.content → r'.Untouched → (ServesFile files r' url body ↔ body ≠ []) := by
  obtain ⟨fuel, res, sock', hsave, herror, hsum, hcontent, hdone, hleft⟩ := h.saveFile
  have henough : tplen ≤ (r.body ++ sock.stream).length := by
    have := h.sends.bytes
    rw [List.length_append]
    omega
  refine ⟨fuel, res, sock', (r.body ++ sock.stream).take tplen, hsave, herror, hsum, hcontent, ?_, hdone, ?_, ?_⟩
  · rw [List.length_take, Nat.min_eq_left henough]
  · rw [hleft, List.take_append_drop]
  · intro files r' url name hfound hname hr'
    obtain ⟨bufSize, hbuf, hpos⟩ := hr'.buffer
    exact servesFile_iff hfound (hname.trans hcontent) hr'.noRange hr'.valid hr'.fresh hr'.status hr'.unchunked
      hbuf hpos

/-- Two bytes of the body came with the head, the others come one by one in front of the next request. -/
def uploadSocket : TcpSocket where
  isOpen := true
  sendBufferSize := 3
  stream := lit "s3GET"
  script := [⟨1, none⟩, ⟨0, none⟩, ⟨1, none⟩, ⟨3, none⟩]
  sent := []

def uploadRequest : Request :=
  { Request.new with
    method := .post, version := lit "1.1", path := lit "/a", rbStatus := .length, rbContext := .size 4,
    body := lit "gt", socket := some uploadSocket }

theorem uploads_uploadRequest :
    uploadRequest.Uploads (Request.oneFileDisk (lit "old content")) uploadSocket 4 (lit "/a") where
  owes := ⟨rfl, rfl, by decide, rfl⟩
  valid := rfl
  sends := ⟨by decide, by decide, by decide⟩
  buffer := by decide
  opens := ⟨by decide, rfl⟩

theorem untouched_overSmallBuffer : Response.overSmallBuffer.Untouched where
  noRange := rfl
  valid := by decide
  fresh := rfl
  status := rfl
  unchunked := by decide
  buffer := ⟨3, rfl, by decide⟩

/-- Over an older file, which is longer. -/
theorem stored_served_four : ∃ fuel res,
    uploadRequest.saveFile (Request.oneFileDisk (lit "old content")) fuel (lit "/a") 0 = .ok res ∧
    res.content = some (lit "gts3") ∧
    ServesFile (oneFile (lit "gts3")) Response.overSmallBuffer (lit "/a") (lit "gts3") := by
  obtain ⟨fuel, res, sock', body, hsave, -, -, hcontent, hlength, -, hbytes, hserved⟩ :=
    stored_served uploads_uploadRequest
  have hsplit : body ++ (res.request.body ++ sock'.stream) = lit "gts3" ++ lit "GET" := hbytes
  obtain rfl : body = lit "gts3" := (List.append_inj hsplit hlength).1
  have hfile := hserved (oneFile (lit "gts3")) Response.overSmallBuffer (lit "/a") (lit "/a") rfl
    (by rw [hcontent]; rfl) untouched_overSmallBuffer
  exact ⟨fuel, res, hsave, hcontent, hfile.mpr (by decide)⟩

end Gts3.Http
