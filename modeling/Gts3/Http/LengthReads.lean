import Gts3.Http.LengthBody

/-!
# Bodies with a length, for every behaviour of the socket

`read_body_length_mode` under partial reads, reads that bring nothing and reads that report errors.  What has been
given, what came with the head and what the socket still holds are always the same bytes in the same order
(`Owes.readBodyInto`); the call ends exactly when the bytes it needs arrive or a read that brings nothing reports an
error (`TcpSocket.Answers`).
-/

namespace Gts3

open Lib Lib.Cxx

/-! ## What a script brings -/

namespace TcpSocket

/-- The bytes that arrive through the script. -/
def arrives (sock : TcpSocket) : ℕ := min sock.stream.length (sock.script.map ReadOutcome.size).sum

/-- `need` bytes arrive, or an error is reported by a read that brings nothing. -/
def Answers (sock : TcpSocket) (need : ℕ) : Prop :=
  need ≤ sock.arrives ∨ ∃ before o later, sock.script = before ++ o :: later ∧ o.error ≠ none ∧
    (o.size = 0 ∨ sock.stream.length ≤ (before.map ReadOutcome.size).sum)

/-- The socket behind a read of `d` bytes. -/
def after (sock : TcpSocket) (d : ℕ) (script : List ReadOutcome) : TcpSocket :=
  { sock with stream := sock.stream.drop d, script := script }

theorem readSome_cons {sock : TcpSocket} {o : ReadOutcome} {script : List ReadOutcome} (h : sock.script = o :: script)
    (size : ℕ) :
    sock.readSome size = .ok (sock.stream.take (min o.size size), o.error, sock.after (min o.size size) script) := by
  simp only [readSome, h, after]

theorem length_after (sock : TcpSocket) (d : ℕ) (script : List ReadOutcome) :
    (sock.after d script).stream.length = sock.stream.length - d := List.length_drop

/-- The first read answers, or it leaves the rest to the others. -/
theorem answers_cons {sock : TcpSocket} {o : ReadOutcome} {script : List ReadOutcome} (h : sock.script = o :: script)
    {need : ℕ} (hneed : 0 < need) :
    sock.Answers need ↔ o.error ≠ none ∧ (sock.stream.take (min o.size need)).length = 0 ∨
      (sock.after (min o.size need) script).Answers (need - (sock.stream.take (min o.size need)).length) := by
  have hsum : (sock.script.map ReadOutcome.size).sum = o.size + (script.map ReadOutcome.size).sum := by
    rw [h, List.map_cons, List.sum_cons]
  have hafter : (sock.after (min o.size need) script).script = script := rfl
  simp only [Answers, arrives, hsum, hafter, length_after, List.length_take]
  constructor
  · rintro (henough | ⟨before, o', later, hscript, herror, hnothing⟩)
    · right
      left
      omega
    · rw [h] at hscript
      cases before with
      | nil =>
        obtain ⟨rfl, rfl⟩ := List.cons.inj hscript
        left
        refine ⟨herror, ?_⟩
        simp only [List.map_nil, List.sum_nil] at hnothing
        omega
      | cons first before =>
        obtain ⟨rfl, rfl⟩ := List.cons.inj hscript
        rw [List.map_cons, List.sum_cons] at hnothing
        right
        -- a read that was cut by `need` has brought all of it
        by_cases hcut : need ≤ o.size ∧ need ≤ sock.stream.length
        · left
          omega
        · right
          exact ⟨before, o', later, rfl, herror, by omega⟩
  · rintro (⟨herror, hnothing⟩ | henough | ⟨before, o', later, rfl, herror, hnothing⟩)
    · right
      refine ⟨[], o, script, h, herror, ?_⟩
      simp only [List.map_nil, List.sum_nil]
      omega
    · left
      omega
    · right
      refine ⟨o :: before, o', later, h, herror, ?_⟩
      rw [List.map_cons, List.sum_cons]
      omega

/-- Nothing arrives, and no error is reported, without reads. -/
theorem not_answers_nil {sock : TcpSocket} (h : sock.script = []) {need : ℕ} (hneed : 0 < need) :
    ¬ sock.Answers need := by
  rintro (henough | ⟨before, o, later, hscript, -⟩)
  · rw [arrives, h, List.map_nil, List.sum_nil] at henough
    omega
  · rw [h] at hscript
    cases before <;> simp at hscript

theorem answers_zero (sock : TcpSocket) : sock.Answers 0 := Or.inl (Nat.zero_le _)

end TcpSocket

namespace Http.Request

/-! ## The loop -/

/-- What the loop of `read_body_length_mode` keeps: the bytes in the buffer and in the socket are the same, and each
counter has gone down by what came into the buffer. -/
structure LengthLoop.Reads (l l' : LengthLoop) : Prop where
  count_le : l.count ≤ l'.count
  size_eq : l'.size + l'.count = l.size + l.count
  tplen_eq : l'.tplen + l'.count = l.tplen + l.count
  bufSize_eq : l'.buf.size = l.buf.size
  bytes_eq : l'.buf.front l'.count ++ l'.sock.stream = l.buf.front l.count ++ l.sock.stream
  sock_eq : l'.sock = { l.sock with stream := l'.sock.stream, script := l'.sock.script }

namespace LengthLoop

theorem Reads.refl (l : LengthLoop) : l.Reads l := ⟨le_rfl, rfl, rfl, rfl, rfl, rfl⟩

theorem Reads.trans {l l' l'' : LengthLoop} (h : l.Reads l') (h' : l'.Reads l'') : l.Reads l'' where
  count_le := h.count_le.trans h'.count_le
  size_eq := h'.size_eq.trans h.size_eq
  tplen_eq := h'.tplen_eq.trans h.tplen_eq
  bufSize_eq := h'.bufSize_eq.trans h.bufSize_eq
  bytes_eq := h'.bytes_eq.trans h.bytes_eq
  sock_eq := by
    rw [h'.sock_eq, h.sock_eq]

theorem Reads.setError {l l' : LengthLoop} (h : l.Reads l') (error : Option ErrorCode) :
    l.Reads { l' with error := error } := ⟨h.1, h.2, h.3, h.4, h.5, h.6⟩

/-- The variables behind a read of `data`. -/
def got (l : LengthLoop) (data : Bytes) (sock : TcpSocket) (buf : Buffer) (error : Option ErrorCode) : LengthLoop :=
  { sock, tplen := l.tplen - data.length, size := l.size - data.length, count := l.count + data.length, buf, error }

end LengthLoop

variable {l : LengthLoop} {o : ReadOutcome} {script : List ReadOutcome}

/-- **One read of the loop**: nothing wraps around, and what is written stays in the buffer. -/
theorem readLengthLoop_cons (fuel : ℕ) (hscript : l.sock.script = o :: script) (hpos : 0 < l.size)
    (hsize : l.size ≤ l.tplen) (hbuf : l.count + l.size ≤ l.buf.size) :
    ∃ data l', data = l.sock.stream.take (min o.size l.size) ∧ data.length ≤ l.size ∧
      l' = l.got data (l.sock.after (min o.size l.size) script) l'.buf o.error ∧ l.Reads l' ∧
      readLengthLoop (fuel + 1) l =
        if o.error = none then readLengthLoop fuel l'
        else if 0 < data.length then readLengthLoop fuel { l' with error := none }
        else if 0 < l'.count then .ok { l' with error := none } else .ok l' := by
  have hdata : (l.sock.stream.take (min o.size l.size)).length ≤ l.size := by
    rw [List.length_take]
    omega
  obtain ⟨buf, hcopy, hbsize, hfront⟩ := Buffer.memcpy_ok
    (show l.count + (l.sock.stream.take (min o.size l.size)).length ≤ l.buf.size by omega)
  refine ⟨_, l.got (l.sock.stream.take (min o.size l.size)) (l.sock.after (min o.size l.size) script) buf o.error,
    rfl, hdata, rfl, ?_, ?_⟩
  · constructor
    · exact Nat.le_add_right _ _
    · simp only [LengthLoop.got]
      omega
    · simp only [LengthLoop.got]
      omega
    · exact hbsize
    · simp only [LengthLoop.got, TcpSocket.after, hfront, List.append_assoc, List.take_append_drop]
    · rfl
  · rw [readLengthLoop, if_pos ⟨by omega, hpos⟩, TcpSocket.readSome_cons hscript]
    simp only [ok_bind, hcopy, minus_of_le hdata, minus_of_le (hdata.trans hsize)]
    cases o.error <;> rfl

/-- **The loop of `read_body_length_mode`** ends exactly when the socket answers. -/
theorem readLengthLoop_spec (fuel : ℕ) (l : LengthLoop) (hfuel : l.sock.script.length < fuel) (hsize : l.size ≤ l.tplen)
    (hbuf : l.count + l.size ≤ l.buf.size) :
    readLengthLoop fuel l = .error .blocked ∧ ¬ l.sock.Answers l.size ∨
      l.sock.Answers l.size ∧ ∃ l', readLengthLoop fuel l = .ok l' ∧ l.Reads l' := by
  induction fuel generalizing l with
  | zero => omega
  | succ fuel ih =>
    by_cases hz : l.size = 0
    · right
      rw [readLengthLoop, if_neg (by omega), hz]
      exact ⟨l.sock.answers_zero, l, rfl, .refl l⟩
    have hpos : 0 < l.size := Nat.pos_of_ne_zero hz
    cases hscript : l.sock.script with
    | nil =>
      left
      rw [readLengthLoop, if_pos ⟨by omega, hpos⟩, TcpSocket.readSome, hscript]
      exact ⟨rfl, TcpSocket.not_answers_nil hscript hpos⟩
    | cons o script =>
      obtain ⟨data, l', rfl, hle, hgot, hreads, heq⟩ := readLengthLoop_cons fuel hscript hpos hsize hbuf
      set data := l.sock.stream.take (min o.size l.size) with hdata
      have hsock : l'.sock = l.sock.after (min o.size l.size) script := by rw [hgot]; rfl
      have hsize' : l'.size = l.size - data.length := by rw [hgot]; rfl
      have hnext := TcpSocket.answers_cons hscript hpos
      rw [← hdata, ← hsock, ← hsize'] at hnext
      -- the loop goes on
      have hgo : ¬ (o.error ≠ none ∧ data.length = 0) → ∀ l₂ : LengthLoop, l₂ = { l' with error := l₂.error } →
          readLengthLoop fuel l₂ = .error .blocked ∧ ¬ l.sock.Answers l.size ∨
            l.sock.Answers l.size ∧ ∃ l'', readLengthLoop fuel l₂ = .ok l'' ∧ l.Reads l'' := by
        intro hno l₂ hl₂
        have hl : l₂.sock = l'.sock ∧ l₂.size = l'.size := by rw [hl₂]; exact ⟨rfl, rfl⟩
        have hreads₂ : l.Reads l₂ := by rw [hl₂]; exact hreads.setError _
        have hih := ih l₂ (by rw [hl.1, hsock]; simpa [hscript, TcpSocket.after] using hfuel)
          (by have := hreads₂.size_eq; have := hreads₂.tplen_eq; omega)
          (by rw [hreads₂.bufSize_eq]; have := hreads₂.size_eq; omega)
        rw [hl.1, hl.2] at hih
        rw [hnext, or_iff_right hno]
        rcases hih with hblocked | ⟨hans, l'', hok, hreads'⟩
        · exact Or.inl hblocked
        · exact Or.inr ⟨hans, l'', hok, hreads₂.trans hreads'⟩
      rw [heq]
      split_ifs with herror hbytes hcount
      · exact hgo (by simp [herror]) l' rfl
      · exact hgo (by omega) _ rfl
      · exact Or.inr ⟨hnext.mpr (Or.inl ⟨herror, by omega⟩), _, rfl, hreads.setError _⟩
      · exact Or.inr ⟨hnext.mpr (Or.inl ⟨herror, by omega⟩), _, rfl, hreads⟩

/-! ## One call -/

/-- What a call leaves that was to give up to `size` of the `tplen` bytes that are owed. -/
structure Gives (r : Request) (sock : TcpSocket) (tplen size : ℕ) (buf : Buffer) (res : ReadBody) (sock' : TcpSocket) :
    Prop where
  count_le : res.count ≤ min size tplen
  bytes_eq : res.buf.front res.count ++ (res.request.body ++ sock'.stream) = r.body ++ sock.stream
  body_eq : res.request.body = r.body.drop res.count
  bufSize_eq : res.buf.size = buf.size
  sock_eq : sock' = { sock with stream := sock'.stream, script := sock'.script }
  request_eq : res.request =
    { r with
      body := res.request.body
      socket := some sock'
      rbContext := .size (tplen - res.count)
      rbStatus := if tplen - res.count = 0 then .finished else r.rbStatus }

theorem endLengthMode_request (r : Request) (tplen : ℕ) (buf : Buffer) (error : Option ErrorCode) (count : ℕ) :
    endLengthMode r tplen buf error count =
      ⟨{ r with rbContext := .size tplen, rbStatus := if tplen = 0 then .finished else r.rbStatus }, buf,
        if tplen = 0 then none else error, count⟩ := by
  unfold endLengthMode
  split_ifs with h
  · rw [h]
  · rfl

section Call

variable {r : Request} {sock : TcpSocket} {tplen size : ℕ} {buf : Buffer}

/-- The loop runs for what did not come with the head. -/
theorem readBodyLengthMode_more (hsocket : r.socket = some sock) (hcontext : r.rbContext = .size tplen)
    (hbuf : min size tplen ≤ buf.size) (hmore : r.body.length < min size tplen) :
    ∃ buf' : Buffer, buf'.size = buf.size ∧ buf'.front r.body.length = r.body ∧
      readBodyLengthMode r buf size = (do
        let l ← readLengthLoop (sock.script.length + 1)
          { sock := sock, tplen := tplen - r.body.length, size := min size tplen - r.body.length,
            count := r.body.length, buf := buf', error := none }
        .ok (endLengthMode { r with body := [], socket := some l.sock } l.tplen l.buf l.error l.count)) := by
  have hcut : (if size > tplen then tplen else size) = min size tplen := by split_ifs <;> omega
  have htplen : r.body.length ≤ tplen := by omega
  obtain ⟨buf', hcopy, hbsize, hfront⟩ := Buffer.memcpy_ok (show 0 + r.body.length ≤ buf.size by omega)
  rw [Nat.zero_add, Buffer.front_zero, List.nil_append] at hfront
  refine ⟨buf', hbsize, hfront, ?_⟩
  rw [readBodyLengthMode, hcontext]
  simp only [hcut]
  rw [if_pos hmore, hcopy]
  simp only [ok_bind, minus_of_le htplen, minus_of_le hmore.le, hsocket]

theorem readBodyLengthMode_enough (hsocket : r.socket = some sock) (hcontext : r.rbContext = .size tplen)
    (hbuf : min size tplen ≤ buf.size) (henough : min size tplen ≤ r.body.length) :
    ∃ res, readBodyLengthMode r buf size = .ok res ∧ Gives r sock tplen size buf res sock ∧
      res.count = min size tplen ∧ res.error = none := by
  have hcut : (if size > tplen then tplen else size) = min size tplen := by split_ifs <;> omega
  have hlen : (r.body.take (min size tplen)).length = min size tplen := by
    rw [List.length_take]
    omega
  obtain ⟨buf', hcopy, hbsize, hfront⟩ := Buffer.memcpy_ok
    (show 0 + (r.body.take (min size tplen)).length ≤ buf.size by omega)
  rw [hlen, Nat.zero_add, Buffer.front_zero, List.nil_append] at hfront
  rw [readBodyLengthMode, hcontext]
  simp only [hcut]
  rw [if_neg (by omega), hcopy]
  simp only [ok_bind, minus_of_le (min_le_right size tplen), endLengthMode_request]
  refine ⟨_, rfl, ⟨le_rfl, ?_, rfl, hbsize, rfl, ?_⟩, rfl, by simp only [ite_self]⟩
  · rw [hfront, ← List.append_assoc, List.take_append_drop]
  · simp only [hsocket]

theorem gives_of_reads {buf' : Buffer} {l' : LengthLoop} (hmore : r.body.length < min size tplen)
    (hbsize : buf'.size = buf.size) (hfront : buf'.front r.body.length = r.body)
    (hreads : LengthLoop.Reads
      { sock := sock, tplen := tplen - r.body.length, size := min size tplen - r.body.length, count := r.body.length,
        buf := buf', error := none } l') :
    Gives r sock tplen size buf
      (endLengthMode { r with body := [], socket := some l'.sock } l'.tplen l'.buf l'.error l'.count) l'.sock := by
  have hcount := hreads.count_le
  have hsize := hreads.size_eq
  have hleft := hreads.tplen_eq
  have hbytes := hreads.bytes_eq
  simp only at hcount hsize hleft hbytes
  have htplen : l'.tplen = tplen - l'.count := by omega
  rw [endLengthMode_request]
  refine ⟨?_, ?_, ?_, ?_, hreads.sock_eq, by simp only [htplen]⟩
  · show l'.count ≤ min size tplen
    omega
  · simp only [List.nil_append, hbytes, hfront]
  · exact (List.drop_eq_nil_of_le hcount).symm
  · exact hreads.bufSize_eq.trans hbsize

/-- **`read_body_length_mode`** ends exactly when the socket answers for what did not come with the head. -/
theorem readBodyLengthMode_spec (hsocket : r.socket = some sock) (hcontext : r.rbContext = .size tplen)
    (hbuf : min size tplen ≤ buf.size) :
    readBodyLengthMode r buf size = .error .blocked ∧ ¬ sock.Answers (min size tplen - r.body.length) ∨
      sock.Answers (min size tplen - r.body.length) ∧
        ∃ res sock', readBodyLengthMode r buf size = .ok res ∧ Gives r sock tplen size buf res sock' := by
  by_cases hmore : r.body.length < min size tplen
  · obtain ⟨buf', hbsize, hfront, heq⟩ := readBodyLengthMode_more hsocket hcontext hbuf hmore
    rw [heq]
    rcases readLengthLoop_spec (sock.script.length + 1)
      { sock := sock, tplen := tplen - r.body.length, size := min size tplen - r.body.length, count := r.body.length,
        buf := buf', error := none } (Nat.lt_succ_self _) (by simp only; omega) (by simp only; omega) with
      ⟨hblocked, hno⟩ | ⟨hans, l', hok, hreads⟩
    · left
      rw [hblocked]
      exact ⟨rfl, hno⟩
    · right
      rw [hok]
      exact ⟨hans, _, l'.sock, rfl, gives_of_reads hmore hbsize hfront hreads⟩
  · right
    have henough : min size tplen ≤ r.body.length := by omega
    obtain ⟨res, hok, hgives, -⟩ := readBodyLengthMode_enough hsocket hcontext hbuf henough
    rw [Nat.sub_eq_zero_of_le henough]
    exact ⟨sock.answers_zero, res, sock, hok, hgives⟩

end Call

/-! ## Any number of calls -/

/-- `tplen` bytes of a body with a length are still owed, some of which came with the head. -/
structure Owes (r : Request) (sock : TcpSocket) (tplen : ℕ) : Prop where
  socket_eq : r.socket = some sock
  context : r.rbContext = .size tplen
  body_le : r.body.length ≤ tplen
  status : r.rbStatus = if tplen = 0 then .finished else .length

/-- What `finish` leaves of a request with a length. -/
theorem owes_finished {r : Request} {sock : TcpSocket} {v : Bytes} (hsocket : r.socket = some sock)
    (hlength : r.headers.find? Header.contentLength = some v) (body : Bytes) :
    (r.finished body).body = body.take (strtoull 10 v).value ∧ (r.finished body).Owes sock (strtoull 10 v).value := by
  have hbody : ({ r with keepAlive := finishKeepAlive r, supportGzip := r.gzip } : Request).withBody body =
      { r with keepAlive := finishKeepAlive r, supportGzip := r.gzip, body := body.take (strtoull 10 v).value,
               rbStatus := if (strtoull 10 v).value > 0 then .length else .finished,
               rbContext := .size (strtoull 10 v).value } := by
    simp only [withBody, hlength]
  rw [finished, hbody]
  refine ⟨rfl, hsocket, rfl, ?_, ?_⟩
  · simp only [List.length_take]
    omega
  · simp only
    split_ifs <;> first | rfl | omega

/-- A call of one of the two `read_body` that take a size. -/
inductive ReadCall
  /-- `read_body(error, size)`. -/
  | string (size : ℕ)
  /-- `read_body(error, buf, size)`, where `buf` is as long as that. -/
  | into (buf : Buffer)

/-- How many bytes the call asks for. -/
def ReadCall.size : ReadCall → ℕ
  | .string size => size
  | .into buf => buf.size

/-- The bytes that the call gives, its error, and the request behind it. -/
def read (r : Request) : ReadCall → Run (Bytes × Option ErrorCode × Request)
  | .string size => readBody r size
  | .into buf => do
    let res ← readBodyInto r buf buf.size
    .ok (res.buf.front res.count, res.error, res.request)

/-- Calls one after the other, whatever errors they report: what each gives, and the request behind them. -/
def readCalls : Request → List ReadCall → Run (List Bytes × Request)
  | r, [] => .ok ([], r)
  | r, c :: calls => do
    let (data, _, r) ← r.read c
    let (datas, r) ← readCalls r calls
    .ok (data :: datas, r)

/-- Behind a call that gave `data`. -/
structure Given (r : Request) (sock : TcpSocket) (tplen : ℕ) (data : Bytes) (r' : Request) (sock' : TcpSocket) :
    Prop where
  le : data.length ≤ tplen
  bytes_eq : data ++ (r'.body ++ sock'.stream) = r.body ++ sock.stream
  owes : r'.Owes sock' (tplen - data.length)

theorem Given.trans {r r' r'' : Request} {sock sock' sock'' : TcpSocket} {tplen : ℕ} {data data' : Bytes}
    (h : Given r sock tplen data r' sock') (h' : Given r' sock' (tplen - data.length) data' r'' sock'') :
    Given r sock tplen (data ++ data') r'' sock'' where
  le := by
    have := h.le
    have := h'.le
    rw [List.length_append]
    omega
  bytes_eq := by rw [List.append_assoc, h'.bytes_eq, h.bytes_eq]
  owes := by
    rw [List.length_append, ← Nat.sub_sub]
    exact h'.owes

/-- The call still waits: the reads of the script bring too little. -/
def Waits (r : Request) (sock : TcpSocket) (tplen : ℕ) (c : ReadCall) : Prop :=
  r.read c = .error .blocked ∧ ¬ sock.Answers (min c.size tplen - r.body.length)

variable {r : Request} {sock : TcpSocket} {tplen : ℕ}

theorem read_finished (h : r.rbStatus = .finished) (c : ReadCall) (hpos : 0 < c.size) :
    r.read c = .ok ([], none, r) := by
  cases c with
  | string size => rw [read, readBody, if_pos h]
  | into buf =>
    have hz : buf.size ≠ 0 := hpos.ne'
    rw [read, readBodyInto, if_neg hz, if_pos h, ok_bind, Buffer.front_zero]

/-- Both calls read into a buffer as long as what they ask for. -/
theorem read_length (h : r.rbStatus = .length) (c : ReadCall) (hpos : 0 < c.size) :
    ∃ buf : Buffer, buf.size = c.size ∧ r.read c = (do
      let res ← readBodyLengthMode r buf c.size
      .ok (res.buf.front res.count, res.error, res.request)) := by
  have hno : r.rbStatus ≠ .finished := by
    rw [h]
    decide
  cases c with
  | string size =>
    have hz : size ≠ 0 := hpos.ne'
    refine ⟨.zeros size, rfl, ?_⟩
    rw [read, readBody, if_neg hno, if_neg hz, ok_bind]
    simp only [if_pos h]
    rfl
  | into buf =>
    have hz : buf.size ≠ 0 := hpos.ne'
    refine ⟨buf, rfl, ?_⟩
    rw [read, readBodyInto, if_neg hz, if_neg hno, if_pos h]
    rfl

/-- What one call of `read_body_length_mode` gives. -/
theorem Owes.gives (h : r.Owes sock tplen) (hne : tplen ≠ 0) {size : ℕ} {buf : Buffer} {res : ReadBody}
    {sock' : TcpSocket} (hgives : Gives r sock tplen size buf res sock') :
    Given r sock tplen (res.buf.front res.count) res.request sock' where
  le := by
    have := hgives.count_le
    rw [Buffer.length_front]
    omega
  bytes_eq := hgives.bytes_eq
  owes := by
    have hstatus := h.status
    rw [if_neg hne] at hstatus
    have hle := h.body_le
    rw [Buffer.length_front]
    constructor
    · rw [hgives.request_eq]
    · rw [hgives.request_eq]
    · rw [hgives.body_eq, List.length_drop]
      omega
    · rw [hgives.request_eq, hstatus]

/-- **One call** gives the next bytes, at most as many as it asks for, or it still waits. -/
theorem Owes.read (h : r.Owes sock tplen) (c : ReadCall) (hpos : 0 < c.size) :
    Waits r sock tplen c ∨ ∃ data error r' sock', Request.read r c = .ok (data, error, r') ∧ data.length ≤ c.size ∧
      Given r sock tplen data r' sock' := by
  by_cases hz : tplen = 0
  · right
    have hstatus := h.status
    rw [if_pos hz] at hstatus
    exact ⟨[], none, r, sock, read_finished hstatus c hpos, Nat.zero_le _, Nat.zero_le _, rfl, h⟩
  · have hstatus := h.status
    rw [if_neg hz] at hstatus
    obtain ⟨buf, hbuf, hread⟩ := read_length hstatus c hpos
    rw [Waits, hread]
    rcases readBodyLengthMode_spec h.socket_eq h.context (show min c.size _ ≤ buf.size by omega) with
      ⟨hblocked, hno⟩ | ⟨-, res, sock', hok, hgives⟩
    · left
      rw [hblocked]
      exact ⟨rfl, hno⟩
    · right
      rw [hok]
      refine ⟨_, _, _, sock', rfl, ?_, h.gives hz hgives⟩
      have := hgives.count_le
      rw [Buffer.length_front]
      omega

/-- **A sequence of calls** gives the bytes one after the other. -/
theorem Owes.readCalls (h : r.Owes sock tplen) (calls : List ReadCall) (hpos : ∀ c ∈ calls, 0 < c.size) :
    (Request.readCalls r calls = .error .blocked ∧ ∃ before c later datas r' sock', calls = before ++ c :: later ∧
      Request.readCalls r before = .ok (datas, r') ∧ Given r sock tplen datas.flatten r' sock' ∧
      Waits r' sock' (tplen - datas.flatten.length) c) ∨
    ∃ datas r' sock', Request.readCalls r calls = .ok (datas, r') ∧
      List.Forall₂ (fun data (c : ReadCall) => data.length ≤ c.size) datas calls ∧
      Given r sock tplen datas.flatten r' sock' := by
  induction calls generalizing r sock tplen with
  | nil => exact Or.inr ⟨[], r, sock, rfl, .nil, Nat.zero_le _, rfl, h⟩
  | cons c calls ih =>
    rcases h.read c (hpos c List.mem_cons_self) with hwaits | ⟨data, error, r₁, sock₁, hread, hsize, hgiven⟩
    · left
      refine ⟨by rw [Request.readCalls, hwaits.1]; rfl, [], c, calls, [], r, sock, rfl, rfl, ⟨Nat.zero_le _, rfl, h⟩,
        hwaits⟩
    · have hfirst : ∀ calls', Request.readCalls r (c :: calls') = (do
          let (datas, r) ← Request.readCalls r₁ calls'
          .ok (data :: datas, r)) := by
        intro calls'
        rw [Request.readCalls, hread]
        rfl
      rcases ih hgiven.owes (fun c' hc' => hpos c' (List.mem_cons_of_mem _ hc')) with
        ⟨hblocked, before, c', later, datas, r', sock', rfl, hbefore, hgiven', hwaits⟩ |
          ⟨datas, r', sock', hreads, hsizes, hgiven'⟩
      · left
        refine ⟨by rw [hfirst, hblocked]; rfl, c :: before, c', later, data :: datas, r', sock', rfl,
          by rw [hfirst, hbefore]; rfl, hgiven.trans hgiven', ?_⟩
        rw [List.flatten_cons, List.length_append, ← Nat.sub_sub]
        exact hwaits
      · right
        exact ⟨data :: datas, r', sock', by rw [hfirst, hreads]; rfl, .cons hsize hsizes, hgiven.trans hgiven'⟩

/-- Behind calls that gave `data`, where the body has `n` bytes and `bytes` are those behind the head. -/
structure Delivered (bytes : Bytes) (n : ℕ) (data : Bytes) (r' : Request) (sock' : TcpSocket) : Prop where
  le : data.length ≤ n
  bytes_eq : data ++ (r'.body ++ sock'.stream) = bytes
  socket_eq : r'.socket = some sock'
  context : r'.rbContext = .size (n - data.length)
  body_le : r'.body.length ≤ n - data.length
  finished_iff : r'.rbStatus = .finished ↔ data.length = n

theorem Given.delivered {r' : Request} {sock' : TcpSocket} {data : Bytes} (h : Given r sock tplen data r' sock') :
    Delivered (r.body ++ sock.stream) tplen data r' sock' where
  le := h.le
  bytes_eq := h.bytes_eq
  socket_eq := h.owes.socket_eq
  context := h.owes.context
  body_le := h.owes.body_le
  finished_iff := by
    have hle := h.le
    rw [h.owes.status]
    split_ifs with hz
    · exact iff_of_true rfl (by omega)
    · exact iff_of_false (by decide) (by omega)

/-- **Bodies with a length**: for every length, every number of bytes that came with the head, every sequence of calls
and every behaviour of the socket, either the calls give the bytes of the body one after the other, or one of them still
waits because the reads bring too little; nothing wraps around, and no buffer is exceeded. -/
theorem readCalls_lengthMode (hsocket : r.socket = some sock) {v : Bytes}
    (hlength : r.headers.find? Header.contentLength = some v) (leftover : Bytes) (calls : List ReadCall)
    (hpos : ∀ c ∈ calls, 0 < c.size) :
    ((do Request.readCalls (← finish r leftover) calls) = .error .blocked ∧
      ∃ before c later datas r' sock', calls = before ++ c :: later ∧
        (do Request.readCalls (← finish r leftover) before) = .ok (datas, r') ∧
        Delivered (leftover.take (strtoull 10 v).value ++ sock.stream) (strtoull 10 v).value datas.flatten r' sock' ∧
        Waits r' sock' ((strtoull 10 v).value - datas.flatten.length) c) ∨
    ∃ datas r' sock', (do Request.readCalls (← finish r leftover) calls) = .ok (datas, r') ∧
      List.Forall₂ (fun data (c : ReadCall) => data.length ≤ c.size) datas calls ∧
      Delivered (leftover.take (strtoull 10 v).value ++ sock.stream) (strtoull 10 v).value datas.flatten r' sock' := by
  obtain ⟨hbody, howes⟩ := owes_finished hsocket hlength leftover
  rw [finish_eq, ← hbody]
  simp only [ok_bind]
  rcases howes.readCalls calls hpos with
    ⟨hblocked, before, c, later, datas, r', sock', hcalls, hbefore, hgiven, hwaits⟩ |
      ⟨datas, r', sock', hreads, hsizes, hgiven⟩
  · exact Or.inl ⟨hblocked, before, c, later, datas, r', sock', hcalls, hbefore, hgiven.delivered, hwaits⟩
  · exact Or.inr ⟨datas, r', sock', hreads, hsizes, hgiven.delivered⟩

/-- A socket that gives one byte with an error, then times out, and then gives the rest. -/
def haltingSocket : TcpSocket where
  isOpen := true
  sendBufferSize := 4096
  stream := lit "cdefg"
  script := [⟨1, some .network⟩, .timedOut, ⟨4, none⟩]
  sent := []

/-- A request for five bytes from such a socket. -/
def haltingRequest : Request :=
  { new with headers := OrdMap.empty.assign Header.contentLength (lit "5"), socket := some haltingSocket }

/-- Two bytes come with the head, and the two calls give the five bytes of the body. -/
theorem readCalls_lengthMode_halting : ∃ datas r' sock',
    (do Request.readCalls (← finish haltingRequest (lit "ab")) [.string 3, .into (.zeros 3)]) = .ok (datas, r') ∧
      Delivered (lit "abcdefg") 5 datas.flatten r' sock' := by
  rcases readCalls_lengthMode (show haltingRequest.socket = some haltingSocket from rfl) (v := lit "5") rfl (lit "ab")
    [.string 3, .into (.zeros 3)] (by decide) with ⟨hblocked, -⟩ | ⟨datas, r', sock', hreads, -, h⟩
  · exact absurd hblocked (by decide)
  · exact ⟨datas, r', sock', hreads, h⟩

/-! ## Whether a call returns -/

end Http.Request

/-- The socket when the first `n` of endless timed reads are over. -/
def TcpSocket.behaving (sock : TcpSocket) (reads : ℕ → ReadOutcome) (n : ℕ) : TcpSocket :=
  { sock with script := (List.range n).map reads }

theorem TcpSocket.Answers.of_prefix {sock : TcpSocket} {script : List ReadOutcome} {need : ℕ}
    (h : sock.Answers need) (hscript : sock.script <+: script) : { sock with script := script }.Answers need := by
  obtain ⟨rest, rfl⟩ := hscript
  rcases h with henough | ⟨before, o, later, hscript, h⟩
  · left
    rw [arrives] at henough ⊢
    simp only [List.map_append, List.sum_append]
    omega
  · right
    exact ⟨before, o, later ++ rest, by rw [hscript, List.append_assoc, List.cons_append], h⟩

theorem TcpSocket.answers_timedOut (sock : TcpSocket) (k need : ℕ) :
    { sock with script := sock.script ++ List.replicate k ReadOutcome.timedOut }.Answers need ↔ sock.Answers need := by
  constructor
  · rintro (henough | ⟨before, o, later, hscript, herror, h⟩)
    · left
      simpa [arrives, ReadOutcome.timedOut] using henough
    · right
      have hloud : o ∉ List.replicate k ReadOutcome.timedOut := by
        intro ho
        rw [List.eq_of_mem_replicate ho] at herror
        exact herror rfl
      rcases List.append_eq_append_iff.mp hscript with ⟨mid, -, hmid⟩ | ⟨mid, hmid, hlater⟩
      · exact absurd (hmid ▸ List.mem_append_right mid List.mem_cons_self) hloud
      · cases mid with
        | nil =>
          rw [List.nil_append] at hlater
          exact absurd (hlater ▸ List.mem_cons_self) hloud
        | cons o' mid =>
          obtain ⟨rfl, -⟩ := List.cons.inj hlater
          exact ⟨before, o, mid, hmid, herror, h⟩
  · exact fun h => h.of_prefix (List.prefix_append _ _)

theorem TcpSocket.behaving_prefix (sock : TcpSocket) (reads : ℕ → ReadOutcome) {n m : ℕ} (h : n ≤ m) :
    (sock.behaving reads n).script <+: (sock.behaving reads m).script := by
  obtain ⟨k, rfl⟩ := Nat.exists_eq_add_of_le h
  rw [behaving, behaving, List.range_add, List.map_append]
  exact List.prefix_append _ _

/-- **Once every read times out**, the reads before that have answered, or none will. -/
theorem TcpSocket.exists_answers_iff (sock : TcpSocket) {reads : ℕ → ReadOutcome} {m : ℕ}
    (htimeouts : ∀ i, m ≤ i → reads i = .timedOut) (need : ℕ) :
    (∃ n, (sock.behaving reads n).Answers need) ↔ (sock.behaving reads m).Answers need := by
  refine ⟨fun ⟨n, hn⟩ => ?_, fun h => ⟨m, h⟩⟩
  rcases Nat.le_total n m with hle | hle
  · exact hn.of_prefix (sock.behaving_prefix reads hle)
  · obtain ⟨k, rfl⟩ := Nat.exists_eq_add_of_le hle
    have hlate : (List.range k).map (fun i => reads (m + i)) = List.replicate k .timedOut := by
      rw [List.eq_replicate_iff]
      refine ⟨by simp, ?_⟩
      intro o ho
      obtain ⟨i, -, rfl⟩ := List.mem_map.mp ho
      exact htimeouts _ (Nat.le_add_right m i)
    have hscript : sock.behaving reads (m + k) =
        { sock with script := (sock.behaving reads m).script ++ List.replicate k .timedOut } := by
      rw [behaving, List.range_add, List.map_append, List.map_map, ← hlate]
      rfl
    rw [hscript] at hn
    exact (TcpSocket.answers_timedOut (sock.behaving reads m) k need).mp hn

namespace Http.Request

/-- `read_body_length_mode` returns after finitely many of the reads. -/
def Returns (r : Request) (sock : TcpSocket) (reads : ℕ → ReadOutcome) (buf : Buffer) (size : ℕ) : Prop :=
  ∃ n res, readBodyLengthMode { r with socket := some (sock.behaving reads n) } buf size = .ok res

variable {r : Request} {tplen size : ℕ} {buf : Buffer}

theorem returns_iff_answers (hcontext : r.rbContext = .size tplen) (hbuf : size ≤ buf.size) (sock : TcpSocket)
    (reads : ℕ → ReadOutcome) :
    r.Returns sock reads buf size ↔ ∃ n, (sock.behaving reads n).Answers (min size tplen - r.body.length) := by
  refine exists_congr fun n => ?_
  rcases readBodyLengthMode_spec (r := { r with socket := some (sock.behaving reads n) }) rfl hcontext
    (show min size tplen ≤ buf.size by omega) with ⟨hblocked, hno⟩ | ⟨hans, res, sock', hok, -⟩
  · rw [hblocked]
    exact iff_of_false (by rintro ⟨res, hres⟩; cases hres) hno
  · exact iff_of_true ⟨res, hok⟩ hans

/-- **When a call returns** although every read times out from the `m`-th on: exactly when the reads before bring the
bytes that are needed beyond those that came with the head, or one that brings nothing reports an error. -/
theorem returns_iff (hcontext : r.rbContext = .size tplen) (hbuf : size ≤ buf.size) (sock : TcpSocket)
    {reads : ℕ → ReadOutcome} {m : ℕ} (htimeouts : ∀ i, m ≤ i → reads i = .timedOut) :
    r.Returns sock reads buf size ↔ (sock.behaving reads m).Answers (min size tplen - r.body.length) := by
  rw [returns_iff_answers hcontext hbuf, sock.exists_answers_iff htimeouts]

/-- A socket on which nothing arrives. -/
def silentSocket : TcpSocket where
  isOpen := true
  sendBufferSize := 4096
  stream := []
  script := []
  sent := []

/-- One byte is owed, and nothing came with the head. -/
def silentRequest : Request := { new with rbContext := .size 1 }

theorem returns_iff_silent :
    silentRequest.Returns silentSocket (fun _ => .timedOut) (.zeros 1) 1 ↔ silentSocket.Answers 1 :=
  returns_iff (m := 0) (show silentRequest.rbContext = .size 1 from rfl) le_rfl silentSocket fun _ _ => rfl

/-- **A call waits for ever** for a byte that does not come, on a socket where every `poll` times out. -/
theorem not_returns_silent :
    timedRead [.timeout] ⟨1, none⟩ = .ok (.timedOut, []) ∧
      ¬ silentRequest.Returns silentSocket (fun _ => .timedOut) (.zeros 1) 1 := by
  refine ⟨timedRead_timeout [] _, ?_⟩
  have hsize : 1 ≤ (Buffer.zeros 1).size := le_rfl
  rw [returns_iff_answers (show silentRequest.rbContext = .size 1 from rfl) hsize,
    silentSocket.exists_answers_iff (m := 0) fun _ _ => rfl]
  exact TcpSocket.not_answers_nil rfl Nat.one_pos

end Http.Request

end Gts3
