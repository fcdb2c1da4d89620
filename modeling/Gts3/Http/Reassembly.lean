import Mathlib.Data.List.SplitLengths
import Gts3.Http.ChunkedSegments
import Gts3.Http.AllBody

/-!
# When a chunked body may come in segments

`read_all_body` should return the same bytes whether a chunked body comes as a whole with the head or in segments.  It
does so exactly when the cuts lie where a line begins that holds no data, and when no bytes of the first part are left
over for the next segment to overwrite (`reassembles_iff`).  The condition speaks of the layout of the body alone: of
the kinds of its lines and of their lengths.
-/

namespace Gts3.Http

open Lib Lib.Search Lib.Cxx Lib.LineMachine Lib.HttpMessage Request

namespace Request

/-- The request when its chunked body begins with `p` behind the head and goes on with what the reads give. -/
def arriving (r : Request) (sock : TcpSocket) (p : Bytes) (ps : List Bytes) : Request :=
  { r with
    rbStatus := .waitSize
    rbContext := .string p
    body := []
    socket := some { sock with stream := ps.flatten, script := ps.map fun q => ⟨q.length, none⟩ } }

/-- `read_all_body` comes to its end and returns these bytes. -/
def ReadsBody (r : Request) (bytes : Bytes) : Prop := ∃ fuel r', readAllBody fuel r = .ok (bytes, none, r')

/-- `read_all_body` returns the same bytes as if all of them had come with the head. -/
def ReadsSame (r : Request) (sock : TcpSocket) (p : Bytes) (ps : List Bytes) : Prop :=
  ∃ bytes, (r.arriving sock p ps).ReadsBody bytes ∧ (r.arriving sock (p ++ ps.flatten) []).ReadsBody bytes

theorem readsBody_iff {r : Request} {sock : TcpSocket} {p : Bytes} {ps : List Bytes} {bytes : Bytes} :
    (r.arriving sock p ps).ReadsBody bytes ↔
      LoopGives sock.sendBufferSize (r.segmented sock (ChunkedBody.start r) p ps) (Buffer.zeros 65536) [] bytes :=
  Iff.rfl

end Request

namespace Layout

/-- **Which cuts are right** for a layout, when a read asks for `tcp` bytes: segments begin with lines that hold no
data, what one call gives fits into the scratch buffer, and no bytes of the first part are left when the next segment
brings data. -/
structure Fits (lay : Layout) (tcp first : ℕ) (sizes : List ℕ) : Prop where
  tcp_pos : 0 < tcp
  buffer : min tcp lay.data ≤ 65536
  cuts : lay.Cuts (first :: sizes)
  rest : ∀ front second back, lay = front ++ second ++ back → front.bytes = first → sizes.head? = some second.bytes →
    front.data < tcp ∨ tcp ∣ front.data ∨ second.data = 0

/-- **What the segments are for**: every valid body of the layout is read as if it had come in one piece. -/
def Reassembles (lay : Layout) (tcp first : ℕ) (sizes : List ℕ) : Prop :=
  ∀ (b : ChunkedBody) (cs : List (SentChunk × Extension)) (e : Extension) (r : Request) (sock : TcpSocket) (p : Bytes)
    (ps : List Bytes), b.Valid → cs.map Prod.fst = b.chunks → b.layout cs e = lay → p ++ ps.flatten = b.text cs e →
    p.length = first → ps.map List.length = sizes → sock.sendBufferSize = tcp → (r.arriving sock p ps).isValid = true →
    r.ReadsSame sock p ps

theorem bytes_append (front back : Layout) : bytes (front ++ back) = front.bytes + back.bytes := by
  simp [bytes]

theorem data_append (front back : Layout) : data (front ++ back) = front.data + back.data := by
  simp [data]

theorem append_inj_of_bytes {front front' back back' : Layout} (h : front ++ back = front' ++ back')
    (hbytes : front.bytes = front'.bytes) : front = front' ∧ back = back' := by
  rcases List.append_eq_append_iff.mp h with ⟨mid, rfl, rfl⟩ | ⟨mid, rfl, rfl⟩
  · rw [bytes_append] at hbytes
    obtain rfl : mid = [] := by
      cases mid with
      | nil => rfl
      | cons x mid =>
        simp only [bytes, List.map_cons, List.sum_cons] at hbytes
        omega
    exact ⟨(List.append_nil _).symm, rfl⟩
  · rw [bytes_append] at hbytes
    obtain rfl : mid = [] := by
      cases mid with
      | nil => rfl
      | cons x mid =>
        simp only [bytes, List.map_cons, List.sum_cons] at hbytes
        omega
    exact ⟨List.append_nil _, rfl⟩

end Layout

section Fits

variable {b : ChunkedBody} {cs : List (SentChunk × Extension)} {e : Extension} {r : Request} {sock : TcpSocket}
  {p : Bytes} {ps : List Bytes}

theorem ChunkedBody.layout_fresh (b : ChunkedBody) (cs : List (SentChunk × Extension)) (e : Extension) :
    (layoutOf (b.lines cs e)).Fresh := by
  obtain ⟨y, rest, heq, hy, -⟩ := head_lines b cs e
  rw [fresh_layoutOf, ChunkedBody.lines, heq]
  intro x hx
  obtain rfl := Option.some.inj hx
  rw [hy]
  decide

theorem ChunkedBody.expects_start (b : ChunkedBody) (cs : List (SentChunk × Extension)) (e : Extension) (r : Request) :
    Expects (ChunkedBody.start r) (b.lines cs e) := by
  obtain ⟨y, rest, heq, hy, -⟩ := head_lines b cs e
  rw [ChunkedBody.lines, heq]
  refine ⟨hy.symm, fun h => ?_⟩
  rw [hy] at h
  cases h

/-- **A body that is cut at the right places** is read to its data. -/
theorem ChunkedBody.Valid.readsBody (hb : b.Valid) (hcs : cs.map Prod.fst = b.chunks)
    (hfits : (b.layout cs e).Fits sock.sendBufferSize p.length (ps.map List.length))
    (htext : p ++ ps.flatten = b.text cs e) (hreads : ∀ q ∈ ps, q.length ≤ sock.sendBufferSize)
    (hvalid : (r.arriving sock p ps).isValid = true) : (r.arriving sock p ps).ReadsBody b.data := by
  have hdata : linesData (b.lines cs e) = b.data := by rw [ChunkedBody.linesData_lines, hcs, ChunkedBody.data]
  have hmem : ∀ c ∈ cs, c.1 ∈ b.chunks := fun c hc => hcs ▸ List.mem_map_of_mem hc
  rw [readsBody_iff, ← hdata]
  refine loopGives_cut _ [] hfits.tcp_pos rfl (hb.legible hmem e) (b.expects_start cs e r) (b.layout_fresh cs e)
    rfl hvalid hreads hfits.cuts (by rw [htext, ChunkedBody.linesText_lines])
    (fun front second back hsplit hfront hsecond => ?_) ?_
  · have hlay : b.layout cs e = layoutOf front ++ layoutOf second ++ layoutOf back := by
      rw [ChunkedBody.layout, hsplit, layoutOf_append, layoutOf_append]
    have hrest := hfits.rest _ _ _ hlay (by rw [bytes_layoutOf, hfront])
      (by rw [List.head?_map, bytes_layoutOf, hsecond])
    rwa [data_layoutOf, data_layoutOf, List.length_eq_zero_iff] at hrest
  · rw [← data_layoutOf]
    exact hfits.buffer

/-- All of a body in one piece is cut at the right places. -/
theorem Layout.cuts_whole (lay : Layout) : lay.Cuts [lay.bytes] := by
  simpa using Layout.Cuts.cons lay (show Layout.Fresh [] from fun x hx => by cases hx) .nil

theorem Layout.fits_whole {lay : Layout} {tcp : ℕ} (hpos : 0 < tcp) (hbuffer : min tcp lay.data ≤ 65536) :
    lay.Fits tcp lay.bytes [] where
  tcp_pos := hpos
  buffer := hbuffer
  cuts := lay.cuts_whole
  rest := fun _ _ _ _ _ h => by cases h

theorem ChunkedBody.bytes_layout (b : ChunkedBody) (cs : List (SentChunk × Extension)) (e : Extension) :
    (b.layout cs e).bytes = (b.text cs e).length := by
  rw [ChunkedBody.layout, bytes_layoutOf, ChunkedBody.linesText_lines]

theorem ChunkedBody.Valid.readsBody_whole (hb : b.Valid) (hcs : cs.map Prod.fst = b.chunks)
    (hpos : 0 < sock.sendBufferSize) (hbuffer : min sock.sendBufferSize (b.layout cs e).data ≤ 65536)
    (hvalid : (r.arriving sock (b.text cs e) []).isValid = true) :
    (r.arriving sock (b.text cs e) []).ReadsBody b.data := by
  refine hb.readsBody (e := e) hcs ?_ (by simp) nofun hvalid
  rw [← ChunkedBody.bytes_layout]
  exact Layout.fits_whole hpos hbuffer

end Fits

/-! ## Only those cuts -/

section Only

/-- A request that can be read from, whatever the trailer says. -/
def openRequest : Request := { Request.new with method := .post, version := lit "1.1", path := lit "/" }

/-- An open socket with this send buffer. -/
def openSocket (tcp : ℕ) : TcpSocket := ⟨true, tcp, [], [], []⟩

theorem admits_open (tcp : ℕ) (l : ChunkLoop) : openRequest.Admits (openSocket tcp) l := rfl

theorem isValid_open (tcp : ℕ) (p : Bytes) (ps : List Bytes) :
    (openRequest.arriving (openSocket tcp) p ps).isValid = true := rfl

variable {b : ChunkedBody} {cs : List (SentChunk × Extension)} {e : Extension} {tcp first : ℕ} {sizes : List ℕ}
  {p : Bytes} {ps : List Bytes}

theorem tcp_pos_of_readsBody {r : Request} {sock : TcpSocket} {bytes : Bytes}
    (hvalid : r.Admits sock (ChunkedBody.start r)) (h : (r.arriving sock p ps).ReadsBody bytes) :
    0 < sock.sendBufferSize := by
  rcases Nat.eq_zero_or_pos sock.sendBufferSize with hzero | hpos
  · obtain ⟨fuel, r', h⟩ := readsBody_iff.mp h
    rw [hzero, readAllLoop_zero fuel (hvalid.canReadBody (Or.inr (Or.inl rfl)) p ps)] at h
    cases h
  · exact hpos

theorem endChunkedMode_fits {r : Request} {buf : Buffer} {size count : ℕ} {error : Option ErrorCode} {res : ReadBody}
    (h : endChunkedMode r buf size count error = .ok res) : min size r.body.length ≤ buf.size := by
  have hcopies : ∀ {src : Bytes} {f : Buffer → Run ReadBody},
      (buf.memcpy 0 src >>= f) = .ok res → src.length ≤ buf.size := by
    intro src f h
    by_contra hno
    rw [Buffer.memcpy, if_neg (by omega)] at h
    cases h
  unfold endChunkedMode at h
  by_cases hle : size ≤ r.body.length
  · rw [if_pos hle] at h
    simpa using hcopies h
  · rw [if_neg hle] at h
    have := hcopies h
    omega

/-- What the first call gives fits into the scratch buffer. -/
theorem buffer_of_readsBody (hb : b.Valid) (hcs : cs.map Prod.fst = b.chunks) {r : Request} {sock : TcpSocket}
    {bytes : Bytes} (hvalid : r.Admits sock (ChunkedBody.start r))
    (h : (r.arriving sock (b.text cs e) []).ReadsBody bytes) :
    min sock.sendBufferSize b.data.length ≤ 65536 := by
  have hpos := tcp_pos_of_readsBody hvalid h
  obtain ⟨fuel, r', h⟩ := readsBody_iff.mp h
  have hstatus : Decoding (ChunkedBody.start r).status := Or.inl rfl
  obtain ⟨fuel', res, -, hok, -⟩ := readAllLoop_ok (hvalid.canReadBody (Or.inr hstatus) _ _) h
  have hmem : ∀ c ∈ cs, c.1 ∈ b.chunks := fun c hc => hcs ▸ List.mem_map_of_mem hc
  have hls : Legible (b.lines cs e ++ []) := by simpa using hb.legible hmem e
  obtain ⟨l', hrun, -, hbody, -⟩ := loopResult_lines hls (l := again (ChunkedBody.start r))
    (by simpa using (b.expects_start cs e r).again (fresh_layoutOf.mp (b.layout_fresh cs e)))
  rw [ChunkedBody.linesText_lines] at hrun
  rw [readBodyInto_decode _ [] _ hpos hstatus hpos (.buffered (b.text_ne_nil cs e)) (by simp) hrun] at hok
  obtain ⟨buf, hcopy, hok⟩ := run_bind_eq_ok.mp hok
  have hfits := endChunkedMode_fits hok
  rw [show (ChunkedBody.start r).body = [] from rfl, Buffer.memcpy_nil] at hcopy
  obtain rfl := Except.ok.inj hcopy
  have hlen : l'.body = b.data := by
    rw [hbody, ChunkedBody.linesData_lines, hcs]
    rfl
  rw [← hlen]
  exact hfits

/-- **A body of letters** that is cut like this, and how it is read. -/
theorem Layout.Reassembles.exists_painted (h : (b.layout cs e).Reassembles tcp first sizes) (hb : b.Valid)
    (hcs : cs.map Prod.fst = b.chunks) (hsum : first + sizes.sum = (b.text cs e).length) (data : Bytes)
    (hlen : data.length = b.data.length) (hletters : Letters data) :
    ∃ (b' : ChunkedBody) (cs' : List (SentChunk × Extension)) (p : Bytes) (ps : List Bytes),
      b'.Valid ∧ cs'.map Prod.fst = b'.chunks ∧ b'.layout cs' e = b.layout cs e ∧ b'.data = data ∧
      Tight (b'.lines cs' e) ∧ p ++ ps.flatten = b'.text cs' e ∧ p.length = first ∧ ps.map List.length = sizes ∧
      openRequest.ReadsSame (openSocket tcp) p ps := by
  obtain ⟨b', cs', hb', hcs', hlay, hdata, htight⟩ := hb.painted hcs e data hlen hletters
  have htext : (b'.text cs' e).length = first + sizes.sum := by
    rw [hsum, ← ChunkedBody.bytes_layout, hlay, ChunkedBody.bytes_layout]
  obtain ⟨p, ps, hsplit⟩ : ∃ p ps, (first :: sizes).splitLengths (b'.text cs' e) = p :: ps :=
    ⟨_, _, List.splitLengths_cons _ _ _⟩
  have hflatten := List.flatten_splitLengths (b'.text cs' e) (first :: sizes) (by rw [htext, List.sum_cons])
  have hmap := List.map_splitLengths_length (b'.text cs' e) (first :: sizes) (by rw [htext, List.sum_cons])
  rw [hsplit, List.flatten_cons] at hflatten
  rw [hsplit, List.map_cons] at hmap
  obtain ⟨hfirst, hsizes⟩ := List.cons_eq_cons.mp hmap
  exact ⟨b', cs', p, ps, hb', hcs', hlay, hdata, htight, hflatten, hfirst, hsizes,
    h b' cs' e openRequest (openSocket tcp) p ps hb' hcs' hlay hflatten hfirst hsizes rfl (isValid_open tcp p ps)⟩

/-- **What comes out of the run** is the data, and a read asks for something that fits. -/
theorem Request.ReadsSame.readsBody (hb : b.Valid) (hcs : cs.map Prod.fst = b.chunks)
    (htext : p ++ ps.flatten = b.text cs e) (h : openRequest.ReadsSame (openSocket tcp) p ps) :
    0 < tcp ∧ min tcp b.data.length ≤ 65536 ∧ (openRequest.arriving (openSocket tcp) p ps).ReadsBody b.data := by
  obtain ⟨bytes, hcut, hwhole⟩ := h
  rw [htext] at hwhole
  have hadmits := admits_open tcp (ChunkedBody.start openRequest)
  have hpos := tcp_pos_of_readsBody hadmits hwhole
  have hbuffer := buffer_of_readsBody hb hcs hadmits hwhole
  have hdata : (b.layout cs e).data = b.data.length := by
    rw [ChunkedBody.layout, data_layoutOf, ChunkedBody.linesData_lines, hcs]
    rfl
  have hreads : (openRequest.arriving (openSocket tcp) (b.text cs e) []).ReadsBody b.data :=
    hb.readsBody_whole hcs hpos (hdata ▸ hbuffer) (isValid_open tcp _ _)
  refine ⟨hpos, hbuffer, ?_⟩
  rwa [(readsBody_iff.mp hreads).unique (readsBody_iff.mp hwhole)]

/-- **The cuts of a run that returns the data** are right, when the data are no numbers. -/
theorem cuts_of_readsBody (hb : b.Valid) (hcs : cs.map Prod.fst = b.chunks) (htight : Tight (b.lines cs e))
    (htext : p ++ ps.flatten = b.text cs e) (hpos : 0 < tcp) (hreads : ∀ q ∈ ps, q.length ≤ tcp)
    (h : (openRequest.arriving (openSocket tcp) p ps).ReadsBody b.data) :
    (b.layout cs e).Cuts ((p :: ps).map List.length) := by
  have hmem : ∀ c ∈ cs, c.1 ∈ b.chunks := fun c hc => hcs ▸ List.mem_map_of_mem hc
  have hls := hb.legible hmem e
  obtain ⟨fuel, r', h⟩ := readsBody_iff.mp h
  have hcases := rounds_of_readAllLoop (admits_open tcp) hpos hreads (Or.inr (Or.inl rfl)) h
  obtain ⟨-, ss, hrounds, hlen⟩ := hcases.resolve_left fun hend => absurd hend.1 (by decide)
  have hdata : linesData (b.lines cs e) = b.data := by rw [ChunkedBody.linesData_lines, hcs, ChunkedBody.data]
  have hlines : linesText (b.lines cs e) = ((b.lines cs e).map fun x => x.2 ++ crlf).flatten := List.flatMap_def
  have hends : ∀ line ∈ (b.lines cs e).map (fun x => x.2 ++ crlf), IsLine chunkMachine.delim line := by
    intro line hline
    obtain ⟨x, hx, rfl⟩ := List.mem_map.mp hline
    exact ⟨x.2, hls.noEnd x hx, rfl⟩
  have hturns := hrounds.turns (by decide) chunkMachine_overlong_ne chunkMachine_ne_drop hends
    (by rw [htext, ← ChunkedBody.linesText_lines, hlines])
  have hexpects := (b.expects_start cs e openRequest).again (fresh_layoutOf.mp (b.layout_fresh cs e))
  refine cuts_of_turns hturns hls htight hexpects ?_ ?_
  · rw [hdata, hlen]
    simp [again, ChunkedBody.start]
  · rw [ChunkedBody.linesText_lines, ← htext, List.length_append, List.length_flatten]

/-- **The first part's data that does not fill the reads** is cut short by the data of the next segment. -/
theorem exists_cut_short {l : ChunkLoop} {front second back : List ChunkedLine} {qs : List Bytes} {buf : Buffer}
    {out : Bytes} (hpos : 0 < tcp) (hls : Legible (front ++ (second ++ back)))
    (hl : Expects l (front ++ (second ++ back))) (hstart : (layoutOf (front ++ (second ++ back))).Fresh)
    (hfresh : (layoutOf (second ++ back)).Fresh)
    (hbody : l.body = []) (hreads : ∀ q ∈ linesText second :: qs, q.length ≤ tcp) (hle : tcp ≤ (linesData front).length)
    (hleft : ¬ tcp ∣ (linesData front).length) {x : UInt8} {rest : Bytes} (hsecond : linesData second = x :: rest)
    (h : LoopGives tcp (openRequest.segmented (openSocket tcp) l (linesText front) (linesText second :: qs)) buf []
      out) :
    ∃ k tail, k < (linesData front).length ∧ out = (linesData front).take k ++ x :: tail := by
  obtain ⟨fuel, r', h⟩ := h
  have hp : linesText front ≠ [] := by
    have := length_linesData_le front
    rw [← List.length_pos_iff]
    omega
  have hne : second ++ back ≠ [] := by
    rintro hnil
    rw [(List.append_eq_nil_iff.mp hnil).1] at hsecond
    cases hsecond
  have hstatus : Decoding l.status := hl.decoding hls (by simp [hne])
  obtain ⟨fuel', res, -, hok, herror, h⟩ := readAllLoop_ok ((admits_open tcp l).canReadBody (Or.inr hstatus) _ _) h
  obtain ⟨hserved, -⟩ := callGives_of_ok hpos (Or.inr hstatus) hreads hok
  obtain ⟨l₁, hrun, hl₁, hbody₁, -⟩ := loopResult_lines hls (hl.again (fresh_layoutOf.mp hstart))
  have hbody₁ : l₁.body = linesData front := by simpa [again] using hbody₁
  cases hserved with
  | kept hle' =>
    rw [hbody, List.length_nil] at hle'
    omega
  | ended _ hend => exact absurd hend hstatus.ne.1
  | failed _ _ _ _ hfailed => exact absurd herror hfailed
  | @decoded g abuf' qs' l' buf' hlt hend hseg hrun' hfront hkeep =>
    obtain ⟨rfl, rfl⟩ := (NextSegment.buffered hp).eq hseg
    rw [hrun] at hrun'
    obtain ⟨rfl, rfl, -⟩ := by simpa using hrun'
    simp only [hbody, List.length_nil, Nat.sub_zero, Nat.zero_add, hbody₁, Nat.min_eq_left hle] at h hfront
    rw [afterRead_segmented_of_le (by rw [hbody₁]; exact hle), hfront, hbody₁] at h
    -- the next segment
    have hlen : ((linesData front).drop tcp).length = (linesData front).length - tcp := List.length_drop
    obtain ⟨l₂, hrun₂, -, hbody₂, -⟩ := loopResult_lines hls.of_append (hl₁.again (fresh_layoutOf.mp hfresh))
    have hfirst : l₂.body = x :: rest := by rw [hbody₂, hsecond]; rfl
    obtain ⟨k, tail, hk, hout⟩ := exists_overwritten (l := { l₁ with body := (linesData front).drop tcp })
      (admits_open tcp) hpos hreads (hl₁.decoding hls.of_append hne) hrun₂ hfirst
      (by rw [hlen]; exact fun hdvd => hleft ((Nat.dvd_sub_iff_left hle dvd_rfl).mp hdvd)) h
    refine ⟨tcp + k, tail, by simp only [hlen] at hk; omega, ?_⟩
    rw [hout, List.take_add, List.nil_append]

/-- **No bytes are left over** for the next segment to overwrite, when all bodies of the layout are read. -/
theorem Layout.Reassembles.rest (h : (b.layout cs e).Reassembles tcp first sizes) (hb : b.Valid)
    (hcs : cs.map Prod.fst = b.chunks) (hsum : first + sizes.sum = (b.text cs e).length) (hreads : ∀ n ∈ sizes, n ≤ tcp)
    (hcuts : (b.layout cs e).Cuts (first :: sizes)) {front second back : Layout}
    (hsplit : b.layout cs e = front ++ second ++ back) (hfirst : front.bytes = first)
    (hnext : sizes.head? = some second.bytes) : front.data < tcp ∨ tcp ∣ front.data ∨ second.data = 0 := by
  by_contra hno
  simp only [not_or, not_lt] at hno
  obtain ⟨hle, hleft, hsecond⟩ := hno
  have hdata : b.data.length = front.data + (second.data + back.data) := by
    have hlay : (b.layout cs e).data = b.data.length := by
      rw [ChunkedBody.layout, data_layoutOf, ChunkedBody.linesData_lines, hcs]
      rfl
    rw [← hlay, hsplit, data_append, data_append, Nat.add_assoc]
  -- one letter for the first part, another one behind it
  obtain ⟨b', cs', p, ps, hb', hcs', hlay, hdata', htight, htext, hp, hps, hsame⟩ := h.exists_painted hb hcs hsum
    (List.replicate front.data 122 ++ List.replicate (second.data + back.data) 121)
    (by rw [hdata]; simp) (by
      intro c hc
      rcases List.mem_append.mp hc with hc | hc
      · exact Or.inr (List.eq_of_mem_replicate hc)
      · exact Or.inl (List.eq_of_mem_replicate hc))
  obtain ⟨hpos, -, hread⟩ := hsame.readsBody hb' hcs' htext
  rw [ChunkedBody.layout] at hlay
  rw [← ChunkedBody.linesText_lines] at htext
  obtain ⟨front', rest', hlines, rfl, hrest, hfresh, hcuts'⟩ := exists_lines_of_cuts htext
    (by rw [hlay, List.map_cons, hp, hps]; exact hcuts)
  obtain ⟨q, qs, rfl⟩ : ∃ q qs, ps = q :: qs := by
    cases ps with
    | nil =>
      rw [← hps] at hnext
      cases hnext
    | cons q qs => exact ⟨q, qs, rfl⟩
  obtain ⟨second', back', rfl, rfl, -⟩ := exists_lines_of_cuts hrest hcuts'
  -- the parts have the layouts that were given
  rw [hlines, layoutOf_append, layoutOf_append, hsplit, List.append_assoc] at hlay
  obtain ⟨hfront', hlay⟩ := Layout.append_inj_of_bytes hlay (by rw [bytes_layoutOf, hp, hfirst])
  obtain ⟨hsecond', -⟩ := Layout.append_inj_of_bytes hlay (by
    rw [← hps] at hnext
    rw [bytes_layoutOf]
    exact Option.some.inj hnext)
  have hlen : (linesData front').length = front.data := by rw [← data_layoutOf, hfront']
  have hlen₂ : (linesData second').length = second.data := by rw [← data_layoutOf, hsecond']
  have hall : linesData front' ++ linesData (second' ++ back') =
      List.replicate front.data 122 ++ List.replicate (second.data + back.data) 121 := by
    rw [← linesData_append, ← hlines, ChunkedBody.linesData_lines, hcs', ← hdata']
    rfl
  obtain ⟨hfirst', hrest'⟩ := List.append_inj hall (by rw [hlen, List.length_replicate])
  obtain ⟨x, rest, hx⟩ := List.exists_cons_of_ne_nil (show linesData second' ≠ [] by
    rw [← List.length_pos_iff]
    omega)
  have hx' : x = 121 := by
    refine List.eq_of_mem_replicate (n := second.data + back.data) ?_
    rw [← hrest', linesData_append, hx]
    simp
  have hmem : ∀ c ∈ cs', c.1 ∈ b'.chunks := fun c hc => hcs' ▸ List.mem_map_of_mem hc
  have hls := hb'.legible hmem e
  have hexpects := b'.expects_start cs' e openRequest
  have hstart := b'.layout_fresh cs' e
  rw [hlines] at hls hexpects hstart
  obtain ⟨k, tail, hk, hout⟩ := exists_cut_short hpos hls hexpects hstart hfresh rfl
    (fun q hq => hreads _ (by rw [← hps]; exact List.mem_map_of_mem hq)) (by omega) (by rw [hlen]; exact hleft) hx
    (readsBody_iff.mp hread)
  -- the byte behind the first `k` ones
  have hget : b'.data[k]? = some 121 := by
    rw [hout, hx', List.getElem?_append_right (by simp), List.length_take, Nat.min_eq_left hk.le, Nat.sub_self]
    rfl
  rw [hdata', List.getElem?_append_left (by rw [List.length_replicate]; omega), List.getElem?_replicate,
    if_pos (by omega)] at hget
  exact absurd (Option.some.inj hget) (by decide)

/-- **Exactly which cuts are right.**  Every valid body of a layout is read as if it had come in one piece, if and only
if the cuts fit the layout. -/
theorem reassembles_iff (hb : b.Valid) (hcs : cs.map Prod.fst = b.chunks)
    (hsum : first + sizes.sum = (b.text cs e).length) (hreads : ∀ n ∈ sizes, n ≤ tcp) :
    (b.layout cs e).Reassembles tcp first sizes ↔ (b.layout cs e).Fits tcp first sizes := by
  constructor
  · intro h
    obtain ⟨b', cs', p, ps, hb', hcs', hlay, hdata', htight, htext, hp, hps, hsame⟩ := h.exists_painted hb hcs hsum
      (List.replicate b.data.length 122) List.length_replicate fun c hc => Or.inr (List.eq_of_mem_replicate hc)
    obtain ⟨hpos, hbuffer, hread⟩ := hsame.readsBody hb' hcs' htext
    have hcuts := cuts_of_readsBody hb' hcs' htight htext hpos
      (fun q hq => hreads _ (by rw [← hps]; exact List.mem_map_of_mem hq)) hread
    rw [hlay, List.map_cons, hp, hps] at hcuts
    refine ⟨hpos, ?_, hcuts, fun front second back hsplit hfront hnext =>
      h.rest hb hcs hsum hreads hcuts hsplit hfront hnext⟩
    rwa [hdata', List.length_replicate, ← show (b.layout cs e).data = b.data.length by
      rw [ChunkedBody.layout, data_layoutOf, ChunkedBody.linesData_lines, hcs]; rfl] at hbuffer
  · intro hfits b' cs' e' r sock p ps hb' hcs' hlay htext hp hps htcp hvalid
    subst htcp hp hps
    refine ⟨b'.data, hb'.readsBody hcs' (hlay ▸ hfits) htext (fun q hq => hreads _ (List.mem_map_of_mem hq)) hvalid, ?_⟩
    rw [htext]
    exact hb'.readsBody_whole hcs' hfits.tcp_pos (hlay ▸ hfits.buffer) hvalid

end Only

/-! ## Two cuts of a body -/

namespace ChunkedBody

/-- The chunk of the plain body, without an extension. -/
def plainChunks : List (SentChunk × Extension) := plainBody.chunks.map fun c => (c, ⟨[], Or.inl rfl, rfl⟩)

theorem plainBody_valid : plainBody.Valid where
  plain := plainBody_plain
  matched := by unfold Matched; decide
  noLength := by
    intro l hl pos hpos
    obtain rfl : l = lit "X: y" := by simpa [plainBody] using hl
    obtain rfl : 1 = pos := Option.some.inj ((show find [58] (lit "X: y" ++ crlf) = some 1 by decide).symm.trans hpos)
    decide

/-- A cut behind the chunk is right. -/
theorem reassembles_plainBody : (plainBody.layout plainChunks ⟨[], Or.inl rfl, rfl⟩).Reassembles 65536 6 [11] := by
  refine (reassembles_iff plainBody_valid rfl (by decide) (by decide)).mpr ⟨by decide, by decide, ?_, ?_⟩
  · exact .cons [(.waitSize, 1), (.waitContent, 1)] (by simp [Layout.Fresh])
      (Layout.cuts_whole [(.waitSize, 1), (.waitHeaders, 4), (.waitHeaders, 0)])
  · intro front second back hsplit _ _
    have hdata := congrArg Layout.data hsplit
    have hone : (plainBody.layout plainChunks ⟨[], Or.inl rfl, rfl⟩).data = 1 := by decide
    rw [Layout.data_append, Layout.data_append, hone] at hdata
    left
    omega

/-- **A cut inside the size line** stops the reading, and a cut behind it loses the size. -/
theorem not_readsSame_plainBody :
    plainBody.Valid ∧ (∀ x ∈ plainBody.lines plainChunks ⟨[], Or.inl rfl, rfl⟩, x.2.length + 2 < 1024) ∧
      plainBody.text plainChunks ⟨[], Or.inl rfl, rfl⟩ = lit "1\r\na\r\n0\r\nX: y\r\n\r\n" ∧
      ¬ openRequest.ReadsSame (openSocket 65536) (lit "1") [lit "\r\na\r\n0\r\nX: y\r\n\r\n"] ∧
      ¬ openRequest.ReadsSame (openSocket 65536) (lit "1\r\n") [lit "a\r\n0\r\nX: y\r\n\r\n"] := by
  refine ⟨plainBody_valid, by decide, by decide, ?_, ?_⟩
  · rintro ⟨bytes, h, -⟩
    obtain ⟨fuel, r', h⟩ := readsBody_iff.mp h
    obtain ⟨-, ss, hrounds, -⟩ := (rounds_of_readAllLoop (admits_open 65536) (by decide)
      (by decide) (Or.inr (Or.inl rfl)) h).resolve_left fun hend => absurd hend.1 (by decide)
    exact hrounds.find_ne_none chunkMachine_overlong_ne (by decide) (by decide)
  · rintro ⟨bytes, ⟨fuel, r', h⟩, -⟩
    have herror : (readAllBody 2 (openRequest.arriving (openSocket 65536) (lit "1\r\n")
        [lit "a\r\n0\r\nX: y\r\n\r\n"])).map (fun x => x.2.1) = .ok (some .wrongProtocolType) := by decide +kernel
    obtain ⟨x, hx, hsome⟩ : ∃ x, readAllBody 2 (openRequest.arriving (openSocket 65536) (lit "1\r\n")
        [lit "a\r\n0\r\nX: y\r\n\r\n"]) = .ok x ∧ x.2.1 = some .wrongProtocolType := by
      cases hread : readAllBody 2 (openRequest.arriving (openSocket 65536) (lit "1\r\n")
          [lit "a\r\n0\r\nX: y\r\n\r\n"]) with
      | error e =>
        rw [hread] at herror
        cases herror
      | ok x =>
        rw [hread] at herror
        exact ⟨x, rfl, Except.ok.inj herror⟩
    have heq := (readAllLoop_le (Nat.le_max_left fuel 2) h).symm.trans (readAllLoop_le (Nat.le_max_right fuel 2) hx)
    rw [← Except.ok.inj heq] at hsome
    cases hsome

end ChunkedBody

end Gts3.Http
