import Gts3.Http.ChunkedCalls

/-!
# `read_all_body` of a chunked body in segments

The loop of `read_all_body` gives the data of a body when its segments hold whole lines, do not begin with data, and no
bytes are left when data follows (`loopGives_cut`).  A loop that returns has read the segments in rounds
(`rounds_of_readAllLoop`), and bytes that are left are overwritten by the data that follows (`exists_overwritten`).
-/

namespace Gts3.Http

open Lib Lib.Search Lib.Cxx Lib.LineMachine Lib.HttpMessage Request

namespace Request

/-! ## The loop -/

/-- The loop of `read_all_body` comes to its end and returns `out`. -/
def LoopGives (tcp : ℕ) (r : Request) (buf : Buffer) (result out : Bytes) : Prop :=
  ∃ fuel r', readAllLoop tcp fuel r buf result = .ok (out, none, r')

theorem loopGives_finished {tcp : ℕ} {r : Request} (h : r.rbStatus = .finished) (buf : Buffer) (result : Bytes) :
    LoopGives tcp r buf result result := by
  refine ⟨1, r, ?_⟩
  rw [readAllLoop, if_neg]
  rw [canReadBody, h]
  simp

theorem loopGives_step {tcp : ℕ} {r : Request} {buf : Buffer} {result out : Bytes} {res : ReadBody}
    (hcan : r.canReadBody = true) (hok : readBodyInto r buf tcp = .ok res) (herror : res.error = none)
    (h : LoopGives tcp res.request res.buf (result ++ res.buf.front res.count) out) :
    LoopGives tcp r buf result out := by
  obtain ⟨fuel, r', h⟩ := h
  refine ⟨fuel + 1, r', ?_⟩
  rw [readAllLoop, if_pos hcan, hok, ok_bind, herror]
  exact h

section Loop

variable {r : Request} {sock : TcpSocket} {tcp : ℕ} {l : ChunkLoop} {abuf : Bytes} {ps : List Bytes} {buf : Buffer}
  {result : Bytes}

variable (r abuf ps buf result) in
/-- **Behind the end of the body** the decoded bytes are given out. -/
theorem loopGives_end (hpos : 0 < tcp) (hend : l.status = .chunkedEnd)
    (hvalid : r.Admits sock l) (hps : ∀ q ∈ ps, q.length ≤ sock.sendBufferSize)
    (hbuf : min tcp l.body.length ≤ buf.size) :
    LoopGives tcp (r.segmented sock l abuf ps) buf result (result ++ l.body) := by
  induction hn : l.body.length using Nat.strong_induction_on generalizing l buf result with
  | _ n ih =>
    subst hn
    obtain ⟨res, hok⟩ := exists_readBodyInto r abuf ps buf hpos (Or.inl hend) hps hbuf fun hne => absurd hend hne
    obtain ⟨hserved, hsize⟩ := callGives_of_ok hpos (Or.inl hend) hps hok
    have hcan := hvalid.canReadBody (Or.inl hend) abuf ps
    cases hserved with
    | @kept buf' hle hfront =>
      refine loopGives_step hcan hok rfl ?_
      have hrest := ih (l.body.drop tcp).length (by rw [List.length_drop]; omega)
        buf' (result ++ l.body.take tcp) (l := { l with body := l.body.drop tcp }) hend hvalid
        (by have := hsize rfl; simp only [List.length_drop] at this ⊢; omega) rfl
      rw [List.append_assoc, List.take_append_drop] at hrest
      show LoopGives tcp _ buf' (result ++ buf'.front tcp) _
      rw [hfront]
      exact hrest
    | @ended buf' hlt hend hfront =>
      refine loopGives_step hcan hok rfl ?_
      show LoopGives tcp _ buf' (result ++ buf'.front l.body.length) _
      rw [hfront]
      exact loopGives_finished rfl buf' _
    | failed hlt hne => exact absurd hend hne
    | decoded hlt hne => exact absurd hend hne

variable (buf result) in
/-- **One call** that decodes a segment of whole lines; it gives the bytes that were left, or the data
of the segment. -/
theorem loopGives_round {front back : List ChunkedLine} {qs : List Bytes} (hpos : 0 < tcp)
    (hls : Legible (front ++ back)) (hl : Expects (again l) (front ++ back)) (hne : front ++ back ≠ [])
    (hvalid : r.Admits sock l) (hps : ∀ q ∈ ps, q.length ≤ sock.sendBufferSize)
    (hseg : NextSegment abuf ps (linesText front) qs) (hlt : l.body.length < tcp)
    (hone : l.body = [] ∨ linesData front = []) (hbuf : l.body.length ≤ buf.size)
    (hbuf' : min tcp (linesData front).length ≤ buf.size) :
    ∃ l' buf', Expects l' back ∧ l'.body = linesData front ∧ r.Admits sock l' ∧ buf'.size = buf.size ∧
      ∀ out, LoopGives tcp ((r.segmented sock l' [] qs).afterRead (tcp - l.body.length)) buf'
          (result ++ (l.body ++ (linesData front).take tcp)) out →
        LoopGives tcp (r.segmented sock l abuf ps) buf result out := by
  have hstatus : Decoding l.status := Expects.decoding (l := again l) hls hl hne
  obtain ⟨l', hrun, hl', hbody, hlength⟩ := loopResult_lines hls hl
  have hbody : l'.body = linesData front := by simpa [again] using hbody
  obtain ⟨res, hok⟩ := exists_readBodyInto r abuf ps buf hpos (Or.inr hstatus) hps (by omega)
    fun _ _ => ⟨_, qs, l', [], hseg, hrun, by rw [hbody]; exact hbuf'⟩
  obtain ⟨hserved, hsize⟩ := callGives_of_ok hpos (Or.inr hstatus) hps hok
  have hcan := hvalid.canReadBody (Or.inr hstatus) abuf ps
  cases hserved with
  | kept hle => omega
  | ended _ hend => exact absurd hend hstatus.ne.1
  | failed _ _ hseg' hrun' =>
    obtain ⟨rfl, rfl⟩ := hseg.eq hseg'
    rw [hrun] at hrun'
    cases hrun'
  | @decoded g abuf' qs' l₁ buf' _ _ hseg' hrun' hfront hkeep =>
    obtain ⟨rfl, rfl⟩ := hseg.eq hseg'
    rw [hrun] at hrun'
    obtain ⟨rfl, rfl, -⟩ := by simpa using hrun'
    refine ⟨l', buf', hl', hbody, hvalid.of_eq hlength, hsize rfl, fun out hout => loopGives_step hcan hok rfl ?_⟩
    have hgiven : buf'.front (l.body.length + min (tcp - l.body.length) l'.body.length) =
        l.body ++ (linesData front).take tcp := by
      rcases hone with hnil | hnil
      · rw [hnil, List.length_nil, Nat.sub_zero] at hfront
        rw [hnil, List.length_nil, Nat.sub_zero, Nat.zero_add, hfront, hbody, List.nil_append]
      · rw [hbody, hnil, List.length_nil, Nat.min_zero, Nat.add_zero, hkeep (hbody.trans hnil), List.take_nil,
          List.append_nil]
    show LoopGives tcp _ buf' (result ++ buf'.front _) out
    rw [hgiven]
    exact hout

/-- The request behind a call that did not give all it had. -/
theorem afterRead_segmented_of_le {n : ℕ} (hle : n ≤ l.body.length) :
    (r.segmented sock l abuf ps).afterRead n = r.segmented sock { l with body := l.body.drop n } abuf ps :=
  if_pos hle

variable (r sock abuf ps) in
/-- The request behind a call that gave all it had. -/
theorem afterRead_segmented {back : List ChunkedLine} (hls : Legible back) (hl : Expects l back) {n : ℕ}
    (hlt : l.body.length < n) :
    (back = [] ∧ ((r.segmented sock l abuf ps).afterRead n).rbStatus = .finished) ∨
      (back ≠ [] ∧ (r.segmented sock l abuf ps).afterRead n = r.segmented sock { l with body := [] } abuf ps) := by
  have hbody : ¬ n ≤ (r.segmented sock l abuf ps).body.length := Nat.not_le.mpr hlt
  rw [afterRead, if_neg hbody]
  rcases eq_or_ne back [] with rfl | hne
  · refine Or.inl ⟨rfl, if_pos hl⟩
  · have hstatus : (r.segmented sock l abuf ps).rbStatus ≠ .chunkedEnd := (hl.decoding hls hne).ne.1
    refine Or.inr ⟨hne, ?_⟩
    rw [if_neg hstatus]
    rfl

variable (buf result) in
/-- **Segments of whole lines** that do not begin with data are decoded to their data. -/
theorem loopGives_rest {ls : List ChunkedLine} (hpos : 0 < tcp) (htcp : sock.sendBufferSize = tcp) (hls : Legible ls)
    (hl : Expects l ls) (hfresh : (layoutOf ls).Fresh) (hbody : l.body = []) (hvalid : r.Admits sock l)
    (hps : ∀ q ∈ ps, q.length ≤ tcp) (hcuts : (layoutOf ls).Cuts (ps.map List.length))
    (htext : ps.flatten = linesText ls) (hbuf : min tcp (linesData ls).length ≤ buf.size) :
    LoopGives tcp (r.segmented sock l [] ps) buf result (result ++ linesData ls) := by
  induction ps generalizing l ls buf result with
  | nil =>
    -- no lines are left
    have hlen := length_linesData_le ls
    rw [← htext, List.flatten_nil, List.length_nil] at hlen
    obtain rfl : ls = [] := List.length_eq_zero_iff.mp (by omega)
    simpa [hbody] using loopGives_end r [] _ buf result hpos hl hvalid
      (fun q hq => by simp at hq) (by simp [hbody])
  | cons q qs ih =>
    obtain ⟨front, back, rfl, rfl, hrest, hback, hcuts'⟩ := exists_lines_of_cuts htext hcuts
    by_cases hne : front ++ back = []
    · rw [hne] at hl ⊢
      simpa [hbody] using loopGives_end r [] _ buf result hpos hl hvalid (htcp ▸ hps)
        (by simp [hbody])
    have hdata : (linesData (front ++ back)).length = (linesData front).length + (linesData back).length := by
      rw [linesData_append, List.length_append]
    have hsmall : (linesData front).length < tcp := by
      have hle := length_linesData_le front
      have hq := hps _ List.mem_cons_self
      cases front with
      | nil => exact hpos
      | cons x front =>
        rw [List.length_cons] at hle
        omega
    obtain ⟨l', buf', hl', hbody', hvalid', hsize, hgives⟩ := loopGives_round buf result hpos hls
      (hl.again (fresh_layoutOf.mp hfresh)) hne hvalid (htcp ▸ hps) .received (by rw [hbody]; exact hpos)
      (Or.inl hbody) (by rw [hbody]; exact Nat.zero_le _) (by omega)
    refine hgives _ ?_
    rw [hbody, List.nil_append, List.length_nil, Nat.sub_zero, List.take_of_length_le hsmall.le, linesData_append,
      ← List.append_assoc]
    rcases afterRead_segmented r sock [] qs hls.of_append hl'
      (show l'.body.length < tcp by rw [hbody']; exact hsmall) with ⟨rfl, hfin⟩ | ⟨hne', heq⟩
    · rw [linesData_nil, List.append_nil]
      exact loopGives_finished hfin buf' _
    · rw [heq]
      exact ih _ _ hls.of_append (by cases back <;> exact hl') hback rfl hvalid' (fun q hq => hps q (by simp [hq]))
        hcuts' hrest (by omega)

variable (buf result) in
/-- **Bytes that are left** of the first part are given out before the next segment is read, when they fill the reads
or when that segment brings no data. -/
theorem loopGives_left {ls : List ChunkedLine} (hpos : 0 < tcp) (htcp : sock.sendBufferSize = tcp) (hls : Legible ls)
    (hl : Expects l ls) (hfresh : (layoutOf ls).Fresh) (hvalid : r.Admits sock l) (hps : ∀ q ∈ ps, q.length ≤ tcp)
    (hcuts : (layoutOf ls).Cuts (ps.map List.length)) (htext : ps.flatten = linesText ls)
    (hleft : tcp ∣ l.body.length ∨ ∀ front back, ls = front ++ back →
      ps.head?.map List.length = some (linesText front).length → linesData front = [])
    (hbuf : min tcp (l.body.length + (linesData ls).length) ≤ buf.size) :
    LoopGives tcp (r.segmented sock l [] ps) buf result (result ++ (l.body ++ linesData ls)) := by
  induction hn : l.body.length using Nat.strong_induction_on generalizing l buf result with
  | _ n ih =>
    subst hn
    rcases eq_or_ne ls [] with rfl | hne
    · simpa using loopGives_end r [] _ buf result hpos hl hvalid (htcp ▸ hps) (by omega)
    have hstatus : Decoding l.status := hl.decoding hls hne
    rcases Nat.lt_or_ge l.body.length tcp with hlt | hle
    · rcases eq_or_ne l.body [] with hbody | hbody
      · simpa [hbody] using loopGives_rest buf result hpos htcp hls hl hfresh hbody hvalid hps hcuts htext (by omega)
      -- the next segment brings no data
      have hleft := hleft.resolve_left fun hdvd =>
        hbody (List.length_eq_zero_iff.mp (Nat.eq_zero_of_dvd_of_lt hdvd hlt))
      cases ps with
      | nil =>
        have hlen := length_linesData_le ls
        rw [← htext, List.flatten_nil, List.length_nil] at hlen
        exact absurd (List.length_eq_zero_iff.mp (by omega)) hne
      | cons q qs =>
        obtain ⟨front, back, rfl, rfl, hrest, hback, hcuts'⟩ := exists_lines_of_cuts htext hcuts
        have hnil : linesData front = [] := hleft front back rfl rfl
        obtain ⟨l', buf', hl', hbody', hvalid', hsize, hgives⟩ := loopGives_round buf result hpos hls
          (hl.again (fresh_layoutOf.mp hfresh)) hne hvalid (htcp ▸ hps) .received hlt (Or.inr hnil) (by omega)
          (by rw [hnil, List.length_nil, Nat.min_zero]; exact Nat.zero_le _)
        refine hgives _ ?_
        rw [hnil, List.take_nil, List.append_nil, linesData_append, hnil, List.nil_append, ← List.append_assoc]
        rcases afterRead_segmented r sock [] qs hls.of_append hl'
          (show l'.body.length < tcp - l.body.length by rw [hbody', hnil]; exact Nat.sub_pos_of_lt hlt)
          with ⟨rfl, hfin⟩ | ⟨hne', heq⟩
        · rw [linesData_nil, List.append_nil]
          exact loopGives_finished hfin buf' _
        · rw [heq]
          refine loopGives_rest _ _ hpos htcp hls.of_append (by cases back <;> exact hl') hback rfl hvalid'
            (fun q hq => hps q (by simp [hq])) hcuts' hrest ?_
          rw [linesData_append, hnil, List.nil_append] at hbuf
          omega
    · -- a whole read
      obtain ⟨res, hok⟩ := exists_readBodyInto r [] ps buf hpos (Or.inr hstatus)
        (htcp ▸ hps) (by omega) fun _ hlt => absurd hle (Nat.not_le.mpr hlt)
      obtain ⟨hserved, hsize⟩ := callGives_of_ok hpos (Or.inr hstatus) (htcp ▸ hps) hok
      have hcan := hvalid.canReadBody (Or.inr hstatus) [] ps
      cases hserved with
      | @kept buf' _ hfront =>
        refine loopGives_step hcan hok rfl ?_
        have hlen : (l.body.drop tcp).length = l.body.length - tcp := List.length_drop
        have hrest := ih (l.body.drop tcp).length (by omega) buf'
          (result ++ l.body.take tcp) (l := { l with body := l.body.drop tcp }) (by cases ls <;> exact hl) hvalid
          (hleft.imp_left fun hdvd => by
            show tcp ∣ (l.body.drop tcp).length
            rw [hlen]
            exact Nat.dvd_sub hdvd dvd_rfl)
          (by have := hsize rfl; simp only [hlen] at this ⊢; omega) rfl
        rw [List.append_assoc, ← List.append_assoc (l.body.take tcp), List.take_append_drop] at hrest
        show LoopGives tcp _ buf' (result ++ buf'.front tcp) _
        rw [hfront]
        exact hrest
      | ended hlt => omega
      | failed hlt => omega
      | decoded hlt => omega

variable (buf result) in
/-- **A body in segments of whole lines** is decoded to its data. -/
theorem loopGives_cut {ls : List ChunkedLine} {p : Bytes} (hpos : 0 < tcp) (htcp : sock.sendBufferSize = tcp)
    (hls : Legible ls) (hl : Expects l ls) (hfresh : (layoutOf ls).Fresh) (hbody : l.body = [])
    (hvalid : r.Admits sock l) (hps : ∀ q ∈ ps, q.length ≤ tcp) (hcuts : (layoutOf ls).Cuts ((p :: ps).map List.length))
    (htext : p ++ ps.flatten = linesText ls)
    (hleft : ∀ front second back, ls = front ++ second ++ back → (linesText front).length = p.length →
      ps.head?.map List.length = some (linesText second).length →
      (linesData front).length < tcp ∨ tcp ∣ (linesData front).length ∨ linesData second = [])
    (hbuf : min tcp (linesData ls).length ≤ buf.size) :
    LoopGives tcp (r.segmented sock l p ps) buf result (result ++ linesData ls) := by
  obtain ⟨front, back, rfl, rfl, hrest, hback, hcuts'⟩ := exists_lines_of_cuts htext hcuts
  have hlen := length_linesData_le front
  by_cases hp : linesText front = []
  · -- nothing came with the head
    obtain rfl : front = [] := by
      rw [hp, List.length_nil] at hlen
      exact List.length_eq_zero_iff.mp (by omega)
    exact loopGives_rest _ _ hpos htcp hls hl hback hbody hvalid hps hcuts' hrest hbuf
  have hne : front ++ back ≠ [] := by
    rintro hnil
    rw [(List.append_eq_nil_iff.mp hnil).1] at hp
    exact hp rfl
  have hdata : (linesData (front ++ back)).length = (linesData front).length + (linesData back).length := by
    rw [linesData_append, List.length_append]
  obtain ⟨l', buf', hl', hbody', hvalid', hsize, hgives⟩ := loopGives_round buf result hpos hls
    (hl.again (fresh_layoutOf.mp hfresh)) hne hvalid (htcp ▸ hps) (.buffered hp) (by rw [hbody]; exact hpos)
    (Or.inl hbody) (by rw [hbody]; exact Nat.zero_le _) (by omega)
  refine hgives _ ?_
  rw [hbody, List.nil_append, List.length_nil, Nat.sub_zero, linesData_append]
  rcases Nat.lt_or_ge (linesData front).length tcp with hlt | hle
  · rw [List.take_of_length_le hlt.le, ← List.append_assoc]
    rcases afterRead_segmented r sock [] ps hls.of_append hl'
      (show l'.body.length < tcp by rw [hbody']; exact hlt) with ⟨rfl, hfin⟩ | ⟨hne', heq⟩
    · rw [linesData_nil, List.append_nil]
      exact loopGives_finished hfin buf' _
    · rw [heq]
      exact loopGives_rest _ _ hpos htcp hls.of_append (by cases back <;> exact hl') hback rfl hvalid' hps hcuts' hrest
        (by omega)
  · have hafter : (r.segmented sock l' [] ps).afterRead tcp =
        r.segmented sock { l' with body := (linesData front).drop tcp } [] ps := by
      rw [afterRead_segmented_of_le (by rw [hbody']; exact hle), hbody']
    have hdrop : ((linesData front).drop tcp).length = (linesData front).length - tcp := List.length_drop
    have hgiven := loopGives_left buf' (result ++ (linesData front).take tcp)
      (l := { l' with body := (linesData front).drop tcp }) hpos htcp hls.of_append (by cases back <;> exact hl') hback
      hvalid' hps hcuts' hrest ?_ (by simp only [hdrop]; omega)
    · rw [List.append_assoc, ← List.append_assoc ((linesData front).take tcp), List.take_append_drop] at hgiven
      rw [hafter]
      exact hgiven
    · simp only [hdrop]
      by_cases hdvd : tcp ∣ (linesData front).length
      · exact Or.inl (Nat.dvd_sub hdvd dvd_rfl)
      · refine Or.inr fun second back' hsplit hhead => ?_
        rcases hleft front second back' (by rw [hsplit, List.append_assoc]) rfl hhead with h | h | h
        · omega
        · exact absurd h hdvd
        · exact h

end Loop

/-! ## Back from the loop to the rounds -/

theorem readAllLoop_ok {tcp fuel : ℕ} {r r' : Request} {buf : Buffer} {result out : Bytes} (hcan : r.canReadBody = true)
    (h : readAllLoop tcp fuel r buf result = .ok (out, none, r')) :
    ∃ fuel' res, fuel = fuel' + 1 ∧ readBodyInto r buf tcp = .ok res ∧ res.error = none ∧
      readAllLoop tcp fuel' res.request res.buf (result ++ res.buf.front res.count) = .ok (out, none, r') := by
  cases fuel with
  | zero => cases h
  | succ fuel =>
    rw [readAllLoop, if_pos hcan] at h
    obtain ⟨res, hok, h⟩ := run_bind_eq_ok.mp h
    cases herror : res.error with
    | some e =>
      rw [herror] at h
      cases (Prod.mk.inj (Prod.mk.inj (Except.ok.inj h)).2).1
    | none =>
      rw [herror] at h
      exact ⟨fuel, res, rfl, hok, herror, h⟩

theorem readAllLoop_finished {tcp fuel : ℕ} {r r' : Request} {buf : Buffer} {result out : Bytes}
    (hfin : r.rbStatus = .finished) (h : readAllLoop tcp fuel r buf result = .ok (out, none, r')) : out = result := by
  cases fuel with
  | zero => cases h
  | succ fuel =>
    rw [readAllLoop, if_neg (by rw [canReadBody, hfin]; simp)] at h
    exact (Prod.mk.inj (Except.ok.inj h)).1.symm

section Back

variable {r : Request} {sock : TcpSocket} {tcp : ℕ} {l : ChunkLoop} {abuf : Bytes} {ps : List Bytes} {buf : Buffer}
  {result out : Bytes} {r' : Request}

theorem again_again (l : ChunkLoop) : again (again l) = again l := rfl

/-- A segment that is read from the socket is a round behind an empty one. -/
theorem NextSegment.rounds {g : Bytes} {qs : List Bytes} (hseg : NextSegment abuf ps g qs) {ss : List ChunkLoop}
    (h : Rounds chunkMachine again false (again l) g qs ss) :
    ∃ ss', Rounds chunkMachine again false (again l) abuf ps ss' ∧ totalBody ss' = totalBody ss := by
  cases hseg with
  | buffered hne => exact ⟨ss, h, rfl⟩
  | received =>
    refine ⟨again l :: ss, .next (drain_short rfl (by decide)) (again_again l ▸ h), ?_⟩
    rw [totalBody_cons]
    exact Nat.zero_add _

/-- **A loop that returns** has read the segments in rounds, and gives what was decoded in them. -/
theorem rounds_of_readAllLoop (hadmits : ∀ l, r.Admits sock l) (hpos : 0 < tcp) {fuel : ℕ}
    (hps : ∀ q ∈ ps, q.length ≤ sock.sendBufferSize) (hstatus : l.status = .chunkedEnd ∨ Decoding l.status)
    (h : readAllLoop tcp fuel (r.segmented sock l abuf ps) buf result = .ok (out, none, r')) :
    (l.status = .chunkedEnd ∧ out.length = result.length + l.body.length) ∨
      (Decoding l.status ∧ ∃ ss, Rounds chunkMachine again false (again l) abuf ps ss ∧
        out.length = result.length + l.body.length + totalBody ss) := by
  induction fuel generalizing l abuf ps buf result with
  | zero => cases h
  | succ fuel ih =>
    obtain ⟨fuel', res, hfuel, hok, herror, h⟩ := readAllLoop_ok ((hadmits l).canReadBody hstatus abuf ps) h
    obtain rfl := Nat.succ.inj hfuel
    obtain ⟨hserved, -⟩ := callGives_of_ok hpos hstatus hps hok
    cases hserved with
    | @kept buf' hle hfront =>
      have hrest := ih (l := { l with body := l.body.drop tcp }) hps hstatus h
      simp only [List.length_append, Buffer.length_front, List.length_drop] at hrest
      refine hrest.imp (fun ⟨hend, hlen⟩ => ⟨hend, by omega⟩) fun ⟨hdecoding, ss, hrounds, hlen⟩ => ?_
      exact ⟨hdecoding, ss, hrounds, by omega⟩
    | @ended buf' hlt hend hfront =>
      obtain rfl := readAllLoop_finished rfl h
      exact Or.inl ⟨hend, by rw [List.length_append, Buffer.length_front]⟩
    | failed _ _ _ _ hfailed => exact absurd herror hfailed
    | @decoded g abuf' qs l' buf' hlt hne hseg hrun hfront hkeep =>
      have hdecoding := hstatus.resolve_left hne
      refine Or.inr ⟨hdecoding, ?_⟩
      have hqs : ∀ q ∈ qs, q.length ≤ sock.sendBufferSize := by
        cases hseg with
        | buffered => exact hps
        | received => exact fun q hq => hps q (by simp [hq])
      have hmeets := drain_status (l := again l) hdecoding g
      cases hdrain : drain chunkMachine (again l) g with
      | done l₁ failed rest =>
        rw [hdrain] at hrun hmeets
        obtain ⟨rfl, rfl, rfl⟩ := by simpa [loopResult] using hrun
        have hend : l₁.status = .chunkedEnd := hmeets rfl
        obtain ⟨ss, hrounds, htotal⟩ := hseg.rounds (l := l) (.last qs hdrain)
        refine ⟨ss, hrounds, ?_⟩
        rw [htotal, totalBody_cons, totalBody_nil]
        by_cases hle : tcp - l.body.length ≤ l₁.body.length
        · -- some of the data is left
          rw [afterRead_segmented_of_le hle] at h
          have hrest := ih (l := { l₁ with body := l₁.body.drop (tcp - l.body.length) }) hqs (Or.inl hend) h
          simp only [List.length_append, Buffer.length_front, List.length_drop] at hrest
          rcases hrest with ⟨-, hlen⟩ | ⟨hdec, -⟩
          · omega
          · exact absurd hend hdec.ne.1
        · obtain rfl := readAllLoop_finished (by
            rw [afterRead, if_neg (show ¬ tcp - l.body.length ≤ (r.segmented sock l₁ rest qs).body.length from hle)]
            exact if_pos hend) h
          simp only [List.length_append, Buffer.length_front]
          omega
      | more l₁ rest =>
        rw [hdrain] at hrun hmeets
        obtain ⟨rfl, rfl⟩ := by simpa [loopResult] using hrun
        have hopen : Decoding l₁.status := hmeets
        have hne₁ : l₁.status ≠ .chunkedEnd := hopen.ne.1
        -- the rounds behind this call
        obtain ⟨ss, hrounds, hlen⟩ : ∃ ss, Rounds chunkMachine again false (again l₁) rest qs ss ∧
            out.length = result.length + l.body.length + l₁.body.length + totalBody ss := by
          by_cases hle : tcp - l.body.length ≤ l₁.body.length
          · rw [afterRead_segmented_of_le hle] at h
            have hrest := ih (l := { l₁ with body := l₁.body.drop (tcp - l.body.length) }) hqs (Or.inr hopen) h
            simp only [List.length_append, Buffer.length_front, List.length_drop] at hrest
            obtain ⟨-, ss, hrounds, hlen⟩ := hrest.resolve_left fun hend => hne₁ hend.1
            exact ⟨ss, hrounds, by omega⟩
          · have hafter : (r.segmented sock l₁ rest qs).afterRead (tcp - l.body.length) =
                r.segmented sock { l₁ with body := [] } rest qs := by
              rw [afterRead, if_neg (show ¬ tcp - l.body.length ≤ (r.segmented sock l₁ rest qs).body.length from hle),
                if_neg (show (r.segmented sock l₁ rest qs).rbStatus ≠ .chunkedEnd from hne₁)]
              rfl
            rw [hafter] at h
            have hrest := ih (l := { l₁ with body := [] }) hqs (Or.inr hopen) h
            simp only [List.length_append, Buffer.length_front, List.length_nil] at hrest
            obtain ⟨-, ss, hrounds, hlen⟩ := hrest.resolve_left fun hend => hne₁ hend.1
            exact ⟨ss, hrounds, by omega⟩
        -- no unfinished line is left, or it would stay
        have hfind := (drain_more (by decide) hdrain).1
        obtain rfl : rest = [] := by
          by_contra hrest
          exact hrounds.find_ne_none chunkMachine_overlong_ne hrest hfind
        obtain ⟨q, qs', ss', rfl, rfl, hrounds'⟩ := hrounds.nil (by decide)
        obtain ⟨ss, hall, htotal⟩ := hseg.rounds (l := l) (.next hdrain (again_again l₁ ▸ hrounds'))
        refine ⟨ss, hall, ?_⟩
        rw [htotal, totalBody_cons]
        simp only [totalBody_cons, again, List.length_nil] at hlen
        omega

end Back

/-! ## What overwrites the bytes that are left -/

theorem readAllLoop_prefix {tcp fuel : ℕ} {r r' : Request} {buf : Buffer} {result out : Bytes}
    (h : readAllLoop tcp fuel r buf result = .ok (out, none, r')) : result <+: out := by
  induction fuel generalizing r buf result with
  | zero => cases h
  | succ fuel ih =>
    by_cases hcan : r.canReadBody = true
    · obtain ⟨fuel', res, hfuel, -, -, h⟩ := readAllLoop_ok hcan h
      obtain rfl := Nat.succ.inj hfuel
      exact (List.prefix_append _ _).trans (ih h)
    · rw [readAllLoop, if_neg hcan] at h
      rw [(Prod.mk.inj (Except.ok.inj h)).1]

theorem readAllLoop_succ {tcp fuel : ℕ} {r : Request} {buf : Buffer} {result : Bytes}
    {x : Bytes × Option ErrorCode × Request} (h : readAllLoop tcp fuel r buf result = .ok x) :
    readAllLoop tcp (fuel + 1) r buf result = .ok x := by
  induction fuel generalizing r buf result with
  | zero => cases h
  | succ fuel ih =>
    rw [readAllLoop] at h ⊢
    split_ifs at h ⊢ with hcan
    · obtain ⟨res, hok, h⟩ := run_bind_eq_ok.mp h
      rw [hok, ok_bind]
      cases herror : res.error with
      | some e =>
        rw [herror] at h
        exact h
      | none =>
        rw [herror] at h
        exact ih h
    · exact h

theorem readAllLoop_le {tcp fuel fuel' : ℕ} {r : Request} {buf : Buffer} {result : Bytes}
    {x : Bytes × Option ErrorCode × Request} (hle : fuel ≤ fuel') (h : readAllLoop tcp fuel r buf result = .ok x) :
    readAllLoop tcp fuel' r buf result = .ok x := by
  induction hle with
  | refl => exact h
  | step _ ih => exact readAllLoop_succ ih

theorem LoopGives.unique {tcp : ℕ} {r : Request} {buf : Buffer} {result out out' : Bytes}
    (h : LoopGives tcp r buf result out) (h' : LoopGives tcp r buf result out') : out = out' := by
  obtain ⟨fuel, r₁, h⟩ := h
  obtain ⟨fuel', r₂, h'⟩ := h'
  have heq := (readAllLoop_le (Nat.le_max_left fuel fuel') h).symm.trans
    (readAllLoop_le (Nat.le_max_right fuel fuel') h')
  exact (Prod.mk.inj (Except.ok.inj heq)).1

section Left

variable {r : Request} {sock : TcpSocket} {tcp : ℕ} {l l' : ChunkLoop} {g abuf' : Bytes} {qs : List Bytes}
  {buf : Buffer} {result out : Bytes} {r' : Request}

/-- **Bytes that do not fill a read** are overwritten by the data of the next segment. -/
theorem exists_overwritten (hadmits : ∀ l, r.Admits sock l) (hpos : 0 < tcp) {fuel : ℕ}
    (hps : ∀ q ∈ g :: qs, q.length ≤ sock.sendBufferSize) (hstatus : Decoding l.status)
    (hrun : loopResult (drain chunkMachine (again l) g) = (l', abuf', false)) {x : UInt8} {rest : Bytes}
    (hdata : l'.body = x :: rest) (hleft : ¬ tcp ∣ l.body.length)
    (h : readAllLoop tcp fuel (r.segmented sock l [] (g :: qs)) buf result = .ok (out, none, r')) :
    ∃ k tail, k < l.body.length ∧ out = result ++ l.body.take k ++ x :: tail := by
  induction fuel generalizing l buf result with
  | zero => cases h
  | succ fuel ih =>
    have hcan := (hadmits l).canReadBody (Or.inr hstatus) [] (g :: qs)
    obtain ⟨fuel', res, hfuel, hok, herror, h⟩ := readAllLoop_ok hcan h
    obtain rfl := Nat.succ.inj hfuel
    obtain ⟨hserved, -⟩ := callGives_of_ok hpos (Or.inr hstatus) hps hok
    cases hserved with
    | @kept buf' hle hfront =>
      have hlen : (l.body.drop tcp).length = l.body.length - tcp := List.length_drop
      obtain ⟨k, tail, hk, hout⟩ := ih (l := { l with body := l.body.drop tcp }) hstatus hrun
        (by rw [hlen]; exact fun hdvd => hleft ((Nat.dvd_sub_iff_left hle dvd_rfl).mp hdvd)) h
      refine ⟨tcp + k, tail, by simp only [hlen] at hk; omega, ?_⟩
      rw [hout, List.take_add]
      show result ++ buf'.front tcp ++ _ ++ _ = _
      rw [hfront]
      simp only [List.append_assoc]
    | ended _ hend => exact absurd hend hstatus.ne.1
    | failed _ _ _ _ hfailed => exact absurd herror hfailed
    | @decoded g' abuf₁ qs' l₁ buf' hlt hne hseg hrun' hfront hkeep =>
      obtain ⟨rfl, rfl⟩ := NextSegment.received.eq hseg
      rw [hrun] at hrun'
      obtain ⟨rfl, rfl, -⟩ := by simpa using hrun'
      obtain ⟨tail, htail⟩ := readAllLoop_prefix h
      have hbody : l.body.length ≠ 0 := fun hzero => hleft (by rw [hzero]; exact Nat.dvd_zero _)
      -- the first byte that the call gives
      obtain ⟨given, hgiven⟩ : ∃ given,
          buf'.front (l.body.length + min (tcp - l.body.length) l'.body.length) = x :: given := by
        obtain ⟨n, hn⟩ : ∃ n, tcp - l.body.length = n + 1 := ⟨tcp - l.body.length - 1, by omega⟩
        have hfirst := Buffer.front_take buf' (m := l.body.length + min (tcp - l.body.length) l'.body.length)
          (n := min (tcp - l.body.length) l'.body.length) (Nat.le_add_left _ _)
        rw [hfront, hn, hdata, List.take_succ_cons] at hfirst
        rw [hn, hdata, ← List.take_append_drop (min (n + 1) (x :: rest).length) (buf'.front _), hfirst]
        exact ⟨_, List.cons_append⟩
      refine ⟨0, given ++ tail, Nat.pos_of_ne_zero hbody, ?_⟩
      rw [← htail]
      show result ++ buf'.front (l.body.length + min (tcp - l.body.length) l'.body.length) ++ tail = _
      rw [hgiven, List.take_zero, List.append_nil, List.append_assoc, List.cons_append]

end Left

end Request

end Gts3.Http
