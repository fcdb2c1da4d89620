import Gts3.Http.SendRange

/-!
# `send_range` for several ranges

Several ranges make the multipart body that `range_transfer` announces when each leaves room for a line end in the
buffer, and not otherwise (`multipart_iff`): the line end is put behind the bytes of the range without a look at the
size, and a piece that fills the buffer goes through another `write_body`.
-/

namespace Gts3.Http

open Lib Lib.Search Lib.Cxx Lib.HttpMessage Lib.FileStream

namespace Response

/-! ## Writing only adds -/

theorem sendChunkSize_out {r r' : Response} {size : ℕ} (h : r.sendChunkSize size = .ok r') :
    ∃ w, r'.out = r.out ++ w ∧ w ≠ [] ∧ ((∀ a ∈ r.chunkAttributes, (0 : UInt8) ∉ a) → (0 : UInt8) ∉ w) := by
  have hdigits : (0 : UInt8) ∉ formatNat 16 size := fun hc =>
    absurd (digitVal_lt_of_mem_formatNat (by omega) (by omega) size 0 hc) (by decide)
  unfold sendChunkSize at h
  split_ifs at h with hnil
  · refine ⟨_, send_out h, by simp [crlf], fun _ hc => ?_⟩
    rcases List.mem_append.mp hc with hc | hc
    · exact hdigits hc
    · exact absurd hc (by decide)
  · refine ⟨_, send_out (r := { r with chunkAttributes := [] }) h, by simp [crlf], fun hattributes hc => ?_⟩
    rw [List.mem_append, List.mem_append, List.mem_append] at hc
    rcases hc with ((hc | hc) | hc) | hc
    · exact hdigits hc
    · exact absurd hc (by decide)
    · obtain ⟨a, ha, hca⟩ := List.mem_flatMap.mp (List.mem_of_mem_dropLast hc)
      rcases List.mem_append.mp hca with hca | hca
      · exact hattributes a ha hca
      · exact absurd hca (by decide)
    · exact absurd hc (by decide)

/-- A chunk is written with its size line in front. -/
theorem Connected.writeBody_chunk {r r' : Response} (hr : r.Connected) {body : Bytes}
    (h : r.writeBody body true = .ok r') :
    ∃ w, w ≠ [] ∧ ((∀ a ∈ r.chunkAttributes, (0 : UInt8) ∉ a) → (0 : UInt8) ∉ w) ∧ r.out ++ (w ++ body) <+: r'.out := by
  obtain ⟨sock, hs, ho⟩ := hr
  simp only [writeBody, hs, ho, Bool.true_eq_false, if_false] at h
  obtain ⟨r₁, h₁, h⟩ := run_bind_eq_ok.mp h
  obtain ⟨r₂, h₂, h⟩ := run_bind_eq_ok.mp h
  obtain ⟨w, hw, hne, hzero⟩ := sendChunkSize_out h₁
  refine ⟨w, hne, hzero, ?_⟩
  rw [← List.append_assoc, ← hw, ← send_out h₂]
  split_ifs at h
  · exact ⟨_, (send_out h).symm⟩
  · rw [Except.ok.inj h]

theorem writeBody_out {r r' : Response} {body : Bytes} {isChunked : Bool} (h : r.writeBody body isChunked = .ok r') :
    r.out <+: r'.out := by
  cases hs : r.request.socket with
  | none => simp [writeBody, hs] at h
  | some sock =>
    cases ho : sock.isOpen with
    | false =>
      simp only [writeBody, hs, ho, if_true, Except.ok.injEq] at h
      rw [h]
    | true =>
      cases isChunked with
      | false =>
        simp only [writeBody, hs, ho, Bool.true_eq_false, if_false, if_true] at h
        exact ⟨body, (send_out h).symm⟩
      | true =>
        obtain ⟨w, -, -, hout⟩ := Connected.writeBody_chunk ⟨sock, hs, ho⟩ h
        exact (List.prefix_append r.out _).trans hout

theorem writeBodyGood_out {r r' : Response} {body : Bytes} {isChunked good : Bool}
    (h : r.writeBodyGood body isChunked = .ok (good, r')) : r.out <+: r'.out := by
  unfold writeBodyGood at h
  split at h
  · cases h
  · obtain ⟨r₁, h₁, h⟩ := run_bind_eq_ok.mp h
    obtain ⟨-, rfl⟩ := Prod.mk.inj (Except.ok.inj h)
    exact writeBody_out h₁

theorem writeBodyText_out {r r' : Response} {buf : Buffer} {isChunked good : Bool}
    (h : r.writeBodyText buf isChunked = .ok (good, r')) : r.out <+: r'.out := by
  unfold writeBodyText at h
  split_ifs at h
  exact writeBodyGood_out h

theorem partLoop_out {bufSize : ℕ} {isChunked : Bool} {fuel : ℕ} {size : ℕ} {r r' : Response} {f f' : InFile}
    {buf buf' : Buffer} {cont : Bool}
    (h : partLoop bufSize isChunked fuel size r f buf = .ok (cont, r', f', buf')) : r.out <+: r'.out := by
  induction fuel generalizing size r f buf with
  | zero => cases h
  | succ fuel ih =>
    rw [partLoop] at h
    split_ifs at h with heof hle
    · obtain ⟨-, rfl, -⟩ := by simpa using h
      exact List.prefix_rfl
    · obtain ⟨⟨count, buf₁, f₁⟩, -, h⟩ := run_bind_eq_ok.mp h
      dsimp only at h
      split_ifs at h
      · obtain ⟨-, rfl, -⟩ := by simpa using h
        exact List.prefix_rfl
      · obtain ⟨buf₂, -, h⟩ := run_bind_eq_ok.mp h
        obtain ⟨⟨good, r₁⟩, h₁, h⟩ := run_bind_eq_ok.mp h
        obtain ⟨-, rfl, -⟩ := by simpa using h
        exact writeBodyGood_out h₁
    · obtain ⟨⟨count, buf₁, f₁⟩, -, h⟩ := run_bind_eq_ok.mp h
      dsimp only at h
      split_ifs at h
      · obtain ⟨-, rfl, -⟩ := by simpa using h
        exact List.prefix_rfl
      · obtain ⟨⟨good, r₁⟩, h₁, h⟩ := run_bind_eq_ok.mp h
        dsimp only at h
        split_ifs at h
        · exact (writeBodyText_out h₁).trans (ih h)
        · obtain ⟨-, rfl, -⟩ := by simpa using h
          exact writeBodyText_out h₁

theorem partsLoop_out {boundary ctLine : Bytes} {bufSize : ℕ} {isChunked : Bool} {queue : List RangeValue}
    {r r' : Response} {f : InFile} {buf : Buffer}
    (h : partsLoop boundary ctLine bufSize isChunked queue r f buf = .ok r') : r.out <+: r'.out := by
  induction queue generalizing r f buf with
  | nil =>
    obtain ⟨⟨good, r₁⟩, h₁, h⟩ := run_bind_eq_ok.mp h
    obtain rfl := Except.ok.inj h
    exact writeBodyGood_out h₁
  | cons v queue ih =>
    obtain ⟨⟨good, r₁⟩, h₁, h⟩ := run_bind_eq_ok.mp h
    dsimp only at h
    split_ifs at h
    · obtain ⟨⟨cont, r₂, f₂, buf₂⟩, h₂, h⟩ := run_bind_eq_ok.mp h
      dsimp only at h
      split_ifs at h
      · exact (writeBodyGood_out h₁).trans ((partLoop_out h₂).trans (ih h))
      · obtain rfl := Except.ok.inj h
        exact (writeBodyGood_out h₁).trans (partLoop_out h₂)
    · obtain rfl := Except.ok.inj h
      exact writeBodyGood_out h₁

/-! ## Ranges that leave room for a line end -/

/-- What a range is written as. -/
def partText (boundary ctLine content : Bytes) (v : RangeValue) : Bytes :=
  partHeader boundary ctLine v ++ v.bytes content ++ crlf

/-- The multipart body of these ranges. -/
def multipartText (boundary ctLine content : Bytes) (queue : List RangeValue) : Bytes :=
  queue.flatMap (partText boundary ctLine content) ++ closingBoundary boundary

theorem partHeader_pos (boundary ctLine : Bytes) (v : RangeValue) : 0 < (partHeader boundary ctLine v).length := by
  simp only [partHeader, crlf, List.length_append, List.length_cons]
  omega

section Parts

variable {content : Bytes} {bufSize : ℕ}

/-- **A range that leaves room** is written with a line end behind it. -/
theorem partLoop_fits {r : Response} (hr : r.Connected) {v : RangeValue} (hv : v.Within content.length)
    (hroom : v.size + 2 ≤ bufSize) {f : InFile} (hf : f.At content v.rangeBegin) {buf : Buffer}
    (hbuf : buf.size = bufSize) (fuel : ℕ) :
    ∃ f' buf' pos, partLoop bufSize false (fuel + 1) v.size r f buf =
      .ok (true, r.put (v.bytes content ++ crlf), f', buf') ∧
      f'.At content pos ∧ buf'.size = bufSize := by
  have hpos : 0 < v.size := by
    rw [hv.size_eq]
    exact Nat.succ_pos _
  obtain ⟨buf₁, f₁, hread, hf₁, hsize₁, hfront₁⟩ := readInto_within hf hv.fits (by omega : v.size ≤ buf.size)
  obtain ⟨buf₂, hcopy, hsize₂, hfront₂⟩ := Buffer.memcpy_ok
    (show v.size + crlf.length ≤ buf₁.size by rw [hsize₁, hbuf]; exact hroom)
  have htext : buf₂.front (v.size + 2) = v.bytes content ++ crlf := by
    rw [hv.bytes_eq.1, ← hfront₁]
    exact hfront₂
  have hgood : 0 < (v.bytes content ++ crlf).length := by
    rw [List.length_append]
    exact Nat.add_pos_right _ (by decide)
  refine ⟨f₁, buf₂, _, ?_, hf₁, hsize₂.trans (hsize₁.trans hbuf)⟩
  rw [partLoop, if_neg (by rw [hf.eof_eq]; exact Bool.false_ne_true), if_pos (by omega)]
  simp only [hread, ok_bind, if_neg hpos.ne', hcopy, htext, hr.writeBodyGood_plain, decide_eq_true hgood]

theorem partsLoop_fits {r : Response} (hr : r.Connected) (boundary ctLine : Bytes) {v : RangeValue}
    (hv : v.Within content.length) (hroom : v.size + 2 ≤ bufSize) (queue : List RangeValue) {f : InFile} {pos : ℕ}
    (hf : f.At content pos) {buf : Buffer} (hbuf : buf.size = bufSize) :
    ∃ f' buf' pos', partsLoop boundary ctLine bufSize false (v :: queue) r f buf =
        partsLoop boundary ctLine bufSize false queue (r.put (partText boundary ctLine content v)) f' buf' ∧
      f'.At content pos' ∧ buf'.size = bufSize := by
  obtain ⟨f', buf', pos', hloop, hf', hbuf'⟩ := partLoop_fits (hr.put (partHeader boundary ctLine v)) hv hroom
    (hf.seekg v.rangeBegin) hbuf v.size
  refine ⟨f', buf', pos', ?_, hf', hbuf'⟩
  rw [partsLoop]
  simp only [hr.writeBodyGood_plain, ok_bind, decide_eq_true (partHeader_pos boundary ctLine v), if_true, hloop,
    put_put, partText, List.append_assoc]

/-- **Ranges that leave room** are written as a multipart body. -/
theorem partsLoop_sends {r : Response} (hr : r.Connected) (boundary ctLine : Bytes) {queue : List RangeValue}
    (hqueue : ∀ v ∈ queue, v.Within content.length) (hroom : ∀ v ∈ queue, v.size + 2 ≤ bufSize) {f : InFile} {pos : ℕ}
    (hf : f.At content pos) {buf : Buffer} (hbuf : buf.size = bufSize) :
    partsLoop boundary ctLine bufSize false queue r f buf =
      .ok (r.put (multipartText boundary ctLine content queue)) := by
  induction queue generalizing r f pos buf with
  | nil =>
    rw [partsLoop]
    simp only [hr.writeBodyGood_plain, ok_bind]
    rfl
  | cons v queue ih =>
    obtain ⟨hv, hqueue⟩ := List.forall_mem_cons.mp hqueue
    obtain ⟨hroomv, hroom⟩ := List.forall_mem_cons.mp hroom
    obtain ⟨f', buf', pos', hround, hf', hbuf'⟩ := partsLoop_fits hr boundary ctLine hv hroomv queue hf hbuf
    rw [hround, ih (hr.put _) hqueue hroom hf' hbuf', put_put]
    simp only [multipartText, List.flatMap_cons, List.append_assoc]

/-! ## Ranges that do not -/

/-- A text without zeros in front of `s` is not what `s` and a zero begin. -/
theorem not_prefix_zero {w s t : Bytes} (hw : w ≠ []) (hzero : (0 : UInt8) ∉ w ++ s) : ¬ w ++ s <+: s ++ 0 :: t := by
  intro h
  have hlen : (s ++ [(0 : UInt8)]).length ≤ (w ++ s).length := by
    have := List.length_pos_iff.mpr hw
    simp only [List.length_append, List.length_singleton]
    omega
  have hpre : s ++ [(0 : UInt8)] <+: s ++ 0 :: t := ⟨t, by simp⟩
  exact hzero ((List.prefix_of_prefix_length_le hpre h hlen).subset (by simp))

/-- A piece of text is a C string and a zero behind it, or holds no zero. -/
theorem eq_cStr_append {s : Bytes} (h : (0 : UInt8) ∈ s) : ∃ t, s = cStr s ++ 0 :: t := by
  obtain ⟨a, t, rfl, ha⟩ := List.eq_append_cons_of_mem h
  refine ⟨t, ?_⟩
  have hall : ∀ c ∈ a, decide (c ≠ 0) = true := fun c hc => decide_eq_true (ne_of_mem_of_not_mem hc ha)
  rw [cStr, List.takeWhile_append_of_pos hall, List.takeWhile_cons_of_neg (by simp), List.append_nil]

theorem zero_not_mem_cStr (s : Bytes) : (0 : UInt8) ∉ cStr s := fun h => by
  simpa using List.mem_takeWhile_imp h

/-- **A range larger than the buffer** is not written as it is. -/
theorem partLoop_large {r r' : Response} (hr : r.Connected) (hattributes : ∀ a ∈ r.chunkAttributes, (0 : UInt8) ∉ a)
    (hbufSize : 0 < bufSize) {v : RangeValue} (hv : v.Within content.length) (hlarge : bufSize < v.size) {f f' : InFile}
    (hf : f.At content v.rangeBegin) {buf buf' : Buffer} (hbuf : buf.size = bufSize) {fuel : ℕ} {cont : Bool}
    (h : partLoop bufSize false (fuel + 1) v.size r f buf = .ok (cont, r', f', buf')) (t : Bytes) :
    ¬ r'.out <+: r.out ++ (v.bytes content ++ t) := by
  have hfits := hv.fits
  obtain ⟨buf₁, f₁, hread, -, hsize₁, hfront₁⟩ := readInto_within hf (n := bufSize) (by omega) hbuf.ge
  rw [partLoop, if_neg (by rw [hf.eof_eq]; exact Bool.false_ne_true), if_neg (by omega)] at h
  simp only [hread, ok_bind, if_neg hbufSize.ne', decide_eq_true hbufSize.ne'] at h
  obtain ⟨⟨good, r₁⟩, htext, h⟩ := run_bind_eq_ok.mp h
  have hlater : r₁.out <+: r'.out := by
    dsimp only at h
    split_ifs at h
    · exact partLoop_out h
    · obtain ⟨-, rfl, -⟩ := by simpa using h
      exact List.prefix_rfl
  -- what is written instead is a chunk with the C string in the buffer
  have hfront : buf₁.front buf₁.size = (content.drop v.rangeBegin).take bufSize := by rw [hsize₁, hbuf, hfront₁]
  rw [writeBodyText, hfront] at htext
  split_ifs at htext with hmem
  set s := cStr ((content.drop v.rangeBegin).take bufSize) with hs
  obtain ⟨t₁, ht₁⟩ := eq_cStr_append hmem
  have hbytes : v.bytes content =
      s ++ 0 :: (t₁ ++ (content.drop (v.rangeBegin + bufSize)).take (v.size - bufSize)) := by
    rw [hv.bytes_eq.1, ← Nat.add_sub_cancel' hlarge.le, List.take_add, ht₁, ← hs, List.drop_drop]
    simp
  obtain ⟨sock, hsock, -⟩ := id hr
  simp only [writeBodyGood, hsock] at htext
  obtain ⟨r₂, hchunk, htext⟩ := run_bind_eq_ok.mp htext
  obtain ⟨-, rfl⟩ := Prod.mk.inj (Except.ok.inj htext)
  obtain ⟨w, hw, hzero, hout⟩ := hr.writeBody_chunk hchunk
  intro hpre
  have hchain := (hout.trans hlater).trans hpre
  rw [List.prefix_append_right_inj, hbytes, List.append_assoc, List.cons_append] at hchain
  refine not_prefix_zero hw (fun hmem => ?_) hchain
  rcases List.mem_append.mp hmem with hmem | hmem
  · exact hzero hattributes hmem
  · exact zero_not_mem_cStr _ hmem

/-- A range that does not leave room for a line end. -/
theorem partLoop_noRoom {v : RangeValue} (hv : v.Within content.length) (hle : v.size ≤ bufSize)
    (hroom : bufSize < v.size + 2) (r : Response) {f : InFile} (hf : f.At content v.rangeBegin) {buf : Buffer}
    (hbuf : buf.size = bufSize) (fuel : ℕ) : partLoop bufSize false (fuel + 1) v.size r f buf = .error .overflow := by
  have hpos : v.size ≠ 0 := by
    rw [hv.size_eq]
    exact Nat.succ_ne_zero _
  obtain ⟨buf₁, f₁, hread, -, hsize₁, -⟩ := readInto_within hf hv.fits (by omega : v.size ≤ buf.size)
  have hcopy : buf₁.memcpy v.size crlf = .error .overflow := by
    rw [Buffer.memcpy, if_neg]
    rw [hsize₁, hbuf]
    exact Nat.not_le.mpr hroom
  rw [partLoop, if_neg (by rw [hf.eof_eq]; exact Bool.false_ne_true), if_pos hle]
  simp only [hread, ok_bind, if_neg hpos, hcopy, error_bind]

theorem partLoop_noBuffer {v : RangeValue} (hv : v.Within content.length) (r : Response) {f : InFile}
    (hf : f.At content v.rangeBegin) (buf : Buffer) (fuel : ℕ) :
    ∃ f' buf', partLoop 0 false (fuel + 1) v.size r f buf = .ok (false, r, f', buf') := by
  have hpos : ¬ v.size ≤ 0 := by
    rw [hv.size_eq]
    exact Nat.not_succ_le_zero _
  obtain ⟨buf', f', hread, -⟩ :=
    readInto_within (n := 0) hf (le_trans (Nat.le_add_right _ _) hv.fits) (Nat.zero_le buf.size)
  refine ⟨f', buf', ?_⟩
  rw [partLoop, if_neg (by rw [hf.eof_eq]; exact Bool.false_ne_true), if_neg hpos]
  simp only [hread, ok_bind, if_true]

/-- **Where a multipart body comes out**, every range has left room. -/
theorem room_of_partsLoop {r r' : Response} (hr : r.Connected) (hattributes : ∀ a ∈ r.chunkAttributes, (0 : UInt8) ∉ a)
    (hbufSize : 0 < bufSize) (boundary ctLine : Bytes) {queue : List RangeValue}
    (hqueue : ∀ v ∈ queue, v.Within content.length) {f : InFile} {pos : ℕ} (hf : f.At content pos) {buf : Buffer}
    (hbuf : buf.size = bufSize) (h : partsLoop boundary ctLine bufSize false queue r f buf = .ok r')
    (hout : r'.out = r.out ++ multipartText boundary ctLine content queue) : ∀ v ∈ queue, v.size + 2 ≤ bufSize := by
  induction queue generalizing r f pos buf with
  | nil => exact nofun
  | cons v queue ih =>
    obtain ⟨hv, hqueue⟩ := List.forall_mem_cons.mp hqueue
    have htext : multipartText boundary ctLine content (v :: queue) =
        partText boundary ctLine content v ++ multipartText boundary ctLine content queue := by
      simp only [multipartText, List.flatMap_cons, List.append_assoc]
    rw [htext] at hout
    by_cases hroom : v.size + 2 ≤ bufSize
    · obtain ⟨f', buf', pos', hround, hf', hbuf'⟩ := partsLoop_fits hr boundary ctLine hv hroom queue hf hbuf
      rw [hround] at h
      refine List.forall_mem_cons.mpr ⟨hroom, ih (hr.put _) hattributes hqueue hf' hbuf' h ?_⟩
      rw [hr.out_put, List.append_assoc, hout]
    · exfalso
      have hput := hr.put (partHeader boundary ctLine v)
      rw [partsLoop] at h
      simp only [hr.writeBodyGood_plain, ok_bind, decide_eq_true (partHeader_pos boundary ctLine v), if_true] at h
      by_cases hle : v.size ≤ bufSize
      · rw [partLoop_noRoom hv hle (by omega) _ (hf.seekg v.rangeBegin) hbuf] at h
        cases h
      · obtain ⟨⟨cont, r₁, f₁, buf₁⟩, hloop, h⟩ := run_bind_eq_ok.mp h
        have hlater : r₁.out <+: r'.out := by
          dsimp only at h
          split_ifs at h
          · exact partsLoop_out h
          · rw [Except.ok.inj h]
        refine partLoop_large hput hattributes hbufSize hv (by omega) (hf.seekg v.rangeBegin) hbuf hloop
          (crlf ++ multipartText boundary ctLine content queue) (hlater.trans ?_)
        rw [hout, hr.out_put]
        simp only [partText, List.append_assoc, List.prefix_rfl]

end Parts

/-! ## The empty file -/

theorem readInto_empty {f : InFile} (hf : f.content = []) (buf : Buffer) (n : ℕ) :
    ∃ f', readInto f buf n = .ok (0, buf, f') := by
  have hread : (f.read n).1 = [] := by
    unfold InFile.read
    split_ifs
    · rfl
    · rw [hf, List.drop_nil, List.take_nil]
  refine ⟨(f.read n).2, ?_⟩
  simp only [readInto, hread, Buffer.memcpy_nil, ok_bind, List.length_nil]

/-- Nothing is written for a range of the empty file. -/
theorem partLoop_empty {f : InFile} (hf : f.content = []) (bufSize : ℕ) (isChunked : Bool) (fuel size : ℕ)
    (r : Response)
    (buf : Buffer) : ∃ cont f', partLoop bufSize isChunked (fuel + 1) size r f buf = .ok (cont, r, f', buf) := by
  rw [partLoop]
  split_ifs with heof hle
  · exact ⟨true, f, rfl⟩
  · obtain ⟨f', hread⟩ := readInto_empty hf buf size
    exact ⟨true, f', by simp only [hread, ok_bind, if_true]⟩
  · obtain ⟨f', hread⟩ := readInto_empty hf buf bufSize
    exact ⟨false, f', by simp only [hread, ok_bind, if_true]⟩

theorem Connected.partsLoop_begins {r r' : Response} (hr : r.Connected) {boundary ctLine : Bytes} {bufSize : ℕ}
    {v : RangeValue} {queue : List RangeValue} {f : InFile} {buf : Buffer}
    (h : partsLoop boundary ctLine bufSize false (v :: queue) r f buf = .ok r') : r.out ++ [45] <+: r'.out := by
  have hheader : (r.put (partHeader boundary ctLine v)).out <+: r'.out := by
    rw [partsLoop] at h
    simp only [hr.writeBodyGood_plain, ok_bind, decide_eq_true (partHeader_pos boundary ctLine v), if_true] at h
    obtain ⟨⟨cont, r₁, f₁, buf₁⟩, hloop, h⟩ := run_bind_eq_ok.mp h
    dsimp only at h
    split_ifs at h
    · exact (partLoop_out hloop).trans (partsLoop_out h)
    · rw [← Except.ok.inj h]
      exact partLoop_out hloop
  rw [hr.out_put] at hheader
  refine List.IsPrefix.trans ?_ hheader
  rw [List.prefix_append_right_inj]
  exact ⟨_, rfl⟩

/-- **Ranges of the empty file** do not get a line end of their own. -/
theorem partsLoop_empty {r r' : Response} (hr : r.Connected) (boundary ctLine : Bytes) {bufSize : ℕ} (v w : RangeValue)
    (queue : List RangeValue) {f : InFile} (hf : f.content = []) {buf : Buffer}
    (h : partsLoop boundary ctLine bufSize false (v :: w :: queue) r f buf = .ok r') :
    r'.out ≠ r.out ++ multipartText boundary ctLine [] (v :: w :: queue) := by
  intro hout
  have hput := hr.put (partHeader boundary ctLine v)
  have hseek : (f.seekg v.rangeBegin).content = [] := by
    unfold InFile.seekg
    split_ifs
    · exact hf
    · exact hf
  obtain ⟨cont, f₁, hloop⟩ :=
    partLoop_empty hseek bufSize false v.size v.size (r.put (partHeader boundary ctLine v)) buf
  obtain ⟨t, ht⟩ : ∃ t, r'.out = (r.put (partHeader boundary ctLine v)).out ++ 13 :: t := by
    rw [hr.out_put, hout]
    simp only [multipartText, List.flatMap_cons, partText, RangeValue.bytes, List.drop_nil, List.take_nil,
      List.append_nil, List.append_assoc]
    exact ⟨_, rfl⟩
  rw [partsLoop] at h
  simp only [hr.writeBodyGood_plain, ok_bind, decide_eq_true (partHeader_pos boundary ctLine v), if_true, hloop] at h
  cases cont with
  | true =>
    have hbegins := hput.partsLoop_begins h
    rw [ht, List.prefix_append_right_inj, List.cons_prefix_cons] at hbegins
    exact absurd hbegins.1 (by decide)
  | false =>
    rw [← Except.ok.inj h] at ht
    exact absurd ht (by simp)

/-! ## The multipart body -/

/-- Several ranges go through the loop behind the headers. -/
theorem Connected.sendRange_several {r : Response} (hr : r.Connected) (hchunked : r.isChunked = false) {bufSize : ℕ}
    (hbuf : r.tcpIpBufferSize = .ok bufSize) (f : InFile) (boundary ctLine : Bytes) {queue : List RangeValue}
    (hlen : 2 ≤ queue.length) :
    r.sendRange f boundary ctLine queue =
      partsLoop boundary ctLine bufSize false queue r.started f (Buffer.zeros bufSize) := by
  obtain ⟨hwrite, hstarted⟩ := hr.started
  match queue, hlen with
  | v :: w :: queue, _ =>
    rw [sendRange]
    simp only [hwrite, ok_bind, hstarted.bufferSize_eq, hbuf, hstarted.isChunked_eq, hchunked]

/-- The body is multipart, every write into the buffer is in bounds, and as many bytes are announced. -/
def SendsMultipart (r : Response) (f : InFile) (boundary ctLine : Bytes) (queue : List RangeValue) : Prop :=
  r.SendsBytes f boundary ctLine queue (multipartText boundary ctLine f.content queue) ∧
    r.headers.find? Header.contentLength =
      some (formatNat 10 (multipartText boundary ctLine f.content queue).length)

/-- The file is not empty, every range leaves room for a line end in the buffer, and the length is one that can be
counted. -/
structure LeavesRoom (content : Bytes) (bufSize : ℕ) (boundary ctLine : Bytes) (queue : List RangeValue) : Prop where
  content_ne : content ≠ []
  room : ∀ v ∈ queue, v.size + 2 ≤ bufSize
  length_lt : (multipartText boundary ctLine content queue).length < 2 ^ 64

theorem length_multipartText (boundary ctLine : Bytes) {content : Bytes} {queue : List RangeValue}
    (hqueue : ∀ v ∈ queue, v.Within content.length) :
    (multipartText boundary ctLine content queue).length = severalLength boundary ctLine queue := by
  have hclosing : (closingBoundary boundary).length = 2 + boundary.length + 2 + 2 := by
    simp only [closingBoundary, List.length_append]
    rfl
  rw [multipartText, List.length_append, hclosing, severalLength, List.length_flatMap, Nat.add_right_cancel_iff]
  congr 1
  refine List.map_congr_left fun v hv => ?_
  have htext : (lit "--").length = 2 ∧ crlf.length = 2 := ⟨rfl, rfl⟩
  simp only [partText, partHeader, partLength, List.length_append, (hqueue v hv).bytes_eq.2, htext.1, htext.2]
  omega

theorem find?_severalRanges (r : Response) (boundary : Bytes) (n : ℕ) :
    (r.severalRanges boundary n).headers.find? Header.contentLength = some (formatNat 10 n) := by
  have hne : ¬ Same lessCaseInsensitive Header.acceptRanges Header.contentLength := fun hs =>
    absurd ((same_lessCaseInsensitive _ _).mp hs) (by decide)
  have hself : Same lessCaseInsensitive Header.contentLength Header.contentLength :=
    (same_lessCaseInsensitive _ _).mpr rfl
  simp only [Response.severalRanges, setHeader, OrdMap.find?_assign, if_pos hself, if_neg hne]

/-- **Several ranges**: on a response that is not chunked they make the multipart body that is announced when the file
is not empty, every range leaves room for a line end in the buffer and the length can be counted, and only then as long
as no chunk attribute holds a zero. -/
theorem multipart_iff {r₀ r : Response} {content boundary mimeType rangeStr boundary' ctLine : Bytes}
    {queue : List RangeValue} (hcontent : content.length < 2 ^ 64)
    (htransfer : rangeTransfer r₀ content.length boundary mimeType rangeStr =
      .ok (r, .sendRange boundary' ctLine queue))
    (hlen : 2 ≤ queue.length) (hr : r.Connected) (hchunked : r.isChunked = false) {bufSize : ℕ}
    (hbuf : r.tcpIpBufferSize = .ok bufSize) (hbufSize : 2 ≤ bufSize) {f : InFile} {pos : ℕ} (hf : f.At content pos) :
    (LeavesRoom content bufSize boundary' ctLine queue → r.SendsMultipart f boundary' ctLine queue) ∧
      ((∀ a ∈ r.chunkAttributes, (0 : UInt8) ∉ a) → r.SendsMultipart f boundary' ctLine queue →
        LeavesRoom content bufSize boundary' ctLine queue) := by
  obtain ⟨⟨items, hparts⟩, rfl, rfl, hr₀⟩ := (handed_of_rangeTransfer htransfer).of_several (by omega)
  obtain ⟨hwrite, hstarted⟩ := hr.started
  have hfile : f.content = content := by rw [hf]
  have hsend := hr.sendRange_several hchunked hbuf f boundary' (typeLine mimeType) hlen
  have hannounced : r.headers.find? Header.contentLength =
      some (formatNat 10 (severalLength boundary' (typeLine mimeType) queue % 2 ^ 64)) := by
    rw [hr₀, find?_severalRanges]
  have hwithin : content ≠ [] → ∀ v ∈ queue, v.Within content.length := by
    intro hne v hv
    obtain ⟨item, -, w, hparse, rfl⟩ := partOf_of_mem hparts v hv
    have hpos : content.length ≠ 0 := fun h0 => hne (List.length_eq_zero_iff.mp h0)
    obtain ⟨h1, h2, h3, h4⟩ := (rangeParsing_iff hcontent (trimmed item)).mpr (fun h => hpos h.1) _ _ hparse
    exact ⟨h1, h2, h3, h4⟩
  rw [SendsMultipart, hfile, hannounced]
  constructor
  · rintro ⟨hne, hroom, hlt⟩
    refine ⟨⟨r.started, _, hwrite,
      hsend.trans (partsLoop_sends hstarted.connected boundary' _ (hwithin hne) hroom hf rfl),
      hstarted.connected.out_put _⟩, ?_⟩
    rw [length_multipartText boundary' _ (hwithin hne)] at hlt ⊢
    rw [Nat.mod_eq_of_lt hlt]
  · rintro hattributes ⟨⟨r₁, r', hr₁, hr', hout⟩, hlength⟩
    obtain rfl : r.started = r₁ := Except.ok.inj (hwrite.symm.trans hr₁)
    rw [hsend] at hr'
    have hne : content ≠ [] := by
      rintro rfl
      match queue, hlen with
      | v :: w :: queue, _ => exact partsLoop_empty hstarted.connected boundary' _ v w queue hfile hr' hout
    refine ⟨hne, ?_, ?_⟩
    · refine room_of_partsLoop hstarted.connected ?_ (by omega) boundary' _ (hwithin hne) hf rfl hr' hout
      rwa [hstarted.chunkAttributes_eq]
    · rw [← formatNat_injective (by omega) (by omega) (Option.some.inj hlength)]
      exact Nat.mod_lt _ (by decide)

/-- The first byte and the sixth one, in a buffer of three bytes. -/
theorem multipart_iff_bytes : ∃ r queue,
    rangeTransfer overSmallBuffer 10 (lit "b") (lit "text/plain") (lit "bytes=0-0,5-5") =
      .ok (r, .sendRange (lit "b") (typeLine (lit "text/plain")) queue) ∧
    r.SendsMultipart (.opened (lit "0123456789")) (lit "b") (typeLine (lit "text/plain")) queue := by
  set queue : List RangeValue :=
    [RangeValue.withLine 10 ⟨[], 0, 0, 1⟩, RangeValue.withLine 10 ⟨[], 5, 5, 1⟩] with hqueue
  have htransfer : rangeTransfer overSmallBuffer 10 (lit "b") (lit "text/plain") (lit "bytes=0-0,5-5") =
      .ok (overSmallBuffer.severalRanges (lit "b")
        (severalLength (lit "b") (typeLine (lit "text/plain")) queue % 2 ^ 64),
        .sendRange (lit "b") (typeLine (lit "text/plain")) queue) := by
    decide
  refine ⟨_, queue, htransfer, ?_⟩
  exact (multipart_iff (by decide : (lit "0123456789").length < 2 ^ 64) htransfer (by decide) ⟨_, rfl, rfl⟩
    (by decide +kernel) rfl (by decide) (InFile.opened_at _)).1 ⟨by decide, by decide, by decide +kernel⟩

/-- The first two bytes and the sixth one: behind two bytes, three have no room for a line end. -/
theorem not_sendsMultipart_full : ∃ r queue,
    rangeTransfer overSmallBuffer 10 (lit "b") (lit "text/plain") (lit "bytes=0-1,5-5") =
      .ok (r, .sendRange (lit "b") (typeLine (lit "text/plain")) queue) ∧ queue.length = 2 ∧ r.Connected ∧
    r.isChunked = false ∧ r.tcpIpBufferSize = .ok 3 ∧
    ¬ r.SendsMultipart (.opened (lit "0123456789")) (lit "b") (typeLine (lit "text/plain")) queue := by
  set queue : List RangeValue :=
    [RangeValue.withLine 10 ⟨[], 0, 1, 2⟩, RangeValue.withLine 10 ⟨[], 5, 5, 1⟩] with hqueue
  set r := overSmallBuffer.severalRanges (lit "b")
    (severalLength (lit "b") (typeLine (lit "text/plain")) queue % 2 ^ 64)
  have htransfer : rangeTransfer overSmallBuffer 10 (lit "b") (lit "text/plain") (lit "bytes=0-1,5-5") =
      .ok (r, .sendRange (lit "b") (typeLine (lit "text/plain")) queue) := by
    decide
  refine ⟨r, queue, htransfer, rfl, ⟨_, rfl, rfl⟩, by decide, rfl, ?_⟩
  rintro ⟨⟨r₁, r', -, hsend, -⟩, -⟩
  have hoverflow : r.sendRange (.opened (lit "0123456789")) (lit "b") (typeLine (lit "text/plain")) queue =
      .error .overflow := by
    decide
  rw [hoverflow] at hsend
  cases hsend

end Response

end Gts3.Http
