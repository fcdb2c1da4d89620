import Gts3.ByteOrder
import Mathlib.Data.Nat.Bitwise

/-!
# `gts/web/socket_frame_parser.cpp`: the header of a WebSocket frame

`read_header` puts the op code into the frame, and `check_validity` checks the one of the parser, which nothing sets
and which is a reserved one from the start: every header is refused, also those that have to be accepted
(`meets_iff`).  With another op code there a header in one piece is decoded as the standard has it (`append_encode`),
and one that is cut in its extended length is not (`append_cut`).
-/

namespace Gts3.Web

open Lib Lib.Cxx Lib.WebSocketFrame

/-! ## The op codes -/

/-- `socket_protocol::op_code`. -/
inductive OpCode
  | ocContinue | ocText | ocBinary | ocReserved3 | ocReserved4 | ocReserved5 | ocReserved6 | ocReserved7
  | ocClose | ocPing | ocPong | ocReservedB | ocReservedC | ocReservedD | ocReservedE | ocReservedF
  deriving DecidableEq

namespace OpCode

/-- The value of an enumerator. -/
def value : OpCode → ℕ
  | ocContinue => 0x00 | ocText => 0x01 | ocBinary => 0x02 | ocReserved3 => 0x03
  | ocReserved4 => 0x04 | ocReserved5 => 0x05 | ocReserved6 => 0x06 | ocReserved7 => 0x07
  | ocClose => 0x08 | ocPing => 0x09 | ocPong => 0x0A | ocReservedB => 0x0B
  | ocReservedC => 0x0C | ocReservedD => 0x0D | ocReservedE => 0x0E | ocReservedF => 0x0F

/-- The cast of four bits. -/
def cast (n : Fin 16) : OpCode :=
  match n.val with
  | 0x00 => ocContinue | 0x01 => ocText | 0x02 => ocBinary | 0x03 => ocReserved3
  | 0x04 => ocReserved4 | 0x05 => ocReserved5 | 0x06 => ocReserved6 | 0x07 => ocReserved7
  | 0x08 => ocClose | 0x09 => ocPing | 0x0A => ocPong | 0x0B => ocReservedB
  | 0x0C => ocReservedC | 0x0D => ocReservedD | 0x0E => ocReservedE | _ => ocReservedF

/-- `is_op_code_reserved`. -/
def isReserved (code : OpCode) : Bool :=
  (code.value > ocBinary.value && code.value < ocClose.value) || code.value > ocPong.value

theorem value_cast (n : Fin 16) : (cast n).value = n := by
  revert n
  decide

end OpCode

/-! ## The parser -/

/-- `socket_frame_impl`, as far as the parser sets it. -/
structure SocketFrameImpl where
  finalFrame : Bool
  length : ℕ
  rsv1 : Bool
  rsv2 : Bool
  rsv3 : Bool
  mask : UInt32
  opCode : OpCode
  valid : Bool
  deriving DecidableEq

namespace SocketFrameImpl

/-- A new frame.  The source does not initialise the op code, which `read_header` sets before it is read. -/
def new : SocketFrameImpl where
  finalFrame := false
  length := 0
  rsv1 := false
  rsv2 := false
  rsv3 := false
  mask := 0
  opCode := .ocContinue
  valid := false

/-- What `read_header` puts into a frame. -/
def setHeader (f : SocketFrameImpl) (b₀ b₁ : UInt8) : SocketFrameImpl :=
  { f with
    finalFrame := b₀ &&& 0x80 ≠ 0
    rsv1 := b₀ &&& 0x40 ≠ 0
    rsv2 := b₀ &&& 0x20 ≠ 0
    rsv3 := b₀ &&& 0x10 ≠ 0
    opCode := .cast (Fin.ofNat 16 (b₀ &&& 0x0F).toNat)
    mask := (b₁ &&& 0x80).toUInt32
    length := (b₁ &&& 0x7F).toNat }

def isControlFrame (f : SocketFrameImpl) : Bool := f.opCode.value &&& 0x08 = 0x08

def hasMask (f : SocketFrameImpl) : Bool := f.mask > 0

end SocketFrameImpl

/-- `status`. -/
inductive FrameStatus
  | readHeader | readPayloadLength | readMask | readPayload | dispatchResult
  deriving DecidableEq

/-- `socket_frame_parser_impl`. -/
structure SocketFrameParser where
  abuf : Bytes
  status : FrameStatus
  opCode : OpCode
  cache : SocketFrameImpl
  deriving DecidableEq

/-- What a call of `append` comes to: it returns, or it calls `read_mask` or `read_payload`, which have no body. -/
inductive Appended
  | returned (done : Bool)
  | unfinished
  deriving DecidableEq

namespace SocketFrameParser

/-- A new parser.  `socket_frame_parser` never makes one: its default constructor leaves `m_impl` unset. -/
def new : SocketFrameParser := ⟨[], .readHeader, .ocReservedC, .new⟩

/-- `check_validity`: the frame afterwards. -/
def checkValidity (p : SocketFrameParser) : SocketFrameImpl :=
  if p.cache.rsv1 || p.cache.rsv2 || p.cache.rsv3 then p.cache
  else if p.opCode.isReserved then p.cache
  else if p.cache.isControlFrame then
    if p.cache.length > 125 then p.cache
    else if !p.cache.finalFrame then p.cache
    else { p.cache with valid := true }
  else { p.cache with valid := true }

/-- The status behind the lengths. -/
def maskOrPayload (f : SocketFrameImpl) : FrameStatus := if f.hasMask then .readMask else .readPayload

/-- The status behind the two bytes of `read_header`. -/
def lengthOrMask (f : SocketFrameImpl) : FrameStatus :=
  if f.length = 126 ∨ f.length = 127 then .readPayloadLength else maskOrPayload f

/-- `read_header`. -/
def readHeader (p : SocketFrameParser) : Bool × SocketFrameParser :=
  match p.abuf with
  | b₀ :: b₁ :: abuf =>
    let p := { p with abuf, cache := p.cache.setHeader b₀ b₁ }
    let p := { p with cache := p.checkValidity }
    if p.cache.valid then (true, { p with status := lengthOrMask p.cache }) else (false, p)
  | _ => (false, p)

/-- `ntoh` of the integer of `n` bytes at the front of the buffer. -/
def ntoh (abuf : Bytes) (n : ℕ) : ℕ := ofBigEndian (abuf.take n)

/-- `read_payload_length`. -/
def readPayloadLength (p : SocketFrameParser) : Bool × SocketFrameParser :=
  let go (p : SocketFrameParser) := (true, { p with status := maskOrPayload p.cache })
  if p.cache.length = 126 then
    if p.abuf.length < 2 then (false, p)
    else
      let p := { p with cache := { p.cache with length := ntoh p.abuf 2 }, abuf := p.abuf.drop 2 }
      if p.cache.length < 126 then (false, p) else go p
  else if p.cache.length = 127 then
    if p.abuf.length < 8 then (false, p)
    else
      let p := { p with cache := { p.cache with length := ntoh p.abuf 8 }, abuf := p.abuf.drop 8 }
      if p.cache.length &&& (1 <<< 63) ≠ 0 then (false, p)
      else if p.cache.length ≤ 0xFFFF then (false, p)
      else go p
  else go p

/-- How far a status is from the end of the header. -/
def rank : FrameStatus → ℕ
  | .readHeader => 2
  | .readPayloadLength => 1
  | _ => 0

theorem rank_maskOrPayload (f : SocketFrameImpl) : rank (maskOrPayload f) = 0 := by
  unfold maskOrPayload
  split_ifs <;> rfl

theorem rank_readHeader {p : SocketFrameParser} (h : p.readHeader.1 = true) : rank p.readHeader.2.status < 2 := by
  have hstatus : ∀ f : SocketFrameImpl, rank (lengthOrMask f) < 2 := by
    intro f
    unfold lengthOrMask
    split_ifs
    · exact Nat.one_lt_two
    · rw [rank_maskOrPayload]
      exact Nat.two_pos
  rcases hp : p.abuf with _ | ⟨b₀, _ | ⟨b₁, abuf⟩⟩ <;> simp only [readHeader, hp] at h ⊢
  · cases h
  · cases h
  · split_ifs at h ⊢
    exact hstatus _

theorem rank_readPayloadLength {p : SocketFrameParser} (h : p.readPayloadLength.1 = true) :
    rank p.readPayloadLength.2.status < 1 := by
  have hstatus : ∀ f : SocketFrameImpl, rank (maskOrPayload f) < 1 := fun f => by
    rw [rank_maskOrPayload]
    exact Nat.one_pos
  unfold readPayloadLength at h ⊢
  dsimp only at h ⊢
  split_ifs at h ⊢ <;> exact hstatus _

/-- The loop of `append`. -/
def loop (p : SocketFrameParser) : Appended × SocketFrameParser :=
  match _h : p.status with
  | .readHeader =>
    if _hr : p.readHeader.1 then p.readHeader.2.loop
    else (.returned false, { p.readHeader.2 with status := .readHeader })
  | .readPayloadLength =>
    if _hr : p.readPayloadLength.1 then p.readPayloadLength.2.loop
    else (.returned false, { p.readPayloadLength.2 with status := .readHeader })
  | .readMask | .readPayload => (.unfinished, p)
  | .dispatchResult => (.returned true, p)
termination_by rank p.status
decreasing_by
  · rw [_h]
    exact rank_readHeader _hr
  · rw [_h]
    exact rank_readPayloadLength _hr

/-- `append`. -/
def append (p : SocketFrameParser) (data : Bytes) : Appended × SocketFrameParser :=
  let p := { p with abuf := p.abuf ++ data }
  if p.status = .dispatchResult then (.returned true, p)
  else if p.abuf.isEmpty then (.returned false, p)
  else p.loop

/-- Calls of `append`: what each of them comes to, and the parser afterwards. -/
def appends (p : SocketFrameParser) : List Bytes → List Appended × SocketFrameParser
  | [] => ([], p)
  | data :: cut =>
    let r := p.append data
    let rs := appends r.2 cut
    (r.1 :: rs.1, rs.2)

theorem loop_readHeader {p : SocketFrameParser} (h : p.status = .readHeader) :
    p.loop = if p.readHeader.1 then p.readHeader.2.loop
      else (.returned false, { p.readHeader.2 with status := .readHeader }) := by
  rw [loop]
  split <;> simp_all

theorem loop_readPayloadLength {p : SocketFrameParser} (h : p.status = .readPayloadLength) :
    p.loop = if p.readPayloadLength.1 then p.readPayloadLength.2.loop
      else (.returned false, { p.readPayloadLength.2 with status := .readHeader }) := by
  rw [loop]
  split <;> simp_all

theorem loop_maskOrPayload {p : SocketFrameParser} {f : SocketFrameImpl} (h : p.status = maskOrPayload f) :
    p.loop = (.unfinished, p) := by
  unfold maskOrPayload at h
  rw [loop]
  split_ifs at h <;> split <;> simp_all

/-! ## Refusal -/

/-- Between headers, with a reserved op code in the parser. -/
structure Refusing (p : SocketFrameParser) : Prop where
  status : p.status = .readHeader
  opCode : p.opCode.isReserved = true
  valid : p.cache.valid = false

theorem refusing_new : new.Refusing := ⟨rfl, rfl, rfl⟩

theorem checkValidity_reserved {p : SocketFrameParser} (h : p.opCode.isReserved = true) :
    p.checkValidity = p.cache := by
  unfold checkValidity
  split_ifs <;> rfl

theorem Refusing.readHeader {p : SocketFrameParser} (H : p.Refusing) :
    p.readHeader.1 = false ∧ p.readHeader.2.Refusing := by
  rcases hp : p.abuf with _ | ⟨b₀, _ | ⟨b₁, abuf⟩⟩ <;> simp only [SocketFrameParser.readHeader, hp]
  · exact ⟨trivial, H⟩
  · exact ⟨trivial, H⟩
  · have hvalid : (p.cache.setHeader b₀ b₁).valid = false := H.valid
    rw [checkValidity_reserved (by exact H.opCode), if_neg (by rw [hvalid]; exact Bool.false_ne_true)]
    exact ⟨rfl, H.status, H.opCode, hvalid⟩

/-- One **call** of `append` returns `false`. -/
theorem Refusing.append {p : SocketFrameParser} (H : p.Refusing) (data : Bytes) :
    (p.append data).1 = .returned false ∧ (p.append data).2.Refusing := by
  have hdata : Refusing { p with abuf := p.abuf ++ data } := ⟨H.status, H.opCode, H.valid⟩
  rw [SocketFrameParser.append]
  dsimp only
  rw [if_neg (by rw [H.status]; decide)]
  split_ifs with hempty
  · exact ⟨rfl, hdata⟩
  · rw [loop_readHeader hdata.status, hdata.readHeader.1]
    exact ⟨rfl, rfl, hdata.readHeader.2.opCode, hdata.readHeader.2.valid⟩

/-- All **calls** of `append` return `false`. -/
theorem Refusing.appends {p : SocketFrameParser} (H : p.Refusing) (cut : List Bytes) :
    (∀ r ∈ (p.appends cut).1, r = .returned false) ∧ (p.appends cut).2.Refusing := by
  induction cut generalizing p with
  | nil => exact ⟨fun r hr => absurd hr List.not_mem_nil, H⟩
  | cons data cut ih =>
    obtain ⟨hfirst, hnext⟩ := H.append data
    obtain ⟨hall, hlast⟩ := ih hnext
    refine ⟨fun r hr => ?_, hlast⟩
    rcases List.mem_cons.mp hr with rfl | hr
    · exact hfirst
    · exact hall r hr

/-- The parser has come to the mask or to the payload, with the fields of the header. -/
structure Accepts (h : Header) (p : SocketFrameParser) : Prop where
  status : p.status = if h.mask then .readMask else .readPayload
  finalFrame : p.cache.finalFrame = h.fin
  opCode : p.cache.opCode.value = h.opcode
  hasMask : p.cache.hasMask = h.mask
  length : p.cache.length = h.length.value

/-- No call of `append` has gone on with a frame. -/
structure Rejects (r : List Appended × SocketFrameParser) : Prop where
  returned : ∀ a ∈ r.1, a = .returned false
  status : r.2.status = .readHeader
  valid : r.2.cache.valid = false

/-- The pieces in which a header comes. -/
def Cut (h : Header) : Type := { cut : List Bytes // cut.flatten = h.encode }

/-- A header that comes in these pieces is accepted when it is valid, and rejected when not. -/
def Meets (h : Header) (cut : Cut h) : Prop :=
  (h.Valid → Accepts h (new.appends cut.val).2) ∧ (¬h.Valid → Rejects (new.appends cut.val))

theorem not_accepts (h : Header) (cut : List Bytes) : ¬Accepts h (new.appends cut).2 := by
  intro H
  have hstatus := H.status
  rw [(refusing_new.appends cut).2.status] at hstatus
  split_ifs at hstatus

/-- The parser does what it has to do **exactly** with the headers that it has to reject. -/
theorem meets_iff (h : Header) (cut : Cut h) : Meets h cut ↔ ¬h.Valid := by
  obtain ⟨hall, hlast⟩ := refusing_new.appends cut.val
  refine ⟨fun H hvalid => not_accepts h cut.val (H.1 hvalid), fun hinvalid => ?_⟩
  exact ⟨fun hvalid => absurd hvalid hinvalid, fun _ => ⟨hall, hlast.status, hlast.valid⟩⟩

/-- The header of a text frame in one piece, of five bytes and without a mask. -/
def textHeader : Header where
  fin := true
  rsv1 := false
  rsv2 := false
  rsv3 := false
  opcode := 1
  mask := false
  length := .seven 5

theorem valid_textHeader : textHeader.Valid :=
  ⟨⟨rfl, rfl, rfl⟩, by decide, by decide, trivial, by decide⟩

theorem not_meets_textHeader : ¬Meets textHeader ⟨[[0x81, 0x05]], by decide⟩ :=
  fun H => not_accepts textHeader _ (H.1 valid_textHeader)

/-! ## Decoding -/

theorem firstByte_bits (fin rsv1 rsv2 rsv3 : Bool) (o : Fin 16) :
    let b := UInt8.ofNat (128 * fin.toNat + 64 * rsv1.toNat + 32 * rsv2.toNat + 16 * rsv3.toNat + o)
    (decide (b &&& 0x80 ≠ 0) = fin ∧ decide (b &&& 0x40 ≠ 0) = rsv1 ∧ decide (b &&& 0x20 ≠ 0) = rsv2 ∧
      decide (b &&& 0x10 ≠ 0) = rsv3) ∧ Fin.ofNat 16 (b &&& 0x0F).toNat = o := by
  revert fin rsv1 rsv2 rsv3 o
  decide

theorem secondByte_bits (mask : Bool) (n : Fin 128) :
    let b := UInt8.ofNat (128 * mask.toNat + n)
    (b &&& 0x80).toUInt32 = (if mask then 0x80 else 0) ∧ (b &&& 0x7F).toNat = n := by
  revert mask n
  decide

theorem bits_lt (l : Length) : l.bits < 128 := by
  cases l with
  | seven n => exact n.isLt.trans (by decide)
  | sixteen _ => exact (by decide : 126 < 128)
  | sixtyFour _ => exact (by decide : 127 < 128)

/-- A frame with the fields of a header, as far as `read_header` sets them. -/
def decoded (f : SocketFrameImpl) (h : Header) : SocketFrameImpl :=
  { f with
    finalFrame := h.fin
    rsv1 := h.rsv1
    rsv2 := h.rsv2
    rsv3 := h.rsv3
    opCode := .cast h.opcode
    mask := if h.mask then 0x80 else 0
    length := h.length.bits }

/-- `read_header` **decodes** the two bytes. -/
theorem setHeader_eq (f : SocketFrameImpl) (h : Header) :
    f.setHeader h.firstByte h.secondByte = decoded f h := by
  obtain ⟨⟨hfin, hrsv1, hrsv2, hrsv3⟩, hop⟩ := firstByte_bits h.fin h.rsv1 h.rsv2 h.rsv3 h.opcode
  obtain ⟨hmask, hbits⟩ := secondByte_bits h.mask ⟨h.length.bits, bits_lt h.length⟩
  simp only [SocketFrameImpl.setHeader, decoded, SocketFrameImpl.mk.injEq]
  exact ⟨hfin, hbits, hrsv1, hrsv2, hrsv3, hmask, congrArg OpCode.cast hop, trivial⟩

theorem isControlFrame_decoded (f : SocketFrameImpl) (h : Header) :
    (decoded f h).isControlFrame = decide (8 ≤ h.opcode.val) := by
  have hbit : ∀ n : Fin 16, decide (n.val &&& 0x08 = 0x08) = decide (8 ≤ n.val) := by decide
  rw [SocketFrameImpl.isControlFrame, decoded, OpCode.value_cast, hbit]

theorem hasMask_decoded (f : SocketFrameImpl) (h : Header) : (decoded f h).hasMask = h.mask := by
  have hmask : ∀ b : Bool, decide ((if b then 0x80 else 0 : UInt32) > 0) = b := by decide
  exact hmask h.mask

/-- The seven bits of a short length are the length. -/
theorem bits_eq {l : Length} (hmin : l.Minimal) (hshort : l.value ≤ 125) : l.bits = l.value := by
  cases l with
  | seven n => rfl
  | sixteen n => exact absurd (le_trans hmin hshort) (by decide)
  | sixtyFour n => exact absurd (le_trans hmin hshort) (by decide)

/-- `check_validity` **passes** a valid header, when the op code of the parser does not stand in the way. -/
theorem checkValidity_valid {p : SocketFrameParser} (hop : p.opCode.isReserved = false) {f : SocketFrameImpl}
    {h : Header} (hvalid : h.Valid) (hcache : p.cache = decoded f h) :
    p.checkValidity = { decoded f h with valid := true } := by
  obtain ⟨hrsv1, hrsv2, hrsv3⟩ := hvalid.rsv
  have hrsv : ((decoded f h).rsv1 || (decoded f h).rsv2 || (decoded f h).rsv3) = false := by
    simp [decoded, hrsv1, hrsv2, hrsv3]
  rw [checkValidity, hcache, if_neg (by rw [hrsv]; decide), if_neg (by rw [hop]; decide), isControlFrame_decoded]
  by_cases hcontrol : 8 ≤ h.opcode.val
  · obtain ⟨hfin, hshort⟩ := hvalid.control hcontrol
    have hlength : (decoded f h).length ≤ 125 := (bits_eq hvalid.minimal hshort).trans_le hshort
    have hfinal : (decoded f h).finalFrame = true := hfin
    rw [if_pos (decide_eq_true hcontrol), if_neg (by omega), if_neg (by rw [hfinal]; decide)]
  · rw [if_neg (by simpa using hcontrol)]

theorem readHeader_valid {p : SocketFrameParser} (hop : p.opCode.isReserved = false) {h : Header} (hvalid : h.Valid)
    {rest : Bytes} (habuf : p.abuf = h.firstByte :: h.secondByte :: rest) :
    p.readHeader = (true, { p with
      abuf := rest
      cache := { decoded p.cache h with valid := true }
      status := lengthOrMask (decoded p.cache h) }) := by
  have hcheck : ∀ q : SocketFrameParser, q.opCode = p.opCode → q.cache = decoded p.cache h →
      q.checkValidity = { decoded p.cache h with valid := true } :=
    fun q hq hcache => checkValidity_valid (hq ▸ hop) hvalid hcache
  simp only [readHeader, habuf, setHeader_eq, hcheck]
  rfl

/-- `ntoh` of what lies in the buffer, on every host. -/
theorem ntoh_ofObject (e : Lib.ByteOrder.Endian) {abuf : Bytes} {n : ℕ} (h : n ≤ abuf.length) :
    Gts3.ByteOrder.ntoh e (Lib.ByteOrder.ofObject e n (abuf.take n)) = .ok (.ofNat _ (ntoh abuf n)) :=
  Gts3.ByteOrder.ntoh_ofObject e (List.length_take_of_le h)

theorem ntoh_bigEndian {k n : ℕ} (hn : n < 256 ^ k) : ntoh (bigEndian k n) k = n := by
  have hlen : (bigEndian k n).length ≤ k := by rw [length_bigEndian]
  rw [ntoh, List.take_of_length_le hlen, ofBigEndian_bigEndian hn]

/-- Behind an extended length. -/
theorem readPayloadLength_extended {p : SocketFrameParser} {l : Length} (hmin : l.Minimal) (hbit : l.value < 2 ^ 63)
    (hbits : p.cache.length = l.bits) (habuf : p.abuf = l.extended) (hlong : l.bits = 126 ∨ l.bits = 127) :
    p.readPayloadLength = (true, { p with
      abuf := []
      cache := { p.cache with length := l.value }
      status := maskOrPayload p.cache }) := by
  cases l with
  | seven n => exact absurd hlong (by have := n.isLt; simp only [Length.bits]; omega)
  | sixteen n =>
    have hn : ntoh p.abuf 2 = n.val := habuf ▸ ntoh_bigEndian n.isLt
    have hmin' : 126 ≤ n.val := hmin
    have hlen : p.abuf.length = 2 := by rw [habuf, Length.extended, length_bigEndian]
    have hdrop : p.abuf.drop 2 = [] := List.drop_eq_nil_of_le hlen.le
    have hbits' : p.cache.length = 126 := hbits
    rw [readPayloadLength, if_pos hbits', if_neg (by omega)]
    simp only [hn, hdrop]
    rw [if_neg (by omega)]
    rfl
  | sixtyFour n =>
    have hn : ntoh p.abuf 8 = n.val := habuf ▸ ntoh_bigEndian n.isLt
    have hmin' : 2 ^ 16 ≤ n.val := hmin
    have hbit' : n.val &&& (1 <<< 63) = 0 := by
      have htop : n.val.testBit 63 = false := Nat.testBit_lt_two_pow hbit
      rw [Nat.shiftLeft_eq, one_mul, Nat.and_two_pow, htop]
      rfl
    have hlen : p.abuf.length = 8 := by rw [habuf, Length.extended, length_bigEndian]
    have hdrop : p.abuf.drop 8 = [] := List.drop_eq_nil_of_le hlen.le
    have hbits' : p.cache.length = 127 := hbits
    rw [readPayloadLength, if_neg (by omega), if_pos hbits', if_neg (by omega)]
    simp only [hn, hdrop]
    rw [if_neg (by rw [hbit']; decide), if_neg (by omega)]
    rfl

/-- A parser that has gone through the header. -/
theorem accepts_decoded {p : SocketFrameParser} {f : SocketFrameImpl} {h : Header}
    (hcache : p.cache = { decoded f h with length := h.length.value, valid := true })
    (hstatus : p.status = maskOrPayload p.cache) : Accepts h p where
  status := by
    have hmask : p.cache.hasMask = h.mask := by
      rw [hcache]
      exact hasMask_decoded f h
    rw [hstatus, maskOrPayload, hmask]
  finalFrame := by rw [hcache]; rfl
  opCode := by rw [hcache]; exact OpCode.value_cast h.opcode
  hasMask := by rw [hcache]; exact hasMask_decoded f h
  length := by rw [hcache]

/-- `append` in the status `read_header`, with the first two bytes of a valid header. -/
theorem append_header {p : SocketFrameParser} (hstatus : p.status = .readHeader) (habuf : p.abuf = [])
    (hop : p.opCode.isReserved = false) {h : Header} (hvalid : h.Valid) (rest : Bytes) :
    p.append (h.firstByte :: h.secondByte :: rest) = loop { p with
      abuf := rest
      cache := { decoded p.cache h with valid := true }
      status := lengthOrMask (decoded p.cache h) } := by
  rw [append, habuf, List.nil_append]
  dsimp only
  rw [if_neg (by rw [hstatus]; decide), if_neg (by exact Bool.false_ne_true), loop_readHeader (by exact hstatus),
    readHeader_valid (by exact hop) hvalid rfl, if_pos rfl]

/-- With an op code in the parser that is not reserved, a valid header in one piece is **accepted**. -/
theorem append_encode {p : SocketFrameParser} (hstatus : p.status = .readHeader) (habuf : p.abuf = [])
    (hop : p.opCode.isReserved = false) {h : Header} (hvalid : h.Valid) : Accepts h (p.append h.encode).2 := by
  rw [Header.encode, append_header hstatus habuf hop hvalid]
  by_cases hlong : h.length.bits = 126 ∨ h.length.bits = 127
  · have hstatus' : lengthOrMask (decoded p.cache h) = .readPayloadLength := if_pos hlong
    rw [loop_readPayloadLength hstatus', readPayloadLength_extended hvalid.minimal hvalid.highestBit rfl rfl hlong,
      if_pos rfl, loop_maskOrPayload rfl]
    exact accepts_decoded (f := p.cache) rfl rfl
  · have hstatus' : lengthOrMask (decoded p.cache h) = maskOrPayload (decoded p.cache h) := if_neg hlong
    have hlength : h.length.bits = h.length.value := by
      cases hl : h.length with
      | seven n => rfl
      | sixteen n => exact absurd (Or.inl (by rw [hl]; rfl)) hlong
      | sixtyFour n => exact absurd (Or.inr (by rw [hl]; rfl)) hlong
    rw [loop_maskOrPayload hstatus']
    refine accepts_decoded (f := p.cache) ?_ hstatus'
    rw [← hlength]
    rfl

/-- But a **cut** in the extended length throws the first two bytes away: `append` returns `false`, and takes what
follows for another header. -/
theorem append_cut {p : SocketFrameParser} (hstatus : p.status = .readHeader) (habuf : p.abuf = [])
    (hop : p.opCode.isReserved = false) {h : Header} (hvalid : h.Valid) {d e : Bytes}
    (hcut : h.length.extended = d ++ e) (he : e ≠ []) :
    (p.append (h.firstByte :: h.secondByte :: d)).1 = .returned false ∧
      (p.append (h.firstByte :: h.secondByte :: d)).2.status = .readHeader ∧
      (p.append (h.firstByte :: h.secondByte :: d)).2.abuf = d := by
  have hlen := congrArg List.length hcut
  have hpos := List.length_pos_iff.mpr he
  rw [List.length_append] at hlen
  have hread : ∀ q : SocketFrameParser, q.cache.length = h.length.bits → q.abuf = d →
      q.readPayloadLength = (false, q) := by
    intro q hq hqd
    cases hl : h.length with
    | seven n =>
      rw [hl, Length.extended, List.length_nil] at hlen
      omega
    | sixteen n =>
      rw [hl, Length.extended, length_bigEndian] at hlen
      have h126 : q.cache.length = 126 := hq.trans (by rw [hl]; rfl)
      rw [readPayloadLength, if_pos h126, if_pos (by rw [hqd]; omega)]
    | sixtyFour n =>
      rw [hl, Length.extended, length_bigEndian] at hlen
      have h127 : q.cache.length = 127 := hq.trans (by rw [hl]; rfl)
      rw [readPayloadLength, if_neg (by omega), if_pos h127, if_pos (by rw [hqd]; omega)]
  have hlong : h.length.bits = 126 ∨ h.length.bits = 127 := by
    cases hl : h.length with
    | seven n =>
      rw [hl, Length.extended, List.length_nil] at hlen
      omega
    | sixteen n => exact Or.inl rfl
    | sixtyFour n => exact Or.inr rfl
  have hstatus' : lengthOrMask (decoded p.cache h) = .readPayloadLength := if_pos hlong
  rw [append_header hstatus habuf hop hvalid, loop_readPayloadLength hstatus', hread _ rfl rfl]
  exact ⟨rfl, rfl, rfl⟩

end SocketFrameParser

end Gts3.Web
