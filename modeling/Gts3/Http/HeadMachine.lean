import Gts3.Http.Parser
import Gts3.Lib.LineMachine

/-!
# The parser is a line machine

`headMachine` says what a line of a request head is for.  The parser simulates it (`load_sim`): after every `load`
it stands where the machine stands, with the same unfinished line, and it hands out the request the machine
completed.  All that is said about segments and histories below is said about the machine first.
-/

namespace Gts3.Http

open Lib Lib.Search Lib.Cxx Lib.LineMachine

/-! ## What a request line means -/

/-- The name and the value of a parameter. -/
def parameterItem (paraStr : Bytes) : Bytes × Bytes :=
  match find [61] paraStr with
  | none => (paraStr, paraStr)
  | some pos => (paraStr.take pos, paraStr.drop (pos + 1))

/-- The parameters of a list of statements; the first one for a name counts. -/
def parameterItems (parameters : Parameters) (list : List Bytes) : Parameters :=
  list.foldl (fun m paraStr => m.emplace (parameterItem paraStr).1 (parameterItem paraStr).2) parameters

theorem loadParameters_eq (parameters : Parameters) (list : List Bytes) :
    loadParameters parameters list = .ok (parameterItems parameters list) := by
  induction list generalizing parameters with
  | nil => rfl
  | cons paraStr list ih =>
    rw [loadParameters, parameterItems, List.foldl_cons, parameterItem]
    cases hf : find [61] paraStr with
    | none => simp only [ih, parameterItems]
    | some pos =>
      simp only [substr_zero, ok_bind, substrFrom_of_le (show pos + 1 ≤ paraStr.length from find_le hf), ih,
        parameterItems]

/-- What the resource of a request line does to a request. -/
def withTarget (r : Request) (target : Bytes) : Request :=
  match find [63] (fromPercentEncoding target) with
  | none => { r with path := unique sameSlash (fromPercentEncoding target) }
  | some pos =>
    { r with
      path := unique sameSlash ((fromPercentEncoding target).take pos)
      parametersString := (fromPercentEncoding target).drop (pos + 1)
      parameters := parameterItems r.parameters (tokens 38 ((fromPercentEncoding target).drop (pos + 1))) }

theorem loadTarget_eq (r : Request) (target : Bytes) : Parser.loadTarget r target = .ok (withTarget r target) := by
  unfold Parser.loadTarget Parser.loadResource withTarget
  cases hf : find [63] (fromPercentEncoding target) with
  | none => rfl
  | some pos =>
    simp only [substr_zero, ok_bind, strSplit_tokens, loadParameters_eq,
      substrFrom_of_le (show pos + 1 ≤ (fromPercentEncoding target).length from find_le hf)]

/-- The request after a request line, `none` when the line is not accepted. -/
def requestLine (cache : Request) (line : Bytes) : Option Request :=
  match tokens 32 line with
  | [methodPart, targetPart, versionPart] =>
    if strStartsWith (strToUpper versionPart) (lit "HTTP/") = false ∨ fromMethodString methodPart = .unknown then none
    else some (withTarget { cache with method := fromMethodString methodPart, version := (versionPart.drop 5).take 3 }
      targetPart)
  | _ => none

theorem five_le_of_startsWith {v : Bytes} (h : ¬ strStartsWith (strToUpper v) (lit "HTTP/") = false) :
    5 ≤ v.length := by
  have hp : lit "HTTP/" <+: strToUpper v := List.isPrefixOf_iff_prefix.mp (by simpa [strStartsWith] using h)
  simpa [strToUpper, lit] using hp.length_le

/-- **The request line is read without a fault**, and as the machine reads it. -/
theorem stateHandlerWaitingRequest_eq (p : Parser) (line : Bytes) :
    p.stateHandlerWaitingRequest line = .ok
      (match requestLine (p.cache.getD Request.new) line with
      | none => (false, { p with buffer := [] })
      | some r => (true, { p with cache := some r, state := .readingHeaders })) := by
  rw [Parser.stateHandlerWaitingRequest, strSplit_tokens, ok_bind, requestLine]
  rcases tokens 32 line with _ | ⟨methodPart, _ | ⟨targetPart, _ | ⟨versionPart, _ | ⟨extra, rest⟩⟩⟩⟩
  · rfl
  · rfl
  · rfl
  · -- three parts
    simp only
    by_cases hv : strStartsWith (strToUpper versionPart) (lit "HTTP/") = false
    · rw [if_pos hv, if_pos (Or.inl hv)]
    by_cases hm : fromMethodString methodPart = .unknown
    · rw [if_neg hv, if_pos hm, if_pos (Or.inr hm)]
    · rw [if_neg hv, if_neg hm, if_neg (by tauto)]
      simp only [substr_of_le (five_le_of_startsWith hv), ok_bind, loadTarget_eq]
  · rfl

/-! ## The machine -/

/-- Where a head stands: no request line yet, or a request with the headers so far. -/
inductive HeadState
  | waiting
  | reading (r : Request)
  deriving DecidableEq

/-- How a head ends. -/
inductive HeadResult
  | complete (r : Request)
  | rejected
  deriving DecidableEq

/-- The request that is handed out, from the bytes behind the head. -/
def HeadResult.request : HeadResult → Bytes → Request
  | .complete r, rest => r.finished rest
  | .rejected, _ => Request.new

/-- The request after a header line, and whether the line fits. -/
def withHeaderLine (r : Request) (line : Bytes) : Request × Bool :=
  ({ r with headers := (headerLine r.headers r.cookies line).1,
            cookies := (headerLine r.headers r.cookies line).2.1 },
    (headerLine r.headers r.cookies line).2.2)

/-- What a line of a head does. -/
def headLine : HeadState → Bytes → Verdict HeadState HeadResult
  | .waiting, line =>
    match requestLine Request.new line with
    | none => .drop .waiting
    | some r => .next (.reading r)
  | .reading r, line =>
    if line = crlf then .stop .waiting (.complete r)
    else if (withHeaderLine r line).2 then .next (.reading (withHeaderLine r line).1)
    else .stop .waiting .rejected

/-- The machine that reads request heads. -/
def headMachine : Machine UInt8 HeadState HeadResult where
  delim := crlf
  borderless := borderless_crlf
  delim_ne_nil := crlf_ne_nil
  limit := 1024
  line := headLine
  overlong := fun _ => (.waiting, none)

@[simp] theorem headMachine_delim : headMachine.delim = crlf := rfl

@[simp] theorem headMachine_limit : headMachine.limit = 1024 := rfl

@[simp] theorem headMachine_line : headMachine.line = headLine := rfl

theorem drain_nil (s : HeadState) : drain headMachine s [] = .more s [] := drain_short rfl (by decide)

/-! ## The simulation -/

/-- The parser stands where the machine does.  A waiting parser has no cached request, or an untouched one. -/
def Parser.Sim (p : Parser) : HeadState → Prop
  | .waiting => p.state = .waitingRequest ∧ (p.cache = none ∨ p.cache = some Request.new)
  | .reading r => p.state = .readingHeaders ∧ p.cache = some r

theorem Parser.Sim.cache_getD {p : Parser} (h : p.Sim .waiting) : p.cache.getD Request.new = Request.new := by
  rcases h.2 with h | h <;> simp [h]

/-- What `load` returns and leaves, when the machine comes to `o`. -/
def LoadSim (context : Option Request) (o : Outcome UInt8 HeadState HeadResult) (b : Bool) (p' : Parser) : Prop :=
  match o with
  | .more s buf => b = false ∧ p'.Sim s ∧ p'.buffer = buf ∧ p'.context = context
  | .done s r rest => b = true ∧ p'.Sim s ∧ p'.buffer = [] ∧ p'.context = some (r.request rest)

/-- One header line. -/
theorem stateHandlerReadingHeaders_eq {p : Parser} {r : Request} (h : p.Sim (.reading r)) (line : Bytes) :
    p.stateHandlerReadingHeaders line = .ok
      (if line = crlf then
        (some (r.finished p.buffer), { p with state := .waitingRequest, cache := none, buffer := [] })
      else if (withHeaderLine r line).2 then (none, { p with cache := some (withHeaderLine r line).1 })
      else (some Request.new, p.reset)) := by
  rw [Parser.stateHandlerReadingHeaders]
  by_cases hl : line = crlf
  · simp only [if_pos hl, Parser.nextRequestReady, h.2, Request.finish_eq, ok_bind]
  · simp only [if_neg hl, h.2, loadHeaderLine_eq, ok_bind, withHeaderLine, Parser.reset]
    rfl

/-- **The loop of `load`** follows the machine, with a round for each line. -/
theorem loadLoop_sim (fuel : ℕ) (p : Parser) (s : HeadState) (h : p.Sim s) (hfuel : p.buffer.length < fuel) :
    ∃ b p', Parser.loadLoop fuel p = .ok (b, p') ∧ LoadSim p.context (drain headMachine s p.buffer) b p' := by
  induction fuel generalizing p s with
  | zero => omega
  | succ fuel ih =>
    rw [Parser.loadLoop]
    by_cases hb : p.buffer = []
    · rw [if_pos hb, hb, drain_nil]
      exact ⟨_, _, rfl, rfl, h, hb, rfl⟩
    rw [if_neg hb]
    cases hf : find crlf p.buffer with
    | none =>
      simp only
      split_ifs with hl
      · rw [drain_short hf hl]
        exact ⟨_, _, rfl, rfl, h, rfl, rfl⟩
      · rw [drain_overlong hf (Nat.le_of_not_lt hl)]
        cases s with
        | waiting =>
          rw [h.1]
          exact ⟨_, _, rfl, rfl, ⟨rfl, h.2⟩, rfl, rfl⟩
        | reading r =>
          rw [h.1]
          exact ⟨_, _, rfl, rfl, ⟨rfl, Or.inl rfl⟩, rfl, rfl⟩
    | some pos =>
      obtain ⟨c, rest, hbuf, hpos⟩ := find_eq_some hf
      have hc : find crlf c = none := find_front (by rw [← hbuf, hf, hpos]) (by decide)
      have hline : IsLine headMachine.delim (c ++ crlf) := ⟨c, hc, rfl⟩
      have htake : p.buffer.take (pos + 2) = c ++ crlf := by
        rw [hbuf, ← hpos, show c.length + 2 = (c ++ crlf).length by simp [crlf], List.take_left]
      have hdrop : p.buffer.drop (pos + 2) = rest := by
        rw [hbuf, ← hpos, show c.length + 2 = (c ++ crlf).length by simp [crlf], List.drop_left]
      have hlen : rest.length < fuel := by
        have := congrArg List.length hbuf
        simp [crlf] at this
        omega
      simp only [substr_zero, ok_bind, htake, hdrop]
      rw [show drain headMachine s p.buffer = drain headMachine s (c ++ crlf ++ rest) by rw [hbuf],
        drain_line hline rest, headMachine_line]
      obtain ⟨state, buffer, cache, context⟩ := p
      cases s with
      | waiting =>
        obtain ⟨rfl, -⟩ := id h
        have hcache := h.cache_getD
        simp only at hcache
        simp only [stateHandlerWaitingRequest_eq, ok_bind, hcache, headLine]
        cases requestLine Request.new (c ++ crlf) with
        | none =>
          obtain ⟨b, p', hload, hsim⟩ := ih ⟨.waitingRequest, [], cache, context⟩ .waiting h (by simp; omega)
          simp only [drain_nil] at hsim
          exact ⟨b, p', hload, hsim⟩
        | some r => exact ih ⟨.readingHeaders, rest, some r, context⟩ (.reading r) ⟨rfl, rfl⟩ hlen
      | reading r =>
        obtain ⟨rfl, rfl⟩ := id h
        have hs : (⟨.readingHeaders, rest, some r, context⟩ : Parser).Sim (.reading r) := ⟨rfl, rfl⟩
        simp only [stateHandlerReadingHeaders_eq hs, ok_bind, headLine]
        by_cases hl : c ++ crlf = crlf
        · simp only [if_pos hl]
          exact ⟨_, _, rfl, rfl, ⟨rfl, Or.inl rfl⟩, rfl, rfl⟩
        by_cases hgood : (withHeaderLine r (c ++ crlf)).2 = true
        · simp only [if_neg hl, if_pos hgood]
          exact ih ⟨.readingHeaders, rest, some (withHeaderLine r (c ++ crlf)).1, context⟩ (.reading _) ⟨rfl, rfl⟩ hlen
        · simp only [if_neg hl, if_neg hgood]
          exact ⟨_, _, rfl, rfl, ⟨rfl, Or.inl rfl⟩, rfl, rfl⟩

/-- **The parser simulates the machine**: `load` returns normally, and as the machine says. -/
theorem load_sim {p : Parser} {s : HeadState} (h : p.Sim s) (data : Bytes) :
    ∃ b p', p.load data = .ok (b, p') ∧ LoadSim p.context (drain headMachine s (p.buffer ++ data)) b p' :=
  loadLoop_sim _ { p with buffer := p.buffer ++ data } s h (Nat.lt_succ_self _)

theorem Parser.sim_new : Parser.new.Sim .waiting := ⟨rfl, Or.inr rfl⟩

end Gts3.Http
