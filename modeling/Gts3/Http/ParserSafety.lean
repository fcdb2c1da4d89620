import Gts3.Http.HeadMachine
import Gts3.Lib.SlashPath

/-!
# The parser over whole histories

`Reachable` are the parsers that calls of `load` and `get_request` lead to.  Every one of them stands where the
head machine stands (`Reachable.inv`), so no call faults, the buffer keeps an unfinished line below the limit, and
nothing of an earlier request is left in a parser that waits (`Reachable.load`, `Reachable.serve_eq_new`).  What is
handed out has a known method and a collapsed path, unless it is the empty request of a rejected head
(`Reachable.parsed`).
-/

namespace Gts3.Http

open Lib Lib.Search Lib.Cxx Lib.LineMachine

/-- The parsers that come from a fresh one. -/
inductive Reachable : Parser → Prop
  | new : Reachable .new
  | load {p p' : Parser} {data : Bytes} {b : Bool} (h : Reachable p) (hl : p.load data = .ok (b, p')) : Reachable p'
  | getRequest {p : Parser} (socket : Option TcpSocket) (h : Reachable p) : Reachable (p.getRequest socket).2

/-- What a parser keeps between calls: an unfinished line, and a cached request only inside a head. -/
structure Parser.Inv (p : Parser) : Prop where
  noLine : find crlf p.buffer = none
  short : p.buffer.length < 1024
  sim : ∃ s, p.Sim s

/-- A waiting parser has no cached request, or an untouched one. -/
theorem Parser.Inv.cache {p : Parser} (h : p.Inv) (hw : p.state = .waitingRequest) :
    p.cache = none ∨ p.cache = some Request.new := by
  obtain ⟨s | r, hs⟩ := h.sim
  · exact hs.2
  · exact absurd (hw.symm.trans hs.1) (by decide)

theorem Parser.Inv.sim_waiting {p : Parser} (h : p.Inv) (hw : p.state = .waitingRequest) : p.Sim .waiting :=
  ⟨hw, h.cache hw⟩

/-! ## One call -/

/-- **One `load`** returns normally and keeps the invariant. -/
theorem Parser.Inv.load {p : Parser} (h : p.Inv) (data : Bytes) : ∃ b p', p.load data = .ok (b, p') ∧ p'.Inv := by
  obtain ⟨s, hs⟩ := h.sim
  obtain ⟨b, p', hload, hsim⟩ := load_sim hs data
  refine ⟨b, p', hload, ?_⟩
  cases ho : drain headMachine s (p.buffer ++ data) with
  | more s' buf =>
    rw [ho] at hsim
    obtain ⟨-, hs', rfl, -⟩ := hsim
    obtain ⟨hn, hl⟩ := drain_more (by decide) ho
    exact ⟨hn, hl, s', hs'⟩
  | done s' r rest =>
    rw [ho] at hsim
    obtain ⟨-, hs', hb, -⟩ := hsim
    exact ⟨by rw [hb]; rfl, by rw [hb]; decide, s', hs'⟩

theorem Parser.Sim.getRequest {p : Parser} {s : HeadState} (h : p.Sim s) (socket : Option TcpSocket) :
    (p.getRequest socket).2.Sim s := by
  unfold Parser.getRequest
  cases p.context with
  | none => exact h
  | some r => cases s <;> exact h

theorem Parser.getRequest_buffer (p : Parser) (socket : Option TcpSocket) :
    (p.getRequest socket).2.buffer = p.buffer := by
  unfold Parser.getRequest
  cases p.context <;> rfl

/-! ## Every history -/

theorem Reachable.inv {p : Parser} (h : Reachable p) : p.Inv := by
  induction h with
  | new => exact ⟨rfl, by decide, .waiting, Parser.sim_new⟩
  | @load p p' data b _ hl ih =>
    obtain ⟨b', p'', hload, hinv⟩ := ih.load data
    obtain ⟨rfl, rfl⟩ : b = b' ∧ p' = p'' := by simpa [hl] using hload
    exact hinv
  | getRequest socket _ ih =>
    obtain ⟨s, hs⟩ := ih.sim
    exact ⟨by rw [Parser.getRequest_buffer]; exact ih.noLine, by rw [Parser.getRequest_buffer]; exact ih.short,
      s, hs.getRequest socket⟩

/-! ## What is handed out -/

/-- What a request line gives: a known method, and a path without two slashes in a row. -/
structure Request.Parsed (r : Request) : Prop where
  method : r.method ≠ .unknown
  path : unique sameSlash r.path = r.path

theorem withTarget_method (r : Request) (target : Bytes) : (withTarget r target).method = r.method := by
  unfold withTarget
  split <;> rfl

theorem requestLine_parsed {cache r : Request} {line : Bytes} (h : requestLine cache line = some r) : r.Parsed := by
  unfold requestLine at h
  split at h
  · next methodPart targetPart versionPart _ =>
    split_ifs at h with hv
    obtain rfl := Option.some.inj h
    refine ⟨by rw [withTarget_method]; exact fun hm => hv (Or.inr hm), ?_⟩
    unfold withTarget
    split <;> exact SlashPath.collapse_collapse _
  · cases h

/-- A head in front of the machine, parsed as far as it is there. -/
def HeadState.Parsed : HeadState → Prop
  | .waiting => True
  | .reading r => r.Parsed

/-- A complete head is parsed. -/
def HeadResult.Parsed : HeadResult → Prop
  | .complete r => r.Parsed
  | .rejected => True

theorem drain_parsed {s : HeadState} (hs : s.Parsed) (buf : Bytes) :
    (drain headMachine s buf).Holds HeadState.Parsed HeadResult.Parsed := by
  have hover : ∀ s : HeadState, s.Parsed → (headMachine.overlong s).1.Parsed ∧
      ∀ r, (headMachine.overlong s).2 = some r → r.Parsed := fun s _ => ⟨trivial, by simp [headMachine]⟩
  refine drain_inv (fun s l hs => ?_) hover hs buf
  rw [headMachine_line]
  cases s with
  | waiting =>
    rw [headLine]
    cases hr : requestLine Request.new l with
    | none => trivial
    | some r => exact requestLine_parsed hr
  | reading r =>
    rw [headLine]
    split_ifs
    · exact ⟨trivial, hs⟩
    · exact Request.Parsed.mk hs.method hs.path
    · exact ⟨trivial, trivial⟩

theorem Request.Parsed.finished {r : Request} (h : r.Parsed) (body : Bytes) : (r.finished body).Parsed := by
  have hbody : ∀ q : Request, (q.withBody body).method = q.method ∧ (q.withBody body).path = q.path := by
    intro q
    unfold Request.withBody
    repeat' split
    all_goals exact ⟨rfl, rfl⟩
  constructor
  · rw [Request.finished, (hbody _).1]
    exact h.method
  · rw [Request.finished, (hbody _).2]
    exact h.path

/-- **What every history hands out** is parsed, or the empty request of a rejected head. -/
theorem Reachable.parsed {p : Parser} (h : Reachable p) :
    (∃ s, p.Sim s ∧ s.Parsed) ∧ ∀ r, p.context = some r → r = Request.new ∨ r.Parsed := by
  induction h with
  | new => exact ⟨⟨.waiting, Parser.sim_new, trivial⟩, by simp [Parser.new]⟩
  | @load p p' data b _ hl ih =>
    obtain ⟨⟨s, hs, hparsed⟩, hcontext⟩ := ih
    obtain ⟨b', p'', hload, hsim⟩ := load_sim hs data
    obtain ⟨rfl, rfl⟩ : b = b' ∧ p' = p'' := by simpa [hl] using hload
    have hdrain := drain_parsed hparsed (p.buffer ++ data)
    cases ho : drain headMachine s (p.buffer ++ data) with
    | more s' buf =>
      rw [ho] at hsim hdrain
      obtain ⟨-, hs', -, hc⟩ := hsim
      exact ⟨⟨s', hs', hdrain⟩, by rw [hc]; exact hcontext⟩
    | done s' r rest =>
      rw [ho] at hsim hdrain
      obtain ⟨-, hs', -, hc⟩ := hsim
      refine ⟨⟨s', hs', hdrain.1⟩, fun q hq => ?_⟩
      obtain rfl : r.request rest = q := by simpa [hc] using hq
      cases r with
      | complete r => exact Or.inr (Request.Parsed.finished hdrain.2 rest)
      | rejected => exact Or.inl rfl
  | @getRequest p socket _ ih =>
    obtain ⟨⟨s, hs, hparsed⟩, hcontext⟩ := ih
    refine ⟨⟨s, hs.getRequest socket, hparsed⟩, fun r hr => ?_⟩
    unfold Parser.getRequest at hr
    cases hc : p.context with
    | none =>
      simp [hc] at hr
    | some q =>
      simp [hc] at hr

/-- **What a call of `load` makes ready**: how a head has ended, with bytes behind it that have come with the call. -/
theorem Reachable.load_request {p p' : Parser} (h : Reachable p) {data : Bytes} (hl : p.load data = .ok (true, p')) :
    ∃ (r : HeadResult) (rest : Bytes), p'.context = some (r.request rest) ∧ rest.length ≤ data.length := by
  obtain ⟨s, hs⟩ := h.inv.sim
  obtain ⟨b, p'', hload, hsim⟩ := load_sim hs data
  obtain ⟨rfl, rfl⟩ : true = b ∧ p' = p'' := by simpa [hl] using hload
  cases ho : drain headMachine s (p.buffer ++ data) with
  | more s' buf =>
    rw [ho] at hsim
    cases hsim.1
  | done s' r rest =>
    rw [ho] at hsim
    obtain ⟨-, -, -, hcontext⟩ := hsim
    exact ⟨r, rest, hcontext, drain_done_length (fun _ => rfl) h.inv.noLine ho⟩

/-- A request that `get_request` hands out. -/
def HandedOut (request : Request) : Prop :=
  ∃ p socket, Reachable p ∧ (p.getRequest socket).1 = some request

theorem HandedOut.parsed {request : Request} (h : HandedOut request) : request.path = [] ∨ request.Parsed := by
  obtain ⟨p, socket, hp, hget⟩ := h
  unfold Parser.getRequest at hget
  cases hc : p.context with
  | none => simp [hc] at hget
  | some r =>
    simp only [hc, Option.some.injEq] at hget
    subst hget
    rcases hp.parsed.2 r hc with rfl | h
    · exact Or.inl rfl
    · exact Or.inr ⟨h.method, h.path⟩

/-! ## Two parsers at one place -/

/-- Load segments, and take every request that becomes ready, as a connection does. -/
def serve (socket : Option TcpSocket) : Parser → List Bytes → Run (List (Option Request) × Parser)
  | p, [] => .ok ([], p)
  | p, data :: segs => do
    let (b, p) ← p.load data
    let (request, p) := if b then p.getRequest socket else (none, p)
    let (requests, p) ← serve socket p segs
    .ok (request :: requests, p)

/-- Two parsers that stand at the same place hand out the same requests, whatever comes. -/
theorem serve_congr (socket : Option TcpSocket) (segs : List Bytes) {p q : Parser} {s : HeadState} (hp : p.Sim s)
    (hq : q.Sim s) (hbuf : p.buffer = q.buffer) :
    ∃ requests p' q', serve socket p segs = .ok (requests, p') ∧ serve socket q segs = .ok (requests, q') := by
  induction segs generalizing p q s with
  | nil => exact ⟨[], p, q, rfl, rfl⟩
  | cons data segs ih =>
    obtain ⟨b, p₁, hlp, hsp⟩ := load_sim hp data
    obtain ⟨b', q₁, hlq, hsq⟩ := load_sim hq data
    rw [← hbuf] at hsq
    cases ho : drain headMachine s (p.buffer ++ data) with
    | more s' buf =>
      rw [ho] at hsp hsq
      obtain ⟨rfl, hp₁, hbp, -⟩ := hsp
      obtain ⟨rfl, hq₁, hbq, -⟩ := hsq
      obtain ⟨requests, p', q', h1, h2⟩ := ih hp₁ hq₁ (hbp.trans hbq.symm)
      refine ⟨none :: requests, p', q', ?_, ?_⟩
      · simp only [serve, hlp, ok_bind, Bool.false_eq_true, if_false, h1]
      · simp only [serve, hlq, ok_bind, Bool.false_eq_true, if_false, h2]
    | done s' r rest =>
      rw [ho] at hsp hsq
      obtain ⟨rfl, hp₁, hbp, hcp⟩ := hsp
      obtain ⟨rfl, hq₁, hbq, hcq⟩ := hsq
      obtain ⟨requests, p', q', h1, h2⟩ := ih (hp₁.getRequest socket) (hq₁.getRequest socket)
        (by rw [Parser.getRequest_buffer, Parser.getRequest_buffer, hbp, hbq])
      have hout : (p₁.getRequest socket).1 = (q₁.getRequest socket).1 := by
        simp only [Parser.getRequest, hcp, hcq]
      refine ⟨(p₁.getRequest socket).1 :: requests, p', q', ?_, ?_⟩
      · simp only [serve, hlp, ok_bind, if_true, h1]
      · simp only [serve, hlq, ok_bind, if_true, h2, hout]

/-- **The parser over every history.**  A call of `load` ends without a fault; it leaves an unfinished line of less
than 1024 bytes, and a waiting parser without a used request; and a waiting parser with an empty buffer hands out
the requests a fresh parser hands out, whatever it has been given before. -/
theorem reachable_safe {p : Parser} (h : Reachable p) :
    (∀ data, ∃ b p', p.load data = .ok (b, p') ∧ ¬ crlf <:+: p'.buffer ∧ p'.buffer.length < 1024 ∧
      (p'.state = .waitingRequest → p'.cache = none ∨ p'.cache = some Request.new)) ∧
    (p.state = .waitingRequest → p.cache = none ∨ p.cache = some Request.new) ∧
    (p.state = .waitingRequest → p.buffer = [] → ∀ socket segs, ∃ requests p' q',
      serve socket p segs = .ok (requests, p') ∧ serve socket .new segs = .ok (requests, q')) := by
  refine ⟨fun data => ?_, h.inv.cache, fun hw hb socket segs => ?_⟩
  · obtain ⟨b, p', hload, hinv⟩ := h.inv.load data
    exact ⟨b, p', hload, find_eq_none_iff.mp hinv.noLine, hinv.short, hinv.cache⟩
  · exact serve_congr socket segs (h.inv.sim_waiting hw) Parser.sim_new hb

/-- A header line without a colon was rejected before. -/
theorem reachable_safe_after_reject :
    let p : Parser := ⟨.waitingRequest, [], none, some Request.new⟩
    Parser.new.load (lit "GET /a HTTP/1.1\r\nx\r\n") = .ok (true, p) ∧
      (∀ socket segs, ∃ requests p' q', serve socket p segs = .ok (requests, p') ∧
        serve socket .new segs = .ok (requests, q')) := by
  have hload : Parser.new.load (lit "GET /a HTTP/1.1\r\nx\r\n") =
      .ok (true, ⟨.waitingRequest, [], none, some Request.new⟩) := by decide +kernel
  exact ⟨hload, (reachable_safe (.load .new hload)).2.2 rfl rfl⟩

end Gts3.Http
