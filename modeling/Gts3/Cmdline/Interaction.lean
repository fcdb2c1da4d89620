import Gts3.Lib.Transition
import Gts3.Algorithm

/-!
# `server/cmdline_server.cpp`, `cmdline/app_core.cpp`, `cmdline/private/interaction_unix.cpp`: commands to a server

Two pipes join the server and all processes that send it a command.  A process writes its command into one of them,
waits for five seconds at most and prints what it then reads from the other; the server reads what there is, up to the
size of its buffer, and writes an answer or none.  Nothing in the pipes says where a text ends or whose it is.
`interaction_runs` says when this goes well, and how it does not.
-/

namespace Gts3.Cmdline.Interaction

open Lib Lib.Cxx Lib.Transition

/-! ## Commands and answers -/

/-- `CCMD_VSS`. -/
def ccmdVss : Bytes := lit "view server status"

/-- `CCMD_VASS`. -/
def ccmdVass : Bytes := lit "view all subserver"

/-- `CCMD_VRSS`. -/
def ccmdVrss : Bytes := lit "view running subserver"

/-- `CCMD_STSSA`. -/
def ccmdStssa : Bytes := lit "start all subserver"

/-- `CCMD_SPSSA`. -/
def ccmdSpssa : Bytes := lit "stop all subserver"

/-- `CCMD_STSS`. -/
def ccmdStss : Bytes := lit "start subserver\r\n"

/-- `CCMD_SPSS`. -/
def ccmdSpss : Bytes := lit "stop subserver\r\n"

/-- The commands without an argument. -/
def plainCommands : List Bytes := [ccmdVss, ccmdVass, ccmdVrss, ccmdStssa, ccmdSpssa]

/-- What `short_cmd_check` sends. -/
def Command (cmd : Bytes) : Prop := cmd ∈ plainCommands ∨ ∃ names, cmd = ccmdStss ++ names ∨ cmd = ccmdSpss ++ names

/-- `view_pid() + m_tcp_server.view_status()`. -/
structure Status where
  pid : ℕ
  view : Bytes

def Status.text (s : Status) : Bytes := lit "pid: " ++ formatNat 10 s.pid ++ lit "\n" ++ s.view

/-- The text that the handler of `cmdline_server::start` has before it looks for line feeds at its end; `none` when it
reads on. -/
def handle (status : Status) (str : Bytes) : Option Bytes :=
  if str = ccmdVss then some (10 :: status.text)
  else if strStartsWith str ccmdStss then some (lit "accepted")
  else if strStartsWith str ccmdSpss then some (lit "accepted")
  else if str = ccmdStssa then some (lit "accepted")
  else if str = ccmdSpssa then some (lit "accepted")
  else if str = ccmdVass then some (lit "unrealized")
  else if str = ccmdVrss then some (lit "unrealized")
  else none

/-- What the handler writes, with one line feed at its end; nothing when it is empty. -/
def answer (status : Status) (str : Bytes) : Bytes :=
  match handle status str with
  | none => []
  | some text => if text.rdropWhile (· = 10) = [] then [] else text.rdropWhile (· = 10) ++ [10]

/-! ## The pipes -/

/-- `BUF_SIZE`. -/
def bufSize : ℕ := 8192

/-- A write of so many bytes is never cut in a pipe with room. -/
def pipeBuf : ℕ := 4096

/-- What an empty pipe takes at once. -/
def pipeSize : ℕ := 65536

/-- A process that sends a command. -/
inductive ClientPhase
  | writing
  | waiting
  /-- It prints what it has read. -/
  | printed (out : Bytes)
  /-- It prints its buffer, in which no zero byte ends the text, and goes on behind it. -/
  | overrun
  /-- "Error: request operation timeout." or "Error: wait for reply operation timeout." -/
  | timedOut
  deriving DecidableEq

structure Client where
  cmd : Bytes
  phase : ClientPhase
  deriving DecidableEq

/-- The pipe to the server, the pipe back, what the handler of the server works on, and the processes. -/
structure Pipes where
  up : Bytes
  down : Bytes
  serving : Option Bytes
  clients : List Client

/-- What happens. -/
inductive PipeEvent
  /-- `short_cmd_check` comes to its write. -/
  | start (cmd : Bytes)
  /-- The write of a process. -/
  | send (i n : ℕ)
  /-- `async_read` of the server completes. -/
  | receive
  /-- The handler of the server writes, and starts the next read. -/
  | reply (status : Status) (n : ℕ)
  /-- A process reads. -/
  | print (i : ℕ)
  /-- `poll` of a process gives up. -/
  | timeOut (i : ℕ)

/-- How many bytes of a text a write puts into a pipe that has room. -/
def Written (pipe text : Bytes) (n : ℕ) : Prop :=
  0 < n ∧ n ≤ text.length ∧ (text.length ≤ pipeBuf ∨ pipe = [] ∧ text.length ≤ pipeSize → n = text.length)

def Enabled (s : Pipes) : PipeEvent → Prop
  | .start cmd => Command cmd
  | .send i n => ∃ c, s.clients[i]? = some c ∧ c.phase = .writing ∧ Written s.up c.cmd n
  | .receive => s.serving = none ∧ s.up ≠ []
  | .reply status n => ∃ str, s.serving = some str ∧ (answer status str ≠ [] → Written s.down (answer status str) n)
  | .print i => ∃ c, s.clients[i]? = some c ∧ c.phase = .waiting ∧ s.down ≠ []
  | .timeOut i => ∃ c, s.clients[i]? = some c ∧ (c.phase = .writing ∨ c.phase = .waiting ∧ s.down = [])

/-- A process goes on. -/
def Pipes.goOn (s : Pipes) (i : ℕ) (phase : ClientPhase) : Pipes :=
  { s with clients := s.clients.modify i fun c => { c with phase } }

/-- What a process makes of the bytes that it has read into a buffer of zeros; `__c` would be the end of the pipe. -/
def readPhase (buf : Bytes) : ClientPhase :=
  if strStartsWith buf (lit "__c") then .timedOut
  else if 0 ∈ buf ∨ buf.length < bufSize then .printed (cStr buf)
  else .overrun

def next (s : Pipes) : PipeEvent → Pipes
  | .start cmd => { s with clients := s.clients ++ [⟨cmd, .writing⟩] }
  | .send i n => { s.goOn i .waiting with up := s.up ++ (((s.clients[i]?).map Client.cmd).getD []).take n }
  | .receive => { s with up := s.up.drop bufSize, serving := some (s.up.take bufSize) }
  | .reply status n =>
    { s with serving := none, down := s.down ++ (answer status (s.serving.getD [])).take n }
  | .print i => { s.goOn i (readPhase (s.down.take bufSize)) with down := s.down.drop bufSize }
  | .timeOut i => s.goOn i .timedOut

/-- A server that has opened the pipes. -/
def system : System Pipes PipeEvent := ⟨⟨[], [], none, []⟩, Enabled, next⟩

/-! ## Commands one at a time -/

theorem handle_head {status : Status} {str text : Bytes} (h : handle status str = some text) :
    text = 10 :: status.text ∨ text = lit "accepted" ∨ text = lit "unrealized" := by
  unfold handle at h
  split_ifs at h
  all_goals
    obtain rfl := Option.some.inj h
    simp

/-- An answer is not taken for the end of the pipe. -/
theorem answer_head (status : Status) (str : Bytes) : strStartsWith (answer status str) (lit "__c") = false := by
  rw [answer]
  cases h : handle status str with
  | none => rfl
  | some text =>
    simp only
    split_ifs with hnil
    · rfl
    · rcases handle_head h with rfl | rfl | rfl
      · cases htrim : (10 :: status.text).rdropWhile (· = 10) with
        | nil => exact absurd htrim hnil
        | cons c rest =>
          have hprefix := List.rdropWhile_prefix (fun c : UInt8 => decide (c = 10)) (10 :: status.text)
          rw [htrim, List.cons_prefix_cons] at hprefix
          obtain rfl := hprefix.1
          rfl
      · decide
      · decide

/-- An answer that leaves room for a zero byte is printed. -/
theorem readPhase_answer {status : Status} {str : Bytes} (hlen : (answer status str).length < bufSize) :
    readPhase (answer status str) = .printed (cStr (answer status str)) := by
  rw [readPhase, answer_head, if_neg Bool.false_ne_true, if_pos (Or.inr hlen)]

/-- Nothing is under way. -/
structure Quiet (s : Pipes) : Prop where
  up : s.up = []
  down : s.down = []
  serving : s.serving = none
  clients : ∀ c ∈ s.clients, c.phase ≠ .waiting

/-- Where a command is: on its way, at the server, or answered. -/
inductive Underway (cmd : Bytes) : Bytes → Option Bytes → Bytes → Prop
  | sent (hlen : cmd.length ≤ bufSize) : Underway cmd cmd none []
  | served : Underway cmd [] (some cmd) []
  | answered (status : Status) (hlen : (answer status cmd).length < bufSize) :
    Underway cmd [] none (answer status cmd)

/-- What has been printed is the answer to the command, up to a zero byte. -/
structure Right (c : Client) : Prop where
  printed : ∀ out, c.phase = .printed out → ∃ status, out = cStr (answer status c.cmd)
  inside : c.phase ≠ .overrun

/-- Nothing has been printed. -/
structure Silent (c : Client) : Prop where
  printed : ∀ out, c.phase ≠ .printed out
  inside : c.phase ≠ .overrun

theorem Silent.right {c : Client} (h : Silent c) : Right c := ⟨fun out hout => absurd hout (h.printed out), h.inside⟩

theorem silent_of {c : Client} (h : c.phase = .writing ∨ c.phase = .waiting ∨ c.phase = .timedOut) : Silent c := by
  constructor
  · rintro out hout
    simp [hout] at h
  · intro hover
    simp [hover] at h

/-- One command is under way, of a process that waits or has given up, and no other process waits. -/
def Single (s : Pipes) : Prop :=
  ∃ (i : ℕ) (c : Client), s.clients[i]? = some c ∧ (c.phase = .waiting ∨ c.phase = .timedOut) ∧
    Underway c.cmd s.up s.serving s.down ∧
      ∀ (j : ℕ) (c' : Client), s.clients[j]? = some c' → c'.phase = .waiting → j = i

/-- The states in which one command at most is under way. -/
structure Orderly (s : Pipes) : Prop where
  right : ∀ c ∈ s.clients, Right c
  one : Quiet s ∨ Single s

/-- A command is sent when nothing is under way; commands fit into the buffer, answers with a zero byte behind them. -/
def OneAtATime (s : Pipes) : PipeEvent → Prop
  | .send i _ => Quiet s ∧ ∀ c, s.clients[i]? = some c → c.cmd.length ≤ bufSize
  | .reply status _ => ∀ str, s.serving = some str → (answer status str).length < bufSize
  | _ => True

theorem goOn_get (s : Pipes) (i j : ℕ) (phase : ClientPhase) :
    (s.goOn i phase).clients[j]? = if i = j then (s.clients[j]?).map fun c => { c with phase } else s.clients[j]? := by
  simp only [Pipes.goOn, List.getElem?_modify]
  split_ifs <;> simp

theorem mem_goOn {s : Pipes} {i : ℕ} {phase : ClientPhase} {c : Client} (h : c ∈ (s.goOn i phase).clients) :
    c ∈ s.clients ∨ ∃ c', s.clients[i]? = some c' ∧ c = { c' with phase } :=
  mem_modify h

theorem right_goOn {s : Pipes} (h : ∀ c ∈ s.clients, Right c) {i : ℕ} {phase : ClientPhase}
    (hphase : ∀ c, s.clients[i]? = some c → Right { c with phase }) : ∀ c ∈ (s.goOn i phase).clients, Right c := by
  intro c hc
  rcases mem_goOn hc with hc | ⟨c', hc', rfl⟩
  · exact h c hc
  · exact hphase c' hc'

theorem Written.eq {text : Bytes} {n : ℕ} (h : Written [] text n) (hlen : text.length ≤ bufSize) : n = text.length :=
  h.2.2 (Or.inr ⟨rfl, hlen.trans (by decide)⟩)

section Steps

variable {s : Pipes}

theorem Orderly.start (h : Orderly s) (cmd : Bytes) : Orderly (next s (.start cmd)) := by
  refine ⟨fun c hc => ?_, ?_⟩
  · rcases List.mem_append.mp hc with hc | hc
    · exact h.right c hc
    · obtain rfl := List.mem_singleton.mp hc
      exact (silent_of (Or.inl rfl)).right
  · rcases h.one with hquiet | ⟨i, c, hc, hphase, hunder, hone⟩
    · refine Or.inl ⟨hquiet.up, hquiet.down, hquiet.serving, fun c hc => ?_⟩
      rcases List.mem_append.mp hc with hc | hc
      · exact hquiet.clients c hc
      · obtain rfl := List.mem_singleton.mp hc
        exact ClientPhase.noConfusion
    · have hlt := (List.getElem?_eq_some_iff.mp hc).1
      refine Or.inr ⟨i, c, by rwa [next, List.getElem?_append_left hlt], hphase, hunder, fun j c' hc' hwait => ?_⟩
      simp only [next] at hc'
      rcases Nat.lt_or_ge j s.clients.length with hj | hj
      · rw [List.getElem?_append_left hj] at hc'
        exact hone j c' hc' hwait
      · rw [List.getElem?_append_right hj] at hc'
        obtain rfl := List.mem_singleton.mp (List.mem_of_getElem? hc')
        cases hwait

theorem Orderly.send (h : Orderly s) {i n : ℕ} (he : Enabled s (.send i n)) (hok : OneAtATime s (.send i n)) :
    Orderly (next s (.send i n)) := by
  obtain ⟨c, hc, -, hwritten⟩ := he
  obtain ⟨hquiet, hfits⟩ := hok
  have hlen := hfits c hc
  rw [hquiet.up] at hwritten
  obtain rfl := hwritten.eq hlen
  have hself : (s.goOn i .waiting).clients[i]? = some { c with phase := .waiting } := by
    rw [goOn_get, if_pos rfl, hc]
    rfl
  refine ⟨right_goOn h.right fun c' _ => (silent_of (Or.inr (Or.inl rfl))).right,
    Or.inr ⟨i, _, hself, Or.inl rfl, ?_, ?_⟩⟩
  · have hup : (next s (.send i c.cmd.length)).up = c.cmd := by
      simp [next, hquiet.up, hc]
    have hserving : (next s (.send i c.cmd.length)).serving = none := hquiet.serving
    have hdown : (next s (.send i c.cmd.length)).down = [] := hquiet.down
    rw [hup, hserving, hdown]
    exact .sent hlen
  · intro j c' hc' hwait
    by_contra hne
    simp only [next] at hc'
    rw [goOn_get, if_neg (Ne.symm hne)] at hc'
    exact hquiet.clients c' (List.mem_of_getElem? hc') hwait

theorem Orderly.receive (h : Orderly s) (he : Enabled s .receive) : Orderly (next s .receive) := by
  obtain ⟨hnone, hup⟩ := he
  refine ⟨h.right, ?_⟩
  rcases h.one with hquiet | ⟨i, c, hc, hphase, hunder, hone⟩
  · exact absurd hquiet.up hup
  · refine Or.inr ⟨i, c, hc, hphase, ?_, hone⟩
    obtain ⟨up, down, serving, clients⟩ := s
    simp only [next] at hunder hup ⊢
    cases hunder with
    | sent hlen =>
      rw [List.drop_eq_nil_of_le hlen, List.take_of_length_le hlen]
      exact .served
    | served => exact absurd rfl hup
    | answered => exact absurd rfl hup

theorem Orderly.reply (h : Orderly s) {status : Status} {n : ℕ} (he : Enabled s (.reply status n))
    (hok : OneAtATime s (.reply status n)) : Orderly (next s (.reply status n)) := by
  obtain ⟨str, hserving, hwritten⟩ := he
  have hlen := hok str hserving
  refine ⟨h.right, ?_⟩
  rcases h.one with hquiet | ⟨i, c, hc, hphase, hunder, hone⟩
  · rw [hquiet.serving] at hserving
    cases hserving
  · refine Or.inr ⟨i, c, hc, hphase, ?_, hone⟩
    obtain ⟨up, down, serving, clients⟩ := s
    simp only [next] at hunder hserving hwritten ⊢
    subst hserving
    cases hunder with
    | served =>
      have htake : (answer status c.cmd).take n = answer status c.cmd := by
        by_cases hnil : answer status c.cmd = []
        · rw [hnil, List.take_nil]
        · exact List.take_of_length_le ((hwritten hnil).eq hlen.le).ge
      rw [List.nil_append, Option.getD_some, htake]
      exact .answered status hlen

theorem Orderly.print (h : Orderly s) {i : ℕ} (he : Enabled s (.print i)) : Orderly (next s (.print i)) := by
  obtain ⟨c, hc, hwait, hdown⟩ := he
  rcases h.one with hquiet | ⟨i', c', hc', hphase, hunder, hone⟩
  · exact absurd hquiet.down hdown
  · obtain rfl := hone i c hc hwait
    obtain rfl := Option.some.inj (hc.symm.trans hc')
    obtain ⟨up, down, serving, clients⟩ := s
    simp only at hunder hdown hc hone
    cases hunder with
    | sent => exact absurd rfl hdown
    | served => exact absurd rfl hdown
    | answered status hlen =>
      have hread : readPhase ((answer status c.cmd).take bufSize) = .printed (cStr (answer status c.cmd)) := by
        rw [List.take_of_length_le hlen.le, readPhase_answer hlen]
      refine ⟨right_goOn h.right fun c' hc' => ?_, Or.inl ⟨rfl, List.drop_eq_nil_of_le hlen.le, rfl, ?_⟩⟩
      · obtain rfl := Option.some.inj (hc.symm.trans hc')
        rw [hread]
        exact ⟨fun out hout => ⟨status, (ClientPhase.printed.inj hout).symm⟩, ClientPhase.noConfusion⟩
      · intro c' hc' hwait'
        obtain ⟨j, hj⟩ := List.mem_iff_getElem?.mp hc'
        simp only [next, hread] at hj
        rw [goOn_get] at hj
        split_ifs at hj with hij
        · obtain ⟨c'', -, rfl⟩ := Option.map_eq_some_iff.mp hj
          cases hwait'
        · exact hij (hone j c' hj hwait').symm

theorem Orderly.timeOut (h : Orderly s) {i : ℕ} (he : Enabled s (.timeOut i)) : Orderly (next s (.timeOut i)) := by
  obtain ⟨c, hc, hphase⟩ := he
  refine ⟨right_goOn h.right fun c' _ => (silent_of (Or.inr (Or.inr rfl))).right, ?_⟩
  have hwaiting : ∀ (j : ℕ) (c' : Client), (s.goOn i .timedOut).clients[j]? = some c' → c'.phase = .waiting →
      s.clients[j]? = some c' := by
    intro j c' hc' hwait
    rw [goOn_get] at hc'
    split_ifs at hc' with hij
    · obtain ⟨c'', -, rfl⟩ := Option.map_eq_some_iff.mp hc'
      cases hwait
    · exact hc'
  rcases h.one with hquiet | ⟨i', c', hc', hphase', hunder, hone⟩
  · refine Or.inl ⟨hquiet.up, hquiet.down, hquiet.serving, fun c' hc' hwait => ?_⟩
    obtain ⟨j, hj⟩ := List.mem_iff_getElem?.mp hc'
    exact hquiet.clients c' (List.mem_of_getElem? (hwaiting j c' hj hwait)) hwait
  · by_cases hij : i = i'
    · subst hij
      refine Or.inr ⟨i, { c' with phase := .timedOut }, ?_, Or.inr rfl, hunder, fun j c'' hj hwait =>
        hone j c'' (hwaiting j c'' hj hwait) hwait⟩
      change (s.goOn i .timedOut).clients[i]? = _
      rw [goOn_get, if_pos rfl, hc']
      rfl
    · refine Or.inr ⟨i', c', ?_, hphase', hunder, fun j c'' hj hwait => hone j c'' (hwaiting j c'' hj hwait) hwait⟩
      change (s.goOn i .timedOut).clients[i']? = _
      rw [goOn_get, if_neg hij, hc']

/-- **Every event**, as long as one command at a time is sent. -/
theorem Orderly.next (h : Orderly s) {e : PipeEvent} (he : Enabled s e) (hok : OneAtATime s e) :
    Orderly (next s e) := by
  cases e with
  | start cmd => exact h.start cmd
  | send i n => exact h.send he hok
  | receive => exact h.receive he
  | reply status n => exact h.reply he hok
  | print i => exact h.print he
  | timeOut i => exact h.timeOut he

end Steps

/-! ## Answers that are late -/

theorem Command.ne_nil {cmd : Bytes} (h : Command cmd) : cmd ≠ [] := by
  rcases h with h | ⟨names, rfl | rfl⟩
  · have hplain : ∀ c ∈ plainCommands, c ≠ [] := by decide
    exact hplain cmd h
  · simp [ccmdStss, lit]
  · simp [ccmdSpss, lit]

theorem handle_isSome {cmd : Bytes} (h : Command cmd) (status : Status) : (handle status cmd).isSome = true := by
  rcases h with h | ⟨names, rfl | rfl⟩
  · simp only [plainCommands, List.mem_cons, List.not_mem_nil, or_false] at h
    rcases h with rfl | rfl | rfl | rfl | rfl <;> rfl
  · have hstart : strStartsWith (ccmdStss ++ names) ccmdStss = true := by simp [strStartsWith]
    unfold handle
    split_ifs <;> rfl
  · have hstart : strStartsWith (ccmdSpss ++ names) ccmdSpss = true := by simp [strStartsWith]
    unfold handle
    split_ifs <;> rfl

theorem answer_ne_nil {cmd : Bytes} (h : Command cmd) (status : Status) : answer status cmd ≠ [] := by
  obtain ⟨text, htext⟩ := Option.isSome_iff_exists.mp (handle_isSome h status)
  have hkept : text.rdropWhile (· = 10) ≠ [] := by
    rw [Ne, List.rdropWhile_eq_nil_iff]
    rcases handle_head htext with rfl | rfl | rfl
    · exact fun hall => absurd (hall 112 (by simp [Status.text, lit])) (by decide)
    · decide
    · decide
  rw [answer, htext]
  simp only [if_neg hkept]
  exact List.append_ne_nil_of_right_ne_nil _ (List.cons_ne_nil _ _)

/-- Command and answer fit into the buffers, the answer with a zero byte behind it. -/
def Fits (status : Status) (cmd : Bytes) : Prop := cmd.length ≤ bufSize ∧ (answer status cmd).length < bufSize

theorem written_length {text : Bytes} (hne : text ≠ []) (pipe : Bytes) :
    Written pipe text text.length := ⟨List.length_pos_iff.mpr hne, le_refl _, fun _ => rfl⟩

section Runs

variable {status : Status} {cmd up down : Bytes} {serving : Option Bytes} {clients : List Client}

theorem reachable_send (hcmd : Command cmd) (h : system.Reachable ⟨up, down, serving, clients⟩) :
    system.Reachable ⟨up ++ cmd, down, serving, clients ++ [⟨cmd, .waiting⟩]⟩ := by
  have hstart := h.next (S := system) (e := .start cmd) hcmd
  have hget : (clients ++ [(⟨cmd, .writing⟩ : Client)])[clients.length]? = some ⟨cmd, .writing⟩ :=
    List.getElem?_concat_length
  have hsend := hstart.next (S := system) (e := .send clients.length cmd.length)
    ⟨_, hget, rfl, written_length hcmd.ne_nil up⟩
  have hnext : system.next (system.next ⟨up, down, serving, clients⟩ (.start cmd)) (.send clients.length cmd.length) =
      ⟨up ++ cmd, down, serving, clients ++ [⟨cmd, .waiting⟩]⟩ := by
    change Pipes.mk (up ++ (((clients ++ [Client.mk cmd .writing])[clients.length]?.map Client.cmd).getD []).take
      cmd.length) down serving ((clients ++ [Client.mk cmd .writing]).modify clients.length fun c =>
        { c with phase := .waiting }) = _
    rw [hget, modify_concat, Option.map_some, Option.getD_some, List.take_length]
  rwa [hnext] at hsend

theorem reachable_reply (hcmd : Command cmd) (hfits : Fits status cmd)
    (h : system.Reachable ⟨cmd, down, none, clients⟩) :
    system.Reachable ⟨[], down ++ answer status cmd, none, clients⟩ := by
  have hlen := hfits.1
  have hreceive := h.next (S := system) (e := .receive) ⟨rfl, hcmd.ne_nil⟩
  have hserving : system.next ⟨cmd, down, none, clients⟩ .receive = ⟨[], down, some cmd, clients⟩ := by
    change Pipes.mk (cmd.drop bufSize) down (some (cmd.take bufSize)) clients = _
    rw [List.drop_eq_nil_of_le hlen, List.take_of_length_le hlen]
  rw [hserving] at hreceive
  have hreply := hreceive.next (S := system) (e := .reply status (answer status cmd).length)
    ⟨cmd, rfl, fun hne => written_length hne down⟩
  have hdown : system.next ⟨[], down, some cmd, clients⟩ (.reply status (answer status cmd).length) =
      ⟨[], down ++ answer status cmd, none, clients⟩ := by
    change Pipes.mk [] (down ++ (answer status cmd).take (answer status cmd).length) none clients = _
    rw [List.take_length]
  rwa [hdown] at hreply

/-- With an answer left over, the next process prints it, and leaves its own. -/
theorem reachable_shift {prev : Bytes} (hprev : Command prev) (hprevFits : Fits status prev) (hcmd : Command cmd)
    (hfits : Fits status cmd) (h : system.Reachable ⟨[], answer status prev, none, clients⟩) :
    system.Reachable ⟨[], answer status cmd, none, clients ++ [⟨cmd, .printed (cStr (answer status prev))⟩]⟩ := by
  have hlen := hprevFits.2
  have hsend := reachable_send hcmd h
  rw [List.nil_append] at hsend
  have hget : (clients ++ [(⟨cmd, .waiting⟩ : Client)])[clients.length]? = some ⟨cmd, .waiting⟩ :=
    List.getElem?_concat_length
  have hprint := hsend.next (S := system) (e := .print clients.length) ⟨_, hget, rfl, answer_ne_nil hprev status⟩
  have hnext : system.next ⟨cmd, answer status prev, none, clients ++ [⟨cmd, .waiting⟩]⟩ (.print clients.length) =
      ⟨cmd, [], none, clients ++ [⟨cmd, .printed (cStr (answer status prev))⟩]⟩ := by
    change Pipes.mk cmd ((answer status prev).drop bufSize) none ((clients ++ [Client.mk cmd .waiting]).modify
      clients.length fun c => { c with phase := readPhase ((answer status prev).take bufSize) }) = _
    rw [modify_concat, List.drop_eq_nil_of_le hlen.le, List.take_of_length_le hlen.le, readPhase_answer hlen]
  rw [hnext] at hprint
  exact reachable_reply hcmd hfits hprint

/-- **One answer too late** shifts all that follow. -/
theorem exists_shifted {first : Bytes} (hfirst : Command first) (hfirstFits : Fits status first) {cmds : List Bytes}
    (hcmds : ∀ c ∈ cmds, Command c ∧ Fits status c) (h : system.Reachable ⟨[], answer status first, none, clients⟩) :
    ∃ s, system.Reachable s ∧ s.clients = clients ++
      (cmds.zip (first :: cmds)).map fun p => ⟨p.1, .printed (cStr (answer status p.2))⟩ := by
  induction cmds generalizing first clients with
  | nil => exact ⟨_, h, (List.append_nil _).symm⟩
  | cons cmd cmds ih =>
    obtain ⟨hcmd, hfits⟩ := hcmds cmd List.mem_cons_self
    have hshift := reachable_shift hfirst hfirstFits hcmd hfits h
    obtain ⟨s, hs, hclients⟩ := ih hcmd hfits (fun c hc => hcmds c (List.mem_cons_of_mem _ hc)) hshift
    refine ⟨s, hs, ?_⟩
    rw [hclients, List.append_assoc]
    rfl

/-- The first process gives up before the server answers. -/
theorem exists_late (hcmd : Command cmd) (hfits : Fits status cmd) :
    system.Reachable ⟨[], answer status cmd, none, [⟨cmd, .timedOut⟩]⟩ := by
  have hsend := reachable_send hcmd System.Reachable.init
  have htimeOut := hsend.next (S := system) (e := .timeOut 0) ⟨⟨cmd, .waiting⟩, rfl, Or.inr ⟨rfl, rfl⟩⟩
  exact reachable_reply hcmd hfits htimeOut

end Runs

/-! ## Commands that are read together -/

/-- Behind a command without an argument, another one makes it unknown. -/
theorem answer_append {a : Bytes} (ha : a ∈ plainCommands) {b : Bytes} (hb : b ≠ []) (status : Status) :
    answer status (a ++ b) = [] := by
  have hdistinct : ∀ a ∈ plainCommands, ∀ x ∈ plainCommands, a <+: x → a = x := by decide
  have hstart : ∀ a ∈ plainCommands, ¬ ccmdStss <+: a ∧ ¬ ccmdSpss <+: a ∧ ccmdStss.length ≤ a.length ∧
      ccmdSpss.length ≤ a.length := by decide
  have hne (x : Bytes) (hx : x ∈ plainCommands) : a ++ b ≠ x := fun heq => by
    obtain rfl := hdistinct a ha x hx (heq ▸ List.prefix_append a b)
    exact hb (List.append_right_eq_self.mp heq)
  obtain ⟨hstss, hspss, hlen, hlen'⟩ := hstart a ha
  have hnostss : ¬ strStartsWith (a ++ b) ccmdStss = true := fun h =>
    hstss (List.prefix_of_prefix_length_le (List.isPrefixOf_iff_prefix.mp h) (List.prefix_append a b) hlen)
  have hnospss : ¬ strStartsWith (a ++ b) ccmdSpss = true := fun h =>
    hspss (List.prefix_of_prefix_length_le (List.isPrefixOf_iff_prefix.mp h) (List.prefix_append a b) hlen')
  rw [answer, handle, if_neg (hne _ (by decide)), if_neg hnostss, if_neg hnospss, if_neg (hne _ (by decide)),
    if_neg (hne _ (by decide)), if_neg (hne _ (by decide)), if_neg (hne _ (by decide))]

/-- Two processes that both wait, with nothing under way. -/
theorem exists_lost {a b : Bytes} (ha : a ∈ plainCommands) (hb : Command b) (hlen : (a ++ b).length ≤ bufSize) :
    system.Reachable ⟨[], [], none, [⟨a, .waiting⟩, ⟨b, .waiting⟩]⟩ := by
  have hfirst := reachable_send (Or.inl ha) System.Reachable.init
  have hsecond := reachable_send hb hfirst
  have hreceive := hsecond.next (S := system) (e := .receive) ⟨rfl, List.append_ne_nil_of_right_ne_nil _ hb.ne_nil⟩
  have hserving : system.next ⟨a ++ b, [], none, [⟨a, .waiting⟩, ⟨b, .waiting⟩]⟩ .receive =
      ⟨[], [], some (a ++ b), [⟨a, .waiting⟩, ⟨b, .waiting⟩]⟩ := by
    change Pipes.mk ((a ++ b).drop bufSize) [] (some ((a ++ b).take bufSize)) _ = _
    rw [List.drop_eq_nil_of_le hlen, List.take_of_length_le hlen]
  have hreply := (hserving ▸ hreceive).next (S := system) (e := .reply ⟨0, []⟩ 0)
    ⟨a ++ b, rfl, fun hne => absurd (answer_append ha hb.ne_nil _) hne⟩
  have hnext : system.next ⟨[], [], some (a ++ b), [⟨a, .waiting⟩, ⟨b, .waiting⟩]⟩ (.reply ⟨0, []⟩ 0) =
      ⟨[], [], none, [⟨a, .waiting⟩, ⟨b, .waiting⟩]⟩ := rfl
  rwa [hnext] at hreply

/-- Where nothing is under way, nothing is printed until another command is sent. -/
theorem nothing_printed {s s' : Pipes} {es : List PipeEvent} (hup : s.up = []) (hdown : s.down = [])
    (hserving : s.serving = none) (hclients : ∀ c ∈ s.clients, Silent c) (hsend : ∀ i n, .send i n ∉ es)
    (hrun : system.Run s es s') : ∀ c ∈ s'.clients, Silent c := by
  have hmain : s'.up = [] ∧ s'.down = [] ∧ s'.serving = none ∧ ∀ c ∈ s'.clients, Silent c := by
    induction hrun with
    | nil => exact ⟨hup, hdown, hserving, hclients⟩
    | @snoc s₁ es e hrun he ih =>
      obtain ⟨hup₁, hdown₁, hserving₁, hclients₁⟩ := ih fun i n h => hsend i n (List.mem_append_left _ h)
      cases e with
      | start cmd =>
        refine ⟨hup₁, hdown₁, hserving₁, fun c hc => ?_⟩
        rcases List.mem_append.mp hc with hc | hc
        · exact hclients₁ c hc
        · obtain rfl := List.mem_singleton.mp hc
          exact silent_of (Or.inl rfl)
      | send i n => exact absurd (by simp) (hsend i n)
      | receive => exact absurd hup₁ he.2
      | reply status n =>
        obtain ⟨str, hstr, -⟩ := he
        rw [hserving₁] at hstr
        cases hstr
      | print i =>
        obtain ⟨-, -, -, hne⟩ := he
        exact absurd hdown₁ hne
      | timeOut i =>
        refine ⟨hup₁, hdown₁, hserving₁, fun c hc => ?_⟩
        rcases mem_goOn hc with hc | ⟨c', -, rfl⟩
        · exact hclients₁ c hc
        · exact silent_of (Or.inr (Or.inr rfl))
  exact hmain.2.2.2

/-! ## What processes print -/

/-- **Commands over the pipes**, in any order of what the processes and the server do.  As long as each command is sent
when nothing else is under way, what a process prints is the answer to its own command.  One answer that comes too late
can shift all that follow, so that each process prints the answer to the command before its own.  A plain command that
is read with another one behind it stays without an answer, and so does the other one. -/
theorem interaction_runs :
    (∀ s, (system.restrict OneAtATime).Reachable s → ∀ c ∈ s.clients, Right c) ∧
    (∀ status first cmds, (∀ c ∈ first :: cmds, Command c ∧ Fits status c) →
      ∃ s, system.Reachable s ∧ s.clients =
        ⟨first, .timedOut⟩ :: (cmds.zip (first :: cmds)).map fun p => ⟨p.1, .printed (cStr (answer status p.2))⟩) ∧
    ∀ a ∈ plainCommands, ∀ b, Command b → (a ++ b).length ≤ bufSize →
      ∃ s, system.Reachable s ∧ s.clients = [⟨a, .waiting⟩, ⟨b, .waiting⟩] ∧
        ∀ es s', (∀ i n, .send i n ∉ es) → system.Run s es s' → ∀ c ∈ s'.clients, Silent c := by
  refine ⟨fun s hs c hc => ?_, fun status first cmds hcmds => ?_, fun a ha b hb hlen => ?_⟩
  · have hquiet : Quiet system.init := ⟨rfl, rfl, rfl, fun c hc => absurd hc List.not_mem_nil⟩
    have hstart : Orderly system.init := ⟨fun c hc => absurd hc List.not_mem_nil, Or.inl hquiet⟩
    have horderly : Orderly s := System.Reachable.inv (S := system.restrict OneAtATime) (P := Orderly) hstart
      (fun s e h (he : Enabled s e ∧ OneAtATime s e) => h.next he.1 he.2) hs
    exact horderly.right c hc
  · obtain ⟨hfirst, hfits⟩ := hcmds first List.mem_cons_self
    exact exists_shifted hfirst hfits (fun c hc => hcmds c (List.mem_cons_of_mem _ hc)) (exists_late hfirst hfits)
  · refine ⟨_, exists_lost ha hb hlen, rfl, fun es s' hsend hrun => nothing_printed rfl rfl rfl ?_ hsend hrun⟩
    intro c hc
    rcases List.mem_cons.mp hc with rfl | hc
    · exact silent_of (Or.inr (Or.inl rfl))
    · obtain rfl := List.mem_singleton.mp hc
      exact silent_of (Or.inr (Or.inl rfl))

end Gts3.Cmdline.Interaction
