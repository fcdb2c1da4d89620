import Gts3.Cmdline.ArgsParser

/-!
# How a list of arguments is read

What an argument is depends on the rules and on the argument behind it only.  The turns of a list are its arguments with
what each of them does: the options that it gives, the texts that it reports, and whether the program ends there.
`parsing` does what the turns say, up to the first that ends the program, unless one of the strings that it records on
the way is recorded twice (`parsing_eq`).
-/

namespace Gts3.Cmdline

open Lib Lib.Cxx

/-- One effect of an argument. -/
inductive Event
  | emplace (group iden value : Bytes)
  | report (arg : Bytes)
  /-- A text for `other` that is not recorded. -/
  | surplus (arg : Bytes)
  deriving DecidableEq

namespace Event

/-- The string that is recorded. -/
def check? : Event → Option Bytes
  | emplace group _ _ => some group
  | report arg => some arg
  | surplus _ => none

/-- The entry for the result. -/
def option? : Event → Option (Bytes × Bytes)
  | emplace _ iden value => some (iden, value)
  | _ => none

/-- The text for `other`. -/
def text? : Event → Option Bytes
  | emplace _ _ _ => none
  | report arg => some arg
  | surplus arg => some arg

/-- An option, or the argument itself. -/
def Of (arg : Bytes) (e : Event) : Prop :=
  (∃ group iden value, e = emplace group iden value) ∨ e = report arg ∨ e = surplus arg

/-- The effect on the variables of `parsing`. -/
def apply (s : ParseState) : Event → Except Exit ParseState
  | emplace group iden value => s.option group iden value
  | report arg => s.positional arg
  | surplus arg => .ok (s.surplus arg)

end Event

/-- What the loop does behind the effects of an argument. -/
inductive Ending
  | done
  /-- The next argument is taken as the value. -/
  | value
  /-- The group has no value. -/
  | missing (group : Bytes)
  | exit (e : Exit)
  deriving DecidableEq

/-- The end of the program. -/
def Ending.stop? : Ending → Option Exit
  | done => none
  | value => none
  | missing _ => some .invalidArguments
  | exit e => some e

/-- What an argument does. -/
structure Reading where
  events : List Event
  ending : Ending
  deriving DecidableEq

/-- The kinds of arguments. -/
inductive Form
  | stop (e : Exit)
  | group (info : ArgInfo)
  /-- A flag, or a group with its value in the argument. -/
  | single (info : ArgInfo) (value : Bytes)
  | positional
  | bundle (letters : Bytes) (last : UInt8)

namespace ArgsParser

/-- The kind of an argument. -/
def formOf (p : ArgsParser) (argc : ℕ) (arg : Bytes) : Form :=
  match p.builtIn argc arg with
  | .error e => .stop e
  | .ok () =>
    match p.group.find? arg, p.flag.find? arg with
    | some info, _ => .group info
    | none, some info => .single info info.iden
    | none, none =>
      if arg.length ≤ 2 then .positional
      else
        match arg.idxOf? 61 with
        | some pos =>
          match p.group.find? (arg.take pos) with
          | none => .positional
          | some info => .single info (arg.drop (pos + 1))
        | none =>
          if arg.head? = some 45 ∧ arg.tail.all isLetter = true then .bundle arg.tail.dropLast (arg.getLastD 0)
          else .positional

/-- A group behind the effects `events`. -/
def valueReading (p : ArgsParser) (events : List Event) (info : ArgInfo) (next : Option Bytes) : Reading :=
  match next with
  | none => ⟨events, .missing info.group⟩
  | some value =>
    if p.registered value then ⟨events, .missing info.group⟩
    else ⟨events ++ [.emplace info.group info.iden value], .value⟩

/-- A letter of the bundle `arg` before the last. -/
def letterEvent (p : ArgsParser) (arg : Bytes) (c : UInt8) : Event :=
  match p.flag.find? (dash c) with
  | none => .report arg
  | some info => .emplace info.group info.iden info.iden

/-- What an argument of a kind does, with the one behind it. -/
def reading (p : ArgsParser) (arg : Bytes) (next : Option Bytes) : Form → Reading
  | .stop e => ⟨[], .exit e⟩
  | .group info => p.valueReading [] info next
  | .single info value => ⟨[.emplace info.group info.iden value], .done⟩
  | .positional => ⟨[.report arg], .done⟩
  | .bundle letters last =>
    let events := letters.map (p.letterEvent arg)
    match p.flag.find? (dash last) with
    | some info => ⟨events ++ [.emplace info.group info.iden info.iden], .done⟩
    | none =>
      match p.group.find? (dash last) with
      | some info => p.valueReading events info next
      | none => ⟨events ++ [.surplus arg], .done⟩

/-- What an argument does. -/
def read (p : ArgsParser) (argc : ℕ) (arg : Bytes) (next : Option Bytes) : Reading :=
  p.reading arg next (p.formOf argc arg)

end ArgsParser

/-- An argument with its value and what it does. -/
structure Turn where
  arg : Bytes
  value : Option Bytes
  toReading : Reading
  deriving DecidableEq

namespace Turn

abbrev events (t : Turn) : List Event := t.toReading.events

abbrev stop? (t : Turn) : Option Exit := t.toReading.ending.stop?

/-- The arguments of the turn. -/
def args (t : Turn) : List Bytes := t.arg :: t.value.toList

/-- The effects one after the other, and the end of the program behind them. -/
def run (s : ParseState) (t : Turn) : Except Exit ParseState := do
  let s ← t.events.foldlM Event.apply s
  match t.stop? with
  | some e => .error e
  | none => .ok s

end Turn

/-- The turns of a list of arguments, those behind the end of the program as well. -/
def ArgsParser.turns (p : ArgsParser) (argc : ℕ) : List Bytes → List Turn
  | [] => []
  | arg :: rest =>
    let r := p.read argc arg rest.head?
    if r.ending = .value then
      match rest with
      | [] => [⟨arg, none, r⟩]
      | value :: rest => ⟨arg, some value, r⟩ :: p.turns argc rest
    else ⟨arg, none, r⟩ :: p.turns argc rest

/-- The turns up to the one that ends the program. -/
def reached : List Turn → List Turn
  | [] => []
  | t :: ts => if t.stop?.isSome then [t] else t :: reached ts

/-- The effects up to the end of the program. -/
def script (ts : List Turn) : List Event := (reached ts).flatMap Turn.events

/-- The first end of the program. -/
def firstStop (ts : List Turn) : Option Exit := ts.findSome? Turn.stop?

/-! ## The kinds of arguments -/

namespace ArgsParser

variable (p : ArgsParser)

/-- One of the options that `parsing` knows without a rule. -/
def IsBuiltIn (arg : Bytes) : Prop :=
  arg = lit "--version" ∨ arg = lit "--help" ∨ (arg = lit "-v" ∧ p.v ≠ []) ∨ (arg = lit "-h" ∧ p.h = true)

instance (arg : Bytes) : Decidable (p.IsBuiltIn arg) :=
  inferInstanceAs (Decidable (_ ∨ _ ∨ (_ ∧ _) ∨ (_ ∧ _)))

variable {p}

theorem builtIn_of_not {arg : Bytes} (h1 : arg ≠ lit "-") (h2 : arg ≠ lit "--") (h : ¬p.IsBuiltIn arg) (argc : ℕ) :
    p.builtIn argc arg = .ok () := by
  simp only [IsBuiltIn, not_or, not_and, not_not, Bool.not_eq_true] at h
  obtain ⟨hversion, hhelp, hv, hh⟩ := h
  rw [builtIn, if_neg (not_or.mpr ⟨h1, h2⟩), if_neg hversion]
  by_cases hargv : arg = lit "-v"
  · rw [if_pos hargv, if_neg (not_not.mpr (hv hargv))]
  · rw [if_neg hargv, if_neg hhelp]
    by_cases hargh : arg = lit "-h"
    · simp [hh hargh]
    · rw [if_neg hargh]

theorem find?_of_not_registered {arg : Bytes} (h : p.registered arg = false) :
    p.group.find? arg = none ∧ p.flag.find? arg = none := by
  simpa [registered] using h

/-- An argument of at least three bytes that is not registered is none of the built-in options of one dash. -/
theorem builtIn_of_length {arg : Bytes} (hlen : 2 < arg.length) (hversion : arg ≠ lit "--version")
    (hhelp : arg ≠ lit "--help") (argc : ℕ) : p.builtIn argc arg = .ok () := by
  have hne {s : Bytes} (hs : s.length ≤ 2) : arg ≠ s := fun h => absurd (h ▸ hlen) (not_lt.mpr hs)
  refine builtIn_of_not (hne (by decide)) (hne (by decide)) ?_ argc
  rintro (h | h | ⟨h, -⟩ | ⟨h, -⟩)
  · exact hversion h
  · exact hhelp h
  · exact hne (by decide) h
  · exact hne (by decide) h

theorem formOf_bundle {cs : Bytes} {c : UInt8} (hne : cs ≠ []) (hletter : ∀ d ∈ cs ++ [c], isLetter d = true)
    (hreg : p.registered (45 :: (cs ++ [c])) = false) (argc : ℕ) :
    p.formOf argc (45 :: (cs ++ [c])) = .bundle cs c := by
  have hlen : 2 < (45 :: (cs ++ [c]) : Bytes).length := by
    have := List.length_pos_of_ne_nil hne
    simp only [List.length_cons, List.length_append, List.length_nil]
    omega
  have hdash : (45 : UInt8) ∉ cs ++ [c] := fun h => absurd (hletter 45 h) (by decide)
  have hequal : (61 : UInt8) ∉ 45 :: (cs ++ [c]) := by
    rw [List.mem_cons, not_or]
    exact ⟨by decide, fun h => absurd (hletter 61 h) (by decide)⟩
  have hb : p.builtIn argc (45 :: (cs ++ [c])) = .ok () := by
    refine builtIn_of_length hlen ?_ ?_ argc
    · exact fun h => hdash (by rw [(List.cons.inj h).2]; decide)
    · exact fun h => hdash (by rw [(List.cons.inj h).2]; decide)
  obtain ⟨hgroup, hflag⟩ := find?_of_not_registered hreg
  rw [formOf, hb]
  simp only [hgroup, hflag]
  rw [if_neg (by omega), List.idxOf?_eq_none_iff.mpr hequal]
  dsimp only
  rw [if_pos ⟨List.head?_cons, List.all_eq_true.mpr hletter⟩, List.tail_cons, List.dropLast_concat, ← List.cons_append,
    List.getLastD_concat]

theorem formOf_spec (argc : ℕ) (arg : Bytes) :
    match p.formOf argc arg with
    | .stop e => p.builtIn argc arg = .error e
    | .group info => p.group.find? arg = some info
    | .single info value => p.flag.find? arg = some info ∨
        ∃ name, arg = name ++ 61 :: value ∧ 61 ∉ name ∧ p.group.find? name = some info
    | .positional => True
    | .bundle cs c => arg = 45 :: (cs ++ [c]) ∧ cs ≠ [] ∧ (∀ d ∈ cs ++ [c], isLetter d = true) ∧
        p.registered arg = false := by
  rw [formOf]
  cases hb : p.builtIn argc arg with
  | error e => rfl
  | ok u =>
    cases hgroup : p.group.find? arg with
    | some info => exact rfl
    | none =>
      cases hflag : p.flag.find? arg with
      | some info => exact Or.inl rfl
      | none =>
        dsimp only
        by_cases hlen : arg.length ≤ 2
        · rw [if_pos hlen]
          trivial
        · rw [if_neg hlen]
          cases hpos : arg.idxOf? 61 with
          | some pos =>
            cases hname : p.group.find? (arg.take pos) with
            | none => simp [hname]
            | some info =>
              obtain ⟨hlt, heq, hbefore⟩ := List.idxOf?_eq_some_iff.mp hpos
              simp only [hname]
              refine Or.inr ⟨arg.take pos, ?_, ?_, hname⟩
              · rw [← heq, ← List.drop_eq_getElem_cons hlt, List.take_append_drop]
              · rw [List.mem_take_iff_getElem]
                rintro ⟨j, hj, hj61⟩
                exact hbefore j (by omega) hj61
          | none =>
            dsimp only
            by_cases hbundle : arg.head? = some 45 ∧ arg.tail.all isLetter = true
            · rw [if_pos hbundle]
              obtain ⟨tl, rfl⟩ := List.head?_eq_some_iff.mp hbundle.1
              have htl : tl ≠ [] := List.ne_nil_of_length_pos (by rw [List.length_cons] at hlen; omega)
              have hlast : tl.dropLast ++ [(45 :: tl).getLastD 0] = tl := by
                rw [List.getLastD_eq_getLast?, List.getLast?_cons_of_ne_nil htl, List.getLast?_eq_some_getLast htl,
                  Option.getD_some, List.dropLast_append_getLast]
              dsimp only [List.tail_cons]
              rw [hlast]
              refine ⟨rfl, ?_, List.all_eq_true.mp hbundle.2, by rw [registered, hgroup, hflag]; rfl⟩
              exact List.ne_nil_of_length_pos (by rw [List.length_dropLast]; rw [List.length_cons] at hlen; omega)
            · rw [if_neg hbundle]
              trivial

end ArgsParser

/-! ## The loop does what the turns say -/

/-- The effects one after the other, and whether the next argument is taken. -/
def Reading.finish (r : Reading) (s : ParseState) : Except Exit (ParseState × Bool) := do
  let s ← r.events.foldlM Event.apply s
  match r.ending.stop? with
  | some e => .error e
  | none => .ok (s, decide (r.ending = .value))

theorem foldlM_append_single (es : List Event) (e : Event) (s : ParseState) :
    (es ++ [e]).foldlM Event.apply s = (do e.apply (← es.foldlM Event.apply s)) := by
  rw [List.foldlM_append]
  refine congrArg _ (funext fun s => ?_)
  rw [List.foldlM_cons]
  cases e.apply s with
  | error e => rfl
  | ok s => rfl

theorem finish_single (e : Event) (s : ParseState) :
    Reading.finish ⟨[e], .done⟩ s = (do .ok (← e.apply s, false)) := by
  rw [Reading.finish, List.foldlM_cons]
  cases e.apply s with
  | error e => rfl
  | ok s => rfl

namespace ArgsParser

variable (p : ArgsParser)

theorem positional_eq (arg : Bytes) (next : Option Bytes) (s : ParseState) :
    (do .ok (← s.positional arg, false)) = (p.reading arg next .positional).finish s :=
  (finish_single (.report arg) s).symm

theorem single_eq (arg : Bytes) (info : ArgInfo) (value : Bytes) (next : Option Bytes) (s : ParseState) :
    (do .ok (← s.option info.group info.iden value, false)) = (p.reading arg next (.single info value)).finish s :=
  (finish_single (.emplace info.group info.iden value) s).symm

theorem groupValue_eq (es : List Event) (info : ArgInfo) (next : Option Bytes) (s : ParseState) :
    (do p.groupValue info next (← es.foldlM Event.apply s)) = (p.valueReading es info next).finish s := by
  cases next with
  | none => rfl
  | some value =>
    simp only [groupValue, valueReading]
    by_cases hvalue : p.registered value = true
    · simp only [if_pos hvalue]
      rfl
    · simp only [if_neg hvalue, Reading.finish, foldlM_append_single]
      cases es.foldlM Event.apply s with
      | error e => rfl
      | ok s => rfl

theorem bundleLetters_eq (arg cs : Bytes) (s : ParseState) :
    p.bundleLetters arg cs s = (cs.map (p.letterEvent arg)).foldlM Event.apply s := by
  induction cs generalizing s with
  | nil => rfl
  | cons c cs ih =>
    rw [bundleLetters, List.map_cons, List.foldlM_cons, letterEvent]
    simp only [ih]
    cases p.flag.find? (dash c) with
    | none => rfl
    | some info => rfl

theorem bundle_eq (arg cs : Bytes) (c : UInt8) (next : Option Bytes) (s : ParseState) :
    (do p.bundleLast arg c next (← p.bundleLetters arg cs s)) = (p.reading arg next (.bundle cs c)).finish s := by
  rw [bundleLetters_eq, reading]
  cases hflag : p.flag.find? (dash c) with
  | some info =>
    simp only [bundleLast, hflag, Reading.finish, foldlM_append_single]
    cases (cs.map (p.letterEvent arg)).foldlM Event.apply s with
    | error e => rfl
    | ok s => rfl
  | none =>
    cases hgroup : p.group.find? (dash c) with
    | some info =>
      simp only [bundleLast, hflag, hgroup]
      exact p.groupValue_eq _ info next s
    | none =>
      simp only [bundleLast, hflag, hgroup, Reading.finish, foldlM_append_single]
      cases (cs.map (p.letterEvent arg)).foldlM Event.apply s with
      | error e => rfl
      | ok s => rfl

/-- The body of the loop does what the argument is read as. -/
theorem turn_eq (argc : ℕ) (arg : Bytes) (next : Option Bytes) (s : ParseState) :
    p.turn argc arg next s = (p.read argc arg next).finish s := by
  rw [turn, read, formOf]
  cases p.builtIn argc arg with
  | error e => rfl
  | ok u =>
    rw [ok_bind]
    cases p.group.find? arg with
    | some info => exact p.groupValue_eq [] info next s
    | none =>
      cases p.flag.find? arg with
      | some info => exact p.single_eq arg info _ next s
      | none =>
        dsimp only
        by_cases hlen : arg.length ≤ 2
        · rw [if_pos hlen, if_pos hlen]
          exact p.positional_eq arg next s
        · rw [if_neg hlen, if_neg hlen]
          cases arg.idxOf? 61 with
          | some pos =>
            dsimp only
            cases p.group.find? (arg.take pos) with
            | some info => exact p.single_eq arg info _ next s
            | none => exact p.positional_eq arg next s
          | none =>
            dsimp only
            by_cases hhead : arg.head? = some 45
            · simp only [hhead, ne_eq, not_true_eq_false, if_false, true_and]
              cases arg.tail.all isLetter with
              | true => exact p.bundle_eq arg _ _ next s
              | false => exact p.positional_eq arg next s
            · simp only [hhead, ne_eq, not_false_eq_true, if_true, false_and, if_false]
              exact p.positional_eq arg next s

/-- A group takes the argument behind it for its value, unless that is registered or there is none. -/
theorem valueReading_cases (es : List Event) (info : ArgInfo) (next : Option Bytes) :
    p.valueReading es info next = ⟨es, .missing info.group⟩ ∨
      ∃ v, next = some v ∧ p.registered v = false ∧
        p.valueReading es info next = ⟨es ++ [.emplace info.group info.iden v], .value⟩ := by
  cases next with
  | none => exact Or.inl rfl
  | some v =>
    cases hv : p.registered v with
    | true => exact Or.inl (if_pos hv)
    | false => exact Or.inr ⟨v, rfl, hv, if_neg (by simp [hv])⟩

theorem letterEvent_of (arg : Bytes) (c : UInt8) : (p.letterEvent arg c).Of arg := by
  rw [letterEvent]
  cases p.flag.find? (dash c) with
  | none => exact Or.inr (Or.inl rfl)
  | some info => exact Or.inl ⟨_, _, _, rfl⟩

/-- **What an argument does**, whatever stands behind it: it ends the program, or it has effects of its own, and is a
group that waits for its value or is done. -/
theorem read_cases (argc : ℕ) (arg : Bytes) :
    (∃ e, p.builtIn argc arg = .error e ∧ ∀ next, p.read argc arg next = ⟨[], .exit e⟩) ∨
      ∃ es, (∀ e ∈ es, e.Of arg) ∧
        ((∃ info, ∀ next, p.read argc arg next = p.valueReading es info next) ∨
          ∀ next, p.read argc arg next = ⟨es, .done⟩) := by
  have hspec := p.formOf_spec argc arg
  simp only [read]
  cases hform : p.formOf argc arg with
  | stop e =>
    rw [hform] at hspec
    exact Or.inl ⟨e, hspec, fun next => rfl⟩
  | group info => exact Or.inr ⟨[], fun e he => absurd he List.not_mem_nil, Or.inl ⟨info, fun next => rfl⟩⟩
  | single info value =>
    refine Or.inr ⟨[.emplace info.group info.iden value], fun e he => ?_, Or.inr fun next => rfl⟩
    exact Or.inl ⟨_, _, _, List.mem_singleton.mp he⟩
  | positional =>
    refine Or.inr ⟨[.report arg], fun e he => ?_, Or.inr fun next => rfl⟩
    exact Or.inr (Or.inl (List.mem_singleton.mp he))
  | bundle cs c =>
    have hletters : ∀ e ∈ cs.map (p.letterEvent arg), e.Of arg := by
      intro e he
      obtain ⟨d, -, rfl⟩ := List.mem_map.mp he
      exact p.letterEvent_of arg d
    have hlast (last : Event) (h : last.Of arg) : ∀ e ∈ cs.map (p.letterEvent arg) ++ [last], e.Of arg := by
      intro e he
      rcases List.mem_append.mp he with he | he
      · exact hletters e he
      · rwa [List.mem_singleton.mp he]
    simp only [reading]
    cases p.flag.find? (dash c) with
    | some info => exact Or.inr ⟨_, hlast _ (Or.inl ⟨_, _, _, rfl⟩), Or.inr fun next => rfl⟩
    | none =>
      cases p.group.find? (dash c) with
      | some info => exact Or.inr ⟨_, hletters, Or.inl ⟨info, fun next => rfl⟩⟩
      | none => exact Or.inr ⟨_, hlast _ (Or.inr (Or.inr rfl)), Or.inr fun next => rfl⟩

/-- An argument that takes a value has one behind it that is not registered. -/
theorem read_value {argc : ℕ} {arg : Bytes} {next : Option Bytes} (h : (p.read argc arg next).ending = .value) :
    ∃ v, next = some v ∧ p.registered v = false := by
  rcases p.read_cases argc arg with ⟨e, -, hread⟩ | ⟨es, -, ⟨info, hread⟩ | hread⟩
  · rw [hread] at h
    cases h
  · rcases p.valueReading_cases es info next with hmissing | ⟨v, hnext, hv, -⟩
    · rw [hread, hmissing] at h
      cases h
    · exact ⟨v, hnext, hv⟩
  · rw [hread] at h
    cases h

theorem turns_of_value {argc : ℕ} {arg v : Bytes} (h : (p.read argc arg (some v)).ending = .value) (rest : List Bytes) :
    p.turns argc (arg :: v :: rest) = ⟨arg, some v, p.read argc arg (some v)⟩ :: p.turns argc rest := by
  rw [turns.eq_def]
  exact if_pos h

theorem turns_of_ne {argc : ℕ} {arg : Bytes} {rest : List Bytes} (h : (p.read argc arg rest.head?).ending ≠ .value) :
    p.turns argc (arg :: rest) = ⟨arg, none, p.read argc arg rest.head?⟩ :: p.turns argc rest := by
  rw [turns.eq_def]
  exact if_neg h

/-- Induction along the turns. -/
theorem turns_induction (argc : ℕ) {motive : List Bytes → Prop} (nil : motive [])
    (value : ∀ arg v rest, (p.read argc arg (some v)).ending = .value → motive rest → motive (arg :: v :: rest))
    (single : ∀ arg rest, (p.read argc arg rest.head?).ending ≠ .value → motive rest → motive (arg :: rest))
    (args : List Bytes) : motive args := by
  induction args using turns.induct p argc with
  | case1 => exact nil
  | case2 arg r h =>
    obtain ⟨v, hv, -⟩ := p.read_value h
    cases hv
  | case3 arg v rest r h ih => exact value arg v rest h ih
  | case4 arg rest r h ih => exact single arg rest h ih

theorem parsingLoop_eq (argc : ℕ) (args : List Bytes) (s : ParseState) :
    p.parsingLoop argc args s = (p.turns argc args).foldlM Turn.run s := by
  induction args using p.turns_induction argc generalizing s with
  | nil => rfl
  | value arg v rest h ih =>
    rw [p.turns_of_value h, parsingLoop, turn_eq, List.head?_cons, List.foldlM_cons]
    simp only [Reading.finish, Turn.run, Turn.events, Turn.stop?, h, Ending.stop?]
    cases (p.read argc arg (some v)).events.foldlM Event.apply s with
    | error e => rfl
    | ok s => exact ih s
  | single arg rest h ih =>
    rw [p.turns_of_ne h, parsingLoop, turn_eq, List.foldlM_cons]
    simp only [Reading.finish, Turn.run, Turn.events, Turn.stop?, h]
    cases (p.read argc arg rest.head?).events.foldlM Event.apply s with
    | error e => rfl
    | ok s =>
      cases (p.read argc arg rest.head?).ending.stop? with
      | some e => rfl
      | none => exact ih s

end ArgsParser

/-! ## What is left behind the effects -/

/-- The strings that are recorded. -/
def checks (es : List Event) : List Bytes := es.filterMap Event.check?

/-- The entries for the result. -/
def options (es : List Event) : List (Bytes × Bytes) := es.filterMap Event.option?

/-- The texts for `other`. -/
def texts (es : List Event) : List Bytes := es.filterMap Event.text?

theorem checks_append (es es' : List Event) : checks (es ++ es') = checks es ++ checks es' := List.filterMap_append

theorem options_append (es es' : List Event) : options (es ++ es') = options es ++ options es' := List.filterMap_append

theorem texts_append (es es' : List Event) : texts (es ++ es') = texts es ++ texts es' := List.filterMap_append

/-- `m.emplace(iden, value)` for one entry after the other. -/
def emplaceAll (m : UMap Bytes Bytes) (entries : List (Bytes × Bytes)) : UMap Bytes Bytes :=
  entries.foldl (fun m e => m.emplace e.1 e.2) m

/-- `t` is what the effects `es` make of `s`. -/
structure After (s : ParseState) (es : List Event) (t : ParseState) : Prop where
  cache : t.cache.elems = s.cache.elems ++ checks es
  result : t.result = emplaceAll s.result (options es)
  other : t.other = s.other ++ texts es

theorem After.append {s t u : ParseState} {es es' : List Event} (h : After s es t) (h' : After t es' u) :
    After s (es ++ es') u where
  cache := by rw [h'.cache, h.cache, checks_append, List.append_assoc]
  result := by rw [h'.result, h.result, options_append, emplaceAll, emplaceAll, emplaceAll, List.foldl_append]
  other := by rw [h'.other, h.other, texts_append, List.append_assoc]

/-- Effects that came about recorded no string twice. -/
theorem After.nodup {s t : ParseState} {es : List Event} (h : After s es t) : (s.cache.elems ++ checks es).Nodup :=
  h.cache ▸ t.cache.nodup

/-- A recorded string is there already, or it is recorded. -/
theorem groupCheckDuplication_spec (cache : USet Bytes) (group : Bytes) :
    (groupCheckDuplication cache group = .error .duplicate ∧ group ∈ cache.elems) ∨
      ∃ cache', groupCheckDuplication cache group = .ok cache' ∧ cache'.elems = cache.elems ++ [group] := by
  rw [groupCheckDuplication]
  cases h : cache.emplace? group with
  | none => exact Or.inl ⟨rfl, USet.emplace?_eq_none_iff.mp h⟩
  | some cache' => exact Or.inr ⟨cache', rfl, USet.elems_of_emplace? h⟩

theorem apply_spec (e : Event) (s : ParseState) :
    (e.apply s = .error .duplicate ∧ ¬(s.cache.elems ++ checks [e]).Nodup) ∨ ∃ t, e.apply s = .ok t ∧
      After s [e] t := by
  cases e with
  | emplace group iden value =>
    rcases groupCheckDuplication_spec s.cache group with ⟨h, hmem⟩ | ⟨cache, h, hcache⟩
    · refine Or.inl ⟨by rw [Event.apply, ParseState.option, h, error_bind], fun hnodup => ?_⟩
      exact (List.nodup_append.mp hnodup).2.2 group hmem group (List.mem_singleton_self _) rfl
    · refine Or.inr ⟨{ s with cache := cache, result := s.result.emplace iden value }, ?_, hcache, rfl, ?_⟩
      · rw [Event.apply, ParseState.option, h, ok_bind]
      · exact (List.append_nil _).symm
  | report arg =>
    rcases groupCheckDuplication_spec s.cache arg with ⟨h, hmem⟩ | ⟨cache, h, hcache⟩
    · refine Or.inl ⟨by rw [Event.apply, ParseState.positional, h, error_bind], fun hnodup => ?_⟩
      exact (List.nodup_append.mp hnodup).2.2 arg hmem arg (List.mem_singleton_self _) rfl
    · refine Or.inr ⟨{ s with cache := cache, other := s.other ++ [arg] }, ?_, hcache, rfl, rfl⟩
      rw [Event.apply, ParseState.positional, h, ok_bind]
  | surplus arg => exact Or.inr ⟨s.surplus arg, rfl, (List.append_nil _).symm, rfl, rfl⟩

theorem not_nodup_append {l es es' : List Bytes} (h : ¬(l ++ es).Nodup) : ¬(l ++ (es ++ es')).Nodup := by
  rw [← List.append_assoc]
  exact fun hnodup => h (List.nodup_append.mp hnodup).1

/-- A list of effects stops at the first string that is recorded twice. -/
theorem events_spec (es : List Event) (s : ParseState) :
    (es.foldlM Event.apply s = .error .duplicate ∧ ¬(s.cache.elems ++ checks es).Nodup) ∨
      ∃ t, es.foldlM Event.apply s = .ok t ∧ After s es t := by
  induction es generalizing s with
  | nil => exact Or.inr ⟨s, rfl, (List.append_nil _).symm, rfl, (List.append_nil _).symm⟩
  | cons e es ih =>
    rw [List.foldlM_cons, ← List.singleton_append, checks_append]
    rcases apply_spec e s with ⟨he, hdup⟩ | ⟨t, he, ht⟩
    · exact Or.inl ⟨by rw [he, error_bind], not_nodup_append hdup⟩
    · rw [he, ok_bind]
      rcases ih t with ⟨hes, hdup⟩ | ⟨u, hes, hu⟩
      · exact Or.inl ⟨hes, by rwa [← List.append_assoc, ← ht.cache]⟩
      · exact Or.inr ⟨u, hes, ht.append hu⟩

theorem script_cons_of_stop {t : Turn} {e : Exit} (h : t.stop? = some e) (ts : List Turn) :
    script (t :: ts) = t.events ∧ firstStop (t :: ts) = some e := by
  simp [script, reached, firstStop, h]

theorem script_cons {t : Turn} (h : t.stop? = none) (ts : List Turn) :
    script (t :: ts) = t.events ++ script ts ∧ firstStop (t :: ts) = firstStop ts := by
  simp [script, reached, firstStop, h]

/-- The turns stop at the first string that is recorded twice, or where the first of them ends the program. -/
theorem turns_spec (ts : List Turn) (s : ParseState) :
    (ts.foldlM Turn.run s = .error .duplicate ∧ ¬(s.cache.elems ++ checks (script ts)).Nodup) ∨
      ∃ t, After s (script ts) t ∧
        ts.foldlM Turn.run s = match firstStop ts with
          | some e => .error e
          | none => .ok t := by
  induction ts generalizing s with
  | nil => exact Or.inr ⟨s, ⟨(List.append_nil _).symm, rfl, (List.append_nil _).symm⟩, rfl⟩
  | cons t ts ih =>
    rw [List.foldlM_cons, Turn.run]
    cases hstop : t.stop? with
    | some e =>
      rw [(script_cons_of_stop hstop ts).1, (script_cons_of_stop hstop ts).2]
      rcases events_spec t.events s with ⟨hrun, hdup⟩ | ⟨u, hrun, hu⟩
      · exact Or.inl ⟨by rw [hrun]; rfl, hdup⟩
      · exact Or.inr ⟨u, hu, by rw [hrun]; rfl⟩
    | none =>
      rw [(script_cons hstop ts).1, (script_cons hstop ts).2, checks_append]
      rcases events_spec t.events s with ⟨hrun, hdup⟩ | ⟨u, hrun, hu⟩
      · exact Or.inl ⟨by rw [hrun]; rfl, not_nodup_append hdup⟩
      · rw [hrun, ok_bind, ok_bind]
        rcases ih u with ⟨hrest, hdup⟩ | ⟨w, hw, hrest⟩
        · exact Or.inl ⟨hrest, by rwa [← List.append_assoc, ← hu.cache]⟩
        · exact Or.inr ⟨w, hu.append hw, hrest⟩

theorem ArgsParser.parsing_eq (p : ArgsParser) (argv other : List Bytes) :
    p.parsing argv other =
      if (checks (script (p.turns argv.length argv.tail))).Nodup then
        match firstStop (p.turns argv.length argv.tail) with
        | some e => .error e
        | none =>
          .ok (emplaceAll .empty (options (script (p.turns argv.length argv.tail))),
            other ++ texts (script (p.turns argv.length argv.tail)))
      else .error .duplicate := by
  rw [parsing, parsingLoop_eq]
  rcases turns_spec (p.turns argv.length argv.tail) { other := other } with ⟨hrun, hdup⟩ | ⟨t, ht, hrun⟩
  · rw [hrun, error_bind]
    exact (if_neg hdup).symm
  · have hnodup : (checks (script (p.turns argv.length argv.tail))).Nodup := ht.nodup
    rw [if_pos hnodup, hrun]
    cases firstStop (p.turns argv.length argv.tail) with
    | some e => rfl
    | none =>
      rw [ok_bind, ht.result, ht.other]

end Gts3.Cmdline
