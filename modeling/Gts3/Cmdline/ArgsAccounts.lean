import Gts3.Cmdline.ArgsReading

/-!
# What becomes of each argument

When `parsing` returns, an argument is an option, the value of one, or reported once, except for a bundle with a letter
that is no option: that is reported and gives the options of its other letters, or is reported twice
(`accountsFor_iff`).  The set of `parsing` keeps the groups apart from each other and the reported texts from each
other, but not the groups from the texts, nor the letters of one bundle (`rejectsRepetitions_iff`).
-/

namespace Gts3.Cmdline

open Lib Lib.Cxx

/-! ## The turns of a list -/

namespace ArgsParser

variable (p : ArgsParser)

/-- What a turn does is read from its argument, and it has a value where it takes one. -/
theorem turn_spec {argc : ℕ} {args : List Bytes} {t : Turn} (h : t ∈ p.turns argc args) :
    ∃ next, t.toReading = p.read argc t.arg next ∧ (t.toReading.ending = .value → t.value = next) ∧
      (t.toReading.ending ≠ .value → t.value = none) := by
  induction args using p.turns_induction argc with
  | nil => cases h
  | value arg v rest hending ih =>
    rw [p.turns_of_value hending] at h
    rcases List.mem_cons.mp h with rfl | h
    · exact ⟨some v, rfl, fun _ => rfl, fun hne => absurd hending hne⟩
    · exact ih h
  | single arg rest hending ih =>
    rw [p.turns_of_ne hending] at h
    rcases List.mem_cons.mp h with rfl | h
    · exact ⟨rest.head?, rfl, fun heq => absurd heq hending, fun _ => rfl⟩
    · exact ih h

/-- The turns are the arguments one after the other. -/
theorem flatMap_turns (argc : ℕ) (args : List Bytes) : (p.turns argc args).flatMap Turn.args = args := by
  induction args using p.turns_induction argc with
  | nil => rfl
  | value arg v rest hending ih =>
    rw [p.turns_of_value hending, List.flatMap_cons, ih]
    rfl
  | single arg rest hending ih =>
    rw [p.turns_of_ne hending, List.flatMap_cons, ih]
    rfl

end ArgsParser

theorem reached_of_firstStop {ts : List Turn} (h : firstStop ts = none) : reached ts = ts := by
  induction ts with
  | nil => rfl
  | cons t ts ih =>
    have hstop := List.findSome?_eq_none_iff.mp h
    rw [reached, hstop t List.mem_cons_self, if_neg (by simp)]
    exact congrArg _ (ih (List.findSome?_eq_none_iff.mpr fun u hu => hstop u (List.mem_cons_of_mem _ hu)))

theorem ArgsParser.parsing_eq_ok {p : ArgsParser} {argv other : List Bytes} {out : UMap Bytes Bytes × List Bytes}
    (h : p.parsing argv other = .ok out) :
    firstStop (p.turns argv.length argv.tail) = none ∧
      (checks ((p.turns argv.length argv.tail).flatMap Turn.events)).Nodup ∧
        out = (emplaceAll .empty (options ((p.turns argv.length argv.tail).flatMap Turn.events)),
          other ++ texts ((p.turns argv.length argv.tail).flatMap Turn.events)) := by
  rw [parsing_eq] at h
  split_ifs at h with hnodup
  cases hstop : firstStop (p.turns argv.length argv.tail) with
  | some e =>
    rw [hstop] at h
    cases h
  | none =>
    rw [hstop] at h
    rw [script, reached_of_firstStop hstop] at h hnodup
    exact ⟨rfl, hnodup, (Except.ok.inj h).symm⟩

/-! ## Arguments accounted for -/

namespace ArgsParser

variable (p : ArgsParser)

/-- The argument is an option: a spelling, or a spelling of a group with the value behind `=`. -/
def IsOption (arg : Bytes) : Prop :=
  p.registered arg = true ∨ ∃ name value, arg = name ++ 61 :: value ∧ 61 ∉ name ∧ (p.group.find? name).isSome = true

/-- The argument is a bundle, and all of its letters are options. -/
def IsBundle (arg : Bytes) : Prop :=
  ∃ cs : Bytes, arg = 45 :: cs ∧ 2 ≤ cs.length ∧ (∀ c ∈ cs, isLetter c = true) ∧
    ∀ c ∈ cs, p.registered (dash c) = true

/-- The argument is a bundle, is not registered, and has a letter that the loop does not know: one before the last that
is no flag, or a last one that is no option at all. -/
def IsStray (arg : Bytes) : Prop :=
  p.registered arg = false ∧ ∃ cs : Bytes, ∃ c, arg = 45 :: (cs ++ [c]) ∧ cs ≠ [] ∧
    (∀ d ∈ cs ++ [c], isLetter d = true) ∧ ((∃ d ∈ cs, p.flag.find? (dash d) = none) ∨ p.registered (dash c) = false)

/-- The arguments of the turn are an option, with its value, or one that is reported once and nothing else. -/
def Accounted (t : Turn) : Prop :=
  ((p.IsOption t.arg ∨ p.IsBundle t.arg) ∧ (∀ v ∈ t.value, ∃ iden, (iden, v) ∈ options t.events) ∧
    texts t.events = []) ∨
    (t.value = none ∧ texts t.events = [t.arg] ∧ options t.events = [])

end ArgsParser

/-- Every argument is accounted for once in what `parsing` returns. -/
structure AccountsFor (p : ArgsParser) (argc : ℕ) (args other : List Bytes) (out : UMap Bytes Bytes × List Bytes) :
    Prop where
  partition : (p.turns argc args).flatMap Turn.args = args
  result : out.1 = emplaceAll .empty ((p.turns argc args).flatMap fun t => options t.events)
  other : out.2 = other ++ (p.turns argc args).flatMap fun t => texts t.events
  once : ((p.turns argc args).flatMap fun t => texts t.events).Nodup
  accounted : ∀ t ∈ p.turns argc args, p.Accounted t

theorem length_events (es : List Event) : (options es).length + (texts es).length = es.length := by
  induction es with
  | nil => rfl
  | cons e es ih =>
    cases e with
    | emplace group iden value =>
      simp only [options, texts, List.filterMap_cons, Event.option?, Event.text?, List.length_cons] at ih ⊢
      omega
    | report arg | surplus arg =>
      simp only [options, texts, List.filterMap_cons, Event.option?, Event.text?, List.length_cons] at ih ⊢
      omega

/-- Texts that are all recorded are among the recorded strings. -/
theorem texts_sublist_checks {es : List Event} (h : ∀ a, .surplus a ∉ es) : (texts es).Sublist (checks es) := by
  induction es with
  | nil => exact List.Sublist.slnil
  | cons e es ih =>
    have ih := ih fun a ha => h a (List.mem_cons_of_mem _ ha)
    cases e with
    | emplace group iden value => exact ih.cons _
    | report arg => exact ih.cons_cons _
    | surplus arg => exact absurd List.mem_cons_self (h arg)

namespace ArgsParser

variable {p : ArgsParser}

/-- A group whose turn does not end the program has its value. -/
theorem valueReading_of_stop? {es : List Event} {info : ArgInfo} {next : Option Bytes}
    (h : (p.valueReading es info next).ending.stop? = none) :
    ∃ v, next = some v ∧ p.valueReading es info next = ⟨es ++ [.emplace info.group info.iden v], .value⟩ := by
  rcases p.valueReading_cases es info next with hmissing | ⟨v, hnext, -, hv⟩
  · rw [hmissing] at h
    cases h
  · exact ⟨v, hnext, hv⟩

/-- The letters of a bundle before the last, when all of them are flags. -/
theorem letterEvents_of_flags (arg : Bytes) {cs : Bytes} (h : ∀ c ∈ cs, (p.flag.find? (dash c)).isSome = true) :
    texts (cs.map (p.letterEvent arg)) = [] ∧ ∀ a, .surplus a ∉ cs.map (p.letterEvent arg) := by
  induction cs with
  | nil => exact ⟨rfl, fun a ha => nomatch ha⟩
  | cons c cs ih =>
    obtain ⟨htexts, hsurplus⟩ := ih fun d hd => h d (List.mem_cons_of_mem _ hd)
    obtain ⟨info, hinfo⟩ := Option.isSome_iff_exists.mp (h c List.mem_cons_self)
    rw [List.map_cons, letterEvent, hinfo]
    exact ⟨htexts, fun a ha => hsurplus a (by simpa using ha)⟩

/-- The letters of a bundle that is no stray one are options. -/
theorem bundle_of_not_stray {arg cs : Bytes} {c : UInt8} (harg : arg = 45 :: (cs ++ [c])) (hne : cs ≠ [])
    (hletter : ∀ d ∈ cs ++ [c], isLetter d = true) (hreg : p.registered arg = false) (hstray : ¬p.IsStray arg) :
    (∀ d ∈ cs, (p.flag.find? (dash d)).isSome = true) ∧ p.registered (dash c) = true ∧ p.IsBundle arg := by
  have hflags (d : UInt8) (hd : d ∈ cs) : (p.flag.find? (dash d)).isSome = true := by
    by_contra hnot
    exact hstray ⟨hreg, cs, c, harg, hne, hletter, Or.inl ⟨d, hd, by simpa using hnot⟩⟩
  have hlast : p.registered (dash c) = true := by
    by_contra hnot
    exact hstray ⟨hreg, cs, c, harg, hne, hletter, Or.inr (by simpa using hnot)⟩
  refine ⟨hflags, hlast, cs ++ [c], harg, ?_, hletter, fun d hd => ?_⟩
  · have := List.length_pos_of_ne_nil hne
    rw [List.length_append, List.length_singleton]
    omega
  · rcases List.mem_append.mp hd with hd | hd
    · rw [registered, hflags d hd, Bool.or_true]
    · rwa [List.mem_singleton.mp hd]

/-- An argument that is no stray bundle is accounted for in its turn, and its texts are recorded. -/
theorem accounted_of_not_stray {argc : ℕ} {args : List Bytes} {t : Turn} (ht : t ∈ p.turns argc args)
    (hstop : t.stop? = none) (hstray : ¬p.IsStray t.arg) : p.Accounted t ∧ ∀ a, .surplus a ∉ t.events := by
  obtain ⟨arg, value, r⟩ := t
  obtain ⟨next, hr, hvalue, hnone⟩ := p.turn_spec ht
  have hspec := p.formOf_spec argc arg
  -- a group behind the effects `es`, with its value
  have hgroup {es : List Event} {info : ArgInfo} (hr : r = p.valueReading es info next) :
      (∀ v ∈ value, ∃ iden, (iden, v) ∈ options r.events) ∧
        ∃ v, r = ⟨es ++ [.emplace info.group info.iden v], .value⟩ := by
    obtain ⟨v, rfl, hv⟩ := valueReading_of_stop? (hr ▸ hstop)
    obtain rfl := hr.trans hv
    obtain rfl := hvalue rfl
    refine ⟨fun w hw => ⟨info.iden, ?_⟩, v, rfl⟩
    rw [options_append, Option.mem_some_iff.mp hw]
    exact List.mem_append_right _ (List.mem_singleton_self _)
  simp only [Turn.stop?, Turn.events] at hr hvalue hnone hstop hstray ⊢
  rw [read] at hr
  cases hform : p.formOf argc arg with
  | stop e =>
    rw [hform] at hr
    rw [hr] at hstop
    cases hstop
  | group info =>
    rw [hform] at hr hspec
    obtain ⟨hoption, v, rfl⟩ := hgroup hr
    refine ⟨Or.inl ⟨Or.inl (Or.inl ?_), hoption, rfl⟩, by simp⟩
    rw [registered, show p.group.find? arg = some info from hspec]
    rfl
  | single info v =>
    rw [hform] at hr hspec
    obtain rfl : r = ⟨[.emplace info.group info.iden v], .done⟩ := hr
    obtain rfl := hnone Ending.noConfusion
    refine ⟨Or.inl ⟨Or.inl ?_, fun v hv => absurd hv (Option.not_mem_none v), rfl⟩, by simp⟩
    rcases hspec with hflag | ⟨name, harg, hname, hgroup⟩
    · exact Or.inl (by rw [registered, hflag]; exact Bool.or_true _)
    · exact Or.inr ⟨name, v, harg, hname, by rw [hgroup]; rfl⟩
  | positional =>
    rw [hform] at hr
    obtain rfl : r = ⟨[.report arg], .done⟩ := hr
    exact ⟨Or.inr ⟨hnone Ending.noConfusion, rfl, rfl⟩, by simp⟩
  | bundle cs c =>
    rw [hform] at hr hspec
    obtain ⟨harg, hne, hletter, hreg⟩ := hspec
    obtain ⟨hflags, hlast, hbundle⟩ := bundle_of_not_stray harg hne hletter hreg hstray
    obtain ⟨htexts, hsurplus⟩ := letterEvents_of_flags arg hflags
    have hevents (info : ArgInfo) (v : Bytes) :
        texts (cs.map (p.letterEvent arg) ++ [.emplace info.group info.iden v]) = [] ∧
          ∀ a, .surplus a ∉ cs.map (p.letterEvent arg) ++ [Event.emplace info.group info.iden v] := by
      refine ⟨by rw [texts_append, htexts]; rfl, fun a ha => ?_⟩
      rcases List.mem_append.mp ha with ha | ha
      · exact hsurplus a ha
      · exact Event.noConfusion (List.mem_singleton.mp ha)
    rw [reading] at hr
    cases hflag : p.flag.find? (dash c) with
    | some info =>
      rw [hflag] at hr
      obtain rfl := hr
      obtain rfl := hnone Ending.noConfusion
      refine ⟨Or.inl ⟨Or.inr hbundle, fun v hv => absurd hv (Option.not_mem_none v), ?_⟩, ?_⟩
      · exact (hevents info info.iden).1
      · exact (hevents info info.iden).2
    | none =>
      obtain ⟨info, hinfo⟩ : ∃ info, p.group.find? (dash c) = some info := by
        rw [registered, hflag] at hlast
        exact Option.isSome_iff_exists.mp (by simpa using hlast)
      rw [hflag, hinfo] at hr
      obtain ⟨hoption, v, rfl⟩ := hgroup hr
      exact ⟨Or.inl ⟨Or.inr hbundle, hoption, (hevents info v).1⟩, (hevents info v).2⟩

theorem not_accounted_of_stray {argc : ℕ} {args : List Bytes} {t : Turn} (ht : t ∈ p.turns argc args)
    (hstop : t.stop? = none) (hstray : p.IsStray t.arg) : ¬p.Accounted t := by
  obtain ⟨arg, value, r⟩ := t
  obtain ⟨next, hr, hvalue, hnone⟩ := p.turn_spec ht
  obtain ⟨hreg, cs, c, rfl, hne, hletter, hunknown⟩ := hstray
  simp only [Turn.stop?] at hr hstop
  rw [read, formOf_bundle hne hletter hreg, reading] at hr
  generalize harg : (45 :: (cs ++ [c]) : Bytes) = arg at *
  have hevents : ∃ e, r.events = cs.map (p.letterEvent arg) ++ [e] ∧
      (p.registered (dash c) = false → e = .surplus arg) := by
    cases hflag : p.flag.find? (dash c) with
    | some info =>
      rw [hflag] at hr
      refine ⟨.emplace info.group info.iden info.iden, by rw [hr], fun hreg => ?_⟩
      rw [registered, hflag, Option.isSome_some, Bool.or_true] at hreg
      cases hreg
    | none =>
      cases hgroup : p.group.find? (dash c) with
      | some info =>
        rw [hflag, hgroup] at hr
        obtain ⟨v, -, hv⟩ := valueReading_of_stop? (hr ▸ hstop)
        refine ⟨.emplace info.group info.iden v, by rw [hr.trans hv], fun hreg => ?_⟩
        rw [registered, hgroup, Option.isSome_some, Bool.true_or] at hreg
        cases hreg
      | none =>
        rw [hflag, hgroup] at hr
        exact ⟨.surplus arg, by rw [hr], fun _ => rfl⟩
  obtain ⟨e, he, hsurplus⟩ := hevents
  -- the letter that is not known leaves a text
  have htext : ∃ x ∈ r.events, Event.text? x = some arg := by
    rcases hunknown with ⟨d, hd, hnone⟩ | hreg
    · refine ⟨.report arg, ?_, rfl⟩
      rw [he]
      exact List.mem_append_left _ (List.mem_map.mpr ⟨d, hd, by rw [letterEvent, hnone]⟩)
    · refine ⟨.surplus arg, ?_, rfl⟩
      rw [he, hsurplus hreg]
      exact List.mem_append_right _ (List.mem_singleton_self _)
  have hmem : arg ∈ texts r.events := List.mem_filterMap.mpr htext
  have hcs := List.length_pos_of_ne_nil hne
  have hlen := length_events r.events
  rintro (⟨-, -, htexts⟩ | ⟨-, htexts, hoptions⟩)
  · exact List.ne_nil_of_mem hmem htexts
  · rw [show texts r.events = [arg] from htexts, show options r.events = [] from hoptions, he] at hlen
    simp only [List.length_nil, List.length_append, List.length_map, List.length_singleton] at hlen
    omega

end ArgsParser

/-- When `parsing` returns, it accounts for every argument exactly if none of those that are not values is a stray
bundle. -/
theorem accountsFor_iff {p : ArgsParser} {program : Bytes} {args other : List Bytes}
    {out : UMap Bytes Bytes × List Bytes} (h : p.parsing (program :: args) other = .ok out) :
    AccountsFor p (args.length + 1) args other out ↔ ∀ t ∈ p.turns (args.length + 1) args, ¬p.IsStray t.arg := by
  obtain ⟨hstop, hnodup, hout⟩ := ArgsParser.parsing_eq_ok h
  rw [List.tail_cons, List.length_cons] at hstop hnodup hout
  have hstops (t : Turn) (ht : t ∈ p.turns (args.length + 1) args) : t.stop? = none :=
    List.findSome?_eq_none_iff.mp hstop t ht
  constructor
  · exact fun hacc t ht hstray => ArgsParser.not_accounted_of_stray ht (hstops t ht) hstray (hacc.accounted t ht)
  · intro hstray
    have hacc (t : Turn) (ht : t ∈ p.turns (args.length + 1) args) :=
      ArgsParser.accounted_of_not_stray ht (hstops t ht) (hstray t ht)
    have hsurplus (a : Bytes) : Event.surplus a ∉ (p.turns (args.length + 1) args).flatMap Turn.events := by
      intro ha
      obtain ⟨t, ht, hat⟩ := List.mem_flatMap.mp ha
      exact (hacc t ht).2 a hat
    have htexts := hnodup.sublist (texts_sublist_checks hsurplus)
    rw [options, List.filterMap_flatMap, texts, List.filterMap_flatMap] at hout
    rw [texts, List.filterMap_flatMap] at htexts
    exact ⟨p.flatMap_turns _ args, by rw [hout]; rfl, by rw [hout]; rfl, htexts, fun t ht => (hacc t ht).1⟩

/-- One flag. -/
def oneFlag : ArgsParser := parserOf 0 [] [.addFlag (lit "-a") [] []]

theorem accountsFor_oneFlag :
    AccountsFor oneFlag 3 [lit "-a", lit "x"] [] (emplaceAll .empty [(lit "-a", lit "-a")], [lit "x"]) := by
  have hparsing : oneFlag.parsing [lit "server", lit "-a", lit "x"] [] =
      .ok (emplaceAll .empty [(lit "-a", lit "-a")], [lit "x"]) := by
    decide
  have hlen : ∀ t ∈ oneFlag.turns 3 [lit "-a", lit "x"], t.arg.length ≤ 2 := by decide
  refine (accountsFor_iff hparsing).mpr fun t ht => ?_
  rintro ⟨-, cs, c, harg, hne, -⟩
  have hle := hlen t ht
  have hpos := List.length_pos_of_ne_nil hne
  rw [harg, List.length_cons, List.length_append, List.length_singleton] at hle
  omega

/-- The bundle is reported, and it gives the option. -/
theorem not_accountsFor_oneFlag : ∃ out, oneFlag.parsing [lit "server", lit "-ab"] [] = .ok out ∧
    ¬AccountsFor oneFlag 2 [lit "-ab"] [] out := by
  refine ⟨(emplaceAll .empty [(lit "-a", lit "-a")], [lit "-ab"]), by decide, fun h => ?_⟩
  have hmem : (⟨lit "-ab", none, ⟨[.emplace (lit "0") (lit "-a") (lit "-a"), .surplus (lit "-ab")], .done⟩⟩ : Turn) ∈
      oneFlag.turns 2 [lit "-ab"] := by
    decide
  refine ArgsParser.not_accounted_of_stray hmem rfl ⟨by decide, [97], 98, ?_⟩ (h.accounted _ hmem)
  exact ⟨by decide, by decide, by decide, Or.inr (by decide)⟩

/-! ## Repetitions -/

/-- The group of an option. -/
def Event.group? : Event → Option Bytes
  | emplace group _ _ => some group
  | _ => none

/-- The text that is recorded. -/
def Event.report? : Event → Option Bytes
  | report arg => some arg
  | _ => none

/-- The groups of the options. -/
def groups (es : List Event) : List Bytes := es.filterMap Event.group?

/-- The texts that are recorded. -/
def reports (es : List Event) : List Bytes := es.filterMap Event.report?

namespace Turn

/-- The groups that the turn names, the one without its value as well. -/
def named (t : Turn) : List Bytes :=
  groups t.events ++ match t.toReading.ending with
    | .missing group => [group]
    | _ => []

/-- The argument is reported. -/
def isPositional (t : Turn) : Bool := !(texts t.events).isEmpty

end Turn

/-- The groups that the arguments name. -/
def namedGroups (ts : List Turn) : List Bytes := ts.flatMap Turn.named

/-- The arguments that are reported. -/
def positionals (ts : List Turn) : List Bytes := (ts.filter Turn.isPositional).map Turn.arg

/-- A reported text is what the group of an option is called, or one bundle has two letters before its last that are no
flags. -/
def Collides (ts : List Turn) : Prop :=
  (∃ x ∈ reports (ts.flatMap Turn.events), x ∈ groups (ts.flatMap Turn.events)) ∨
    ∃ t ∈ ts, 2 ≤ (reports t.events).length

/-- Arguments without repetitions are not rejected for one, and arguments that name a group twice are rejected: as a
repetition, when the program does not end before. -/
def RejectsRepetitions (p : ArgsParser) (program : Bytes) (args other : List Bytes) : Prop :=
  ((namedGroups (p.turns (args.length + 1) args)).Nodup → (positionals (p.turns (args.length + 1) args)).Nodup →
      p.parsing (program :: args) other ≠ .error .duplicate) ∧
    (¬(namedGroups (p.turns (args.length + 1) args)).Nodup →
      ∃ e, p.parsing (program :: args) other = .error e ∧ e.status = -1) ∧
    (¬(groups (script (p.turns (args.length + 1) args))).Nodup → p.parsing (program :: args) other = .error .duplicate)

/-- The recorded strings are the groups and the recorded texts. -/
theorem checks_perm (es : List Event) : (checks es).Perm (groups es ++ reports es) := by
  induction es with
  | nil => exact List.Perm.nil
  | cons e es ih =>
    cases e with
    | emplace group iden value => exact ih.cons group
    | report arg => exact (ih.cons arg).trans List.perm_middle.symm
    | surplus arg => exact ih

theorem reached_isPrefix (ts : List Turn) : reached ts <+: ts := by
  induction ts with
  | nil => exact List.prefix_rfl
  | cons t ts ih =>
    rw [reached]
    split_ifs
    · exact ⟨ts, rfl⟩
    · exact List.cons_prefix_cons.mpr ⟨rfl, ih⟩

namespace ArgsParser

variable {p : ArgsParser}

/-- The built-in options do not end the program as repetitions do, and among others they end it with an error. -/
theorem builtIn_error {argc : ℕ} {arg : Bytes} {e : Exit} (h : p.builtIn argc arg = .error e) :
    e ≠ .duplicate ∧ (2 < argc → e.status = -1) := by
  rw [builtIn] at h
  split_ifs at h <;> cases h
  all_goals
    refine ⟨by simp [printVersion, printV, printHelp], fun hargc => ?_⟩
    first
      | rfl
      | contradiction

/-- A turn that ends the program as the argument of a built-in option does nothing else. -/
theorem read_exit {argc : ℕ} {arg : Bytes} {next : Option Bytes} {e : Exit}
    (h : (p.read argc arg next).ending = .exit e) :
    p.builtIn argc arg = .error e ∧ p.read argc arg next = ⟨[], .exit e⟩ := by
  rcases p.read_cases argc arg with ⟨e', hb, hread⟩ | ⟨es, -, ⟨info, hread⟩ | hread⟩
  · rw [hread] at h
    obtain rfl := Ending.exit.inj h
    exact ⟨hb, hread next⟩
  · rcases p.valueReading_cases es info next with hmissing | ⟨v, -, -, hv⟩
    · rw [hread, hmissing] at h
      cases h
    · rw [hread, hv] at h
      cases h
  · rw [hread] at h
    cases h

theorem stop?_spec {argc : ℕ} {args : List Bytes} {t : Turn} (ht : t ∈ p.turns argc args) {e : Exit}
    (hstop : t.stop? = some e) : e ≠ .duplicate ∧ (2 < argc ∨ t.named ≠ [] → e.status = -1) := by
  obtain ⟨next, hr, -⟩ := p.turn_spec ht
  rw [Turn.stop?] at hstop
  cases hending : t.toReading.ending with
  | done | value =>
    rw [hending] at hstop
    cases hstop
  | missing group =>
    rw [hending] at hstop
    obtain rfl := Option.some.inj hstop
    exact ⟨Exit.noConfusion, fun _ => rfl⟩
  | exit e' =>
    rw [hending] at hstop
    obtain rfl := Option.some.inj hstop
    obtain ⟨hb, hread⟩ := read_exit (hr ▸ hending)
    refine ⟨(builtIn_error hb).1, fun h => (builtIn_error hb).2 (h.resolve_right ?_)⟩
    rw [Turn.named, Turn.events, hr, hread]
    exact not_not.mpr rfl

theorem firstStop_spec {argc : ℕ} {args : List Bytes} {e : Exit} (h : firstStop (p.turns argc args) = some e) :
    ∃ t ∈ p.turns argc args, t.stop? = some e :=
  List.exists_of_findSome?_eq_some h

/-- `parsing` rejects the arguments for a repetition when it comes to record a string twice. -/
theorem parsing_eq_duplicate_iff (argv other : List Bytes) :
    p.parsing argv other = .error .duplicate ↔ ¬(checks (script (p.turns argv.length argv.tail))).Nodup := by
  rw [parsing_eq]
  split_ifs with hnodup
  · refine iff_of_false ?_ (not_not.mpr hnodup)
    cases hstop : firstStop (p.turns argv.length argv.tail) with
    | none => simp
    | some e =>
      obtain ⟨t, ht, hte⟩ := firstStop_spec hstop
      exact fun h => (stop?_spec ht hte).1 (Except.error.inj h)
  · exact iff_of_true rfl hnodup

/-- What an argument does: options, and reports of itself. -/
theorem mem_read {argc : ℕ} {arg : Bytes} {next : Option Bytes} {e : Event} (he : e ∈ (p.read argc arg next).events) :
    e.Of arg := by
  rcases p.read_cases argc arg with ⟨e', -, hread⟩ | ⟨es, hes, ⟨info, hread⟩ | hread⟩
  · rw [hread] at he
    cases he
  · rcases p.valueReading_cases es info next with hmissing | ⟨v, -, -, hv⟩
    · rw [hread, hmissing] at he
      exact hes e he
    · rw [hread, hv] at he
      exact (List.mem_append.mp he).elim (hes e) fun h => Or.inl ⟨_, _, _, List.mem_singleton.mp h⟩
  · rw [hread] at he
    exact hes e he

/-- The texts that a turn records are its argument. -/
theorem reports_eq {argc : ℕ} {args : List Bytes} {t : Turn} (ht : t ∈ p.turns argc args) :
    ∀ x ∈ reports t.events, x = t.arg := by
  intro x hx
  obtain ⟨next, hr, -⟩ := p.turn_spec ht
  obtain ⟨e, he, hex⟩ := List.mem_filterMap.mp hx
  rw [Turn.events, hr] at he
  rcases mem_read he with ⟨group, iden, value, rfl⟩ | rfl | rfl
  · cases hex
  · exact (Option.some.inj hex).symm
  · cases hex

end ArgsParser

theorem reports_append (es es' : List Event) : reports (es ++ es') = reports es ++ reports es' := List.filterMap_append

theorem reports_sublist_texts (es : List Event) : (reports es).Sublist (texts es) := by
  induction es with
  | nil => exact List.Sublist.slnil
  | cons e es ih =>
    cases e with
    | emplace group iden value => exact ih
    | report arg => exact ih.cons_cons _
    | surplus arg => exact ih.cons _

/-- Turns that record their arguments once each record the arguments that are reported. -/
theorem reports_sublist {ts : List Turn} (harg : ∀ t ∈ ts, ∀ x ∈ reports t.events, x = t.arg)
    (honce : ∀ t ∈ ts, (reports t.events).length ≤ 1) :
    (reports (ts.flatMap Turn.events)).Sublist (positionals ts) := by
  induction ts with
  | nil => exact List.Sublist.slnil
  | cons t ts ih =>
    have ih := ih (fun u hu => harg u (List.mem_cons_of_mem _ hu)) (fun u hu => honce u (List.mem_cons_of_mem _ hu))
    rw [List.flatMap_cons, reports_append, positionals, List.filter_cons]
    cases hreports : reports t.events with
    | nil =>
      split_ifs
      · exact ih.cons _
      · exact ih
    | cons x xs =>
      have hlen := honce t List.mem_cons_self
      obtain rfl := harg t List.mem_cons_self x (by rw [hreports]; exact List.mem_cons_self)
      rw [hreports, List.length_cons] at hlen
      obtain rfl : xs = [] := List.length_eq_zero_iff.mp (by omega)
      have hmem : t.arg ∈ texts t.events :=
        (reports_sublist_texts _).subset (by rw [hreports]; exact List.mem_cons_self)
      rw [if_pos (by simpa [Turn.isPositional] using List.ne_nil_of_mem hmem)]
      exact ih.cons_cons _

/-- Among different groups and different reported arguments, a string is recorded twice when they collide. -/
theorem nodup_checks_iff {ts : List Turn} (harg : ∀ t ∈ ts, ∀ x ∈ reports t.events, x = t.arg)
    (hgroups : (groups (ts.flatMap Turn.events)).Nodup) (hpositionals : (positionals ts).Nodup) :
    (checks (ts.flatMap Turn.events)).Nodup ↔ ¬Collides ts := by
  rw [(checks_perm _).nodup_iff, List.nodup_append]
  constructor
  · rintro ⟨-, hreports, hdisjoint⟩ (⟨x, hx, hgroup⟩ | ⟨t, ht, htwo⟩)
    · exact hdisjoint x hgroup x hx rfl
    · -- the two recorded texts of the turn are both its argument
      obtain ⟨us, vs, rfl⟩ := List.append_of_mem ht
      rw [List.flatMap_append, List.flatMap_cons, reports_append, reports_append] at hreports
      have hown := (List.nodup_append.mp (List.nodup_append.mp hreports).2.1).1
      rw [List.eq_replicate_of_mem (harg t ht), List.nodup_replicate] at hown
      omega
  · intro hcollides
    have honce (t : Turn) (ht : t ∈ ts) : (reports t.events).length ≤ 1 := by
      by_contra hlt
      exact hcollides (Or.inr ⟨t, ht, by omega⟩)
    refine ⟨hgroups, hpositionals.sublist (reports_sublist harg honce), fun x hx y hy hxy => ?_⟩
    exact hcollides (Or.inl ⟨x, hxy ▸ hy, hx⟩)

/-- The groups of the options that are read are among the named ones. -/
theorem groups_sublist (ts : List Turn) : (groups (script ts)).Sublist (namedGroups ts) := by
  have hnamed (us : List Turn) : (groups (us.flatMap Turn.events)).Sublist (namedGroups us) := by
    induction us with
    | nil => exact List.Sublist.slnil
    | cons u us ih =>
      rw [List.flatMap_cons, groups, List.filterMap_append, namedGroups, List.flatMap_cons]
      exact (List.sublist_append_left _ _).append ih
  obtain ⟨us, hus⟩ := reached_isPrefix ts
  conv_rhs => rw [← hus, namedGroups, List.flatMap_append]
  exact (hnamed _).trans (List.sublist_append_left _ _)

theorem namedGroups_of_firstStop {ts : List Turn} (h : firstStop ts = none) :
    namedGroups ts = groups (ts.flatMap Turn.events) := by
  rw [namedGroups, groups, List.filterMap_flatMap]
  refine List.flatMap_congr fun t ht => ?_
  have hstop := List.findSome?_eq_none_iff.mp h t ht
  rw [Turn.stop?] at hstop
  rw [Turn.named]
  cases hending : t.toReading.ending with
  | done | value => exact List.append_nil _
  | missing group | exit e =>
    rw [hending] at hstop
    cases hstop

/-- Arguments that name a group twice are rejected with an error. -/
theorem rejected_of_named {p : ArgsParser} (program : Bytes) {args : List Bytes} (other : List Bytes)
    (h : ¬(namedGroups (p.turns (args.length + 1) args)).Nodup) :
    ∃ e, p.parsing (program :: args) other = .error e ∧ e.status = -1 := by
  rw [ArgsParser.parsing_eq, List.tail_cons, List.length_cons]
  split_ifs with hnodup
  · cases hstop : firstStop (p.turns (args.length + 1) args) with
    | none =>
      rw [script, reached_of_firstStop hstop] at hnodup
      rw [namedGroups_of_firstStop hstop] at h
      exact absurd (List.nodup_append.mp ((checks_perm _).nodup_iff.mp hnodup)).1 h
    | some e =>
      obtain ⟨t, ht, hte⟩ := ArgsParser.firstStop_spec hstop
      refine ⟨e, rfl, (ArgsParser.stop?_spec ht hte).2 ?_⟩
      -- one argument alone that names nothing does not name a group twice
      by_contra hnot
      rw [not_or, not_not] at hnot
      obtain ⟨hargc, hnamed⟩ := hnot
      rcases args with _ | ⟨arg, _ | ⟨arg', args⟩⟩
      · cases ht
      · have hone : p.turns 2 [arg] = [t] := by
          have hlen : (p.turns 2 [arg]).length = 1 := by
            rw [ArgsParser.turns.eq_def]
            dsimp only
            split_ifs <;> rfl
          obtain ⟨u, hu⟩ := List.length_eq_one_iff.mp hlen
          rw [List.length_singleton, hu] at ht
          rw [hu, List.mem_singleton.mp ht]
        rw [List.length_singleton, hone, namedGroups, List.flatMap_singleton, hnamed] at h
        exact h List.nodup_nil
      · simp at hargc
  · exact ⟨.duplicate, rfl, rfl⟩

/-- Lists without repetitions are rejected for one exactly when a string of those read before the end of the program
collides with another. -/
theorem rejectsRepetitions_iff (p : ArgsParser) (program : Bytes) (args other : List Bytes) :
    RejectsRepetitions p program args other ↔
      ¬((namedGroups (p.turns (args.length + 1) args)).Nodup ∧ (positionals (p.turns (args.length + 1) args)).Nodup ∧
        Collides (reached (p.turns (args.length + 1) args))) := by
  have hdup := p.parsing_eq_duplicate_iff (program :: args) other
  rw [List.tail_cons, List.length_cons] at hdup
  set ts := p.turns (args.length + 1) args with hts
  have hsub : (reached ts).Sublist ts := (reached_isPrefix ts).sublist
  have hcollides (hg : (namedGroups ts).Nodup) (hp : (positionals ts).Nodup) :
      (checks (script ts)).Nodup ↔ ¬Collides (reached ts) :=
    nodup_checks_iff (fun t ht => ArgsParser.reports_eq (hsub.subset ht)) (hg.sublist (groups_sublist ts))
      (hp.sublist ((hsub.filter _).map _))
  constructor
  · rintro ⟨hreject, -⟩ ⟨hg, hp, hc⟩
    exact hreject hg hp (hdup.mpr fun hnodup => (hcollides hg hp).mp hnodup hc)
  · intro hnot
    refine ⟨fun hg hp hd => hnot ⟨hg, hp, ?_⟩, rejected_of_named program other, fun hg => ?_⟩
    · by_contra hc
      exact hdup.mp hd ((hcollides hg hp).mpr hc)
    · exact hdup.mpr fun hnodup => hg (List.nodup_append.mp ((checks_perm _).nodup_iff.mp hnodup)).1

/-- The argument `0` is taken for the number of the first option. -/
theorem not_rejectsRepetitions_oneFlag : ¬RejectsRepetitions oneFlag (lit "server") [lit "-a", lit "0"] [] :=
  fun h => h.1 (by decide) (by decide) (by decide)

/-- So is a bundle of three unknown letters, which is recorded once for each of the first two. -/
example : oneFlag.parsing [lit "server", lit "-xyz"] [] = .error .duplicate := by decide

end Gts3.Cmdline
