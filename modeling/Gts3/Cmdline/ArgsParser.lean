import Gts3.Algorithm

/-!
# `gts/args_parser.cpp`

An `args_parser` keeps the spellings of its options in two maps, one for the options with a value (groups) and one for
the flags.  The spellings that one call of `add` registers share a number, printed from a counter of the whole process.
`parsing` goes through the arguments, and records the numbers of the options and the texts of the other arguments in
one set of strings: what is in the set already ends the program.
-/

namespace Gts3.Cmdline

open Lib Lib.Cxx

/-! ## The rules -/

/-- `arg_info`. -/
structure ArgInfo where
  group : Bytes
  iden : Bytes
  deriving DecidableEq

/-- `args_cache`: what is registered, by its spelling. -/
abbrev ArgsCache := UMap Bytes ArgInfo

/-- `args_parser_impl`. -/
structure ArgsParser where
  group : ArgsCache := .empty
  flag : ArgsCache := .empty
  version : Bytes := []
  v : Bytes := []
  helpTitle : Bytes := []
  help : Bytes := []
  helpEx : Bytes := []
  h : Bool := false

/-- `check(str)`: the bytes between the first and the last are printable, and neither `=` nor a backslash. -/
def check (str : Bytes) : Bool :=
  !str.isEmpty && str.tail.dropLast.all fun c => !(c < 33 || c == 61 || c == 92 || 126 < c)

/-- The body of the loop of `add`, for the spelling `arg`. -/
def addRule (i group : Bytes) (cache : ArgsCache) (arg : Bytes) : ArgsCache :=
  if !check arg || arg == lit "--" then cache
  else if arg.length = 1 then
    if arg ≠ lit "-" then cache.emplace arg ⟨group, if i.isEmpty then arg else i⟩ else cache
  else cache.emplace arg ⟨group, if i.isEmpty then arg else i⟩

/-- `std::to_string` of a `std::size_t`, as `sprintf` prints it with `%zu`. -/
def groupIden (id : ℕ) : Bytes := formatNat 10 id

namespace ArgsParser

/-- `add(cache, r, d, i)` on the map of the groups or that of the flags, with the value of `id_source`. -/
def add (p : ArgsParser) (isGroup : Bool) (idSource : ℕ) (r d i : Bytes) : Run (ℕ × ArgsParser) := do
  let args ← (← strSplit r [44] true).mapM strTrimmed
  let rules := args.foldl (addRule i (groupIden idSource)) (if isGroup then p.group else p.flag)
  let p := { p with help := p.help ++ lit "    " ++ r ++ lit " :\n        " ++ d ++ lit "\n\n" }
  .ok ((idSource + 1) % 2 ^ 64, if isGroup then { p with group := rules } else { p with flag := rules })

end ArgsParser

/-- The calls that make up a configuration.  The counter is one for all parsers of the process. -/
inductive Call
  | addGroup (r d i : Bytes)
  | addFlag (r d i : Bytes)
  | setVersion (d : Bytes)
  | setV (d : Bytes)
  | setHelpTitle (text : Bytes)
  | setHelpExtension (d : Bytes)
  | enableH
  | disableH
  /-- `add` of another parser. -/
  | elsewhere

/-- One call. -/
def Call.apply : Call → ℕ × ArgsParser → Run (ℕ × ArgsParser)
  | addGroup r d i, (n, p) => p.add true n r d i
  | addFlag r d i, (n, p) => p.add false n r d i
  | setVersion d, (n, p) => .ok (n, { p with version := d })
  | setV d, (n, p) => .ok (n, { p with v := d })
  | setHelpTitle text, (n, p) => .ok (n, { p with helpTitle := text })
  | setHelpExtension d, (n, p) => .ok (n, { p with helpEx := d })
  | enableH, (n, p) => .ok (n, { p with h := true })
  | disableH, (n, p) => .ok (n, { p with h := false })
  | elsewhere, (n, p) => .ok ((n + 1) % 2 ^ 64, p)

/-- A parser with the title `title` after the calls, when the counter stood at `n` before them. -/
def configure (n : ℕ) (title : Bytes) (calls : List Call) : Run (ℕ × ArgsParser) :=
  calls.foldlM (fun s c => c.apply s) (n, { helpTitle := title })

/-- The parser that the calls set up. -/
def parserOf (n : ℕ) (title : Bytes) (calls : List Call) : ArgsParser :=
  match configure n title calls with
  | .ok s => s.2
  | .error _ => {}

/-- The parsers that a program can set up. -/
def Configured (p : ArgsParser) : Prop := ∃ n title calls n', configure n title calls = .ok (n', p)

/-! ## What can be registered -/

/-- Every spelling has passed the tests of `add`. -/
def Proper (cache : ArgsCache) : Prop :=
  ∀ e ∈ cache.entries, check e.1 = true ∧ e.1 ≠ lit "-" ∧ e.1 ≠ lit "--"

theorem Proper.addRule {cache : ArgsCache} (h : Proper cache) (i group arg : Bytes) :
    Proper (addRule i group cache arg) := by
  rw [Cmdline.addRule]
  generalize (⟨group, if i.isEmpty then arg else i⟩ : ArgInfo) = info
  have hemplace (hc : check arg = true) (h1 : arg ≠ lit "-") (h2 : arg ≠ lit "--") :
      Proper (cache.emplace arg info) := by
    intro e he
    rcases UMap.mem_emplace he with he | rfl
    · exact h e he
    · exact ⟨hc, h1, h2⟩
  split_ifs with hskip hlen hne
  · exact h
  · simp only [Bool.or_eq_true, Bool.not_eq_true', beq_iff_eq, not_or, Bool.not_eq_false] at hskip
    exact hemplace hskip.1 hne hskip.2
  · exact h
  · simp only [Bool.or_eq_true, Bool.not_eq_true', beq_iff_eq, not_or, Bool.not_eq_false] at hskip
    exact hemplace hskip.1 (fun hdash => hlen (by rw [hdash]; rfl)) hskip.2

theorem Proper.foldl {cache : ArgsCache} (h : Proper cache) (i group : Bytes) (args : List Bytes) :
    Proper (args.foldl (Cmdline.addRule i group) cache) := by
  induction args generalizing cache with
  | nil => exact h
  | cons arg args ih => exact ih (h.addRule i group arg)

/-- `add` returns, and registers proper spellings in one of the maps. -/
theorem ArgsParser.add_spec (p : ArgsParser) (isGroup : Bool) (n : ℕ) (r d i : Bytes) :
    ∃ p', p.add isGroup n r d i = .ok ((n + 1) % 2 ^ 64, p') ∧
      (Proper p.group → Proper p.flag → Proper p'.group ∧ Proper p'.flag) := by
  have htrim (ts : List Bytes) : ts.mapM strTrimmed = (.ok (ts.map trimmed) : Run (List Bytes)) := by
    induction ts with
    | nil => rfl
    | cons t ts ih => simp [List.mapM_cons, strTrimmed_eq, ih]
  rw [add, strSplit_tokens, ok_bind, htrim, ok_bind]
  cases isGroup with
  | true => exact ⟨_, rfl, fun hg hf => ⟨hg.foldl _ _ _, hf⟩⟩
  | false => exact ⟨_, rfl, fun hg hf => ⟨hg, hf.foldl _ _ _⟩⟩

/-- A call returns, and leaves proper maps proper. -/
theorem Call.apply_spec (c : Call) (s : ℕ × ArgsParser) :
    ∃ t, c.apply s = .ok t ∧ (Proper s.2.group ∧ Proper s.2.flag → Proper t.2.group ∧ Proper t.2.flag) := by
  obtain ⟨n, p⟩ := s
  cases c with
  | addGroup r d i | addFlag r d i =>
    obtain ⟨p', hp', hproper⟩ := p.add_spec _ n r d i
    exact ⟨_, hp', fun h => hproper h.1 h.2⟩
  | setVersion d | setV d | setHelpTitle d | setHelpExtension d | enableH | disableH | elsewhere => exact ⟨_, rfl, id⟩

theorem calls_spec (calls : List Call) (s : ℕ × ArgsParser) :
    ∃ t, calls.foldlM (fun s c => c.apply s) s = (.ok t : Run (ℕ × ArgsParser)) ∧
      (Proper s.2.group ∧ Proper s.2.flag → Proper t.2.group ∧ Proper t.2.flag) := by
  induction calls generalizing s with
  | nil => exact ⟨s, rfl, id⟩
  | cons c calls ih =>
    obtain ⟨s', hc, hs'⟩ := c.apply_spec s
    obtain ⟨t, hrun, ht⟩ := ih s'
    exact ⟨t, by rw [List.foldlM_cons, hc, ok_bind, hrun], fun h => ht (hs' h)⟩

theorem configured_parserOf (n : ℕ) (title : Bytes) (calls : List Call) : Configured (parserOf n title calls) := by
  obtain ⟨t, hrun, -⟩ := calls_spec calls (n, { helpTitle := title })
  exact ⟨n, title, calls, t.1, by rw [parserOf, configure, hrun]⟩

theorem Configured.proper {p : ArgsParser} (h : Configured p) : Proper p.group ∧ Proper p.flag := by
  obtain ⟨n, title, calls, n', h⟩ := h
  obtain ⟨t, hrun, ht⟩ := calls_spec calls (n, { helpTitle := title })
  obtain rfl := Except.ok.inj (h.symm.trans hrun)
  exact ht ⟨by simp [Proper, UMap.empty], by simp [Proper, UMap.empty]⟩

/-- Two dashes are never a spelling. -/
theorem Configured.find?_dashes {p : ArgsParser} (h : Configured p) : p.group.find? (lit "--") = none := by
  rw [Option.eq_none_iff_forall_ne_some]
  exact fun info hfind => (h.proper.1 _ (UMap.find?_eq_some_iff.mp hfind)).2.2 rfl

/-! ## The end of the program -/

/-- How `parsing` ends the program. -/
inductive Exit
  | invalidArguments
  /-- A built-in option is not the only argument. -/
  | tooMany
  /-- `group_check_duplication`. -/
  | duplicate
  | print (text : Bytes)
  deriving DecidableEq

namespace Exit

/-- What `exit` is called with. -/
def status : Exit → ℤ
  | print _ => 0
  | _ => -1

/-- The message on `std::cerr`. -/
def message : Exit → Bytes
  | invalidArguments => lit "Invalid arguments.\n"
  | tooMany => lit "Too many parameters.\n"
  | duplicate => lit "Too many parameters.\n"
  | print _ => []

end Exit

/-- `group_check_duplication(cache, group)`. -/
def groupCheckDuplication (cache : USet Bytes) (group : Bytes) : Except Exit (USet Bytes) :=
  match cache.emplace? group with
  | some cache => .ok cache
  | none => .error .duplicate

namespace ArgsParser

/-- `print_version()`. -/
def printVersion (p : ArgsParser) : Exit := .print (lit "\n" ++ p.version ++ lit "\n\n")

/-- `print_v()`. -/
def printV (p : ArgsParser) : Exit := .print (lit "\n" ++ p.v ++ lit "\n\n")

/-- `print_help()`. -/
def printHelp (p : ArgsParser) : Exit :=
  .print (lit "\n" ++ (if p.helpTitle.isEmpty then [] else p.helpTitle ++ lit "\n\n") ++ p.help ++
    (if p.v.isEmpty then lit "    --version:" else lit "    -v, --version:") ++
    lit "\n        Viewing server version.\n\n" ++
    (if p.h then lit "    -h, --help:" else lit "    --help:") ++
    lit "\n        Viewing help.\n\n" ++ (if p.helpEx.isEmpty then [] else p.helpEx ++ lit "\n\n"))

/-! ## `parsing` -/

/-- The tests of the loop that come before the maps. -/
def builtIn (p : ArgsParser) (argc : ℕ) (arg : Bytes) : Except Exit Unit :=
  if arg = lit "-" ∨ arg = lit "--" then .error .invalidArguments
  else if arg = lit "--version" then
    if 2 < argc then .error .tooMany
    else if p.version ≠ [] then .error p.printVersion
    else if p.v ≠ [] then .error p.printV
    else .error .invalidArguments
  else if arg = lit "-v" then
    if p.v ≠ [] then
      if 2 < argc then .error .tooMany else .error p.printV
    else .ok ()
  else if arg = lit "--help" then
    if 2 < argc then .error .tooMany
    else if p.help ≠ [] then .error p.printHelp
    else .error .invalidArguments
  else if arg = lit "-h" then
    if p.h then
      if 2 < argc then .error .tooMany else .error p.printHelp
    else .ok ()
  else .ok ()

/-- The argument is a spelling of a group or of a flag. -/
def registered (p : ArgsParser) (arg : Bytes) : Bool := (p.group.find? arg).isSome || (p.flag.find? arg).isSome

end ArgsParser

/-- `result`, `cache` and `other`. -/
structure ParseState where
  result : UMap Bytes Bytes := .empty
  cache : USet Bytes := .empty
  other : List Bytes

namespace ParseState

/-- An option of the group `group`: `result.emplace(iden, value)`, unless the group was there. -/
def option (s : ParseState) (group iden value : Bytes) : Except Exit ParseState := do
  let cache ← groupCheckDuplication s.cache group
  .ok { s with cache := cache, result := s.result.emplace iden value }

/-- An argument for `other`, unless the text was there. -/
def positional (s : ParseState) (arg : Bytes) : Except Exit ParseState := do
  let cache ← groupCheckDuplication s.cache arg
  .ok { s with cache := cache, other := s.other ++ [arg] }

/-- `other.emplace_back(arg)`. -/
def surplus (s : ParseState) (arg : Bytes) : ParseState := { s with other := s.other ++ [arg] }

end ParseState

/-- An ASCII letter, by the comparisons of the source. -/
def isLetter (c : UInt8) : Bool := !(c < 65 || (90 < c && c < 97) || 122 < c)

/-- `std::string("-") + c`. -/
def dash (c : UInt8) : Bytes := [45, c]

namespace ArgsParser

/-- The branch of a group with the argument behind it, which must not be registered. -/
def groupValue (p : ArgsParser) (info : ArgInfo) (next : Option Bytes) (s : ParseState) :
    Except Exit (ParseState × Bool) :=
  match next with
  | none => .error .invalidArguments
  | some value =>
    if p.registered value then .error .invalidArguments
    else do .ok (← s.option info.group info.iden value, true)

/-- The loop over the letters of the bundle `arg` but the last. -/
def bundleLetters (p : ArgsParser) (arg : Bytes) : Bytes → ParseState → Except Exit ParseState
  | [], s => .ok s
  | c :: cs, s => do
    let s ← match p.flag.find? (dash c) with
      | none => s.positional arg
      | some info => s.option info.group info.iden info.iden
    bundleLetters p arg cs s

/-- The last letter of the bundle `arg`. -/
def bundleLast (p : ArgsParser) (arg : Bytes) (c : UInt8) (next : Option Bytes) (s : ParseState) :
    Except Exit (ParseState × Bool) :=
  match p.flag.find? (dash c) with
  | some info => do .ok (← s.option info.group info.iden info.iden, false)
  | none =>
    match p.group.find? (dash c) with
    | some info => p.groupValue info next s
    | none => .ok (s.surplus arg, false)

/-- The body of the loop for the argument `arg`, with the one behind it.  The flag says that `i` was moved over that. -/
def turn (p : ArgsParser) (argc : ℕ) (arg : Bytes) (next : Option Bytes) (s : ParseState) :
    Except Exit (ParseState × Bool) := do
  p.builtIn argc arg
  match p.group.find? arg with
  | some info => p.groupValue info next s
  | none =>
    match p.flag.find? arg with
    | some info => .ok (← s.option info.group info.iden info.iden, false)
    | none =>
      if arg.length ≤ 2 then .ok (← s.positional arg, false)
      else
        match arg.idxOf? 61 with
        | some pos =>
          match p.group.find? (arg.take pos) with
          | none => .ok (← s.positional arg, false)
          | some info => .ok (← s.option info.group info.iden (arg.drop (pos + 1)), false)
        | none =>
          if arg.head? ≠ some 45 then .ok (← s.positional arg, false)
          else if !arg.tail.all isLetter then .ok (← s.positional arg, false)
          else
            let s ← p.bundleLetters arg arg.tail.dropLast s
            p.bundleLast arg (arg.getLastD 0) next s

/-- The loop over the arguments. -/
def parsingLoop (p : ArgsParser) (argc : ℕ) : List Bytes → ParseState → Except Exit ParseState
  | [], s => .ok s
  | arg :: rest, s => do
    let (s, moved) ← p.turn argc arg rest.head? s
    if moved then
      match rest with
      | [] => .ok s
      | _ :: rest => parsingLoop p argc rest s
    else parsingLoop p argc rest s

/-- `parsing(argc, argv, other)`: the result, and `other` with what it has got. -/
def parsing (p : ArgsParser) (argv : List Bytes) (other : List Bytes) :
    Except Exit (UMap Bytes Bytes × List Bytes) := do
  let s ← p.parsingLoop argv.length argv.tail { other := other }
  .ok (s.result, s.other)

end ArgsParser

end Gts3.Cmdline
