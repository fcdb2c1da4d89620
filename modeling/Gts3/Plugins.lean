import Gts3.Algorithm

/-!
# `gts/detail/registration.h`, `gts/server/server_tool.cpp`: the methods of the plugins

A plugin registers its functions as global methods, whose names say what they are for; the server finds them again by
the beginnings of the names.  Names are told apart by an address or a counter, so no registration is lost
(`Named.fresh_addr`, `Named.fresh_co`), and the methods whose names begin in one way are those of one kind
(`run_selected`).  What the server then calls is in `selectsExactly_iff`.
-/

namespace Gts3.Plugins

open Lib Lib.Cxx

/-! ## Global methods -/

/-- A type of a parameter or a result, as far as the server looks at it. -/
inductive RttrType
  | string
  | futurePtr
  | other (id : ℕ)
  deriving DecidableEq, Repr

/-- A function that is registered; `isFunction` is `std::is_function` of the template argument. -/
structure Function where
  parameters : List RttrType
  returnType : RttrType
  isFunction : Bool
  address : ℕ
  id : ℕ
  deriving DecidableEq, Repr

/-- An `rttr::method` without a class. -/
structure GlobalMethod where
  name : Bytes
  function : Function
  deriving DecidableEq

/-- The global methods, `g_func_set` and `g_gfs_counter`. -/
structure Registry where
  globalMethods : List GlobalMethod
  funcSet : List ℕ
  gfsCounter : ℕ
  deriving DecidableEq

namespace Registry

/-- Before the first plugin is loaded. -/
def new : Registry := ⟨[], [], 0⟩

/-- `rttr::registration::method`: a method with the name and the parameters of another one is left out. -/
def method (s : Registry) (name : Bytes) (f : Function) : Registry :=
  if ∃ m ∈ s.globalMethods, m.name = name ∧ m.function.parameters = f.parameters then s
  else { s with globalMethods := s.globalMethods ++ [⟨name, f⟩] }

/-- A pointer, as the format `{}` prints it. -/
def formatPointer (addr : ℕ) : Bytes := lit "0x" ++ (Nat.toDigits 16 addr).map (fun c => c.toNat.toUInt8)

/-- The two overloads of `register_method`; nothing when `gts_log_fatal` ends the process. -/
def registerMethod (s : Registry) (pre name : Bytes) (f : Function) : Option Registry :=
  if f.isFunction then
    if f.address ∈ s.funcSet then none
    else some ({ s with funcSet := f.address :: s.funcSet }.method
      (lit "gts" ++ pre ++ lit ".plugin" ++ name ++ lit "." ++ formatPointer f.address) f)
  else some ({ s with gfsCounter := s.gfsCounter + 1 }.method
    (lit "gts" ++ pre ++ lit ".plugin" ++ name ++ lit ".co." ++ formatNat 10 s.gfsCounter) f)

/-! ## `gts::registration` -/

/-- `init_method`. -/
def initMethod (s : Registry) (f : Function) : Option Registry := s.registerMethod (lit "") (lit ".init") f

/-- `exit_method`. -/
def exitMethod (s : Registry) (f : Function) : Option Registry := s.registerMethod (lit "") (lit ".exit") f

/-- `view_status_method`. -/
def viewStatusMethod (s : Registry) (f : Function) : Option Registry := s.registerMethod (lit "") (lit ".view_status") f

/-- `new_connection`. -/
def newConnection (s : Registry) (f : Function) (port : ℕ) : Option Registry :=
  if f.address + port ∈ s.funcSet then none
  else some ({ s with funcSet := (f.address + port) :: s.funcSet }.method
    (if port = 0 then lit "gts.plugin.new_connection" else lit "gts.plugin.new_connection." ++ formatNat 10 port) f)

/-! ## `gts::extension::registration` -/

/-- `init_method` of an extension. -/
def extensionInitMethod (s : Registry) (f : Function) : Option Registry :=
  s.registerMethod (lit ".extension") (lit ".init") f

/-- `exit_method` of an extension. -/
def extensionExitMethod (s : Registry) (f : Function) : Option Registry :=
  s.registerMethod (lit ".extension") (lit ".exit") f

/-- `args_parsing_method`. -/
def argsParsingMethod (s : Registry) (f : Function) : Option Registry :=
  s.registerMethod (lit ".extension") (lit ".args_parsing") f

/-- `view_version_method`. -/
def viewVersionMethod (s : Registry) (f : Function) : Option Registry :=
  s.registerMethod (lit ".extension") (lit ".view_version") f

/-- `view_help_method`. -/
def viewHelpMethod (s : Registry) (f : Function) : Option Registry :=
  s.registerMethod (lit ".extension") (lit ".view_help") f

end Registry

/-- The functions above that differ in the name only. -/
inductive Kind
  | init
  | exit
  | viewStatus
  | extensionInit
  | extensionExit
  | argsParsing
  | viewVersion
  | viewHelp
  deriving DecidableEq, Repr

/-- A registration.  `view_status_method` takes only functions that return a string. -/
inductive Call
  | initMethod (f : Function)
  | exitMethod (f : Function)
  | viewStatusMethod (f : Function) (returns : f.returnType = .string)
  | newConnection (f : Function) (port : ℕ)
  | extensionInitMethod (f : Function)
  | extensionExitMethod (f : Function)
  | argsParsingMethod (f : Function)
  | viewVersionMethod (f : Function)
  | viewHelpMethod (f : Function)

/-- What the registration does. -/
def Call.run (s : Registry) : Call → Option Registry
  | initMethod f => s.initMethod f
  | exitMethod f => s.exitMethod f
  | viewStatusMethod f _ => s.viewStatusMethod f
  | newConnection f port => s.newConnection f port
  | extensionInitMethod f => s.extensionInitMethod f
  | extensionExitMethod f => s.extensionExitMethod f
  | argsParsingMethod f => s.argsParsingMethod f
  | viewVersionMethod f => s.viewVersionMethod f
  | viewHelpMethod f => s.viewHelpMethod f

/-- Registrations one after the other. -/
def runCalls : Registry → List Call → Option Registry
  | s, [] => some s
  | s, c :: cs => (c.run s).bind fun s => runCalls s cs

/-! ## `plugin_call_handle` -/

/-- A call of a method with its arguments. -/
structure Invocation where
  method : GlobalMethod
  args : List Bytes
  deriving DecidableEq

/-- The methods whose names begin like this. -/
def Registry.startingWith (s : Registry) (pre : Bytes) : List GlobalMethod :=
  s.globalMethods.filter fun m => strStartsWith m.name pre

/-- `call_init`. -/
def callInit (configFile : Bytes) (m : GlobalMethod) : Option Invocation :=
  if m.function.parameters = [] then some ⟨m, []⟩
  else if m.function.parameters = [.string] then some ⟨m, [configFile]⟩
  else none

/-- `call_exit`. -/
def callExit (m : GlobalMethod) : Option Invocation := if m.function.parameters = [] then some ⟨m, []⟩ else none

/-- The methods that the first loop of `init` selects. -/
def initMethods (s : Registry) : List GlobalMethod := s.startingWith (lit "gts.plugin.init.")

/-- The methods that the second loop of `exit` selects. -/
def exitMethods (s : Registry) : List GlobalMethod := s.startingWith (lit "gts.web.plugin.exit.")

/-- The methods that the first loop of `view_status` selects. -/
def viewStatusMethods (s : Registry) : List GlobalMethod :=
  (s.startingWith (lit "gts.plugin.view_status.")).filter fun m => m.function.returnType = .string

/-- The first loop of `init`. -/
def init (s : Registry) (configFile : Bytes) : List Invocation := (initMethods s).filterMap (callInit configFile)

/-- The second loop of `exit`. -/
def exit (s : Registry) : List Invocation := (exitMethods s).filterMap callExit

/-- The first loop of `view_status`, where `invoke` says what a method returns. -/
def viewStatus (s : Registry) (invoke : Function → Bytes) : Bytes :=
  (viewStatusMethods s).flatMap fun m => invoke m.function

/-! ## Names -/

/-- How the names of a kind begin. -/
def Kind.head : Kind → Bytes
  | init => lit "gts.plugin.init."
  | exit => lit "gts.plugin.exit."
  | viewStatus => lit "gts.plugin.view_status."
  | extensionInit => lit "gts.extension.plugin.init."
  | extensionExit => lit "gts.extension.plugin.exit."
  | argsParsing => lit "gts.extension.plugin.args_parsing."
  | viewVersion => lit "gts.extension.plugin.view_version."
  | viewHelp => lit "gts.extension.plugin.view_help."

/-- The kind of a registration, and the function. -/
def Call.method? : Call → Option (Kind × Function)
  | initMethod f => some (.init, f)
  | exitMethod f => some (.exit, f)
  | viewStatusMethod f _ => some (.viewStatus, f)
  | newConnection _ _ => none
  | extensionInitMethod f => some (.extensionInit, f)
  | extensionExitMethod f => some (.extensionExit, f)
  | argsParsingMethod f => some (.argsParsing, f)
  | viewVersionMethod f => some (.viewVersion, f)
  | viewHelpMethod f => some (.viewHelp, f)

/-- The function, if the registration is of this kind. -/
def Call.function? (k : Kind) (c : Call) : Option Function :=
  match c.method? with
  | some (k', f) => if k' = k then some f else none
  | none => none

/-- The heads of the kinds are no prefixes of each other. -/
theorem Kind.eq_of_head {k k' : Kind} (h : k.head <+: k'.head) : k = k' := by
  revert h
  cases k <;> cases k' <;> decide

theorem Kind.head_append_inj {k k' : Kind} {x x' : Bytes} (h : k.head ++ x = k'.head ++ x') : k = k' ∧ x = x' := by
  have hk : k = k' := by
    rcases List.prefix_or_prefix_of_prefix (List.prefix_append k.head x)
      (h ▸ List.prefix_append k'.head x') with h' | h'
    · exact eq_of_head h'
    · exact (eq_of_head h').symm
  subst hk
  exact ⟨rfl, List.append_cancel_left h⟩

/-- The beginnings of other names. -/
def otherHeads : List Bytes := [lit "gts.plugin.new_connection", lit "gts.web.plugin.exit."]

/-- Names of a kind do not begin like other names. -/
theorem Kind.head_append_ne {k : Kind} {pre : Bytes} (hpre : pre ∈ otherHeads) (x y : Bytes) :
    k.head ++ x ≠ pre ++ y := by
  intro h
  have key : ∀ pre ∈ otherHeads, ¬ k.head <+: pre ∧ ¬ pre <+: k.head := by cases k <;> decide
  rcases List.prefix_or_prefix_of_prefix (List.prefix_append k.head x) (h ▸ List.prefix_append pre y) with h' | h'
  · exact (key pre hpre).1 h'
  · exact (key pre hpre).2 h'

theorem formatPointer_injective : Function.Injective Registry.formatPointer := by
  intro n m h
  have hdigits := congrArg (List.map toupper) (List.append_cancel_left h)
  rw [List.map_map, List.map_map] at hdigits
  exact formatNat_injective (show 1 < 16 by omega) le_rfl hdigits

theorem co_ne_formatPointer (x : Bytes) (addr : ℕ) : lit "co." ++ x ≠ Registry.formatPointer addr := by
  intro h
  have hhead : some (99 : UInt8) = some 48 := congrArg List.head? h
  exact absurd hhead (by decide)

/-! ## Registrations -/

/-- A name that a registration so far has given to a method. -/
def Named (s : Registry) (name : Bytes) : Prop :=
  (∃ k : Kind, ∃ addr ∈ s.funcSet, name = k.head ++ Registry.formatPointer addr) ∨
    (∃ k : Kind, ∃ n < s.gfsCounter, name = k.head ++ (lit "co." ++ formatNat 10 n)) ∨
      lit "gts.plugin.new_connection" <+: name

/-- All methods have such names. -/
def AllNamed (s : Registry) : Prop := ∀ m ∈ s.globalMethods, Named s m.name

theorem Named.mono {s s' : Registry} {name : Bytes} (h : Named s name) (hset : ∀ addr ∈ s.funcSet, addr ∈ s'.funcSet)
    (hcounter : s.gfsCounter ≤ s'.gfsCounter) : Named s' name := by
  rcases h with ⟨k, addr, haddr, rfl⟩ | ⟨k, n, hn, rfl⟩ | h
  · exact Or.inl ⟨k, addr, hset addr haddr, rfl⟩
  · exact Or.inr (Or.inl ⟨k, n, lt_of_lt_of_le hn hcounter, rfl⟩)
  · exact Or.inr (Or.inr h)

theorem Named.fresh_addr {s : Registry} {k : Kind} {addr : ℕ} (haddr : addr ∉ s.funcSet) :
    ¬ Named s (k.head ++ Registry.formatPointer addr) := by
  rintro (⟨k', addr', haddr', h⟩ | ⟨k', n, -, h⟩ | ⟨rest, h⟩)
  · rw [formatPointer_injective (Kind.head_append_inj h).2] at haddr
    exact haddr haddr'
  · exact co_ne_formatPointer _ _ (Kind.head_append_inj h).2.symm
  · exact Kind.head_append_ne (by decide) _ _ h.symm

theorem Named.fresh_co {s : Registry} {k : Kind} : ¬ Named s (k.head ++ (lit "co." ++ formatNat 10 s.gfsCounter)) := by
  rintro (⟨k', addr, -, h⟩ | ⟨k', n, hn, h⟩ | ⟨rest, h⟩)
  · exact co_ne_formatPointer _ _ (Kind.head_append_inj h).2
  · have hdigits := List.append_cancel_left (Kind.head_append_inj h).2
    exact hn.ne' (formatNat_injective (by omega) (by omega) hdigits)
  · exact Kind.head_append_ne (by decide) _ _ h.symm

theorem method_of_fresh {s : Registry} {name : Bytes} (h : ∀ m ∈ s.globalMethods, m.name ≠ name) (f : Function) :
    s.method name f = { s with globalMethods := s.globalMethods ++ [⟨name, f⟩] } :=
  if_neg fun ⟨m, hm, hname, _⟩ => h m hm hname

/-- **A registration of a kind** adds one method, whose name begins like the kind. -/
theorem run_method {s s' : Registry} (hnamed : AllNamed s) {c : Call} {k : Kind} {f : Function}
    (hc : c.method? = some (k, f)) (hrun : c.run s = some s') :
    ∃ x, s'.globalMethods = s.globalMethods ++ [⟨k.head ++ x, f⟩] ∧ AllNamed s' := by
  -- every kind is `register_method` with its own texts
  have hregister : c.run s = if f.isFunction then
      if f.address ∈ s.funcSet then none
      else some ({ s with funcSet := f.address :: s.funcSet }.method (k.head ++ Registry.formatPointer f.address) f)
    else some ({ s with gfsCounter := s.gfsCounter + 1 }.method
      (k.head ++ (lit "co." ++ formatNat 10 s.gfsCounter)) f) := by
    cases c <;> cases hc <;> rfl
  rw [hregister] at hrun
  split_ifs at hrun with hfun haddr
  · have hfresh : ∀ m ∈ s.globalMethods, m.name ≠ k.head ++ Registry.formatPointer f.address :=
      fun m hm h => Named.fresh_addr haddr (h ▸ hnamed m hm)
    rw [method_of_fresh (s := { s with funcSet := f.address :: s.funcSet }) hfresh] at hrun
    obtain rfl := Option.some.inj hrun
    refine ⟨_, rfl, fun m hm => ?_⟩
    rcases List.mem_append.mp hm with hm | hm
    · exact (hnamed m hm).mono (fun addr h => List.mem_cons_of_mem _ h) le_rfl
    · obtain rfl := List.mem_singleton.mp hm
      exact Or.inl ⟨k, f.address, List.mem_cons_self, rfl⟩
  · have hfresh : ∀ m ∈ s.globalMethods, m.name ≠ k.head ++ (lit "co." ++ formatNat 10 s.gfsCounter) :=
      fun m hm h => Named.fresh_co (h ▸ hnamed m hm)
    rw [method_of_fresh (s := { s with gfsCounter := s.gfsCounter + 1 }) hfresh] at hrun
    obtain rfl := Option.some.inj hrun
    refine ⟨_, rfl, fun m hm => ?_⟩
    rcases List.mem_append.mp hm with hm | hm
    · exact (hnamed m hm).mono (fun addr h => h) (Nat.le_succ _)
    · obtain rfl := List.mem_singleton.mp hm
      exact Or.inr (Or.inl ⟨k, s.gfsCounter, Nat.lt_succ_self _, rfl⟩)

/-- **Another registration** adds one method with another name, or none. -/
theorem run_other {s s' : Registry} (hnamed : AllNamed s) {c : Call} (hc : c.method? = none)
    (hrun : c.run s = some s') :
    (∃ ms : List GlobalMethod, s'.globalMethods = s.globalMethods ++ ms ∧
      ∀ m ∈ ms, lit "gts.plugin.new_connection" <+: m.name) ∧ AllNamed s' := by
  cases c with
  | newConnection f port =>
    have hname : lit "gts.plugin.new_connection" <+:
        (if port = 0 then lit "gts.plugin.new_connection"
          else lit "gts.plugin.new_connection." ++ formatNat 10 port) := by
      split_ifs
      · exact List.prefix_rfl
      · have hdot : lit "gts.plugin.new_connection." = lit "gts.plugin.new_connection" ++ lit "." := by decide
        rw [hdot, List.append_assoc]
        exact List.prefix_append _ _
    rw [Call.run, Registry.newConnection] at hrun
    generalize (if port = 0 then lit "gts.plugin.new_connection"
      else lit "gts.plugin.new_connection." ++ formatNat 10 port) = name at hname hrun
    split_ifs at hrun with haddr
    have hold : ∀ m ∈ s.globalMethods, Named { s with funcSet := (f.address + port) :: s.funcSet } m.name :=
      fun m hm => (hnamed m hm).mono (fun addr h => List.mem_cons_of_mem _ h) le_rfl
    obtain rfl := Option.some.inj hrun
    unfold Registry.method
    split_ifs
    · exact ⟨⟨[], (List.append_nil _).symm, fun m hm => absurd hm List.not_mem_nil⟩, hold⟩
    · refine ⟨⟨_, rfl, fun m hm => ?_⟩, fun m hm => ?_⟩
      · obtain rfl := List.mem_singleton.mp hm
        exact hname
      · rcases List.mem_append.mp hm with hm | hm
        · exact hold m hm
        · obtain rfl := List.mem_singleton.mp hm
          exact Or.inr (Or.inr hname)
  | _ => cases hc

/-! ## What is selected -/

theorem strStartsWith_iff {str pre : Bytes} : strStartsWith str pre = true ↔ pre <+: str := List.isPrefixOf_iff_prefix

/-- A name begins like the kind it is of, and like no other one. -/
theorem strStartsWith_head (k k' : Kind) (x : Bytes) : strStartsWith (k'.head ++ x) k.head = decide (k' = k) := by
  rw [Bool.eq_iff_iff, strStartsWith_iff, decide_eq_true_eq]
  constructor
  · rintro ⟨rest, h⟩
    exact (Kind.head_append_inj h).1.symm
  · rintro rfl
    exact List.prefix_append _ _

/-- One registration adds what it registers to the methods of its kind. -/
theorem run_startingWith {s s' : Registry} (hnamed : AllNamed s) {c : Call} (hrun : c.run s = some s') (k : Kind) :
    (s'.startingWith k.head).map GlobalMethod.function =
      (s.startingWith k.head).map GlobalMethod.function ++ (c.function? k).toList := by
  cases hc : c.method? with
  | none =>
    obtain ⟨⟨ms, hms, hother⟩, -⟩ := run_other hnamed hc hrun
    have hnone : ms.filter (fun m => strStartsWith m.name k.head) = [] := by
      refine List.filter_eq_nil_iff.mpr fun m hm => ?_
      rw [strStartsWith_iff]
      rintro ⟨x, hx⟩
      obtain ⟨y, hy⟩ := hother m hm
      exact Kind.head_append_ne (by decide) x y (hx.trans hy.symm)
    simp only [Registry.startingWith, hms, List.filter_append, hnone, Call.function?, hc, Option.toList_none,
      List.append_nil]
  | some method =>
    obtain ⟨k', f⟩ := method
    obtain ⟨x, hms, -⟩ := run_method hnamed hc hrun
    simp only [Registry.startingWith, hms, List.filter_append, List.map_append, Call.function?, hc]
    refine congrArg _ ?_
    rw [List.filter_singleton, strStartsWith_head]
    by_cases hk : k' = k
    · simp [hk]
    · simp [hk]

/-- **What a beginning selects**: the methods of a kind, in the order of their registration. -/
theorem run_selected {s s' : Registry} (hnamed : AllNamed s) {calls : List Call} (hrun : runCalls s calls = some s') :
    (∀ k : Kind, (s'.startingWith k.head).map GlobalMethod.function =
      (s.startingWith k.head).map GlobalMethod.function ++ calls.filterMap (Call.function? k)) ∧ AllNamed s' := by
  induction calls generalizing s with
  | nil =>
    obtain rfl := Option.some.inj hrun
    exact ⟨fun k => (List.append_nil _).symm, hnamed⟩
  | cons c calls ih =>
    obtain ⟨s₁, hc, hcalls⟩ := Option.bind_eq_some_iff.mp hrun
    have hnamed₁ : AllNamed s₁ := by
      cases hm : c.method? with
      | none => exact (run_other hnamed hm hc).2
      | some method => exact (run_method hnamed hm hc).choose_spec.2
    obtain ⟨hselected, hnamed'⟩ := ih hnamed₁ hcalls
    refine ⟨fun k => ?_, hnamed'⟩
    rw [hselected k, run_startingWith hnamed hc k, List.append_assoc, List.filterMap_cons]
    cases c.function? k <;> rfl

/-- No registration makes a name that `exit` looks for. -/
theorem exitMethods_eq_nil {s : Registry} (hnamed : AllNamed s) : exitMethods s = [] := by
  refine List.filter_eq_nil_iff.mpr fun m hm => ?_
  rw [strStartsWith_iff]
  rintro ⟨y, hy⟩
  rcases hnamed m hm with ⟨k, addr, -, h⟩ | ⟨k, n, -, h⟩ | h
  · exact Kind.head_append_ne (by decide) _ y (h.symm.trans hy.symm)
  · exact Kind.head_append_ne (by decide) _ y (h.symm.trans hy.symm)
  · rcases List.prefix_or_prefix_of_prefix h ⟨y, hy⟩ with h' | h'
    · exact absurd h' (by decide)
    · exact absurd h' (by decide)

/-- The functions that `view_status_method` takes return strings. -/
theorem returnType_of_viewStatus {calls : List Call} {f : Function}
    (h : f ∈ calls.filterMap (Call.function? .viewStatus)) : f.returnType = .string := by
  obtain ⟨c, -, hc⟩ := List.mem_filterMap.mp h
  cases c with
  | viewStatusMethod g returns =>
    obtain rfl : g = f := by simpa [Call.function?, Call.method?] using hc
    exact returns
  | _ => simp [Call.function?, Call.method?] at hc

theorem allNamed_new : AllNamed .new := fun _ hm => absurd hm List.not_mem_nil

theorem viewStatusMethods_eq {s : Registry} {calls : List Call} (hrun : runCalls .new calls = some s) :
    (viewStatusMethods s).map GlobalMethod.function = calls.filterMap (Call.function? .viewStatus) := by
  have hstatus : (s.startingWith Kind.viewStatus.head).map GlobalMethod.function =
      calls.filterMap (Call.function? .viewStatus) := (run_selected allNamed_new hrun).1 .viewStatus
  have hall : viewStatusMethods s = s.startingWith Kind.viewStatus.head := by
    refine List.filter_eq_self.mpr fun m hm => ?_
    rw [decide_eq_true_eq]
    exact returnType_of_viewStatus (hstatus ▸ List.mem_map_of_mem hm)
  rw [hall, hstatus]

/-- `init`, `exit` and `view_status` select exactly what was registered for them, each registration once. -/
structure SelectsExactly (s : Registry) (calls : List Call) : Prop where
  init : (initMethods s).map GlobalMethod.function = calls.filterMap (Call.function? .init)
  exit : (exitMethods s).map GlobalMethod.function = calls.filterMap (Call.function? .exit)
  viewStatus : (viewStatusMethods s).map GlobalMethod.function = calls.filterMap (Call.function? .viewStatus)

/-- **Exactly when** the server selects what was registered: when no function was registered with `exit_method`. -/
theorem selectsExactly_iff {s : Registry} {calls : List Call} (hrun : runCalls .new calls = some s) :
    SelectsExactly s calls ↔ calls.filterMap (Call.function? .exit) = [] := by
  obtain ⟨hselected, hnamed⟩ := run_selected allNamed_new hrun
  have hexit : (exitMethods s).map GlobalMethod.function = [] := by rw [exitMethods_eq_nil hnamed, List.map_nil]
  constructor
  · intro h
    rw [← h.exit, hexit]
  · intro h
    exact ⟨hselected .init, by rw [hexit, h], viewStatusMethods_eq hrun⟩

/-- A function without parameters and result. -/
def hello : Function := ⟨[], .other 0, true, 4096, 0⟩

/-- A functor that returns a string. -/
def status : Function := ⟨[], .string, false, 8192, 1⟩

theorem selectsExactly_iff_hello : ∃ s, runCalls .new [.initMethod hello, .viewStatusMethod status rfl] = some s ∧
    SelectsExactly s [.initMethod hello, .viewStatusMethod status rfl] :=
  ⟨_, rfl, (selectsExactly_iff rfl).mpr rfl⟩

/-- **An exit method is not called**: its name begins with `gts.plugin.exit.`. -/
theorem not_selectsExactly_exit : ∃ s, runCalls .new [.exitMethod hello] = some s ∧ exitMethods s = [] ∧
    ¬ SelectsExactly s [.exitMethod hello] := by
  have hrun : runCalls .new [.exitMethod hello] = some _ := rfl
  have hnil := exitMethods_eq_nil (run_selected allNamed_new hrun).2
  refine ⟨_, hrun, hnil, fun h => ?_⟩
  have hexit := h.exit
  rw [hnil] at hexit
  cases hexit

/-! ## What is called -/

/-- **Every init method is called** if it takes nothing or a string. -/
theorem init_calls {s : Registry} {calls : List Call} (hrun : runCalls .new calls = some s)
    (hparameters : ∀ f ∈ calls.filterMap (Call.function? .init), f.parameters = [] ∨ f.parameters = [.string])
    (configFile : Bytes) :
    (init s configFile).map (fun i => i.method.function) = calls.filterMap (Call.function? .init) := by
  have hselected : (initMethods s).map GlobalMethod.function = calls.filterMap (Call.function? .init) :=
    (run_selected allNamed_new hrun).1 .init
  rw [← hselected] at hparameters ⊢
  have hcall : ∀ m ∈ initMethods s, ∃ args, callInit configFile m = some ⟨m, args⟩ := by
    intro m hm
    unfold callInit
    split_ifs with h h'
    · exact ⟨_, rfl⟩
    · exact ⟨_, rfl⟩
    · exact absurd (hparameters m.function (List.mem_map_of_mem hm)) (not_or.mpr ⟨h, h'⟩)
  unfold init
  generalize initMethods s = ms at hcall ⊢
  induction ms with
  | nil => rfl
  | cons m ms ih =>
    obtain ⟨args, hargs⟩ := hcall m List.mem_cons_self
    rw [List.filterMap_cons_some hargs, List.map_cons, List.map_cons,
      ih fun m' hm' => hcall m' (List.mem_cons_of_mem _ hm')]

/-- **No exit method is called**, whatever is registered. -/
theorem exit_calls {s : Registry} {calls : List Call} (hrun : runCalls .new calls = some s) : exit s = [] := by
  rw [exit, exitMethods_eq_nil (run_selected allNamed_new hrun).2, List.filterMap_nil]

/-- **The status** is what the methods return, one after the other. -/
theorem viewStatus_eq {s : Registry} {calls : List Call} (hrun : runCalls .new calls = some s)
    (invoke : Function → Bytes) :
    viewStatus s invoke = (calls.filterMap (Call.function? .viewStatus)).flatMap invoke := by
  rw [← viewStatusMethods_eq hrun, List.flatMap_map, viewStatus]

end Gts3.Plugins
