import Gts3.Web.Task

/-!
# Which resource a task reaches

`Reaches` says what stands in front of a handler, a CGI program or a file in the trace of a task, and `run_reaches`
that nothing else reaches a resource; `exists_cgi` and `exists_file` are its converses.  Filters are asked about the
name of the resource, and not about the path of the request, so a task consults the filters of the path exactly when
they match these names as well (`filtersConsulted_iff`).
-/

namespace Gts3.Web

open Lib Lib.Search Lib.Cxx Gts3.Http

/-- A filter is asked about a path: its own path is a prefix, and not all of it when it ends with a slash. -/
def Matches (f url : Bytes) : Prop := f <+: url ∧ (f.getLast? = some 47 → url ≠ f)

instance (f url : Bytes) : Decidable (Matches f url) := inferInstanceAs (Decidable (_ ∧ _))

/-! ## Filters -/

namespace PluginsService

@[simp] theorem lambdaCallFilter_urlName (env : Env) (f : Bytes) (s : TaskState) :
    (lambdaCallFilter env f s).2.urlName = s.urlName := rfl

/-- Filters are asked one after the other, until one of them takes the request over. -/
def consult (env : Env) : List Bytes → TaskState → Bool × TaskState
  | [], s => (false, s)
  | f :: fs, s => if (lambdaCallFilter env f s).1 then (true, (lambdaCallFilter env f s).2)
      else consult env fs (lambdaCallFilter env f s).2

theorem callFilterLoop_eq (env : Env) (fs : List Bytes) (s : TaskState) :
    callFilterLoop env fs s = consult env (fs.filter (fun f => Matches f s.urlName)) s := by
  induction fs generalizing s with
  | nil => rfl
  | cons f fs ih =>
    have hstart : strStartsWith s.urlName f = false ↔ ¬ f <+: s.urlName := by
      rw [strStartsWith, ← Bool.not_eq_true, List.isPrefixOf_iff_prefix]
    rw [callFilterLoop]
    by_cases hm : Matches f s.urlName
    · rw [List.filter_cons_of_pos (by simpa using hm), consult, if_neg (by rw [hstart]; exact not_not.mpr hm.1)]
      simp only [ih, lambdaCallFilter_urlName]
      by_cases hl : f.getLast? = some 47
      · rw [if_pos hl, if_pos (hm.2 hl)]
        rfl
      · rw [if_neg hl]
        rfl
    · rw [List.filter_cons_of_neg (by simpa using hm)]
      by_cases hs : strStartsWith s.urlName f = false
      · rw [if_pos hs, ih]
      · have hpre : f <+: s.urlName := not_not.mp (mt hstart.mpr hs)
        have hl : f.getLast? = some 47 ∧ s.urlName = f := by
          by_contra h
          exact hm ⟨hpre, fun h1 h2 => h ⟨h1, h2⟩⟩
        rw [if_neg hs, if_pos hl.1, if_neg (not_not.mpr hl.2), ih]

/-- **Filters**: those that match are asked. -/
theorem callFilter_eq (env : Env) (s : TaskState) :
    callFilter env s = consult env (env.filterPathMap.paths.filter (fun f => Matches f s.urlName)) s :=
  callFilterLoop_eq env env.filterPathMap.paths s

/-- Asking filters adds their calls to the trace, all of them with false when none takes over. -/
theorem consult_spec (env : Env) (fs : List Bytes) (s : TaskState) :
    ∃ evs w b, consult env fs s = (b, { s with trace := s.trace ++ evs, headersWrited := w }) ∧
      (∀ e ∈ evs, ¬ e.IsResource) ∧ (b = false → ∀ f ∈ fs, Event.filter f false ∈ evs) := by
  induction fs generalizing s with
  | nil => exact ⟨[], s.headersWrited, false, by simp [consult], by simp, by simp⟩
  | cons f fs ih =>
    obtain ⟨evs, w, b, heq, hres, hall⟩ := ih (lambdaCallFilter env f s).2
    rw [consult]
    cases hb : (lambdaCallFilter env f s).1 with
    | true =>
      exact ⟨[.filter f true], _, true, by rw [if_pos rfl, lambdaCallFilter, ← hb]; rfl, by simp [Event.IsResource],
        by simp⟩
    | false =>
      refine ⟨.filter f false :: evs, w, b, ?_, ?_, fun h f' hf' => ?_⟩
      · have htrace : (lambdaCallFilter env f s).2.trace = s.trace ++ [.filter f false] := by
          rw [← hb]
          rfl
        rw [if_neg (by decide), heq, htrace]
        simp [lambdaCallFilter, TaskState.emit]
      · intro e he
        rcases List.mem_cons.mp he with rfl | he
        · simp [Event.IsResource]
        · exact hres e he
      · rcases List.mem_cons.mp hf' with rfl | hf'
        · simp
        · exact List.mem_cons_of_mem _ (hall h f' hf')

end PluginsService

/-! ## The names of the resources -/

/-- The path of a request as `check` leaves it. -/
def normalPath (path : Bytes) : Bytes :=
  let url := if path = [] then lit "/" else path
  if url.length > 1 ∧ url.getLast? = some 47 then url.dropLast else url

/-- What follows the CGI prefix, when the path has it. -/
def cgiRest (config : Config) (url : Bytes) : Option Bytes :=
  match find [47] (url.drop 1) with
  | none => none
  | some pos => if url.take (pos + 1) = config.cgiAccess then some (url.drop (pos + 2)) else none

/-- The name of the CGI program. -/
def cgiName (config : Config) (rest : Bytes) : Bytes := config.cgiPath.path ++ rest

theorem cgiName_ne_nil (config : Config) (rest : Bytes) : cgiName config rest ≠ [] := by
  have habs := config.cgiPath.absolute
  intro h
  simp [(List.append_eq_nil_iff.mp h).1] at habs

/-- The name of the static resource. -/
def staticName (config : Config) (url : Bytes) : Bytes :=
  config.resourceRoot.path ++ if url = lit "/" then config.defaultResource else url

/-- The files a static resource can stand for: its name, unless that is a directory's, and its name as a page. -/
def staticPaths (config : Config) (url : Bytes) : List Bytes :=
  (if IsDots (lastComponent (cStr (staticName config url))) then [] else [cStr (staticName config url)]) ++
    if 0 ∈ staticName config url then [] else [staticName config url ++ lit ".html"]

theorem cStr_append_of_mem {s : Bytes} (h : 0 ∈ s) (t : Bytes) : cStr (s ++ t) = cStr s := by
  obtain ⟨a, b, rfl, ha⟩ := List.eq_append_cons_of_mem h
  rw [List.append_assoc, List.cons_append, cStr_append_zero ha, cStr_append_zero ha]

/-- The methods that look for a CGI program. -/
def parses : Method → Bool
  | .get | .post | .put | .delete => true
  | _ => false

/-! ## What stands in front of a resource -/

/-- The filters that match a name have been asked, and none of them took the request over. -/
def Consulted (env : Env) (pre : List Event) (name : Bytes) : Prop :=
  ∀ f ∈ env.filterPathMap.paths, Matches f name → Event.filter f false ∈ pre

/-- How a task gets to a resource, from the trace in front of it. -/
inductive Reaches (env : Env) (request : Request) : List Event → Event → Prop
  | handler {pre : List Event} {services : List Method}
      (hservices : env.pathHash.find? (normalPath request.path) = some services)
      (hfilters : Consulted env pre (normalPath request.path)) :
      Reaches env request pre (.handler (normalPath request.path))
  | cgi {pre : List Event} {rest : Bytes} (hmethod : parses request.method = true)
      (hservices : env.pathHash.find? (normalPath request.path) = none)
      (hrest : cgiRest env.config (normalPath request.path) = some rest)
      (hfilters : Consulted env pre (cgiName env.config rest)) :
      Reaches env request pre (.cgi (cStr (cgiName env.config rest)))
  | file {pre : List Event} {p : Bytes} (hmethod : request.method = .get)
      (hservices : env.pathHash.find? (normalPath request.path) = none)
      (hp : p ∈ staticPaths env.config (normalPath request.path))
      (hfilters : Consulted env pre (staticName env.config (normalPath request.path))) :
      Reaches env request pre (.file p)

/-- Every resource of a trace is reached in one of these ways. -/
def Explained (env : Env) (request : Request) (t : List Event) : Prop :=
  ∀ pre e post, t = pre ++ e :: post → e.IsResource → Reaches env request pre e

section Explained

variable {env : Env} {request : Request} {t : List Event}

theorem explained_nil : Explained env request [] := by
  intro pre e post h
  simp at h

theorem Explained.snoc (h : Explained env request t) {e : Event} (he : e.IsResource → Reaches env request t e) :
    Explained env request (t ++ [e]) := by
  intro pre e' post heq hres
  rcases List.eq_nil_or_concat post with rfl | ⟨post, x, rfl⟩
  · obtain ⟨rfl, rfl⟩ : t = pre ∧ e = e' := by simpa using List.append_inj' heq rfl
    exact he hres
  · refine h pre e' post ?_ hres
    rw [List.concat_eq_append, ← List.cons_append, ← List.append_assoc] at heq
    exact (List.append_inj' heq rfl).1

theorem Explained.append (h : Explained env request t) {evs : List Event} (hevs : ∀ e ∈ evs, ¬ e.IsResource) :
    Explained env request (t ++ evs) := by
  induction evs generalizing t with
  | nil => simpa using h
  | cons e evs ih =>
    have hstep := h.snoc (e := e) fun he => absurd he (hevs e (by simp))
    rw [List.append_cons]
    exact ih hstep fun e' he' => hevs e' (by simp [he'])

/-- Asking filters keeps a trace explained; none of them takes over only when all that match were asked. -/
theorem Explained.callFilter {s : TaskState} (h : Explained env request s.trace) :
    ∃ s' b, PluginsService.callFilter env s = (b, s') ∧ s'.urlName = s.urlName ∧ Explained env request s'.trace ∧
      (b = false → Consulted env s'.trace s.urlName) := by
  obtain ⟨evs, w, b, heq, hres, hall⟩ :=
    PluginsService.consult_spec env (env.filterPathMap.paths.filter (fun f => Matches f s.urlName)) s
  refine ⟨_, b, (PluginsService.callFilter_eq env s).trans heq, rfl, h.append hres, fun hb f hf hm => ?_⟩
  exact List.mem_append_right _ (hall hb f (List.mem_filter.mpr ⟨hf, by simpa using hm⟩))

end Explained

/-! ## One step after the other -/

section Steps

variable {env : Env} {request : Request} {s : TaskState}

theorem check_eq (env : Env) (s : TaskState) :
    PluginsService.check env s =
      (env.pathHash.find? (normalPath s.urlName), { s with urlName := normalPath s.urlName }) := by
  rw [PluginsService.check, normalPath]
  by_cases h : s.urlName = []
  · simp [h, lit]
  · simp only [if_neg h]
    split_ifs <;> rfl

theorem normalPath_root (path : Bytes) : normalPath (if path = [] then lit "/" else path) = normalPath path := by
  by_cases h : path = []
  · rw [if_pos h, h]
    rfl
  · rw [if_neg h]

/-- The state in which `TASK_DO_PARSING` asks for a service. -/
def atPath (request : Request) (s : TaskState) : TaskState :=
  { s with urlName := if request.path = [] then lit "/" else request.path }

theorem check_atPath (env : Env) (request : Request) (s : TaskState) :
    PluginsService.check env (atPath request s) =
      (env.pathHash.find? (normalPath request.path), { s with urlName := normalPath request.path }) := by
  rw [check_eq, atPath, normalPath_root]

/-- The services of a path are called behind its filters. -/
theorem call_spec (h : Explained env request s.trace) {services : List Method}
    (hservices : env.pathHash.find? (normalPath request.path) = some services) :
    ∃ s', PluginsService.call env request (atPath request s) = (true, s') ∧ Explained env request s'.trace := by
  rw [PluginsService.call, check_atPath, hservices]
  simp only
  by_cases hm : request.method ∉ services
  · rw [if_pos hm]
    exact ⟨_, rfl, h.snoc (by simp [Event.IsResource])⟩
  · rw [if_neg hm]
    obtain ⟨s', b, heq, hname, hexp, hall⟩ :=
      Explained.callFilter (s := { s with urlName := normalPath request.path }) h
    rw [heq]
    cases b with
    | true => exact ⟨s', rfl, hexp⟩
    | false =>
      refine ⟨_, rfl, hexp.snoc fun _ => ?_⟩
      rw [hname]
      exact .handler hservices (hall rfl)

theorem doParsing_eq (env : Env) (request : Request) (s : TaskState) :
    Task.doParsing env request s =
      match PluginsService.call env request (atPath request s) with
      | (true, s) => (true, s)
      | (false, s) => match cgiRest env.config s.urlName with
        | none => (false, s)
        | some rest => Task.callCgi env rest s := by
  have hif : (if request.path = [] then { s with urlName := lit "/" } else { s with urlName := request.path }) =
      atPath request s := by
    rw [atPath]
    split_ifs <;> rfl
  rw [Task.doParsing]
  simp only
  rw [hif]
  rcases PluginsService.call env request (atPath request s) with ⟨b, s'⟩
  cases b with
  | true => rfl
  | false =>
    simp only [Bool.false_eq_true, if_false, cgiRest]
    cases hf : find [47] (s'.urlName.drop 1) with
    | none => rfl
    | some pos =>
      simp only
      split_ifs <;> rfl

theorem doParsing_none (hservices : env.pathHash.find? (normalPath request.path) = none) :
    Task.doParsing env request s =
      match cgiRest env.config (normalPath request.path) with
      | none => (false, { s with urlName := normalPath request.path })
      | some rest => Task.callCgi env rest { s with urlName := normalPath request.path } := by
  rw [doParsing_eq, PluginsService.call, check_atPath, hservices]

/-- A CGI program is executed behind the filters of its name. -/
theorem callCgi_spec (h : Explained env request s.trace) (hmethod : parses request.method = true)
    (hservices : env.pathHash.find? (normalPath request.path) = none) {rest : Bytes}
    (hrest : cgiRest env.config (normalPath request.path) = some rest) :
    ∃ s' b, Task.callCgi env rest s = (b, s') ∧ Explained env request s'.trace ∧
      (b = false → s'.urlName = s.urlName) := by
  rw [Task.callCgi]
  simp only
  by_cases hfile : Task.cgiExists env { s with urlName := env.config.cgiPath.path ++ rest } ≠ []
  · obtain ⟨s', b, heq, hname, hexp, hall⟩ :=
      Explained.callFilter (s := { s with urlName := env.config.cgiPath.path ++ rest }) h
    rw [if_pos hfile, heq]
    cases b with
    | true => exact ⟨_, _, rfl, hexp, fun _ => rfl⟩
    | false =>
      refine ⟨_, _, rfl, hexp.snoc fun _ => ?_, by simp⟩
      rw [hname]
      exact .cgi hmethod hservices hrest (hall rfl)
  · rw [if_neg hfile]
    exact ⟨_, _, rfl, h, fun _ => rfl⟩

/-- `TASK_DO_PARSING` goes on with the normal path when no service has it. -/
theorem doParsing_spec (h : Explained env request s.trace) (hmethod : parses request.method = true) :
    ∃ s' b, Task.doParsing env request s = (b, s') ∧ Explained env request s'.trace ∧
      (b = false → s'.urlName = normalPath request.path ∧ env.pathHash.find? (normalPath request.path) = none) := by
  cases hservices : env.pathHash.find? (normalPath request.path) with
  | some services =>
    obtain ⟨s', heq, hexp⟩ := call_spec h hservices
    exact ⟨s', true, by rw [doParsing_eq, heq], hexp, by simp⟩
  | none =>
    rw [doParsing_none hservices]
    cases hrest : cgiRest env.config (normalPath request.path) with
    | none => exact ⟨_, _, rfl, h, fun _ => ⟨rfl, rfl⟩⟩
    | some rest =>
      obtain ⟨s', b, hcall, hexp, hname⟩ :=
        callCgi_spec (s := { s with urlName := normalPath request.path }) h hmethod hservices hrest
      exact ⟨s', b, hcall, hexp, fun hb => ⟨hname hb, rfl⟩⟩

theorem absolutePath_of_dirPath (home base : Bytes) (d : DirPath) (name : Bytes) :
    absolutePath home base (d.path ++ name) = d.path ++ name := by
  obtain ⟨tl, htl⟩ : ∃ tl, d.path = 47 :: tl := by
    cases hd : d.path with
    | nil => simpa [hd] using d.absolute
    | cons c tl => exact ⟨tl, by simpa [hd] using d.absolute⟩
  rw [absolutePath, if_pos (by simp [htl, strStartsWith, lit])]

/-- A file is opened only under the names of its resource. -/
theorem writeFile_spec (h : Explained env request s.trace) (hmethod : request.method = .get)
    (hservices : env.pathHash.find? (normalPath request.path) = none)
    (hdir : env.fs.isDirectory (cStr (staticName env.config (normalPath request.path))) = false)
    (hfilters : Consulted env s.trace (staticName env.config (normalPath request.path))) :
    Explained env request (Task.writeFile env (staticName env.config (normalPath request.path)) s).trace := by
  have hopen : ∀ p ∈ staticPaths env.config (normalPath request.path),
      Explained env request
        (if env.fs.canOpen p = true then s.emit (.file p) else s.emit (.writeDefault .forbidden)).trace := by
    intro p hp
    split_ifs
    · exact h.snoc fun _ => .file hmethod hservices hp hfilters
    · exact h.snoc (by simp [Event.IsResource])
  rw [Task.writeFile, staticName, absolutePath_of_dirPath, ← staticName, Task.transferCheck]
  by_cases hw : s.headersWrited = true
  · rw [if_pos hw]
    exact h
  rw [if_neg hw]
  simp only
  by_cases he : env.fs.fileExists (cStr (staticName env.config (normalPath request.path))) = true
  · -- the name itself
    rw [if_pos he]
    refine hopen _ (List.mem_append_left _ ?_)
    have hdots : ¬ IsDots (lastComponent (cStr (staticName env.config (normalPath request.path)))) := fun hd => by
      simp [env.fs.isDirectory_of_isDots _ hd he] at hdir
    rw [if_neg hdots]
    simp
  · rw [if_neg he]
    by_cases hh : env.fs.fileExists (cStr (staticName env.config (normalPath request.path) ++ lit ".html")) = true
    · -- the name as a page; it differs from the name only when there is no zero in it
      rw [if_pos hh]
      have hz : 0 ∉ staticName env.config (normalPath request.path) := fun hz => by
        rw [cStr_append_of_mem hz] at hh
        exact he hh
      have hcut : cStr (staticName env.config (normalPath request.path) ++ lit ".html") =
          staticName env.config (normalPath request.path) ++ lit ".html" :=
        cStr_of_not_mem (by simpa [hz] using (by decide : (0 : UInt8) ∉ lit ".html"))
      rw [hcut]
      refine hopen _ (List.mem_append_right _ ?_)
      rw [if_neg hz]
      simp
    · rw [if_neg hh]
      exact h.snoc (by simp [Event.IsResource])

theorem callGet_spec (h : Explained env request s.trace) (hmethod : request.method = .get) :
    Explained env request (Task.callGet env request s).trace := by
  obtain ⟨s', b, heq, hexp, hgo⟩ := doParsing_spec (s := s) h (by rw [hmethod]; rfl)
  rw [Task.callGet, heq]
  cases b with
  | true => exact hexp
  | false =>
    obtain ⟨hurl, hnone⟩ := hgo rfl
    simp only [Bool.false_eq_true, if_false]
    have hname : env.config.resourceRoot.path ++
        (if s'.urlName = lit "/" then { s' with urlName := env.config.defaultResource } else s').urlName =
        staticName env.config (normalPath request.path) := by
      rw [staticName, ← hurl]
      split_ifs <;> rfl
    have hs : (if s'.urlName = lit "/" then { s' with urlName := env.config.defaultResource } else s').trace =
        s'.trace := by split_ifs <;> rfl
    rw [hname]
    by_cases hd : env.fs.isDirectory (cStr (staticName env.config (normalPath request.path))) = true
    · rw [if_pos hd]
      exact (hs ▸ hexp).snoc (by simp [Event.IsResource])
    · rw [if_neg hd]
      obtain ⟨s'', b, heq, hname', hexp', hall⟩ := Explained.callFilter
        (s := { (if s'.urlName = lit "/" then { s' with urlName := env.config.defaultResource } else s') with
          urlName := staticName env.config (normalPath request.path) })
        (show Explained env request _ by simpa only [hs] using hexp)
      rw [heq]
      cases b with
      | true => exact hexp'
      | false =>
        simp only [Bool.false_eq_true, if_false]
        rw [hname']
        exact writeFile_spec hexp' hmethod hnone (by simpa using hd) (hall rfl)

theorem callOther_spec (h : Explained env request s.trace) (hmethod : parses request.method = true) :
    Explained env request (Task.callOther env request s).trace := by
  obtain ⟨s', b, heq, hexp, -⟩ := doParsing_spec h hmethod
  rw [Task.callOther, heq]
  cases b with
  | true => exact hexp
  | false => exact hexp.snoc (by simp [Event.IsResource])

theorem callHead_spec (h : Explained env request s.trace) :
    Explained env request (Task.callHead env request s).trace := by
  have hreply : ∀ (s' : TaskState) status, s'.trace = s.trace →
      Explained env request (s'.emit (.returnToNull status)).trace := by
    intro s' status hs
    exact (hs ▸ h).snoc (by simp [Event.IsResource])
  rw [Task.callHead]
  simp only [check_eq]
  split_ifs <;> exact hreply _ _ rfl

end Steps

/-- **Resources are reached** only in the ways of `Reaches`. -/
theorem run_reaches (env : Env) (request : Request) : Explained env request (Task.run env request).trace := by
  have hdispatch : Explained env request (Task.dispatch env request ⟨[], false, []⟩).trace := by
    unfold Task.dispatch
    cases hm : request.method with
    | get => exact callGet_spec explained_nil hm
    | post => exact callOther_spec explained_nil (by rw [hm]; rfl)
    | put => exact callOther_spec explained_nil (by rw [hm]; rfl)
    | delete => exact callOther_spec explained_nil (by rw [hm]; rfl)
    | head => exact callHead_spec explained_nil
    | options => exact explained_nil.snoc (by simp [Event.IsResource])
    | connect => exact explained_nil.snoc (by simp [Event.IsResource])
    | trach => exact explained_nil.snoc (by simp [Event.IsResource])
    | unknown => exact explained_nil.snoc (by simp [Event.IsResource])
  rw [Task.run]
  split_ifs
  · exact hdispatch
  · exact hdispatch.snoc (by simp [Event.IsResource])

/-! ## Resources that are reached -/

/-- A file system with one file, which is a directory when its name says so. -/
def onlyFile (p : Bytes) : FileSystem where
  fileExists q := q = p
  isDirectory q := q = p ∧ IsDots (lastComponent p)
  canOpen _ := true
  isDirectory_of_isDots q hd hq := by
    obtain rfl : q = p := by simpa using hq
    simp [hd]

/-- Filters that let everything pass. -/
def letPass : List Event → Bytes → FilterOutcome := fun _ _ => ⟨false, false⟩

/-- Filters of which the first one that is asked takes the request over. -/
def firstTakes : List Event → Bytes → FilterOutcome := fun t _ => ⟨t = [], false⟩

theorem consult_letPass {env : Env} {s : TaskState}
    (h : ∀ t f, s.trace <+: t → env.filterMethod t f = ⟨false, false⟩) (fs : List Bytes) :
    PluginsService.consult env fs s = (false, { s with trace := s.trace ++ fs.map (Event.filter · false) }) := by
  induction fs generalizing s with
  | nil => simp [PluginsService.consult]
  | cons f fs ih =>
    have hf : PluginsService.lambdaCallFilter env f s = (false, s.emit (.filter f false)) := by
      rw [PluginsService.lambdaCallFilter, h s.trace f List.prefix_rfl]
      simp [TaskState.emit]
    rw [PluginsService.consult, hf, if_neg Bool.false_ne_true,
      ih (s := s.emit (.filter f false)) fun t f' ht => h t f' ((List.prefix_append _ _).trans ht)]
    simp [TaskState.emit]

theorem consult_firstTakes {env : Env} {s : TaskState} {f : Bytes} (h : env.filterMethod s.trace f = ⟨true, false⟩)
    (fs : List Bytes) :
    PluginsService.consult env (f :: fs) s = (true, { s with trace := s.trace ++ [.filter f true] }) := by
  rw [PluginsService.consult, PluginsService.lambdaCallFilter, h]
  simp [TaskState.emit]

section Converse

variable (config : Config) (filters : FilterPaths) (pathHash : UMap Bytes (List Method)) {request : Request}

theorem run_eq_of_doParsing {env : Env} (hmethod : parses request.method = true) {s : TaskState}
    (h : Task.doParsing env request ⟨[], false, []⟩ = (true, s)) :
    ∃ post, (Task.run env request).trace = s.trace ++ post := by
  have hdispatch : Task.dispatch env request ⟨[], false, []⟩ = s := by
    unfold Task.dispatch
    cases hm : request.method with
    | get => simp [Task.callGet, h]
    | post => simp [Task.callOther, h]
    | put => simp [Task.callOther, h]
    | delete => simp [Task.callOther, h]
    | _ => simp [hm, parses] at hmethod
  rw [Task.run, hdispatch]
  split_ifs
  · exact ⟨[], by simp⟩
  · exact ⟨[.close], by simp⟩

/-- **A CGI program is executed** when it is the only file and no filter takes over. -/
theorem exists_cgi (hmethod : parses request.method = true)
    (hservices : pathHash.find? (normalPath request.path) = none) {rest : Bytes}
    (hrest : cgiRest config (normalPath request.path) = some rest) :
    ∃ post, (Task.run ⟨config, onlyFile (cStr (cgiName config rest)), filters, pathHash, letPass⟩ request).trace =
      (filters.paths.filter (fun f => Matches f (cgiName config rest))).map (Event.filter · false) ++
        .cgi (cStr (cgiName config rest)) :: post := by
  have hcgi : Task.doParsing ⟨config, onlyFile (cStr (cgiName config rest)), filters, pathHash, letPass⟩ request
      ⟨[], false, []⟩ = (true, ⟨cgiName config rest, false,
        (filters.paths.filter (fun f => Matches f (cgiName config rest))).map (Event.filter · false) ++
          [.cgi (cStr (cgiName config rest))]⟩) := by
    rw [doParsing_none hservices]
    simp only [hrest, Task.callCgi, Task.cgiExists, PluginsService.callFilter_eq]
    rw [← cgiName, if_pos (by simp [onlyFile, cgiName_ne_nil]), consult_letPass fun _ _ _ => rfl]
    simp [TaskState.emit]
  obtain ⟨post, hrun⟩ := run_eq_of_doParsing hmethod hcgi
  exact ⟨post, by rw [hrun]; simp⟩

/-- The only file is opened under every name it has. -/
theorem writeFile_onlyFile {env : Env} {url p : Bytes} (hp : p ∈ staticPaths env.config url)
    (hfs : env.fs = onlyFile p) {s : TaskState} (hw : s.headersWrited = false) :
    env.fs.isDirectory (cStr (staticName env.config url)) = false ∧
      Task.writeFile env (staticName env.config url) s = s.emit (.file p) := by
  rw [Task.writeFile, if_neg (by simp [hw]), staticName, absolutePath_of_dirPath, ← staticName, Task.transferCheck, hfs]
  rcases List.mem_append.mp hp with hp | hp
  · split_ifs at hp with hdots
    · cases hp
    obtain rfl : p = cStr (staticName env.config url) := by simpa using hp
    exact ⟨by simp [onlyFile, hdots], by simp [onlyFile]⟩
  · split_ifs at hp with hz
    · cases hp
    obtain rfl : p = staticName env.config url ++ lit ".html" := by simpa using hp
    have hcut : cStr (staticName env.config url ++ lit ".html") = staticName env.config url ++ lit ".html" :=
      cStr_of_not_mem (by simpa [hz] using (by decide : (0 : UInt8) ∉ lit ".html"))
    have hne : staticName env.config url ≠ staticName env.config url ++ lit ".html" := by
      rw [ne_eq, List.self_eq_append_right]
      decide
    rw [cStr_of_not_mem hz]
    exact ⟨by simp [onlyFile, hne], by simp [onlyFile, hne, hcut]⟩

/-- Behind `TASK_DO_PARSING`, the only file is opened when no filter takes over any more. -/
theorem callGet_onlyFile {env : Env} {p : Bytes} (hp : p ∈ staticPaths env.config (normalPath request.path))
    (hfs : env.fs = onlyFile p) {t : List Event}
    (hparse : Task.doParsing env request ⟨[], false, []⟩ = (false, ⟨normalPath request.path, false, t⟩))
    (hquiet : ∀ t' f, t <+: t' → env.filterMethod t' f = ⟨false, false⟩) :
    (Task.callGet env request ⟨[], false, []⟩).trace =
      t ++ (env.filterPathMap.paths.filter (fun f => Matches f (staticName env.config (normalPath request.path)))).map
        (Event.filter · false) ++ [.file p] := by
  have hname : env.config.resourceRoot.path ++ (if normalPath request.path = lit "/" then
      (⟨env.config.defaultResource, false, t⟩ : TaskState) else ⟨normalPath request.path, false, t⟩).urlName =
      staticName env.config (normalPath request.path) := by
    rw [staticName]
    split_ifs <;> rfl
  have hstate : ∀ u : Bytes, { (if normalPath request.path = lit "/" then
      (⟨env.config.defaultResource, false, t⟩ : TaskState) else ⟨normalPath request.path, false, t⟩) with
      urlName := u } = ⟨u, false, t⟩ := by
    intro u
    split_ifs <;> rfl
  have hfile := fun s hw => writeFile_onlyFile hp hfs (s := s) hw
  rw [Task.callGet, hparse]
  simp only [Bool.false_eq_true, if_false, hname, hstate, (hfile ⟨[], false, []⟩ rfl).1, PluginsService.callFilter_eq]
  rw [consult_letPass (s := ⟨_, false, t⟩) hquiet]
  simp only [Bool.false_eq_true, if_false]
  rw [(hfile _ rfl).2]
  simp

/-- The same for a whole run: of the filters that are let pass in front of the file, all match its name. -/
theorem run_onlyFile {env : Env} (hmethod : request.method = .get) {p : Bytes}
    (hp : p ∈ staticPaths env.config (normalPath request.path)) (hfs : env.fs = onlyFile p) {t : List Event}
    (hparse : Task.doParsing env request ⟨[], false, []⟩ = (false, ⟨normalPath request.path, false, t⟩))
    (hquiet : ∀ t' f, t <+: t' → env.filterMethod t' f = ⟨false, false⟩) (ht : ∀ f, Event.filter f false ∉ t) :
    ∃ pre post, (Task.run env request).trace = pre ++ .file p :: post ∧
      ∀ f, Event.filter f false ∈ pre → Matches f (staticName env.config (normalPath request.path)) := by
  have hget := callGet_onlyFile hp hfs hparse hquiet
  refine ⟨t ++ (env.filterPathMap.paths.filter
    (fun f => Matches f (staticName env.config (normalPath request.path)))).map (Event.filter · false),
    if request.keepAlive then [] else [.close], ?_, fun f hf => ?_⟩
  · rw [Task.run, Task.dispatch, hmethod]
    simp only
    split_ifs
    · simpa using hget
    · simpa using congrArg (· ++ [Event.close]) hget
  · rcases List.mem_append.mp hf with hf | hf
    · exact absurd hf (ht f)
    · obtain ⟨f', hf', heq⟩ := List.mem_map.mp hf
      obtain rfl : f' = f := by simpa using heq
      simpa using (List.mem_filter.mp hf').2

/-- **A file is opened** under every name of its resource, unless a CGI program without filters has the same name. -/
theorem exists_file (hmethod : request.method = .get)
    (hservices : pathHash.find? (normalPath request.path) = none) {p : Bytes}
    (hp : p ∈ staticPaths config (normalPath request.path))
    (hshadow : ∀ rest, cgiRest config (normalPath request.path) = some rest → p = cStr (cgiName config rest) →
      ∃ f ∈ filters.paths, Matches f (cgiName config rest)) :
    ∃ (fs : FileSystem) (filterMethod : List Event → Bytes → FilterOutcome) (pre post : List Event),
      (Task.run ⟨config, fs, filters, pathHash, filterMethod⟩ request).trace = pre ++ .file p :: post ∧
        ∀ f, Event.filter f false ∈ pre → Matches f (staticName config (normalPath request.path)) := by
  by_cases hcgi : ∃ rest, cgiRest config (normalPath request.path) = some rest ∧ p = cStr (cgiName config rest)
  · -- the file is the CGI program as well: its first filter takes the request over
    obtain ⟨rest, hrest, hpc⟩ := hcgi
    obtain ⟨f, hf, hm⟩ := hshadow rest hrest hpc
    obtain ⟨f₀, fs, hfs⟩ := List.exists_cons_of_ne_nil (List.ne_nil_of_mem
      (List.mem_filter.mpr ⟨hf, by simpa using hm⟩ :
        f ∈ filters.paths.filter (fun f => Matches f (cgiName config rest))))
    refine ⟨onlyFile p, firstTakes,
      run_onlyFile hmethod hp
        (show (⟨config, onlyFile p, filters, pathHash, firstTakes⟩ : Env).fs = onlyFile p from rfl)
      (t := [.filter f₀ true]) ?_ (fun t' f' ht => ?_) (by simp)⟩
    · rw [doParsing_none hservices]
      simp only [hrest, Task.callCgi, Task.cgiExists, PluginsService.callFilter_eq]
      rw [← cgiName, if_pos (by simp [onlyFile, hpc, cgiName_ne_nil]), hfs, consult_firstTakes (by simp [firstTakes])]
      simp
    · have hne : t' ≠ [] := fun h => by simp [h] at ht
      simp [firstTakes, hne]
  · refine ⟨onlyFile p, letPass,
      run_onlyFile hmethod hp
        (show (⟨config, onlyFile p, filters, pathHash, letPass⟩ : Env).fs = onlyFile p from rfl)
      (t := []) ?_ (fun _ _ _ => rfl) (by simp)⟩
    rw [doParsing_none hservices]
    cases hrest : cgiRest config (normalPath request.path) with
    | none => simp
    | some rest =>
      have hne : cStr (cgiName config rest) ≠ p := fun h => hcgi ⟨rest, hrest, h.symm⟩
      simp only [Task.callCgi, Task.cgiExists]
      rw [← cgiName, if_neg (by simp [onlyFile, hne])]

end Converse

/-! ## The filters of a path -/

/-- Whatever files there are and whatever the filters answer: the filters that match the path have been asked, and let
the request pass, before a resource is executed or opened. -/
def FiltersConsulted (config : Config) (filters : FilterPaths) (pathHash : UMap Bytes (List Method))
    (request : Request) : Prop :=
  ∀ (fs : FileSystem) (filterMethod : List Event → Bytes → FilterOutcome) (pre : List Event) (e : Event)
    (post : List Event), (Task.run ⟨config, fs, filters, pathHash, filterMethod⟩ request).trace = pre ++ e :: post →
    e.IsResource → ∀ f ∈ filters.paths, Matches f (normalPath request.path) → Event.filter f false ∈ pre

/-- The filters that match the path match the names of its CGI program and of its file as well. -/
def NamesMatch (config : Config) (filters : FilterPaths) (request : Request) : Prop :=
  (parses request.method = true → ∀ rest, cgiRest config (normalPath request.path) = some rest →
    ∀ f ∈ filters.paths, Matches f (normalPath request.path) → Matches f (cgiName config rest)) ∧
  (request.method = .get → staticPaths config (normalPath request.path) ≠ [] →
    ∀ f ∈ filters.paths, Matches f (normalPath request.path) →
      Matches f (staticName config (normalPath request.path)))

/-- **The filters of a path** are consulted if and only if the path has a service, or they match the names of its
resources. -/
theorem filtersConsulted_iff (config : Config) (filters : FilterPaths) (pathHash : UMap Bytes (List Method))
    (request : Request) :
    FiltersConsulted config filters pathHash request ↔
      pathHash.find? (normalPath request.path) ≠ none ∨ NamesMatch config filters request := by
  constructor
  · intro hall
    by_cases hservices : pathHash.find? (normalPath request.path) = none
    · have hcgi : parses request.method = true → ∀ rest, cgiRest config (normalPath request.path) = some rest →
          ∀ f ∈ filters.paths, Matches f (normalPath request.path) → Matches f (cgiName config rest) := by
        intro hmethod rest hrest f hf hm
        obtain ⟨post, htrace⟩ := exists_cgi config filters pathHash hmethod hservices hrest
        obtain ⟨f', hf', heq⟩ := List.mem_map.mp (hall _ _ _ _ _ htrace trivial f hf hm)
        obtain rfl : f' = f := by simpa using heq
        simpa using (List.mem_filter.mp hf').2
      refine Or.inr ⟨hcgi, fun hmethod hne f hf hm => ?_⟩
      obtain ⟨p, hp⟩ := List.exists_mem_of_ne_nil _ hne
      obtain ⟨fs, filterMethod, pre, post, htrace, hpre⟩ := exists_file config filters pathHash hmethod hservices hp
        fun rest hrest _ => ⟨f, hf, hcgi (by rw [hmethod]; rfl) rest hrest f hf hm⟩
      exact hpre f (hall _ _ _ _ _ htrace trivial f hf hm)
    · exact Or.inl hservices
  · intro hcond fs filterMethod pre e post htrace hres f hf hm
    cases run_reaches _ request pre e post htrace hres with
    | handler _ hfilters => exact hfilters f hf hm
    | cgi hmethod hservices hrest hfilters =>
      exact hfilters f hf ((hcond.resolve_left (not_not.mpr hservices)).1 hmethod _ hrest f hf hm)
    | file hmethod hservices hp hfilters =>
      exact hfilters f hf ((hcond.resolve_left (not_not.mpr hservices)).2 hmethod (List.ne_nil_of_mem hp) f hf hm)

/-- Resources under `/srv/www/`, programs under `/srv/cgi/`. -/
def plainConfig : Config where
  resourceRoot := ⟨lit "/srv/www/", by decide, by decide, by decide⟩
  cgiPath := ⟨lit "/srv/cgi/", by decide, by decide, by decide⟩
  cgiAccess := lit "/cgi-bin"
  defaultResource := lit "/index.html"
  home := lit "/root"

/-- A filter of `/admin` is not asked about a file under that path. -/
theorem not_filtersConsulted_admin :
    ¬ ∀ config filters pathHash request, FiltersConsulted config filters pathHash request := by
  intro hall
  have htrace : (Task.run ⟨plainConfig, onlyFile (lit "/srv/www//admin/x"), ⟨[lit "/admin"], by simp, by decide⟩,
      UMap.empty, letPass⟩ { Request.new with method := .get, version := lit "1.1", path := lit "/admin/x" }).trace =
      [] ++ .file (lit "/srv/www//admin/x") :: [] := by decide +kernel
  have hmem := hall _ _ _ _ _ _ _ _ _ htrace trivial (lit "/admin") (by simp) (by decide)
  cases hmem

end Gts3.Web
