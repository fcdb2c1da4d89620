import Gts3.Http.Segmentation
import Gts3.Lib.DotPath
import Gts3.Web.Dispatch

/-!
# Where the opened and executed files lie

Neither the parser nor the task looks at the components of a path, so a percent-encoded or plain `..` gets into the
name of a file.  The files of a request lie in their directories exactly when its path re-enters the directories it
leaves (`confined_iff`).
-/

namespace Gts3.Web

open Lib Lib.Search Lib.Cxx Lib.DotPath Gts3.Http

/-! ## Lexical resolution -/

/-- What a component of a path does. -/
def step (component : Bytes) : Step Bytes :=
  if component = [] ∨ component = lit "." then .stay
  else if component = lit ".." then .up
  else .down component

/-- The steps of a path. -/
def steps (path : Bytes) : List (Step Bytes) := (path.splitOn 47).map step

/-- An absolute path without its dots. -/
def resolve (path : Bytes) : List Bytes := walk [] (steps path)

/-- The path lies in the directory or under it. -/
def Under (dir path : Bytes) : Prop := resolve dir <+: resolve path

/-- A relative path goes down again into the directories it leaves, the last ones of the directory it starts from. -/
def Reenters (dir : List Bytes) (path : Bytes) : Prop :=
  dir.drop (dir.length - (climb (steps path)).1) <+: (climb (steps path)).2

instance (dir : List Bytes) (path : Bytes) : Decidable (Reenters dir path) := inferInstanceAs (Decidable (_ <+: _))

namespace DirPath

variable (d : DirPath)

theorem exists_slash : ∃ a, d.path = a ++ [47] := by
  obtain ⟨a, ha⟩ := List.getLast?_eq_some_iff.mp d.slash
  exact ⟨a, ha⟩

theorem resolve_append (rest : Bytes) : resolve (d.path ++ rest) = walk (resolve d.path) (steps rest) := by
  obtain ⟨a, ha⟩ := d.exists_slash
  have hsteps : ∀ b : Bytes, steps (a ++ 47 :: b) = steps a ++ steps b := fun b => by
    rw [steps, List.splitOn_append_cons_self, List.map_append, steps, steps]
  have hdir : resolve d.path = walk [] (steps a) := by
    rw [resolve, ha, hsteps, walk_append]
    rfl
  rw [hdir, ha, resolve, List.append_assoc, List.singleton_append, hsteps, walk_append]

/-- **A path in a directory** lies under it if and only if it re-enters it. -/
theorem under_append_iff (rest : Bytes) : Under d.path (d.path ++ rest) ↔ Reenters (resolve d.path) rest := by
  rw [Under, resolve_append, prefix_walk_iff, Reenters]

theorem cStr_append (rest : Bytes) : cStr (d.path ++ rest) = d.path ++ cStr rest :=
  List.takeWhile_append_of_pos fun c hc => by simpa using fun h0 : c = 0 => d.noNul (h0 ▸ hc)

theorem lastComponent_append (rest : Bytes) : lastComponent (d.path ++ rest) = lastComponent rest := by
  obtain ⟨a, ha⟩ := d.exists_slash
  rw [ha]
  induction rest using List.reverseRecOn with
  | nil => simp [lastComponent]
  | append_singleton l x ih =>
    rw [lastComponent, lastComponent, ← List.append_assoc, List.rtakeWhile_concat, List.rtakeWhile_concat]
    split_ifs
    · rw [← lastComponent, ← lastComponent, ih]
    · rfl

end DirPath

/-! ## The files of a request -/

/-- The relative paths of the files a static resource can stand for. -/
def staticTails (config : Config) (url : Bytes) : List Bytes :=
  let tail := if url = lit "/" then config.defaultResource else url
  (if IsDots (lastComponent (cStr tail)) then [] else [cStr tail]) ++ if 0 ∈ tail then [] else [tail ++ lit ".html"]

theorem staticPaths_eq (config : Config) (url : Bytes) :
    staticPaths config url = (staticTails config url).map (config.resourceRoot.path ++ ·) := by
  rw [staticPaths, staticTails, staticName]
  generalize (if url = lit "/" then config.defaultResource else url) = tail
  have hz : 0 ∈ config.resourceRoot.path ++ tail ↔ 0 ∈ tail := by simp [config.resourceRoot.noNul]
  simp only [DirPath.cStr_append, DirPath.lastComponent_append, hz, List.map_append]
  congr 1
  · split_ifs <;> rfl
  · split_ifs
    · rfl
    · simp

/-- A file is in the resource root, a CGI program in its directory. -/
def Event.Confined (config : Config) : Event → Prop
  | .file p => Under config.resourceRoot.path p
  | .cgi p => Under config.cgiPath.path p
  | _ => True

/-- Whatever plugins, filters and files there are: what is opened or executed for the request lies in its directory. -/
def Confined (config : Config) (request : Request) : Prop :=
  ∀ env : Env, env.config = config → ∀ e ∈ (Task.run env request).trace, e.Confined config

/-- The relative paths of the files that a request can reach re-enter the directories they leave. -/
def ReentersAll (config : Config) (request : Request) : Prop :=
  (parses request.method = true → ∀ rest, cgiRest config (normalPath request.path) = some rest →
    Reenters (resolve config.cgiPath.path) (cStr rest)) ∧
  (request.method = .get → ∀ tail ∈ staticTails config (normalPath request.path),
    Reenters (resolve config.resourceRoot.path) tail)

/-- A filter of everything. -/
def everything : FilterPaths := ⟨[lit "/"], by simp, by decide⟩

/-- The name of a file that can be opened has no slash at its end. -/
theorem ne_slash_of_mem_staticPaths {config : Config} {url p : Bytes} (hp : p ∈ staticPaths config url) :
    p ≠ lit "/" := by
  rintro rfl
  rcases List.mem_append.mp hp with hp | hp
  · split_ifs at hp with hdots
    · cases hp
    · refine hdots (Or.inl ?_)
      rw [← List.mem_singleton.mp hp]
      rfl
  · split_ifs at hp with hz
    · cases hp
    · have hlen := congrArg List.length (List.mem_singleton.mp hp)
      simp [lit] at hlen

/-- **Confinement.**  The files of a request lie in their directories if and only if the relative paths it can reach
re-enter the directories they leave. -/
theorem confined_iff (config : Config) (request : Request) : Confined config request ↔ ReentersAll config request := by
  constructor
  · intro hall
    constructor
    · intro hmethod rest hrest
      obtain ⟨post, htrace⟩ := exists_cgi config everything UMap.empty hmethod rfl hrest
      have hunder := hall _ rfl (.cgi (cStr (cgiName config rest))) (by rw [htrace]; simp)
      rw [Event.Confined, cgiName, DirPath.cStr_append, DirPath.under_append_iff] at hunder
      exact hunder
    · intro hmethod tail htail
      have hp : config.resourceRoot.path ++ tail ∈ staticPaths config (normalPath request.path) := by
        rw [staticPaths_eq]
        exact List.mem_map_of_mem htail
      -- a CGI program of the same name has a filter
      have hshadow : ∀ rest, cgiRest config (normalPath request.path) = some rest →
          config.resourceRoot.path ++ tail = cStr (cgiName config rest) →
          ∃ f ∈ everything.paths, Matches f (cgiName config rest) := by
        intro rest _ heq
        obtain ⟨tl, htl⟩ : ∃ tl, cgiName config rest = 47 :: tl := by
          have habs := config.cgiPath.absolute
          cases hd : config.cgiPath.path with
          | nil => simp [hd] at habs
          | cons c l => exact ⟨l ++ rest, by simpa [cgiName, hd] using habs⟩
        refine ⟨lit "/", by simp [everything], by simp [htl, lit], fun _ hroot => ne_slash_of_mem_staticPaths hp ?_⟩
        rw [heq, hroot]
        rfl
      obtain ⟨fs, filterMethod, pre, post, htrace, -⟩ :=
        exists_file config everything UMap.empty hmethod rfl hp hshadow
      have hunder := hall _ rfl (.file (config.resourceRoot.path ++ tail)) (by rw [htrace]; simp)
      rw [Event.Confined, DirPath.under_append_iff] at hunder
      exact hunder
  · rintro ⟨hcgi, hfile⟩ env rfl e he
    obtain ⟨pre, post, htrace⟩ := List.append_of_mem he
    cases e with
    | file p =>
      cases run_reaches env request pre _ post htrace trivial with
      | file hmethod _ hp _ =>
        rw [staticPaths_eq] at hp
        obtain ⟨tail, htail, rfl⟩ := List.mem_map.mp hp
        exact (DirPath.under_append_iff _ _).mpr (hfile hmethod tail htail)
    | cgi p =>
      cases run_reaches env request pre _ post htrace trivial with
      | cgi hmethod _ hrest _ =>
        rw [Event.Confined, cgiName, DirPath.cStr_append]
        exact (DirPath.under_append_iff _ _).mpr (hcgi hmethod _ hrest)
    | _ => trivial

/-- A head with encoded dots in its path. -/
def encodedDotsHead : Head := ⟨lit "GET /%2e%2e/%2e%2e/etc/passwd HTTP/1.1", []⟩

theorem encodedDotsHead_accepted : encodedDotsHead.Accepted where
  requestLine_noEnd := by decide
  requestLine_isSome := Option.isSome_iff_exists.mp (by decide)
  header_noEnd := by decide
  header_colon := by decide
  cookiesFit := by unfold Head.CookiesFit; decide

/-- The encoded dots lead out of the resource root. -/
theorem not_confined_encodedDots :
    ¬ ∀ (data : Bytes) (p : Parser) (request : Request), Parser.new.load data = .ok (true, p) →
      p.context = some request → ∀ config, Confined config request := by
  intro hall
  obtain ⟨p, hload, hctx⟩ := encodedDotsHead_accepted.load []
  have hconf := hall _ p _ hload hctx plainConfig
    ⟨plainConfig, onlyFile (lit "/srv/www//../../etc/passwd"), everything, UMap.empty, letPass⟩ rfl
    (.file (lit "/srv/www//../../etc/passwd")) (by decide)
  rw [Event.Confined, Under] at hconf
  revert hconf
  decide

end Gts3.Web
