import Gts3.Lib.Integers
import Gts3.Lib.Overlay
import Gts3.Lib.Transition
import Gts3.Http.RangeTransfer
import Gts3.Web.Registration

/-!
# `gts/web/service/cgi/service.cpp`, `process.cpp`, `process_unix.cpp`: the environment of a program

`cgi_service::call` adds the configured variables, those of the request and the connection, one for each header and one
for each cookie to the process.  `start` sets them in the child of `vfork`, which runs in the memory of the server until
it executes the program.  `environment_spec` says which variables a program has when its start is alone, and
`environments_run` what is left of the starts before it, and of those beside it.
-/

namespace Gts3.Web.CgiEnvironment

open Lib Lib.Cxx Lib.Overlay Lib.Transition Http

/-! ## `cgi_service::init` -/

/-- The order in which loops come by the pairs of unordered maps. -/
structure PairOrder where
  order : UMap Bytes Bytes → List (Bytes × Bytes)
  perm : ∀ m, (order m).Perm m.entries

/-- One element of `env_list`. -/
def configuredPair (env : Bytes) : Run (Bytes × Bytes) :=
  match Search.find [61] env with
  | none => do .ok (← strTrimmed env, [])
  | some pos => do .ok (← strTrimmed (← substr env 0 pos), ← strTrimmed (← substrFrom env (pos + 1)))

/-- The loop over `env_list`. -/
def configuredLoop : UMap Bytes Bytes → List Bytes → Run (UMap Bytes Bytes)
  | cgiEnv, [] => .ok cgiEnv
  | cgiEnv, env :: list => do
    let pair ← configuredPair env
    configuredLoop (cgiEnv.emplace pair.1 pair.2) list

/-- A build with TLS: the files of the certificate and of the key that are set, and `app::absolute_path`. -/
structure SslFiles where
  crtFile : Bytes
  keyFile : Bytes
  absolutePath : Bytes → Bytes

/-- What a build with TLS adds. -/
def sslVariables : Option SslFiles → List (Bytes × Bytes)
  | none => []
  | some files =>
    (if files.crtFile = [] then [] else [(lit "SSL_CRT_FILE", files.absolutePath files.crtFile)]) ++
      if files.keyFile = [] then [] else [(lit "SSL_KEY_FILE", files.absolutePath files.keyFile)]

/-- `cgi_service::init`: `g_cgi_env` from the setting. -/
def init (setting : Bytes) (ssl : Option SslFiles) : Run (UMap Bytes Bytes) := do
  let envList ← strSplit setting [59] true
  let cgiEnv ← configuredLoop UMap.empty envList
  .ok ((sslVariables ssl).foldl (fun m p => m.emplace p.1 p.2) cgiEnv)

/-! ## `cgi_service::call` -/

/-- `file_path`. -/
def filePath (fileName : Bytes) : Bytes :=
  if 47 ∈ fileName then fileName.rdropWhile (· ≠ 47) else lit "."

/-- `replace_http_to_env`. -/
def replaceHttpToEnv (str : Bytes) : Bytes := str.map fun c => if c = 45 then 95 else c

/-- What `call` is given beside the request: `url_name`, the file, the endpoints of the socket, `resource_root()`. -/
structure CgiScript where
  urlName : Bytes
  fileName : Bytes
  remoteAddress : Bytes
  localAddress : Bytes
  localPort : UInt16
  resourceRoot : Bytes

/-- The variables of the request and the connection.  The method is formatted as the number of the enumerator. -/
def metaVariables (r : Request) (c : CgiScript) : List (Bytes × Bytes) := [
  (lit "REQUEST_METHOD", formatInt (methodValue r.method)),
  (lit "QUERY_STRING", if r.parametersString = [] then lit "/" else r.parametersString),
  (lit "SCRIPT_NAME", c.urlName),
  (lit "SCRIPT_FILENAME", filePath c.fileName),
  (lit "REMOTE_ADDR", c.remoteAddress),
  (lit "GATEWAY_INTERFACE", lit "CGI/1.1"),
  (lit "SERVER_NAME", c.localAddress),
  (lit "SERVER_PORT", formatNat 10 c.localPort.toNat),
  (lit "SERVER_PROTOCOL", lit "HTTP/" ++ r.version),
  (lit "DOCUMENT_ROOT", c.resourceRoot),
  (lit "SERVER_SOFTWARE", lit "GTS/1.0(GTS/3.0.0 dev6)")]

/-- The variable of a header. -/
def headerName (key : Bytes) : Bytes := lit "HTTP_" ++ strToUpper (replaceHttpToEnv key)

/-- The variable of a cookie. -/
def cookieName (key : Bytes) : Bytes := lit "COOKIE_" ++ strToUpper (replaceHttpToEnv key)

/-- `process::add_env`, of a process that does not run. -/
def addEnv (env : UMap Bytes Bytes) (pair : Bytes × Bytes) : UMap Bytes Bytes := env.assign pair.1 pair.2

/-- `m_env`, as `call` fills it. -/
def processEnv (order : PairOrder) (cgiEnv : UMap Bytes Bytes) (r : Request) (c : CgiScript) : UMap Bytes Bytes :=
  let env := (order.order cgiEnv).foldl addEnv UMap.empty
  let env := (metaVariables r c).foldl addEnv env
  let env := r.headers.entries.foldl (fun env pair => addEnv env (headerName pair.1, pair.2)) env
  (order.order r.cookies).foldl (fun env pair => addEnv env (cookieName pair.1, pair.2)) env

/-! ## `process::start` -/

/-- An environment, as `getenv` sees it. -/
abbrev Environ := Bytes → Option Bytes

/-- The variable that `setenv` sets, of two C strings; an empty name and one with `=` are refused. -/
def exported (pair : Bytes × Bytes) : Option (Bytes × Bytes) :=
  if cStr pair.1 = [] ∨ 61 ∈ cStr pair.1 then none else some (cStr pair.1, cStr pair.2)

/-- `setenv(name, value, 1)`. -/
def setenv (environ : Environ) (pair : Bytes × Bytes) : Environ :=
  match exported pair with
  | none => environ
  | some (name, value) => Function.update environ name (some value)

/-- The loop of `start` over `m_env`. -/
def setAll (environ : Environ) (env : List (Bytes × Bytes)) : Environ := env.foldl setenv environ

theorem setenv_of_refused {pair : Bytes × Bytes} (h : exported pair = none) (environ : Environ) :
    setenv environ pair = environ := by
  rw [setenv, h]

theorem setenv_of_exported {pair p : Bytes × Bytes} (h : exported pair = some p) (environ : Environ) :
    setenv environ pair = Function.update environ p.1 (some p.2) := by
  rw [setenv, h]

theorem setAll_eq (environ : Environ) (env : List (Bytes × Bytes)) :
    setAll environ env = overlay environ (env.filterMap exported) := by
  induction env generalizing environ with
  | nil => rfl
  | cons pair env ih =>
    have hcons : setAll environ (pair :: env) = setAll (setenv environ pair) env := rfl
    rw [hcons, ih]
    cases hpair : exported pair with
    | none => rw [setenv_of_refused hpair, List.filterMap_cons_none hpair]
    | some p =>
      rw [setenv_of_exported hpair, List.filterMap_cons_some hpair]
      rfl

theorem exported_eq_some_iff {pair p : Bytes × Bytes} :
    exported pair = some p ↔ cStr pair.1 ≠ [] ∧ 61 ∉ cStr pair.1 ∧ p = (cStr pair.1, cStr pair.2) := by
  unfold exported
  split_ifs with h
  · simp only [false_iff, not_and]
    exact fun hne hno _ => h.elim hne hno
  · rw [not_or] at h
    simp [h, eq_comm]

/-! ## Names -/

/-- A name that a variable can have. -/
def EnvName (n : Bytes) : Prop := n ≠ [] ∧ 61 ∉ n ∧ 0 ∉ n

/-- The zero byte is behind the beginning of such a name. -/
theorem cStr_append_left {s : Bytes} (h : 0 ∉ s) (t : Bytes) : cStr (s ++ t) = s ++ cStr t :=
  List.takeWhile_append_of_pos fun c hc => by simpa using fun h0 : c = 0 => h (h0 ▸ hc)

/-- Other bytes than the dash and the letters stay as they are. -/
theorem mem_upper {c : UInt8} (hc : c = 0 ∨ c = 61) {key : Bytes} :
    c ∈ strToUpper (replaceHttpToEnv key) ↔ c ∈ key := by
  have hbyte : ∀ b : UInt8, toupper (if b = 45 then 95 else b) = c ↔ b = c := by
    rcases hc with rfl | rfl
    · exact forall_byte (by decide +kernel)
    · exact forall_byte (by decide +kernel)
  simp only [strToUpper, replaceHttpToEnv, List.map_map, List.mem_map, Function.comp_apply, hbyte, exists_eq_right]

theorem zero_not_mem_headerName {key : Bytes} (h : 0 ∉ key) : 0 ∉ headerName key := by
  rw [headerName, List.mem_append, mem_upper (Or.inl rfl)]
  exact fun h' => h'.elim (by decide) h

theorem zero_not_mem_cookieName {key : Bytes} (h : 0 ∉ key) : 0 ∉ cookieName key := by
  rw [cookieName, List.mem_append, mem_upper (Or.inl rfl)]
  exact fun h' => h'.elim (by decide) h

theorem envName_headerName {key : Bytes} (h0 : 0 ∉ key) (h61 : 61 ∉ key) : EnvName (headerName key) := by
  refine ⟨by simp [headerName, lit], ?_, zero_not_mem_headerName h0⟩
  rw [headerName, List.mem_append, mem_upper (Or.inr rfl)]
  exact fun h' => h'.elim (by decide) h61

theorem envName_cookieName {key : Bytes} (h0 : 0 ∉ key) (h61 : 61 ∉ key) : EnvName (cookieName key) := by
  refine ⟨by simp [cookieName, lit], ?_, zero_not_mem_cookieName h0⟩
  rw [cookieName, List.mem_append, mem_upper (Or.inr rfl)]
  exact fun h' => h'.elim (by decide) h61

/-- The names of the variables of a request. -/
def metaNames : List Bytes := (metaVariables Request.new ⟨[], [], [], [], 0, []⟩).map Prod.fst

theorem map_fst_metaVariables (r : Request) (c : CgiScript) : (metaVariables r c).map Prod.fst = metaNames := rfl

theorem mem_metaNames {r : Request} {c : CgiScript} {p : Bytes × Bytes} (hp : p ∈ metaVariables r c) :
    p.1 ∈ metaNames := by
  rw [← map_fst_metaVariables r c]
  exact List.mem_map_of_mem hp

theorem metaNames_nodup : metaNames.Nodup := by decide

theorem envName_of_mem_metaNames : ∀ n ∈ metaNames, EnvName n := by
  unfold EnvName
  decide

/-- No variable of the request begins as those of headers and cookies do. -/
theorem metaNames_head : ∀ n ∈ metaNames, ¬ lit "HTTP_" <+: n ∧ ¬ lit "COOKIE_" <+: n := by decide

/-- The variables of headers and cookies are different. -/
theorem headerName_ne_cookieName (key key' : Bytes) : headerName key ≠ cookieName key' := fun h => by
  have hhead : (headerName key).head? = (cookieName key').head? := congrArg List.head? h
  simp [headerName, cookieName, lit] at hhead

/-! ## What `call` adds -/

section ProcessEnv

variable (order : PairOrder) (g : UMap Bytes Bytes) (r : Request) (c : CgiScript)

/-- The pairs that are added, in order. -/
def addedPairs : List (Bytes × Bytes) :=
  order.order g ++ metaVariables r c ++ r.headers.entries.map (fun p => (headerName p.1, p.2)) ++
    (order.order r.cookies).map (fun p => (cookieName p.1, p.2))

theorem find?_processEnv (n : Bytes) : (processEnv order g r c).find? n = lastValue n (addedPairs order g r c) := by
  have hfold : processEnv order g r c = (addedPairs order g r c).foldl (fun m p => m.assign p.1 p.2) UMap.empty := by
    rw [addedPairs, List.foldl_append, List.foldl_append, List.foldl_append, List.foldl_map, List.foldl_map]
    rfl
  rw [hfold, find?_foldl_assign, overlay_apply]
  exact Option.or_none

theorem find?_processEnv_groups (n : Bytes) :
    (processEnv order g r c).find? n =
      (lastValue n ((order.order r.cookies).map fun p => (cookieName p.1, p.2))).or
        ((lastValue n (r.headers.entries.map fun p => (headerName p.1, p.2))).or
          ((lastValue n (metaVariables r c)).or (g.find? n))) := by
  rw [find?_processEnv, addedPairs, lastValue_append, lastValue_append, lastValue_append,
    lastValue_entries (order.perm g)]

theorem lastValue_headers {n : Bytes} (h : ∀ p ∈ r.headers.entries, headerName p.1 ≠ n) :
    lastValue n (r.headers.entries.map fun p => (headerName p.1, p.2)) = none := by
  rw [lastValue_eq_none_iff, List.map_map]
  intro hmem
  obtain ⟨p, hp, hname⟩ := List.mem_map.mp hmem
  exact h p hp hname

theorem lastValue_cookies {n : Bytes} (h : ∀ p ∈ r.cookies.entries, cookieName p.1 ≠ n) :
    lastValue n ((order.order r.cookies).map fun p => (cookieName p.1, p.2)) = none := by
  rw [lastValue_eq_none_iff, List.map_map]
  intro hmem
  obtain ⟨p, hp, hname⟩ := List.mem_map.mp hmem
  exact h p ((order.perm r.cookies).mem_iff.mp hp) hname

/-- **The variables of the request** are not changed by headers and cookies. -/
theorem find?_meta {p : Bytes × Bytes} (hp : p ∈ metaVariables r c) :
    (processEnv order g r c).find? p.1 = some p.2 := by
  obtain ⟨hheader, hcookie⟩ := metaNames_head p.1 (mem_metaNames hp)
  have hnocookie : ∀ q ∈ r.cookies.entries, cookieName q.1 ≠ p.1 := fun q _ h => hcookie (h ▸ List.prefix_append _ _)
  have hnoheader : ∀ q ∈ r.headers.entries, headerName q.1 ≠ p.1 := fun q _ h => hheader (h ▸ List.prefix_append _ _)
  have hnodup : ((metaVariables r c).map Prod.fst).Nodup := map_fst_metaVariables r c ▸ metaNames_nodup
  rw [find?_processEnv_groups, lastValue_cookies order r hnocookie, lastValue_headers r hnoheader, Option.none_or,
    Option.none_or, lastValue_of_nodup hnodup hp, Option.some_or]

/-- **A header**: of those with the same variable the greatest counts. -/
theorem find?_header {p : Bytes × Bytes} (hp : p ∈ r.headers.entries)
    (hlast : ∀ q ∈ r.headers.entries, headerName q.1 = headerName p.1 → lessCaseInsensitive p.1 q.1 = false) :
    (processEnv order g r c).find? (headerName p.1) = some p.2 := by
  rw [find?_processEnv_groups, lastValue_cookies order r fun q _ h => headerName_ne_cookieName _ _ h.symm,
    Option.none_or, lastValue_map_of_last r.headers.sorted hp hlast, Option.some_or]

/-- **A cookie**: of those with the same variable one counts. -/
theorem find?_cookie {p : Bytes × Bytes} (hp : p ∈ r.cookies.entries) :
    ∃ q ∈ r.cookies.entries, cookieName q.1 = cookieName p.1 ∧
      (processEnv order g r c).find? (cookieName p.1) = some q.2 := by
  have hmem : cookieName p.1 ∈ ((order.order r.cookies).map fun p => (cookieName p.1, p.2)).map Prod.fst := by
    rw [List.map_map]
    exact List.mem_map.mpr ⟨p, (order.perm r.cookies).mem_iff.mpr hp, rfl⟩
  obtain ⟨v, hlast, q, hq, hname, rfl⟩ := lastValue_spec
    (P := fun v => ∃ q ∈ r.cookies.entries, cookieName q.1 = cookieName p.1 ∧ q.2 = v) hmem fun e he hname => by
      obtain ⟨q, hq, rfl⟩ := List.mem_map.mp he
      exact ⟨q, (order.perm r.cookies).mem_iff.mp hq, hname, rfl⟩
  refine ⟨q, hq, hname, ?_⟩
  rw [find?_processEnv_groups, hlast, Option.some_or]

/-- **Other variables** are configured. -/
theorem find?_configured {n : Bytes} (hmeta : n ∉ metaNames) (hheaders : ∀ p ∈ r.headers.entries, headerName p.1 ≠ n)
    (hcookies : ∀ p ∈ r.cookies.entries, cookieName p.1 ≠ n) : (processEnv order g r c).find? n = g.find? n := by
  have hnone : lastValue n (metaVariables r c) = none :=
    lastValue_eq_none_iff.mpr (map_fst_metaVariables r c ▸ hmeta)
  rw [find?_processEnv_groups, lastValue_cookies order r hcookies, lastValue_headers r hheaders, hnone, Option.none_or,
    Option.none_or, Option.none_or]

theorem name_cases {e : Bytes × Bytes} (he : e ∈ (processEnv order g r c).entries) :
    e.1 ∈ g.entries.map Prod.fst ∨ e.1 ∈ metaNames ∨ (∃ p ∈ r.headers.entries, e.1 = headerName p.1) ∨
      ∃ p ∈ r.cookies.entries, e.1 = cookieName p.1 := by
  have hfind := UMap.find?_eq_some_iff.mpr he
  rw [find?_processEnv] at hfind
  have hmem := mem_of_lastValue hfind
  rw [addedPairs, List.mem_append, List.mem_append, List.mem_append] at hmem
  rcases hmem with ((hmem | hmem) | hmem) | hmem
  · exact Or.inl (List.mem_map_of_mem ((order.perm g).mem_iff.mp hmem))
  · exact Or.inr (Or.inl (mem_metaNames hmem))
  · obtain ⟨p, hp, hpair⟩ := List.mem_map.mp hmem
    exact Or.inr (Or.inr (Or.inl ⟨p, hp, (congrArg Prod.fst hpair).symm⟩))
  · obtain ⟨p, hp, hpair⟩ := List.mem_map.mp hmem
    exact Or.inr (Or.inr (Or.inr ⟨p, (order.perm r.cookies).mem_iff.mp hp, (congrArg Prod.fst hpair).symm⟩))

end ProcessEnv

/-! ## What is configured -/

/-- The name and the value of one element of the setting. -/
def configuredOf (env : Bytes) : Bytes × Bytes :=
  match Search.find [61] env with
  | none => (trimmed env, [])
  | some pos => (trimmed (env.take pos), trimmed (env.drop (pos + 1)))

/-- The pairs that `init` emplaces. -/
def configured (setting : Bytes) (ssl : Option SslFiles) : List (Bytes × Bytes) :=
  (tokens 59 setting).map configuredOf ++ sslVariables ssl

theorem configuredPair_eq (env : Bytes) : configuredPair env = .ok (configuredOf env) := by
  rw [configuredPair, configuredOf]
  cases hfind : Search.find [61] env with
  | none =>
    simp only [strTrimmed_eq]
    rfl
  | some pos =>
    have hle : pos + 1 ≤ env.length := Search.find_le hfind
    simp only [substr_zero, ok_bind, strTrimmed_eq, substrFrom_of_le hle]

theorem configuredLoop_eq (m : UMap Bytes Bytes) (list : List Bytes) :
    configuredLoop m list = .ok ((list.map configuredOf).foldl (fun m p => m.emplace p.1 p.2) m) := by
  induction list generalizing m with
  | nil => rfl
  | cons env list ih =>
    rw [configuredLoop, configuredPair_eq, ok_bind, ih]
    rfl

theorem init_eq (setting : Bytes) (ssl : Option SslFiles) :
    init setting ssl = .ok ((configured setting ssl).foldl (fun m p => m.emplace p.1 p.2) UMap.empty) := by
  rw [init, strSplit_tokens, ok_bind, configuredLoop_eq, ok_bind, configured, List.foldl_append]

theorem find?_foldl_emplace (m : UMap Bytes Bytes) (l : List (Bytes × Bytes)) (n : Bytes) :
    (l.foldl (fun m p => m.emplace p.1 p.2) m).find? n = (m.find? n).or (l.lookup n) := by
  induction l generalizing m with
  | nil => exact Option.or_none.symm
  | cons p l ih =>
    rw [List.foldl_cons, ih, UMap.find?_emplace, List.lookup_cons]
    by_cases h : n = p.1
    · subst h
      cases m.find? p.1 <;> simp
    · have hb : (n == p.1) = false := by simpa using h
      rw [if_neg h, hb]

theorem zero_not_mem_sslVariables {ssl : Option SslFiles} {p : Bytes × Bytes} (hp : p ∈ sslVariables ssl) :
    0 ∉ p.1 := by
  have hcrt : 0 ∉ lit "SSL_CRT_FILE" := by decide
  have hkey : 0 ∉ lit "SSL_KEY_FILE" := by decide
  cases ssl with
  | none => cases hp
  | some files =>
    rw [sslVariables, List.mem_append] at hp
    rcases hp with hp | hp
    · split_ifs at hp
      · cases hp
      · obtain rfl := List.mem_singleton.mp hp
        exact hcrt
    · split_ifs at hp
      · cases hp
      · obtain rfl := List.mem_singleton.mp hp
        exact hkey

theorem mem_of_mem_splitOn {c b : UInt8} {s t : Bytes} (h : t ∈ s.splitOn c) (hb : b ∈ t) : b ∈ s := by
  induction hn : s.length using Nat.strong_induction_on generalizing s with
  | _ n ih =>
    by_cases hc : c ∈ s
    · obtain ⟨u, v, rfl, hu⟩ := List.eq_append_cons_of_mem hc
      rw [List.splitOn_append_cons_self_of_not_mem hu] at h
      rcases List.mem_cons.mp h with rfl | ht
      · exact List.mem_append_left _ hb
      · have hmem := ih v.length (by simp at hn; omega) ht rfl
        exact List.mem_append_right _ (List.mem_cons_of_mem _ hmem)
    · rw [List.splitOn_eq_singleton hc, List.mem_singleton] at h
      exact h ▸ hb

/-- A setting without zero bytes gives names without them. -/
theorem zero_not_mem_configured {setting : Bytes} (h : 0 ∉ setting) {ssl : Option SslFiles} {p : Bytes × Bytes}
    (hp : p ∈ configured setting ssl) : 0 ∉ p.1 := by
  rcases List.mem_append.mp hp with hp | hp
  · obtain ⟨env, henv, rfl⟩ := List.mem_map.mp hp
    have hsub : (configuredOf env).1.Sublist env := by
      rw [configuredOf]
      split
      · exact trimmed_sublist env
      · exact (trimmed_sublist _).trans (List.take_sublist _ env)
    have hmem : env ∈ setting.splitOn 59 := List.mem_of_mem_filter henv
    exact fun h0 => h (mem_of_mem_splitOn hmem (hsub.subset h0))
  · exact zero_not_mem_sslVariables hp

/-! ## The environment of a program -/

/-- No other name is the same C string. -/
def Unambiguous (m : UMap Bytes Bytes) (n : Bytes) : Prop := ∀ e ∈ m.entries, cStr e.1 = n → e.1 = n

/-- **`start`** sets what is in `m_env`, in whatever order. -/
theorem setAll_apply {m : UMap Bytes Bytes} {l : List (Bytes × Bytes)} (hl : l.Perm m.entries) {n : Bytes}
    (hn : EnvName n) (hun : Unambiguous m n) (environ : Environ) :
    setAll environ l n = ((m.find? n).map cStr).or (environ n) := by
  obtain ⟨hne, heq, h0⟩ := hn
  -- a variable of this name comes from the entry of this name
  have hfrom : ∀ p ∈ l.filterMap exported, p.1 = n → ∃ v, (n, v) ∈ m.entries ∧ p.2 = cStr v := by
    intro p hp hname
    obtain ⟨e, he, hexported⟩ := List.mem_filterMap.mp hp
    obtain ⟨-, -, rfl⟩ := exported_eq_some_iff.mp hexported
    have hentry := hl.mem_iff.mp he
    obtain ⟨k, v⟩ := e
    obtain rfl : k = n := hun _ hentry hname
    exact ⟨v, hentry, rfl⟩
  rw [setAll_eq, overlay_apply]
  congr 1
  cases hfind : m.find? n with
  | none =>
    rw [Option.map_none, lastValue_eq_none_iff]
    intro hmem
    obtain ⟨p, hp, hname⟩ := List.mem_map.mp hmem
    obtain ⟨v, hentry, -⟩ := hfrom p hp hname
    rw [UMap.find?_eq_some_iff.mpr hentry] at hfind
    cases hfind
  | some v =>
    have hentry := UMap.find?_eq_some_iff.mp hfind
    have hexported : exported (n, v) = some (n, cStr v) := by
      rw [exported_eq_some_iff, cStr_of_not_mem h0]
      exact ⟨hne, heq, rfl⟩
    have hmem : n ∈ (l.filterMap exported).map Prod.fst :=
      List.mem_map_of_mem (List.mem_filterMap.mpr ⟨_, hl.mem_iff.mpr hentry, hexported⟩)
    rw [Option.map_some]
    refine lastValue_of_forall hmem fun p hp hname => ?_
    obtain ⟨w, hw, hvalue⟩ := hfrom p hp hname
    have hsame := UMap.find?_eq_some_iff.mpr hw
    rw [hfind, Option.some.injEq] at hsame
    rw [hvalue, hsame]

/-- Names of variables that other names are not confused with. -/
theorem unambiguous_meta {order : PairOrder} {g : UMap Bytes Bytes} (hg : ∀ e ∈ g.entries, 0 ∉ e.1) {r : Request}
    {c : CgiScript} {n : Bytes} (hn : n ∈ metaNames) : Unambiguous (processEnv order g r c) n := by
  intro e he hname
  obtain ⟨hheader, hcookie⟩ := metaNames_head n hn
  rcases name_cases order g r c he with h | h | ⟨p, -, h⟩ | ⟨p, -, h⟩
  · obtain ⟨e', he', hkey⟩ := List.mem_map.mp h
    rwa [cStr_of_not_mem (hkey ▸ hg e' he')] at hname
  · rwa [cStr_of_not_mem (envName_of_mem_metaNames _ h).2.2] at hname
  · rw [h, headerName, cStr_append_left (by decide)] at hname
    exact absurd (hname ▸ List.prefix_append _ _) hheader
  · rw [h, cookieName, cStr_append_left (by decide)] at hname
    exact absurd (hname ▸ List.prefix_append _ _) hcookie

theorem unambiguous_of_noNul {order : PairOrder} {g : UMap Bytes Bytes} (hg : ∀ e ∈ g.entries, 0 ∉ e.1) {r : Request}
    (hheaders : ∀ p ∈ r.headers.entries, 0 ∉ p.1) (hcookies : ∀ p ∈ r.cookies.entries, 0 ∉ p.1) {c : CgiScript}
    (n : Bytes) : Unambiguous (processEnv order g r c) n := by
  intro e he hname
  have h0 : 0 ∉ e.1 := by
    rcases name_cases order g r c he with h | h | ⟨p, hp, h⟩ | ⟨p, hp, h⟩
    · obtain ⟨e', he', hkey⟩ := List.mem_map.mp h
      exact hkey ▸ hg e' he'
    · exact (envName_of_mem_metaNames _ h).2.2
    · exact h ▸ zero_not_mem_headerName (hheaders p hp)
    · exact h ▸ zero_not_mem_cookieName (hcookies p hp)
  rwa [cStr_of_not_mem h0] at hname

/-- **The environment of a program** whose start is alone, in whatever order the unordered maps are.  The variables of
the request and the connection are not changed by what the peer sends, nor by what is configured.  Of headers that
differ in case, dashes and underscores only, the greatest name counts, and one of such cookies; other names have the
first configured value, or that of the server. -/
theorem environment_spec {setting : Bytes} (h : 0 ∉ setting) (ssl : Option SslFiles) (order order' : PairOrder)
    (r : Request) (c : CgiScript) (base : Environ) :
    ∃ g, init setting ssl = .ok g ∧
      let environ := setAll base (order'.order (processEnv order g r c))
      (∀ p ∈ metaVariables r c, environ p.1 = some (cStr p.2)) ∧
      ((∀ p ∈ r.headers.entries, 0 ∉ p.1) → (∀ p ∈ r.cookies.entries, 0 ∉ p.1) →
        (∀ p ∈ r.headers.entries, 61 ∉ p.1 →
          (∀ q ∈ r.headers.entries, headerName q.1 = headerName p.1 → lessCaseInsensitive p.1 q.1 = false) →
          environ (headerName p.1) = some (cStr p.2)) ∧
        (∀ p ∈ r.cookies.entries, 61 ∉ p.1 →
          ∃ q ∈ r.cookies.entries, cookieName q.1 = cookieName p.1 ∧ environ (cookieName p.1) = some (cStr q.2)) ∧
        ∀ n, EnvName n → n ∉ (metaVariables r c).map Prod.fst → (∀ p ∈ r.headers.entries, headerName p.1 ≠ n) →
          (∀ p ∈ r.cookies.entries, cookieName p.1 ≠ n) →
          environ n = (((configured setting ssl).lookup n).map cStr).or (base n)) := by
  obtain ⟨g, hg⟩ : ∃ g, g = (configured setting ssl).foldl (fun m p => m.emplace p.1 p.2) UMap.empty := ⟨_, rfl⟩
  have hfind (n : Bytes) : g.find? n = (configured setting ssl).lookup n := by
    rw [hg, find?_foldl_emplace]
    rfl
  have hnul : ∀ e ∈ g.entries, 0 ∉ e.1 := by
    intro e he
    have hlookup := UMap.find?_eq_some_iff.mpr he
    rw [hfind] at hlookup
    obtain ⟨_, _, hmem, -⟩ := List.lookup_eq_some_iff.mp hlookup
    have hpair : (e.1, e.2) ∈ configured setting ssl := hmem ▸ by simp
    exact zero_not_mem_configured h hpair
  have hperm := order'.perm (processEnv order g r c)
  refine ⟨g, hg ▸ init_eq setting ssl, fun p hp => ?_, fun hheaders hcookies => ⟨fun p hp heq hlast => ?_,
    fun p hp heq => ?_, fun n hn hmeta hnoheader hnocookie => ?_⟩⟩
  · have hname := mem_metaNames hp
    rw [setAll_apply hperm (envName_of_mem_metaNames _ hname) (unambiguous_meta hnul hname), find?_meta order g r c hp]
    rfl
  · rw [setAll_apply hperm (envName_headerName (hheaders p hp) heq) (unambiguous_of_noNul hnul hheaders hcookies _),
      find?_header order g r c hp hlast]
    rfl
  · obtain ⟨q, hq, hname, hvalue⟩ := find?_cookie order g r c hp
    refine ⟨q, hq, hname, ?_⟩
    rw [setAll_apply hperm (envName_cookieName (hcookies p hp) heq) (unambiguous_of_noNul hnul hheaders hcookies _),
      hvalue]
    rfl
  · rw [setAll_apply hperm hn (unambiguous_of_noNul hnul hheaders hcookies _),
      find?_configured order g r c (map_fst_metaVariables r c ▸ hmeta) hnoheader hnocookie, hfind]

/-- The header of a proxy, and another spelling of it from the peer. -/
def forwardedRequest : Request :=
  { Request.new with
    headers :=
      (OrdMap.empty.assign (lit "x-forwarded-for") (lit "10.0.0.1")).assign (lit "x_forwarded_for") (lit "::1") }

/-- The order of the entries. -/
def entriesOrder : PairOrder := ⟨UMap.entries, fun _ => List.Perm.refl _⟩

/-- A script in the directory of programs. -/
def testScript : CgiScript :=
  ⟨lit "/cgi-bin/test", lit "/srv/cgi/test", lit "192.0.2.1", lit "192.0.2.2", 8080, lit "/srv/resource/"⟩

/-- The peer's spelling is the one that the program sees, and a configured variable does not stand in the way of those
of the request. -/
theorem environment_spec_forwarded :
    ∃ g, init (lit "REMOTE_ADDR=0.0.0.0; LANG = C") none = .ok g ∧
      let environ := setAll (fun _ => none) (entriesOrder.order (processEnv entriesOrder g forwardedRequest testScript))
      environ (lit "REMOTE_ADDR") = some (lit "192.0.2.1") ∧
      environ (lit "HTTP_X_FORWARDED_FOR") = some (lit "::1") ∧ environ (lit "LANG") = some (lit "C") := by
  have hsetting : 0 ∉ lit "REMOTE_ADDR=0.0.0.0; LANG = C" := by decide
  obtain ⟨g, hinit, hmeta, hrest⟩ := environment_spec hsetting none entriesOrder entriesOrder forwardedRequest
    testScript fun _ => none
  obtain ⟨hheader, -, hother⟩ := hrest (by decide) (by decide)
  refine ⟨g, hinit, ?_, ?_, ?_⟩
  · exact hmeta (lit "REMOTE_ADDR", lit "192.0.2.1") (by decide)
  · exact hheader (lit "x_forwarded_for", lit "::1") (by decide) (by decide) (by decide)
  · have hname : EnvName (lit "LANG") := by
      unfold EnvName
      decide
    rw [hother (lit "LANG") hname (by decide) (by decide) (by decide)]
    decide

end Gts3.Web.CgiEnvironment
