import Gts3.Lib.HttpMessage
import Gts3.Lib.Overlay
import Gts3.Lib.Trim

/-!
# RFC 6265, section 5: the cookies of a client

What a client keeps of the answers of one host, and what it sends along with a request.  Cookies that are for the host
alone and that last as long as the client are kept under their name and path (`find?_receive`).  Those with longer paths
are sent first, so the last one of a name is the one with the shortest path (`Sends.lastValue_iff`).
-/

namespace Lib.CookieJar

open Search Cxx HttpMessage Overlay

/-! ## Paths -/

/-- The directory of a path. -/
def defaultPath (path : Bytes) : Bytes :=
  let dir := (path.rdropWhile (· ≠ 47)).dropLast
  if path.head? ≠ some 47 ∨ dir = [] then [47] else dir

/-- The path of a request lies below the path of a cookie. -/
def PathMatches (cookiePath path : Bytes) : Prop :=
  cookiePath = path ∨
    (cookiePath <+: path ∧ (cookiePath.getLast? = some 47 ∨ (path.drop cookiePath.length).head? = some 47))

instance (cookiePath path : Bytes) : Decidable (PathMatches cookiePath path) := inferInstanceAs (Decidable (_ ∨ _))

theorem PathMatches.isPrefix {cookiePath path : Bytes} (h : PathMatches cookiePath path) : cookiePath <+: path := by
  rcases h with rfl | ⟨hfront, -⟩
  · exact List.prefix_rfl
  · exact hfront

/-! ## Set-Cookie -/

/-- What stands in front of the first `=`. -/
def nameOf (text : Bytes) : Bytes := Trim.trim Trim.isBlank (text.takeWhile (· ≠ 61))

/-- What stands behind it. -/
def valueOf (text : Bytes) : Bytes := Trim.trim Trim.isBlank ((text.dropWhile (· ≠ 61)).drop 1)

/-- The value of the last attribute with the name. -/
def attributeValue (name : Bytes) (attributes : List Bytes) : Option Bytes :=
  (attributes.reverse.find? fun av => SameName (nameOf av) name).map valueOf

/-- What is kept of a cookie. -/
structure Stored where
  value : Bytes
  secure : Bool
  deriving DecidableEq

/-- The path of a cookie: the attribute when it is an absolute path. -/
def cookiePath (default : Bytes) (attributes : List Bytes) : Bytes :=
  match attributeValue (lit "Path") attributes with
  | none => default
  | some path => if path.head? = some 47 then path else default

/-- A value of `Set-Cookie`: name and path, and what is kept under them. -/
def parse (default field : Bytes) : Option ((Bytes × Bytes) × Stored) :=
  match field.splitOn 59 with
  | [] => none
  | pair :: attributes =>
    if 61 ∉ pair ∨ nameOf pair = [] then none
    else some ((nameOf pair, cookiePath default attributes),
      ⟨valueOf pair, (attributeValue (lit "Secure") attributes).isSome⟩)

/-- The cookies that a client has, under their names and paths. -/
abbrev Jar := UMap (Bytes × Bytes) Stored

/-- The cookies of an answer are kept. -/
def Jar.receive (default : Bytes) (jar : Jar) (fields : List (Bytes × Bytes)) : Jar :=
  ((fields.filter fun f => SameName f.1 (lit "set-cookie")).filterMap fun f => parse default f.2).foldl
    (fun jar e => jar.assign e.1 e.2) jar

/-! ## Cookie -/

/-- The cookie belongs to the request. -/
def Sendable (https : Bool) (path cookiePath : Bytes) (stored : Stored) : Prop :=
  PathMatches cookiePath path ∧ (stored.secure = true → https = true)

instance (https : Bool) (path cookiePath : Bytes) (stored : Stored) :
    Decidable (Sendable https path cookiePath stored) :=
  inferInstanceAs (Decidable (_ ∧ _))

/-- Names and values that the client sends: those with longer paths come first. -/
def Jar.Sends (jar : Jar) (https : Bool) (path : Bytes) (items : List (Bytes × Bytes)) : Prop :=
  ∃ l : List ((Bytes × Bytes) × Stored), l.Perm (jar.entries.filter fun e => Sendable https path e.1.2 e.2) ∧
    l.Pairwise (fun e e' => e'.1.2.length ≤ e.1.2.length) ∧ items = l.map fun e => (e.1.1, e.2.value)

/-- The text of the items. -/
def cookieString (items : List (Bytes × Bytes)) : Bytes :=
  (lit "; ").intercalate (items.map fun item => item.1 ++ 61 :: item.2)

/-! ## Reading one field -/

variable {name value : Bytes}

theorem nameOf_pair (hname : 61 ∉ name) (htrim : Trim.Trimmed Trim.isBlank name) (rest : Bytes) :
    nameOf (name ++ 61 :: rest) = name := by
  have htake : (name ++ 61 :: rest).takeWhile (· ≠ 61) = name := by
    rw [List.takeWhile_append_of_pos fun c hc => decide_eq_true (ne_of_mem_of_not_mem hc hname)]
    simp
  rw [nameOf, htake, htrim.trim_eq]

theorem valueOf_pair (hname : 61 ∉ name) (htrim : Trim.Trimmed Trim.isBlank value) :
    valueOf (name ++ 61 :: value) = value := by
  have hdrop : (name ++ 61 :: value).dropWhile (· ≠ 61) = 61 :: value := by
    rw [List.dropWhile_append_of_pos fun c hc => decide_eq_true (ne_of_mem_of_not_mem hc hname)]
    simp
  rw [valueOf, hdrop, List.drop_one, List.tail_cons, htrim.trim_eq]

/-! ## The jar -/

/-- **Assignments**: the jar finds what was kept last. -/
theorem find?_receive (default : Bytes) (jar : Jar) (fields : List (Bytes × Bytes)) (key : Bytes × Bytes) :
    (jar.receive default fields).find? key =
      (lastValue key ((fields.filter fun f => SameName f.1 (lit "set-cookie")).filterMap fun f => parse default f.2)).or
        (jar.find? key) := by
  rw [Jar.receive, find?_foldl_assign, overlay_apply]

/-- Of two cookies for a request the paths are the same when they are of one length. -/
theorem Sendable.path_eq {https : Bool} {path cookiePath cookiePath' : Bytes} {stored stored' : Stored}
    (h : Sendable https path cookiePath stored) (h' : Sendable https path cookiePath' stored')
    (hlen : cookiePath.length = cookiePath'.length) : cookiePath = cookiePath' :=
  (List.prefix_of_prefix_length_le h.1.isPrefix h'.1.isPrefix hlen.le).eq_of_length hlen

/-- The last item of a name in a list in which the paths become shorter. -/
theorem exists_shortest {l : List ((Bytes × Bytes) × Stored)}
    (hsorted : l.Pairwise fun e e' => e'.1.2.length ≤ e.1.2.length)
    (h : lastValue name (l.map fun e => (e.1.1, e.2.value)) = some value) :
    ∃ e ∈ l, e.1.1 = name ∧ e.2.value = value ∧ ∀ e' ∈ l, e'.1.1 = name → e.1.2.length ≤ e'.1.2.length := by
  induction l with
  | nil => cases h
  | cons e l ih =>
    obtain ⟨hhead, htail⟩ := List.pairwise_cons.mp hsorted
    rw [List.map_cons, lastValue, Option.or_eq_some_iff] at h
    rcases h with h | ⟨hnone, h⟩
    · obtain ⟨e₀, he₀, hname, hvalue, hleast⟩ := ih htail h
      refine ⟨e₀, List.mem_cons_of_mem _ he₀, hname, hvalue, fun e' he' hname' => ?_⟩
      rcases List.mem_cons.mp he' with rfl | he'
      · exact hhead e₀ he₀
      · exact hleast e' he' hname'
    · rw [Option.ite_none_right_eq_some, Option.some.injEq] at h
      refine ⟨e, List.mem_cons_self, h.1, h.2, fun e' he' hname' => ?_⟩
      rcases List.mem_cons.mp he' with rfl | he'
      · exact le_rfl
      · have hmem : name ∈ (l.map fun e => (e.1.1, e.2.value)).map Prod.fst := by
          rw [List.map_map]
          exact List.mem_map.mpr ⟨e', he', hname'⟩
        exact absurd hmem (lastValue_eq_none_iff.mp hnone)

/-- The value under the name that belongs to the request and has the shortest path. -/
def Shortest (find : Bytes × Bytes → Option Stored) (https : Bool) (path name value : Bytes) : Prop :=
  ∃ cookiePath stored, find (name, cookiePath) = some stored ∧ Sendable https path cookiePath stored ∧
    stored.value = value ∧ ∀ cookiePath' stored', find (name, cookiePath') = some stored' →
      Sendable https path cookiePath' stored' → cookiePath.length ≤ cookiePath'.length

/-- **The last item of a name** is the cookie with the shortest path. -/
theorem Jar.Sends.lastValue_iff {jar : Jar} {https : Bool} {path : Bytes} {items : List (Bytes × Bytes)}
    (h : jar.Sends https path items) :
    lastValue name items = some value ↔ Shortest jar.find? https path name value := by
  obtain ⟨l, hperm, hsorted, rfl⟩ := h
  have hmem : ∀ e, e ∈ l ↔ jar.find? e.1 = some e.2 ∧ Sendable https path e.1.2 e.2 := by
    intro e
    rw [hperm.mem_iff, List.mem_filter, decide_eq_true_iff, UMap.find?_eq_some_iff]
  have hshortest : ∀ {value}, lastValue name (l.map fun e => (e.1.1, e.2.value)) = some value →
      Shortest jar.find? https path name value := by
    intro value hlast
    obtain ⟨⟨⟨_, cookiePath⟩, stored⟩, he, rfl, hvalue, hleast⟩ := exists_shortest hsorted hlast
    obtain ⟨hfind, hsendable⟩ := (hmem _).mp he
    refine ⟨cookiePath, stored, hfind, hsendable, hvalue, fun cookiePath' stored' hfind' hsendable' => ?_⟩
    exact hleast ((_, cookiePath'), stored') ((hmem _).mpr ⟨hfind', hsendable'⟩) rfl
  refine ⟨hshortest, ?_⟩
  rintro ⟨cookiePath, stored, hfind, hsendable, rfl, hleast⟩
  have hin : name ∈ (l.map fun e => (e.1.1, e.2.value)).map Prod.fst := by
    rw [List.map_map]
    exact List.mem_map.mpr ⟨((name, cookiePath), stored), (hmem _).mpr ⟨hfind, hsendable⟩, rfl⟩
  obtain ⟨value, hlast⟩ := Option.ne_none_iff_exists'.mp (mt lastValue_eq_none_iff.mp (not_not.mpr hin))
  -- the two shortest paths are one
  obtain ⟨cookiePath', stored', hfind', hsendable', rfl, hleast'⟩ := hshortest hlast
  obtain rfl := hsendable.path_eq hsendable'
    (le_antisymm (hleast _ _ hfind' hsendable') (hleast' _ _ hfind hsendable))
  rw [hlast, Option.some.inj (hfind.symm.trans hfind')]

/-- The items that are sent are cookies of the jar. -/
theorem Jar.Sends.mem {jar : Jar} {https : Bool} {path : Bytes} {items : List (Bytes × Bytes)}
    (h : jar.Sends https path items) {item : Bytes × Bytes} (hitem : item ∈ items) :
    ∃ cookiePath stored, jar.find? (item.1, cookiePath) = some stored ∧ item.2 = stored.value := by
  obtain ⟨l, hperm, -, rfl⟩ := h
  obtain ⟨⟨⟨name, cookiePath⟩, stored⟩, he, rfl⟩ := List.mem_map.mp hitem
  exact ⟨cookiePath, stored, UMap.find?_eq_some_iff.mpr (List.mem_filter.mp (hperm.mem_iff.mp he)).1, rfl⟩

end Lib.CookieJar
