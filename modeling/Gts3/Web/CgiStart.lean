import Gts3.Web.CgiEnvironment

/-!
# `process_unix.cpp`: starts of programs, one after the other and side by side

The child of `vfork` is in the memory of the server until `execvp`, and only the thread that has called `vfork` waits
for it.  So `setenv` changes the environment of the server, and the workers of other requests may do the same meanwhile.
`environments_run` says what the programs see.
-/

namespace Gts3.Web.CgiStart

open Lib Lib.Cxx Lib.Overlay Lib.Transition CgiEnvironment

/-- A child: the variables of its `m_env` in the order of the loop, those that are still to be set, and the environment
that `execvp` has been called with. -/
structure Child where
  sets : List (Bytes × Bytes)
  todo : List (Bytes × Bytes)
  executed : Option Environ

/-- `environ` of the server, and the children in the order of their starts. -/
structure Starts where
  environ : Environ
  children : List Child

/-- What happens in the children. -/
inductive StartEvent
  /-- `vfork`, for a process with this `m_env`, which the loop comes by in this order. -/
  | fork (env : UMap Bytes Bytes) (order : List (Bytes × Bytes))
  /-- One round of the loop in a child. -/
  | setenv (child : ℕ)
  /-- `execvp`. -/
  | exec (child : ℕ)

/-- A child that has not executed its program. -/
def InLoop (s : Starts) (i : ℕ) (c : Child) : Prop := s.children[i]? = some c ∧ c.executed = none

/-- When an event can happen. -/
def Enabled (s : Starts) : StartEvent → Prop
  | .fork env order => order.Perm env.entries
  | .setenv i => ∃ c, InLoop s i c ∧ c.todo ≠ []
  | .exec i => ∃ c, InLoop s i c ∧ c.todo = []

/-- One round of the loop. -/
def setNext (s : Starts) (i : ℕ) : Starts :=
  match s.children[i]? with
  | some ⟨_, pair :: todo, _⟩ =>
    ⟨CgiEnvironment.setenv s.environ pair, s.children.modify i fun c => { c with todo }⟩
  | _ => s

/-- What an event does. -/
def next (s : Starts) : StartEvent → Starts
  | .fork _ order => { s with children := s.children ++ [⟨order, order, none⟩] }
  | .setenv i => setNext s i
  | .exec i => { s with children := s.children.modify i fun c => { c with executed := some s.environ } }

/-- A server that has been started with an environment. -/
def system (base : Environ) : System Starts StartEvent := ⟨⟨base, []⟩, Enabled, next⟩

/-- No start while another one goes on. -/
def OneAtATime (s : Starts) : StartEvent → Prop
  | .fork _ _ => ∀ c ∈ s.children, c.executed ≠ none
  | _ => True

/-! ## One start at a time -/

/-- The variables that children have set. -/
def setsOf (children : List Child) : List (Bytes × Bytes) := children.flatMap Child.sets

/-- Each child has executed its program with what it and the children before it have set. -/
def Executed (base : Environ) (done : List Child) : Prop :=
  ∀ i c, done[i]? = some c → c.executed = some (setAll base (setsOf (done.take (i + 1))))

/-- The states of starts that do not overlap. -/
inductive Sequential (base : Environ) : Starts → Prop
  | idle {done : List Child} (h : Executed base done) : Sequential base ⟨setAll base (setsOf done), done⟩
  | starting {done : List Child} (h : Executed base done) (sets todo : List (Bytes × Bytes)) :
    Sequential base ⟨setAll base (setsOf done ++ sets), done ++ [⟨sets ++ todo, todo, none⟩]⟩

variable {base : Environ}

theorem setAll_append (environ : Environ) (l l' : List (Bytes × Bytes)) :
    setAll environ (l ++ l') = setAll (setAll environ l) l' := List.foldl_append

theorem inLoop_last {done : List Child} (h : Executed base done) {last c : Child} {environ : Environ} {i : ℕ}
    (hi : InLoop ⟨environ, done ++ [last]⟩ i c) : i = done.length ∧ c = last := by
  obtain ⟨hget, hnone⟩ := hi
  rcases Nat.lt_trichotomy i done.length with hlt | rfl | hgt
  · have hold : done[i]? = some c := by rwa [List.getElem?_append_left hlt] at hget
    rw [h i c hold] at hnone
    cases hnone
  · simp only [List.getElem?_concat_length, Option.some.injEq] at hget
    exact ⟨rfl, hget.symm⟩
  · have hlen := (List.getElem?_eq_some_iff.mp hget).1
    simp only [List.length_append, List.length_singleton] at hlen
    omega

theorem Executed.concat {done : List Child} (h : Executed base done) (sets todo : List (Bytes × Bytes)) :
    Executed base (done ++ [⟨sets, todo, some (setAll base (setsOf done ++ sets))⟩]) := by
  intro i c hc
  by_cases hlt : i < done.length
  · rw [List.getElem?_append_left hlt] at hc
    rw [List.take_append_of_le_length (by omega)]
    exact h i c hc
  · have hlen := (List.getElem?_eq_some_iff.mp hc).1
    obtain rfl : i = done.length := by
      rw [List.length_append, List.length_singleton] at hlen
      omega
    rw [List.getElem?_concat_length, Option.some.injEq] at hc
    subst hc
    rw [List.take_of_length_le (by simp)]
    simp [setsOf]

/-- What a program sees: its own variables, else those of the children before, else the base. -/
theorem Executed.apply {done : List Child} (h : Executed base done) {i : ℕ} {c : Child} (hc : done[i]? = some c)
    {P : Environ} (hP : c.executed = some P) (n : Bytes) :
    P n = (lastValue n (c.sets.filterMap exported)).or
      ((lastValue n ((setsOf (done.take i)).filterMap exported)).or (base n)) := by
  have hsets : setsOf (done.take (i + 1)) = setsOf (done.take i) ++ c.sets := by
    rw [List.take_add_one, hc]
    simp [setsOf]
  have hP' := h i c hc
  rw [hP, Option.some.injEq, hsets] at hP'
  rw [hP', setAll_eq, overlay_apply, List.filterMap_append, lastValue_append, Option.or_assoc]

/-- **Every event** of starts that do not overlap. -/
theorem Sequential.next {s : Starts} (h : Sequential base s) {e : StartEvent} (he : Enabled s e)
    (hok : OneAtATime s e) : Sequential base (next s e) := by
  cases e with
  | fork env order =>
    cases h with
    | @idle done h =>
      have hstart := Sequential.starting h [] order
      rwa [List.append_nil] at hstart
    | @starting done h sets todo =>
      exact absurd rfl (hok ⟨sets ++ todo, todo, none⟩ (by simp))
  | setenv i =>
    obtain ⟨c, hi, htodo⟩ := he
    cases h with
    | @idle done h =>
      have hexecuted := h i c hi.1
      rw [hi.2] at hexecuted
      cases hexecuted
    | @starting done h sets todo =>
      obtain ⟨rfl, rfl⟩ := inLoop_last h hi
      cases todo with
      | nil => exact absurd rfl htodo
      | cons pair todo =>
        have hstart := Sequential.starting h (sets ++ [pair]) todo
        rw [← List.append_assoc, setAll_append, List.append_assoc, List.singleton_append] at hstart
        rw [CgiStart.next, setNext, hi.1]
        simp only [modify_concat]
        exact hstart
  | exec i =>
    obtain ⟨c, hi, htodo⟩ := he
    cases h with
    | @idle done h =>
      have hexecuted := h i c hi.1
      rw [hi.2] at hexecuted
      cases hexecuted
    | @starting done h sets todo =>
      obtain ⟨rfl, rfl⟩ := inLoop_last h hi
      obtain rfl : todo = [] := htodo
      have hidle := Sequential.idle (h.concat sets [])
      have hsets : setsOf (done ++ [⟨sets, [], some (setAll base (setsOf done ++ sets))⟩]) = setsOf done ++ sets := by
        simp [setsOf]
      rw [hsets] at hidle
      rw [CgiStart.next, modify_concat, List.append_nil]
      exact hidle

/-! ## Starts side by side -/

theorem setsOf_modify (children : List Child) (i : ℕ) {f : Child → Child} (hf : ∀ c, (f c).sets = c.sets) :
    setsOf (children.modify i f) = setsOf children := by
  induction children generalizing i with
  | nil => cases i <;> rfl
  | cons c children ih =>
    cases i with
    | zero => simp [setsOf, hf]
    | succ i =>
      have hrest := ih i
      simp only [setsOf, List.modify_succ_cons, List.flatMap_cons] at hrest ⊢
      rw [hrest]

/-- Every variable of an environment is of the base or has been set. -/
def FromStarts (base : Environ) (l : List (Bytes × Bytes)) (environ : Environ) : Prop :=
  ∀ n v, environ n = some v → base n = some v ∨ (n, v) ∈ l.filterMap exported

/-- What has been set is there, with some value. -/
def Contains (environ : Environ) (l : List (Bytes × Bytes)) : Prop :=
  ∀ n ∈ (l.filterMap exported).map Prod.fst, environ n ≠ none

/-- A child in any order of the starts. -/
structure Child.Mixed (base environ : Environ) (l : List (Bytes × Bytes)) (c : Child) : Prop where
  split : ∃ done, c.sets = done ++ c.todo ∧ Contains environ done
  executed : ∀ P, c.executed = some P → FromStarts base l P ∧ Contains P c.sets

/-- What holds of the starts in any order. -/
structure Mixed (base : Environ) (s : Starts) : Prop where
  environ : FromStarts base (setsOf s.children) s.environ
  child : ∀ c ∈ s.children, c.Mixed base s.environ (setsOf s.children)

theorem setenv_ne_none {environ : Environ} {n : Bytes} (h : environ n ≠ none) (pair : Bytes × Bytes) :
    setenv environ pair n ≠ none := by
  cases hpair : exported pair with
  | none => rwa [setenv_of_refused hpair]
  | some p =>
    rw [setenv_of_exported hpair]
    by_cases hn : n = p.1
    · subst hn
      simp
    · rwa [Function.update_of_ne hn]

theorem Contains.after {environ : Environ} {l : List (Bytes × Bytes)} (h : Contains environ l) (pair : Bytes × Bytes) :
    Contains (setenv environ pair) l := fun n hn => setenv_ne_none (h n hn) pair

theorem Contains.concat {environ : Environ} {l : List (Bytes × Bytes)} (h : Contains environ l) (pair : Bytes × Bytes) :
    Contains (setenv environ pair) (l ++ [pair]) := by
  intro n hn
  rw [List.filterMap_append, List.map_append, List.mem_append] at hn
  rcases hn with hn | hn
  · exact setenv_ne_none (h n hn) pair
  · cases hpair : exported pair with
    | none => simp [hpair] at hn
    | some p =>
      obtain rfl : n = p.1 := by simpa [hpair] using hn
      rw [setenv_of_exported hpair, Function.update_self]
      exact Option.some_ne_none _

theorem FromStarts.after {l : List (Bytes × Bytes)} {environ : Environ} (h : FromStarts base l environ)
    {pair : Bytes × Bytes} (hpair : pair ∈ l) : FromStarts base l (setenv environ pair) := by
  intro n v hv
  cases hexported : exported pair with
  | none =>
    rw [setenv_of_refused hexported] at hv
    exact h n v hv
  | some p =>
    rw [setenv_of_exported hexported] at hv
    by_cases hn : n = p.1
    · subst hn
      obtain rfl : p.2 = v := by simpa using hv
      exact Or.inr (List.mem_filterMap.mpr ⟨pair, hpair, hexported⟩)
    · rw [Function.update_of_ne hn] at hv
      exact h n v hv

theorem FromStarts.append {l : List (Bytes × Bytes)} {environ : Environ} (h : FromStarts base l environ)
    (l' : List (Bytes × Bytes)) : FromStarts base (l ++ l') environ := fun n v hv =>
  (h n v hv).imp_right fun hmem => by
    rw [List.filterMap_append]
    exact List.mem_append_left _ hmem

theorem mem_setsOf {children : List Child} {c : Child} (hc : c ∈ children) {pair : Bytes × Bytes}
    (hpair : pair ∈ c.sets) : pair ∈ setsOf children := List.mem_flatMap.mpr ⟨c, hc, hpair⟩

/-- **Every event**, in any order of the starts. -/
theorem Mixed.next {s : Starts} (h : Mixed base s) {e : StartEvent} (he : Enabled s e) : Mixed base (next s e) := by
  cases e with
  | fork env order =>
    have hsets : setsOf (s.children ++ [⟨order, order, none⟩]) = setsOf s.children ++ order := by simp [setsOf]
    refine ⟨hsets ▸ h.environ.append order, fun c hc => ?_⟩
    rcases List.mem_append.mp hc with hc | hc
    · refine ⟨(h.child c hc).split, fun P hP => ?_⟩
      obtain ⟨hfrom, hcontains⟩ := (h.child c hc).executed P hP
      exact ⟨hsets ▸ hfrom.append order, hcontains⟩
    · obtain rfl := List.mem_singleton.mp hc
      refine ⟨⟨[], rfl, fun n hn => absurd hn (by simp)⟩, fun P hP => ?_⟩
      cases hP
  | setenv i =>
    obtain ⟨⟨sets, todo, executed⟩, ⟨hget, hnone⟩, htodo⟩ := he
    obtain rfl : executed = none := hnone
    cases todo with
    | nil => exact absurd rfl htodo
    | cons pair todo =>
      have hmem := List.mem_of_getElem? hget
      obtain ⟨done, hsplit, hdone⟩ := (h.child _ hmem).split
      have hpair : pair ∈ setsOf s.children := mem_setsOf hmem (hsplit ▸ by simp)
      have hsets := setsOf_modify s.children i (f := fun c => { c with todo }) fun _ => rfl
      rw [CgiStart.next, setNext, hget]
      refine ⟨hsets ▸ h.environ.after hpair, fun c hc => ?_⟩
      rcases mem_modify hc with hc | ⟨c', hc', rfl⟩
      · obtain ⟨done', hsplit', hdone'⟩ := (h.child c hc).split
        refine ⟨⟨done', hsplit', hdone'.after pair⟩, fun P hP => ?_⟩
        exact hsets ▸ (h.child c hc).executed P hP
      · obtain rfl := Option.some.inj (hget.symm.trans hc')
        refine ⟨⟨done ++ [pair], ?_, hdone.concat pair⟩, fun P hP => ?_⟩
        · rw [List.append_assoc]
          exact hsplit
        · cases hP
  | exec i =>
    obtain ⟨c₀, ⟨hget, hnone⟩, htodo⟩ := he
    have hmem := List.mem_of_getElem? hget
    have hsets := setsOf_modify s.children i (f := fun c => { c with executed := some s.environ }) fun _ => rfl
    refine ⟨hsets ▸ h.environ, fun c hc => ?_⟩
    rcases mem_modify hc with hc | ⟨c', hc', rfl⟩
    · exact ⟨(h.child c hc).split, fun P hP => hsets ▸ (h.child c hc).executed P hP⟩
    · obtain rfl := Option.some.inj (hget.symm.trans hc')
      refine ⟨(h.child _ hmem).split, fun P hP => ?_⟩
      obtain rfl := Option.some.inj hP
      obtain ⟨done, hsplit, hdone⟩ := (h.child _ hmem).split
      rw [htodo, List.append_nil] at hsplit
      exact ⟨hsets ▸ h.environ, hsplit ▸ hdone⟩

theorem reachable_loop {environ : Environ} {before : List Child} {sets todo : List (Bytes × Bytes)}
    (h : (system base).Reachable ⟨environ, before ++ [⟨sets, todo, none⟩]⟩) :
    (system base).Reachable ⟨setAll environ todo, before ++ [⟨sets, [], none⟩]⟩ := by
  induction todo generalizing environ with
  | nil => exact h
  | cons pair todo ih =>
    have hget : (before ++ [(⟨sets, pair :: todo, none⟩ : Child)])[before.length]? = some ⟨sets, pair :: todo, none⟩ :=
      List.getElem?_concat_length
    have henabled : Enabled ⟨environ, before ++ [⟨sets, pair :: todo, none⟩]⟩ (.setenv before.length) :=
      ⟨_, ⟨hget, rfl⟩, List.cons_ne_nil _ _⟩
    have hstep := h.next (S := system base) (e := .setenv before.length) henabled
    have hnext : (system base).next ⟨environ, before ++ [⟨sets, pair :: todo, none⟩]⟩ (.setenv before.length) =
        ⟨CgiEnvironment.setenv environ pair, before ++ [⟨sets, todo, none⟩]⟩ := by
      change setNext _ _ = _
      rw [setNext, hget]
      simp only [modify_concat]
    rw [hnext] at hstep
    exact ih hstep

/-- **Two workers**: the second sets its variables before the first executes its program. -/
theorem exists_mixed (base : Environ) {env₁ env₂ : UMap Bytes Bytes} {l₁ l₂ : List (Bytes × Bytes)}
    (h₁ : l₁.Perm env₁.entries) (h₂ : l₂.Perm env₂.entries) :
    ∃ s, (system base).Reachable s ∧ ∃ c, s.children[0]? = some c ∧ c.sets = l₁ ∧
      c.executed = some (setAll base (l₁ ++ l₂)) := by
  have hfork₁ : (system base).Reachable ⟨base, [] ++ [⟨l₁, l₁, none⟩]⟩ :=
    System.Reachable.init.next (S := system base) (e := .fork env₁ l₁) h₁
  have hloop₁ := reachable_loop hfork₁
  have hfork₂ : (system base).Reachable ⟨setAll base l₁, [⟨l₁, [], none⟩] ++ [⟨l₂, l₂, none⟩]⟩ :=
    hloop₁.next (S := system base) (e := .fork env₂ l₂) h₂
  have hloop₂ := reachable_loop hfork₂
  rw [← setAll_append] at hloop₂
  exact ⟨_, hloop₂.next (S := system base) (e := .exec 0) ⟨⟨l₁, [], none⟩, ⟨rfl, rfl⟩, rfl⟩, _, rfl, rfl, rfl⟩

/-- **The environments of programs.**  As long as starts do not overlap, a program has each variable as its own start
has set it, or else the last start before it that has set it, whosever request that was for, or else the server.  In any
order of the starts a program has all variables of its own start, and only such as the server or some start has set; but
with two starts side by side, the first program can have every variable of the second with its value. -/
theorem environments_run (base : Environ) :
    (∀ s, ((system base).restrict OneAtATime).Reachable s → ∀ i c P, s.children[i]? = some c → c.executed = some P →
      ∀ n, P n = (lastValue n (c.sets.filterMap exported)).or
        ((lastValue n ((setsOf (s.children.take i)).filterMap exported)).or (base n))) ∧
    (∀ s, (system base).Reachable s → ∀ c ∈ s.children, ∀ P, c.executed = some P →
      (∀ n ∈ (c.sets.filterMap exported).map Prod.fst, P n ≠ none) ∧
        ∀ n v, P n = some v → base n = some v ∨ ∃ c' ∈ s.children, (n, v) ∈ c'.sets.filterMap exported) ∧
    ∀ (env₁ env₂ : UMap Bytes Bytes) (l₁ l₂ : List (Bytes × Bytes)), l₁.Perm env₁.entries → l₂.Perm env₂.entries →
      ∃ s, (system base).Reachable s ∧ ∃ c P, s.children[0]? = some c ∧ c.sets = l₁ ∧ c.executed = some P ∧
        ∀ n v, lastValue n (l₂.filterMap exported) = some v → P n = some v := by
  refine ⟨fun s hs i c P hc hP n => ?_, fun s hs c hc P hP => ?_, fun env₁ env₂ l₁ l₂ h₁ h₂ => ?_⟩
  · have hnone : Executed base [] := fun i c hc => by simp at hc
    have hsequential : Sequential base s :=
      System.Reachable.inv (P := Sequential base) (Sequential.idle hnone)
        (fun s e h (he : Enabled s e ∧ OneAtATime s e) => h.next he.1 he.2) hs
    cases hsequential with
    | @idle done h => exact h.apply hc hP n
    | @starting done h sets todo =>
      rcases Nat.lt_or_ge i done.length with hlt | hge
      · rw [List.getElem?_append_left hlt] at hc
        rw [List.take_append_of_le_length hlt.le]
        exact h.apply hc hP n
      · have hlen := (List.getElem?_eq_some_iff.mp hc).1
        obtain rfl : i = done.length := by
          rw [List.length_append, List.length_singleton] at hlen
          omega
        rw [List.getElem?_concat_length, Option.some.injEq] at hc
        subst hc
        cases hP
  · have hmixed : Mixed base s :=
      hs.inv ⟨fun n v hv => Or.inl hv, fun c hc => by cases hc⟩ fun _ _ h he => h.next he
    obtain ⟨hfrom, hcontains⟩ := (hmixed.child c hc).executed P hP
    refine ⟨hcontains, fun n v hv => (hfrom n v hv).imp_right fun hmem => ?_⟩
    obtain ⟨pair, hpair, hexported⟩ := List.mem_filterMap.mp hmem
    obtain ⟨c', hc', hsets⟩ := List.mem_flatMap.mp hpair
    exact ⟨c', hc', List.mem_filterMap.mpr ⟨pair, hsets, hexported⟩⟩
  · obtain ⟨s, hs, c, hc, hsets, hP⟩ := exists_mixed base h₁ h₂
    refine ⟨s, hs, c, _, hc, hsets, hP, fun n v hv => ?_⟩
    rw [setAll_eq, overlay_apply, List.filterMap_append, lastValue_append, hv, Option.some_or, Option.some_or]

end Gts3.Web.CgiStart
