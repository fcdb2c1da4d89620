import Gts3.Cmdline.ArgsReading

/-!
# The spellings of an option

A bundle of flags does what the flags do one by one, and `name=value` what the two arguments `name` and `value` do.
Neither replacement changes how the rest of the list is read, except where the argument is the value of a group
(`parsing_respell`).
-/

namespace Gts3.Cmdline

open Lib Lib.Cxx

/-- The arguments end where a group waits for its value. -/
def awaits : List Turn → Bool
  | [] => false
  | [t] => match t.toReading.ending with
    | .missing _ => true
    | _ => false
  | t :: ts => t.stop?.isNone && awaits ts

namespace ArgsParser

variable (p : ArgsParser)

/-- The argument behind `pre` is taken as the value of the group before it. -/
def valueExpected (argc : ℕ) (pre : List Bytes) : Bool := awaits (p.turns argc pre)

variable {p}

/-- The number of arguments counts only up to two. -/
theorem turns_argc {a b : ℕ} (ha : 2 < a) (hb : 2 < b) (args : List Bytes) : p.turns a args = p.turns b args := by
  have hread (arg : Bytes) (next : Option Bytes) : p.read a arg next = p.read b arg next := by
    simp only [read, formOf, builtIn, if_pos ha, if_pos hb]
  induction args using p.turns_induction a with
  | nil => rfl
  | value arg v rest h ih => rw [turns_of_value p h, turns_of_value p (hread arg _ ▸ h), hread, ih]
  | single arg rest h ih => rw [turns_of_ne p h, turns_of_ne p (hread arg _ ▸ h), hread, ih]

/-- An argument that no value is missing behind does the same before any argument. -/
theorem read_next {argc : ℕ} {arg : Bytes} (h : ∀ g, (p.read argc arg none).ending ≠ .missing g) (next : Option Bytes) :
    p.read argc arg next = p.read argc arg none := by
  rcases p.read_cases argc arg with ⟨e, -, hread⟩ | ⟨es, -, ⟨info, hread⟩ | hread⟩
  · rw [hread, hread]
  · exact absurd (by rw [hread]; rfl) (h info.group)
  · rw [hread, hread]

theorem awaits_tail {t : Turn} {ts : List Turn} (ht : t.stop? = none) (h : awaits (t :: ts) = false) :
    awaits ts = false := by
  cases ts with
  | nil => rfl
  | cons u ts => simpa [awaits, ht] using h

theorem awaits_singleton {t : Turn} (h : awaits [t] = false) (g : Bytes) : t.toReading.ending ≠ .missing g := by
  intro hg
  rw [awaits, hg] at h
  cases h

/-- The turns of a list whose first part does not wait for a value. -/
theorem script_append (argc : ℕ) (pre args : List Bytes) (h : p.valueExpected argc pre = false) :
    script (p.turns argc (pre ++ args)) =
        script (p.turns argc pre) ++ (if firstStop (p.turns argc pre) = none then script (p.turns argc args) else []) ∧
      firstStop (p.turns argc (pre ++ args)) = (firstStop (p.turns argc pre)).or (firstStop (p.turns argc args)) := by
  -- one turn in front, when this holds of what is behind it
  have hcons (t : Turn) (ts us : List Turn) (hrest : t.stop? = none →
        script us = script ts ++ (if firstStop ts = none then script (p.turns argc args) else []) ∧
          firstStop us = (firstStop ts).or (firstStop (p.turns argc args))) :
      script (t :: us) = script (t :: ts) ++ (if firstStop (t :: ts) = none then script (p.turns argc args) else []) ∧
        firstStop (t :: us) = (firstStop (t :: ts)).or (firstStop (p.turns argc args)) := by
    cases hstop : t.stop? with
    | some e =>
      obtain ⟨hts, hets⟩ := script_cons_of_stop hstop ts
      obtain ⟨hus, heus⟩ := script_cons_of_stop hstop us
      rw [hts, hets, hus, heus]
      exact ⟨by simp, rfl⟩
    | none =>
      obtain ⟨hts, hets⟩ := script_cons hstop ts
      obtain ⟨hus, heus⟩ := script_cons hstop us
      rw [hts, hets, hus, heus, (hrest hstop).1, List.append_assoc]
      exact ⟨rfl, (hrest hstop).2⟩
  induction pre using p.turns_induction argc with
  | nil => exact ⟨rfl, rfl⟩
  | value arg v rest hending ih =>
    rw [valueExpected, turns_of_value p hending] at h
    rw [List.cons_append, List.cons_append, turns_of_value p hending, turns_of_value p hending]
    exact hcons _ _ _ fun hstop => ih (awaits_tail hstop h)
  | single arg rest hending ih =>
    rw [valueExpected, turns_of_ne p hending] at h
    have hread : p.read argc arg (rest ++ args).head? = p.read argc arg rest.head? := by
      cases rest with
      | nil => exact read_next (awaits_singleton h) _
      | cons next rest => rfl
    rw [List.cons_append, turns_of_ne p (hread ▸ hending), hread, turns_of_ne p hending]
    exact hcons _ _ _ fun hstop => ih (awaits_tail hstop h)

/-- What `parsing` does depends on the effects up to the end of the program. -/
theorem parsing_congr {argv argv' : List Bytes}
    (hscript : script (p.turns argv.length argv.tail) = script (p.turns argv'.length argv'.tail))
    (hstop : firstStop (p.turns argv.length argv.tail) = firstStop (p.turns argv'.length argv'.tail))
    (other : List Bytes) :
    p.parsing argv other = p.parsing argv' other := by
  rw [parsing_eq, parsing_eq, hscript, hstop]

/-- Two spellings of a part of the arguments that do the same before any arguments do the same in any place. -/
theorem parsing_respell {program : Bytes} {pre x y post : List Bytes}
    (hpre : p.valueExpected (program :: (pre ++ x ++ post)).length pre = false) (hx : x ≠ []) (hy : y ≠ [])
    (hspell : ∀ a b rest, p.turns a rest = p.turns b rest →
      script (p.turns a (x ++ rest)) = script (p.turns b (y ++ rest)) ∧
        firstStop (p.turns a (x ++ rest)) = firstStop (p.turns b (y ++ rest))) (other : List Bytes) :
    p.parsing (program :: (pre ++ x ++ post)) other = p.parsing (program :: (pre ++ y ++ post)) other := by
  have hlx : 0 < x.length := List.length_pos_of_ne_nil hx
  have hly : 0 < y.length := List.length_pos_of_ne_nil hy
  -- the arguments around the part are counted in the same way in both lists
  have haround (l : List Bytes) (hl : l.length = pre.length ∨ l.length = post.length) :
      p.turns (program :: (pre ++ x ++ post)).length l = p.turns (program :: (pre ++ y ++ post)).length l := by
    cases l with
    | nil => rfl
    | cons arg l =>
      simp only [List.length_cons] at hl
      exact turns_argc (by simp only [List.length_cons, List.length_append]; omega)
        (by simp only [List.length_cons, List.length_append]; omega) _
  have hpre' : p.valueExpected (program :: (pre ++ y ++ post)).length pre = false := by
    rwa [valueExpected, ← haround pre (Or.inl rfl)]
  obtain ⟨hscript, hstop⟩ := hspell _ _ post (haround post (Or.inr rfl))
  obtain ⟨hx1, hx2⟩ := script_append _ pre (x ++ post) hpre
  obtain ⟨hy1, hy2⟩ := script_append _ pre (y ++ post) hpre'
  have hturns := haround pre (Or.inl rfl)
  rw [← List.append_assoc] at hx1 hx2 hy1 hy2
  refine parsing_congr ?_ ?_ other
  · rw [List.tail_cons, List.tail_cons, hx1, hy1, hscript, hturns]
  · rw [List.tail_cons, List.tail_cons, hx2, hy2, hstop, hturns]

/-! ## The two replacements -/

/-- The turns of arguments that begin with one that takes no value and does not end the program. -/
theorem script_of_read {argc : ℕ} {arg : Bytes} {rest : List Bytes} {es : List Event}
    (h : p.read argc arg rest.head? = ⟨es, .done⟩) :
    script (p.turns argc (arg :: rest)) = es ++ script (p.turns argc rest) ∧
      firstStop (p.turns argc (arg :: rest)) = firstStop (p.turns argc rest) := by
  rw [turns_of_ne p (by rw [h]; exact Ending.noConfusion), h]
  exact script_cons rfl _

theorem read_flag {arg : Bytes} {info : ArgInfo} {argc : ℕ} (hb : p.builtIn argc arg = .ok ())
    (hgroup : p.group.find? arg = none) (hflag : p.flag.find? arg = some info) (next : Option Bytes) :
    p.read argc arg next = ⟨[.emplace info.group info.iden info.iden], .done⟩ := by
  rw [read, formOf, hb, hgroup, hflag]
  rfl

theorem script_flags {argc : ℕ} (arg : Bytes) {cs : Bytes} (hb : ∀ c ∈ cs, p.builtIn argc (dash c) = .ok ())
    (hgroup : ∀ c ∈ cs, p.group.find? (dash c) = none) (hflag : ∀ c ∈ cs, (p.flag.find? (dash c)).isSome = true)
    (rest : List Bytes) :
    script (p.turns argc (cs.map dash ++ rest)) = cs.map (p.letterEvent arg) ++ script (p.turns argc rest) ∧
      firstStop (p.turns argc (cs.map dash ++ rest)) = firstStop (p.turns argc rest) := by
  induction cs with
  | nil => exact ⟨rfl, rfl⟩
  | cons c cs ih =>
    obtain ⟨info, hinfo⟩ := Option.isSome_iff_exists.mp (hflag c List.mem_cons_self)
    have hevent : p.letterEvent arg c = .emplace info.group info.iden info.iden := by rw [letterEvent, hinfo]
    obtain ⟨h1, h2⟩ := ih (fun c hc => hb c (List.mem_cons_of_mem _ hc))
      (fun c hc => hgroup c (List.mem_cons_of_mem _ hc))
      (fun c hc => hflag c (List.mem_cons_of_mem _ hc))
    obtain ⟨h3, h4⟩ := script_of_read
      (read_flag (hb c List.mem_cons_self) (hgroup c List.mem_cons_self) hinfo (cs.map dash ++ rest).head?)
    rw [List.map_cons, List.map_cons, List.cons_append, List.cons_append, h3, h4, h1, h2, hevent]
    exact ⟨rfl, rfl⟩

theorem read_bundle (argc : ℕ) {cs : Bytes} (hlen : 2 ≤ cs.length) (hletter : ∀ c ∈ cs, isLetter c = true)
    (hflag : ∀ c ∈ cs, (p.flag.find? (dash c)).isSome = true) (hreg : p.registered (45 :: cs) = false)
    (next : Option Bytes) : p.read argc (45 :: cs) next = ⟨cs.map (p.letterEvent (45 :: cs)), .done⟩ := by
  have hne : cs ≠ [] := List.ne_nil_of_length_pos (by omega)
  have hlast : cs.dropLast ++ [cs.getLast hne] = cs := List.dropLast_append_getLast hne
  have hdrop : cs.dropLast ≠ [] := List.ne_nil_of_length_pos (by rw [List.length_dropLast]; omega)
  have hform : p.formOf argc (45 :: cs) = .bundle cs.dropLast (cs.getLast hne) := by
    have h := formOf_bundle (p := p) (c := cs.getLast hne) hdrop (by rwa [hlast]) (by rwa [hlast]) argc
    rwa [hlast] at h
  obtain ⟨info, hinfo⟩ := Option.isSome_iff_exists.mp (hflag _ (List.getLast_mem hne))
  have hmap : cs.map (p.letterEvent (45 :: cs)) =
      cs.dropLast.map (p.letterEvent (45 :: cs)) ++ [.emplace info.group info.iden info.iden] := by
    have hevent : p.letterEvent (45 :: cs) (cs.getLast hne) = .emplace info.group info.iden info.iden := by
      rw [letterEvent, hinfo]
    conv_lhs => arg 2; rw [← hlast]
    rw [List.map_append, List.map_singleton, hevent]
  rw [read, hform, reading, hinfo, hmap]

theorem read_assignment (argc : ℕ) {name value : Bytes} {info : ArgInfo} (hlen : 2 ≤ name.length) (hname : 61 ∉ name)
    (hgroup : p.group.find? name = some info) (hreg : p.registered (name ++ 61 :: value) = false)
    (next : Option Bytes) :
    p.read argc (name ++ 61 :: value) next = ⟨[.emplace info.group info.iden value], .done⟩ := by
  have hmem : (61 : UInt8) ∈ name ++ 61 :: value := List.mem_append_right _ List.mem_cons_self
  have hb : p.builtIn argc (name ++ 61 :: value) = .ok () := by
    refine builtIn_of_length (by rw [List.length_append, List.length_cons]; omega) ?_ ?_ argc
    · exact fun h => absurd (h ▸ hmem) (by decide)
    · exact fun h => absurd (h ▸ hmem) (by decide)
  have hform : p.formOf argc (name ++ 61 :: value) = .single info value := by
    obtain ⟨hg, hf⟩ := find?_of_not_registered hreg
    have hpos : (name ++ 61 :: value).idxOf? 61 = some name.length := by
      refine List.idxOf?_eq_some_iff.mpr ⟨by simp, by simp, fun j hj => ?_⟩
      rw [List.getElem_append_left hj]
      exact fun h => hname (h ▸ List.getElem_mem hj)
    rw [formOf, hb]
    simp only [hg, hf]
    rw [if_neg (by rw [List.length_append, List.length_cons]; omega), hpos]
    simp [hgroup]
  rw [read, hform, reading]

theorem script_group {argc : ℕ} {name value : Bytes} {info : ArgInfo} (hb : p.builtIn argc name = .ok ())
    (hgroup : p.group.find? name = some info) (hvalue : p.registered value = false) (rest : List Bytes) :
    script (p.turns argc (name :: value :: rest)) =
        .emplace info.group info.iden value :: script (p.turns argc rest) ∧
      firstStop (p.turns argc (name :: value :: rest)) = firstStop (p.turns argc rest) := by
  have hread : p.read argc name (some value) = ⟨[.emplace info.group info.iden value], .value⟩ := by
    rw [read, formOf, hb]
    simp [hgroup, reading, valueReading, hvalue]
  rw [turns_of_value p (by rw [hread]), hread]
  exact script_cons rfl _

end ArgsParser

open ArgsParser

/-- A bundle of flags may be taken apart, and a value may stand behind its group or in one argument with it, wherever
the argument is not itself the value of a group. -/
theorem parsing_spellings {p : ArgsParser} (hp : Configured p) (program : Bytes) (pre post other : List Bytes)
    (hpre : p.valueExpected (pre.length + post.length + 2) pre = false) :
    (∀ cs : Bytes, 2 ≤ cs.length → (∀ c ∈ cs, isLetter c = true) →
      (∀ c ∈ cs, (p.flag.find? (dash c)).isSome = true ∧ p.group.find? (dash c) = none ∧ ¬p.IsBuiltIn (dash c)) →
      p.registered (45 :: cs) = false →
      p.parsing (program :: (pre ++ [45 :: cs] ++ post)) other =
        p.parsing (program :: (pre ++ cs.map dash ++ post)) other) ∧
    ∀ name value : Bytes, 2 ≤ name.length → 61 ∉ name → (p.group.find? name).isSome = true → ¬p.IsBuiltIn name →
      p.registered value = false → p.registered (name ++ 61 :: value) = false →
      p.parsing (program :: (pre ++ [name ++ 61 :: value] ++ post)) other =
        p.parsing (program :: (pre ++ [name, value] ++ post)) other := by
  have hargc (arg : Bytes) : (program :: (pre ++ [arg] ++ post)).length = pre.length + post.length + 2 := by
    simp only [List.length_cons, List.length_append, List.length_nil]
    omega
  constructor
  · intro cs hlen hletter hcs hreg
    refine parsing_respell (by rwa [hargc]) (List.cons_ne_nil _ _) ?_ (fun a b rest hrest => ?_) other
    · exact fun h => absurd hlen (by rw [List.map_eq_nil_iff.mp h]; decide)
    · have hb (c : UInt8) (hc : c ∈ cs) : p.builtIn b (dash c) = .ok () := by
        have hne : c ≠ 45 := fun h => absurd (hletter c hc) (by rw [h]; decide)
        exact builtIn_of_not (by simp [dash, lit]) (by simpa [dash, lit] using hne) (hcs c hc).2.2 b
      obtain ⟨h1, h2⟩ := script_of_read (read_bundle a hlen hletter (fun c hc => (hcs c hc).1) hreg rest.head?)
      obtain ⟨h3, h4⟩ := script_flags (45 :: cs) hb (fun c hc => (hcs c hc).2.1) (fun c hc => (hcs c hc).1) rest
      rw [List.singleton_append, h1, h2, h3, h4, hrest]
      exact ⟨rfl, rfl⟩
  · intro name value hlen hname hgroup hbuilt hvalue hreg
    obtain ⟨info, hinfo⟩ := Option.isSome_iff_exists.mp hgroup
    refine parsing_respell (by rwa [hargc]) (List.cons_ne_nil _ _) (List.cons_ne_nil _ _)
      (fun a b rest hrest => ?_) other
    have hb : p.builtIn b name = .ok () := by
      refine builtIn_of_not ?_ ?_ hbuilt b
      · exact fun h => absurd hlen (by rw [h]; decide)
      · rintro rfl
        rw [hp.find?_dashes] at hinfo
        cases hinfo
    obtain ⟨h1, h2⟩ := script_of_read (read_assignment a hlen hname hinfo hreg rest.head?)
    obtain ⟨h3, h4⟩ := script_group hb hinfo hvalue rest
    rw [List.singleton_append, h1, h2, hrest]
    exact ⟨h3.symm, h4.symm⟩

/-- Two flags and a group. -/
def twoFlags : ArgsParser :=
  parserOf 0 [] [.addFlag (lit "-a") [] [], .addFlag (lit "-b") [] [], .addGroup (lit "-f, --file") [] []]

theorem parsing_spellings_twoFlags :
    twoFlags.parsing [lit "server", lit "x", lit "-ab"] [] =
        twoFlags.parsing [lit "server", lit "x", lit "-a", lit "-b"] [] ∧
      twoFlags.parsing [lit "server", lit "x", lit "--file=y"] [] =
        twoFlags.parsing [lit "server", lit "x", lit "--file", lit "y"] [] :=
  have h := parsing_spellings (configured_parserOf 0 [] [.addFlag (lit "-a") [] [], .addFlag (lit "-b") [] [],
    .addGroup (lit "-f, --file") [] []]) (lit "server") [lit "x"] [] [] (by decide)
  ⟨h.1 (lit "ab") (by decide) (by decide) (by decide) (by decide),
    h.2 (lit "--file") (lit "y") (by decide) (by decide) (by decide) (by decide) (by decide)
      (by decide)⟩

end Gts3.Cmdline
