import Gts3.Lib.Cxx
import Gts3.Lib.Transition

/-!
# `gts/dbi/manager.cpp`: the registered database drivers

Two globals, the map of the drivers by name and the default driver.  `set_default_driver` and `unregister_driver` look
a driver up by its name and do not compare what they find with the driver they are given.  `manager_run_iff` says in
which runs this does no harm.
-/

namespace Gts3.Dbi

open Lib Lib.Cxx Lib.Transition

/-- An exception of `gts::dbi`: the number and the text. -/
structure Exception where
  number : ℤ
  text : Bytes
  deriving DecidableEq

/-- `g_driver_map` and `g_default_driver`; beside them the drivers that have been deleted, and whether
`unregister_driver` has deleted another driver than it was given. -/
structure Manager (D : Type) where
  driverMap : OrdMap Bytes D stringLess
  defaultDriver : Option D
  deleted : List D
  strayDelete : Bool

namespace Manager

variable {D : Type} [DecidableEq D] (name : D → Bytes)

/-- Before the first call. -/
def new : Manager D := ⟨OrdMap.empty, none, [], false⟩

/-! ## The functions -/

/-- `register_driver`; it may throw. -/
def registerDriver (s : Manager D) (driver : D) (asDefault : Bool) : Manager D × Option Exception :=
  match s.driverMap.find? (name driver) with
  | some first =>
    if first = driver then (s, some ⟨-1, lit "driver multiple registration."⟩) else (s, none)
  | none =>
    let driverMap := s.driverMap.emplace (name driver) driver
    if driverMap.entries.length = 1 ∨ asDefault then ({ s with driverMap, defaultDriver := some driver }, none)
    else ({ s with driverMap }, none)

omit [DecidableEq D] in
/-- The driver in front. -/
def begin (m : OrdMap Bytes D stringLess) : Option D := m.entries.head?.map Prod.snd

/-- `unregister_driver(name)`. -/
def unregisterDriverName (s : Manager D) (n : Bytes) : Manager D :=
  match s.driverMap.find? n with
  | none => s
  | some driver =>
    let driverMap := s.driverMap.erase n
    { s with
      driverMap
      deleted := driver :: s.deleted
      defaultDriver := if s.defaultDriver = some driver then begin driverMap else s.defaultDriver }

/-- `unregister_driver(driver)`. -/
def unregisterDriver (s : Manager D) (driver : D) : Manager D :=
  let s' := s.unregisterDriverName (name driver)
  { s' with strayDelete := s.strayDelete || (s.driverMap.find? (name driver)).any (· ≠ driver) }

/-- `driver(name)`; `none` is `g_invalid_driver`. -/
def driver (s : Manager D) (n : Bytes) : Option D := if n = [] then s.defaultDriver else s.driverMap.find? n

/-- `set_default_driver(driver)`. -/
def setDefaultDriver (s : Manager D) (driver : D) : Manager D :=
  { s with driverMap := s.driverMap.emplace (name driver) driver, defaultDriver := some driver }

/-- `set_default_driver(name)`. -/
def setDefaultDriverName (s : Manager D) (n : Bytes) : Manager D :=
  match s.driverMap.find? n with
  | none => s
  | some driver => { s with defaultDriver := some driver }

/-! ## Calls -/

/-- A call that changes the state. -/
inductive Call (D : Type)
  | registerDriver (driver : D) (asDefault : Bool)
  | unregisterDriverName (n : Bytes)
  | unregisterDriver (driver : D)
  | setDefaultDriver (driver : D)
  | setDefaultDriverName (n : Bytes)
  deriving DecidableEq

/-- A driver that is given has not been deleted. -/
def Enabled (s : Manager D) : Call D → Prop
  | .registerDriver driver _ | .unregisterDriver driver | .setDefaultDriver driver => driver ∉ s.deleted
  | .unregisterDriverName _ | .setDefaultDriverName _ => True

instance (s : Manager D) (e : Call D) : Decidable (s.Enabled e) := by
  cases e <;> unfold Enabled <;> infer_instance

/-- What becomes of the state, also when the call throws. -/
def next (s : Manager D) : Call D → Manager D
  | .registerDriver driver asDefault => (s.registerDriver name driver asDefault).1
  | .unregisterDriverName n => s.unregisterDriverName n
  | .unregisterDriver driver => s.unregisterDriver name driver
  | .setDefaultDriver driver => s.setDefaultDriver name driver
  | .setDefaultDriverName n => s.setDefaultDriverName n

/-- The manager under all calls. -/
def system : System (Manager D) (Call D) := ⟨new, Enabled, next name⟩

instance (s : Manager D) (e : Call D) : Decidable ((system name).Enabled s e) :=
  inferInstanceAs (Decidable (s.Enabled e))

/-! ## What the manager is for -/

/-- The default driver is one of the stored ones, there is one when there are drivers, and nothing else has been
deleted than what was to be deleted. -/
structure Good (s : Manager D) : Prop where
  stored : ∀ d, s.defaultDriver = some d → s.driverMap.find? (name d) = some d
  empty : s.defaultDriver = none → s.driverMap.entries = []
  onlyGiven : s.strayDelete = false

/-- No other driver is stored under the name of the one that is given. -/
def Alone (s : Manager D) (driver : D) : Prop := ∀ d, s.driverMap.find? (name driver) = some d → d = driver

/-- `unregister_driver` and `set_default_driver` are not given a driver in whose place another one is stored. -/
def Distinct (s : Manager D) : Call D → Prop
  | .unregisterDriver driver | .setDefaultDriver driver => s.Alone name driver
  | _ => True

/-- The drivers are stored under their names. -/
structure Inv (s : Manager D) : Prop where
  good : s.Good name
  named : ∀ e ∈ s.driverMap.entries, e.1 = name e.2

variable {name} {s : Manager D}

omit [DecidableEq D] in
theorem inv_new : (new : Manager D).Inv name :=
  ⟨⟨nofun, fun _ => rfl, rfl⟩, nofun⟩

omit [DecidableEq D] in
theorem find?_name {m : OrdMap Bytes D stringLess} (hnamed : ∀ e ∈ m.entries, e.1 = name e.2) {e : Bytes × D}
    (he : e ∈ m.entries) : m.find? (name e.2) = some e.2 :=
  OrdMap.find?_of_mem he ((same_stringLess _ _).mpr (hnamed e he))

omit [DecidableEq D] in
theorem named_emplace {m : OrdMap Bytes D stringLess} (hnamed : ∀ e ∈ m.entries, e.1 = name e.2) (driver : D) :
    ∀ e ∈ (m.emplace (name driver) driver).entries, e.1 = name e.2 := by
  intro e he
  rcases OrdMap.mem_emplace he with rfl | he
  · rfl
  · exact hnamed e he

omit [DecidableEq D] in
theorem find?_emplace_name {m : OrdMap Bytes D stringLess} (driver d : D)
    (h : m.find? (name driver) = some d ∨ m.find? (name driver) = none ∧ d = driver) :
    (m.emplace (name driver) driver).find? (name driver) = some d := by
  rw [OrdMap.find?_emplace]
  rcases h with h | ⟨h, rfl⟩
  · rw [if_neg (by rw [h]; simp), h]
  · rw [if_pos ⟨Same.refl _, h⟩]

omit [DecidableEq D] in
/-- **A driver becomes the default one** by its pointer: it stands in its place exactly when no other one did. -/
theorem Inv.setDefaultDriver (h : s.Inv name) (driver : D) :
    (s.Alone name driver ↔ (s.setDefaultDriver name driver).Good name) ∧
      (s.Alone name driver → (s.setDefaultDriver name driver).Inv name) := by
  have hkeep : s.Alone name driver → (s.setDefaultDriver name driver).Inv name := by
    intro halone
    refine ⟨⟨?_, ?_, h.good.onlyGiven⟩, named_emplace h.named driver⟩
    · intro d hd
      obtain rfl : driver = d := Option.some.inj hd
      refine find?_emplace_name driver driver ?_
      cases hf : s.driverMap.find? (name driver) with
      | none => exact Or.inr ⟨rfl, rfl⟩
      | some d' => rw [halone d' hf]; exact Or.inl rfl
    · intro hd
      cases hd
  refine ⟨⟨fun halone => (hkeep halone).good, ?_⟩, hkeep⟩
  intro hgood d hd
  have hstored : (s.driverMap.emplace (name driver) driver).find? (name driver) = some driver := hgood.stored driver rfl
  rw [find?_emplace_name driver d (Or.inl hd)] at hstored
  exact Option.some.inj hstored

/-- **A driver comes in** under a free name, or not at all. -/
theorem Inv.registerDriver (h : s.Inv name) (driver : D) (asDefault : Bool) :
    (s.registerDriver name driver asDefault).1.Inv name := by
  unfold Manager.registerDriver
  cases hf : s.driverMap.find? (name driver) with
  | some first =>
    simp only
    split_ifs
    · exact h
    · exact h
  | none =>
    simp only
    have hstored : (s.driverMap.emplace (name driver) driver).find? (name driver) = some driver :=
      find?_emplace_name driver driver (Or.inr ⟨hf, rfl⟩)
    split_ifs with hdefault
    · refine ⟨⟨?_, ?_, h.good.onlyGiven⟩, named_emplace h.named driver⟩
      · intro d hd
        obtain rfl : driver = d := Option.some.inj hd
        exact hstored
      · intro hd
        cases hd
    · refine ⟨⟨?_, ?_, h.good.onlyGiven⟩, named_emplace h.named driver⟩
      · intro d hd
        have hd' := h.good.stored d hd
        rw [OrdMap.find?_emplace, if_neg]
        · exact hd'
        · -- the name is free, and the one of the default driver is not
          rintro ⟨hsame, -⟩
          rw [(same_stringLess _ _).mp hsame, hd'] at hf
          cases hf
      · intro hnone
        -- the first driver becomes the default one
        exfalso
        refine hdefault (Or.inl ?_)
        show (s.driverMap.emplace (name driver) driver).entries.length = 1
        rw [OrdMap.emplace, hf]
        show (OrdMap.insertEntries stringLess (name driver) driver s.driverMap.entries).length = 1
        rw [h.good.empty hnone]
        rfl

/-- **A driver goes away** by its name: another one becomes the default driver, as long as there is one. -/
theorem Inv.unregisterDriverName (h : s.Inv name) (n : Bytes) : (s.unregisterDriverName n).Inv name := by
  unfold Manager.unregisterDriverName
  cases hf : s.driverMap.find? n with
  | none => exact h
  | some driver =>
    simp only
    have hnamed : ∀ e ∈ (s.driverMap.erase n).entries, e.1 = name e.2 := fun e he => h.named e (OrdMap.mem_erase he)
    refine ⟨⟨?_, ?_, h.good.onlyGiven⟩, hnamed⟩
    · intro d hd
      split_ifs at hd with hdefault
      · obtain ⟨e, he, rfl⟩ := Option.map_eq_some_iff.mp hd
        exact find?_name hnamed (List.mem_of_mem_head? he)
      · have hd' := h.good.stored d hd
        rw [OrdMap.find?_erase, if_neg]
        · exact hd'
        · intro hsame
          rw [(same_stringLess _ _).mp hsame, hd'] at hf
          exact hdefault (by rw [hd, hf])
    · intro hnone
      split_ifs at hnone with hdefault
      · simpa [begin] using hnone
      · obtain ⟨e, he, -⟩ := OrdMap.find?_eq_some_mem hf
        rw [h.good.empty hnone] at he
        cases he

/-- **A driver goes away** by its pointer: nothing else is deleted exactly when no other one is in its place. -/
theorem Inv.unregisterDriver (h : s.Inv name) (driver : D) :
    (s.Alone name driver ↔ (s.unregisterDriver name driver).Good name) ∧
      (s.Alone name driver → (s.unregisterDriver name driver).Inv name) := by
  have hgone := h.unregisterDriverName (name driver)
  have hstray : s.Alone name driver ↔ (s.unregisterDriver name driver).strayDelete = false := by
    simp only [Manager.unregisterDriver, h.good.onlyGiven, Bool.false_or]
    cases hf : s.driverMap.find? (name driver) with
    | none => simp [Alone, hf]
    | some d => simp [Alone, hf]
  have hkeep : s.Alone name driver → (s.unregisterDriver name driver).Inv name := fun halone =>
    ⟨⟨hgone.good.stored, hgone.good.empty, hstray.mp halone⟩, hgone.named⟩
  exact ⟨⟨fun halone => (hkeep halone).good, fun hgood => hstray.mpr hgood.onlyGiven⟩, hkeep⟩

omit [DecidableEq D] in
/-- **A driver becomes the default one** by its name. -/
theorem Inv.setDefaultDriverName (h : s.Inv name) (n : Bytes) : (s.setDefaultDriverName n).Inv name := by
  unfold Manager.setDefaultDriverName
  cases hf : s.driverMap.find? n with
  | none => exact h
  | some driver =>
    refine ⟨⟨?_, ?_, h.good.onlyGiven⟩, h.named⟩
    · intro d hd
      obtain rfl : driver = d := Option.some.inj hd
      obtain ⟨e, he, -, rfl⟩ := OrdMap.find?_eq_some_mem hf
      exact find?_name h.named he
    · intro hd
      cases hd

/-- **One call** keeps all in order exactly when it is not given a driver in whose place another one is stored. -/
theorem Inv.next_iff (h : s.Inv name) (e : Call D) :
    (s.Distinct name e ↔ (s.next name e).Good name) ∧ (s.Distinct name e → (s.next name e).Inv name) := by
  have hkeep : ∀ {s' : Manager D}, s'.Inv name → (True ↔ s'.Good name) ∧ (True → s'.Inv name) := fun h' =>
    ⟨iff_of_true trivial h'.good, fun _ => h'⟩
  cases e with
  | registerDriver driver asDefault => exact hkeep (h.registerDriver driver asDefault)
  | unregisterDriverName n => exact hkeep (h.unregisterDriverName n)
  | unregisterDriver driver => exact h.unregisterDriver driver
  | setDefaultDriver driver => exact h.setDefaultDriver driver
  | setDefaultDriverName n => exact hkeep (h.setDefaultDriverName n)

/-! ## Every run -/

variable (name) in
/-- **Drivers over a run**, for any drivers and names: all is in order in every state as long as no call is given a
driver in whose place another one is stored, and in no other run. -/
theorem manager_run_iff :
    (∀ s, ((system name).restrict (Distinct name)).Reachable s → s.Good name) ∧
    ∀ es s, ((system name).restrict (Distinct name)).Run new es s ↔
      ((system name).keeping (Good name)).Run new es s := by
  have hrun : ∀ es s, ((system name).restrict (Distinct name)).Run new es s ↔
      ((system name).keeping (Good name)).Run new es s :=
    System.restrict_run_iff (I := Inv name) (fun _ e h _ => (h.next_iff e).1) (fun _ e h _ => (h.next_iff e).2) inv_new
  refine ⟨fun s hs => ?_, hrun⟩
  obtain ⟨es, hes⟩ := hs
  exact System.keeping_reachable inv_new.good ⟨es, (hrun es s).mp hes⟩

/-- A second driver with the name of the first one becomes the default driver and is stored nowhere. -/
theorem not_good_sameName : ¬ ∀ s, (system (fun _ : ℕ => lit "db")).Reachable s → s.Good (fun _ => lit "db") := by
  intro hall
  have hreach : (system (fun _ : ℕ => lit "db")).Reachable _ :=
    (System.Reachable.init.next (e := .registerDriver 0 false) (by decide)).next (e := .setDefaultDriver 1) (by decide)
  have hstored := (hall _ hreach).stored 1 (by decide)
  exact absurd hstored (by decide)

end Manager

end Gts3.Dbi
