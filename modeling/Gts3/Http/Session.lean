import Gts3.Lib.Cxx
import Gts3.Lib.Maps
import Gts3.Lib.Transition

/-!
# `gts/http/session.cpp`: sessions and their timers

A session is in the hash from its creation until a handler of its timer takes it out.  The timer of a session has at
most one pending wait; an expiry or a cancellation queues the handler of the wait, and handlers that are queued run in
any order.  `sessions_safe` says what holds in every state: an invalid session in the hash has a handler queued, a
valid one a pending wait or a handler that was not cancelled.
-/

namespace Gts3.Http

open Lib Lib.Cxx Lib.Transition

/-! ## Sessions -/

/-- `session_impl`; `pending` are the seconds of the wait on the timer. -/
structure SessionImpl where
  id : Bytes
  createTime : ℕ
  lifecycle : ℕ
  isValid : Bool
  pending : Option ℕ
  deriving DecidableEq

/-- A queued handler of a wait. -/
structure TimerHandler where
  session : ℕ
  wasCancel : Bool
  deriving DecidableEq

/-- All sessions that have been created, `g_session_hash`, the queued handlers and `g_global_lifecycle`. -/
structure Sessions where
  impls : List SessionImpl
  hash : UMap Bytes ℕ
  queue : List TimerHandler
  globalLifecycle : ℕ

/-- `session_impl::set_lifecycle`; the seconds are stored in 64 bits. -/
def SessionImpl.setLifecycle (impl : SessionImpl) (globalLifecycle : ℕ) (seconds : ℤ) : SessionImpl :=
  { impl with lifecycle := if seconds > 0 then seconds.toNat else globalLifecycle }

namespace Sessions

/-- The start of the program. -/
def new : Sessions := ⟨[], UMap.empty, [], 1800⟩

/-- A session is changed. -/
def modify (w : Sessions) (x : ℕ) (f : SessionImpl → SessionImpl) : Sessions := { w with impls := w.impls.modify x f }

/-- The wait of a session ends, and its handler is queued. -/
def endWait (w : Sessions) (x : ℕ) (wasCancel : Bool) : Sessions :=
  match (w.impls[x]?).bind SessionImpl.pending with
  | none => w
  | some _ => { w.modify x ({ · with pending := none }) with queue := w.queue ++ [⟨x, wasCancel⟩] }

/-- `m_timer.cancel`. -/
def cancelTimer (w : Sessions) (x : ℕ) : Sessions := w.endWait x true

/-- `session_impl::restart`. -/
def restart (w : Sessions) (x : ℕ) (s : ℕ) : Sessions :=
  (w.cancelTimer x).modify x fun impl => { impl with pending := some (if s = 0 then impl.lifecycle else s) }

/-- The handler of `restart`. -/
def onTimer (w : Sessions) (h : TimerHandler) : Sessions :=
  match w.impls[h.session]? with
  | none => w
  | some impl =>
    if h.wasCancel then
      if impl.isValid then w else { w with hash := w.hash.erase impl.id }
    else { w.modify h.session ({ · with isValid := false }) with hash := w.hash.erase impl.id }

/-- `session::session` and `session::set`: the new session is put into the hash, and its timer is started. -/
def create (w : Sessions) (id : Bytes) (createTime : ℕ) (seconds : ℤ) : Sessions :=
  let impl := SessionImpl.setLifecycle ⟨id, createTime, 0, true, none⟩ w.globalLifecycle seconds
  restart { w with impls := w.impls ++ [impl], hash := w.hash.emplace id w.impls.length } w.impls.length 0

/-- `session::invalidate`. -/
def invalidate (w : Sessions) (x : ℕ) : Sessions := (w.modify x ({ · with isValid := false })).cancelTimer x

/-- `session::set_lifecycle` at a time; all sums are in 64 bits. -/
def setLifecycle (w : Sessions) (x : ℕ) (seconds : ℤ) (ctime : ℕ) : Sessions :=
  match w.impls[x]? with
  | none => w
  | some impl =>
    let w := w.modify x (·.setLifecycle w.globalLifecycle seconds)
    let cat := ((impl.createTime + seconds) % 2 ^ 64).toNat
    if ctime < cat then w.restart x (((ctime : ℤ) - cat) % 2 ^ 64).toNat else w.invalidate x

/-- `session::expand`. -/
def expand (w : Sessions) (x : ℕ) (seconds : ℤ) : Sessions :=
  (w.modify x fun impl => if seconds > 0 then { impl with lifecycle := seconds.toNat } else impl).restart x 0

/-- `session::get`. -/
def get (w : Sessions) (id : Bytes) : Option ℕ := w.hash.find? id

end Sessions

/-! ## Steps -/

/-- What happens to sessions. -/
inductive SessionEvent
  /-- A session with a new id is created and put into the hash. -/
  | create (id : Bytes) (createTime : ℕ) (seconds : ℤ)
  | expand (x : ℕ) (seconds : ℤ)
  | setLifecycle (x : ℕ) (seconds : ℤ) (ctime : ℕ)
  | invalidate (x : ℕ)
  | setGlobalLifecycle (seconds : ℤ)
  /-- The wait of a session expires. -/
  | expire (x : ℕ)
  /-- A queued handler runs. -/
  | handle (h : TimerHandler)
  deriving DecidableEq

namespace Sessions

/-- What can happen. -/
def Enabled (w : Sessions) : SessionEvent → Prop
  | .create id _ _ => w.hash.find? id = none
  | .expand x _ | .setLifecycle x _ _ | .invalidate x => x < w.impls.length
  | .setGlobalLifecycle _ => True
  | .expire x => ((w.impls[x]?).bind SessionImpl.pending).isSome = true
  | .handle h => h ∈ w.queue

instance (w : Sessions) (e : SessionEvent) : Decidable (w.Enabled e) := by
  cases e <;> unfold Enabled <;> infer_instance

/-- What becomes of the sessions. -/
def next (w : Sessions) : SessionEvent → Sessions
  | .create id createTime seconds => w.create id createTime seconds
  | .expand x seconds => w.expand x seconds
  | .setLifecycle x seconds ctime => w.setLifecycle x seconds ctime
  | .invalidate x => w.invalidate x
  | .setGlobalLifecycle seconds => if seconds > 0 then { w with globalLifecycle := seconds.toNat } else w
  | .expire x => w.endWait x false
  | .handle h => onTimer { w with queue := w.queue.erase h } h

/-- Sessions in every order of steps. -/
def system : System Sessions SessionEvent := ⟨new, Enabled, next⟩

instance (w : Sessions) (e : SessionEvent) : Decidable (system.Enabled w e) := inferInstanceAs (Decidable (w.Enabled e))

/-! ## What the operations change -/

section Operations

variable (w : Sessions) (x : ℕ)

theorem impls_modify (f : SessionImpl → SessionImpl) (y : ℕ) :
    (w.modify x f).impls[y]? = if x = y then (w.impls[y]?).map f else w.impls[y]? := by
  rw [modify, List.getElem?_modify]
  split_ifs <;> simp

@[simp] theorem hash_modify (f : SessionImpl → SessionImpl) : (w.modify x f).hash = w.hash := rfl

@[simp] theorem queue_modify (f : SessionImpl → SessionImpl) : (w.modify x f).queue = w.queue := rfl

@[simp] theorem length_modify (f : SessionImpl → SessionImpl) : (w.modify x f).impls.length = w.impls.length := by
  simp [modify]

@[simp] theorem hash_endWait (b : Bool) : (w.endWait x b).hash = w.hash := by
  unfold endWait
  split <;> rfl

@[simp] theorem length_endWait (b : Bool) : (w.endWait x b).impls.length = w.impls.length := by
  unfold endWait
  split <;> simp

theorem queue_endWait (b : Bool) :
    (w.endWait x b).queue =
      w.queue ++ if ((w.impls[x]?).bind SessionImpl.pending).isSome then [⟨x, b⟩] else [] := by
  unfold endWait
  split <;> simp_all

theorem impls_endWait (b : Bool) (y : ℕ) :
    (w.endWait x b).impls[y]? = if x = y then (w.impls[y]?).map ({ · with pending := none }) else w.impls[y]? := by
  unfold endWait
  split
  · next hnone =>
    split_ifs with hxy
    · subst hxy
      cases himpl : w.impls[x]? with
      | none => rfl
      | some impl =>
        rw [himpl, Option.bind_some] at hnone
        rw [Option.map_some, ← hnone]
    · rfl
  · exact impls_modify w x _ y

@[simp] theorem hash_restart (s : ℕ) : (w.restart x s).hash = w.hash := hash_endWait w x true

@[simp] theorem queue_restart (s : ℕ) : (w.restart x s).queue = (w.endWait x true).queue := rfl

@[simp] theorem length_restart (s : ℕ) : (w.restart x s).impls.length = w.impls.length := by
  simp [restart, cancelTimer]

/-- After a restart the timer has a wait; the rest of the session is as before. -/
theorem impls_restart (s y : ℕ) :
    (w.restart x s).impls[y]? = if x = y then (w.impls[y]?).map
      (fun impl => { impl with pending := some (if s = 0 then impl.lifecycle else s) }) else w.impls[y]? := by
  rw [restart, cancelTimer, impls_modify, impls_endWait]
  by_cases h : x = y
  · rw [if_pos h, if_pos h, if_pos h, Option.map_map]
    rfl
  · rw [if_neg h, if_neg h, if_neg h]

@[simp] theorem hash_invalidate : (w.invalidate x).hash = w.hash := hash_endWait _ x true

theorem impls_invalidate (y : ℕ) :
    (w.invalidate x).impls[y]? = if x = y then (w.impls[y]?).map
      (fun impl => { impl with isValid := false, pending := none }) else w.impls[y]? := by
  rw [invalidate, cancelTimer, impls_endWait, impls_modify]
  split_ifs with h
  · rw [Option.map_map]
    rfl
  · rfl

theorem queue_invalidate :
    (w.invalidate x).queue =
      w.queue ++ if ((w.impls[x]?).bind SessionImpl.pending).isSome then [⟨x, true⟩] else [] := by
  rw [invalidate, cancelTimer, queue_endWait, impls_modify, if_pos rfl, queue_modify]
  cases w.impls[x]? <;> rfl

end Operations

/-! ## The invariant -/

/-- What a session in the hash waits for. -/
structure Waiting (w : Sessions) (x : ℕ) (impl : SessionImpl) : Prop where
  invalid : impl.isValid = false → ∃ h ∈ w.queue, h.session = x
  valid : impl.isValid = true → impl.pending.isSome = true ∨ ∃ h ∈ w.queue, h.session = x ∧ h.wasCancel = false

/-- Every session in the hash is there under its id, and waits to be taken out. -/
structure Inv (w : Sessions) : Prop where
  queue : ∀ h ∈ w.queue, h.session < w.impls.length
  hash : ∀ id x, w.hash.find? id = some x → ∃ impl, w.impls[x]? = some impl ∧ impl.id = id ∧ Waiting w x impl

/-- **One session** changes, and the others wait as before. -/
theorem Inv.frame {w w' : Sessions} (x : ℕ) (h : Inv w) (hlength : w.impls.length ≤ w'.impls.length)
    (hhash : ∀ id y, w'.hash.find? id = some y → y ≠ x → w.hash.find? id = some y)
    (himpls : ∀ y, y ≠ x → w'.impls[y]? = w.impls[y]?)
    (hqueue : ∀ k, k.session ≠ x → (k ∈ w.queue ↔ k ∈ w'.queue))
    (hx : (∃ k ∈ w'.queue, k.session = x) → x < w'.impls.length)
    (hwait : ∀ id, w'.hash.find? id = some x → ∃ impl, w'.impls[x]? = some impl ∧ impl.id = id ∧ Waiting w' x impl) :
    Inv w' := by
  refine ⟨fun k hk => ?_, fun id y hy => ?_⟩
  · by_cases hkx : k.session = x
    · exact hkx ▸ hx ⟨k, hk, hkx⟩
    · exact (h.queue k ((hqueue k hkx).mpr hk)).trans_le hlength
  · by_cases hyx : y = x
    · exact hyx ▸ hwait id (hyx ▸ hy)
    · obtain ⟨impl, himpl, hid, hwaiting⟩ := h.hash id y (hhash id y hy hyx)
      have hkeep : ∀ k ∈ w.queue, k.session = y → k ∈ w'.queue := fun k hk hky => (hqueue k (hky ▸ hyx)).mp hk
      refine ⟨impl, (himpls y hyx).trans himpl, hid, fun hv => ?_, fun hv => ?_⟩
      · obtain ⟨k, hk, hky⟩ := hwaiting.invalid hv
        exact ⟨k, hkeep k hk hky, hky⟩
      · refine (hwaiting.valid hv).imp_right ?_
        rintro ⟨k, hk, hky, hkc⟩
        exact ⟨k, hkeep k hk hky, hky, hkc⟩

/-! ## Every operation keeps it -/

/-- A change of the lifecycle alone. -/
theorem Inv.modify {w : Sessions} (h : Inv w) (x : ℕ) {f : SessionImpl → SessionImpl}
    (hf : ∀ impl, (f impl).id = impl.id ∧ (f impl).isValid = impl.isValid ∧ (f impl).pending = impl.pending) :
    Inv (w.modify x f) := by
  refine h.frame x (by simp) (fun id y hy _ => hy) (fun y hy => ?_) (fun k _ => Iff.rfl) ?_ fun id hid => ?_
  · rw [impls_modify, if_neg (Ne.symm hy)]
  · rintro ⟨k, hk, rfl⟩
    simpa using h.queue k hk
  · obtain ⟨impl, himpl, hid, hwait⟩ := h.hash id x hid
    obtain ⟨hfid, hfvalid, hfpending⟩ := hf impl
    refine ⟨f impl, by rw [impls_modify, if_pos rfl, himpl, Option.map_some], hfid.trans hid, ?_, ?_⟩
    · rw [hfvalid]
      exact hwait.invalid
    · rw [hfvalid, hfpending]
      exact hwait.valid

theorem mem_queue_endWait {w : Sessions} {x : ℕ} {b : Bool} {k : TimerHandler} (hk : k ∈ w.queue) :
    k ∈ (w.endWait x b).queue := by
  rw [queue_endWait]
  exact List.mem_append_left _ hk

theorem mem_queue_endWait_iff {w : Sessions} {x : ℕ} {b : Bool} {k : TimerHandler} (hk : k.session ≠ x) :
    k ∈ w.queue ↔ k ∈ (w.endWait x b).queue := by
  rw [queue_endWait, List.mem_append]
  refine ⟨Or.inl, fun h => h.resolve_right fun hk' => ?_⟩
  split_ifs at hk'
  · obtain rfl := List.mem_singleton.mp hk'
    exact hk rfl
  · cases hk'

theorem Inv.restart {w : Sessions} (h : Inv w) {x : ℕ} (hx : x < w.impls.length) (s : ℕ) : Inv (w.restart x s) := by
  refine h.frame x (by simp) (fun id y hy _ => by simpa using hy) (fun y hy => ?_)
    (fun k hk => mem_queue_endWait_iff hk) (fun _ => by simpa using hx) fun id hid => ?_
  · rw [impls_restart, if_neg (Ne.symm hy)]
  · obtain ⟨impl, himpl, hid, hwait⟩ := h.hash id x (by simpa using hid)
    have himpl' := impls_restart w x s x
    rw [if_pos rfl, himpl, Option.map_some] at himpl'
    refine ⟨_, himpl', hid, fun hv => ?_, fun _ => Or.inl rfl⟩
    obtain ⟨k, hk, hkx⟩ := hwait.invalid hv
    exact ⟨k, mem_queue_endWait hk, hkx⟩

theorem Inv.invalidate {w : Sessions} (h : Inv w) {x : ℕ} (hx : x < w.impls.length) : Inv (w.invalidate x) := by
  have hqueue : (w.invalidate x).queue = (w.endWait x true).queue := by rw [queue_invalidate, queue_endWait]
  have hlength : (w.invalidate x).impls.length = w.impls.length := by
    rw [Sessions.invalidate, cancelTimer, length_endWait, length_modify]
  refine h.frame x hlength.ge (fun id y hy _ => by simpa using hy) (fun y hy => ?_) (fun k hk => ?_)
    (fun _ => hlength ▸ hx) fun id hid => ?_
  · rw [impls_invalidate, if_neg (Ne.symm hy)]
  · rw [hqueue]
    exact mem_queue_endWait_iff hk
  · obtain ⟨impl, himpl, hid, hwait⟩ := h.hash id x (by simpa using hid)
    have himpl' := impls_invalidate w x x
    rw [if_pos rfl, himpl, Option.map_some] at himpl'
    refine ⟨_, himpl', hid, fun _ => ?_, fun hv => absurd hv Bool.false_ne_true⟩
    -- the wait that is cancelled, or the handler that was there
    have hkeep : ∀ k ∈ w.queue, k ∈ (w.invalidate x).queue := fun k hk => hqueue ▸ mem_queue_endWait hk
    cases hv : impl.isValid with
    | false =>
      obtain ⟨k, hk, hkx⟩ := hwait.invalid hv
      exact ⟨k, hkeep k hk, hkx⟩
    | true =>
      rcases hwait.valid hv with hp | ⟨k, hk, hkx, -⟩
      · exact ⟨⟨x, true⟩, by simp [queue_invalidate, himpl, hp], rfl⟩
      · exact ⟨k, hkeep k hk, hkx⟩

/-- An expired wait. -/
theorem Inv.expire {w : Sessions} (h : Inv w) {x : ℕ}
    (hpending : ((w.impls[x]?).bind SessionImpl.pending).isSome = true) : Inv (w.endWait x false) := by
  have hx : x < w.impls.length := by
    by_contra hx
    rw [List.getElem?_eq_none (Nat.le_of_not_lt hx)] at hpending
    cases hpending
  have hmem : ⟨x, false⟩ ∈ (w.endWait x false).queue := by simp [queue_endWait, hpending]
  refine h.frame x (by simp) (fun id y hy _ => by simpa using hy) (fun y hy => ?_)
    (fun k hk => mem_queue_endWait_iff hk) (fun _ => by simpa using hx) fun id hid => ?_
  · rw [impls_endWait, if_neg (Ne.symm hy)]
  · obtain ⟨impl, himpl, hid, -⟩ := h.hash id x (by simpa using hid)
    have himpl' := impls_endWait w x false x
    rw [if_pos rfl, himpl, Option.map_some] at himpl'
    exact ⟨_, himpl', hid, fun _ => ⟨_, hmem, rfl⟩, fun _ => Or.inr ⟨_, hmem, rfl, rfl⟩⟩

/-- A new session. -/
theorem Inv.create {w : Sessions} (h : Inv w) {id : Bytes} (hid : w.hash.find? id = none) (createTime : ℕ)
    (seconds : ℤ) : Inv (w.create id createTime seconds) := by
  have hx : w.impls.length < (w.create id createTime seconds).impls.length := by simp [Sessions.create]
  have hhash : ∀ id' y, (w.create id createTime seconds).hash.find? id' = some y →
      if id' = id then y = w.impls.length else w.hash.find? id' = some y := by
    intro id' y hy
    rw [Sessions.create, hash_restart, UMap.find?_emplace] at hy
    split_ifs at hy ⊢ with hid'
    · rw [hid, Option.getD_none] at hy
      exact (Option.some.inj hy).symm
    · exact hy
  have hno : ∀ k ∈ w.queue, k.session ≠ w.impls.length := fun k hk => (h.queue k hk).ne
  refine h.frame w.impls.length hx.le (fun id' y hy hne => ?_) (fun y hy => ?_) (fun k hk => ?_) (fun _ => hx)
    fun id' hid' => ?_
  · have := hhash id' y hy
    split_ifs at this
    · exact absurd this hne
    · exact this
  · rw [Sessions.create, impls_restart, if_neg (Ne.symm hy), List.getElem?_append]
    split_ifs with hlt
    · rfl
    · rw [List.getElem?_eq_none (Nat.le_of_not_lt hlt), List.getElem?_eq_none]
      simp
      omega
  · rw [Sessions.create, queue_restart]
    refine Iff.trans ?_ (mem_queue_endWait_iff hk)
    rfl
  · have hid₁ := hhash id' _ hid'
    split_ifs at hid₁ with hid₂
    · have himpl := impls_restart
        { w with impls := w.impls ++
                  [SessionImpl.setLifecycle ⟨id, createTime, 0, true, none⟩ w.globalLifecycle seconds]
                 hash := w.hash.emplace id w.impls.length } w.impls.length 0 w.impls.length
      rw [if_pos rfl, List.getElem?_concat_length, Option.map_some] at himpl
      exact ⟨_, himpl, hid₂.symm, fun hv => absurd hv.symm Bool.false_ne_true, fun _ => Or.inl rfl⟩
    · -- nobody has had this number
      obtain ⟨impl, himpl, -⟩ := h.hash id' _ hid₁
      rw [List.getElem?_eq_none le_rfl] at himpl
      cases himpl

/-- The hash without a session. -/
theorem Inv.erase_gone {w : Sessions} (h : Inv w) {x : ℕ} {impl : SessionImpl} (himpl : w.impls[x]? = some impl)
    (id : Bytes) : (w.hash.erase impl.id).find? id ≠ some x := by
  rw [UMap.find?_erase]
  split_ifs with hid
  · simp
  · intro hx
    obtain ⟨impl', himpl', hid', -⟩ := h.hash id x hx
    obtain rfl : impl = impl' := Option.some.inj (himpl.symm.trans himpl')
    exact hid hid'.symm

/-- **A handler runs**: the session is taken out, unless it is valid and the wait was cancelled. -/
theorem Inv.onTimer {w : Sessions} (h : Inv w) {k : TimerHandler} (hk : k ∈ w.queue) :
    Inv (Sessions.onTimer { w with queue := w.queue.erase k } k) := by
  have hlt := h.queue k hk
  obtain ⟨impl, himpl⟩ : ∃ impl, w.impls[k.session]? = some impl := ⟨_, List.getElem?_eq_getElem hlt⟩
  have hqueue : ∀ k', k'.session ≠ k.session → (k' ∈ w.queue ↔ k' ∈ w.queue.erase k) := fun k' hk' =>
    (List.mem_erase_of_ne fun h => hk' (by rw [h])).symm
  have hfind : ∀ id y, (w.hash.erase impl.id).find? id = some y → w.hash.find? id = some y := by
    intro id y hy
    rw [UMap.find?_erase] at hy
    split_ifs at hy
    exact hy
  rw [Sessions.onTimer]
  simp only [himpl]
  split_ifs with hc hv
  · -- the session has been restarted: the cancelled handler is not the one it waits for
    refine h.frame k.session le_rfl (fun id y hy _ => hy) (fun y _ => rfl) hqueue (fun _ => hlt) fun id hid => ?_
    obtain ⟨impl', himpl', hid', hwait⟩ := h.hash id _ hid
    obtain rfl : impl = impl' := Option.some.inj (himpl.symm.trans himpl')
    refine ⟨impl, himpl, hid', ⟨fun hv' => absurd (hv'.symm.trans hv) Bool.false_ne_true, fun _ => ?_⟩⟩
    refine (hwait.valid hv).imp_right ?_
    rintro ⟨k', hk', hkx, hkc⟩
    exact ⟨k', (List.mem_erase_of_ne fun h => by rw [h, hc] at hkc; cases hkc).mpr hk', hkx, hkc⟩
  · exact h.frame k.session le_rfl (fun id y hy _ => hfind id y hy) (fun y _ => rfl) hqueue (fun _ => hlt)
      fun id hid => absurd hid (h.erase_gone himpl id)
  · refine h.frame k.session (by simp) (fun id y hy _ => hfind id y hy) (fun y hy => ?_) hqueue
      (fun _ => by simpa using hlt)
      fun id hid => absurd hid (h.erase_gone himpl id)
    exact (impls_modify _ k.session _ y).trans (if_neg (Ne.symm hy))

/-- **One step** keeps the invariant. -/
theorem Inv.next {w : Sessions} (h : Inv w) {e : SessionEvent} (he : w.Enabled e) : Inv (w.next e) := by
  cases e with
  | create id createTime seconds => exact h.create he createTime seconds
  | expand x seconds =>
    have hx : x < w.impls.length := he
    refine Inv.restart (h.modify x fun impl => ?_) (by simpa using hx) 0
    split_ifs <;> simp
  | setLifecycle x seconds ctime =>
    have hmod : Inv (w.modify x (·.setLifecycle w.globalLifecycle seconds)) := h.modify x fun impl => ⟨rfl, rfl, rfl⟩
    have hlt : x < w.impls.length := he
    have hx : x < (w.modify x (·.setLifecycle w.globalLifecycle seconds)).impls.length := by simpa using hlt
    obtain ⟨impl, himpl⟩ : ∃ impl, w.impls[x]? = some impl := ⟨_, List.getElem?_eq_getElem he⟩
    simp only [Sessions.next, Sessions.setLifecycle, himpl]
    split_ifs
    · exact hmod.restart hx _
    · exact hmod.invalidate hx
  | invalidate x => exact h.invalidate he
  | setGlobalLifecycle seconds =>
    rw [Sessions.next]
    split_ifs
    · exact ⟨h.queue, fun id x hx => by
        obtain ⟨impl, himpl, hid, hwait⟩ := h.hash id x hx
        exact ⟨impl, himpl, hid, hwait.invalid, hwait.valid⟩⟩
    · exact h
  | expire x => exact h.expire he
  | handle k => exact h.onTimer he

theorem reachable_inv {w : Sessions} (h : system.Reachable w) : Inv w := by
  refine h.inv ⟨by simp [system, new], ?_⟩ fun w e hw he => hw.next he
  intro id x hx
  cases hx

/-! ## What is over stays over -/

/-- A session that is not valid any more. -/
def Invalid (w : Sessions) (x : ℕ) : Prop := ∃ impl, w.impls[x]? = some impl ∧ impl.isValid = false

/-- `get` does not return the session. -/
def Gone (w : Sessions) (x : ℕ) : Prop := ∀ id, w.get id ≠ some x

/-- The sessions are still there, and none has become valid. -/
def Keeps (w w' : Sessions) : Prop :=
  ∀ (x : ℕ) (impl : SessionImpl), w.impls[x]? = some impl →
    ∃ impl' : SessionImpl, w'.impls[x]? = some impl' ∧ (impl.isValid = false → impl'.isValid = false)

theorem Keeps.of_impls {w w' : Sessions} (h : w'.impls = w.impls) : Keeps w w' :=
  fun _ impl himpl => ⟨impl, h ▸ himpl, id⟩

theorem Keeps.trans {w w' w'' : Sessions} (h : Keeps w w') (h' : Keeps w' w'') : Keeps w w'' := by
  intro x impl himpl
  obtain ⟨impl', himpl', hv⟩ := h x impl himpl
  obtain ⟨impl'', himpl'', hv'⟩ := h' x impl' himpl'
  exact ⟨impl'', himpl'', hv' ∘ hv⟩

theorem Keeps.modify (w : Sessions) (x : ℕ) {f : SessionImpl → SessionImpl}
    (hf : ∀ impl, impl.isValid = false → (f impl).isValid = false) : Keeps w (w.modify x f) := by
  intro y impl himpl
  rw [impls_modify, himpl]
  split_ifs
  · exact ⟨f impl, rfl, hf impl⟩
  · exact ⟨impl, rfl, id⟩

theorem Keeps.endWait (w : Sessions) (x : ℕ) (b : Bool) : Keeps w (w.endWait x b) := by
  intro y impl himpl
  rw [impls_endWait, himpl]
  split_ifs
  · exact ⟨{ impl with pending := none }, rfl, id⟩
  · exact ⟨impl, rfl, id⟩

theorem Keeps.restart (w : Sessions) (x s : ℕ) : Keeps w (w.restart x s) :=
  (Keeps.endWait w x true).trans (Keeps.modify _ x fun _ h => h)

theorem Keeps.invalidate (w : Sessions) (x : ℕ) : Keeps w (w.invalidate x) :=
  (Keeps.modify w x fun _ _ => rfl).trans (Keeps.endWait _ x true)

/-- **Validity** never comes back in a step. -/
theorem Keeps.next (w : Sessions) (e : SessionEvent) : Keeps w (w.next e) := by
  cases e with
  | create id createTime seconds =>
    refine Keeps.trans (fun x impl himpl => ?_) (Keeps.restart _ _ _)
    have hlt := (List.getElem?_eq_some_iff.mp himpl).1
    exact ⟨impl, by rw [List.getElem?_append_left hlt, himpl], fun h => h⟩
  | expand x seconds =>
    refine (Keeps.modify w x fun impl h => ?_).trans (Keeps.restart _ _ _)
    split_ifs <;> exact h
  | setLifecycle x seconds ctime =>
    simp only [Sessions.next, Sessions.setLifecycle]
    have hmod : Keeps w (w.modify x (·.setLifecycle w.globalLifecycle seconds)) := Keeps.modify w x fun _ h => h
    split
    · exact Keeps.of_impls rfl
    · split_ifs
      · exact hmod.trans (Keeps.restart _ _ _)
      · exact hmod.trans (Keeps.invalidate _ _)
  | invalidate x => exact Keeps.invalidate w x
  | setGlobalLifecycle seconds =>
    rw [Sessions.next]
    split_ifs <;> exact Keeps.of_impls rfl
  | expire x => exact Keeps.endWait w x false
  | handle k =>
    have hmod : Keeps w (w.modify k.session ({ · with isValid := false })) := Keeps.modify w k.session fun _ _ => rfl
    rw [Sessions.next, Sessions.onTimer]
    split
    · exact Keeps.of_impls rfl
    · split_ifs
      · exact Keeps.of_impls rfl
      · exact Keeps.of_impls rfl
      · exact hmod.trans (Keeps.of_impls rfl)

theorem Keeps.run {w w' : Sessions} {es : List SessionEvent} (h : system.Run w es w') : Keeps w w' := by
  induction h with
  | nil => exact Keeps.of_impls rfl
  | snoc _ _ ih => exact ih.trans (Keeps.next _ _)

theorem Invalid.keeps {w w' : Sessions} {x : ℕ} (h : Invalid w x) (hk : Keeps w w') : Invalid w' x := by
  obtain ⟨impl, himpl, hv⟩ := h
  obtain ⟨impl', himpl', hv'⟩ := hk x impl himpl
  exact ⟨impl', himpl', hv' hv⟩

/-- Only a new session gets into the hash. -/
theorem get_next {w : Sessions} {e : SessionEvent} {id : Bytes} {x : ℕ} (h : (w.next e).get id = some x) :
    w.get id = some x ∨ x = w.impls.length := by
  unfold get at h ⊢
  cases e with
  | create id' createTime seconds =>
    rw [Sessions.next, Sessions.create, hash_restart, UMap.find?_emplace] at h
    split_ifs at h with hid
    · rw [hid]
      cases hf : w.hash.find? id' with
      | none =>
        rw [hf] at h
        exact Or.inr (Option.some.inj h).symm
      | some y =>
        rw [hf] at h
        exact Or.inl h
    · exact Or.inl h
  | expand x seconds => exact Or.inl (by simpa [Sessions.next, Sessions.expand] using h)
  | setLifecycle x seconds ctime =>
    simp only [Sessions.next, Sessions.setLifecycle] at h
    split at h
    · exact Or.inl h
    · split_ifs at h
      · exact Or.inl (by simpa using h)
      · exact Or.inl (by simpa using h)
  | invalidate x => exact Or.inl (by simpa [Sessions.next] using h)
  | setGlobalLifecycle seconds =>
    rw [Sessions.next] at h
    split_ifs at h <;> exact Or.inl h
  | expire x => exact Or.inl (by simpa [Sessions.next] using h)
  | handle k =>
    have herase : ∀ id', (w.hash.erase id').find? id = some x → w.hash.find? id = some x := by
      intro id' h
      rw [UMap.find?_erase] at h
      split_ifs at h
      exact h
    rw [Sessions.next, Sessions.onTimer] at h
    split at h
    · exact Or.inl h
    · split_ifs at h
      · exact Or.inl h
      · exact Or.inl (herase _ h)
      · exact Or.inl (herase _ h)

theorem Gone.run {w w' : Sessions} {x : ℕ} {es : List SessionEvent} (h : Gone w x) (hx : x < w.impls.length)
    (hrun : system.Run w es w') : Gone w' x := by
  induction hrun with
  | nil => exact h
  | @snoc w' es e hrun he ih =>
    intro id hid
    obtain ⟨impl, himpl⟩ : ∃ impl, w.impls[x]? = some impl := ⟨_, List.getElem?_eq_getElem hx⟩
    obtain ⟨impl', himpl', -⟩ := Keeps.run hrun x impl himpl
    rcases get_next hid with hid | rfl
    · exact ih id hid
    · rw [List.getElem?_eq_none le_rfl] at himpl'
      cases himpl'

/-- A handler takes out a session that is over. -/
theorem gone_of_handle {w : Sessions} (h : Inv w) {k : TimerHandler} (hk : k ∈ w.queue)
    (hover : Invalid w k.session ∨ k.wasCancel = false) : Gone (w.next (.handle k)) k.session := by
  obtain ⟨impl, himpl⟩ : ∃ impl, w.impls[k.session]? = some impl := ⟨_, List.getElem?_eq_getElem (h.queue k hk)⟩
  intro id
  unfold get
  rw [Sessions.next, Sessions.onTimer]
  simp only [himpl]
  split_ifs with hc hv
  · obtain ⟨impl', himpl', hv'⟩ := hover.resolve_right (by simp [hc])
    obtain rfl : impl = impl' := Option.some.inj (himpl.symm.trans himpl')
    simp [hv] at hv'
  · exact h.erase_gone himpl id
  · exact h.erase_gone himpl id

/-- **The handlers of a session that is over** take it out when they run. -/
theorem gone_of_handled {w w' : Sessions} {es : List SessionEvent} {k : TimerHandler} (h : Inv w)
    (hrun : system.Run w es w') (hk : k.session < w.impls.length) (hover : Invalid w k.session ∨ k.wasCancel = false)
    (hmem : .handle k ∈ es) : Gone w' k.session := by
  induction hrun with
  | nil => cases hmem
  | @snoc w' es e hrun he ih =>
    have hinv : Inv w' := hrun.inv (fun _ _ h he => h.next he) h
    rcases List.mem_append.mp hmem with hmem | hmem
    · obtain ⟨impl, himpl⟩ : ∃ impl, w.impls[k.session]? = some impl := ⟨_, List.getElem?_eq_getElem hk⟩
      obtain ⟨impl', himpl', -⟩ := Keeps.run hrun _ impl himpl
      exact (ih hmem).run (List.getElem?_eq_some_iff.mp himpl').1 (.snoc (.nil w') he)
    · obtain rfl := List.mem_singleton.mp hmem
      exact gone_of_handle hinv he (hover.imp_left (·.keeps (Keeps.run hrun)))

/-! ## Every state -/

/-- A session that has been invalidated, or whose wait has expired. -/
def Over (w : Sessions) (x : ℕ) : Prop := Invalid w x ∨ ∃ k ∈ w.queue, k.session = x ∧ k.wasCancel = false

/-- What holds of sessions, whatever has happened. -/
structure Safe (w : Sessions) : Prop where
  key : ∀ id x, w.get id = some x → ∃ impl, w.impls[x]? = some impl ∧ impl.id = id
  validity : ∀ es w', system.Run w es w' → ∀ x, Invalid w x → Invalid w' x
  invalid : ∀ id x, w.get id = some x → Invalid w x → ∃ k ∈ w.queue, k.session = x
  valid : ∀ id x impl, w.get id = some x → w.impls[x]? = some impl → impl.isValid = true →
    impl.pending.isSome = true ∨ ∃ k ∈ w.queue, k.session = x ∧ k.wasCancel = false
  gone : ∀ x, Over w x → ∀ es w', system.Run w es w' →
    (∀ k ∈ w.queue, k.session = x → .handle k ∈ es) → Gone w' x

/-- **Sessions in every state**: keys are ids, validity does not come back, a session in the hash waits to be taken
out, and once the handlers of one that is over have run, `get` does not return it. -/
theorem sessions_safe {w : Sessions} (h : system.Reachable w) : Safe w := by
  have hinv := reachable_inv h
  have hinvalid : ∀ id x, w.get id = some x → Invalid w x → ∃ k ∈ w.queue, k.session = x := by
    rintro id x hx ⟨impl, himpl, hv⟩
    obtain ⟨impl', himpl', -, hwait⟩ := hinv.hash id x hx
    obtain rfl : impl = impl' := Option.some.inj (himpl.symm.trans himpl')
    exact hwait.invalid hv
  refine ⟨fun id x hx => ?_, fun es w' hrun x hx => hx.keeps (Keeps.run hrun), hinvalid, ?_, ?_⟩
  · obtain ⟨impl, himpl, hid, -⟩ := hinv.hash id x hx
    exact ⟨impl, himpl, hid⟩
  · intro id x impl hx himpl hv
    obtain ⟨impl', himpl', -, hwait⟩ := hinv.hash id x hx
    obtain rfl : impl = impl' := Option.some.inj (himpl.symm.trans himpl')
    exact hwait.valid hv
  · intro x hover es w' hrun hall
    rcases hover with hx | ⟨k, hk, rfl, hc⟩
    · by_cases hgone : Gone w x
      · obtain ⟨impl, himpl, -⟩ := hx
        exact hgone.run (List.getElem?_eq_some_iff.mp himpl).1 hrun
      · obtain ⟨id, hid⟩ := not_forall_not.mp hgone
        obtain ⟨k, hk, rfl⟩ := hinvalid id x hid hx
        exact gone_of_handled hinv hrun (hinv.queue k hk) (Or.inl hx) (hall k hk rfl)
    · exact gone_of_handled hinv hrun (hinv.queue k hk) (Or.inr hc) (hall k hk rfl)

/-- A session whose first wait is cancelled by `expand`. -/
theorem sessions_safe_expanded : Safe (system.next (system.next system.init (.create [97] 0 5)) (.expand 0 3)) :=
  sessions_safe ((System.Reachable.init.next (by decide)).next (by decide))

end Sessions

end Gts3.Http
