import Gts3.TaskThread

/-!
# `gts/log.cpp`: how the thread that outputs the messages comes to its end

The steps of `TaskThread` with the waiting itself: the worker that waits on `m_condition` goes on when it has been
woken, by a `notify_one` that comes while it waits or by nothing at all.  The destructor sets the stop flag and notifies
without the mutex, so the notification may come before the worker waits, and then the destructor joins it for ever
(`lostWakeup`).  And where the worker is woken with the flag set, `shutdown` unlocks the mutex that `locker` unlocks
once more (`unlockedTwice`).  Both need a worker that waits while the flag is set; `taskThreadWait_shutdown` says that
nothing else does. -/

namespace Gts3

open Lib.Transition

/-! ## The operations on a mutex -/

/-- An operation of a thread on a mutex. -/
inductive MutexOp (θ : Type)
  | lock (t : θ)
  | unlock (t : θ)
  deriving DecidableEq

/-- Who holds the mutex after these operations, the last one in front; there is no answer if a thread has unlocked a
mutex that it did not hold. -/
def holder {θ : Type} [DecidableEq θ] : List (MutexOp θ) → Option (Option θ)
  | [] => some none
  | .lock t :: ops => if holder ops = some none then some (some t) else none
  | .unlock t :: ops => if holder ops = some (some t) then some none else none

/-! ## The threads -/

/-- The threads that lock `m_mutex`. -/
inductive LogThread (T : Type)
  | worker
  | producer (t : T)
  deriving DecidableEq

/-- Where the destructor is: in front of the operation that the name says. -/
inductive DestructorPlace
  /-- `m_stop_flag = true`. -/
  | flag
  /-- `m_condition.notify_one()`. -/
  | notify
  /-- `m_thread.join()`. -/
  | join
  | ended
  deriving DecidableEq

/-- `join` returns when the thread has ended. -/
def DestructorPlace.goesOn (p : DestructorPlace) (isEnded : Bool) : Bool :=
  match p with
  | .flag | .notify => true
  | .join => isEnded
  | .ended => false

namespace WorkerPlace

variable {M : Type}

/-- The worker has locked the mutex and not unlocked it since. -/
def holds : WorkerPlace M → Bool
  | .empty | .woken | .front | .unlock _ | .swap _ | .unlockEnd _ _ => true
  | _ => false

/-- The worker waits, or comes from it and has not tested the stop flag. -/
def inWait : WorkerPlace M → Bool
  | .wait | .woken => true
  | _ => false

/-- The worker is in the `shutdown` that was called in the loop, or behind it. -/
def again : WorkerPlace M → Bool
  | .swap again | .unlockEnd _ again | .outputs _ again => again
  | .unlockAgain => true
  | _ => false

end WorkerPlace

/-- The thread has locked the mutex and not unlocked it since. -/
def ProducerPlace.holds {M : Type} : ProducerPlace M → Bool
  | .emplace _ | .unlock => true
  | _ => false

/-- The thread is in front of `m_mutex.unlock()`. -/
def ProducerPlace.isUnlock {M : Type} : ProducerPlace M → Bool
  | .unlock => true
  | _ => false

/-- `task_thread` with what its threads do beside `TaskThread`, and the operations on `m_mutex` so far. -/
structure TaskThreadWait (T M : Type) extends TaskThread T M where
  /-- The worker waits on `m_condition` and has not been woken. -/
  waiting : Bool
  /-- The thread is in front of the `notify_one` of `produce`. -/
  notifying : T → Bool
  destructor : DestructorPlace
  ops : List (MutexOp (LogThread T))

namespace TaskThreadWait

variable {T M : Type}

/-- The thread has been started. -/
def new : TaskThreadWait T M := ⟨TaskThread.new, false, fun _ => false, .flag, []⟩

/-! ## Steps -/

section Steps

/-- What the next operation of the worker is for the mutex. -/
def workerOps (s : TaskThread T M) : List (MutexOp (LogThread T)) :=
  match s.worker with
  | .lock | .wait | .lockEnd => [.lock .worker]
  | .empty => if s.queue.isEmpty then [.unlock .worker] else []
  | .unlock _ | .unlockEnd _ _ | .unlockAgain => [.unlock .worker]
  | _ => []

/-- What the next operation of a thread that produces is for the mutex. -/
def producerOps (s : TaskThread T M) (t : T) : List (MutexOp (LogThread T)) :=
  match s.producers t with
  | .lock _ => [.lock (.producer t)]
  | .unlock => [.unlock (.producer t)]
  | _ => []

/-- The next operation of the worker is `m_condition.wait(locker)`. -/
def beginsToWait (s : TaskThread T M) : Bool :=
  match s.worker with
  | .empty => s.queue.isEmpty
  | _ => false

variable [DecidableEq T]

/-- The next operation of the worker. -/
def workerStep (s : TaskThreadWait T M) : TaskThreadWait T M :=
  { s with
    toTaskThread := s.toTaskThread.workerStep
    waiting := beginsToWait s.toTaskThread
    ops := workerOps s.toTaskThread ++ s.ops }

/-- The next operation of a thread that produces; only the worker waits on `m_condition`. -/
def producerStep (s : TaskThreadWait T M) (t : T) : TaskThreadWait T M :=
  if s.notifying t then
    { s with waiting := false, notifying := fun t' => if t' = t then false else s.notifying t' }
  else
    { s with
      toTaskThread := s.toTaskThread.producerStep t
      notifying := fun t' => if t' = t then (s.producers t).isUnlock else s.notifying t'
      ops := producerOps s.toTaskThread t ++ s.ops }

/-- The next operation of the destructor. -/
def destructorStep (s : TaskThreadWait T M) : TaskThreadWait T M :=
  match s.destructor with
  | .flag => { s with stopFlag := true, beforeStop := s.enqueued, destructor := .notify }
  | .notify => { s with waiting := false, destructor := .join }
  | .join => { s with destructor := .ended }
  | .ended => s

/-- What may happen next. -/
inductive Event (T M : Type)
  /-- The worker goes on. -/
  | worker
  /-- The worker wakes up without a notification. -/
  | wake
  /-- A thread calls `produce`. -/
  | produce (t : T) (node : M)
  /-- A thread goes on in `produce`. -/
  | producer (t : T)
  /-- The destructor is called, or goes on. -/
  | destructor
  deriving DecidableEq

/-- A thread that locks the mutex waits until it is free, the worker in its wait until it is woken, and `join` until the
worker has ended. -/
def Enabled (s : TaskThreadWait T M) : Event T M → Prop
  | .worker => s.waiting = false ∧ (TaskThread.system T M).Enabled s.toTaskThread .worker
  | .wake => s.waiting = true
  | .produce t node => s.notifying t = false ∧ (TaskThread.system T M).Enabled s.toTaskThread (.produce t node)
  | .producer t => s.notifying t = true ∨ (TaskThread.system T M).Enabled s.toTaskThread (.producer t)
  | .destructor => s.destructor.goesOn s.worker.isEnded = true

/-- What an event does. -/
def next (s : TaskThreadWait T M) : Event T M → TaskThreadWait T M
  | .worker => s.workerStep
  | .wake => { s with waiting := false }
  | .produce t node => { s with toTaskThread := s.place t (.lock node) }
  | .producer t => s.producerStep t
  | .destructor => s.destructorStep

variable (T M) in
/-- All interleavings. -/
def system : System (TaskThreadWait T M) (Event T M) where
  init := new
  Enabled := Enabled
  next := next

instance (s : TaskThreadWait T M) (e : Event T M) : Decidable ((system T M).Enabled s e) := by
  show Decidable (Enabled s e)
  cases e <;> unfold Enabled <;> infer_instance

end Steps

/-! ## What may not happen -/

/-- The destructor joins a worker that waits, and no notification is to come. -/
def Stuck (s : TaskThreadWait T M) : Prop :=
  s.stopFlag = true ∧ s.destructor = .join ∧ s.waiting = true ∧
    ∀ t, (s.producers t).isOutside = true ∧ s.notifying t = false

section Mutex

variable [DecidableEq T]

/-- The destructor does not wait for ever, and the mutex has been unlocked only by a thread that held it, once for each
time it had locked it. -/
def Safe (s : TaskThreadWait T M) : Prop := ¬ s.Stuck ∧ (holder s.ops).isSome = true

/-- The worker does not wait while the stop flag is set: it does not begin to, and the flag is not set before the worker
has come out of its wait and tested the flag. -/
def NoWait (s : TaskThreadWait T M) : Event T M → Prop
  | .worker => beginsToWait s.toTaskThread = true → s.stopFlag = false
  | .destructor => s.destructor = .flag → s.worker.inWait = false
  | _ => True

instance (s : TaskThreadWait T M) (e : Event T M) : Decidable (s.NoWait e) := by
  cases e <;> unfold NoWait <;> infer_instance

instance (s : TaskThreadWait T M) (e : Event T M) : Decidable (((system T M).restrict NoWait).Enabled s e) :=
  inferInstanceAs (Decidable ((system T M).Enabled s e ∧ s.NoWait e))

/-! ## The mutex -/

/-- The thread has locked the mutex and not unlocked it since. -/
def inside (s : TaskThread T M) : LogThread T → Bool
  | .worker => s.worker.holds
  | .producer t => (s.producers t).holds

/-- Who holds the mutex: what the operations say, what the mutex says and where the threads are. -/
structure Held (s : TaskThread T M) (ops : List (MutexOp (LogThread T))) (o : Option (LogThread T)) : Prop where
  holder_eq : holder ops = some o
  mutex_eq : s.mutex = o.isSome
  inside_iff : ∀ t, inside s t = true ↔ o = some t

theorem held_new : Held (TaskThread.new : TaskThread T M) [] none := by
  refine ⟨rfl, rfl, fun t => ?_⟩
  cases t <;> simp [inside, TaskThread.new, WorkerPlace.holds, ProducerPlace.holds]

variable {s s' : TaskThread T M} {ops : List (MutexOp (LogThread T))} {o : Option (LogThread T)}

theorem Held.move (h : Held s ops o) (hmutex : s'.mutex = s.mutex) (hinside : ∀ t, inside s' t = inside s t) :
    Held s' ops o :=
  ⟨h.holder_eq, hmutex.trans h.mutex_eq, fun t => by rw [hinside t]; exact h.inside_iff t⟩

theorem Held.lock (h : Held s ops o) (t : LogThread T) (hfree : s.mutex = false) (hmutex : s'.mutex = true)
    (ht : inside s' t = true) (hother : ∀ t', t' ≠ t → inside s' t' = inside s t') :
    Held s' (.lock t :: ops) (some t) := by
  have hnone : o = none := by
    have hmutex' := h.mutex_eq
    rw [hfree] at hmutex'
    exact Option.not_isSome_iff_eq_none.mp (by simp [← hmutex'])
  refine ⟨by rw [holder, h.holder_eq, hnone, if_pos rfl], hmutex, fun t' => ?_⟩
  by_cases heq : t' = t
  · rw [heq]
    exact iff_of_true ht rfl
  · have hout := h.inside_iff t'
    rw [hother t' heq, hout, hnone]
    simp [Ne.symm heq]

theorem Held.unlock (h : Held s ops o) (t : LogThread T) (hinside : inside s t = true) (hmutex : s'.mutex = false)
    (ht : inside s' t = false) (hother : ∀ t', t' ≠ t → inside s' t' = inside s t') :
    Held s' (.unlock t :: ops) none := by
  have ho : o = some t := (h.inside_iff t).mp hinside
  refine ⟨by rw [holder, h.holder_eq, ho, if_pos rfl], hmutex, fun t' => ?_⟩
  by_cases heq : t' = t
  · simp [heq, ht]
  · have hout := h.inside_iff t'
    rw [hother t' heq, hout, ho]
    simp [Ne.symm heq]

theorem Held.unlock_outside (h : Held s ops o) (t : LogThread T) (hinside : inside s t = false) :
    holder (.unlock t :: ops) = none := by
  have ho : o ≠ some t := fun ho => by simp [(h.inside_iff t).mpr ho] at hinside
  rw [holder, h.holder_eq, if_neg (fun hno => ho (Option.some.inj hno))]

omit [DecidableEq T] in
theorem inside_of_worker (hproducers : s'.producers = s.producers) (t : LogThread T) (ht : t ≠ .worker) :
    inside s' t = inside s t := by
  cases t with
  | worker => exact absurd rfl ht
  | producer t => rw [inside, inside, hproducers]

theorem Held.worker_move (h : Held s ops o) (hmutex : s'.mutex = s.mutex) (hproducers : s'.producers = s.producers)
    (hholds : s'.worker.holds = s.worker.holds) : Held s' ops o := by
  refine h.move hmutex fun t => ?_
  cases t with
  | worker => exact hholds
  | producer t => rw [inside, inside, hproducers]

/-- **The worker's step**, unless it is the second `unlock`. -/
theorem Held.workerStep (h : Held s ops o) (hfree : s.worker.locks = true → s.mutex = false)
    (hagain : s.worker ≠ .unlockAgain) : ∃ o', Held s.workerStep (workerOps s ++ ops) o' := by
  have hinside : inside s .worker = s.worker.holds := rfl
  unfold TaskThread.workerStep workerOps
  cases hw : s.worker with
  | loop => exact ⟨o, h.worker_move rfl rfl (by rw [hw]; simp only; split_ifs <;> rfl)⟩
  | lock => exact ⟨_, h.lock .worker (hfree (by rw [hw]; rfl)) rfl rfl (inside_of_worker rfl)⟩
  | empty =>
    cases hqueue : s.queue with
    | nil => exact ⟨_, h.unlock .worker (by rw [hinside, hw]; rfl) rfl rfl (inside_of_worker rfl)⟩
    | cons node queue => exact ⟨o, h.worker_move rfl rfl (by rw [hw]; rfl)⟩
  | wait => exact ⟨_, h.lock .worker (hfree (by rw [hw]; rfl)) rfl rfl (inside_of_worker rfl)⟩
  | woken => exact ⟨o, h.worker_move rfl rfl (by rw [hw]; simp only; split_ifs <;> rfl)⟩
  | front =>
    cases hqueue : s.queue with
    | nil => exact ⟨o, h.worker_move rfl rfl (by rw [hw])⟩
    | cons node queue => exact ⟨o, h.worker_move rfl rfl (by rw [hw]; rfl)⟩
  | unlock node => exact ⟨_, h.unlock .worker (by rw [hinside, hw]; rfl) rfl rfl (inside_of_worker rfl)⟩
  | output node => exact ⟨o, h.worker_move rfl rfl (by rw [hw]; rfl)⟩
  | lockEnd => exact ⟨_, h.lock .worker (hfree (by rw [hw]; rfl)) rfl rfl (inside_of_worker rfl)⟩
  | swap again => exact ⟨o, h.worker_move rfl rfl (by rw [hw]; rfl)⟩
  | unlockEnd list again => exact ⟨_, h.unlock .worker (by rw [hinside, hw]; rfl) rfl rfl (inside_of_worker rfl)⟩
  | outputs list again =>
    cases list with
    | nil => exact ⟨o, h.worker_move rfl rfl (by rw [hw]; cases again <;> rfl)⟩
    | cons node list => exact ⟨o, h.worker_move rfl rfl (by rw [hw]; rfl)⟩
  | unlockAgain => exact absurd hw hagain
  | ended => exact ⟨o, h.worker_move rfl rfl (by rw [hw])⟩

theorem inside_place (s : TaskThread T M) (t : T) (p : ProducerPlace M) :
    inside (s.place t p) (.producer t) = p.holds ∧
      ∀ t', t' ≠ .producer t → inside (s.place t p) t' = inside s t' := by
  refine ⟨by simp [inside, TaskThread.place], fun t' ht' => ?_⟩
  cases t' with
  | worker => rfl
  | producer t' =>
    have hne : t' ≠ t := fun heq => ht' (by rw [heq])
    simp [inside, TaskThread.place, hne]

theorem Held.place (h : Held s ops o) (t : T) (p : ProducerPlace M) (hholds : p.holds = (s.producers t).holds) :
    Held (s.place t p) ops o := by
  obtain ⟨hp, hother⟩ := inside_place s t p
  refine h.move rfl fun t' => ?_
  by_cases heq : t' = .producer t
  · rw [heq, hp, hholds]
    rfl
  · exact hother t' heq

/-- **A step of `produce`**. -/
theorem Held.producerStep (h : Held s ops o) (t : T) (hfree : (s.producers t).locks = true → s.mutex = false) :
    ∃ o', Held (s.producerStep t) (producerOps s t ++ ops) o' := by
  have hinside : inside s (.producer t) = (s.producers t).holds := rfl
  unfold TaskThread.producerStep producerOps
  cases hp : s.producers t with
  | outside => exact ⟨o, h⟩
  | lock node =>
    obtain ⟨ht, hother⟩ := inside_place { s with mutex := true } t (.emplace node)
    exact ⟨_, h.lock (.producer t) (hfree (by rw [hp]; rfl)) rfl ht hother⟩
  | emplace node =>
    have hmove : Held { s with queue := s.queue ++ [node], enqueued := s.enqueued ++ [node] } ops o :=
      h.worker_move rfl rfl rfl
    exact ⟨o, hmove.place t _ (by rw [hp]; rfl)⟩
  | unlock =>
    obtain ⟨ht, hother⟩ := inside_place { s with mutex := false } t .outside
    exact ⟨_, h.unlock (.producer t) (by rw [hinside, hp]; rfl) rfl ht hother⟩

/-! ## The way to the end -/

omit [DecidableEq T] in
theorem workerStep_stopFlag (s : TaskThread T M) : s.workerStep.stopFlag = s.stopFlag := by
  unfold TaskThread.workerStep
  cases s.worker with
  | empty => cases hqueue : s.queue <;> rfl
  | front => cases hqueue : s.queue <;> rfl
  | outputs list again => cases list <;> rfl
  | _ => rfl

/-- The worker waits while the flag is set, or is in the `shutdown` that was called in the loop: it will unlock the
mutex a second time, if it comes that far. -/
def BadEnd (s : TaskThread T M) : Prop := s.worker.again = true ∨ (s.stopFlag = true ∧ s.worker.inWait = true)

omit [DecidableEq T] in
/-- **The worker stays on the way** to the second `unlock`. -/
theorem BadEnd.workerStep (h : BadEnd s) (hagain : s.worker ≠ .unlockAgain) : BadEnd s.workerStep := by
  obtain hagain' | ⟨hstop, hwait⟩ := h
  · refine .inl ?_
    unfold TaskThread.workerStep
    cases hw : s.worker with
    | swap again => rw [hw] at hagain'; exact hagain'
    | unlockEnd list again => rw [hw] at hagain'; exact hagain'
    | outputs list again =>
      rw [hw] at hagain'
      obtain rfl : again = true := hagain'
      cases list <;> rfl
    | unlockAgain => exact absurd hw hagain
    | _ => rw [hw] at hagain'; cases hagain'
  · cases hw : s.worker with
    | wait =>
      refine .inr ⟨(workerStep_stopFlag s).trans hstop, ?_⟩
      rw [TaskThread.workerStep, hw]
      rfl
    | woken =>
      refine .inl ?_
      rw [TaskThread.workerStep, hw]
      simp only [hstop, if_true]
      rfl
    | _ => rw [hw] at hwait; cases hwait

omit [DecidableEq T] in
theorem workerStep_worker_of_beginsToWait (h : beginsToWait s = true) : s.workerStep.worker = .wait := by
  unfold beginsToWait at h
  cases hw : s.worker with
  | empty =>
    rw [hw] at h
    rw [TaskThread.workerStep, hw]
    cases hqueue : s.queue with
    | nil => rfl
    | cons node queue => simp [hqueue] at h
  | _ => rw [hw] at h; cases h

omit [DecidableEq T] in
theorem badEnd_of_beginsToWait (hstop : s.stopFlag = true) (h : beginsToWait s = true) : BadEnd s.workerStep := by
  refine .inr ⟨(workerStep_stopFlag s).trans hstop, ?_⟩
  rw [workerStep_worker_of_beginsToWait h]
  rfl

omit [DecidableEq T] in
/-- **Otherwise it does not come onto this way.** -/
theorem not_badEnd_workerStep (h : ¬ BadEnd s) (hwait : beginsToWait s = true → s.stopFlag = false) :
    ¬ BadEnd s.workerStep := by
  unfold BadEnd at h ⊢
  rw [workerStep_stopFlag]
  unfold TaskThread.workerStep
  unfold beginsToWait at hwait
  cases hw : s.worker with
  | loop => simp only; split_ifs <;> simp [WorkerPlace.again, WorkerPlace.inWait]
  | empty =>
    cases hqueue : s.queue with
    | nil =>
      have hstop : s.stopFlag = false := hwait (by rw [hw, hqueue]; rfl)
      simp [hstop, WorkerPlace.again]
    | cons node queue => simp [WorkerPlace.again, WorkerPlace.inWait]
  | wait => simpa [hw, WorkerPlace.again, WorkerPlace.inWait] using h
  | woken =>
    have hstop : s.stopFlag = false := by simpa [hw, WorkerPlace.again, WorkerPlace.inWait] using h
    simp [hstop, WorkerPlace.again]
  | front => cases hqueue : s.queue <;> simp [hw, WorkerPlace.again, WorkerPlace.inWait]
  | swap again => simpa [hw, WorkerPlace.again, WorkerPlace.inWait] using h
  | unlockEnd list again => simpa [hw, WorkerPlace.again, WorkerPlace.inWait] using h
  | outputs list again =>
    have hagain : again = false := by simpa [hw, WorkerPlace.again, WorkerPlace.inWait] using h
    cases list <;> simp [hagain, WorkerPlace.again, WorkerPlace.inWait]
  | unlockAgain => simp [hw, WorkerPlace.again] at h
  | _ => simp [hw, WorkerPlace.again, WorkerPlace.inWait]

theorem producerStep_same (s : TaskThread T M) (t : T) :
    (s.producerStep t).worker = s.worker ∧ (s.producerStep t).stopFlag = s.stopFlag := by
  unfold TaskThread.producerStep
  cases s.producers t <;> exact ⟨rfl, rfl⟩

theorem badEnd_producerStep (s : TaskThread T M) (t : T) : BadEnd (s.producerStep t) ↔ BadEnd s := by
  obtain ⟨hworker, hstop⟩ := producerStep_same s t
  rw [BadEnd, BadEnd, hworker, hstop]

/-! ## Runs -/

/-- What holds as long as no thread has unlocked a mutex that it did not hold. -/
structure Inv (w : TaskThreadWait T M) : Prop where
  held : ∃ o, Held w.toTaskThread w.ops o
  waiting : w.waiting = true → w.worker = .wait

theorem inv_new : (new : TaskThreadWait T M).Inv := ⟨⟨none, held_new⟩, fun h => nomatch h⟩

variable {w : TaskThreadWait T M} {e : Event T M}

/-- `TaskThread` can come to this state, and the destructor sets the flag once. -/
structure Projects (w : TaskThreadWait T M) : Prop where
  reachable : (TaskThread.system T M).Reachable w.toTaskThread
  flag : w.destructor = .flag → w.stopFlag = false

theorem projects_of_reachable (h : (system T M).Reachable w) : w.Projects := by
  refine h.inv ⟨.init, fun _ => rfl⟩ fun w e hw he => ?_
  obtain ⟨hreachable, hflag⟩ := hw
  cases e with
  | worker => exact ⟨hreachable.next he.2, fun hplace => (workerStep_stopFlag _).trans (hflag hplace)⟩
  | wake => exact ⟨hreachable, hflag⟩
  | produce t node => exact ⟨hreachable.next he.2, hflag⟩
  | producer t =>
    show (w.producerStep t).Projects
    rw [TaskThreadWait.producerStep]
    split_ifs with hnotifying
    · exact ⟨hreachable, hflag⟩
    · exact ⟨hreachable.next (he.resolve_left hnotifying), fun hplace =>
        (producerStep_same w.toTaskThread t).2.trans (hflag hplace)⟩
  | destructor =>
    show w.destructorStep.Projects
    unfold destructorStep
    cases hplace : w.destructor with
    | flag =>
      have hstop : (TaskThread.system T M).Enabled w.toTaskThread .stop := hflag hplace
      exact ⟨hreachable.next hstop, nofun⟩
    | notify => exact ⟨hreachable, nofun⟩
    | join => exact ⟨hreachable, nofun⟩
    | ended => exact ⟨hreachable, fun hno => nomatch hplace.symm.trans hno⟩

/-- **Without the waiting** the interleavings are those of `TaskThread`: the messages come out as they do there. -/
theorem inv_toTaskThread (h : (system T M).Reachable w) : w.toTaskThread.Inv :=
  TaskThread.inv_of_reachable (projects_of_reachable h).reachable

/-- **Every step but the second `unlock`**. -/
theorem Inv.next (h : w.Inv) (he : (system T M).Enabled w e) (hagain : e = .worker → w.worker ≠ .unlockAgain) :
    ((system T M).next w e).Inv := by
  obtain ⟨⟨o, hheld⟩, hwaiting⟩ := h
  cases e with
  | worker =>
    have hfree : w.worker.locks = true → w.mutex = false := he.2.2
    exact ⟨hheld.workerStep hfree (hagain rfl), workerStep_worker_of_beginsToWait⟩
  | wake => exact ⟨⟨o, hheld⟩, fun h => nomatch h⟩
  | produce t node =>
    have houtside : (w.producers t).isOutside = true := he.2
    refine ⟨⟨o, hheld.place t _ ?_⟩, hwaiting⟩
    cases hp : w.producers t with
    | outside => rfl
    | _ => rw [hp] at houtside; cases houtside
  | producer t =>
    show (w.producerStep t).Inv
    rw [TaskThreadWait.producerStep]
    split_ifs with hnotifying
    · exact ⟨⟨o, hheld⟩, fun h => nomatch h⟩
    · have hfree : (w.producers t).locks = true → w.mutex = false := (he.resolve_left hnotifying).2
      refine ⟨hheld.producerStep t hfree, fun h => ?_⟩
      show (w.toTaskThread.producerStep t).worker = .wait
      rw [(producerStep_same _ t).1, hwaiting h]
  | destructor =>
    show w.destructorStep.Inv
    unfold destructorStep
    cases w.destructor with
    | flag => exact ⟨⟨o, hheld.worker_move rfl rfl rfl⟩, hwaiting⟩
    | notify => exact ⟨⟨o, hheld⟩, fun h => nomatch h⟩
    | join => exact ⟨⟨o, hheld⟩, hwaiting⟩
    | ended => exact ⟨⟨o, hheld⟩, hwaiting⟩

theorem Inv.not_safe_unlockAgain (h : w.Inv) (hw : w.worker = .unlockAgain) : ¬ ((system T M).next w .worker).Safe := by
  obtain ⟨o, hheld⟩ := h.held
  have hops : workerOps w.toTaskThread = [.unlock .worker] := by rw [workerOps, hw]
  have hnone : holder (workerOps w.toTaskThread ++ w.ops) = none := by
    rw [hops]
    exact hheld.unlock_outside .worker (by rw [inside, hw]; rfl)
  intro hsafe
  have hsome : (holder (workerOps w.toTaskThread ++ w.ops)).isSome = true := hsafe.2
  rw [hnone] at hsome
  cases hsome

/-- **Where the worker is not on the way to a bad end**, nothing bad has happened. -/
theorem Inv.safe (h : w.Inv) (hgood : ¬ BadEnd w.toTaskThread) : w.Safe := by
  obtain ⟨o, hheld⟩ := h.held
  refine ⟨fun ⟨hstop, _, hwaiting, _⟩ => hgood (.inr ⟨hstop, ?_⟩), by rw [hheld.holder_eq]; rfl⟩
  rw [h.waiting hwaiting]
  rfl

theorem not_badEnd_next (hgood : ¬ BadEnd w.toTaskThread) (hok : w.NoWait e) :
    ¬ BadEnd ((system T M).next w e).toTaskThread := by
  cases e with
  | worker => exact not_badEnd_workerStep hgood hok
  | wake => exact hgood
  | produce t node => exact hgood
  | producer t =>
    show ¬ BadEnd (w.producerStep t).toTaskThread
    rw [TaskThreadWait.producerStep]
    split_ifs
    · exact hgood
    · exact fun h => hgood ((badEnd_producerStep _ t).mp h)
  | destructor =>
    show ¬ BadEnd w.destructorStep.toTaskThread
    unfold destructorStep
    cases hplace : w.destructor with
    | flag =>
      have hwait : w.worker.inWait = false := hok hplace
      rintro (hagain | ⟨-, hno⟩)
      · exact hgood (.inl hagain)
      · rw [hwait] at hno
        cases hno
    | _ => exact hgood

theorem Inv.badEnd_next (h : w.Inv) (hsafe : ((system T M).next w e).Safe)
    (hbad : BadEnd w.toTaskThread ∨ ¬ w.NoWait e) : BadEnd ((system T M).next w e).toTaskThread := by
  cases e with
  | worker =>
    obtain hbad | hwait := hbad
    · exact hbad.workerStep fun hw => h.not_safe_unlockAgain hw hsafe
    · obtain ⟨hbegins, hstop⟩ : beginsToWait w.toTaskThread = true ∧ w.stopFlag = true := by
        simpa [NoWait] using hwait
      exact badEnd_of_beginsToWait hstop hbegins
  | wake => exact hbad.resolve_right (fun hno => hno trivial)
  | produce t node => exact hbad.resolve_right (fun hno => hno trivial)
  | producer t =>
    have hbad' : BadEnd w.toTaskThread := hbad.resolve_right (fun hno => hno trivial)
    show BadEnd (w.producerStep t).toTaskThread
    rw [TaskThreadWait.producerStep]
    split_ifs
    · exact hbad'
    · exact (badEnd_producerStep _ t).mpr hbad'
  | destructor =>
    show BadEnd w.destructorStep.toTaskThread
    unfold destructorStep
    obtain (hagain | ⟨hstop, hwait⟩) | hwait := hbad
    · cases w.destructor <;> exact .inl hagain
    · cases w.destructor with
      | flag => exact .inr ⟨rfl, hwait⟩
      | _ => exact .inr ⟨hstop, hwait⟩
    · obtain ⟨hplace, hwait⟩ : w.destructor = .flag ∧ w.worker.inWait = true := by
        simpa [NoWait] using hwait
      rw [hplace]
      exact .inr ⟨rfl, hwait⟩

theorem Inv.next_of_safe (h : w.Inv) (he : (system T M).Enabled w e) (hsafe : ((system T M).next w e).Safe) :
    ((system T M).next w e).Inv := by
  refine h.next he fun heq hw => ?_
  rw [heq] at hsafe
  exact h.not_safe_unlockAgain hw hsafe

theorem run_noWait_iff {es : List (Event T M)} :
    (((system T M).restrict NoWait).Run new es w → ((system T M).keeping Safe).Run new es w ∧ ¬ BadEnd w.toTaskThread) ∧
      (((system T M).keeping Safe).Run new es w → ¬ BadEnd w.toTaskThread →
        ((system T M).restrict NoWait).Run new es w) := by
  have hnew : ¬ BadEnd (new : TaskThreadWait T M).toTaskThread := by
    rintro (hagain | ⟨hstop, -⟩)
    · cases hagain
    · cases hstop
  refine System.restrict_run_iff_of_bad_end (I := Inv) (D := fun w => BadEnd w.toTaskThread) ?_ ?_ ?_ inv_new hnew
  · intro w e hinv hgood he hok
    have hnext : ((system T M).next w e).Inv := hinv.next he fun _ hw => hgood (.inl (by rw [hw]; rfl))
    have hgood' := not_badEnd_next hgood hok
    exact ⟨hnext, hgood', hnext.safe hgood'⟩
  · exact fun w e hinv he hsafe => hinv.next_of_safe he hsafe
  · exact fun w e hinv _ hsafe hbad => hinv.badEnd_next hsafe hbad

/-- **The end of the thread**, in every interleaving: where the worker does not wait while the stop flag is set, the
destructor never waits for ever and the mutex is unlocked as it should be.  And of the runs at whose end the worker has
ended there are no others in which this is so. -/
theorem taskThreadWait_shutdown :
    (∀ w, ((system T M).restrict NoWait).Reachable w → w.Safe) ∧
      ∀ (es : List (Event T M)) (w : TaskThreadWait T M), w.worker = .ended →
        (((system T M).restrict NoWait).Run new es w ↔ ((system T M).keeping Safe).Run new es w) := by
  constructor
  · rintro w ⟨es, hrun⟩
    have hsafe : (new : TaskThreadWait T M).Safe := ⟨(fun ⟨hstop, _⟩ => nomatch hstop), rfl⟩
    exact System.keeping_reachable hsafe ⟨es, (run_noWait_iff.1 hrun).1⟩
  · intro es w hended
    refine ⟨fun hrun => (run_noWait_iff.1 hrun).1, fun hrun => run_noWait_iff.2 hrun ?_⟩
    rintro (hagain | ⟨-, hwait⟩)
    · rw [hended] at hagain
      cases hagain
    · rw [hended] at hwait
      cases hwait

/-- One thread enqueues a message, and the flag is set while the worker has it in its hands. -/
def stopAtOutput : List (Event Unit ℕ) :=
  [.produce () 7, .producer (), .producer (), .producer (), .producer (), .worker, .worker, .worker, .destructor,
    .worker, .worker, .worker, .worker, .destructor, .worker, .worker, .worker, .worker, .destructor]

theorem taskThreadWait_shutdown_stopAtOutput :
    ∃ w : TaskThreadWait Unit ℕ, w.destructor = .ended ∧ w.outputs = [7] ∧ w.Safe ∧
      ((system Unit ℕ).keeping Safe).Run new stopAtOutput w := by
  obtain ⟨w, hw⟩ : ∃ w, ((system Unit ℕ).restrict NoWait).replay new stopAtOutput = some w :=
    Option.isSome_iff_exists.mp (by decide)
  have hended : (((system Unit ℕ).restrict NoWait).replay new stopAtOutput).map (·.worker) = some .ended := by decide
  have hdestructor : (((system Unit ℕ).restrict NoWait).replay new stopAtOutput).map (·.destructor) = some .ended := by
    decide
  have houtputs : (((system Unit ℕ).restrict NoWait).replay new stopAtOutput).map (·.outputs) = some [7] := by decide
  rw [hw] at hended hdestructor houtputs
  have hrun := System.run_of_replay hw
  have hshutdown := taskThreadWait_shutdown (T := Unit) (M := ℕ)
  exact ⟨w, Option.some.inj hdestructor, Option.some.inj houtputs, hshutdown.1 w ⟨stopAtOutput, hrun⟩,
    (hshutdown.2 stopAtOutput w (Option.some.inj hended)).mp hrun⟩

/-- The destructor sets the flag and notifies while the worker comes from the loop's test to its wait. -/
def lostWakeup : List (Event Unit ℕ) := [.worker, .destructor, .destructor, .worker, .worker]

/-- The worker waits, as it does most of the time, when the destructor is called. -/
def unlockedTwice : List (Event Unit ℕ) :=
  [.worker, .worker, .worker, .destructor, .destructor, .worker, .worker, .worker, .worker, .worker, .worker]

/-- **Both can happen**: a join without end, and an `unlock` by a thread that does not hold the mutex. -/
theorem taskThreadWait_not_safe :
    (∃ w, (system Unit ℕ).Reachable w ∧ w.Stuck) ∧ ∃ w, (system Unit ℕ).Reachable w ∧ holder w.ops = none := by
  constructor
  · obtain ⟨w, hw⟩ : ∃ w, (system Unit ℕ).replay new lostWakeup = some w := Option.isSome_iff_exists.mp (by decide)
    have hstuck : ((system Unit ℕ).replay new lostWakeup).all
        (fun w => w.stopFlag && w.destructor = .join && w.waiting &&
        (w.producers ()).isOutside && !w.notifying ()) = true := by decide
    rw [hw] at hstuck
    obtain ⟨⟨⟨⟨hstop, hjoin⟩, hwaiting⟩, houtside⟩, hnotifying⟩ :
        (((w.stopFlag = true ∧ w.destructor = .join) ∧ w.waiting = true) ∧ (w.producers ()).isOutside = true) ∧
          w.notifying () = false := by simpa using hstuck
    exact ⟨w, System.reachable_of_replay hw, hstop, hjoin, hwaiting, fun _ => ⟨houtside, hnotifying⟩⟩
  · obtain ⟨w, hw⟩ : ∃ w, (system Unit ℕ).replay new unlockedTwice = some w := Option.isSome_iff_exists.mp (by decide)
    have hops : ((system Unit ℕ).replay new unlockedTwice).map (fun w => holder w.ops) = some none := by decide
    rw [hw] at hops
    exact ⟨w, System.reachable_of_replay hw, Option.some.inj hops⟩

end Mutex

end TaskThreadWait

end Gts3
