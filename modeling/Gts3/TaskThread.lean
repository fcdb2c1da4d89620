import Gts3.Lib.Transition
import Mathlib.Data.List.Basic

/-!
# `gts/log.cpp`: the thread that outputs the messages

`task_thread` with any number of threads that call `produce`, the worker thread and the destructor, one step at a time.
A wake-up of the condition variable may come at any time.  The messages that were enqueued are at every moment those
that were output, those that the worker has in its hands and those in the queue, in this order (`Inv`);
`taskThread_output` is what follows for the output. -/

namespace Gts3

open Lib.Transition

/-! ## The threads -/

/-- Where the worker is: in front of the operation that the name says. -/
inductive WorkerPlace (M : Type)
  /-- `while( not m_stop_flag )`. -/
  | loop
  /-- `locker(m_mutex)`. -/
  | lock
  /-- `while( m_message_qeueue.empty() )`. -/
  | empty
  /-- The end of `m_condition.wait(locker)`, which takes the mutex back. -/
  | wait
  /-- `if( m_stop_flag )`. -/
  | woken
  /-- `front` and `pop_front`. -/
  | front
  /-- `locker.unlock()`. -/
  | unlock (node : M)
  /-- `_output`. -/
  | output (node : M)
  /-- `m_mutex.lock()` behind the loop. -/
  | lockEnd
  /-- `swap` in `shutdown`; `again` says that it was called in the loop, whose `locker` still owns the mutex. -/
  | swap (again : Bool)
  /-- `m_mutex.unlock()` in `shutdown`. -/
  | unlockEnd (list : List M) (again : Bool)
  /-- The loop of `shutdown`. -/
  | outputs (list : List M) (again : Bool)
  /-- The destructor of `locker`, which unlocks the mutex once more, whoever has locked it since. -/
  | unlockAgain
  | ended
  deriving DecidableEq

/-- Where a thread is in `produce`. -/
inductive ProducerPlace (M : Type)
  | outside
  | lock (node : M)
  | emplace (node : M)
  | unlock
  deriving DecidableEq

/-- The worker has ended. -/
def WorkerPlace.isEnded {M : Type} : WorkerPlace M → Bool
  | .ended => true
  | _ => false

/-- The operation locks the mutex. -/
def WorkerPlace.locks {M : Type} : WorkerPlace M → Bool
  | .lock | .wait | .lockEnd => true
  | _ => false

/-- The thread is not in `produce`. -/
def ProducerPlace.isOutside {M : Type} : ProducerPlace M → Bool
  | .outside => true
  | _ => false

/-- The operation locks the mutex. -/
def ProducerPlace.locks {M : Type} : ProducerPlace M → Bool
  | .lock _ => true
  | _ => false

/-- `task_thread` with the places of its threads; beside them what has been enqueued and output so far, and what had
been enqueued when the stop flag was set. -/
structure TaskThread (T M : Type) where
  queue : List M
  stopFlag : Bool
  /-- Whether `m_mutex` is locked. -/
  mutex : Bool
  worker : WorkerPlace M
  producers : T → ProducerPlace M
  enqueued : List M
  outputs : List M
  beforeStop : List M

namespace TaskThread

variable {T M : Type}

/-- The thread has been started. -/
def new : TaskThread T M := ⟨[], false, false, .loop, fun _ => .outside, [], [], []⟩

/-! ## Steps -/

section Steps

variable [DecidableEq T]

/-- The next operation of the worker. -/
def workerStep (s : TaskThread T M) : TaskThread T M :=
  match s.worker with
  | .loop => { s with worker := if s.stopFlag then .lockEnd else .lock }
  | .lock => { s with mutex := true, worker := .empty }
  | .empty => match s.queue with
    | [] => { s with mutex := false, worker := .wait }
    | _ :: _ => { s with worker := .front }
  | .wait => { s with mutex := true, worker := .woken }
  | .woken => { s with worker := if s.stopFlag then .swap true else .empty }
  | .front => match s.queue with
    | [] => s
    | node :: queue => { s with queue, worker := .unlock node }
  | .unlock node => { s with mutex := false, worker := .output node }
  | .output node => { s with outputs := s.outputs ++ [node], worker := .loop }
  | .lockEnd => { s with mutex := true, worker := .swap false }
  | .swap again => { s with queue := [], worker := .unlockEnd s.queue again }
  | .unlockEnd list again => { s with mutex := false, worker := .outputs list again }
  | .outputs list again => match list with
    | [] => { s with worker := if again then .unlockAgain else .ended }
    | node :: list => { s with outputs := s.outputs ++ [node], worker := .outputs list again }
  | .unlockAgain => { s with mutex := false, worker := .ended }
  | .ended => s

/-- The place of a thread that produces. -/
def place (s : TaskThread T M) (t : T) (p : ProducerPlace M) : TaskThread T M :=
  { s with producers := fun t' => if t' = t then p else s.producers t' }

/-- The next operation of a thread that produces. -/
def producerStep (s : TaskThread T M) (t : T) : TaskThread T M :=
  match s.producers t with
  | .outside => s
  | .lock node => { s with mutex := true }.place t (.emplace node)
  | .emplace node => { s with queue := s.queue ++ [node], enqueued := s.enqueued ++ [node] }.place t .unlock
  | .unlock => { s with mutex := false }.place t .outside

/-- What may happen next. -/
inductive Event (T M : Type)
  /-- The worker goes on. -/
  | worker
  /-- A thread calls `produce`. -/
  | produce (t : T) (node : M)
  /-- A thread goes on in `produce`. -/
  | producer (t : T)
  /-- The destructor sets the stop flag. -/
  | stop
  deriving DecidableEq

/-- A thread that locks the mutex waits until it is free. -/
def Enabled (s : TaskThread T M) : Event T M → Prop
  | .worker => s.worker.isEnded = false ∧ (s.worker.locks = true → s.mutex = false)
  | .produce t _ => (s.producers t).isOutside = true
  | .producer t => (s.producers t).isOutside = false ∧ ((s.producers t).locks = true → s.mutex = false)
  | .stop => s.stopFlag = false

/-- What an event does. -/
def next (s : TaskThread T M) : Event T M → TaskThread T M
  | .worker => s.workerStep
  | .produce t node => s.place t (.lock node)
  | .producer t => s.producerStep t
  | .stop => { s with stopFlag := true, beforeStop := s.enqueued }

variable (T M) in
/-- All interleavings. -/
def system : System (TaskThread T M) (Event T M) where
  init := new
  Enabled := Enabled
  next := next

instance (s : TaskThread T M) (e : Event T M) : Decidable ((system T M).Enabled s e) := by
  show Decidable (Enabled s e)
  cases e <;> unfold Enabled <;> infer_instance

end Steps

/-! ## The invariant -/

/-- The messages that the worker has taken and not yet output. -/
def inHand : WorkerPlace M → List M
  | .unlock node | .output node => [node]
  | .unlockEnd list _ | .outputs list _ => list
  | _ => []

/-- The worker has seen the stop flag. -/
def Ending : WorkerPlace M → Prop
  | .lockEnd | .swap _ | .unlockEnd _ _ | .outputs _ _ | .unlockAgain | .ended => True
  | _ => False

/-- The worker has taken the queue for the last time. -/
def Swapped : WorkerPlace M → Prop
  | .unlockEnd _ _ | .outputs _ _ | .unlockAgain | .ended => True
  | _ => False

theorem Swapped.ending {w : WorkerPlace M} (h : Swapped w) : Ending w := by
  cases w <;> trivial

/-- What holds at every moment. -/
structure Inv (s : TaskThread T M) : Prop where
  enqueued_eq : s.enqueued = s.outputs ++ inHand s.worker ++ s.queue
  front : s.worker = .front → s.queue ≠ []
  ending : Ending s.worker → s.stopFlag = true
  before : s.stopFlag = true → s.beforeStop <+: s.enqueued
  swapped : Swapped s.worker → s.beforeStop <+: s.outputs ++ inHand s.worker

theorem inv_new : (new : TaskThread T M).Inv where
  enqueued_eq := rfl
  front h := nomatch h
  ending h := h.elim
  before h := nomatch h
  swapped h := h.elim

variable {s : TaskThread T M}

/-- A step that moves the worker only, and neither takes the queue nor leaves anything out. -/
theorem Inv.moved (h : s.Inv) {mutex : Bool} {w : WorkerPlace M} (hhand : inHand w = inHand s.worker)
    (hfront : w = .front → s.queue ≠ []) (hending : Ending w → s.stopFlag = true)
    (hswapped : Swapped w → Swapped s.worker) : ({ s with mutex, worker := w } : TaskThread T M).Inv where
  enqueued_eq := by
    rw [hhand]
    exact h.enqueued_eq
  front := hfront
  ending := hending
  before := h.before
  swapped hw := by
    rw [hhand]
    exact h.swapped (hswapped hw)

/-- A step that outputs the first message in hand. -/
theorem Inv.output (h : s.Inv) {node : M} {w : WorkerPlace M} (hhand : inHand s.worker = node :: inHand w)
    (hfront : w ≠ .front) (hending : Ending w → s.stopFlag = true) (hswapped : Swapped w → Swapped s.worker) :
    ({ s with outputs := s.outputs ++ [node], worker := w } : TaskThread T M).Inv where
  enqueued_eq := by
    rw [h.enqueued_eq, hhand]
    simp only [List.append_assoc, List.cons_append, List.nil_append]
  front hw := absurd hw hfront
  ending := hending
  before := h.before
  swapped hw := by
    have hbefore := h.swapped (hswapped hw)
    rw [hhand] at hbefore
    simpa only [List.append_assoc, List.cons_append, List.nil_append] using hbefore

theorem Inv.front_step (h : s.Inv) (hw : s.worker = .front) {node : M} {queue : List M}
    (hqueue : s.queue = node :: queue) : ({ s with queue, worker := .unlock node } : TaskThread T M).Inv where
  enqueued_eq := by
    have heq := h.enqueued_eq
    rw [hw, hqueue] at heq
    simpa only [inHand, List.append_nil, List.append_assoc, List.cons_append, List.nil_append] using heq
  front hno := nomatch hno
  ending hno := hno.elim
  before := h.before
  swapped hno := hno.elim

/-- The worker takes the whole queue: all that was enqueued is output or in its hands. -/
theorem Inv.swap_step (h : s.Inv) {again : Bool} (hw : s.worker = .swap again) :
    ({ s with queue := [], worker := .unlockEnd s.queue again } : TaskThread T M).Inv := by
  have heq := h.enqueued_eq
  rw [hw, show inHand (.swap again : WorkerPlace M) = [] from rfl, List.append_nil] at heq
  have hstop : s.stopFlag = true := h.ending (by rw [hw]; trivial)
  refine ⟨?_, (fun hno => nomatch hno), fun _ => hstop, h.before, fun _ => ?_⟩
  · simp only [inHand, List.append_nil]
    exact heq
  · have hbefore := h.before hstop
    rwa [heq] at hbefore

/-- **The worker's step.** -/
theorem Inv.workerStep (h : s.Inv) : s.workerStep.Inv := by
  unfold TaskThread.workerStep
  cases hw : s.worker with
  | loop =>
    simp only
    split_ifs with hstop
    · exact h.moved (by rw [hw]; rfl) (fun hno => nomatch hno) (fun _ => hstop) (fun hno => hno.elim)
    · exact h.moved (by rw [hw]; rfl) (fun hno => nomatch hno) (fun hno => hno.elim) (fun hno => hno.elim)
  | lock => exact h.moved (by rw [hw]; rfl) (fun hno => nomatch hno) (fun hno => hno.elim) (fun hno => hno.elim)
  | empty =>
    simp only
    cases hqueue : s.queue with
    | nil =>
      have hmoved : ({ s with mutex := false, worker := .wait } : TaskThread T M).Inv :=
        h.moved (by rw [hw]; rfl) (fun hno => nomatch hno) (fun hno => hno.elim) (fun hno => hno.elim)
      rwa [hqueue] at hmoved
    | cons node queue =>
      have hfront : s.queue ≠ [] := by
        rw [hqueue]
        exact List.cons_ne_nil _ _
      have hmoved : ({ s with worker := .front } : TaskThread T M).Inv :=
        h.moved (by rw [hw]; rfl) (fun _ => hfront) (fun hno => hno.elim) (fun hno => hno.elim)
      rwa [hqueue] at hmoved
  | wait => exact h.moved (by rw [hw]; rfl) (fun hno => nomatch hno) (fun hno => hno.elim) (fun hno => hno.elim)
  | woken =>
    simp only
    split_ifs with hstop
    · exact h.moved (by rw [hw]; rfl) (fun hno => nomatch hno) (fun _ => hstop) (fun hno => hno.elim)
    · exact h.moved (by rw [hw]; rfl) (fun hno => nomatch hno) (fun hno => hno.elim) (fun hno => hno.elim)
  | front =>
    simp only
    cases hqueue : s.queue with
    | nil => exact absurd hqueue (h.front hw)
    | cons node queue => exact h.front_step hw hqueue
  | unlock node => exact h.moved (by rw [hw]; rfl) (fun hno => nomatch hno) (fun hno => hno.elim) (fun hno => hno.elim)
  | output node => exact h.output (by rw [hw]; rfl) (fun hno => nomatch hno) (fun hno => hno.elim) (fun hno => hno.elim)
  | lockEnd =>
    exact h.moved (by rw [hw]; rfl) (fun hno => nomatch hno) (fun _ => h.ending (by rw [hw]; trivial))
      (fun hno => hno.elim)
  | swap again => exact h.swap_step hw
  | unlockEnd list again =>
    exact h.moved (by rw [hw]; rfl) (fun hno => nomatch hno) (fun _ => h.ending (by rw [hw]; trivial))
      (fun _ => by rw [hw]; trivial)
  | outputs list again =>
    have hending : s.stopFlag = true := h.ending (by rw [hw]; trivial)
    cases list with
    | nil =>
      cases again with
      | true =>
        exact h.moved (by rw [hw]; rfl) (fun hno => nomatch hno) (fun _ => hending) (fun _ => by rw [hw]; trivial)
      | false =>
        exact h.moved (by rw [hw]; rfl) (fun hno => nomatch hno) (fun _ => hending) (fun _ => by rw [hw]; trivial)
    | cons node list =>
      exact h.output (by rw [hw]; rfl) (fun hno => nomatch hno) (fun _ => hending) (fun _ => by rw [hw]; trivial)
  | unlockAgain =>
    exact h.moved (by rw [hw]; rfl) (fun hno => nomatch hno) (fun _ => h.ending (by rw [hw]; trivial))
      (fun _ => by rw [hw]; trivial)
  | ended => exact h

/-- The places of the other threads are not part of the invariant. -/
theorem Inv.place [DecidableEq T] (h : s.Inv) (t : T) (p : ProducerPlace M) : (s.place t p).Inv :=
  ⟨h.enqueued_eq, h.front, h.ending, h.before, h.swapped⟩

theorem Inv.setMutex (h : s.Inv) (mutex : Bool) : ({ s with mutex } : TaskThread T M).Inv :=
  ⟨h.enqueued_eq, h.front, h.ending, h.before, h.swapped⟩

/-- **A step of `produce`**: a message comes behind all others. -/
theorem Inv.producerStep [DecidableEq T] (h : s.Inv) (t : T) : (s.producerStep t).Inv := by
  unfold TaskThread.producerStep
  cases s.producers t with
  | outside => exact h
  | lock node => exact (h.setMutex true).place t _
  | emplace node =>
    have hnext : ({ s with queue := s.queue ++ [node], enqueued := s.enqueued ++ [node] } : TaskThread T M).Inv := by
      refine ⟨?_, fun _ => List.append_ne_nil_of_right_ne_nil _ (List.cons_ne_nil _ _), h.ending, ?_, h.swapped⟩
      · show s.enqueued ++ [node] = s.outputs ++ inHand s.worker ++ (s.queue ++ [node])
        rw [h.enqueued_eq, List.append_assoc _ s.queue]
      · intro hstop
        exact (h.before hstop).trans (List.prefix_append _ _)
    exact hnext.place t _
  | unlock => exact (h.setMutex false).place t _

theorem Inv.stop (h : s.Inv) (hstop : s.stopFlag = false) :
    ({ s with stopFlag := true, beforeStop := s.enqueued } : TaskThread T M).Inv := by
  have hnot : ¬ Ending s.worker := fun hending => by
    rw [h.ending hending] at hstop
    cases hstop
  exact ⟨h.enqueued_eq, h.front, fun _ => rfl, fun _ => List.prefix_rfl, fun hswapped => absurd hswapped.ending hnot⟩

variable [DecidableEq T]

/-- **Every reachable state** has the invariant. -/
theorem inv_of_reachable (h : (system T M).Reachable s) : s.Inv := by
  refine h.inv inv_new fun s e hs he => ?_
  cases e with
  | worker => exact hs.workerStep
  | produce t node => exact hs.place t _
  | producer t => exact hs.producerStep t
  | stop => exact hs.stop he

/-- **The output of the messages**, in every interleaving: what has been output is the beginning of what has been
enqueued; and when the worker has ended, the stop flag is set, and what had been enqueued before that is the beginning
of what has been output. -/
theorem taskThread_output (h : (system T M).Reachable s) :
    s.outputs <+: s.enqueued ∧
      (s.worker = .ended → s.stopFlag = true ∧ s.beforeStop <+: s.outputs) := by
  have hinv := inv_of_reachable h
  refine ⟨?_, fun hended => ⟨hinv.ending (by rw [hended]; trivial), ?_⟩⟩
  · rw [hinv.enqueued_eq, List.append_assoc]
    exact List.prefix_append _ _
  · have hswapped := hinv.swapped (by rw [hended]; trivial)
    rwa [hended, show inHand (.ended : WorkerPlace M) = [] from rfl, List.append_nil] at hswapped

/-- One thread enqueues a message, and the worker comes to its loop only after the stop flag has been set. -/
def lateWorker : List (Event Unit ℕ) :=
  [.produce () 7, .producer (), .producer (), .producer (), .stop, .worker, .worker, .worker, .worker, .worker, .worker]

theorem taskThread_output_lateWorker :
    ∃ s : TaskThread Unit ℕ, s.worker = .ended ∧ s.beforeStop = [7] ∧ s.beforeStop <+: s.outputs := by
  obtain ⟨s, hs⟩ : ∃ s, (system Unit ℕ).replay new lateWorker = some s := Option.isSome_iff_exists.mp (by decide)
  have hended : ((system Unit ℕ).replay new lateWorker).map (·.worker) = some .ended := by decide
  have hbefore : ((system Unit ℕ).replay new lateWorker).map (·.beforeStop) = some [7] := by decide
  rw [hs] at hended hbefore
  have hworker : s.worker = .ended := Option.some.inj hended
  exact ⟨s, hworker, Option.some.inj hbefore, ((taskThread_output (System.reachable_of_replay hs)).2 hworker).2⟩

end TaskThread

end Gts3
