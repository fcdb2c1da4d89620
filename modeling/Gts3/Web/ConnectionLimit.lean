import Gts3.Web.TimedConnections

/-!
# `gts/web/service/connection.cpp`: the limit of connections

`new_connection` keeps to `g_max_count` by closing an idle connection for every connection that it makes over the limit.
What it limits is the number of open sockets: a closed connection counts in `g_counter` until its deletion runs.  The
limit rests on `g_timeout_set`: as long as its members wait with open sockets, no more sockets than `g_max_count` are
open; once handlers of idle waits run late, any number can be (`openLimit_run`).
-/

namespace Gts3.Web

open Lib.Transition

/-- One element of a list changes. -/
theorem countP_modify {α : Type*} (p : α → Bool) (f : α → α) {l : List α} {i : ℕ} {c : α} (h : l[i]? = some c) :
    (l.modify i f).countP p + (p c).toNat = l.countP p + (p (f c)).toNat := by
  induction l generalizing i with
  | nil => cases h
  | cons a l ih =>
    cases i with
    | zero =>
      obtain rfl : a = c := Option.some.inj h
      rw [List.modify_zero_cons, List.countP_cons, List.countP_cons]
      cases p a <;> cases p (f a) <;> simp
    | succ i =>
      have hl := ih (i := i) (by simpa using h)
      rw [List.modify_succ_cons, List.countP_cons, List.countP_cons]
      omega

/-- A connection that is there, with an open socket. -/
def TimedConnection.holdsSocket (c : TimedConnection) : Bool := c.isOpen && c.activity ≠ .destroyed

/-- What happens to connections, the tasks included. -/
inductive SocketEvent
  | connection (e : ConnectionEvent)
  /-- The task closes the socket of its connection. -/
  | close (x : ℕ)
  deriving DecidableEq, Repr

namespace TimedConnections

/-- The open sockets of connections. -/
def openCount (s : TimedConnections) : ℕ := s.all.countP TimedConnection.holdsSocket

/-- `m_socket->is_open()`. -/
def socketOpen (s : TimedConnections) (x : ℕ) : Option Bool := (s.all[x]?).map TimedConnection.isOpen

/-- The connections of a server with `g_max_count` whose tasks may close their sockets, in every order of steps. -/
def limited (maxCount : ℕ) : System TimedConnections SocketEvent where
  init := new
  Enabled s
    | .connection e => s.Enabled e
    | .close x => s.activity x = some .processing
  next s
    | .connection e => s.next maxCount e
    | .close x => s.cancel x

/-- The members of the set wait in `async_read_some` with open sockets. -/
def OpenSet (s : TimedConnections) : Prop := ∀ x ∈ s.timeoutSet, s.Waiting x ∧ s.socketOpen x = some true

/-- An idle handler that is not cancelled runs while its connection waits with an open socket. -/
def IdleOpen (s : TimedConnections) : SocketEvent → Prop
  | .connection (.timeOut h) =>
    h.timeOut = .allowPreemptionx → h.wasCancel = false → s.Waiting h.connection ∧ s.socketOpen h.connection = some true
  | _ => True

/-! ## Sockets that the operations open and close -/

section Operations

variable (s : TimedConnections) (x : ℕ)

theorem socketOpen_modify_same {f : TimedConnection → TimedConnection} (hf : ∀ c, (f c).isOpen = c.isOpen) (y : ℕ) :
    (s.modify x f).socketOpen y = s.socketOpen y := by
  rw [socketOpen, modify, List.getElem?_modify, socketOpen]
  split_ifs
  · cases s.all[y]? <;> simp [hf]
  · cases s.all[y]? <;> rfl

@[simp] theorem socketOpen_endWait (b : Bool) (y : ℕ) : (s.endWait x b).socketOpen y = s.socketOpen y := by
  unfold endWait
  split
  · rfl
  · exact socketOpen_modify_same s x (f := ({ · with timer := none })) (fun _ => rfl) y

@[simp] theorem socketOpen_startWait (t : TimeOut) (y : ℕ) : (s.startWait x t).socketOpen y = s.socketOpen y := by
  have h := socketOpen_modify_same (s.endWait x true) x (f := ({ · with timer := some t })) (fun _ => rfl) y
  exact h.trans (socketOpen_endWait s x true y)

@[simp] theorem socketOpen_goOn (a : Activity) (y : ℕ) : (s.goOn x a).socketOpen y = s.socketOpen y :=
  socketOpen_modify_same s x (f := ({ · with activity := a })) (fun _ => rfl) y

@[simp] theorem socketOpen_eraseTimeout (y : ℕ) : (s.eraseTimeout x).socketOpen y = s.socketOpen y := rfl

@[simp] theorem socketOpen_doRecv (y : ℕ) : (s.doRecv x).socketOpen y = s.socketOpen y := by
  unfold doRecv
  split_ifs <;> simp

theorem socketOpen_cancel {y : ℕ} (hy : y ≠ x) : (s.cancel x).socketOpen y = s.socketOpen y := by
  rw [socketOpen, cancel, modify, List.getElem?_modify]
  simp only [if_neg (Ne.symm hy)]
  cases h : s.all[y]? <;> simp [socketOpen, h]

/-- One connection changes. -/
theorem openCount_modify {f : TimedConnection → TimedConnection} {c : TimedConnection} (h : s.all[x]? = some c) :
    (s.modify x f).openCount + c.holdsSocket.toNat = s.openCount + (f c).holdsSocket.toNat :=
  countP_modify TimedConnection.holdsSocket f h

/-- The open sockets do not get more when the connection that changes had one before, if it has one. -/
theorem openCount_modify_le {f : TimedConnection → TimedConnection}
    (hf : ∀ c, s.all[x]? = some c → (f c).holdsSocket = true → c.holdsSocket = true) :
    (s.modify x f).openCount ≤ s.openCount := by
  cases h : s.all[x]? with
  | none => rw [openCount, modify, List.modify_eq_self (List.getElem?_eq_none_iff.mp h), openCount]
  | some c =>
    have hcount := openCount_modify s x (f := f) h
    have hle : (f c).holdsSocket.toNat ≤ c.holdsSocket.toNat := Bool.toNat_le_toNat (hf c h)
    omega

theorem openCount_modify_same {f : TimedConnection → TimedConnection} (hf : ∀ c, (f c).holdsSocket = c.holdsSocket) :
    (s.modify x f).openCount = s.openCount := by
  cases h : s.all[x]? with
  | none => rw [openCount, modify, List.modify_eq_self (List.getElem?_eq_none_iff.mp h), openCount]
  | some c =>
    have hcount := openCount_modify s x (f := f) h
    rw [hf c] at hcount
    omega

@[simp] theorem openCount_endWait (b : Bool) : (s.endWait x b).openCount = s.openCount := by
  unfold endWait
  split
  · rfl
  · exact openCount_modify_same s x (f := ({ · with timer := none })) fun _ => rfl

@[simp] theorem openCount_startWait (t : TimeOut) : (s.startWait x t).openCount = s.openCount := by
  have h := openCount_modify_same (s.endWait x true) x (f := ({ · with timer := some t })) fun _ => rfl
  exact h.trans (openCount_endWait s x true)

@[simp] theorem openCount_eraseTimeout : (s.eraseTimeout x).openCount = s.openCount := rfl

/-- A connection that is there goes on. -/
theorem openCount_goOn {a : Activity} (ha : a ≠ .destroyed) (h : s.activity x ≠ some .destroyed) :
    (s.goOn x a).openCount = s.openCount := by
  cases hget : s.all[x]? with
  | none => rw [openCount, goOn, modify, List.modify_eq_self (List.getElem?_eq_none_iff.mp hget), openCount]
  | some c =>
    have hcount := openCount_modify s x (f := ({ · with activity := a })) hget
    rw [activity, hget, Option.map_some] at h
    have hsame : TimedConnection.holdsSocket { c with activity := a } = c.holdsSocket := by
      simp [TimedConnection.holdsSocket, ha, show c.activity ≠ .destroyed from fun hc => h (congrArg some hc)]
    rw [hsame] at hcount
    exact Nat.add_right_cancel hcount

theorem openCount_doRecv (h : s.activity x ≠ some .destroyed) : (s.doRecv x).openCount = s.openCount := by
  unfold doRecv
  split_ifs
  · rw [openCount_goOn _ x (by decide) (by rwa [activity_startWait]), openCount_startWait]
  · exact openCount_goOn s x (by decide) h

theorem openCount_construct (isOpen : Bool) : (s.construct isOpen).openCount = s.openCount + isOpen.toNat := by
  have hnew : ({ s with all := s.all ++ [⟨.reading, isOpen, none⟩] } : TimedConnections).activity s.all.length =
      some .reading := by
    simp [activity]
  rw [construct, openCount_doRecv _ _ (by rw [hnew]; decide), openCount, List.countP_append, List.countP_singleton]
  cases isOpen <;> rfl

theorem openCount_destruct_le : (s.destruct x).openCount ≤ s.openCount := by
  refine (openCount_modify_le _ x fun c _ h => ?_).trans_eq (openCount_endWait s x true)
  simp [TimedConnection.holdsSocket] at h

theorem openCount_cancel_le : (s.cancel x).openCount ≤ s.openCount :=
  openCount_modify_le s x fun c _ h => by simp [TimedConnection.holdsSocket] at h

/-- **An open socket is closed.** -/
theorem openCount_cancel (hopen : s.socketOpen x = some true) (h : s.activity x ≠ some .destroyed) :
    (s.cancel x).openCount + 1 = s.openCount := by
  obtain ⟨c, hget, hc⟩ := Option.map_eq_some_iff.mp hopen
  have hcount := openCount_modify s x (f := ({ · with isOpen := false })) hget
  have hholds : c.holdsSocket = true := by
    rw [activity, hget, Option.map_some] at h
    simpa [TimedConnection.holdsSocket, hc] using h
  have hclosed : TimedConnection.holdsSocket { c with isOpen := false } = false := rfl
  rw [hholds, hclosed] at hcount
  exact hcount

theorem openCount_le_counter : s.openCount ≤ s.counter :=
  List.countP_mono_left fun _ _ h => (Bool.and_eq_true _ _ ▸ h).2

end Operations

section Steps

variable {s s' : TimedConnections}

theorem socketOpen_construct (isOpen : Bool) {y : ℕ} (hy : y < s.all.length) :
    (s.construct isOpen).socketOpen y = s.socketOpen y := by
  rw [construct, socketOpen_doRecv, socketOpen, List.getElem?_append_left hy, socketOpen]

theorem Waiting.activity_ne {x : ℕ} (h : s.Waiting x) : s.activity x ≠ some .destroyed := by
  rcases h with h | ⟨outcome, h⟩ <;> rw [h] <;> simp

/-! ## The limit -/

/-- **A new connection** takes the place of an open one, or there is room for it. -/
theorem openCount_newConnection_le (hset : s.OpenSet) {maxCount : ℕ} (h : s.openCount ≤ maxCount) (isOpen : Bool)
    (first : ℕ) : (s.newConnection maxCount isOpen first).openCount ≤ maxCount := by
  have hone : isOpen.toNat ≤ 1 := Bool.toNat_le isOpen
  rw [newConnection]
  split_ifs with hroom hfirst
  · have hle := s.openCount_le_counter
    rw [openCount_construct]
    omega
  · obtain ⟨hwait, hopen⟩ := hset first hfirst
    have hclosed := s.openCount_cancel first hopen hwait.activity_ne
    rw [openCount_construct, openCount_eraseTimeout]
    omega
  · exact h

/-- What a connection receives closes sockets and opens none. -/
theorem openCount_onRead_le {x : ℕ} (h : s.activity x ≠ some .destroyed) (outcome : Received) :
    (s.onRead x outcome).openCount ≤ s.openCount := by
  have hsame : ((s.endWait x true).eraseTimeout x).openCount = s.openCount := by simp
  have hthere : ((s.endWait x true).eraseTimeout x).activity x ≠ some .destroyed := by simpa using h
  cases outcome with
  | failed | request => exact (openCount_goOn _ x (by decide) hthere).le.trans_eq hsame
  | partialRequest => exact (openCount_doRecv _ x hthere).le.trans_eq hsame
  | invalidRequest =>
    refine (openCount_goOn _ x (by decide) (by rwa [activity_cancel])).le.trans ?_
    exact (openCount_cancel_le _ x).trans_eq hsame

/-- **One step** keeps to the limit when the set is right. -/
theorem openCount_next_le (hset : s.OpenSet) {maxCount : ℕ} (h : s.openCount ≤ maxCount) {e : SocketEvent}
    (he : (limited maxCount).Enabled s e) : ((limited maxCount).next s e).openCount ≤ maxCount := by
  cases e with
  | close x => exact (s.openCount_cancel_le x).trans h
  | connection e =>
    cases e with
    | accept isOpen first => exact openCount_newConnection_le hset h isOpen first
    | readComplete x outcome =>
      have hx : s.activity x = some .reading := he
      exact (s.openCount_goOn x (by simp) (by rw [hx]; simp)).le.trans h
    | read x =>
      obtain ⟨outcome, -, hx⟩ := he
      simp only [limited, next, hx]
      exact (openCount_onRead_le (by rw [hx]; simp) outcome).trans h
    | taskComplete x cont =>
      have hx : s.activity x = some .processing := he
      exact (s.openCount_goOn x (by simp) (by rw [hx]; simp)).le.trans h
    | task x =>
      obtain ⟨cont, -, hx⟩ := he
      have hthere : s.activity x ≠ some .destroyed := by rw [hx]; simp
      simp only [limited, next, hx, onTask]
      split_ifs
      · exact (s.openCount_doRecv x hthere).le.trans h
      · exact (s.openCount_goOn x (by simp) hthere).le.trans h
    | delete x => exact (s.openCount_destruct_le x).trans h
    | expire x => exact (s.openCount_endWait x false).le.trans h
    | timeOut k =>
      obtain ⟨x, t, b⟩ := k
      cases t with
      | allowPreemptionx =>
        simp only [limited, next, timeOutAllowPreemptionx]
        split_ifs
        · exact h
        · exact (openCount_startWait _ x _).le.trans h
      | destory =>
        simp only [limited, next, timeOutDestory]
        split_ifs
        · exact h
        · exact (openCount_cancel_le _ x).trans h

/-- The members of the set have open sockets. -/
def SetOpen (s : TimedConnections) : Prop := ∀ x ∈ s.timeoutSet, s.socketOpen x = some true

theorem openSet_iff : s.OpenSet ↔ s.Good ∧ s.SetOpen := forall₂_and

/-- Sockets of members are left alone, and there are no new members. -/
theorem SetOpen.frame (h : s.SetOpen) (hset : s'.timeoutSet ⊆ s.timeoutSet)
    (hsocket : ∀ y ∈ s'.timeoutSet, s'.socketOpen y = s.socketOpen y) : s'.SetOpen := by
  intro y hy
  rw [hsocket y hy]
  exact h y (hset hy)

/-- A connection that is not in the set is closed. -/
theorem SetOpen.cancel (h : s.SetOpen) {x : ℕ} (hx : x ∉ s.timeoutSet) : (s.cancel x).SetOpen :=
  h.frame (by simp) fun _ hy => socketOpen_cancel s x fun hyx => hx (hyx ▸ hy)

theorem SetOpen.eraseTimeout (h : s.SetOpen) (x : ℕ) : (s.eraseTimeout x).SetOpen :=
  h.frame (Finset.erase_subset x _) fun _ _ => rfl

theorem SetOpen.goOn (h : s.SetOpen) (x : ℕ) (a : Activity) : (s.goOn x a).SetOpen :=
  h.frame (timeoutSet_goOn s x a).le fun _ _ => socketOpen_goOn s x a _

theorem SetOpen.doRecv (h : s.SetOpen) (x : ℕ) : (s.doRecv x).SetOpen :=
  h.frame (timeoutSet_doRecv s x).le fun _ _ => socketOpen_doRecv s x _

theorem SetOpen.endWait (h : s.SetOpen) (x : ℕ) (b : Bool) : (s.endWait x b).SetOpen :=
  h.frame (timeoutSet_endWait s x b).le fun _ _ => socketOpen_endWait s x b _

theorem SetOpen.construct (h : s.SetOpen) (hgood : s.Good) (isOpen : Bool) : (s.construct isOpen).SetOpen := by
  have hset : (s.construct isOpen).timeoutSet = s.timeoutSet := by rw [TimedConnections.construct, timeoutSet_doRecv]
  exact h.frame hset.le fun y hy => socketOpen_construct isOpen (hgood y (hset ▸ hy)).lt

theorem SetOpen.newConnection (h : s.SetOpen) (hgood : s.Good) (maxCount : ℕ) (isOpen : Bool) (first : ℕ) :
    (s.newConnection maxCount isOpen first).SetOpen := by
  rw [TimedConnections.newConnection]
  split_ifs with hroom hfirst
  · exact h.construct hgood isOpen
  · -- the first member is taken out of the set when its socket is closed
    refine SetOpen.construct (h.frame (Finset.erase_subset first _) fun y hy => ?_) ?_ isOpen
    · exact socketOpen_cancel s first (Finset.ne_of_mem_erase hy)
    · exact hgood.frame first (fun y _ => by simp) (fun y hy _ => Finset.mem_of_mem_erase hy) fun hx => by simp at hx
  · exact h

theorem SetOpen.onRead (h : s.SetOpen) (x : ℕ) (outcome : Received) : (s.onRead x outcome).SetOpen := by
  have hout : ((s.endWait x true).eraseTimeout x).SetOpen := (h.endWait x true).eraseTimeout x
  have hnot : x ∉ ((s.endWait x true).eraseTimeout x).timeoutSet := by simp
  cases outcome with
  | failed | request => exact hout.goOn x _
  | partialRequest => exact hout.doRecv x
  | invalidRequest => exact (hout.cancel hnot).goOn x _

theorem SetOpen.timeOutDestory (h : s.SetOpen) (x : ℕ) (wasCancel : Bool) : (s.timeOutDestory x wasCancel).SetOpen := by
  rw [TimedConnections.timeOutDestory]
  split_ifs
  · exact h
  · exact (h.eraseTimeout x).cancel (Finset.notMem_erase x _)

/-- The idle handler puts its connection into the set. -/
theorem SetOpen.timeOutAllowPreemptionx_iff (h : s.SetOpen) (x : ℕ) (wasCancel : Bool) :
    (s.timeOutAllowPreemptionx x wasCancel).SetOpen ↔ (wasCancel = false → s.socketOpen x = some true) := by
  cases wasCancel with
  | true => exact iff_of_true h fun hb => by cases hb
  | false =>
    have hsocket : ∀ y, (s.timeOutAllowPreemptionx x false).socketOpen y = s.socketOpen y := by
      intro y
      rw [timeOutAllowPreemptionx, if_neg Bool.false_ne_true, socketOpen_startWait]
      rfl
    have hset : (s.timeOutAllowPreemptionx x false).timeoutSet = insert x s.timeoutSet := by
      simp [timeOutAllowPreemptionx]
    constructor
    · intro hopen _
      rw [← hsocket x]
      exact hopen x (by rw [hset]; exact Finset.mem_insert_self x _)
    · intro hx y hy
      rw [hsocket y]
      rw [hset] at hy
      rcases Finset.mem_insert.mp hy with rfl | hy
      · exact hx rfl
      · exact h y hy

/-- **One step** keeps the members of the set waiting with open sockets exactly when an idle handler finds its
connection so. -/
theorem OpenSet.next_iff (h : s.OpenSet) {maxCount : ℕ} {e : SocketEvent} (he : (limited maxCount).Enabled s e) :
    s.IdleOpen e ↔ ((limited maxCount).next s e).OpenSet := by
  obtain ⟨hgood, hopen⟩ := openSet_iff.mp h
  rw [openSet_iff]
  cases e with
  | close x =>
    have hnot : x ∉ s.timeoutSet := hgood.not_mem he (by simp) (by simp)
    have hstays : (s.cancel x).Good :=
      hgood.frame x (fun y _ => by simp) (fun y hy _ => hy) fun hx => absurd hx hnot
    exact iff_of_true trivial ⟨hstays, hopen.cancel hnot⟩
  | connection e =>
    have hgoods : s.IdleWaits e ↔ (s.next maxCount e).Good := hgood.next_iff he
    cases e with
    | accept isOpen first =>
      exact iff_of_true trivial ⟨hgoods.mp trivial, hopen.newConnection hgood maxCount isOpen first⟩
    | readComplete x outcome =>
      exact iff_of_true trivial ⟨hgoods.mp trivial, hopen.goOn x _⟩
    | read x =>
      obtain ⟨outcome, -, hx⟩ := id he
      refine iff_of_true trivial ⟨hgoods.mp trivial, ?_⟩
      simp only [limited, next, hx]
      exact hopen.onRead x outcome
    | taskComplete x cont => exact iff_of_true trivial ⟨hgoods.mp trivial, hopen.goOn x _⟩
    | task x =>
      obtain ⟨cont, -, hx⟩ := id he
      refine iff_of_true trivial ⟨hgoods.mp trivial, ?_⟩
      simp only [limited, next, hx, onTask]
      split_ifs
      · exact hopen.doRecv x
      · exact hopen.goOn x _
    | delete x => exact iff_of_true trivial ⟨hgoods.mp trivial, (hopen.endWait x true).goOn x _⟩
    | expire x => exact iff_of_true trivial ⟨hgoods.mp trivial, hopen.endWait x false⟩
    | timeOut k =>
      obtain ⟨x, t, b⟩ := k
      have hqueue (queue : List TimeOutHandler) : SetOpen { s with queue } := hopen
      cases t with
      | allowPreemptionx =>
        have hsockets := (hqueue (s.queue.erase ⟨x, .allowPreemptionx, b⟩)).timeOutAllowPreemptionx_iff x b
        refine Iff.trans ?_ (and_congr hgoods hsockets.symm)
        exact ⟨fun hx => ⟨fun ht hb => (hx ht hb).1, fun hb => (hx rfl hb).2⟩, fun hx ht hb => ⟨hx.1 ht hb, hx.2 hb⟩⟩
      | destory =>
        have hidle : s.IdleWaits (.timeOut ⟨x, .destory, b⟩) := fun ht => by cases ht
        exact iff_of_true (fun ht => by cases ht) ⟨hgoods.mp hidle, (hqueue _).timeOutDestory x b⟩

end Steps

/-! ## Idle handlers that run late -/

/-- A connection that waits for its first bytes. -/
def fresh : TimedConnection := ⟨.reading, true, some .allowPreemptionx⟩

/-- The handler of an idle wait of the first connection. -/
def late : TimeOutHandler := ⟨0, .allowPreemptionx, false⟩

/-- The first connection, with `j` idle handlers that have not run, and `m` more connections. -/
def crowd (isOpen : Bool) (timer : TimeOut) (m j : ℕ) (queue : List TimeOutHandler) : TimedConnections :=
  ⟨⟨.reading, isOpen, some timer⟩ :: List.replicate m fresh, ∅, List.replicate j late ++ queue⟩

theorem counter_crowd (isOpen : Bool) (timer : TimeOut) (m j : ℕ) (queue : List TimeOutHandler) :
    (crowd isOpen timer m j queue).counter = m + 1 := by
  rw [counter, crowd, List.countP_cons, List.countP_replicate]
  rfl

theorem openCount_crowd (isOpen : Bool) (timer : TimeOut) (m j : ℕ) (queue : List TimeOutHandler) :
    (crowd isOpen timer m j queue).openCount = m + isOpen.toNat := by
  rw [openCount, crowd, List.countP_cons, List.countP_replicate]
  cases isOpen <;> rfl

variable {maxCount : ℕ}

theorem construct_eq (s : TimedConnections) : s.construct true = { s with all := s.all ++ [fresh] } := by
  simp [construct, doRecv, startWait, endWait, goOn, modify, List.modify_eq_take_drop, fresh]

/-- There is room for connections up to the limit. -/
theorem crowd_fill {m : ℕ} (h : m < maxCount) : (limited maxCount).Reachable (crowd true .allowPreemptionx m 0 []) := by
  induction m with
  | zero =>
    have hstep := System.Reachable.next (S := limited maxCount) .init (e := .connection (.accept true 0)) (Or.inl rfl)
    have heq : (limited maxCount).next new (.connection (.accept true 0)) = crowd true .allowPreemptionx 0 0 [] := by
      simp only [limited, next, newConnection, if_pos (show new.counter < maxCount from h), construct_eq]
      rfl
    exact heq ▸ hstep
  | succ m ih =>
    have hroom : (crowd true .allowPreemptionx m 0 []).counter < maxCount := by rwa [counter_crowd]
    have hstep := (ih (Nat.lt_of_succ_lt h)).next (e := .connection (.accept true 0)) (Or.inl rfl)
    have heq : (limited maxCount).next (crowd true .allowPreemptionx m 0 []) (.connection (.accept true 0)) =
        crowd true .allowPreemptionx (m + 1) 0 [] := by
      simp only [limited, next, newConnection, if_pos hroom, construct_eq]
      simp [crowd, List.replicate_succ']
    exact heq ▸ hstep

/-- A part of a request arrives behind the end of the idle wait, whose handler stays queued. -/
theorem crowd_late {m j : ℕ} (h : (limited maxCount).Reachable (crowd true .allowPreemptionx m j [])) :
    (limited maxCount).Reachable (crowd true .allowPreemptionx m (j + 1) []) := by
  have hexpired := h.next (e := .connection (.expire 0)) rfl
  have hread := hexpired.next (e := .connection (.readComplete 0 .partialRequest)) rfl
  have hagain := hread.next (e := .connection (.read 0)) ⟨.partialRequest, by simp, rfl⟩
  have hqueue : crowd true .allowPreemptionx m (j + 1) [] =
      ⟨⟨.reading, true, some .allowPreemptionx⟩ :: List.replicate m fresh, ∅,
        List.replicate j late ++ [] ++ [late]⟩ := by
    rw [crowd, List.replicate_succ', List.append_nil, List.append_nil]
  rw [hqueue]
  exact hagain

/-- The first connection in the set, with its socket open or not. -/
theorem accept_first {isOpen : Bool} {m : ℕ} {queue : List TimeOutHandler} (hfull : maxCount ≤ m + 1) :
    (limited maxCount).next ⟨⟨.reading, isOpen, some .destory⟩ :: List.replicate m fresh, {0}, queue⟩
      (.connection (.accept true 0)) =
        ⟨⟨.reading, false, some .destory⟩ :: List.replicate (m + 1) fresh, ∅, queue⟩ := by
  change newConnection _ maxCount true 0 = _
  have hcount : counter ⟨⟨.reading, isOpen, some .destory⟩ :: List.replicate m fresh, {0}, queue⟩ = m + 1 :=
    counter_crowd isOpen .destory m 0 []
  rw [newConnection, hcount, if_neg (Nat.not_lt.mpr hfull), if_pos (Finset.mem_singleton_self 0), construct_eq]
  simp [cancel, modify, eraseTimeout, List.replicate_succ']

/-- **A late handler** puts the first connection into the set, and the next connection takes its place, open or not. -/
theorem crowd_preempt {isOpen : Bool} {timer : TimeOut} {m j : ℕ} {queue : List TimeOutHandler}
    (hfull : maxCount ≤ m + 1) (h : (limited maxCount).Reachable (crowd isOpen timer m (j + 1) queue)) :
    (limited maxCount).Reachable (crowd false .destory (m + 1) j (queue ++ [⟨0, timer, true⟩])) := by
  have hidle := h.next (e := .connection (.timeOut late)) (List.mem_append_left _ (by simp))
  have hset : (limited maxCount).next (crowd isOpen timer m (j + 1) queue) (.connection (.timeOut late)) =
      ⟨⟨.reading, isOpen, some .destory⟩ :: List.replicate m fresh, {0},
        List.replicate j late ++ (queue ++ [⟨0, timer, true⟩])⟩ := by
    simp [limited, next, crowd, late, timeOutAllowPreemptionx, startWait, endWait, modify, List.replicate_succ]
  rw [hset] at hidle
  have hnew := hidle.next (e := .connection (.accept true 0)) (Or.inr (Finset.mem_singleton_self 0))
  rw [accept_first hfull] at hnew
  exact hnew

/-- `n` more sockets than the limit are open. -/
theorem exists_overcrowded (h : 0 < maxCount) (n : ℕ) :
    ∃ s, (limited maxCount).Reachable s ∧ s.openCount = maxCount + n := by
  have hlate : ∀ j, (limited maxCount).Reachable (crowd true .allowPreemptionx (maxCount - 1) j []) := by
    intro j
    induction j with
    | zero => exact crowd_fill (Nat.sub_lt h Nat.one_pos)
    | succ j ih => exact crowd_late ih
  have hover : ∀ i j, ∃ queue, (limited maxCount).Reachable (crowd false .destory (maxCount + i) j queue) := by
    intro i
    induction i with
    | zero =>
      intro j
      have hfirst := crowd_preempt (by omega) (hlate (j + 1))
      rw [Nat.sub_add_cancel h] at hfirst
      exact ⟨_, hfirst⟩
    | succ i ih =>
      intro j
      obtain ⟨queue, hqueue⟩ := ih (j + 1)
      have hfull : maxCount ≤ maxCount + i + 1 := by omega
      exact ⟨_, crowd_preempt hfull hqueue⟩
  obtain ⟨queue, hqueue⟩ := hover n 0
  exact ⟨_, hqueue, openCount_crowd false .destory (maxCount + n) 0 queue⟩

/-- **The limit over a run**: as long as idle handlers find their connections waiting with open sockets, the set holds
such connections only and no more sockets than the limit are open.  These are the only runs in which the set stays so,
and over all runs there is no limit. -/
theorem openLimit_run (maxCount : ℕ) :
    (∀ s, ((limited maxCount).restrict IdleOpen).Reachable s → s.OpenSet ∧ s.openCount ≤ maxCount) ∧
    (∀ es s, ((limited maxCount).restrict IdleOpen).Run new es s ↔ ((limited maxCount).keeping OpenSet).Run new es s) ∧
    (0 < maxCount → ∀ n, ∃ s, (limited maxCount).Reachable s ∧ s.openCount = maxCount + n) := by
  have hinit : OpenSet new := fun _ hx => absurd hx (Finset.notMem_empty _)
  refine ⟨fun s hs => ?_, ?_, exists_overcrowded⟩
  · refine System.Reachable.inv (P := fun s => s.OpenSet ∧ s.openCount ≤ maxCount) ⟨hinit, Nat.zero_le _⟩ ?_ hs
    intro s e h he
    exact ⟨(h.1.next_iff he.1).mp he.2, openCount_next_le h.1 h.2 he.1⟩
  · exact System.restrict_run_iff (I := OpenSet) (fun _ _ h he => h.next_iff he)
      (fun _ _ h he hok => (h.next_iff he).mp hok) hinit

end TimedConnections

end Gts3.Web
