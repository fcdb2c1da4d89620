import Gts3.Http.Response
import Gts3.Http.Session

/-!
# `session::set_lifecycle` and `request::session`

`set_lifecycle` adds the duration it is given to the time of creation, whatever the lifecycle is, and waits for the
difference with its sign turned around: a session that has time left does not wait for it (`deadlineKept_iff`).
`request::session(true)` gives back what is in the hash, also a session that is not valid any more
(`usable_session_iff`).
-/

namespace Gts3.Http

open Lib Lib.Cxx Lib.Transition

namespace Sessions

/-! ## The deadline of a session -/

/-- The seconds of a wait, as `std::chrono::seconds` holds them: the highest bit is the sign. -/
def signedSeconds (n : ℕ) : ℤ := if n < 2 ^ 63 then n else (n : ℤ) - 2 ^ 64

/-- The lifecycle that a duration stands for: itself, or the global one when it is not positive. -/
def effectiveLifecycle (globalLifecycle : ℕ) (seconds : ℤ) : ℕ := if seconds > 0 then seconds.toNat else globalLifecycle

/-- **The deadline is kept**: before it the session stays as valid as it was and its timer waits for what is left; from
it on the session is invalid. -/
def DeadlineKept (w : Sessions) (x : ℕ) (impl : SessionImpl) (seconds : ℤ) (now : ℕ) : Prop :=
  let deadline := impl.createTime + effectiveLifecycle w.globalLifecycle seconds
  ∃ impl', (w.setLifecycle x seconds now).impls[x]? = some impl' ∧
    if now < deadline then
      impl'.isValid = impl.isValid ∧ impl'.pending.map signedSeconds = some ((deadline : ℤ) - now)
    else impl'.isValid = false

/-- The deadline is over, and the session was invalid before or the time of creation and the duration do not add up to a
negative number; or they do, and the number that wraps around happens to be what is left. -/
def DeadlineOver (impl : SessionImpl) (globalLifecycle : ℕ) (seconds : ℤ) (now : ℕ) : Prop :=
  (impl.createTime + effectiveLifecycle globalLifecycle seconds ≤ now ∧
      (0 ≤ impl.createTime + seconds ∨ impl.isValid = false)) ∨
    (impl.createTime + seconds < 0 ∧ 2 * (now : ℤ) = 2 * impl.createTime + globalLifecycle + seconds)

/-- What `set_lifecycle` does to the session: it is restarted in front of `cat`, and is over from there on. -/
theorem setLifecycle_impl {w : Sessions} {x : ℕ} {impl : SessionImpl} (himpl : w.impls[x]? = some impl) (seconds : ℤ)
    (now : ℕ) {cat : ℕ} (hcat : ((impl.createTime + seconds) % 2 ^ 64).toNat = cat) :
    ∃ impl', (w.setLifecycle x seconds now).impls[x]? = some impl' ∧
      (now < cat → impl'.isValid = impl.isValid ∧ (cat < 2 ^ 64 → impl'.pending = some (2 ^ 64 + now - cat))) ∧
      (cat ≤ now → impl'.isValid = false ∧ impl'.pending = none) := by
  have hmod := impls_modify w x (·.setLifecycle w.globalLifecycle seconds) x
  rw [if_pos rfl, himpl, Option.map_some] at hmod
  simp only [setLifecycle, himpl, hcat]
  split_ifs with hlt
  · have hrestart := impls_restart (w.modify x (·.setLifecycle w.globalLifecycle seconds)) x
      (((now : ℤ) - cat) % 2 ^ 64).toNat x
    rw [if_pos rfl, hmod, Option.map_some] at hrestart
    refine ⟨_, hrestart, fun _ => ⟨rfl, fun hbound => ?_⟩, fun hle => absurd hlt (not_lt.mpr hle)⟩
    have hseconds : (((now : ℤ) - cat) % 2 ^ 64).toNat = 2 ^ 64 + now - cat := by omega
    dsimp only
    rw [hseconds, if_neg (by omega)]
  · have hinvalidate := impls_invalidate (w.modify x (·.setLifecycle w.globalLifecycle seconds)) x x
    rw [if_pos rfl, hmod, Option.map_some] at hinvalidate
    exact ⟨_, hinvalidate, fun hlt' => absurd hlt' hlt, fun _ => ⟨rfl, rfl⟩⟩

theorem signedSeconds_cases {n : ℕ} (hn : n < 2 ^ 64) :
    (n < 2 ^ 63 ∧ signedSeconds n = n) ∨ (2 ^ 63 ≤ n ∧ signedSeconds n = (n : ℤ) - 2 ^ 64 ∧ signedSeconds n < 0) := by
  unfold signedSeconds
  split_ifs with h
  · exact Or.inl ⟨h, rfl⟩
  · exact Or.inr ⟨not_lt.mp h, rfl, by omega⟩

theorem effectiveLifecycle_cases (globalLifecycle : ℕ) (seconds : ℤ) :
    (0 < seconds ∧ (effectiveLifecycle globalLifecycle seconds : ℤ) = seconds) ∨
      (seconds ≤ 0 ∧ effectiveLifecycle globalLifecycle seconds = globalLifecycle) := by
  unfold effectiveLifecycle
  split_ifs with hpos
  · exact Or.inl ⟨hpos, Int.toNat_of_nonneg hpos.le⟩
  · exact Or.inr ⟨not_lt.mp hpos, rfl⟩

/-- The sum in 64 bits wraps around when it is negative. -/
theorem cat_cases {createTime : ℕ} {seconds : ℤ} (hcreate : createTime < 2 ^ 63)
    (hseconds : -2 ^ 63 ≤ seconds ∧ seconds < 2 ^ 63) {cat : ℕ}
    (hcat : ((createTime + seconds) % 2 ^ 64).toNat = cat) :
    cat < 2 ^ 64 ∧ ((0 ≤ createTime + seconds ∧ (cat : ℤ) = createTime + seconds) ∨
      (createTime + seconds < 0 ∧ (cat : ℤ) = 2 ^ 64 + createTime + seconds)) := by
  obtain ⟨hlow, hhigh⟩ := hseconds
  rcases lt_or_ge (createTime + seconds) 0 with hneg | hpos
  · exact ⟨by omega, Or.inr ⟨hneg, by omega⟩⟩
  · exact ⟨by omega, Or.inl ⟨hpos, by omega⟩⟩

/-- **The deadline** of a session is kept by `set_lifecycle` when it is over already, and otherwise only where numbers
wrap around.  The clock and the durations are in 64 bits with a sign. -/
theorem deadlineKept_iff {w : Sessions} {x : ℕ} {impl : SessionImpl} (himpl : w.impls[x]? = some impl) {seconds : ℤ}
    {now : ℕ} (hcreate : impl.createTime < 2 ^ 63) (hnow : now < 2 ^ 63) (hglobal : w.globalLifecycle < 2 ^ 63)
    (hseconds : -2 ^ 63 ≤ seconds ∧ seconds < 2 ^ 63) :
    DeadlineKept w x impl seconds now ↔ DeadlineOver impl w.globalLifecycle seconds now := by
  obtain ⟨cat, hcat⟩ : ∃ cat, ((impl.createTime + seconds) % 2 ^ 64).toNat = cat := ⟨_, rfl⟩
  obtain ⟨impl', himpl', hbefore, hafter⟩ := setLifecycle_impl himpl seconds now hcat
  obtain ⟨hbound, hsum⟩ := cat_cases hcreate hseconds hcat
  have hkept : DeadlineKept w x impl seconds now ↔
      if now < impl.createTime + effectiveLifecycle w.globalLifecycle seconds then
        impl'.isValid = impl.isValid ∧ impl'.pending.map signedSeconds =
          some ((impl.createTime + effectiveLifecycle w.globalLifecycle seconds : ℕ) - (now : ℤ))
      else impl'.isValid = false := by
    unfold DeadlineKept
    simp only [himpl', Option.some.injEq, exists_eq_left']
  have hlifecycle := effectiveLifecycle_cases w.globalLifecycle seconds
  rw [hkept, DeadlineOver]
  generalize effectiveLifecycle w.globalLifecycle seconds = lifecycle at hlifecycle ⊢
  clear hcat
  by_cases hlt : now < cat
  · -- the timer is restarted with a wait that has the wrong sign, or has wrapped around
    obtain ⟨hstays, hpending⟩ := hbefore hlt
    rw [hpending hbound, hstays, Option.map_some, Option.some.injEq]
    have hsigned := signedSeconds_cases (n := 2 ^ 64 + now - cat) (by omega)
    have hwait : ((2 ^ 64 + now - cat : ℕ) : ℤ) = 2 ^ 64 + now - cat := by omega
    generalize signedSeconds (2 ^ 64 + now - cat) = signed at hsigned ⊢
    rw [hwait] at hsigned
    simp only [true_and]
    rcases hsum with ⟨hpos, hcat⟩ | ⟨hneg, hcat⟩
    · have hleft : now < impl.createTime + lifecycle := by omega
      rw [if_pos hleft]
      omega
    · obtain rfl : lifecycle = w.globalLifecycle := by omega
      have hnot : ¬ 0 ≤ impl.createTime + seconds := not_le.mpr hneg
      split_ifs with hdeadline
      · push_cast
        omega
      · have hdiffer : 2 * (now : ℤ) ≠ 2 * impl.createTime + w.globalLifecycle + seconds := by omega
        simp [hdiffer, hnot, not_lt.mp hdeadline]
  · -- the session is invalidated, and there is no wait
    obtain ⟨hinvalid, hnone⟩ := hafter (not_lt.mp hlt)
    have hpos : 0 ≤ impl.createTime + seconds := by omega
    rw [hinvalid, hnone, Option.map_none]
    simp [hpos, not_lt.mpr hpos]

/-- A session whose deadline is over. -/
theorem deadlineKept_over :
    DeadlineKept (new.create (lit "a") 1000 0) 0 ⟨lit "a", 1000, 1800, true, some 1800⟩ 10 2000 ↔
      DeadlineOver ⟨lit "a", 1000, 1800, true, some 1800⟩ 1800 10 2000 :=
  deadlineKept_iff (by decide) (by decide) (by decide) (by decide) (by decide)

/-- A session with 1700 seconds left waits for -1700 seconds. -/
theorem not_deadlineKept_left :
    (new.create (lit "a") 1000 0).impls[0]? = some ⟨lit "a", 1000, 1800, true, some 1800⟩ ∧
      ¬ DeadlineKept (new.create (lit "a") 1000 0) 0 ⟨lit "a", 1000, 1800, true, some 1800⟩ 1800 1100 := by
  refine ⟨by decide, ?_⟩
  rintro ⟨impl', himpl', hkept⟩
  have hwait : ((new.create (lit "a") 1000 0).setLifecycle 0 1800 1100).impls[0]? =
      some ⟨lit "a", 1000, 1800, true, some (2 ^ 64 - 1700)⟩ := by decide +kernel
  obtain rfl := Option.some.inj (hwait.symm.trans himpl')
  have hleft : 1100 < 1000 + effectiveLifecycle (new.create (lit "a") 1000 0).globalLifecycle 1800 := by decide
  obtain ⟨-, hpending⟩ := (if_pos hleft).mp hkept
  have hnegative : signedSeconds (2 ^ 64 - 1700) = -1700 := by simp [signedSeconds]
  rw [Option.map_some, hnegative] at hpending
  exact absurd hpending (by decide)

/-! ## What a new session changes -/

/-- The session that is in the hash under an id once a session with that id has been created. -/
theorem get_create (w : Sessions) (id : Bytes) (createTime : ℕ) (seconds : ℤ) :
    (w.create id createTime seconds).get id = some ((w.get id).getD w.impls.length) := by
  rw [get, Sessions.create, hash_restart, UMap.find?_emplace, if_pos rfl, get]

theorem impls_create_self (w : Sessions) (id : Bytes) (createTime : ℕ) (seconds : ℤ) :
    ∃ impl, (w.create id createTime seconds).impls[w.impls.length]? = some impl ∧ impl.id = id ∧
      impl.isValid = true := by
  rw [Sessions.create, impls_restart, if_pos rfl, List.getElem?_append_right le_rfl, Nat.sub_self]
  exact ⟨_, rfl, rfl, rfl⟩

theorem impls_create_ne (w : Sessions) (id : Bytes) (createTime : ℕ) (seconds : ℤ) {x : ℕ} (hx : x < w.impls.length) :
    (w.create id createTime seconds).impls[x]? = w.impls[x]? := by
  rw [Sessions.create, impls_restart, if_neg hx.ne', List.getElem?_append_left hx]

/-- A session that is expanded stays as valid as it was. -/
theorem impls_expand {w : Sessions} {x : ℕ} {impl : SessionImpl} (himpl : w.impls[x]? = some impl) (seconds : ℤ) :
    ∃ impl', (w.expand x seconds).impls[x]? = some impl' ∧ impl'.isValid = impl.isValid := by
  rw [expand, impls_restart, if_pos rfl, impls_modify, if_pos rfl, himpl]
  refine ⟨_, rfl, ?_⟩
  dsimp only
  split_ifs <;> rfl

theorem get_expand (w : Sessions) (x : ℕ) (seconds : ℤ) (id : Bytes) : (w.expand x seconds).get id = w.get id := by
  rw [get, expand, hash_restart, hash_modify, get]

end Sessions

/-! ## `request::session` -/

/-- What `request::session` works on: all sessions, the cookies of the request, and those of the response when the
request has one. -/
structure SessionCall where
  sessions : Sessions
  cookies : BasicCookies
  responseCookies : Option Cookies

namespace SessionCall

/-- `request::set_cookie_session_id`. -/
def setCookieSessionId (c : SessionCall) (id : Bytes) : SessionCall :=
  { c with
    cookies := c.cookies.assign (lit "session_id") id
    responseCookies := c.responseCookies.map fun cookies => cookies.assign (lit "session_id") ⟨id, OrdMap.empty⟩ }

/-- `http::make_session` and `set_cookie_session_id`; the new id and the time are given. -/
def makeSession (c : SessionCall) (id : Bytes) (now : ℕ) : Run (SessionCall × Option ℕ) :=
  let w := c.sessions.create id now 0
  match w.get id with
  | none => .error .nullPointer
  | some x =>
    match w.impls[x]? with
    | none => .error .nullPointer
    | some ptr => .ok ({ c with sessions := w }.setCookieSessionId ptr.id, some x)

/-- `request::session(create)`. -/
def session (c : SessionCall) (create : Bool) (id : Bytes) (now : ℕ) : Run (SessionCall × Option ℕ) :=
  match c.cookies.find? (lit "session_id") with
  | none => if create = false then .ok (c, none) else c.makeSession id now
  | some key =>
    match c.sessions.get key with
    | some x =>
      match c.sessions.impls[x]? with
      | none => .error .nullPointer
      | some ptr => .ok (if ptr.isValid then { c with sessions := c.sessions.expand x 0 } else c, some x)
    | none => if create then c.makeSession id now else .ok (c, none)

/-- **A session that can be used** is the result: it is valid, and found under the id in the cookie of the request. -/
def Usable (result : Run (SessionCall × Option ℕ)) : Prop :=
  ∃ c x impl, result = .ok (c, some x) ∧ c.sessions.impls[x]? = some impl ∧ impl.isValid = true ∧
    ∃ key, c.cookies.find? (lit "session_id") = some key ∧ c.sessions.get key = some x

/-- The session that is there under the id in the cookie, or else under the new id. -/
def found (c : SessionCall) (id : Bytes) : Option ℕ :=
  ((c.cookies.find? (lit "session_id")).bind c.sessions.get).or (c.sessions.get id)

theorem find?_setCookieSessionId (c : SessionCall) (id : Bytes) :
    (c.setCookieSessionId id).cookies.find? (lit "session_id") = some id := by
  rw [setCookieSessionId, UMap.find?_assign, if_pos rfl]

/-- A session that is found under the cookie can be used when it is valid. -/
theorem usable_ok_iff {c : SessionCall} {x : ℕ} {impl : SessionImpl} {key : Bytes}
    (himpl : c.sessions.impls[x]? = some impl) (hkey : c.cookies.find? (lit "session_id") = some key)
    (hget : c.sessions.get key = some x) : Usable (.ok (c, some x)) ↔ impl.isValid = true := by
  constructor
  · rintro ⟨c', x', impl', hresult, himpl', hvalid, -⟩
    obtain ⟨rfl, hx⟩ := Prod.mk.inj (Except.ok.inj hresult)
    obtain rfl := Option.some.inj hx
    obtain rfl := Option.some.inj (himpl.symm.trans himpl')
    exact hvalid
  · intro hvalid
    exact ⟨c, x, impl, rfl, himpl, hvalid, key, hkey, hget⟩

/-- **A new session** can be used unless an invalid one is there under the new id. -/
theorem usable_makeSession {c : SessionCall} (h : c.sessions.Inv) (id : Bytes) (now : ℕ) :
    Usable (c.makeSession id now) ↔ ∀ x, c.sessions.get id = some x → ¬ c.sessions.Invalid x := by
  have hget := Sessions.get_create c.sessions id now 0
  have hresult : ∀ {x impl}, (c.sessions.create id now 0).get id = some x →
      (c.sessions.create id now 0).impls[x]? = some impl → impl.id = id →
      (Usable (c.makeSession id now) ↔ impl.isValid = true) := by
    intro x impl hget himpl hid
    simp only [makeSession, hget, himpl, hid]
    exact usable_ok_iff himpl (find?_setCookieSessionId _ _) hget
  cases hold : c.sessions.get id with
  | none =>
    obtain ⟨impl, himpl, hid, hvalid⟩ := Sessions.impls_create_self c.sessions id now 0
    rw [hold, Option.getD_none] at hget
    rw [hresult hget himpl hid]
    simp [hvalid]
  | some x =>
    obtain ⟨impl, himpl, hid, -⟩ := h.hash id x hold
    have hkeep := Sessions.impls_create_ne c.sessions id now 0 (List.getElem?_eq_some_iff.mp himpl).1
    rw [hold, Option.getD_some] at hget
    rw [hresult hget (hkeep.trans himpl) hid]
    simp [Sessions.Invalid, himpl]

/-- **`session(true)`** gives a session that can be used exactly when the one that is there has not been invalidated. -/
theorem usable_session_iff {c : SessionCall} (h : Sessions.system.Reachable c.sessions) (id : Bytes) (now : ℕ) :
    Usable (c.session true id now) ↔ ∀ x, c.found id = some x → ¬ c.sessions.Invalid x := by
  have hinv := Sessions.reachable_inv h
  have hnew := usable_makeSession hinv id now
  unfold session found
  cases hkey : c.cookies.find? (lit "session_id") with
  | none => simpa using hnew
  | some key =>
    cases hold : c.sessions.get key with
    | none => simpa [hold] using hnew
    | some x =>
      obtain ⟨impl, himpl, -⟩ := hinv.hash key x hold
      have hfound : (∀ y, ((some key).bind c.sessions.get).or (c.sessions.get id) = some y → ¬ c.sessions.Invalid y) ↔
          impl.isValid = true := by
        simp [hold, Sessions.Invalid, himpl]
      rw [hfound]
      simp only [hold, himpl]
      split_ifs with hvalid
      · obtain ⟨impl', himpl', hvalid'⟩ := Sessions.impls_expand himpl 0
        have hget := (Sessions.get_expand c.sessions x 0 key).trans hold
        rw [← hvalid']
        exact usable_ok_iff (c := { c with sessions := c.sessions.expand x 0 }) himpl' hkey hget
      · exact usable_ok_iff himpl hkey hold

/-- A session that is still valid is given back. -/
theorem usable_session_again :
    Usable (session ⟨Sessions.new.create (lit "a") 1000 0, UMap.empty.assign (lit "session_id") (lit "a"), none⟩ true
        (lit "b") 1100) ↔
      ∀ x, found ⟨Sessions.new.create (lit "a") 1000 0, UMap.empty.assign (lit "session_id") (lit "a"), none⟩
        (lit "b") = some x → ¬ (Sessions.new.create (lit "a") 1000 0).Invalid x := by
  have hreachable : Sessions.system.Reachable (Sessions.new.create (lit "a") 1000 0) :=
    System.Reachable.init.next (S := Sessions.system) (e := .create (lit "a") 1000 0) (by decide)
  exact usable_session_iff hreachable (lit "b") 1100

/-- A session that has just been invalidated is given back as well. -/
theorem not_usable_session_invalidated :
    Sessions.system.Reachable ((Sessions.new.create (lit "a") 1000 0).invalidate 0) ∧
      ¬ Usable (session ⟨(Sessions.new.create (lit "a") 1000 0).invalidate 0,
        UMap.empty.assign (lit "session_id") (lit "a"), none⟩ true (lit "b") 1100) := by
  have hcreated : Sessions.system.Reachable (Sessions.new.create (lit "a") 1000 0) :=
    System.Reachable.init.next (S := Sessions.system) (e := .create (lit "a") 1000 0) (by decide)
  refine ⟨hcreated.next (e := .invalidate 0) (by decide), ?_⟩
  rintro ⟨c, x, impl, hresult, himpl, hvalid, -⟩
  obtain ⟨rfl, hx⟩ := Prod.mk.inj (Except.ok.inj hresult)
  obtain rfl := Option.some.inj hx
  obtain rfl := Option.some.inj himpl
  cases hvalid

end SessionCall

end Gts3.Http
