import Gts3.Web.Registration
import Gts3.Web.Dispatch
import Gts3.Http.ParserSafety

/-!
# Which handler a request reaches

The keys of registered paths and of requests are both normal forms (`requestPath_eq`, `checkServices_eq`), and every
accepted registration adds its methods to the services of its path (`registerAll_method`).  So `call` finds the
handler that is registered for the method and the normal form of the request, and invokes it exactly when it takes
the parameters that the headers of the request ask for (`routes_iff`).
-/

namespace Gts3.Web

open Lib Lib.Cxx Lib.SlashPath Gts3.Http

/-! ## Methods and their places -/

theorem log2_known : ∀ m ∈ knownMethods, ∃ i, log2 m = some i ∧ i < 8 := by decide

theorem log2_inj : ∀ m ∈ knownMethods, ∀ m' ∈ knownMethods, log2 m = log2 m' → m = m' := by decide

theorem mem_knownMethods {m : Method} (h : m ≠ .unknown) : m ∈ knownMethods := by
  cases m <;> simp_all [knownMethods]

theorem methodString_noDot : ∀ m, 46 ∉ methodString m := by
  intro m
  cases m <;> decide

theorem methodString_inj : ∀ m ∈ knownMethods, ∀ m' ∈ knownMethods, methodString m = methodString m' → m = m' := by
  decide

/-- **Names of methods** tell the path and the method. -/
theorem requestName_inj {p p' : Bytes} {m m' : Method} (hm : m ∈ knownMethods) (hm' : m' ∈ knownMethods)
    (h : requestName p ++ methodString m = requestName p' ++ methodString m') : p = p' ∧ m = m' := by
  have hrev : (methodString m).reverse ++ [46] ++ (lit "gts.web.plugin.new_request." ++ p).reverse =
      (methodString m').reverse ++ [46] ++ (lit "gts.web.plugin.new_request." ++ p').reverse := by
    simpa [requestName, lit] using congrArg List.reverse h
  have hdot : ∀ m, Search.find [46] (methodString m).reverse = none := fun m =>
    Search.find_singleton_eq_none.mpr (by simpa using methodString_noDot m)
  obtain ⟨hs, hp⟩ := Search.append_pat_inj (Search.borderless_singleton 46) (hdot m) (hdot m') hrev
  exact ⟨List.append_cancel_left (List.reverse_injective hp), methodString_inj m hm m' hm' (List.reverse_injective hs)⟩

/-! ## Services -/

/-- The method of an array for a request method. -/
def ServiceArray.method (array : ServiceArray) (m : Method) : Option RttrMethod :=
  ((log2 m).bind (array[·]?)).bind Service.method

@[simp] theorem ServiceArray.method_new (m : Method) : ServiceArray.new.method m = none := by
  rw [ServiceArray.method, Option.bind_assoc, Option.bind_eq_none_iff]
  intro i _
  simp only [ServiceArray.new, Vector.getElem?_replicate]
  split_ifs <;> rfl

/-- The method of a hash for a path and a request method. -/
def PathHash.method (g : PathHash) (path : Bytes) (m : Method) : Option RttrMethod :=
  (g.find? path).bind (·.method m)

/-- A value of flags has the flag of a method. -/
def HasFlag (httpMethod : ℤ) (m : Method) : Prop := httpMethod.toNat &&& (methodValue m).toNat ≠ 0

instance (httpMethod : ℤ) (m : Method) : Decidable (HasFlag httpMethod m) := inferInstanceAs (Decidable (_ ≠ _))

section Insert

variable {classType : Option ℕ} {methodName : Bytes} {func : Function} {array array' : ServiceArray} {m : Method}
  {x : RttrMethod}

/-- One place of an array is set, and the others keep what they have. -/
theorem method_setIfInBounds {m₁ : Method} (hm₁ : m₁ ∈ knownMethods) (hm : m ∈ knownMethods) {i : ℕ}
    (hi : log2 m₁ = some i) (service : Service) :
    ServiceArray.method (array.setIfInBounds i service) m = if m = m₁ then service.method else array.method m := by
  obtain ⟨j, hj, hj8⟩ := log2_known m hm
  have hij : m = m₁ ↔ i = j := by
    refine ⟨fun h => by simpa [← h, hj] using hi.symm, fun h => log2_inj m hm m₁ hm₁ (by rw [hi, hj, h])⟩
  rw [ServiceArray.method, ServiceArray.method, hj, Option.bind_some, Option.bind_some,
    Vector.getElem?_setIfInBounds]
  by_cases h : i = j
  · rw [if_pos h, if_pos (hij.mpr h), if_pos (h ▸ hj8)]
    rfl
  · rw [if_neg h, if_neg (mt hij.mp h)]

/-- The loop over the methods adds those that the flags have. -/
theorem insertLoop_method {httpMethod : ℤ} {ms : List Method} (hms : ∀ m ∈ ms, m ∈ knownMethods) (hm : m ∈ knownMethods)
    (h : insertLoop classType methodName func httpMethod ms array = .ok array') :
    array'.method m = some x ↔
      (m ∈ ms ∧ HasFlag httpMethod m ∧ x = ⟨methodName ++ methodString m, func⟩) ∨ array.method m = some x := by
  induction ms generalizing array with
  | nil =>
    obtain rfl : array = array' := by simpa [insertLoop] using h
    simp
  | cons m₁ ms ih =>
    have hm₁ := hms m₁ (by simp)
    have hms' : ∀ m ∈ ms, m ∈ knownMethods := fun m hm => hms m (by simp [hm])
    rw [insertLoop] at h
    by_cases hflag : httpMethod.toNat &&& (methodValue m₁).toNat = 0
    · rw [if_pos hflag] at h
      rw [ih hms' h, List.mem_cons]
      refine or_congr_left ⟨fun ⟨h1, h2⟩ => ⟨Or.inr h1, h2⟩, fun ⟨h1, h2⟩ => ⟨h1.resolve_left ?_, h2⟩⟩
      rintro rfl
      exact h2.1 hflag
    · rw [if_neg hflag] at h
      obtain ⟨i, hi, hi8⟩ := log2_known m₁ hm₁
      have hget : array[i]? = some array[i] := Vector.getElem?_eq_getElem hi8
      simp only [hi, Option.bind_some, hget, Option.map_some] at h
      split_ifs at h with hsome
      have hfree : array.method m₁ = none := by
        rw [ServiceArray.method, hi, Option.bind_some, hget, Option.bind_some]
        simpa using hsome
      rw [ih hms' h, method_setIfInBounds hm₁ hm hi]
      by_cases heq : m = m₁
      · subst heq
        simp only [if_true, Option.some.injEq, hfree, reduceCtorEq, or_false, List.mem_cons, true_or, true_and]
        exact ⟨fun h => ⟨hflag, h.elim (·.2.2) Eq.symm⟩, fun h => Or.inr h.2.symm⟩
      · simp [heq]

/-- **The flags of a registration** are added one after the other. -/
theorem serviceArrayInsert_method {httpMethods : List ℤ} (hm : m ∈ knownMethods)
    (h : serviceArrayInsert classType methodName func httpMethods array = .ok array') :
    array'.method m = some x ↔
      ((∃ f ∈ httpMethods, HasFlag f m) ∧ x = ⟨methodName ++ methodString m, func⟩) ∨ array.method m = some x := by
  induction httpMethods generalizing array with
  | nil =>
    obtain rfl : array = array' := by simpa [serviceArrayInsert] using h
    simp
  | cons f fs ih =>
    rw [serviceArrayInsert] at h
    cases hone : serviceArrayInsertOne classType methodName func f array with
    | error e =>
      rw [hone] at h
      cases h
    | ok array₁ =>
      rw [hone] at h
      unfold serviceArrayInsertOne at hone
      split_ifs at hone
      rw [ih h, insertLoop_method (fun _ h => h) hm hone, List.exists_mem_cons_iff, or_and_right, or_assoc,
        or_left_comm]
      simp only [hm, true_and]

end Insert

/-- **One registration** adds its methods under its path, and a path. -/
theorem insertServices_method {g g' : PathHash} {path : Bytes} {classType : Option ℕ} {methodName : Bytes}
    {func : Function} {httpMethods : List ℤ}
    (h : insertServices g path classType methodName func httpMethods = .ok g') :
    (∀ p, (g'.find? p).isSome = true ↔ p = path ∨ (g.find? p).isSome = true) ∧
    ∀ p, ∀ m ∈ knownMethods, ∀ x, g'.method p m = some x ↔
      (p = path ∧ (∃ f ∈ httpMethods, HasFlag f m) ∧ x = ⟨methodName ++ methodString m, func⟩) ∨
        g.method p m = some x := by
  have hfind : (g.emplace path .new).find? path = some ((g.find? path).getD .new) := by
    rw [UMap.find?_emplace, if_pos rfl]
  rw [insertServices, hfind, Option.getD_some] at h
  cases harray : serviceArrayInsert classType methodName func httpMethods ((g.find? path).getD .new) with
  | error e =>
    rw [harray] at h
    cases h
  | ok array =>
    rw [harray] at h
    obtain rfl : (g.emplace path .new).assign path array = g' := Except.ok.inj h
    have hget : ∀ p, ((g.emplace path .new).assign path array).find? p =
        if p = path then some array else g.find? p := by
      intro p
      rw [UMap.find?_assign, UMap.find?_emplace]
      split_ifs <;> rfl
    have hold : ∀ m, ((g.find? path).getD .new).method m = PathHash.method g path m := by
      intro m
      rw [PathHash.method]
      cases g.find? path with
      | none => exact ServiceArray.method_new m
      | some array => rfl
    refine ⟨fun p => ?_, fun p m hm x => ?_⟩
    · rw [hget]
      split_ifs with hp <;> simp [hp]
    · rw [PathHash.method, hget]
      split_ifs with hp
      · rw [Option.bind_some, serviceArrayInsert_method hm harray, hold, hp]
        simp
      · rw [PathHash.method]
        simp [hp]

/-! ## Normal forms -/

/-- A path in which runs are collapsed, with a slash in front. -/
theorem collapse_slash (path : Bytes) :
    collapse 47 (47 :: path) =
      if (unique sameSlash path).head? ≠ some 47 then 47 :: unique sameSlash path else unique sameSlash path := by
  have hhead : (unique sameSlash path).head? = path.head? := head?_collapse path
  rw [collapse_sep_cons, hhead, ite_not]
  rfl

/-- The key of a free function is the normal form of its path. -/
theorem requestPath_eq (path : Bytes) : requestPath path = normalForm 47 path := by
  rw [requestPath]
  split_ifs with hpath
  · subst hpath
    rfl
  · rw [normalForm, collapse_slash]
    rfl

/-- The key of a request is the normal form of its path. -/
theorem checkServices_eq (g : PathHash) (s : TaskState) (hpath : unique sameSlash s.urlName = s.urlName)
    (hhead : s.urlName.head? = some 47) :
    PluginsService.checkServices g s =
      (g.find? (normalForm 47 s.urlName), { s with urlName := normalForm 47 s.urlName }) := by
  have hne : s.urlName ≠ [] := by
    intro h
    simp [h] at hhead
  have hnormal : normalForm 47 s.urlName = strip 47 s.urlName := normalForm_of_collapsed hpath hhead
  rw [PluginsService.checkServices, if_neg hne, hnormal, strip]
  split_ifs <;> rfl

/-! ## Registrations -/

/-- The parameters that `request_handle_method` accepts of a function. -/
def requestSignatures : List (List ParameterType) := [
  [.response], [.request, .response], [.response, .request],
  [.request, .response, .environments], [.response, .request, .environments], [.response, .environments, .request],
  [.environments, .response, .request], [.environments, .request, .response], [.request, .environments, .response]]

/-- One call of `request_handle_method`. -/
structure Registration where
  path : Bytes
  function : Function
  httpMethods : List ℤ
  httpMethods_ne_nil : httpMethods ≠ []
  signature : function.parameters ∈ requestSignatures

namespace Registration

/-- The registration is for a method. -/
def Handles (r : Registration) (m : Method) : Prop := m ∈ knownMethods ∧ ∃ f ∈ r.httpMethods, HasFlag f m

/-- What is registered for a method. -/
def method (r : Registration) (m : Method) : RttrMethod :=
  ⟨requestName (normalForm 47 r.path) ++ methodString m, r.function⟩

/-- A path has the normal form of the registered one. -/
def SamePath (r : Registration) (path : Bytes) : Prop := normalForm 47 r.path = normalForm 47 path

/-- The function takes what the headers of the request ask for. -/
def Takes (r : Registration) (request : Request) : Prop :=
  parameterType request ≠ .socketPtr ∨ r.function.parameters.length = 3 ∨
    (r.function.parameters.length = 2 ∧ handshakes request = true)

end Registration

/-- The registrations of a plugin, one after the other. -/
def registerAll : PathHash → List Registration → Except Fatal PathHash
  | g, [] => .ok g
  | g, r :: rs => (requestHandleMethod g r.path r.function r.httpMethods).bind (registerAll · rs)

/-- **What accepted registrations add** to a hash. -/
theorem registerAll_method {rs : List Registration} {g g' : PathHash} (h : registerAll g rs = .ok g') :
    (∀ p, (g'.find? p).isSome = true ↔ (∃ r ∈ rs, normalForm 47 r.path = p) ∨ (g.find? p).isSome = true) ∧
    ∀ p, ∀ m ∈ knownMethods, ∀ x, g'.method p m = some x ↔
      (∃ r ∈ rs, normalForm 47 r.path = p ∧ r.Handles m ∧ x = r.method m) ∨ g.method p m = some x := by
  induction rs generalizing g with
  | nil =>
    obtain rfl : g = g' := by simpa [registerAll] using h
    simp
  | cons r rs ih =>
    rw [registerAll] at h
    cases hone : requestHandleMethod g r.path r.function r.httpMethods with
    | error e =>
      rw [hone] at h
      cases h
    | ok g₁ =>
      rw [hone] at h
      obtain ⟨hfind, hmethod⟩ := ih h
      rw [requestHandleMethod, requestPath_eq] at hone
      obtain ⟨hfind₁, hmethod₁⟩ := insertServices_method hone
      refine ⟨fun p => ?_, fun p m hm x => ?_⟩
      · rw [hfind, hfind₁, List.exists_mem_cons_iff, or_assoc, or_left_comm, eq_comm]
      · rw [hmethod p m hm, hmethod₁ p m hm, List.exists_mem_cons_iff, or_assoc, or_left_comm]
        simp [Registration.Handles, hm, Registration.method, eq_comm]

/-! ## What `call` comes to -/

namespace PluginsService

theorem parameterType_eq (request : Request) :
    parameterType request = .response ∨ parameterType request = .socketPtr := by
  unfold parameterType
  repeat' split
  all_goals simp

/-- **A registered function** is invoked exactly when it takes what the headers ask for. -/
theorem methodCall_iff {r : Registration} {m : Method} {request : Request} :
    methodCall (r.method m) (parameterType request) request = .invoked (r.method m) ↔ r.Takes request := by
  have hsig := r.signature
  have hparams : (r.method m).function.parameters = r.function.parameters := rfl
  unfold methodCall Registration.Takes
  rw [hparams]
  simp only [requestSignatures, List.mem_cons, List.not_mem_nil, or_false] at hsig
  rcases parameterType_eq request with ht | ht <;> cases hh : handshakes request <;>
    rcases hsig with h | h | h | h | h | h | h | h | h <;> simp [h, ht]

theorem callMethod_eq {g : PathHash} {env : Env} {request : Request} (hparsed : request.Parsed)
    (hhead : request.path.head? = some 47) (hfilters : env.filterPathMap.paths = []) (s : TaskState) :
    (callMethod g env request { s with urlName := request.path }).1 =
      match g.find? (normalForm 47 request.path), g.method (normalForm 47 request.path) request.method with
      | none, _ => .notFound
      | some _, none => .methodNotAllowed
      | some _, some method => methodCall method (parameterType request) request := by
  obtain ⟨i, hi, hi8⟩ := log2_known request.method (mem_knownMethods hparsed.method)
  rw [callMethod, checkServices_eq g _ hparsed.path hhead, PathHash.method]
  cases g.find? (normalForm 47 request.path) with
  | none => rfl
  | some array =>
    have hget : array[i]? = some array[i] := Vector.getElem?_eq_getElem hi8
    simp only [hi, Option.bind_some, hget, ServiceArray.method, callFilter, hfilters, callFilterLoop]
    cases array[i].method with
    | none => rfl
    | some method => rfl

end PluginsService

/-! ## The routes -/

/-- What `call` answers for a request. -/
def outcome (g : PathHash) (env : Env) (request : Request) (s : TaskState) : CallOutcome :=
  (PluginsService.callMethod g env request { s with urlName := request.path }).1

/-- A request goes to the handler that is registered for its method and the normal form of its path. -/
structure Routes (rs : List Registration) (request : Request) (answer : CallOutcome) : Prop where
  invoked : ∀ r ∈ rs, ∀ m, r.Handles m → (answer = .invoked (r.method m) ↔ request.method = m ∧ r.SamePath request.path)
  methodNotAllowed : answer = .methodNotAllowed ↔
    (∃ r ∈ rs, r.SamePath request.path) ∧ ∀ r ∈ rs, r.SamePath request.path → ¬ r.Handles request.method
  notFound : answer = .notFound ↔ ∀ r ∈ rs, ¬ r.SamePath request.path

/-- **Routing**, whatever has been registered: a request goes to the handler of its method and normal form if and
only if that handler takes what the headers of the request ask for. -/
theorem routes_iff {rs : List Registration} {g : PathHash} (hg : registerAll UMap.empty rs = .ok g) {env : Env}
    (hfilters : env.filterPathMap.paths = []) {request : Request} (hout : HandedOut request)
    (hhead : request.path.head? = some 47) (s : TaskState) :
    Routes rs request (outcome g env request s) ↔
      ∀ r ∈ rs, r.SamePath request.path → r.Handles request.method → r.Takes request := by
  have hparsed : request.Parsed := hout.parsed.resolve_left fun h => by simp [h] at hhead
  have hm := mem_knownMethods hparsed.method
  obtain ⟨hfind, hmethod⟩ := registerAll_method hg
  have hempty : ∀ p m, PathHash.method UMap.empty p m = none := fun p m => rfl
  have hfind' : (g.find? (normalForm 47 request.path)).isSome = true ↔ ∃ r ∈ rs, r.SamePath request.path := by
    simpa [UMap.find?, UMap.empty, Registration.SamePath] using hfind (normalForm 47 request.path)
  have hmethod' : ∀ x, g.method (normalForm 47 request.path) request.method = some x ↔
      ∃ r ∈ rs, r.SamePath request.path ∧ r.Handles request.method ∧ x = r.method request.method := by
    simpa [hempty, Registration.SamePath] using hmethod (normalForm 47 request.path) request.method hm
  have hinj : ∀ r r' : Registration, ∀ m, r'.Handles m → r.Handles request.method → r.SamePath request.path →
      r.method request.method = r'.method m → request.method = m ∧ r'.SamePath request.path := by
    intro r r' m hm' hmr hpath heq
    obtain ⟨hp, rfl⟩ := requestName_inj hm hm'.1 (congrArg RttrMethod.name heq)
    exact ⟨rfl, hp.symm.trans hpath⟩
  rw [outcome, PluginsService.callMethod_eq hparsed hhead hfilters]
  cases hg₁ : g.find? (normalForm 47 request.path) with
  | none =>
    have hno : ∀ r ∈ rs, ¬ r.SamePath request.path := by simpa [hg₁] using hfind'
    refine iff_of_true ⟨fun r hr m _ => ?_, ?_, ?_⟩ fun r hr hp => absurd hp (hno r hr)
    · simpa using fun _ => hno r hr
    · simpa using fun r hr hp => absurd hp (hno r hr)
    · simpa using hno
  | some array =>
    obtain ⟨r₁, hr₁, hp₁⟩ := hfind'.mp (by rw [hg₁]; rfl)
    cases hx : g.method (normalForm 47 request.path) request.method with
    | none =>
      have hno : ∀ r ∈ rs, r.SamePath request.path → ¬ r.Handles request.method := by
        intro r hr hp hh
        have := (hmethod' _).mpr ⟨r, hr, hp, hh, rfl⟩
        rw [hx] at this
        cases this
      refine iff_of_true ⟨fun r hr m hh => ?_, ?_, ?_⟩ fun r hr hp hh => absurd hh (hno r hr hp)
      · simp only [reduceCtorEq, false_iff, not_and]
        rintro rfl hp
        exact hno r hr hp hh
      · simpa using ⟨⟨r₁, hr₁, hp₁⟩, hno⟩
      · simpa using ⟨r₁, hr₁, hp₁⟩
    | some x =>
      -- every registration for this method and path is the one that is found
      have hall : ∀ r ∈ rs, r.SamePath request.path → r.Handles request.method → r.method request.method = x := by
        intro r hr hp hh
        have := (hmethod' _).mpr ⟨r, hr, hp, hh, rfl⟩
        rw [hx] at this
        exact (Option.some.inj this).symm
      obtain ⟨r, hr, hp, hh, rfl⟩ := (hmethod' x).mp hx
      have htakes : ∀ r' ∈ rs, r'.SamePath request.path → r'.Handles request.method →
          (r'.Takes request ↔ r.Takes request) := by
        intro r' hr' hp' hh'
        have hfun : r'.function = r.function := congrArg RttrMethod.function (hall r' hr' hp' hh')
        rw [Registration.Takes, Registration.Takes, hfun]
      have hiff : (∀ r ∈ rs, r.SamePath request.path → r.Handles request.method → r.Takes request) ↔ r.Takes request :=
        ⟨fun h => h r hr hp hh, fun h r' hr' hp' hh' => (htakes r' hr' hp' hh').mpr h⟩
      rw [hiff, ← PluginsService.methodCall_iff (m := request.method)]
      simp only
      constructor
      · intro h
        exact (h.invoked r hr request.method hh).mpr ⟨rfl, hp⟩
      · intro h
        rw [h]
        refine ⟨fun r' hr' m hh' => ?_, ?_, ?_⟩
        · rw [CallOutcome.invoked.injEq]
          constructor
          · exact hinj r r' m hh' hh hp
          · rintro ⟨rfl, hp'⟩
            exact (hall r' hr' hp' hh').symm
        · simpa using fun _ _ _ => ⟨r, hr, hp, hh⟩
        · simpa using ⟨r, hr, hp⟩

/-- A handler of `GET /a` that takes the response. -/
def answerA : Registration := ⟨lit "/a", ⟨[.response], 0⟩, [1], by decide, by decide⟩

/-- No filters, and no files. -/
def noFilters : Env := ⟨plainConfig, ⟨fun _ => false, fun _ => false, fun _ => false, by simp⟩, ⟨[], by simp, by simp⟩,
  UMap.empty, fun _ _ => ⟨false, false⟩⟩

/-- What a fresh parser makes of a head. -/
def parsedHead (head : Bytes) : Option Request :=
  match Parser.new.load head with
  | .ok (_, p) => (p.getRequest none).1
  | .error _ => none

theorem handedOut_parsedHead {head : Bytes} {request : Request} (h : parsedHead head = some request) :
    HandedOut request := by
  unfold parsedHead at h
  cases hl : Parser.new.load head with
  | error e => simp [hl] at h
  | ok r =>
    obtain ⟨b, p⟩ := r
    rw [hl] at h
    exact ⟨p, none, .load .new hl, h⟩

/-- The hash with the handler in it. -/
def hashA : PathHash := (registerAll UMap.empty [answerA]).toOption.getD UMap.empty

theorem registerAll_answerA : registerAll UMap.empty [answerA] = .ok hashA := by
  have h : (registerAll UMap.empty [answerA]).toOption.isSome = true := by decide
  unfold hashA
  cases hr : registerAll UMap.empty [answerA] with
  | error e =>
    rw [hr] at h
    cases h
  | ok g => rfl

/-- A request for `//a/` reaches the handler. -/
theorem routes_doubleSlash : ∃ request, parsedHead (lit "GET //a/ HTTP/1.1\r\n\r\n") = some request ∧
    Routes [answerA] request (outcome hashA noFilters request ⟨[], false, []⟩) := by
  have hsome : (parsedHead (lit "GET //a/ HTTP/1.1\r\n\r\n")).any
      (fun r => r.path.head? = some 47 ∧ parameterType r = .response) = true := by decide
  obtain ⟨request, hrequest, hr⟩ := (Option.any_eq_true _ _).mp hsome
  obtain ⟨hhead, ht⟩ : request.path.head? = some 47 ∧ parameterType request = .response := by simpa using hr
  refine ⟨request, hrequest, (routes_iff registerAll_answerA rfl (handedOut_parsedHead hrequest) hhead _).mpr ?_⟩
  intro r _ _ _
  exact Or.inl (by rw [ht]; decide)

/-- A handler that takes the response is no match for a request with the headers of a websocket. -/
theorem not_routes_websocketHeaders :
    ¬ ∀ rs g env request s, registerAll UMap.empty rs = .ok g → env.filterPathMap.paths = [] → HandedOut request →
      request.path.head? = some 47 → Routes rs request (outcome g env request s) := by
  intro hall
  have hsome : (parsedHead (lit "GET /a HTTP/1.1\r\nConnection: upgrade\r\nUpgrade: websocket\r\n\r\n")).any
      (fun r => (r.path = lit "/a" ∧ r.method = .get) ∧ outcome hashA noFilters r ⟨[], false, []⟩ = .aborted) =
        true := by
    decide
  obtain ⟨request, hrequest, hr⟩ := (Option.any_eq_true _ _).mp hsome
  obtain ⟨⟨hpath, hmethod⟩, hout⟩ : (request.path = lit "/a" ∧ request.method = .get) ∧
      outcome hashA noFilters request ⟨[], false, []⟩ = .aborted := by simpa using hr
  have hroutes := hall [answerA] hashA noFilters request ⟨[], false, []⟩ registerAll_answerA rfl
    (handedOut_parsedHead hrequest) (by rw [hpath]; decide)
  have hhandles : answerA.Handles .get := ⟨by decide, 1, by decide, by decide⟩
  have hinvoked := (hroutes.invoked answerA (by simp) .get hhandles).mpr ⟨hmethod, by rw [hpath]; rfl⟩
  rw [hout] at hinvoked
  cases hinvoked

end Gts3.Web
