import Gts3.Http.HeadMachine

/-!
# Request targets: path and parameters

A target is a percent-encoded path and parameters joined as `path?k1=v1&k2=v2`.  The parser decodes it before it
takes it apart, so the parts come back when the delimiters do not occur in them (`recovers_iff`): no `?` in the
path, no `&` and no `=` in a key, no `&` in a value.
-/

namespace Gts3.Http

open Lib Lib.Search Lib.Cxx

/-! ## Percent-encoding -/

/-- `e` is `s` with `%` and two hexadecimal digits in the place of every byte that is not kept. -/
inductive PercentEncoded (keep : UInt8 → Bool) : Bytes → Bytes → Prop
  | nil : PercentEncoded keep [] []
  | kept {c : UInt8} {s e : Bytes} (hc : keep c = true) (h : PercentEncoded keep s e) :
    PercentEncoded keep (c :: s) (c :: e)
  | escaped {c a b : UInt8} {s e : Bytes} (hc : keep c = false) (ha : digitVal a < 16) (hb : digitVal b < 16)
      (hab : digitVal a * 16 + digitVal b = c.toNat) (h : PercentEncoded keep s e) :
    PercentEncoded keep (c :: s) (37 :: a :: b :: e)

/-- A letter or a digit. -/
def isAlnum (c : UInt8) : Bool := (48 ≤ c && c ≤ 57) || (65 ≤ c && c ≤ 90) || (97 ≤ c && c ≤ 122)

/-- What is kept in a path. -/
def keepsPath (c : UInt8) : Bool := isAlnum c || c == 47

/-- **Decoding an encoded string**, whatever follows it. -/
theorem PercentEncoded.decode {keep : UInt8 → Bool} (hk : keep 37 = false) {s e : Bytes}
    (h : PercentEncoded keep s e) (t : Bytes) : fromPercentEncoding (e ++ t) = s ++ fromPercentEncoding t := by
  induction h with
  | nil => rfl
  | kept hc _ ih =>
    rw [List.cons_append, fromPercentEncoding_cons (by rintro rfl; simp [hk] at hc), ih, List.cons_append]
  | escaped _ ha hb hab _ ih =>
    rw [List.cons_append, List.cons_append, List.cons_append, fromPercentEncoding_pair, hexPair_eq ha hb, hab, ih,
      List.cons_append, UInt8.ofNat_toNat]

theorem digitVal_lt_ne_space {a : UInt8} (h : digitVal a < 16) : a ≠ 32 := by
  rintro rfl
  exact absurd h (by decide)

theorem PercentEncoded.noSpace {keep : UInt8 → Bool} (hk : keep 32 = false) {s e : Bytes}
    (h : PercentEncoded keep s e) : 32 ∉ e := by
  induction h with
  | nil => simp
  | kept hc _ ih =>
    simp only [List.mem_cons, not_or]
    exact ⟨by rintro rfl; simp [hk] at hc, ih⟩
  | escaped _ ha hb _ _ ih =>
    simp only [List.mem_cons, not_or]
    exact ⟨by decide, (digitVal_lt_ne_space ha).symm, (digitVal_lt_ne_space hb).symm, ih⟩

/-! ## Targets -/

/-- `k=v` for an encoded parameter. -/
def EncodedParameter (p : Bytes × Bytes) (t : Bytes) : Prop :=
  ∃ k v, PercentEncoded isAlnum p.1 k ∧ PercentEncoded isAlnum p.2 v ∧ t = k ++ 61 :: v

/-- `path?k1=v1&k2=v2`; the question mark may be missing when there are no parameters. -/
def EncodedTarget (path : Bytes) (params : List (Bytes × Bytes)) (target : Bytes) : Prop :=
  ∃ e, PercentEncoded keepsPath path e ∧
    ((params = [] ∧ target = e) ∨
      ∃ ts, List.Forall₂ EncodedParameter params ts ∧ target = e ++ 63 :: [38].intercalate ts)

/-- `k=v`. -/
def plainParameter (p : Bytes × Bytes) : Bytes := p.1 ++ 61 :: p.2

theorem EncodedParameter.decode {p : Bytes × Bytes} {t : Bytes} (h : EncodedParameter p t) (s : Bytes) :
    fromPercentEncoding (t ++ s) = plainParameter p ++ fromPercentEncoding s := by
  obtain ⟨k, v, hk, hv, rfl⟩ := h
  rw [List.append_assoc, hk.decode (by decide), List.cons_append, fromPercentEncoding_cons (by decide),
    hv.decode (by decide)]
  simp [plainParameter]

theorem EncodedParameter.noSpace {p : Bytes × Bytes} {t : Bytes} (h : EncodedParameter p t) : 32 ∉ t := by
  obtain ⟨k, v, hk, hv, rfl⟩ := h
  simp [hk.noSpace (by decide), hv.noSpace (by decide)]

theorem decode_parameters {params : List (Bytes × Bytes)} {ts : List Bytes}
    (h : List.Forall₂ EncodedParameter params ts) :
    fromPercentEncoding ([38].intercalate ts) = [38].intercalate (params.map plainParameter) := by
  induction h with
  | nil => rfl
  | @cons p t ps ts hp hps ih =>
    cases hps with
    | nil =>
      have := hp.decode []
      simpa using this
    | cons hp' hps =>
      rw [List.intercalate_cons_cons, List.append_assoc, hp.decode, List.singleton_append,
        fromPercentEncoding_cons (by decide), ih]
      simp only [List.map_cons, List.intercalate_cons_cons, List.append_assoc, List.singleton_append]

theorem noSpace_parameters {params : List (Bytes × Bytes)} {ts : List Bytes}
    (h : List.Forall₂ EncodedParameter params ts) : 32 ∉ [38].intercalate ts := by
  induction h with
  | nil => simp
  | @cons p t ps ts hp hps ih =>
    cases hps with
    | nil => simpa using hp.noSpace
    | cons hp' hps =>
      rw [List.intercalate_cons_cons]
      simp only [List.mem_append, not_or]
      exact ⟨⟨hp.noSpace, by decide⟩, ih⟩

theorem EncodedTarget.noSpace {path target : Bytes} {params : List (Bytes × Bytes)}
    (h : EncodedTarget path params target) : 32 ∉ target := by
  obtain ⟨e, he, ⟨-, rfl⟩ | ⟨ts, hts, rfl⟩⟩ := h
  · exact he.noSpace (by decide)
  · simp only [List.mem_append, List.mem_cons, not_or]
    exact ⟨he.noSpace (by decide), by decide, noSpace_parameters hts⟩

theorem EncodedTarget.decode {path target : Bytes} {params : List (Bytes × Bytes)}
    (h : EncodedTarget path params target) :
    (params = [] ∧ fromPercentEncoding target = path) ∨
      fromPercentEncoding target = path ++ 63 :: [38].intercalate (params.map plainParameter) := by
  obtain ⟨e, he, ⟨hp, rfl⟩ | ⟨ts, hts, rfl⟩⟩ := h
  · exact Or.inl ⟨hp, by simpa using he.decode (by decide) []⟩
  · right
    rw [he.decode (by decide), fromPercentEncoding_cons (by decide), decode_parameters hts]

/-! ## Paths -/

theorem uniqueFrom_eq_self {last : UInt8} {s : Bytes} (h : ¬ [47, 47] <:+: last :: s) :
    uniqueFrom sameSlash last s = s := by
  induction s generalizing last with
  | nil => rfl
  | cons a s ih =>
    have hne : sameSlash last a = false := by
      by_contra hc
      simp only [sameSlash, Bool.not_eq_false, Bool.and_eq_true, beq_iff_eq] at hc
      obtain ⟨rfl, rfl⟩ := hc
      exact h (List.prefix_append [47, 47] s).isInfix
    rw [uniqueFrom, hne, if_neg (by simp), ih (fun hc => h (hc.trans (List.suffix_cons _ _).isInfix))]

/-- A path without a double slash is left as it is. -/
theorem unique_eq_self {s : Bytes} (h : ¬ [47, 47] <:+: s) : unique sameSlash s = s := by
  cases s with
  | nil => rfl
  | cons a s => rw [unique, uniqueFrom_eq_self h]

theorem length_uniqueFrom_le (last : UInt8) (s : Bytes) : (uniqueFrom sameSlash last s).length ≤ s.length := by
  induction s generalizing last with
  | nil => rfl
  | cons a s ih =>
    rw [uniqueFrom]
    split_ifs
    · exact (ih last).trans (by simp)
    · simpa using ih a

theorem length_unique_le (s : Bytes) : (unique sameSlash s).length ≤ s.length := by
  cases s with
  | nil => rfl
  | cons a s => simpa [unique] using length_uniqueFrom_le a s

/-! ## Parameters -/

/-- No `&` and no `=` in a key, no `&` in a value. -/
def ParametersSplit (params : List (Bytes × Bytes)) : Prop := ∀ e ∈ params, 38 ∉ e.1 ∧ 61 ∉ e.1 ∧ 38 ∉ e.2

instance (params : List (Bytes × Bytes)) : Decidable (ParametersSplit params) :=
  inferInstanceAs (Decidable (∀ e ∈ params, _))

theorem parameterItem_plain {e : Bytes × Bytes} (h : 61 ∉ e.1) : parameterItem (plainParameter e) = e := by
  simp [parameterItem, plainParameter, find_singleton_append h]

/-- Parameters whose parts hold no delimiter come back. -/
theorem parameterItems_plain {params : List (Bytes × Bytes)} (hsplit : ParametersSplit params)
    (hnodup : (params.map Prod.fst).Nodup) :
    (parameterItems UMap.empty (tokens 38 ([38].intercalate (params.map plainParameter)))).entries = params := by
  rw [tokens_intercalate, parameterItems, List.foldl_map]
  · have hfold : params.foldl (fun m e => m.emplace (parameterItem (plainParameter e)).1
        (parameterItem (plainParameter e)).2) UMap.empty =
        params.foldl (fun m e => UMap.emplace m e.1 e.2) UMap.empty := by
      refine List.foldl_ext _ _ _ fun m e he => ?_
      rw [parameterItem_plain (hsplit e he).2.1]
    rw [hfold, UMap.foldl_emplace_entries (by simpa [UMap.empty] using hnodup)]
    rfl
  · simp only [List.mem_map]
    rintro t ⟨e, he, rfl⟩
    simp [plainParameter, (hsplit e he).1, (hsplit e he).2.2]
  · simp only [List.mem_map]
    rintro t ⟨e, he, rfl⟩
    simp [plainParameter]

theorem parameterItem_split {t : Bytes} (h : 38 ∉ t) :
    38 ∉ (parameterItem t).1 ∧ 38 ∉ (parameterItem t).2 ∧ 61 ∉ (parameterItem t).1 := by
  rw [parameterItem]
  cases hf : find [61] t with
  | none => exact ⟨h, h, find_singleton_eq_none.mp hf⟩
  | some pos =>
    refine ⟨fun hm => h (List.mem_of_mem_take hm), fun hm => h (List.mem_of_mem_drop hm), fun hm => ?_⟩
    have hn : find [61] (t.take pos) = none := by
      cases hp : find [61] (t.take pos) with
      | none => rfl
      | some i =>
        have h1 := find_append_of_some hp (t.drop pos)
        rw [List.take_append_drop, hf] at h1
        have h2 := find_le hp
        simp only [Option.some.injEq] at h1
        simp only [List.length_take, List.length_singleton] at h2
        omega
    exact find_singleton_eq_none.mp hn hm

theorem parameterItems_split {ts : List Bytes} (hts : ∀ t ∈ ts, 38 ∉ t) {m : Parameters}
    (hm : ∀ e ∈ m.entries, 38 ∉ e.1 ∧ 61 ∉ e.1 ∧ 38 ∉ e.2) :
    ∀ e ∈ (parameterItems m ts).entries, 38 ∉ e.1 ∧ 61 ∉ e.1 ∧ 38 ∉ e.2 := by
  induction ts generalizing m with
  | nil => exact hm
  | cons t ts ih =>
    refine ih (fun t' ht' => hts t' (by simp [ht'])) (m := m.emplace _ _) fun e he => ?_
    rcases UMap.mem_emplace he with he | rfl
    · exact hm e he
    · obtain ⟨h1, h2, h3⟩ := parameterItem_split (hts t (by simp))
      exact ⟨h1, h3, h2⟩

/-! ## The request line -/

/-- The parser takes the line and finds this path and these parameters. -/
def Recovers (p : Parser) (line path : Bytes) (params : List (Bytes × Bytes)) : Prop :=
  ∃ p' r, p.stateHandlerWaitingRequest line = .ok (true, p') ∧ p'.cache = some r ∧ r.path = path ∧
    ∀ k v, r.parameters.find? k = some v ↔ (k, v) ∈ params

/-- `method target version` and the line end. -/
def requestLineOf (method target version : Bytes) : Bytes :=
  method ++ 32 :: (target ++ 32 :: (version ++ crlf))

theorem fromMethodString_token {m : Bytes} (h : fromMethodString m ≠ .unknown) : 32 ∉ m ∧ m ≠ [] := by
  unfold fromMethodString at h
  split_ifs at h <;> subst_vars <;> first | decide | exact absurd rfl h

theorem tokens_requestLineOf {method target version : Bytes} (hm : fromMethodString method ≠ .unknown)
    (ht : 32 ∉ target) (htne : target ≠ []) (hv : 32 ∉ version) :
    tokens 32 (requestLineOf method target version) = [method, target, version ++ crlf] := by
  obtain ⟨hms, hmne⟩ := fromMethodString_token hm
  rw [requestLineOf, tokens_append_cons hms hmne, tokens_append_cons ht htne,
    tokens_of_not_mem (by simp [hv, crlf]) (by simp [crlf])]

theorem startsWith_append {v : Bytes} (h : strStartsWith (strToUpper v) (lit "HTTP/") = true) (t : Bytes) :
    strStartsWith (strToUpper (v ++ t)) (lit "HTTP/") = true := by
  simp only [strStartsWith, List.isPrefixOf_iff_prefix, strToUpper, List.map_append] at h ⊢
  exact h.trans (List.prefix_append _ _)

/-- The request line is taken, and its target is decoded first. -/
theorem handler_requestLineOf {p : Parser} (hp : p.Sim .waiting) {method target version : Bytes}
    (hm : fromMethodString method ≠ .unknown) (ht : 32 ∉ target) (htne : target ≠ []) (hv : 32 ∉ version)
    (hhttp : strStartsWith (strToUpper version) (lit "HTTP/") = true) :
    ∃ p' r, p.stateHandlerWaitingRequest (requestLineOf method target version) = .ok (true, p') ∧
      p'.cache = some (withTarget r target) ∧ r.parameters = UMap.empty := by
  rw [stateHandlerWaitingRequest_eq, hp.cache_getD, requestLine, tokens_requestLineOf hm ht htne hv]
  simp only [startsWith_append hhttp, hm, Bool.true_eq_false, or_self, if_false]
  exact ⟨_, _, rfl, rfl, rfl⟩

/-- The path of a target without a question mark in the path. -/
theorem withTarget_noQuery {r : Request} {path target : Bytes} (h : fromPercentEncoding target = path)
    (hq : 63 ∉ path) : withTarget r target = { r with path := unique sameSlash path } := by
  simp only [withTarget, h, find_singleton_eq_none.mpr hq]

/-- The path and the parameters, cut at the first question mark. -/
theorem withTarget_query {r : Request} {path target query : Bytes}
    (h : fromPercentEncoding target = path ++ 63 :: query) (hq : 63 ∉ path) :
    withTarget r target =
      { r with path := unique sameSlash path, parametersString := query,
               parameters := parameterItems r.parameters (tokens 38 query) } := by
  have hdrop : (path ++ 63 :: query).drop (path.length + 1) = query := by simp
  simp only [withTarget, h, find_singleton_append hq, List.take_left, hdrop]

/-- **Path and parameters** come back from the request line if and only if the path holds no `?`, no key holds `&`
or `=`, and no value holds `&`. -/
theorem recovers_iff {p : Parser} (hp : p.Sim .waiting) {method version path target : Bytes}
    {params : List (Bytes × Bytes)} (hm : fromMethodString method ≠ .unknown) (hv : 32 ∉ version)
    (hhttp : strStartsWith (strToUpper version) (lit "HTTP/") = true) (hslash : [47] <+: path)
    (hdouble : ¬ [47, 47] <:+: path) (hnodup : (params.map Prod.fst).Nodup)
    (htarget : EncodedTarget path params target) :
    Recovers p (requestLineOf method target version) path params ↔ 63 ∉ path ∧ ParametersSplit params := by
  have htne : target ≠ [] := by
    rintro rfl
    obtain ⟨u, rfl⟩ := hslash
    rcases htarget.decode with ⟨-, h⟩ | h <;> simp [fromPercentEncoding] at h
  obtain ⟨p', r, hline, hcache, hempty⟩ := handler_requestLineOf hp hm htarget.noSpace htne hv hhttp
  have hrec : Recovers p (requestLineOf method target version) path params ↔
      (withTarget r target).path = path ∧
        ∀ k v, (withTarget r target).parameters.find? k = some v ↔ (k, v) ∈ params := by
    constructor
    · rintro ⟨p'', r', hline', hcache', hpath, hparams⟩
      obtain rfl : p' = p'' := by simpa [hline] using hline'
      obtain rfl : withTarget r target = r' := by simpa [hcache] using hcache'
      exact ⟨hpath, hparams⟩
    · rintro ⟨hpath, hparams⟩
      exact ⟨p', _, hline, hcache, hpath, hparams⟩
  rw [hrec]
  by_cases hq : 63 ∈ path
  · -- the path is cut at its own question mark
    obtain ⟨a, b, rfl, ha⟩ := List.eq_append_cons_of_mem hq
    obtain ⟨query, hdec⟩ : ∃ query, fromPercentEncoding target = a ++ 63 :: query := by
      rcases htarget.decode with ⟨-, h⟩ | h
      · exact ⟨b, h⟩
      · exact ⟨_, by rw [h, List.append_assoc, List.cons_append]⟩
    refine iff_of_false (fun h => ?_) (fun h => h.1 hq)
    have hlen := congrArg List.length h.1
    rw [withTarget_query hdec ha] at hlen
    have := length_unique_le a
    simp at hlen
    omega
  rcases htarget.decode with ⟨rfl, hdec⟩ | hdec
  · rw [withTarget_noQuery hdec hq]
    simp [unique_eq_self hdouble, hq, hempty, ParametersSplit, UMap.find?, UMap.empty]
  · rw [withTarget_query hdec hq]
    simp only [unique_eq_self hdouble, hempty, true_and, hq, not_false_eq_true]
    constructor
    · intro hfind e he
      have hmem : e ∈ (parameterItems UMap.empty (tokens 38 ([38].intercalate (params.map plainParameter)))).entries :=
        UMap.find?_eq_some_iff.mp ((hfind e.1 e.2).mpr he)
      exact parameterItems_split (fun t ht => not_mem_of_mem_tokens ht) (by simp [UMap.empty]) e hmem
    · intro hsplit k v
      rw [UMap.find?_eq_some_iff, parameterItems_plain hsplit hnodup]

/-- A plain key and value under a path. -/
theorem recovers_plain : Recovers .new (lit "GET /a?k=x HTTP/1.1\r\n") (lit "/a") [(lit "k", lit "x")] := by
  have hpath : PercentEncoded keepsPath (lit "/a") (lit "/a") := .kept (by decide) (.kept (by decide) .nil)
  have hkey : PercentEncoded isAlnum (lit "k") (lit "k") := .kept (by decide) .nil
  have hval : PercentEncoded isAlnum (lit "x") (lit "x") := .kept (by decide) .nil
  have htarget : EncodedTarget (lit "/a") [(lit "k", lit "x")] (lit "/a?k=x") :=
    ⟨_, hpath, .inr ⟨[lit "k=x"], .cons ⟨_, _, hkey, hval, by decide⟩ .nil, by decide⟩⟩
  have hiff := @recovers_iff .new Parser.sim_new (lit "GET") (lit "HTTP/1.1") (lit "/a") (lit "/a?k=x")
    [(lit "k", lit "x")] (by decide) (by decide) (by decide) (by decide) (by decide) (by decide) htarget
  exact hiff.mpr ⟨by decide, by decide⟩

/-- The value `x&y` under the key `k`: two parameters come back. -/
theorem not_recovers_ampersand :
    ¬ ∀ (path target : Bytes) (params : List (Bytes × Bytes)), [47] <+: path → ¬ [47, 47] <:+: path →
      (params.map Prod.fst).Nodup → (∀ e ∈ params, e.1 ≠ []) → EncodedTarget path params target →
      Recovers .new (requestLineOf (lit "GET") target (lit "HTTP/1.1")) path params := by
  intro hall
  have hpath : PercentEncoded keepsPath (lit "/a") (lit "/a") := .kept (by decide) (.kept (by decide) .nil)
  have hkey : PercentEncoded isAlnum (lit "k") (lit "k") := .kept (by decide) .nil
  have hval : PercentEncoded isAlnum (lit "x&y") (lit "x%26y") :=
    .kept (by decide) (.escaped (by decide) (by decide) (by decide) (by decide) (.kept (by decide) .nil))
  obtain ⟨p, r, hline, hcache, -, hparams⟩ := hall (lit "/a") (lit "/a?k=x%26y") [(lit "k", lit "x&y")]
    (by decide) (by decide) (by decide) (by decide)
    ⟨_, hpath, .inr ⟨[lit "k=x%26y"], .cons ⟨_, _, hkey, hval, by decide⟩ .nil, by decide⟩⟩
  have hy : (match Parser.new.stateHandlerWaitingRequest
      (requestLineOf (lit "GET") (lit "/a?k=x%26y") (lit "HTTP/1.1")) with
      | .ok (_, p) => p.cache.bind fun r => r.parameters.find? (lit "y")
      | .error _ => none) = some (lit "y") := by decide +kernel
  simp only [hline, hcache, Option.bind_some, hparams] at hy
  revert hy
  decide

end Gts3.Http
