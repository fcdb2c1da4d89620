import Gts3.Lib.Search

/-!
# Machines that read a stream line by line

A `Machine` keeps the bytes of its unfinished line in a buffer.  Whenever bytes arrive it cuts the complete lines
off the buffer (`drain`): a line moves the state on (`next`), throws the buffered bytes away (`drop`) or ends the
reading with a result (`stop`).  A buffer of `limit` elements without a line end is thrown away as well, or ends the
reading.

`At m s₀ p s q`: after the elements `p` the machine, started in `s₀`, is in state `s` with `q` buffered, and no
element was thrown away on the way.  The main result is that cutting a stream into segments changes nothing:
* `exists_at`: every proper prefix of a list of lines is read without loss;
* `At.drain`: what comes next is handled as if the whole stream had arrived in one piece;
* `feeds_at`: the same for a prefix that arrives segment by segment.
-/

namespace Lib.LineMachine

open Search

/-- What a machine does with a line. -/
inductive Verdict (σ ρ : Type*)
  | next (s : σ)
  | drop (s : σ)
  | stop (s : σ) (r : ρ)

/-- A machine over elements `α` with states `σ` and results `ρ`. -/
structure Machine (α σ ρ : Type*) where
  delim : List α
  borderless : Borderless delim
  delim_ne_nil : delim ≠ []
  limit : ℕ
  line : σ → List α → Verdict σ ρ
  /-- What becomes of the state when the buffer reaches the limit: the reading goes on or ends. -/
  overlong : σ → σ × Option ρ

/-- The state and the buffer to go on with, or the result together with the elements not looked at. -/
inductive Outcome (α σ ρ : Type*)
  | more (s : σ) (buf : List α)
  | done (s : σ) (r : ρ) (rest : List α)

/-- `l` is a line: a text without the delimiter, and the delimiter. -/
def IsLine {α : Type*} [DecidableEq α] (d l : List α) : Prop := ∃ c, find d c = none ∧ l = c ++ d

variable {α σ ρ : Type*} [DecidableEq α] (m : Machine α σ ρ)

/-- Cut off and handle the complete lines of the buffer. -/
def drain (s : σ) (buf : List α) : Outcome α σ ρ :=
  match _hf : find m.delim buf with
  | none =>
    if buf.length < m.limit then .more s buf
    else match m.overlong s with
      | (s', none) => .more s' []
      | (s', some r) => .done s' r buf
  | some pos =>
    match m.line s (buf.take (pos + m.delim.length)) with
    | .next s' => drain s' (buf.drop (pos + m.delim.length))
    | .drop s' => .more s' []
    | .stop s' r => .done s' r (buf.drop (pos + m.delim.length))
termination_by buf.length
decreasing_by
  have := find_le _hf
  have := List.length_pos_iff.mpr m.delim_ne_nil
  simp only [List.length_drop]
  omega

/-- The state after lines that all move the machine on. -/
def runLines : σ → List (List α) → Option σ
  | s, [] => some s
  | s, l :: ls =>
    match m.line s l with
    | .next s' => runLines s' ls
    | _ => none

/-- Feed segments as long as the machine asks for more. -/
def feeds (s : σ) (buf : List α) : List (List α) → Option (σ × List α)
  | [] => some (s, buf)
  | g :: gs =>
    match drain m s (buf ++ g) with
    | .more s' buf' => feeds s' buf' gs
    | .done _ _ _ => none

variable {m}

/-! ## One line -/

theorem drain_short {s : σ} {buf : List α} (hf : find m.delim buf = none) (hl : buf.length < m.limit) :
    drain m s buf = .more s buf := by
  rw [drain]
  split
  · rw [if_pos hl]
  · simp_all

theorem drain_overlong {s : σ} {buf : List α} (hf : find m.delim buf = none) (hl : m.limit ≤ buf.length) :
    drain m s buf = match m.overlong s with
      | (s', none) => .more s' []
      | (s', some r) => .done s' r buf := by
  rw [drain]
  split
  · rw [if_neg (by omega)]
  · simp_all

/-- **One line.**  The rest of the buffer is handled after it, thrown away or handed out. -/
theorem drain_line {s : σ} {l : List α} (hl : IsLine m.delim l) (rest : List α) :
    drain m s (l ++ rest) = match m.line s l with
      | .next s' => drain m s' rest
      | .drop s' => .more s' []
      | .stop s' r => .done s' r rest := by
  obtain ⟨c, hc, rfl⟩ := hl
  have hf := find_append_pat m.borderless hc rest
  have hlen : c.length + m.delim.length = (c ++ m.delim).length := by simp
  rw [drain]
  split
  · simp_all
  · next pos hpos =>
    obtain rfl : pos = c.length := by rw [hf] at hpos; simpa using hpos.symm
    rw [hlen, List.take_left, List.drop_left]

theorem drain_lines {ls : List (List α)} (hls : ∀ l ∈ ls, IsLine m.delim l) {s s' : σ}
    (hr : runLines m s ls = some s') (rest : List α) :
    drain m s (ls.flatten ++ rest) = drain m s' rest := by
  induction ls generalizing s with
  | nil => simp only [runLines, Option.some.injEq] at hr; simp [hr]
  | cons l ls ih =>
    rw [List.flatten_cons, List.append_assoc, drain_line (hls l (by simp))]
    simp only [runLines] at hr
    cases hv : m.line s l with
    | next s₁ =>
      rw [hv] at hr
      exact ih (fun l' hl' => hls l' (by simp [hl'])) hr
    | drop s₁ => simp [hv] at hr
    | stop s₁ r => simp [hv] at hr

/-- **What stays in the buffer** is an unfinished line below the limit. -/
theorem drain_more (hm : 0 < m.limit) {s s' : σ} {buf buf' : List α} (h : drain m s buf = .more s' buf') :
    find m.delim buf' = none ∧ buf'.length < m.limit := by
  have hnil : find m.delim ([] : List α) = none ∧ ([] : List α).length < m.limit :=
    ⟨by simp [find, m.delim_ne_nil], by simpa using hm⟩
  induction hn : buf.length using Nat.strong_induction_on generalizing s buf with
  | _ n ih =>
    rw [drain] at h
    split at h
    · next hf =>
      split_ifs at h with hl
      · obtain ⟨-, rfl⟩ : s = s' ∧ buf = buf' := by simpa using h
        exact ⟨hf, hl⟩
      · split at h
        · obtain ⟨-, rfl⟩ : _ = s' ∧ [] = buf' := by simpa using h
          exact hnil
        · cases h
    · next pos hf =>
      split at h
      · have hpos := find_le hf
        have hdelim := List.length_pos_iff.mpr m.delim_ne_nil
        exact ih _ (by rw [List.length_drop]; omega) h rfl
      · obtain ⟨-, rfl⟩ : _ = s' ∧ [] = buf' := by simpa using h
        exact hnil
      · cases h

/-- What is handed out with a result is the end of the buffer. -/
theorem drain_done_suffix {s s' : σ} {r : ρ} {buf rest : List α} (h : drain m s buf = .done s' r rest) :
    rest <:+ buf := by
  induction hn : buf.length using Nat.strong_induction_on generalizing s buf with
  | _ n ih =>
    rw [drain] at h
    split at h
    · split_ifs at h
      split at h
      · cases h
      · cases h
        exact List.suffix_rfl
    · next pos hf =>
      split at h
      · have hpos := find_le hf
        have hdelim := List.length_pos_iff.mpr m.delim_ne_nil
        exact (ih _ (by rw [List.length_drop]; omega) h rfl).trans (List.drop_suffix _ _)
      · cases h
      · cases h
        exact List.drop_suffix _ _

/-- When the buffer held no line before `data` came, what is handed out with a result comes from `data`. -/
theorem drain_done_length (hover : ∀ s, (m.overlong s).2 = none) {s s' : σ} {r : ρ} {buf data rest : List α}
    (hbuf : find m.delim buf = none) (h : drain m s (buf ++ data) = .done s' r rest) : rest.length ≤ data.length := by
  cases hf : find m.delim (buf ++ data) with
  | none =>
    by_cases hl : (buf ++ data).length < m.limit
    · rw [drain_short hf hl] at h
      cases h
    · rw [drain_overlong hf (Nat.le_of_not_lt hl)] at h
      have hnone := hover s
      rcases hm : m.overlong s with ⟨s₁, _ | r₁⟩
      · rw [hm] at h
        cases h
      · rw [hm] at hnone
        cases hnone
  | some pos =>
    obtain ⟨c, rest₁, heq, hpos⟩ := find_eq_some hf
    have hc : find m.delim c = none := find_front (by rw [← heq, hf, hpos]) (List.length_pos_iff.mpr m.delim_ne_nil)
    -- the first line ends behind the buffer
    have hlong : buf.length < (c ++ m.delim).length := by
      by_contra hle
      have hpre : c ++ m.delim <+: buf :=
        List.prefix_of_prefix_length_le ⟨rest₁, heq.symm⟩ (List.prefix_append buf data) (by omega)
      obtain ⟨t, rfl⟩ := hpre
      rw [find_append_pat m.borderless hc t] at hbuf
      cases hbuf
    have hlen := congrArg List.length heq
    rw [List.length_append, List.length_append] at hlen
    have hrest : rest.length ≤ rest₁.length := by
      rw [heq, drain_line ⟨c, hc, rfl⟩] at h
      cases hv : m.line s (c ++ m.delim) with
      | next s₁ =>
        rw [hv] at h
        exact (drain_done_suffix h).length_le
      | drop s₁ =>
        rw [hv] at h
        cases h
      | stop s₁ r₁ =>
        rw [hv] at h
        cases h
        exact le_rfl
    omega

/-- A state holds `P`, and a result `Q`. -/
def Verdict.Holds (P : σ → Prop) (Q : ρ → Prop) : Verdict σ ρ → Prop
  | .next s => P s
  | .drop s => P s
  | .stop s r => P s ∧ Q r

/-- The state holds `P`, and a result `Q`. -/
def Outcome.Holds (P : σ → Prop) (Q : ρ → Prop) : Outcome α σ ρ → Prop
  | .more s _ => P s
  | .done s r _ => P s ∧ Q r

/-- A state to go on with holds `P`, a state with a result `R`. -/
def Verdict.Meets (P : σ → Prop) (R : σ → ρ → Prop) : Verdict σ ρ → Prop
  | .next s => P s
  | .drop s => P s
  | .stop s r => R s r

/-- A state to go on with holds `P`, a state with a result `R`. -/
def Outcome.Meets (P : σ → Prop) (R : σ → ρ → Prop) : Outcome α σ ρ → Prop
  | .more s _ => P s
  | .done s r _ => R s r

theorem Verdict.holds_iff {P : σ → Prop} {Q : ρ → Prop} {v : Verdict σ ρ} :
    v.Holds P Q ↔ v.Meets P (fun s r => P s ∧ Q r) := by
  cases v <;> rfl

omit [DecidableEq α] in
theorem Outcome.holds_iff {P : σ → Prop} {Q : ρ → Prop} {o : Outcome α σ ρ} :
    o.Holds P Q ↔ o.Meets P (fun s r => P s ∧ Q r) := by
  cases o <;> rfl

/-- **Rule for whole buffers**: what holds behind every line, and behind an overlong buffer, holds behind a buffer. -/
theorem drain_meets {P : σ → Prop} {R : σ → ρ → Prop} (hline : ∀ s l, P s → (m.line s l).Meets P R)
    (hover : ∀ s, P s → match m.overlong s with
      | (s', none) => P s'
      | (s', some r) => R s' r) {s : σ} (hs : P s) (buf : List α) : (drain m s buf).Meets P R := by
  induction hn : buf.length using Nat.strong_induction_on generalizing s buf with
  | _ n ih =>
    cases hf : find m.delim buf with
    | none =>
      by_cases hl : buf.length < m.limit
      · rw [drain_short hf hl]
        exact hs
      · have ho := hover s hs
        rw [drain_overlong hf (Nat.le_of_not_lt hl)]
        rcases hm : m.overlong s with ⟨s', _ | r⟩
        · rw [hm] at ho
          exact ho
        · rw [hm] at ho
          exact ho
    | some pos =>
      obtain ⟨c, rest, rfl, hc⟩ := find_eq_some hf
      have hdelim := List.length_pos_iff.mpr m.delim_ne_nil
      have hcn : find m.delim c = none := find_front (by rw [hf, hc]) hdelim
      have hlen : rest.length < n := by
        rw [← hn, List.length_append, List.length_append]
        omega
      have hv := hline s (c ++ m.delim) hs
      rw [drain_line ⟨c, hcn, rfl⟩]
      cases hm : m.line s (c ++ m.delim) with
      | next s' =>
        rw [hm] at hv
        exact ih _ hlen hv rest rfl
      | drop s' =>
        rw [hm] at hv
        exact hv
      | stop s' r =>
        rw [hm] at hv
        exact hv

/-- **Invariants of a machine**: what every line and an overlong buffer keep, every buffer keeps. -/
theorem drain_inv {P : σ → Prop} {Q : ρ → Prop} (hline : ∀ s l, P s → (m.line s l).Holds P Q)
    (hover : ∀ s, P s → P (m.overlong s).1 ∧ ∀ r, (m.overlong s).2 = some r → Q r) {s : σ} (hs : P s) (buf : List α) :
    (drain m s buf).Holds P Q := by
  rw [Outcome.holds_iff]
  refine drain_meets (fun s l hs => Verdict.holds_iff.mp (hline s l hs)) (fun s hs => ?_) hs buf
  have ho := hover s hs
  rcases hm : m.overlong s with ⟨s', _ | r⟩
  · rw [hm] at ho
    exact ho.1
  · rw [hm] at ho
    exact ⟨ho.1, ho.2 r rfl⟩

/-! ## Where the machine is in the stream -/

variable (m) in
/-- After the elements `p` the machine started in `s₀` is in state `s` with the unfinished line `q`. -/
def At (s₀ : σ) (p : List α) (s : σ) (q : List α) : Prop :=
  ∃ ls, (∀ l ∈ ls, IsLine m.delim l) ∧ runLines m s₀ ls = some s ∧ p = ls.flatten ++ q ∧
    find m.delim q = none ∧ q.length < m.limit

theorem At.nil (hm : 0 < m.limit) (s : σ) : At m s [] s [] :=
  ⟨[], by simp, rfl, rfl, by simp [find, m.delim_ne_nil], hm⟩

theorem At.cons {s₀ s₁ s : σ} {l p q : List α} (hl : IsLine m.delim l) (hv : m.line s₀ l = .next s₁)
    (h : At m s₁ p s q) : At m s₀ (l ++ p) s q := by
  obtain ⟨ls, hls, hr, rfl, hq⟩ := h
  refine ⟨l :: ls, ?_, by simp [runLines, hv, hr], by simp, hq⟩
  rintro l' (_ | ⟨_, hl'⟩)
  · exact hl
  · exact hls l' hl'

/-- **Segmentation.**  What follows is handled as if everything had arrived in one piece. -/
theorem At.drain {s₀ s : σ} {p q : List α} (h : At m s₀ p s q) (y : List α) :
    drain m s (q ++ y) = drain m s₀ (p ++ y) := by
  obtain ⟨ls, hls, hr, rfl, -⟩ := h
  rw [List.append_assoc, drain_lines hls hr]

theorem At.drain_self {s₀ s : σ} {p q : List α} (h : At m s₀ p s q) :
    LineMachine.drain m s₀ p = .more s q := by
  obtain ⟨ls, hls, hr, rfl, hq, hl⟩ := h
  rw [drain_lines hls hr, drain_short hq hl]

/-- **Every proper prefix of a list of lines is read without loss**, when the lines before the last one move the
machine on and no line is longer than the limit. -/
theorem exists_at {init : List (List α)} {last : List α} (hls : ∀ l ∈ init ++ [last], IsLine m.delim l)
    (hlim : ∀ l ∈ init ++ [last], l.length ≤ m.limit) {s₀ s₁ : σ} (hr : runLines m s₀ init = some s₁)
    {p : List α} (hp : p <+: (init ++ [last]).flatten) (hlt : p.length < (init ++ [last]).flatten.length) :
    ∃ s q, At m s₀ p s q := by
  induction init generalizing s₀ p with
  | nil =>
    obtain ⟨c, hc, hlast⟩ := hls last (by simp)
    have hp' : p <+: last := by simpa using hp
    have hlt' : p.length < last.length := by simpa using hlt
    have hlim' := hlim last (by simp)
    refine ⟨s₀, p, [], by simp, rfl, rfl, ?_, by omega⟩
    exact find_of_prefix m.borderless hc (hlast ▸ hp') (by rintro rfl; simp [hlast] at hlt')
  | cons l init ih =>
    obtain ⟨c, hc, hl⟩ := hls l (by simp)
    have hliml := hlim l (by simp)
    simp only [List.cons_append, List.flatten_cons] at hp hlt
    rcases Nat.lt_or_ge p.length l.length with hshort | hlong
    · -- the prefix ends inside the first line
      have hpl : p <+: l := List.prefix_of_prefix_length_le hp (List.prefix_append _ _) (by omega)
      refine ⟨s₀, p, [], by simp, rfl, rfl, ?_, by omega⟩
      exact find_of_prefix m.borderless hc (hl ▸ hpl) (by rintro rfl; simp [hl] at hshort)
    · obtain ⟨p', rfl⟩ := List.prefix_of_prefix_length_le (List.prefix_append l _) hp hlong
      cases hv : m.line s₀ l with
      | next s' =>
        have hr' : runLines m s' init = some s₁ := by simpa [runLines, hv] using hr
        obtain ⟨s, q, h⟩ := ih (fun l' hl' => hls l' (by simp at hl' ⊢; tauto))
          (fun l' hl' => hlim l' (by simp at hl' ⊢; tauto)) hr'
          ((List.prefix_append_right_inj l).mp hp) (by simp only [List.length_append] at hlt; omega)
        exact ⟨s, q, h.cons ⟨c, hc, hl⟩ hv⟩
      | drop s' => simp [runLines, hv] at hr
      | stop s' r => simp [runLines, hv] at hr

/-- **A prefix that arrives segment by segment** leaves the machine where the whole prefix leaves it. -/
theorem feeds_at {s₀ : σ} {whole : List α}
    (hat : ∀ p, p <+: whole → p.length < whole.length → ∃ s q, At m s₀ p s q)
    {segs : List (List α)} {p : List α} {s : σ} {q : List α} (h : At m s₀ p s q)
    (hp : p ++ segs.flatten <+: whole) (hlt : (p ++ segs.flatten).length < whole.length) :
    ∃ s' q', feeds m s q segs = some (s', q') ∧ At m s₀ (p ++ segs.flatten) s' q' := by
  induction segs generalizing p s q with
  | nil => exact ⟨s, q, rfl, by simpa using h⟩
  | cons g gs ih =>
    simp only [List.flatten_cons, ← List.append_assoc] at hp hlt ⊢
    obtain ⟨s₁, q₁, h₁⟩ := hat (p ++ g) ((List.prefix_append _ _).trans hp)
      (by simp only [List.length_append] at hlt ⊢; omega)
    obtain ⟨s', q', hf, h'⟩ := ih h₁ hp hlt
    exact ⟨s', q', by rw [feeds, h.drain, h₁.drain_self]; exact hf, h'⟩

omit [DecidableEq α] in
/-- The segment that holds the last element of a nonempty front part. -/
theorem exists_cut {whole tail : List α} (hw : whole ≠ []) {segs : List (List α)}
    (h : segs.flatten = whole ++ tail) :
    ∃ pre g post rest, segs = pre ++ g :: post ∧ pre.flatten.length < whole.length ∧
      pre.flatten ++ g = whole ++ rest ∧ tail = rest ++ post.flatten := by
  induction segs generalizing whole with
  | nil => simp [hw] at h
  | cons g gs ih =>
    rw [List.flatten_cons] at h
    rcases List.append_eq_append_iff.mp h with ⟨w, rfl, hgs⟩ | ⟨rest, rfl, hgs⟩
    · rcases eq_or_ne w [] with rfl | hne
      · exact ⟨[], g, gs, [], rfl, by simpa [List.length_pos_iff] using hw, by simp, by simpa using hgs.symm⟩
      · obtain ⟨pre, g', post, rest, rfl, hlen, hcut, ht⟩ := ih hne hgs
        exact ⟨g :: pre, g', post, rest, rfl, by simpa using hlen, by simp [hcut], ht⟩
    · exact ⟨[], whole ++ rest, gs, rest, rfl, by simpa [List.length_pos_iff] using hw, by simp, hgs⟩

/-- **Segments do not matter.**  Lines that move the machine on, and a last one that stops it, give the same result
however they are cut; what is handed out with it is the rest of the segment that holds the last element. -/
theorem feeds_whole {init : List (List α)} {last : List α} (hls : ∀ l ∈ init ++ [last], IsLine m.delim l)
    (hlim : ∀ l ∈ init ++ [last], l.length ≤ m.limit) {s₀ s₁ s' : σ} {r : ρ} (hr : runLines m s₀ init = some s₁)
    (hlast : m.line s₁ last = .stop s' r) {segs : List (List α)} {tail : List α}
    (h : segs.flatten = (init ++ [last]).flatten ++ tail) :
    ∃ pre g post rest s q, segs = pre ++ g :: post ∧ pre.flatten.length < (init ++ [last]).flatten.length ∧
      pre.flatten ++ g = (init ++ [last]).flatten ++ rest ∧ tail = rest ++ post.flatten ∧
      feeds m s₀ [] pre = some (s, q) ∧ drain m s (q ++ g) = .done s' r rest := by
  obtain ⟨c, -, hc⟩ := hls last (by simp)
  have hpos : 0 < last.length := by
    have := List.length_pos_iff.mpr m.delim_ne_nil
    rw [hc, List.length_append]
    omega
  have hm : 0 < m.limit := lt_of_lt_of_le hpos (hlim last (by simp))
  have hne : (init ++ [last]).flatten ≠ [] := List.length_pos_iff.mp (by simp; omega)
  obtain ⟨pre, g, post, rest, rfl, hlen, hcut, ht⟩ := exists_cut hne h
  have hpre : pre.flatten <+: (init ++ [last]).flatten :=
    List.prefix_of_prefix_length_le ⟨g, hcut⟩ (List.prefix_append _ _) hlen.le
  obtain ⟨s, q, hf, hat⟩ := feeds_at (fun p hp hlt => exists_at hls hlim hr hp hlt) (At.nil hm s₀)
    (by simpa using hpre) (by simpa using hlen)
  refine ⟨pre, g, post, rest, s, q, rfl, hlen, hcut, ht, hf, ?_⟩
  rw [hat.drain, List.nil_append, hcut, List.flatten_append, List.append_assoc,
    drain_lines (fun l hl => hls l (by simp [hl])) hr, List.flatten_singleton, drain_line (hls last (by simp)), hlast]

end Lib.LineMachine
