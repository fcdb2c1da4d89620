import Gts3.Http.BodyProgress
import Gts3.Lib.FileStream

/-!
# `gts/http/request.cpp`: `save_file` and `save_file_part`

A body goes into a file from an offset on, as a whole or up to a number of bytes.  What the calls of `read_body` give
one after the other is `Reads`, and what the loop makes of it is `saveLoop_spec`.  Opening the file truncates it, so
what stands in front of the offset is lost (`keepsFront_iff`); and the loop over a part reads on behind the number of
bytes (`savesPart_iff`).
-/

namespace Gts3.Http

open Lib Lib.Cxx Lib.FileStream

/-! ## The functions -/

/-- What the calls ask the file system for. -/
structure Disk where
  absolutePath : Bytes → Bytes
  /-- What the file holds, `none` when there is none. -/
  content : Bytes → Option Bytes
  /-- Whether the file can be opened for output. -/
  opens : Bytes → Bool

/-- The errors that the calls report. -/
inductive SaveError
  | invalidArgument
  | noSuchFileOrDirectory
  /-- The value of `errno`. -/
  | notOpened
  | read (e : ErrorCode)
  deriving DecidableEq, Repr

namespace Request

/-- The variables of the loop, and the bytes that `read_body` has given so far, of which the source keeps the last ones
only. -/
structure SaveLoop where
  request : Request
  buf : Buffer
  file : OutFile
  sum : ℕ
  error : Option SaveError
  given : Bytes

/-- The loop of `save_file` and, with the number of bytes that are left, of `save_file_part`. -/
def saveLoop (tcpBufSize : ℕ) : ℕ → Option ℕ → SaveLoop → Run SaveLoop
  | 0, _, _ => .error .diverge
  | fuel + 1, total, s =>
    if s.request.canReadBody then do
      let res ← s.request.readBodyInto s.buf tcpBufSize
      let s := { s with request := res.request, buf := res.buf }
      match res.error with
      | some e => .ok { s with error := some (.read e) }
      | none =>
        if res.count = 0 then .ok s
        else
          let s := { s with given := s.given ++ s.buf.front res.count }
          match total with
          | none =>
            saveLoop tcpBufSize fuel none
              { s with sum := s.sum + res.count, file := s.file.write (s.buf.front res.count) }
          | some totalSize =>
            if res.count > totalSize then .ok { s with file := s.file.write (s.buf.front totalSize) }
            else
              saveLoop tcpBufSize fuel (some (totalSize - res.count))
                { s with sum := s.sum + res.count, file := s.file.write (s.buf.front res.count) }
    else .ok s

/-- What a call leaves: the value it returns, its error, and what the file holds. -/
structure Saved where
  request : Request
  sum : ℕ
  error : Option SaveError
  content : Option Bytes
  given : Bytes

/-- `save_file` without a number of bytes and `save_file_part` with one, with a bound on the number of rounds of the
loop.  `begin` is a position that a file can have: from 2 ^ 63 on, `seekp` fails and nothing is written. -/
def save (disk : Disk) (fuel : ℕ) (r : Request) (total : Option ℕ) (fileName : Bytes) (begin' : ℕ) : Run Saved :=
  if fileName = [] then .ok ⟨r, 0, some .invalidArgument, disk.content (disk.absolutePath fileName), []⟩
  else
    let fileName := disk.absolutePath fileName
    if begin' > 0 ∧ disk.content fileName = none then
      .ok ⟨r, 0, some .noSuchFileOrDirectory, disk.content fileName, []⟩
    else if disk.opens fileName = false then .ok ⟨r, 0, some .notOpened, disk.content fileName, []⟩
    else match r.socket with
      | none => .error .nullPointer
      | some sock => do
        let s ← saveLoop sock.sendBufferSize fuel total
          ⟨r, Buffer.zeros sock.sendBufferSize, OutFile.opened.seekp begin', 0, none, []⟩
        .ok ⟨s.request, s.sum, s.error, some s.file.content, s.given⟩

/-- `save_file(file_name, error, begin)`. -/
def saveFile (disk : Disk) (fuel : ℕ) (r : Request) (fileName : Bytes) (begin' : ℕ) : Run Saved :=
  r.save disk fuel none fileName begin'

/-- `save_file_part(file_name, error, total_size, begin)`. -/
def saveFilePart (disk : Disk) (fuel : ℕ) (r : Request) (fileName : Bytes) (totalSize begin' : ℕ) : Run Saved :=
  r.save disk fuel (some totalSize) fileName begin'

/-! ## What the body gives -/

/-- One call of `read_body` gives these bytes. -/
structure Gives1 (tcp : ℕ) (r : Request) (buf : Buffer) (res : ReadBody) : Prop where
  can : r.canReadBody = true
  read : r.readBodyInto buf tcp = .ok res
  error_eq : res.error = none
  count_pos : 0 < res.count

/-- Calls of `read_body`, one after the other, give these blocks. -/
inductive Reads (tcp : ℕ) : Request → Buffer → List Bytes → Request → Buffer → Prop
  | nil (r : Request) (buf : Buffer) : Reads tcp r buf [] r buf
  | cons {r r' : Request} {buf buf' : Buffer} {res : ReadBody} {blocks : List Bytes} (h : Gives1 tcp r buf res)
    (hrest : Reads tcp res.request res.buf blocks r' buf') :
    Reads tcp r buf (res.buf.front res.count :: blocks) r' buf'

/-- There is no more to read: the body is at its end, or a call gives nothing. -/
def Ended (tcp : ℕ) (r : Request) (buf : Buffer) : Prop :=
  r.canReadBody = true → ∃ res, r.readBodyInto buf tcp = .ok res ∧ res.error = none ∧ res.count = 0

/-- The next call reports an error. -/
def Failed (tcp : ℕ) (r : Request) (buf : Buffer) : Prop :=
  ∃ res, r.readBodyInto buf tcp = .ok res ∧ res.error ≠ none

/-! ## The loop -/

/-- What is saved of the bytes that are given. -/
def savedOf (total : Option ℕ) (given : Bytes) : Bytes :=
  match total with
  | none => given
  | some totalSize => given.take totalSize

theorem savedOf_nil (total : Option ℕ) : savedOf total [] = [] := by
  cases total with
  | none => rfl
  | some totalSize => exact List.take_nil

/-- How the loop comes to its end: with an error of the next call, at the end of the body, or when as many bytes as are
to be saved have been given. -/
def Stops (tcp : ℕ) (total : Option ℕ) (r : Request) (buf : Buffer) (given : Bytes) (error : Option SaveError) : Prop :=
  (error ≠ none ∧ Failed tcp r buf) ∨
    (error = none ∧ (Ended tcp r buf ∨ ∃ totalSize, total = some totalSize ∧ totalSize ≤ given.length))

/-- What the loop makes of the bytes it is given: they are written as far as they are to be saved, and counted as long
as they do not exceed what is left. -/
structure LoopResult (total : Option ℕ) (s s' : SaveLoop) (given : Bytes) : Prop where
  given_eq : s'.given = s.given ++ given
  holds : ∀ start data, s.file.Holds start data → s'.file.Holds start (data ++ savedOf total given)
  sum_eq : (∀ totalSize, total = some totalSize → given.length ≤ totalSize) → s'.sum = s.sum + given.length

theorem LoopResult.nothing {total : Option ℕ} {s s' : SaveLoop} (hgiven : s'.given = s.given) (hfile : s'.file = s.file)
    (hsum : s'.sum = s.sum) : LoopResult total s s' [] where
  given_eq := by rw [hgiven, List.append_nil]
  holds start data h := by
    rw [savedOf_nil, List.append_nil, hfile]
    exact h
  sum_eq _ := hsum

section Block

variable {total : Option ℕ} {block given : Bytes}
  (hfits : ∀ totalSize, total = some totalSize → block.length ≤ totalSize)
include hfits

theorem savedOf_append : savedOf total (block ++ given) = block ++ savedOf (total.map (· - block.length)) given := by
  cases total with
  | none => rfl
  | some totalSize =>
    rw [Option.map_some, savedOf, savedOf, List.take_append, List.take_of_length_le (hfits totalSize rfl)]

theorem LoopResult.behind {s s₁ s' : SaveLoop} (hgiven : s₁.given = s.given ++ block)
    (hfile : s₁.file = s.file.write block) (hsum : s₁.sum = s.sum + block.length)
    (h : LoopResult (total.map (· - block.length)) s₁ s' given) : LoopResult total s s' (block ++ given) where
  given_eq := by rw [h.given_eq, hgiven, List.append_assoc]
  holds start data hdata := by
    have hnext := h.holds start (data ++ block) (hfile ▸ hdata.write block)
    rw [savedOf_append hfits, ← List.append_assoc]
    exact hnext
  sum_eq hall := by
    rw [h.sum_eq, hsum, List.length_append, Nat.add_assoc]
    intro left hleft
    obtain ⟨totalSize, rfl, rfl⟩ := Option.map_eq_some_iff.mp hleft
    have hwhole := hall totalSize rfl
    rw [List.length_append] at hwhole
    omega

theorem Stops.behind {tcp : ℕ} {r : Request} {buf : Buffer} {error : Option SaveError}
    (h : Stops tcp (total.map (· - block.length)) r buf given error) :
    Stops tcp total r buf (block ++ given) error := by
  rcases h with hfailed | ⟨hnone, hended | ⟨left, hleft, hfull⟩⟩
  · exact Or.inl hfailed
  · exact Or.inr ⟨hnone, Or.inl hended⟩
  · obtain ⟨totalSize, rfl, rfl⟩ := Option.map_eq_some_iff.mp hleft
    have hroom := hfits totalSize rfl
    refine Or.inr ⟨hnone, Or.inr ⟨totalSize, rfl, ?_⟩⟩
    rw [List.length_append]
    omega

end Block

/-- **The loop**, whenever it ends. -/
theorem saveLoop_spec {tcp fuel : ℕ} {total : Option ℕ} {s s' : SaveLoop} (herror : s.error = none)
    (h : saveLoop tcp fuel total s = .ok s') :
    ∃ blocks r' buf', Reads tcp s.request s.buf blocks r' buf' ∧ LoopResult total s s' blocks.flatten ∧
      Stops tcp total r' buf' blocks.flatten s'.error := by
  induction fuel generalizing total s with
  | zero => cases h
  | succ fuel ih =>
    rw [saveLoop] at h
    by_cases hcan : s.request.canReadBody = true
    swap
    · -- the body is at its end
      rw [if_neg hcan] at h
      obtain rfl := Except.ok.inj h
      exact ⟨[], _, _, .nil _ _, .nothing rfl rfl rfl, Or.inr ⟨herror, Or.inl fun hcan' => absurd hcan' hcan⟩⟩
    rw [if_pos hcan] at h
    obtain ⟨res, hread, h⟩ := run_bind_eq_ok.mp h
    cases he : res.error with
    | some e =>
      simp only [he] at h
      obtain rfl := Except.ok.inj h
      exact ⟨[], _, _, .nil _ _, .nothing rfl rfl rfl, Or.inl ⟨nofun, res, hread, by rw [he]; nofun⟩⟩
    | none =>
      simp only [he] at h
      by_cases hcount : res.count = 0
      · rw [if_pos hcount] at h
        obtain rfl := Except.ok.inj h
        exact ⟨[], _, _, .nil _ _, .nothing rfl rfl rfl, Or.inr ⟨herror, Or.inl fun _ => ⟨res, hread, he, hcount⟩⟩⟩
      rw [if_neg hcount] at h
      have hgives : Gives1 tcp s.request s.buf res := ⟨hcan, hread, he, Nat.pos_of_ne_zero hcount⟩
      have hlen : (res.buf.front res.count).length = res.count := Buffer.length_front _ _
      -- the loop goes on with what is left
      have hgo : (∀ totalSize, total = some totalSize → (res.buf.front res.count).length ≤ totalSize) →
          saveLoop tcp fuel (total.map (· - (res.buf.front res.count).length))
            { s with
              request := res.request
              buf := res.buf
              given := s.given ++ res.buf.front res.count
              sum := s.sum + res.count
              file := s.file.write (res.buf.front res.count) } = .ok s' →
          ∃ blocks r' buf', Reads tcp s.request s.buf blocks r' buf' ∧ LoopResult total s s' blocks.flatten ∧
            Stops tcp total r' buf' blocks.flatten s'.error := by
        intro hfits hloop
        obtain ⟨blocks, r', buf', hreads, hresult, hstops⟩ := ih (by exact herror) hloop
        refine ⟨_, r', buf', .cons hgives hreads, ?_, ?_⟩
        · rw [List.flatten_cons]
          exact hresult.behind hfits rfl rfl (by rw [hlen])
        · rw [List.flatten_cons]
          exact Stops.behind hfits hstops
      rw [hlen] at hgo
      cases total with
      | none => exact hgo nofun h
      | some totalSize =>
        dsimp only at h
        split_ifs at h with hover
        · -- more than what is left: as many bytes as are left are written, and nothing is counted
          obtain rfl := Except.ok.inj h
          refine ⟨[res.buf.front res.count], _, _, .cons hgives (.nil _ _),
            ⟨?_, fun start data hdata => ?_, fun hle => ?_⟩, Or.inr ⟨herror, Or.inr ⟨totalSize, rfl, ?_⟩⟩⟩
          · rw [List.flatten_singleton]
          · rw [List.flatten_singleton, savedOf, Buffer.front_take res.buf (Nat.le_of_lt hover)]
            exact hdata.write _
          · have := hle totalSize rfl
            rw [List.flatten_singleton, hlen] at this
            omega
          · rw [List.flatten_singleton, hlen]
            exact Nat.le_of_lt hover
        · refine hgo (fun left hleft => ?_) h
          obtain rfl := Option.some.inj hleft
          exact not_lt.mp hover

/-! ## What stands in front of the offset -/

/-- The call opens the file. -/
def Opens (disk : Disk) (fileName : Bytes) : Prop :=
  fileName ≠ [] ∧ disk.opens (disk.absolutePath fileName) = true

/-- The first call of `read_body` gives bytes. -/
def Brings (r : Request) : Prop :=
  ∃ sock res, r.socket = some sock ∧ Gives1 sock.sendBufferSize r (Buffer.zeros sock.sendBufferSize) res

/-- **The front is kept**: the first bytes of the file are as they were, and the saved bytes stand behind them. -/
def KeepsFront (total : Option ℕ) (old : Bytes) (begin' : ℕ) (res : Saved) : Prop :=
  ∃ content, res.content = some content ∧ content.take begin' = old.take begin' ∧
    savedOf total res.given <+: content.drop begin'

/-- The call comes to the loop. -/
def Starts (disk : Disk) (fileName : Bytes) (begin' : ℕ) : Prop :=
  Opens disk fileName ∧ (0 < begin' → disk.content (disk.absolutePath fileName) ≠ none)

/-- **A call** leaves the file alone and reports an error, or runs the loop. -/
theorem save_cases (disk : Disk) (fuel : ℕ) (r : Request) (total : Option ℕ) (fileName : Bytes) (begin' : ℕ) :
    (¬ Starts disk fileName begin' ∧ ∃ error, r.save disk fuel total fileName begin' =
        .ok ⟨r, 0, some error, disk.content (disk.absolutePath fileName), []⟩) ∨
      (Starts disk fileName begin' ∧ r.save disk fuel total fileName begin' =
        match r.socket with
        | none => .error .nullPointer
        | some sock =>
          saveLoop sock.sendBufferSize fuel total
              ⟨r, Buffer.zeros sock.sendBufferSize, OutFile.opened.seekp begin', 0, none, []⟩ >>=
            fun s => .ok ⟨s.request, s.sum, s.error, some s.file.content, s.given⟩) := by
  unfold save
  by_cases hname : fileName = []
  · rw [if_pos hname]
    exact Or.inl ⟨fun h => h.1.1 hname, _, rfl⟩
  rw [if_neg hname]
  dsimp only
  by_cases hmissing : begin' > 0 ∧ disk.content (disk.absolutePath fileName) = none
  · rw [if_pos hmissing]
    exact Or.inl ⟨fun h => h.2 hmissing.1 hmissing.2, _, rfl⟩
  rw [if_neg hmissing]
  by_cases hopens : disk.opens (disk.absolutePath fileName) = false
  · rw [if_pos hopens]
    refine Or.inl ⟨fun h => ?_, _, rfl⟩
    rw [h.1.2] at hopens
    cases hopens
  rw [if_neg hopens]
  exact Or.inr ⟨⟨⟨hname, by simpa using hopens⟩, fun hpos hnone => hmissing ⟨hpos, hnone⟩⟩, rfl⟩

theorem save_loop {disk : Disk} {fuel : ℕ} {r : Request} {total : Option ℕ} {fileName : Bytes} {begin' : ℕ}
    {res : Saved} (hstarts : Starts disk fileName begin') (h : r.save disk fuel total fileName begin' = .ok res) :
    ∃ sock s, r.socket = some sock ∧
      saveLoop sock.sendBufferSize fuel total
        ⟨r, Buffer.zeros sock.sendBufferSize, OutFile.opened.seekp begin', 0, none, []⟩ = .ok s ∧
      res = ⟨s.request, s.sum, s.error, some s.file.content, s.given⟩ := by
  rcases save_cases disk fuel r total fileName begin' with ⟨hnot, -⟩ | ⟨-, hsave⟩
  · exact absurd hstarts hnot
  rw [hsave] at h
  cases hs : r.socket with
  | none => simp [hs] at h
  | some sock =>
    simp only [hs] at h
    obtain ⟨s, hloop, h⟩ := run_bind_eq_ok.mp h
    exact ⟨sock, s, rfl, hloop, (Except.ok.inj h).symm⟩

theorem savedOf_ne_nil_iff {tcp : ℕ} {total : Option ℕ} {r r' : Request} {buf buf' : Buffer} {blocks : List Bytes}
    {error : Option SaveError} (hreads : Reads tcp r buf blocks r' buf')
    (hstops : Stops tcp total r' buf' blocks.flatten error) :
    savedOf total blocks.flatten ≠ [] ↔ (∃ res, Gives1 tcp r buf res) ∧ total ≠ some 0 := by
  cases hreads with
  | nil =>
    refine iff_of_false (fun hne => hne (savedOf_nil total)) ?_
    rintro ⟨⟨res, hgives⟩, htotal⟩
    rcases hstops with ⟨-, res', hread, herror⟩ | ⟨-, hended | ⟨totalSize, rfl, hle⟩⟩
    · obtain rfl := Except.ok.inj (hread.symm.trans hgives.read)
      exact herror hgives.error_eq
    · obtain ⟨res', hread, -, hzero⟩ := hended hgives.can
      obtain rfl := Except.ok.inj (hread.symm.trans hgives.read)
      exact hgives.count_pos.ne' hzero
    · exact htotal (congrArg some (Nat.le_zero.mp hle))
  | @cons _ _ _ _ res blocks hgives _ =>
    have hblock : res.buf.front res.count ≠ [] := by
      rw [← List.length_pos_iff, Buffer.length_front]
      exact hgives.count_pos
    cases total with
    | none => simpa [savedOf, hblock] using ⟨res, hgives⟩
    | some totalSize => simpa [savedOf, List.take_eq_nil_iff, hblock] using fun _ => ⟨res, hgives⟩

/-- **The front of the file**, for one call. -/
theorem save_keepsFront_iff {disk : Disk} {fuel : ℕ} {r : Request} {total : Option ℕ} {fileName old : Bytes}
    {begin' : ℕ}
    (hold : disk.content (disk.absolutePath fileName) = some old) (hpos : 0 < begin') (hwithin : begin' ≤ old.length)
    {res : Saved} (h : r.save disk fuel total fileName begin' = .ok res) :
    KeepsFront total old begin' res ↔
      (Opens disk fileName → old.take begin' = List.replicate begin' 0 ∧ Brings r ∧ total ≠ some 0) := by
  have hthere : disk.content (disk.absolutePath fileName) ≠ none := by
    rw [hold]
    nofun
  rcases save_cases disk fuel r total fileName begin' with ⟨hnot, error, hsave⟩ | ⟨hstarts, -⟩
  · obtain rfl := Except.ok.inj (hsave.symm.trans h)
    refine iff_of_true ⟨old, hold, rfl, ?_⟩ fun hopens => absurd ⟨hopens, fun _ => hthere⟩ hnot
    rw [savedOf_nil]
    exact List.nil_prefix
  · obtain ⟨sock, s, hs, hloop, rfl⟩ := save_loop hstarts h
    obtain ⟨blocks, r', buf', hreads, hresult, hstops⟩ := saveLoop_spec rfl hloop
    have hholds : s.file.Holds begin' (savedOf total blocks.flatten) :=
      hresult.holds begin' [] (OutFile.holds_seekp begin')
    have hgiven : s.given = blocks.flatten := hresult.given_eq
    have hfront : old.take begin' ≠ [] := by
      rw [← List.length_pos_iff, List.length_take, min_eq_left hwithin]
      exact hpos
    have hbrings : Brings r ↔ ∃ res, Gives1 sock.sendBufferSize r (Buffer.zeros sock.sendBufferSize) res := by
      constructor
      · rintro ⟨sock', res, hs', hgives⟩
        obtain rfl := Option.some.inj (hs.symm.trans hs')
        exact ⟨res, hgives⟩
      · rintro ⟨res, hgives⟩
        exact ⟨sock, res, hs, hgives⟩
    rw [hbrings, ← savedOf_ne_nil_iff hreads hstops]
    constructor
    · rintro ⟨content, hcontent, htake, -⟩ -
      obtain rfl := Option.some.inj hcontent
      rw [hholds.take_eq] at htake
      split_ifs at htake with hnil
      · exact absurd htake.symm hfront
      · exact ⟨htake.symm, hnil⟩
    · intro hcond
      obtain ⟨hzeros, hsaved⟩ := hcond hstarts.1
      refine ⟨s.file.content, rfl, ?_, ?_⟩
      · rw [hholds.take_eq, if_neg hsaved, hzeros]
      · rw [hholds.drop_eq, hgiven]

/-- **The front of the file** is kept by `save_file` and `save_file_part` exactly when the file is not opened, or holds
only zeros there and something is saved behind them. -/
theorem keepsFront_iff {disk : Disk} {r : Request} {fileName old : Bytes} {begin' : ℕ}
    (hold : disk.content (disk.absolutePath fileName) = some old) (hpos : 0 < begin') (hwithin : begin' ≤ old.length) :
    (∀ fuel res, r.saveFile disk fuel fileName begin' = .ok res →
      (KeepsFront none old begin' res ↔
        (Opens disk fileName → old.take begin' = List.replicate begin' 0 ∧ Brings r))) ∧
    ∀ fuel totalSize res, r.saveFilePart disk fuel fileName totalSize begin' = .ok res →
      (KeepsFront (some totalSize) old begin' res ↔
        (Opens disk fileName → old.take begin' = List.replicate begin' 0 ∧ Brings r ∧ 0 < totalSize)) := by
  constructor
  · intro fuel res h
    rw [save_keepsFront_iff hold hpos hwithin h]
    simp
  · intro fuel totalSize res h
    rw [save_keepsFront_iff hold hpos hwithin h]
    simp [Nat.pos_iff_ne_zero]

/-- A disk with one file. -/
def oneFileDisk (content : Bytes) : Disk where
  absolutePath := id
  content name := if name = lit "/a" then some content else none
  opens _ := true

/-- A request whose body has come with the head. -/
def shortRequest (body : Bytes) : Request :=
  { new with
    method := .post
    version := lit "1.1"
    path := lit "/"
    socket := some ⟨true, 4, [], [], []⟩
    rbContext := .size body.length
    body := body }

theorem brings_shortRequest : Brings (shortRequest (lit "xy")) :=
  ⟨_, ⟨_, ⟨4, lit "xy"⟩, none, 2⟩, rfl, by decide, rfl, rfl, by decide⟩

theorem exists_saveFile_content {old content : Bytes} {begin' : ℕ}
    (h : ((shortRequest (lit "xy")).saveFile (oneFileDisk old) 2 (lit "/a") begin').map Saved.content =
      .ok (some content)) :
    ∃ res, (shortRequest (lit "xy")).saveFile (oneFileDisk old) 2 (lit "/a") begin' = .ok res ∧
      res.content = some content := by
  cases hres : (shortRequest (lit "xy")).saveFile (oneFileDisk old) 2 (lit "/a") begin' with
  | error e =>
    rw [hres] at h
    cases h
  | ok res =>
    rw [hres] at h
    exact ⟨res, rfl, Except.ok.inj h⟩

/-- Zeros in front of the offset. -/
theorem keepsFront_iff_zeros : ∃ res,
    (shortRequest (lit "xy")).saveFile (oneFileDisk [0, 0, 5]) 2 (lit "/a") 2 = .ok res ∧
      KeepsFront none [0, 0, 5] 2 res := by
  obtain ⟨res, hres, -⟩ := exists_saveFile_content
    (by decide : ((shortRequest (lit "xy")).saveFile (oneFileDisk [0, 0, 5]) 2 (lit "/a") 2).map Saved.content =
      .ok (some ([0, 0] ++ lit "xy")))
  exact ⟨res, hres, ((keepsFront_iff rfl (by decide) (by decide)).1 2 res hres).mpr fun _ => ⟨rfl, brings_shortRequest⟩⟩

/-- The first byte of a file is lost. -/
theorem not_keepsFront_letter : ∃ res,
    (shortRequest (lit "xy")).saveFile (oneFileDisk (lit "abc")) 2 (lit "/a") 1 = .ok res ∧
      ¬ KeepsFront none (lit "abc") 1 res := by
  obtain ⟨res, hres, hcontent⟩ := exists_saveFile_content
    (by decide : ((shortRequest (lit "xy")).saveFile (oneFileDisk (lit "abc")) 2 (lit "/a") 1).map Saved.content =
      .ok (some ([0] ++ lit "xy")))
  refine ⟨res, hres, ?_⟩
  rintro ⟨content, heq, htake, -⟩
  obtain rfl := Option.some.inj (hcontent.symm.trans heq)
  exact absurd htake (by decide)

/-! ## A part of a body -/

/-- **A part is saved**: the call comes to an end or waits for the peer, and without an error it has written the first
bytes of the body, as many as were asked for or are available, returns their number, and has taken no others. -/
structure SavesPart (disk : Disk) (r : Request) (fileName : Bytes) (totalSize begin' : ℕ) : Prop where
  returns : ∃ n, ∀ fuel, n ≤ fuel → r.saveFilePart disk fuel fileName totalSize begin' ≠ .error .diverge
  exact : ∀ fuel res, r.saveFilePart disk fuel fileName totalSize begin' = .ok res → res.error = none →
    ∃ sock blocks r' buf' content, r.socket = some sock ∧
      Reads sock.sendBufferSize r (Buffer.zeros sock.sendBufferSize) blocks r' buf' ∧
      (Ended sock.sendBufferSize r' buf' ∨ totalSize ≤ blocks.flatten.length) ∧
      res.content = some content ∧ content.drop begin' = blocks.flatten.take totalSize ∧
      res.sum = min totalSize blocks.flatten.length ∧ res.given = blocks.flatten.take totalSize

/-- The body gives no more than this number of bytes. -/
def AtMost (r : Request) (totalSize : ℕ) : Prop :=
  ∀ sock blocks r' buf', r.socket = some sock →
    Reads sock.sendBufferSize r (Buffer.zeros sock.sendBufferSize) blocks r' buf' → blocks.flatten.length ≤ totalSize

theorem saveLoop_ne_diverge {tcp fuel : ℕ} {total : Option ℕ} {s : SaveLoop} (hfuel : s.request.unread < fuel) :
    saveLoop tcp fuel total s ≠ .error .diverge := by
  induction fuel generalizing total s with
  | zero => omega
  | succ fuel ih =>
    rw [saveLoop]
    split
    swap
    · nofun
    refine run_bind_ne (readBodyInto_ne_diverge _ _ _) fun res hread => ?_
    dsimp only
    split
    · nofun
    by_cases hcount : res.count = 0
    · rw [if_pos hcount]
      nofun
    rw [if_neg hcount]
    have hless : res.request.unread < fuel := by
      have := readBodyInto_unread hread (Nat.pos_of_ne_zero hcount)
      omega
    split
    · exact ih hless
    · split
      · nofun
      · exact ih hless

/-- **A body with more bytes** is read on behind them. -/
theorem saveLoop_exceeds {tcp : ℕ} {r r' : Request} {buf buf' : Buffer} {blocks : List Bytes}
    (hreads : Reads tcp r buf blocks r' buf') {totalSize : ℕ} (hmore : totalSize < blocks.flatten.length) {s : SaveLoop}
    (hr : s.request = r) (hbuf : s.buf = buf) :
    ∃ fuel s', saveLoop tcp fuel (some totalSize) s = .ok s' ∧ s'.error = s.error ∧
      s.given.length + totalSize < s'.given.length := by
  induction hreads generalizing totalSize s with
  | nil => simp at hmore
  | @cons r r' buf buf' res blocks hgives _ ih =>
    subst hr hbuf
    have hcount : res.count ≠ 0 := hgives.count_pos.ne'
    have hlen : (res.buf.front res.count).length = res.count := Buffer.length_front _ _
    by_cases hover : res.count > totalSize
    · refine ⟨1, { s with
        request := res.request
        buf := res.buf
        given := s.given ++ res.buf.front res.count
        file := s.file.write (res.buf.front totalSize) }, ?_, rfl, ?_⟩
      · simp only [saveLoop, hgives.can, hgives.read, hgives.error_eq, if_true, ok_bind, if_neg hcount, if_pos hover]
      · simp only [List.length_append, hlen]
        omega
    · rw [List.flatten_cons, List.length_append, hlen] at hmore
      obtain ⟨fuel, s', hloop, herror, hgiven⟩ := ih (by omega : totalSize - res.count < blocks.flatten.length)
        (s := { s with
          request := res.request
          buf := res.buf
          given := s.given ++ res.buf.front res.count
          sum := s.sum + res.count
          file := s.file.write (res.buf.front res.count) }) rfl rfl
      refine ⟨fuel + 1, s', ?_, herror, ?_⟩
      · simp only [saveLoop, hgives.can, hgives.read, hgives.error_eq, if_true, ok_bind, if_neg hcount, if_neg hover]
        exact hloop
      · simp only [List.length_append, hlen] at hgiven
        omega

/-- **A part of a body** is saved as asked exactly when the body has no more bytes, or the file is not opened. -/
theorem savesPart_iff (disk : Disk) (r : Request) (fileName : Bytes) (totalSize begin' : ℕ) :
    SavesPart disk r fileName totalSize begin' ↔ (Starts disk fileName begin' → AtMost r totalSize) := by
  constructor
  · intro h hstarts sock blocks r' buf' hs hreads
    by_contra hmore
    obtain ⟨fuel, s', hloop, herror, hgiven⟩ := saveLoop_exceeds hreads (not_le.mp hmore)
      (s := ⟨r, Buffer.zeros sock.sendBufferSize, OutFile.opened.seekp begin', 0, none, []⟩) rfl rfl
    have hsave : r.saveFilePart disk fuel fileName totalSize begin' =
        .ok ⟨s'.request, s'.sum, s'.error, some s'.file.content, s'.given⟩ := by
      rcases save_cases disk fuel r (some totalSize) fileName begin' with ⟨hnot, -⟩ | ⟨-, hsave⟩
      · exact absurd hstarts hnot
      · rw [saveFilePart, hsave]
        simp only [hs, hloop, ok_bind]
    obtain ⟨_, blocks', _, _, _, -, -, -, -, -, -, hgiven'⟩ := h.exact fuel _ hsave herror
    have hlen := congrArg List.length hgiven'
    rw [List.length_take] at hlen
    simp only [List.length_nil] at hgiven hlen
    omega
  · intro hatMost
    constructor
    · refine ⟨r.unread + 1, fun fuel hfuel => ?_⟩
      rcases save_cases disk fuel r (some totalSize) fileName begin' with ⟨-, error, hsave⟩ | ⟨-, hsave⟩
      · rw [saveFilePart, hsave]
        nofun
      · rw [saveFilePart, hsave]
        split
        · nofun
        · exact run_bind_ne (saveLoop_ne_diverge (Nat.lt_of_succ_le hfuel)) fun s _ => nofun
    · intro fuel res h hnone
      have hstarts : Starts disk fileName begin' := by
        rcases save_cases disk fuel r (some totalSize) fileName begin' with ⟨-, error, hsave⟩ | ⟨hstarts, -⟩
        · obtain rfl := Except.ok.inj (hsave.symm.trans h)
          cases hnone
        · exact hstarts
      obtain ⟨sock, s, hs, hloop, rfl⟩ := save_loop hstarts h
      obtain ⟨blocks, r', buf', hreads, hresult, hstops⟩ := saveLoop_spec rfl hloop
      have hle := hatMost hstarts sock blocks r' buf' hs hreads
      have hholds := hresult.holds begin' [] (OutFile.holds_seekp begin')
      refine ⟨sock, blocks, r', buf', s.file.content, hs, hreads, ?_, rfl, hholds.drop_eq, ?_, ?_⟩
      · rcases hstops with ⟨herror, -⟩ | ⟨-, hended | ⟨_, hsome, hfull⟩⟩
        · exact absurd hnone herror
        · exact Or.inl hended
        · obtain rfl := Option.some.inj hsome
          exact Or.inr hfull
      · rw [hresult.sum_eq (by rintro _ ⟨⟩; exact hle), min_eq_right hle, Nat.zero_add]
      · rw [List.take_of_length_le hle]
        exact hresult.given_eq

theorem atMost_shortRequest : AtMost (shortRequest (lit "xy")) 2 := by
  intro sock blocks r' buf' hs hreads
  obtain rfl := Option.some.inj hs
  cases hreads with
  | nil => exact Nat.zero_le 2
  | cons hgives hrest =>
    obtain ⟨res, hres, hfinished, hcount⟩ : ∃ res, (shortRequest (lit "xy")).readBodyInto (Buffer.zeros 4) 4 = .ok res ∧
        res.request.rbStatus = .finished ∧ res.count = 2 := ⟨_, rfl, rfl, rfl⟩
    obtain rfl := Except.ok.inj (hres.symm.trans hgives.read)
    cases hrest with
    | nil =>
      rw [List.flatten_singleton, Buffer.length_front, hcount]
    | cons hgives' _ =>
      have hcan := hgives'.can
      simp [canReadBody, hfinished] at hcan

/-- As many bytes as the body has. -/
theorem savesPart_iff_all : SavesPart (oneFileDisk []) (shortRequest (lit "xy")) (lit "/a") 2 0 :=
  (savesPart_iff _ _ _ _ _).mpr fun _ => atMost_shortRequest

/-- One byte of two: it is written, 0 is returned, and both are gone. -/
theorem not_savesPart_one : ¬ SavesPart (oneFileDisk []) (shortRequest (lit "xy")) (lit "/a") 1 0 := by
  intro h
  obtain ⟨res, hres, hnone, hgiven, hsum⟩ : ∃ res,
      (shortRequest (lit "xy")).saveFilePart (oneFileDisk []) 2 (lit "/a") 1 0 = .ok res ∧ res.error = none ∧
        res.given = lit "xy" ∧ res.sum = 0 := ⟨_, rfl, rfl, rfl, rfl⟩
  obtain ⟨_, blocks, _, _, _, -, -, -, -, -, -, hgiven'⟩ := h.exact 2 res hres hnone
  have hlen := congrArg List.length (hgiven.symm.trans hgiven')
  rw [List.length_take] at hlen
  have htwo : (lit "xy").length = 2 := rfl
  omega

end Request

end Gts3.Http
