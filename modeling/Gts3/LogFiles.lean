import Gts3.Lib.DropUntil
import Mathlib.Data.List.Sort
import Mathlib.Data.Nat.ModEq

/-!
# `gts/log.cpp`: log files and their limits

Before an entry is written `size_check` lists the log files, oldest first, and `remove_if_too_big` removes files from
the front until the rest and the entry fit the limit.  It counts in `size_t`, of `bits` bits, while `file_size` counts
in `uintmax_t`: what it keeps is the longest end of the list that fits when counted so (`removeIfTooBig_spec`).  That is
the shortest removal exactly when counting so hides nothing (`removeIfTooBig_shortest_iff`).  `size_check` reaches
nothing but the entries of the directory and of the directories in it (`sizeCheck_shrinks`).
-/

namespace Gts3.LogFiles

open Lib.DropUntil

variable {P : Type} {bits : ℕ}

/-! ## The sizes -/

/-- The total of the sizes, however large it is. -/
def total (sizes : P → ℕ) (list : List P) : ℕ := (list.map sizes).sum

/-- The files and the entry fit the limit. -/
def fits (sizes : P → ℕ) (maxSize logSize : BitVec bits) (list : List P) : Bool :=
  total sizes list + logSize.toNat ≤ maxSize.toNat

/-- They do when counted in `size_t`. -/
def wrappedFits (sizes : P → ℕ) (maxSize logSize : BitVec bits) (list : List P) : Bool :=
  BitVec.ofNat bits (total sizes list) + logSize ≤ maxSize

variable {sizes : P → ℕ} {path : P} {list rest : List P} {maxSize logSize : BitVec bits}

@[simp] theorem total_nil : total sizes [] = 0 := rfl

@[simp] theorem total_cons : total sizes (path :: list) = sizes path + total sizes list := List.sum_cons

theorem total_suffix (h : rest <:+ list) : total sizes rest ≤ total sizes list := by
  obtain ⟨front, rfl⟩ := h
  rw [total, total, List.map_append, List.sum_append]
  exact Nat.le_add_left _ _

theorem fits_iff : fits sizes maxSize logSize list = true ↔ total sizes list + logSize.toNat ≤ maxSize.toNat :=
  decide_eq_true_iff

theorem wrappedFits_iff : wrappedFits sizes maxSize logSize list = true ↔
    (total sizes list + logSize.toNat) % 2 ^ bits ≤ maxSize.toNat := by
  rw [wrappedFits, decide_eq_true_iff, BitVec.le_def, BitVec.toNat_add, BitVec.toNat_ofNat, Nat.mod_add_mod]

theorem wrappedFits_of_fits (h : fits sizes maxSize logSize list = true) :
    wrappedFits sizes maxSize logSize list = true := by
  have hle := fits_iff.mp h
  rw [wrappedFits_iff, Nat.mod_eq_of_lt (hle.trans_lt maxSize.isLt)]
  exact hle

theorem fits_suffix (hrest : rest <:+ list) (h : fits sizes maxSize logSize list = true) :
    fits sizes maxSize logSize rest = true :=
  fits_iff.mpr ((Nat.add_le_add_right (total_suffix hrest) _).trans (fits_iff.mp h))

/-- Counting in `size_t` hides nothing: what does not fit it is above the limit all the same. -/
theorem fits_of_wrappedFits_iff :
    (∀ rest, rest <:+ list → rest ≠ [] → wrappedFits sizes maxSize logSize rest = true →
      fits sizes maxSize logSize rest = true) ↔
    ∀ rest, rest <:+ list → 2 ^ bits ≤ total sizes rest + logSize.toNat →
      maxSize.toNat < (total sizes rest + logSize.toNat) % 2 ^ bits := by
  have hmax := maxSize.isLt
  have hlog := logSize.isLt
  constructor
  · intro h rest hrest hover
    by_contra hle
    have hne : rest ≠ [] := by
      rintro rfl
      rw [total_nil] at hover
      omega
    have := fits_iff.mp (h rest hrest hne (wrappedFits_iff.mpr (Nat.not_lt.mp hle)))
    omega
  · intro h rest hrest _ hwrapped
    rw [wrappedFits_iff] at hwrapped
    rcases Nat.lt_or_ge (total sizes rest + logSize.toNat) (2 ^ bits) with hlt | hge
    · rwa [Nat.mod_eq_of_lt hlt, ← fits_iff] at hwrapped
    · exact absurd (h rest hrest hge) (Nat.not_lt.mpr hwrapped)

/-! ## Files and directories -/

variable [DecidableEq P]

inductive Kind where
  | file (size : ℕ)
  | directory
  deriving DecidableEq, Repr

def Kind.size : Kind → Option ℕ
  | .file size => some size
  | .directory => none

structure Node (P : Type) where
  path : P
  /-- The directory that lists it. -/
  parent : Option P
  kind : Kind
  ctime : ℤ
  deriving DecidableEq, Repr

/-- The file system, in the order in which directories list their entries. -/
structure Disk (P : Type) where
  nodes : List (Node P)
  nodup : (nodes.map Node.path).Nodup

namespace Disk

def find (disk : Disk P) (path : P) : Option (Node P) := disk.nodes.find? fun node => node.path = path

/-- `fs::is_directory`. -/
def isDirectory (disk : Disk P) (path : P) : Bool := (disk.find path).any fun node => node.kind = .directory

/-- `fs::file_size`, which throws when there is no such file. -/
def fileSize (disk : Disk P) (path : P) : Option ℕ := (disk.find path).bind fun node => node.kind.size

/-- `fs::create_time`: the zeroed buffer when `stat` fails. -/
def createTime (disk : Disk P) (path : P) : ℤ := ((disk.find path).map Node.ctime).getD 0

/-- `fs::directory_iterator`, which throws when there is no such directory. -/
def entries (disk : Disk P) (dir : P) : Option (List P) :=
  if disk.isDirectory dir then some ((disk.nodes.filter fun node => node.parent = some dir).map Node.path) else none

def erase (disk : Disk P) (path : P) : Disk P where
  nodes := disk.nodes.filter fun node => node.path ≠ path
  nodup := disk.nodup.sublist (List.filter_sublist.map Node.path)

/-- `fs::remove`, which throws for a directory with entries. -/
def remove (disk : Disk P) (path : P) : Option (Disk P) :=
  match disk.find path with
  | none => some disk
  | some node =>
    match node.kind with
    | .file _ => some (disk.erase path)
    | .directory => if disk.entries path = some [] then some (disk.erase path) else none

end Disk

/-! ## The functions -/

/-- The order of `list.sort`: of two entries of one age the earlier one stays in front. -/
def NotYounger (disk : Disk P) (path path' : P) : Prop := disk.createTime path ≤ disk.createTime path'

instance (disk : Disk P) : DecidableRel (NotYounger disk) := fun path path' =>
  inferInstanceAs (Decidable (disk.createTime path ≤ disk.createTime path'))

/-- `list_push_back`. -/
def listPushBack (disk : Disk P) (list : List P) (dir : P) : List P :=
  match disk.entries dir with
  | none => list
  | some entries => (list ++ entries.filter fun path => !disk.isDirectory path).insertionSort (NotYounger disk)

/-- What `remove_if_too_big` leaves: the files, its running total, what it removed, and if the total ever went below
zero. -/
structure Removal (P : Type) (bits : ℕ) where
  disk : Disk P
  size : BitVec bits
  removed : List P
  underflow : Bool

/-- The first loop of `remove_if_too_big`. -/
def sizeLoop (disk : Disk P) : BitVec bits → List P → Option (BitVec bits)
  | size, [] => some size
  | size, path :: list => do
    let fileSize ← disk.fileSize path
    sizeLoop disk (size + BitVec.ofNat bits fileSize) list

/-- The second loop of `remove_if_too_big`. -/
def removeLoop (maxSize logSize : BitVec bits) : Disk P → BitVec bits → List P → Option (Removal P bits)
  | disk, size, [] => some ⟨disk, size, [], false⟩
  | disk, size, path :: list => do
    let fileSize ← disk.fileSize path
    let disk ← disk.remove path
    let left := size - BitVec.ofNat bits fileSize
    let rest ←
      if left + logSize ≤ maxSize then some ⟨disk, left, [], false⟩ else removeLoop maxSize logSize disk left list
    some { rest with
      removed := path :: rest.removed, underflow := decide (size.toNat < fileSize) || rest.underflow }

/-- `remove_if_too_big`; `none` when an exception leaves it. -/
def removeIfTooBig (disk : Disk P) (list : List P) (maxSize logSize : BitVec bits) : Option (Removal P bits) := do
  let size ← sizeLoop disk (BitVec.ofNat bits 0) list
  if size + logSize ≤ maxSize then some ⟨disk, size, [], false⟩ else removeLoop maxSize logSize disk size list

/-- The last loop of `size_check`: `remove_all` of the directories that are empty, until one is not. -/
def removeEmpty (disk : Disk P) : List P → Disk P
  | [] => disk
  | dir :: dirs =>
    if disk.isDirectory dir then
      match disk.entries dir with
      | none => removeEmpty disk dirs
      | some [] => removeEmpty (disk.erase dir) dirs
      | some (_ :: _) => disk
    else removeEmpty disk dirs

/-- The limits of the `context` that `size_check` reads. -/
structure Context (bits : ℕ) where
  maxSizeOneDay : BitVec bits
  maxSize : BitVec bits

/-- `size_check`. -/
def sizeCheck (disk : Disk P) (context : Context bits) (dirName : P) (logSize : BitVec bits) : Option (Disk P) := do
  let day ← removeIfTooBig disk (listPushBack disk [] dirName) context.maxSizeOneDay logSize
  match day.disk.entries dirName with
  | none => some day.disk
  | some entries =>
    let dirs := (entries.filter day.disk.isDirectory).insertionSort (NotYounger day.disk)
    let all ← removeIfTooBig day.disk (dirs.foldl (listPushBack day.disk) []) context.maxSize logSize
    if dirs.length = 1 then some all.disk else some (removeEmpty all.disk dirs)

/-- The size of a file, and of anything else none. -/
def Disk.fileSizes (disk : Disk P) (path : P) : ℕ := (disk.fileSize path).getD 0

/-- Log files in the order of their age. -/
structure AgeOrdered (disk : Disk P) (list : List P) : Prop where
  nodup : list.Nodup
  file : ∀ path ∈ list, (disk.fileSize path).isSome
  sorted : list.Pairwise (NotYounger disk)

/-! ## One file -/

variable {disk : Disk P} {path' : P}

theorem Disk.find_erase (h : path ≠ path') : (disk.erase path').find path = disk.find path := by
  rw [find, find, erase, List.find?_filter]
  congr 1
  funext node
  by_cases hnode : node.path = path <;> simp [hnode, h]

theorem Disk.fileSize_erase (h : path ≠ path') : (disk.erase path').fileSize path = disk.fileSize path := by
  rw [fileSize, fileSize, find_erase h]

theorem Disk.remove_file {size : ℕ} (h : disk.fileSize path = some size) :
    disk.remove path = some (disk.erase path) := by
  obtain ⟨node, hnode, hsize⟩ := Option.bind_eq_some_iff.mp h
  simp only [remove, hnode]
  cases hkind : node.kind with
  | file size => rfl
  | directory =>
    rw [hkind] at hsize
    cases hsize

/-! ## The loops -/

theorem sizeLoop_eq {size : BitVec bits} (hfile : ∀ path ∈ list, disk.fileSize path = some (sizes path)) :
    sizeLoop disk size list = some (size + BitVec.ofNat bits (total sizes list)) := by
  induction list generalizing size with
  | nil => rw [sizeLoop, total_nil, BitVec.add_zero]
  | cons path list ih =>
    rw [List.forall_mem_cons] at hfile
    rw [sizeLoop, hfile.1, Option.bind_eq_bind, Option.bind_some, ih hfile.2, total_cons, BitVec.ofNat_add,
      BitVec.add_assoc]

/-- `r` is what removing the files in front of `kept` leaves. -/
structure Removes (sizes : P → ℕ) (disk : Disk P) (list kept : List P) (r : Removal P bits) : Prop where
  front : r.removed ++ kept = list
  gone : r.disk.nodes = disk.nodes.filter fun node => node.path ∉ r.removed
  size : r.size = BitVec.ofNat bits (total sizes kept)
  /-- Without an underflow the total went down by the sizes of the removed files. -/
  balance : r.underflow = false → r.size.toNat + total sizes r.removed = total sizes list % 2 ^ bits
  noUnderflow : total sizes list < 2 ^ bits → r.underflow = false

theorem Removes.nil : Removes sizes disk list list ⟨disk, BitVec.ofNat bits (total sizes list), [], false⟩ where
  front := rfl
  gone := (List.filter_eq_self.mpr fun _ _ => decide_eq_true List.not_mem_nil).symm
  size := rfl
  balance _ := BitVec.toNat_ofNat _ _
  noUnderflow _ := rfl

/-- A total taken modulo `m` that a part of it does not exceed goes down by that part. -/
theorem mod_eq_of_le {s t m : ℕ} (h : s ≤ (s + t) % m) : (s + t) % m = s + t % m := by
  obtain ⟨x, hx⟩ := Nat.exists_eq_add_of_le h
  rcases Nat.eq_zero_or_pos m with rfl | hm
  · rw [Nat.mod_zero, Nat.mod_zero]
  · have hlt : s + x < m := hx ▸ Nat.mod_lt _ hm
    have hmod : s + x ≡ s + t [MOD m] := by rw [Nat.ModEq, ← hx, Nat.mod_mod]
    rw [hx, ← Nat.ModEq.add_left_cancel' s hmod, Nat.mod_eq_of_lt (by omega)]

/-- One pass of the second loop. -/
theorem Removes.cons {r : Removal P bits} {kept : List P} {size : BitVec bits}
    (hsize : size = BitVec.ofNat bits (total sizes (path :: list)))
    (h : Removes sizes (disk.erase path) list kept r) :
    Removes sizes disk (path :: list) kept { r with
      removed := path :: r.removed, underflow := decide (size.toNat < sizes path) || r.underflow } where
  front := by rw [List.cons_append, h.front]
  gone := by
    rw [h.gone, Disk.erase, List.filter_filter]
    congr 1
    funext node
    simp [Bool.and_comm]
  size := h.size
  balance hunder := by
    obtain ⟨hlt, hrest⟩ := Bool.or_eq_false_iff.mp hunder
    have hle : sizes path ≤ (sizes path + total sizes list) % 2 ^ bits := by
      rw [← total_cons, ← BitVec.toNat_ofNat, ← hsize]
      exact Nat.not_lt.mp (of_decide_eq_false hlt)
    have hbalance := h.balance hrest
    rw [total_cons, total_cons, mod_eq_of_le hle]
    change r.size.toNat + _ = _
    omega
  noUnderflow hlt := by
    rw [total_cons] at hlt
    rw [h.noUnderflow (by omega), Bool.or_false, hsize, total_cons, BitVec.toNat_ofNat, Nat.mod_eq_of_lt hlt]
    exact decide_eq_false (by omega)

/-- The second loop removes the first file in any case, and then goes on until the rest and the entry fit. -/
theorem removeLoop_spec (hnodup : list.Nodup) (hfile : ∀ path ∈ list, disk.fileSize path = some (sizes path)) :
    ∃ r, removeLoop maxSize logSize disk (BitVec.ofNat bits (total sizes list)) list = some r ∧
      Removes sizes disk list (dropUntil (wrappedFits sizes maxSize logSize) list.tail) r := by
  induction list generalizing disk with
  | nil => exact ⟨_, rfl, Removes.nil⟩
  | cons path list ih =>
    obtain ⟨hnotMem, hnodup⟩ := List.nodup_cons.mp hnodup
    obtain ⟨hpath, hlist⟩ := List.forall_mem_cons.mp hfile
    have hleft : BitVec.ofNat bits (total sizes (path :: list)) - BitVec.ofNat bits (sizes path) =
        BitVec.ofNat bits (total sizes list) := by
      rw [total_cons, BitVec.ofNat_add, BitVec.add_comm, BitVec.add_sub_cancel]
    have herase : ∀ p ∈ list, (disk.erase path).fileSize p = some (sizes p) := fun p hp =>
      (Disk.fileSize_erase (ne_of_mem_of_not_mem hp hnotMem)).trans (hlist p hp)
    simp only [removeLoop, hpath, Disk.remove_file hpath, Option.bind_eq_bind, Option.bind_some, hleft, List.tail_cons]
    cases hfits : wrappedFits sizes maxSize logSize list with
    | true =>
      rw [if_pos (of_decide_eq_true hfits), dropUntil_of_good hfits]
      exact ⟨_, rfl, Removes.nil.cons rfl⟩
    | false =>
      obtain ⟨r, hr, hremoves⟩ := ih hnodup herase
      rw [if_neg (of_decide_eq_false hfits), dropUntil_of_not_good hfits, hr]
      exact ⟨_, rfl, hremoves.cons rfl⟩

theorem AgeOrdered.fileSize (h : AgeOrdered disk list) :
    ∀ path ∈ list, disk.fileSize path = some (disk.fileSizes path) := by
  intro path hpath
  obtain ⟨size, hsize⟩ := Option.isSome_iff_exists.mp (h.file path hpath)
  rw [Disk.fileSizes, hsize, Option.getD_some]

/-- **What `remove_if_too_big` keeps** is the longest end of the list that fits when counted in `size_t`. -/
theorem removeIfTooBig_spec (h : AgeOrdered disk list) (maxSize logSize : BitVec bits) :
    ∃ r, removeIfTooBig disk list maxSize logSize = some r ∧
      Removes disk.fileSizes disk list (dropUntil (wrappedFits disk.fileSizes maxSize logSize) list) r := by
  rw [removeIfTooBig, sizeLoop_eq h.fileSize, Option.bind_eq_bind, Option.bind_some, BitVec.zero_add]
  cases hfits : wrappedFits disk.fileSizes maxSize logSize list with
  | true =>
    rw [if_pos (of_decide_eq_true hfits), dropUntil_of_good hfits]
    exact ⟨_, rfl, Removes.nil⟩
  | false =>
    rw [if_neg (of_decide_eq_false hfits), dropUntil_of_not_good hfits]
    exact removeLoop_spec h.nodup h.fileSize

/-! ## The shortest removal -/

/-- What `remove_if_too_big` does not remove. -/
def Removal.kept (r : Removal P bits) (list : List P) : List P := list.drop r.removed.length

/-- `r` is what removing the shortest front of the list leaves after which the rest and the entry fit the limit. -/
structure RemovesShortest (disk : Disk P) (list : List P) (maxSize logSize : BitVec bits) (r : Removal P bits) :
    Prop where
  front : r.removed ++ r.kept list = list
  gone : r.disk.nodes = disk.nodes.filter fun node => node.path ∉ r.removed
  oldest : ∀ path ∈ r.removed, ∀ path' ∈ r.kept list, NotYounger disk path path'
  fits : total disk.fileSizes (r.kept list) + logSize.toNat ≤ maxSize.toNat ∨ r.kept list = []
  shortest : ∀ rest, rest <:+ list → (r.kept list).length < rest.length →
    maxSize.toNat < total disk.fileSizes rest + logSize.toNat
  all : (∀ rest, rest <:+ list → rest ≠ [] → maxSize.toNat < total disk.fileSizes rest + logSize.toNat) →
    r.removed = list
  nothing : total disk.fileSizes list + logSize.toNat ≤ maxSize.toNat → r.removed = []
  noUnderflow : r.underflow = false

theorem Removes.kept_eq {r : Removal P bits} (h : Removes sizes disk list kept r) : r.kept list = kept := by
  rw [Removal.kept, ← h.front, List.drop_left]

theorem Removes.not_younger {r : Removal P bits} (h : Removes sizes disk list kept r)
    (hsorted : list.Pairwise (NotYounger disk)) : ∀ path ∈ r.removed, ∀ path' ∈ kept, NotYounger disk path path' := by
  rw [← h.front] at hsorted
  exact (List.pairwise_append.mp hsorted).2.2

/-- What is kept is the longest end that fits: no total was lost in `size_t` and no file too many was kept. -/
theorem Removes.shortest {r : Removal P bits}
    (h : Removes disk.fileSizes disk list (dropUntil (LogFiles.fits disk.fileSizes maxSize logSize) list) r)
    (hsorted : list.Pairwise (NotYounger disk)) (hunder : r.underflow = false) :
    RemovesShortest disk list maxSize logSize r where
  front := by rw [h.kept_eq, h.front]
  gone := h.gone
  oldest := by
    rw [h.kept_eq]
    exact h.not_younger hsorted
  fits := by
    rw [h.kept_eq, ← fits_iff]
    exact dropUntil_good _ _
  shortest rest hrest hlen := by
    rw [h.kept_eq] at hlen
    exact Nat.not_le.mp (of_decide_eq_false (dropUntil_longest hrest hlen))
  all hnone := by
    have hnil : dropUntil (LogFiles.fits disk.fileSizes maxSize logSize) list = [] := by
      by_contra hne
      have hfits := (dropUntil_good _ _).resolve_right hne
      exact absurd (fits_iff.mp hfits) (Nat.not_le.mpr (hnone _ (dropUntil_suffix _ _) hne))
    rw [← List.append_nil r.removed, ← hnil, h.front]
  nothing hfits := by
    have hkept := dropUntil_of_good (fits_iff.mpr hfits)
    have hfront := h.front
    rw [hkept] at hfront
    exact List.append_left_eq_self.mp hfront
  noUnderflow := hunder

theorem RemovesShortest.kept_eq {r : Removal P bits} (h : RemovesShortest disk list maxSize logSize r) :
    dropUntil (LogFiles.fits disk.fileSizes maxSize logSize) list = r.kept list := by
  refine dropUntil_eq_iff.mpr ⟨⟨r.removed, h.front⟩, h.fits.imp_left fits_iff.mpr, fun rest hrest hlen => ?_⟩
  exact decide_eq_false (Nat.not_le.mpr (h.shortest rest hrest hlen))

theorem RemovesShortest.kept_lt {r : Removal P bits} (h : RemovesShortest disk list maxSize logSize r) :
    total disk.fileSizes (r.kept list) < 2 ^ bits := by
  rcases h.fits with hfits | hnil
  · exact (Nat.le_add_right _ _).trans_lt (hfits.trans_lt maxSize.isLt)
  · rw [hnil]
    exact Nat.two_pow_pos bits

/-- A removal after which the rest fits, without an underflow on the way, started from the whole total. -/
theorem Removes.total_lt {r : Removal P bits} (h : Removes sizes disk list kept r) (hunder : r.underflow = false)
    (hkept : total sizes kept < 2 ^ bits) : total sizes list < 2 ^ bits := by
  have hsize : r.size.toNat = total sizes kept := by rw [h.size, BitVec.toNat_ofNat, Nat.mod_eq_of_lt hkept]
  have htotal : total sizes list = total sizes r.removed + total sizes kept := by
    rw [← h.front, total, List.map_append, List.sum_append, total, total]
  have hbalance := h.balance hunder
  rw [hsize, Nat.add_comm, ← htotal] at hbalance
  rw [hbalance]
  exact Nat.mod_lt _ (Nat.two_pow_pos bits)

/-- **Exactly when the shortest front is removed**: the total fits `size_t`, and where a rest and the entry do not they
are above the limit all the same. -/
theorem removeIfTooBig_shortest_iff (h : AgeOrdered disk list) (maxSize logSize : BitVec bits) :
    ∃ r, removeIfTooBig disk list maxSize logSize = some r ∧
      (RemovesShortest disk list maxSize logSize r ↔
        total disk.fileSizes list < 2 ^ bits ∧
        ∀ rest, rest <:+ list → 2 ^ bits ≤ total disk.fileSizes rest + logSize.toNat →
          maxSize.toNat < (total disk.fileSizes rest + logSize.toNat) % 2 ^ bits) := by
  obtain ⟨r, hr, hremoves⟩ := removeIfTooBig_spec h maxSize logSize
  have hsame : dropUntil (wrappedFits disk.fileSizes maxSize logSize) list =
      dropUntil (fits disk.fileSizes maxSize logSize) list ↔ _ :=
    dropUntil_eq_dropUntil_iff (fun _ _ => wrappedFits_of_fits) fun _ _ => fits_suffix
  refine ⟨r, hr, fun hshortest => ?_, fun ⟨htotal, hhides⟩ => ?_⟩
  · have hkept := hremoves.kept_eq
    refine ⟨hremoves.total_lt hshortest.noUnderflow (hkept ▸ hshortest.kept_lt), ?_⟩
    rw [← fits_of_wrappedFits_iff, ← hsame, hshortest.kept_eq, hkept]
  · rw [hsame.mpr (fits_of_wrappedFits_iff.mpr hhides)] at hremoves
    exact hremoves.shortest h.sorted (hremoves.noUnderflow htotal)

/-- Three log files in the directory `0`. -/
def threeFiles (size : ℕ) : Disk ℕ where
  nodes := [⟨0, none, .directory, 0⟩, ⟨1, some 0, .file size, 1⟩, ⟨2, some 0, .file size, 2⟩,
    ⟨3, some 0, .file size, 3⟩]
  nodup := (by decide : [0, 1, 2, 3].Nodup)

theorem threeFiles_ageOrdered (size : ℕ) : AgeOrdered (threeFiles size) [1, 2, 3] where
  nodup := by decide
  file := by
    rw [List.forall_mem_cons, List.forall_mem_cons, List.forall_mem_singleton]
    exact ⟨rfl, rfl, rfl⟩
  sorted := by
    have h12 : NotYounger (threeFiles size) 1 2 := (by decide : (1 : ℤ) ≤ 2)
    have h13 : NotYounger (threeFiles size) 1 3 := (by decide : (1 : ℤ) ≤ 3)
    have h23 : NotYounger (threeFiles size) 2 3 := (by decide : (2 : ℤ) ≤ 3)
    simp [h12, h13, h23]

theorem removeIfTooBig_three_small : ∃ r, removeIfTooBig (threeFiles 500) [1, 2, 3] (1100 : BitVec 64) 100 = some r ∧
    RemovesShortest (threeFiles 500) [1, 2, 3] 1100 100 r := by
  obtain ⟨r, hr, hiff⟩ := removeIfTooBig_shortest_iff (threeFiles_ageOrdered 500) (1100 : BitVec 64) 100
  have htotal : total (threeFiles 500).fileSizes [1, 2, 3] = 1500 := rfl
  refine ⟨r, hr, hiff.mpr ⟨by rw [htotal]; decide, fun rest hrest hover => ?_⟩⟩
  have hle : total (threeFiles 500).fileSizes rest ≤ 1500 := htotal ▸ total_suffix hrest
  have hlog : (100 : BitVec 64).toNat = 100 := rfl
  omega

/-- Three files of nearly `2 ^ 31` bytes, or of nearly `2 ^ 63`, with a limit of one GiB: after one removal the running
total is below zero, the entry brings it back to a small number, and the other two files stay. -/
theorem removeIfTooBig_three_large :
    (∃ r, removeIfTooBig (threeFiles (2 ^ 31 - 1)) [1, 2, 3] (BitVec.ofNat 32 (2 ^ 30)) 100 = some r ∧
      r.removed = [1] ∧ r.underflow = true ∧ AgeOrdered (threeFiles (2 ^ 31 - 1)) [1, 2, 3] ∧
      ¬ RemovesShortest (threeFiles (2 ^ 31 - 1)) [1, 2, 3] (BitVec.ofNat 32 (2 ^ 30)) 100 r) ∧
    ∃ r, removeIfTooBig (threeFiles (2 ^ 63 - 1)) [1, 2, 3] (BitVec.ofNat 64 (2 ^ 30)) 100 = some r ∧
      r.removed = [1] ∧ r.underflow = true ∧ AgeOrdered (threeFiles (2 ^ 63 - 1)) [1, 2, 3] ∧
      ¬ RemovesShortest (threeFiles (2 ^ 63 - 1)) [1, 2, 3] (BitVec.ofNat 64 (2 ^ 30)) 100 r :=
  ⟨⟨_, rfl, rfl, rfl, threeFiles_ageOrdered _, fun h => absurd h.fits (by decide)⟩,
    ⟨_, rfl, rfl, rfl, threeFiles_ageOrdered _, fun h => absurd h.fits (by decide)⟩⟩

/-! ## What `size_check` lists -/

variable {dir : P} {node node' : Node P}

omit [DecidableEq P] in
theorem Disk.eq_of_path (hnode : node ∈ disk.nodes) (hnode' : node' ∈ disk.nodes) (h : node.path = node'.path) :
    node = node' :=
  List.inj_on_of_nodup_map disk.nodup hnode hnode' h

theorem Disk.find_of_mem (hnode : node ∈ disk.nodes) : disk.find node.path = some node := by
  cases hfind : disk.find node.path with
  | none => exact absurd (decide_eq_true rfl) (List.find?_eq_none.mp hfind node hnode)
  | some node' =>
    have hpath := List.find?_some hfind
    rw [disk.eq_of_path (List.mem_of_find?_eq_some hfind) hnode (of_decide_eq_true hpath)]

theorem Disk.fileSize_isSome (hnode : node ∈ disk.nodes) (hfile : disk.isDirectory node.path = false) :
    (disk.fileSize node.path).isSome := by
  rw [isDirectory, find_of_mem hnode, Option.any_some] at hfile
  rw [fileSize, find_of_mem hnode, Option.bind_some]
  cases hkind : node.kind with
  | file size => rfl
  | directory => exact absurd hkind (of_decide_eq_false hfile)

theorem Disk.entries_eq {entries : List P} (h : disk.entries dir = some entries) :
    entries = (disk.nodes.filter fun node => node.parent = some dir).map Node.path := by
  rw [Disk.entries] at h
  split_ifs at h
  exact (Option.some.inj h).symm

theorem Disk.mem_entries {entries : List P} (h : disk.entries dir = some entries) :
    path ∈ entries ↔ ∃ node ∈ disk.nodes, node.parent = some dir ∧ node.path = path := by
  simp only [Disk.entries_eq h, List.mem_map, List.mem_filter, decide_eq_true_eq, and_assoc]

theorem Disk.entries_nodup {entries : List P} (h : disk.entries dir = some entries) : entries.Nodup := by
  rw [Disk.entries_eq h]
  exact disk.nodup.sublist (List.filter_sublist.map Node.path)

instance (disk : Disk P) : Std.Total (NotYounger disk) := ⟨fun _ _ => le_total _ _⟩

instance (disk : Disk P) : IsTrans P (NotYounger disk) := ⟨fun _ _ _ => le_trans⟩

theorem mem_listPushBack (hnode : node ∈ disk.nodes) (h : node.path ∈ listPushBack disk list dir) :
    node.path ∈ list ∨ node.parent = some dir := by
  rw [listPushBack] at h
  cases hentries : disk.entries dir with
  | none =>
    rw [hentries] at h
    exact Or.inl h
  | some entries =>
    rw [hentries, List.mem_insertionSort, List.mem_append, List.mem_filter] at h
    rcases h with hpath | ⟨hentry, _⟩
    · exact Or.inl hpath
    · obtain ⟨node', hnode', hparent, hsame⟩ := (Disk.mem_entries hentries).mp hentry
      exact Or.inr (disk.eq_of_path hnode' hnode hsame ▸ hparent)

/-- The files of a further directory. -/
theorem AgeOrdered.listPushBack (h : AgeOrdered disk list)
    (hnew : ∀ node ∈ disk.nodes, node.path ∈ list → node.parent ≠ some dir) :
    AgeOrdered disk (listPushBack disk list dir) := by
  rw [LogFiles.listPushBack]
  cases hentries : disk.entries dir with
  | none => exact h
  | some entries =>
    refine ⟨?_, fun path hpath => ?_, List.pairwise_insertionSort _ _⟩
    · rw [(List.perm_insertionSort _ _).nodup_iff]
      refine h.nodup.append ((Disk.entries_nodup hentries).filter _) fun path hpath hentry => ?_
      obtain ⟨node, hnode, hparent, rfl⟩ := (Disk.mem_entries hentries).mp (List.mem_filter.mp hentry).1
      exact hnew node hnode hpath hparent
    · rw [List.mem_insertionSort, List.mem_append, List.mem_filter, Bool.not_eq_true'] at hpath
      rcases hpath with hpath | ⟨hentry, hfile⟩
      · exact h.file path hpath
      · obtain ⟨node, hnode, _, rfl⟩ := (Disk.mem_entries hentries).mp hentry
        exact Disk.fileSize_isSome hnode hfile

/-- The files of all the directories of a list. -/
theorem listPushBack_foldl {dirs : List P} (hdirs : dirs.Nodup) (h : AgeOrdered disk list)
    (hnew : ∀ node ∈ disk.nodes, node.path ∈ list → ∀ dir ∈ dirs, node.parent ≠ some dir) :
    AgeOrdered disk (dirs.foldl (listPushBack disk) list) ∧
    ∀ node ∈ disk.nodes, node.path ∈ dirs.foldl (listPushBack disk) list →
      node.path ∈ list ∨ ∃ dir ∈ dirs, node.parent = some dir := by
  induction dirs generalizing list with
  | nil => exact ⟨h, fun _ _ => Or.inl⟩
  | cons dir dirs ih =>
    obtain ⟨hnotMem, hdirs⟩ := List.nodup_cons.mp hdirs
    have hstep := h.listPushBack fun node hnode hpath => hnew node hnode hpath dir List.mem_cons_self
    obtain ⟨hordered, hmem⟩ := ih hdirs hstep fun node hnode hpath dir' hdir' hparent => by
      rcases mem_listPushBack hnode hpath with hpath | hdir
      · exact hnew node hnode hpath dir' (List.mem_cons_of_mem dir hdir') hparent
      · rw [hdir, Option.some.injEq] at hparent
        exact hnotMem (hparent ▸ hdir')
    refine ⟨hordered, fun node hnode hpath => ?_⟩
    rcases hmem node hnode hpath with hpath | ⟨dir', hdir', hparent⟩
    · exact (mem_listPushBack hnode hpath).imp_right fun hparent => ⟨dir, List.mem_cons_self, hparent⟩
    · exact Or.inr ⟨dir', List.mem_cons_of_mem dir hdir', hparent⟩

/-! ## What `size_check` removes -/

/-- An entry of the directory, or of a directory in it. -/
def Disk.Within (disk : Disk P) (dirName : P) (node : Node P) : Prop :=
  node.parent = some dirName ∨ ∃ dir ∈ disk.nodes, dir.parent = some dirName ∧ node.parent = some dir.path

/-- Nothing appeared, and what went was an entry of the directory or of a directory in it. -/
structure Shrinks (dirName : P) (disk disk' : Disk P) : Prop where
  sublist : disk'.nodes.Sublist disk.nodes
  within : ∀ node ∈ disk.nodes, node ∉ disk'.nodes → disk.Within dirName node

variable {disk' disk'' : Disk P} {dirName : P}

omit [DecidableEq P] in
theorem Shrinks.refl (dirName : P) (disk : Disk P) : Shrinks dirName disk disk :=
  ⟨List.Sublist.refl _, fun _ hnode hgone => absurd hnode hgone⟩

omit [DecidableEq P] in
theorem Shrinks.trans (h : Shrinks dirName disk disk') (h' : Shrinks dirName disk' disk'') :
    Shrinks dirName disk disk'' where
  sublist := h'.sublist.trans h.sublist
  within node hnode hgone := by
    by_cases hmem : node ∈ disk'.nodes
    · rcases h'.within node hmem hgone with hparent | ⟨dir, hdir, hparent⟩
      · exact Or.inl hparent
      · exact Or.inr ⟨dir, h.sublist.subset hdir, hparent⟩
    · exact h.within node hnode hmem

omit [DecidableEq P] in
theorem shrinks_filter {keep : Node P → Prop} [DecidablePred keep] (hnodes : disk'.nodes = disk.nodes.filter (keep ·))
    (h : ∀ node ∈ disk.nodes, ¬ keep node → disk.Within dirName node) : Shrinks dirName disk disk' where
  sublist := by
    rw [hnodes]
    exact List.filter_sublist
  within node hnode hgone := by
    rw [hnodes, List.mem_filter, decide_eq_true_eq, not_and] at hgone
    exact h node hnode (hgone hnode)

theorem Removes.shrinks {r : Removal P bits} (h : Removes sizes disk list kept r)
    (hlist : ∀ node ∈ disk.nodes, node.path ∈ list → disk.Within dirName node) : Shrinks dirName disk r.disk :=
  shrinks_filter h.gone fun node hnode hgone =>
    hlist node hnode (h.front ▸ List.mem_append_left kept (not_not.mp hgone))

theorem shrinks_erase (h : ∀ node ∈ disk.nodes, node.path = path → disk.Within dirName node) :
    Shrinks dirName disk (disk.erase path) :=
  shrinks_filter rfl fun node hnode hgone => h node hnode (not_not.mp hgone)

theorem removeEmpty_shrinks {dirs : List P} (h : ∀ node ∈ disk.nodes, node.path ∈ dirs → node.parent = some dirName) :
    Shrinks dirName disk (removeEmpty disk dirs) := by
  induction dirs generalizing disk with
  | nil => exact Shrinks.refl _ _
  | cons dir dirs ih =>
    have htail := ih fun node hnode hpath => h node hnode (List.mem_cons_of_mem dir hpath)
    rw [removeEmpty]
    split_ifs
    · cases disk.entries dir with
      | none => exact htail
      | some entries =>
        cases entries with
        | nil =>
          have herase : Shrinks dirName disk (disk.erase dir) :=
            shrinks_erase fun node hnode hpath => Or.inl (h node hnode (hpath ▸ List.mem_cons_self))
          exact herase.trans (ih fun node hnode hpath =>
            h node (herase.sublist.subset hnode) (List.mem_cons_of_mem dir hpath))
        | cons _ _ => exact Shrinks.refl _ _
    · exact htail

theorem ageOrdered_nil (disk : Disk P) : AgeOrdered disk [] :=
  ⟨List.nodup_nil, List.forall_mem_nil _, List.Pairwise.nil⟩

/-- The second half of `size_check`: the files of all the directories, and then the empty directories. -/
theorem removeDirs_shrinks {dirs : List P} (hnodup : dirs.Nodup)
    (hparent : ∀ dir ∈ dirs, ∃ node ∈ disk.nodes, node.parent = some dirName ∧ node.path = dir)
    (maxSize logSize : BitVec bits) :
    ∃ all, removeIfTooBig disk (dirs.foldl (listPushBack disk) []) maxSize logSize = some all ∧
      Shrinks dirName disk all.disk ∧ Shrinks dirName disk (removeEmpty all.disk dirs) := by
  obtain ⟨hordered, hmem⟩ := listPushBack_foldl hnodup (ageOrdered_nil disk)
    fun _ _ hpath => absurd hpath List.not_mem_nil
  obtain ⟨all, hall, hremoves⟩ := removeIfTooBig_spec hordered maxSize logSize
  have hfiles : Shrinks dirName disk all.disk := hremoves.shrinks fun node hnode hpath => by
    obtain ⟨dir, hdir, hin⟩ := (hmem node hnode hpath).resolve_left List.not_mem_nil
    obtain ⟨node', hnode', hdirName, rfl⟩ := hparent dir hdir
    exact Or.inr ⟨node', hnode', hdirName, hin⟩
  have hdirs : Shrinks dirName all.disk (removeEmpty all.disk dirs) := removeEmpty_shrinks fun node hnode hpath => by
    obtain ⟨node', hnode', hdirName, hsame⟩ := hparent _ hpath
    exact disk.eq_of_path hnode' (hfiles.sublist.subset hnode) hsame ▸ hdirName
  exact ⟨all, hall, hfiles, hfiles.trans hdirs⟩

/-- `size_check` always returns, and nothing goes but entries of the directory and of the directories in it. -/
theorem sizeCheck_shrinks (disk : Disk P) (context : Context bits) (dirName : P) (logSize : BitVec bits) :
    ∃ disk', sizeCheck disk context dirName logSize = some disk' ∧ Shrinks dirName disk disk' := by
  obtain ⟨day, hday, hremoves⟩ := removeIfTooBig_spec
    ((ageOrdered_nil disk).listPushBack fun _ _ hpath => absurd hpath List.not_mem_nil) context.maxSizeOneDay logSize
  have hfirst : Shrinks dirName disk day.disk := hremoves.shrinks fun node hnode hpath =>
    Or.inl ((mem_listPushBack hnode hpath).resolve_left List.not_mem_nil)
  rw [sizeCheck, hday, Option.bind_eq_bind, Option.bind_some]
  cases hentries : day.disk.entries dirName with
  | none => exact ⟨_, rfl, hfirst⟩
  | some entries =>
    set dirs := (entries.filter day.disk.isDirectory).insertionSort (NotYounger day.disk) with hdirs
    have hnodup : dirs.Nodup := by
      rw [hdirs, (List.perm_insertionSort _ _).nodup_iff]
      exact (Disk.entries_nodup hentries).filter _
    have hparent : ∀ dir ∈ dirs, ∃ node ∈ day.disk.nodes, node.parent = some dirName ∧ node.path = dir := by
      intro dir hdir
      rw [hdirs, List.mem_insertionSort, List.mem_filter] at hdir
      exact (Disk.mem_entries hentries).mp hdir.1
    obtain ⟨all, hall, hfiles, hempty⟩ := removeDirs_shrinks hnodup hparent context.maxSize logSize
    simp only [← hdirs, hall, Option.bind_some]
    split_ifs
    · exact ⟨_, rfl, hfirst.trans hfiles⟩
    · exact ⟨_, rfl, hfirst.trans hempty⟩

end Gts3.LogFiles
