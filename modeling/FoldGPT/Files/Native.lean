import FoldGPT.Files.Backend

/-!
# The native helper

What `native-files.c` does to the tree when it is run with the arguments of a
call that passed, no other process interfering: the system calls it makes, in
its order, on the `Workspace`. `none` is a helper that exits with an error; the
errors that the tree does not decide (`PATH_MAX`, `NAME_MAX`, quotas, I/O) are
left out, so the model succeeds at least when the helper does.

Main result: `timestampMs_exact`.
-/

namespace FoldGPT.Files

open FoldGPT.Lib FoldGPT.Lib.Encoding
open List hiding utf8Encode

/-- What the kernel chooses for a new object. -/
structure Stamp where
  dev : UInt64
  ino : UInt64
  mtimeNs : Int
  ctimeNs : Int
  ino_ne : ino ≠ 0

instance : Inhabited Stamp := ⟨⟨0, 1, 0, 0, by decide⟩⟩

/-- The kernel's choice for an object created at a path. -/
abbrev Kernel := Path → Stamp

/-- A new object of the caller. -/
def Backend.fresh (b : Backend) (stamp : Stamp) (kind : Kind) (mode size : Nat) : Info where
  dev := stamp.dev
  ino := stamp.ino
  kind := kind
  mode := mode
  uid := b.uid
  nlink := 1
  size := size
  mtimeNs := stamp.mtimeNs
  ctimeNs := stamp.ctimeNs
  ino_ne := stamp.ino_ne

/-! ### System calls -/

/-- The directories on the way to the last component can all be searched. -/
def Workspace.canSearch (w : Workspace) (path : Path) : Bool :=
  (List.range path.length).all fun n =>
    (w.get (path.take n)).any fun info => info.isDir && info.searchable

/-- `mkdirat`, or `openat2` with `O_CREAT | O_EXCL`. -/
def Workspace.creat (w : Workspace) (path : Path) (info : Info) : Option Workspace :=
  if room : w.Room path then
    if w.canSearch path && (w.get path.dropLast).any Info.writable then
      some (w.insert path info room)
    else none
  else none

/-- `unlinkat`, with `AT_REMOVEDIR` for a directory. -/
def Workspace.unlink (w : Workspace) (path : Path) : Option Workspace :=
  if bare : w.Bare path then
    if (w.get path).isSome && w.canSearch path && (w.get path.dropLast).any Info.writable then
      some (w.discard path bare)
    else none
  else none

/-- `ordinary`. -/
def Backend.ordinary (b : Backend) (info : Info) : Bool :=
  info.isReg && info.uid = b.uid && info.nlink = 1

/-- Writing a file through an open descriptor: its new size, and its new permission
bits if `fchmod` follows. -/
def Info.rewritten (size : Nat) (mode : Option Nat) (info : Info) : Info :=
  { info with size := size, mode := mode.getD info.mode }

/-- `pinned_open(root, path, 1)` with the writes and the `fchmod` that follow it. -/
def writePinned (k : Kernel) (b : Backend) (w : Workspace) (path : Path) (size : Nat)
    (mode : Option Nat) : Option Workspace :=
  if hne : path ≠ [] then
    match w.get path with
    | none => w.creat path (b.fresh (k path) .regular (mode.getD 0o600) size)
    | some info =>
      if w.canSearch path && b.ordinary info && info.writable then
        some (w.change path (Info.rewritten size mode) hne fun _ => rfl)
      else none
  else none

/-! ### The helper's operations -/

/-- The loop of `create_directories` and its `mkdirat`. -/
def makeMissing (k : Kernel) (b : Backend) (parts : Path) : List Nat → Workspace → Option Workspace
  | [], w => some w
  | size :: rest, w => do
    let w ← w.creat (parts.take size) (b.fresh (k (parts.take size)) .directory 0o700 0)
    makeMissing k b parts rest w

/-- `create_directories`. -/
def createDirectories (k : Kernel) (b : Backend) (w : Workspace) (plan : DirectoryPlan) :
    Option Workspace :=
  let existing := plan.parts.length - plan.missing
  let start := plan.parts.take existing
  match w.get start with
  | none => none
  | some info =>
    if w.canSearch start && (start = [] || info.readable) && info.isDir && info.uid = b.uid &&
        info.dev = plan.device && info.ino = plan.inode then
      if plan.missing = 0 then (if plan.recursive then some w else none)
      else makeMissing k b plan.parts (List.range' (existing + 1) plan.missing) w
    else none

/-- The plan's nodes in the order of `strcmp`. -/
def planNodes (w : Workspace) : List (Path × Info) :=
  w.nodes.insertionSort fun a b => utf8Encode (relative a.1) ≤ utf8Encode (relative b.1)

/-- The loop of `remove_plan`. -/
def unlinkAll : List Path → Workspace → Option Workspace
  | [], w => some w
  | path :: rest, w => do
    let w ← w.unlink path
    unlinkAll rest w

/-- `remove_plan`. -/
def removeTree (w : Workspace) (parts : Path) (force : Bool) : Option Workspace :=
  match w.get parts with
  | none => if force then some w else none
  | some _ =>
    unlinkAll (((planNodes w).reverse.map Prod.fst).filter (parts.isPrefixOf ·)) w

/-- `copy_directory`. -/
def copyDirectory (k : Kernel) (b : Backend) (path : Path) : List Nat → Workspace → Option Workspace
  | [], w => some w
  | size :: rest, w =>
    match w.get (path.take size) with
    | some info =>
      if w.canSearch (path.take size) && info.isDir && info.readable && info.uid = b.uid then
        copyDirectory k b path rest w
      else none
    | none => do
      let w ← w.creat (path.take size) (b.fresh (k (path.take size)) .directory 0o700 0)
      copyDirectory k b path rest w

/-- The loop of `copy_plan` over the nodes below the source. -/
def copyAll (k : Kernel) (b : Backend) (source destination : Path) :
    List (Path × Info) → Workspace → Option Workspace
  | [], w => some w
  | (parts, info) :: rest, w => do
    let target := copyTarget source destination parts
    let w ← if info.isDir then copyDirectory k b target (List.range' 1 target.length) w
      else if info.readable then writePinned k b w target info.size (some (info.mode &&& 0o777))
      else none
    copyAll k b source destination rest w

/-- `copy_plan`, after its preflight, which repeats the checks of `_copy_plan`. -/
def copyTree (k : Kernel) (b : Backend) (w : Workspace) (source destination : Path) :
    Option Workspace :=
  match w.get source with
  | none => none
  | some _ => copyAll k b source destination (copySelected (planNodes w) source) w

/-- The helper, run with the arguments of a call. -/
def native (k : Kernel) (b : Backend) (w : Workspace) : Arguments → Option Workspace
  | .write parts data => writePinned k b w parts data.length none
  | .makeDirectory plan => createDirectories k b w plan
  | .remove parts _ _ force => removeTree w parts force
  | .copy parts _ target _ => copyTree k b w parts target

/-! ### What the system calls need and change -/

variable {w : Workspace} {path : Path}

theorem Workspace.creat_eq_some {v : Workspace} {info : Info} :
    w.creat path info = some v ↔ w.canSearch path ∧ (w.get path.dropLast).any Info.writable ∧
      ∃ room : w.Room path, v = w.insert path info room := by
  unfold Workspace.creat
  split
  next room =>
    simp only [Bool.and_eq_true]
    split
    next h => simp [h, room, eq_comm]
    next h => simp only [reduceCtorEq, false_iff]; exact fun hall => h ⟨hall.1, hall.2.1⟩
  next room =>
    simp only [reduceCtorEq, false_iff]
    exact fun hall => room hall.2.2.1

theorem Workspace.unlink_eq_some {v : Workspace} (h : w.unlink path = some v) :
    ∃ bare : w.Bare path, v = w.discard path bare := by
  unfold Workspace.unlink at h
  split at h
  next bare =>
    split at h
    · exact ⟨bare, (Option.some.inj h).symm⟩
    · cases h
  next => cases h

theorem Workspace.searchable_of_canSearch (hne : path ≠ []) (h : w.canSearch path) :
    ∃ info, w.get path.dropLast = some info ∧ info.isDir ∧ info.searchable := by
  have hlast := all_eq_true.mp h (path.length - 1)
    (mem_range.mpr (Nat.sub_one_lt (by simpa using hne)))
  rw [← dropLast_eq_take] at hlast
  cases hget : w.get path.dropLast with
  | none => simp [hget] at hlast
  | some info => exact ⟨info, rfl, by simpa [hget] using hlast⟩

theorem Admitted.canSearch {b : Backend} (hw : Admitted b w) {start : Path}
    {name : Name} {info : Info} (hget : w.get start = some info) (hdir : info.isDir)
    (hsearch : info.searchable) : w.canSearch (start ++ [name]) := by
  refine all_eq_true.mpr fun n hn => ?_
  have hn : n ≤ start.length := by simpa [Nat.lt_succ_iff] using hn
  rw [take_append_of_le_length hn]
  rcases Nat.lt_or_eq_of_le hn with hlt | rfl
  · -- the next directory on the way is an entry of this one
    have hle : start.take (n + 1) <+: start := take_prefix _ _
    have hnext : ∃ found, w.get (start.take (n + 1)) = some found := by
      by_cases heq : start.take (n + 1) = start
      · exact ⟨info, by rw [heq, hget]⟩
      · obtain ⟨found, hfound, -⟩ :=
          Workspace.isDirectory_iff.mp (Workspace.isDirectory_above hget hle heq)
        exact ⟨found, hfound⟩
    obtain ⟨found, hfound⟩ := hnext
    have hlen : (start.take (n + 1)).length = n + 1 := by
      rw [length_take]
      omega
    have hne : start.take (n + 1) ≠ [] := by
      intro hnil
      rw [hnil] at hlen
      cases hlen
    have hmem := Workspace.mem_of_get hne hfound
    have hdrop : (start.take (n + 1)).dropLast = start.take n := by
      rw [dropLast_eq_take, hlen, take_take]
      simp
    obtain ⟨above, habove, haboveDir⟩ :=
      Workspace.isDirectory_iff.mp (Workspace.isDirectory_parent hmem)
    have habove' : w.get (start.take n) = some above := hdrop ▸ habove
    simp [habove', haboveDir, hw.searchable _ hmem above habove]
  · simp [hget, hdir, hsearch]

/-! ### The admission of a workspace that grew by one object -/

/-- **A new object keeps the workspace admitted** exactly when there was room for it
and it is ordinary itself. -/
theorem admitted_insert_iff {b : Backend} (hw : Admitted b w)
    {info : Info} (room : w.Room path) (hsearch : w.canSearch path) :
    Admitted b (w.insert path info room) ↔
      w.entries.length + 1 ≤ MAX_ENTRIES ∧ Ordinary b path info := by
  obtain ⟨directory, hdirectory, -, hsearchable⟩ :=
    Workspace.searchable_of_canSearch room.1 hsearch
  have hentries : (w.insert path info room).entries = w.entries ++ [(path, info)] := rfl
  constructor
  · intro h
    refine ⟨?_, h.ordinary (path, info) ?_⟩
    · have := h.count
      rwa [hentries, length_append] at this
    · exact mem_append_right _ mem_cons_self
  · rintro ⟨hcount, hord⟩
    refine ⟨?_, ?_, ?_⟩
    · rwa [hentries, length_append]
    · intro e he
      rcases mem_append.mp he with he | he
      · exact hw.ordinary e he
      · rw [mem_singleton.mp he]
        exact hord
    · intro e he found hfound
      rcases mem_append.mp he with he | he
      · obtain ⟨old, hold, -⟩ :=
          Workspace.isDirectory_iff.mp (Workspace.isDirectory_parent he)
        rw [Workspace.get_insert_of_get room hold, Option.some.injEq] at hfound
        exact hfound ▸ hw.searchable e he old hold
      · rw [mem_singleton.mp he, Workspace.get_insert_of_get room hdirectory,
          Option.some.injEq] at hfound
        exact hfound ▸ hsearchable

/-! ### Times -/

def INT64_MAX : Int := 9223372036854775807
def INT64_MIN : Int := -9223372036854775808

/-- A signed operation of C on 64 bits; an overflow has no result. -/
def signed (value : Int) : Option Int :=
  if INT64_MIN ≤ value ∧ value ≤ INT64_MAX then some value else none

/-- `milliseconds` in `timestamp_ms`, before the fraction is added. -/
def milliseconds (seconds : Int) : Option Int :=
  if seconds > INT64_MAX.tdiv 1000 then some INT64_MAX
  else if seconds < INT64_MIN.tdiv 1000 then some INT64_MIN
  else signed (seconds * 1000)

/-- `timestamp_ms`. -/
def timestampMs (seconds : Int64) (nanoseconds : UInt32) (nofollow : Bool) : Option Int :=
  if nofollow = false ∧ seconds.toInt < 0 then some 0
  else if nofollow = false ∧ seconds.toInt > INT64_MAX.tdiv 1000 then some 0
  else do
    let milliseconds ← milliseconds seconds.toInt
    let fraction : Int := (nanoseconds / 1000000).toNat
    let limit ← signed (INT64_MAX - fraction)
    if milliseconds > limit then some (if nofollow then INT64_MAX else 0)
    else signed (milliseconds + fraction)

def saturate (value : Int) : Int := max INT64_MIN (min INT64_MAX value)

theorem milliseconds_eq (seconds : Int) : milliseconds seconds = some (saturate (seconds * 1000)) := by
  have hmax : INT64_MAX.tdiv 1000 = 9223372036854775 := by decide
  have hmin : INT64_MIN.tdiv 1000 = -9223372036854775 := by decide
  rw [milliseconds, hmax, hmin]
  unfold signed saturate INT64_MAX INT64_MIN
  split_ifs <;> grind

/-- The fraction of a second is added, or the sum would be too large. -/
theorem timestampMs_eq (seconds : Int64) (nanoseconds : UInt32) {nofollow : Bool}
    (h : nofollow = true ∨ 0 ≤ seconds.toInt ∧ seconds.toInt ≤ INT64_MAX.tdiv 1000) :
    timestampMs seconds nanoseconds nofollow =
      some (if saturate (seconds.toInt * 1000) + nanoseconds.toNat / 1000000 ≤ INT64_MAX
        then saturate (seconds.toInt * 1000) + nanoseconds.toNat / 1000000
        else if nofollow then INT64_MAX else 0) := by
  have hfraction : ((nanoseconds / 1000000).toNat : Int) = nanoseconds.toNat / 1000000 := by simp
  have hhigh : (nanoseconds.toNat : Int) / 1000000 < 4295 := by
    have := nanoseconds.toNat_lt
    omega
  rw [timestampMs, if_neg (by grind), if_neg (by grind), milliseconds_eq, hfraction]
  have hlimit : signed (INT64_MAX - nanoseconds.toNat / 1000000) =
      some (INT64_MAX - nanoseconds.toNat / 1000000) := by
    refine if_pos ⟨?_, by omega⟩
    unfold INT64_MAX INT64_MIN
    omega
  have hmin : INT64_MIN ≤ saturate (seconds.toInt * 1000) := le_max_left _ _
  simp only [Option.bind_eq_bind, Option.bind_some, hlimit]
  by_cases hfits : saturate (seconds.toInt * 1000) + nanoseconds.toNat / 1000000 ≤ INT64_MAX
  · rw [if_neg (by omega), if_pos hfits]
    exact if_pos ⟨by omega, hfits⟩
  · rw [if_pos (by omega), if_neg hfits]

/-- **The conversion of a time overflows nowhere.** Without following links it saturates twice;
otherwise a time before 1970 and one that does not fit are 0. -/
theorem timestampMs_exact (seconds : Int64) (nanoseconds : UInt32) :
    timestampMs seconds nanoseconds true =
      some (saturate (saturate (seconds.toInt * 1000) + nanoseconds.toNat / 1000000)) ∧
    timestampMs seconds nanoseconds false =
      some (if 0 ≤ seconds.toInt ∧ seconds.toInt * 1000 + nanoseconds.toNat / 1000000 ≤ INT64_MAX
        then seconds.toInt * 1000 + nanoseconds.toNat / 1000000 else 0) := by
  have hmax : INT64_MAX.tdiv 1000 = 9223372036854775 := by decide
  constructor
  · rw [timestampMs_eq seconds nanoseconds (.inl rfl)]
    unfold saturate INT64_MAX INT64_MIN
    grind
  · by_cases h : 0 ≤ seconds.toInt ∧ seconds.toInt ≤ INT64_MAX.tdiv 1000
    · rw [timestampMs_eq seconds nanoseconds (.inr h)]
      have hfits : saturate (seconds.toInt * 1000) = seconds.toInt * 1000 := by
        rw [hmax] at h
        unfold saturate INT64_MAX INT64_MIN
        omega
      simp [hfits, h.1]
    · rw [timestampMs]
      rw [hmax] at h ⊢
      unfold INT64_MAX
      grind

end FoldGPT.Files
