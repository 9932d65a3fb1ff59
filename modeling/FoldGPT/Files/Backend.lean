import FoldGPT.Lib.Base64
import FoldGPT.Files.Inspect
import Mathlib.Data.List.Sort

/-!
# The checks of the file backend

What `NativeFilesBackend.handle` decides before it runs the native helper, for
the four calls that change the workspace, and the listing the acquisition policy
shares with it. A call that passes leaves the arguments of the helper.
-/

namespace FoldGPT.Files

open FoldGPT.Lib FoldGPT.Lib.Encoding
open List hiding utf8Encode

/-- `"/".join(parts) or "."`. -/
def relative (parts : Path) : List Char := if parts = [] then dot else ['/'].intercalate parts

/-! ### Policy checks -/

def Backend.decideUri (b : Backend) (policy : ManagedPolicy) (path : GuestPath) :
    Except Failure Decision :=
  (policy.decideUri b.rules path.uri).mapError Failure.policy

def policyDenies : Failure :=
  .permission "The supplied filesystem policy denies this operation"

/-- `_require_read`. -/
def requireRead (b : Backend) (policy : ManagedPolicy) (parts : Path) : Except Failure Unit := do
  let decision ← b.decideUri policy (b.guest parts)
  require decision.canRead policyDenies

/-- `_require_write`. -/
def requireWrite (b : Backend) (policy : ManagedPolicy) (path : GuestPath)
    (metadata : List GuestPath) : Except Failure Unit := do
  let decision ← b.decideUri policy path
  require decision.canWrite policyDenies
  checkAll (fun root =>
    require (!root.contains path || policy.explicitGrant root path)
      (.permission "Existing project metadata is protected")) metadata

/-! ### Snapshots and listings -/

/-- `st_mode`, the type of the object included. -/
def Info.stMode (info : Info) : Nat :=
  info.mode + match info.kind with
    | .regular => 0o100000
    | .directory => 0o040000
    | .other => 0

def decimal (n : Int) : List Char :=
  if n < 0 then '-' :: Nat.toDigits 10 n.natAbs else Nat.toDigits 10 n.natAbs

def snapshotRow (e : Path × Info) : List UInt8 :=
  let info := e.2
  let numbers : List Int := [info.dev.toNat, info.ino.toNat, info.stMode, info.size,
    info.mtimeNs / 1000000000, info.mtimeNs % 1000000000,
    info.ctimeNs / 1000000000, info.ctimeNs % 1000000000]
  (relative e.1 :: numbers.map decimal).flatMap fun field => utf8Encode field ++ [0]

/-- `_snapshot`. -/
def snapshot (nodes : Dict Path Info) : Except Failure (List UInt8) := do
  let sorted := nodes.insertionSort fun a b => utf8Encode (relative a.1) ≤ utf8Encode (relative b.1)
  let data := sorted.flatMap snapshotRow
  require (data != [] && data.length ≤ MAX_DATA)
    (.value "Native operation snapshot exceeds admission bound")
  pure data

/-- `_children`. -/
def children (nodes : Dict Path Info) (parts : Path) : List Path :=
  (nodes.keys.filter fun child => child.length = parts.length + 1 && child.dropLast = parts)
    |>.insertionSort fun a b => utf8Encode (a.getLastD []) ≤ utf8Encode (b.getLastD [])

/-- An element of the answer of `fs/readDirectory`. -/
structure Listed where
  fileName : Name
  isDirectory : Bool
  isFile : Bool
  deriving DecidableEq, Repr

def listed (nodes : Dict Path Info) (child : Path) : Listed where
  fileName := child.getLastD []
  isDirectory := (nodes.get child).any Info.isDir
  isFile := (nodes.get child).any Info.isReg

/-- `_listing`; `none` leaves a missing directory to the native lookup. -/
def listing (b : Backend) (policy : ManagedPolicy) (parts : Path) (nodes : Dict Path Info) :
    Except Failure (Option (List Listed)) := do
  requireRead b policy parts
  match nodes.get parts with
  | none => pure none
  | some info => do
    require info.isDir (.rpc ⟨-32600, "Requested readDirectory path is not a directory", none⟩)
    require ((children nodes parts).length ≤ 50000)
      (.value "Directory listing exceeds the admitted protocol response bound")
    pure (some ((children nodes parts).map (listed nodes)))

/-! ### Plans -/

/-- `_remove_plan`. -/
def removePlan (b : Backend) (policy : ManagedPolicy) (parts : Path) (found : Found)
    (recursive : Bool) : Except Failure Unit :=
  checkAll (fun child => do
    require (child = parts || recursive) (.rpc ⟨-32600, "Requested directory is not empty", none⟩)
    requireWrite b policy (b.guest child) found.metadata)
    (found.nodes.keys.filter (parts.isPrefixOf ·))

/-- What `_directory_plan` hands to the helper: the operation, the path, how much
of it is missing, and the identity of the directory it starts in. -/
structure DirectoryPlan where
  recursive : Bool
  parts : Path
  missing : Nat
  device : UInt64
  inode : UInt64
  deriving DecidableEq, Repr

/-- How many leading components are directories: the loop `while existing < len(parts)`. -/
def existing (directories : Dict Path Info) (parts : Path) : Nat :=
  ((List.range parts.length).takeWhile
    fun size => (directories.get (parts.take (size + 1))).isSome).length

/-- `range(existing + 1, len(parts) + 1)`. -/
def missingSizes (directories : Dict Path Info) (parts : Path) : List Nat :=
  List.range' (existing directories parts + 1) (parts.length - existing directories parts)

/-- `_directory_plan`. -/
def directoryPlan (b : Backend) (policy : ManagedPolicy) (parts : Path) (recursive : Bool)
    (found : Found) : Except Failure DirectoryPlan := do
  require (parts.length ≤ MAX_DEPTH) (.value "Directory creation exceeds workspace depth limit")
  let existing := existing found.directories parts
  let missing := parts.length - existing
  require (recursive || missing ≤ 1)
    (.rpc ⟨-32004, "Requested directory parent does not exist", none⟩)
  require (found.count + missing ≤ MAX_ENTRIES)
    (.value "Directory creation exceeds workspace admission limit")
  checkAll (fun size => requireWrite b policy (b.guest (parts.take size)) found.metadata)
    (missingSizes found.directories parts)
  match found.directories.get (parts.take existing) with
  | none => .error .key
  | some parent => pure ⟨recursive, parts, missing, parent.dev, parent.ino⟩

/-- The loop of `_copy_plan` over the directories above one target; it returns the
set `created`. -/
def copyParents (b : Backend) (policy : ManagedPolicy) (prospective : List GuestPath)
    (nodes : Dict Path Info) (sourceDirectory : Bool) (target : Path) :
    List Nat → List Path → Except Failure (List Path)
  | [], created => .ok created
  | depth :: rest, created =>
    match nodes.get (target.take depth) with
    | some info => do
      require info.isDir (.value "Copy destination ancestor is not a directory")
      copyParents b policy prospective nodes sourceDirectory target rest created
    | none => do
      require sourceDirectory (.rpc ⟨-32004, "Copy destination parent does not exist", none⟩)
      requireWrite b policy (b.guest (target.take depth)) prospective
      copyParents b policy prospective nodes sourceDirectory target rest
        (created.insert (target.take depth))

/-- Where a copied object goes: `destination + parts[len(source):]`. -/
def copyTarget (source destination parts : Path) : Path := destination ++ parts.drop source.length

/-- The checks of `_copy_plan` on one object and its target, those above it apart. -/
def copyCheck (b : Backend) (policy : ManagedPolicy) (prospective : List GuestPath)
    (nodes : Dict Path Info) (target : Path) (parts : Path) (info : Info) (total : Nat) :
    Except Failure Unit := do
  requireRead b policy parts
  require (target.length ≤ MAX_DEPTH + if info.isReg then 1 else 0)
    (.value "Copy exceeds the admitted workspace depth")
  requireWrite b policy (b.guest target) prospective
  require ((nodes.get target).all fun existing => existing.kind = info.kind)
    (.value "Copy destination kind conflicts with the source")
  require (!(info.isReg && target.getLastD [] = dotGit))
    (.value "Creating gitdir files requires the native alias resolver")
  require (!info.isReg || (total + info.size ≤ MAX_DATA && info.mode &&& 0o7000 = 0))
    (.value "Copy exceeds data bound or has unsupported special mode bits")

/-- The loop of `_copy_plan` over the selected objects, with the set `created` and
the `total` of file sizes. -/
def copyLoop (b : Backend) (policy : ManagedPolicy) (prospective : List GuestPath)
    (nodes : Dict Path Info) (sourceDirectory : Bool) (source destination : Path) :
    List (Path × Info) → List Path → Nat → Except Failure (List Path)
  | [], created, _ => .ok created
  | (parts, info) :: rest, created, total => do
    let target := copyTarget source destination parts
    copyCheck b policy prospective nodes target parts info total
    let created ← copyParents b policy prospective nodes sourceDirectory target
      (List.range' 1 (target.length - 1)) created
    copyLoop b policy prospective nodes sourceDirectory source destination rest
      (if (nodes.get target).isNone then created.insert target else created)
      (if info.isReg then total + info.size else total)

/-- The objects a copy selects. -/
def copySelected (nodes : Dict Path Info) (source : Path) : List (Path × Info) :=
  nodes.filter fun e => source.isPrefixOf e.1

/-- The metadata directories of the workspace and of the copied tree. -/
def prospectiveMetadata (b : Backend) (found : Found) (source destination : Path) :
    List GuestPath :=
  found.metadata ++ ((copySelected found.nodes source).filter fun e =>
    e.2.isDir && isMetadataName ((copyTarget source destination e.1).getLastD [])).map
      fun e => b.guest (copyTarget source destination e.1)

/-- `_copy_plan`. -/
def copyPlan (b : Backend) (policy : ManagedPolicy) (source destination : Path) (found : Found)
    (recursive : Bool) : Except Failure Unit := do
  require (!(destination.isPrefixOf source || source.isPrefixOf destination))
    (.value "Copy paths must not overlap in the admitted workspace")
  match found.nodes.get source with
  | none => pure ()
  | some top => do
    require (!top.isDir || recursive) (.value "Copying a directory requires recursive true")
    let created ← copyLoop b policy (prospectiveMetadata b found source destination) found.nodes
      top.isDir source destination (copySelected found.nodes source) [] 0
    require (found.nodes.length - 1 + created.length ≤ MAX_ENTRIES)
      (.value "Copy exceeds the workspace entry limit")

/-! ### The calls that change the workspace -/

/-- The parameters of a call, their JSON types checked. The paths are URIs. -/
inductive Call
  | writeFile (path dataBase64 : List Char)
  | createDirectory (path : List Char) (recursive : Option Bool)
  | remove (path : List Char) (recursive force : Option Bool)
  | copy (sourcePath destinationPath : List Char) (recursive : Bool)

/-- The arguments and the input of the native helper. -/
inductive Arguments
  | write (parts : Path) (data : List UInt8)
  | makeDirectory (plan : DirectoryPlan)
  | remove (parts : Path) (data : List UInt8) (recursive force : Bool)
  | copy (parts : Path) (data : List UInt8) (target : Path) (recursive : Bool)

/-- The checks of `handle` on its path before the tree is inspected: inside the
mount, the mount itself only if `rootAllowed`, and what the policy must allow. -/
def locate (b : Backend) (policy : ManagedPolicy) (uri : List Char) (rootAllowed writing : Bool) :
    Except Failure GuestPath := do
  let path ← (GuestPath.fromUri b.rules uri "path").mapError Failure.policy
  require (b.mount.guest.contains path && (path != b.mount.guest || rootAllowed))
    (.value "Path is outside the admitted workspace mapping")
  let decision ← b.decideUri policy path
  require (if writing then decision.canWrite else decision.canRead) policyDenies
  pure path

def Backend.partsOf (b : Backend) (path : GuestPath) : Path :=
  path.parts.drop b.mount.guest.parts.length

/-- The bound on `dataBase64` and its decoding. -/
def writeData (encoded : List Char) : Except Failure (List UInt8) := do
  require (encoded.length ≤ (MAX_DATA + 2) / 3 * 4)
    (.value "Write exceeds the admitted data bound")
  match Base64.decode encoded with
  | none => .error (.value "Invalid base64-encoded string")
  | some data => do
    require (data.length ≤ MAX_DATA) (.value "Write exceeds the admitted data bound")
    pure data

/-- `handle`, up to the native operation. -/
def plan (b : Backend) (policy : ManagedPolicy) (w : Workspace) : Call → Except Failure Arguments
  | .writeFile uri encoded => do
    let path ← locate b policy uri false true
    let found ← inspect b w
    requireWrite b policy path found.metadata
    require (path.parts.getLastD [] != dotGit)
      (.value "Creating gitdir files requires the native alias resolver")
    let data ← writeData encoded
    pure (.write (b.partsOf path) data)
  | .createDirectory uri recursive => do
    let path ← locate b policy uri true true
    let found ← inspect b w
    requireWrite b policy path found.metadata
    let plan ← directoryPlan b policy (b.partsOf path) (recursive != some false) found
    pure (.makeDirectory plan)
  | .remove uri recursive force => do
    let path ← locate b policy uri false true
    let found ← inspect b w
    requireWrite b policy path found.metadata
    let data ← snapshot found.nodes
    removePlan b policy (b.partsOf path) found (recursive != some false)
    pure (.remove (b.partsOf path) data (recursive != some false) (force != some false))
  | .copy sourceUri destinationUri recursive => do
    let path ← locate b policy sourceUri false false
    let destination ← (GuestPath.fromUri b.rules destinationUri "path").mapError Failure.policy
    require (b.mount.guest.contains destination && destination != b.mount.guest)
      (.value "Copy destination is outside the admitted workspace mapping")
    let found ← inspect b w
    requireWrite b policy destination found.metadata
    let data ← snapshot found.nodes
    copyPlan b policy (b.partsOf path) (b.partsOf destination) found recursive
    pure (.copy (b.partsOf path) data (b.partsOf destination) recursive)

/-- The error answer of a call that raised. -/
def Failure.answer : Failure → RpcError
  | .value message => ⟨-32000, message, none⟩
  | .permission message => ⟨-32000, message, none⟩
  | .policy error => ⟨-32000, error.field ++ ": " ++ error.reason, none⟩
  | .key => ⟨-32000, "", none⟩
  | .unicode => ⟨-32000, "", none⟩
  | .rpc error => error

/-- **`handle` up to the native operation**, its exceptions turned into answers. -/
def handle (b : Backend) (policy : ManagedPolicy) (w : Workspace) (call : Call) :
    Except RpcError Arguments := (plan b policy w call).mapError Failure.answer

/-! ### What the policy checks ask for -/

/-- Proper names, all the way. -/
def ProperPath (parts : Path) : Prop := ∀ name ∈ parts, Proper name

instance (parts : Path) : Decidable (ProperPath parts) :=
  inferInstanceAs (Decidable (∀ name ∈ parts, Proper name))

/-- No control character in any component. -/
def Plain (parts : Path) : Prop := ∀ name ∈ parts, name.any isControl = false

instance (parts : Path) : Decidable (Plain parts) :=
  inferInstanceAs (Decidable (∀ name ∈ parts, name.any isControl = false))

variable {parts : Path}

theorem ProperPath.take (h : ProperPath parts) (n : Nat) :
    ProperPath (parts.take n) := fun name hname => h name (mem_of_mem_take hname)

theorem Plain.take (h : Plain parts) (n : Nat) : Plain (parts.take n) :=
  fun name hname => h name (mem_of_mem_take hname)

/-- The text of a path of proper names: not empty, no NUL, not absolute. -/
theorem relative_fits (h : ProperPath parts) :
    utf8Encode (relative parts) ≠ [] ∧ 0 ∉ utf8Encode (relative parts) ∧
      (utf8Encode (relative parts)).head? ≠ some 47 := by
  have hnul : '\x00' ∉ relative parts := by
    unfold relative
    split
    · decide
    · intro hmem
      rcases mem_intercalate hmem with hmem | ⟨piece, hpiece, hmem⟩
      · revert hmem
        decide
      · exact (h piece hpiece).2.2.1 hmem
  have hhead : ∃ c rest, relative parts = c :: rest ∧ c ≠ '/' := by
    unfold relative
    cases parts with
    | nil => exact ⟨'.', [], rfl, by decide⟩
    | cons name rest =>
      obtain ⟨hne, hslash, -⟩ := h name List.mem_cons_self
      cases name with
      | nil => exact absurd rfl hne
      | cons c name =>
        have hc : c ≠ '/' := fun hc => hslash (hc ▸ List.mem_cons_self)
        cases rest with
        | nil => exact ⟨c, name, by simp, hc⟩
        | cons next rest =>
          refine ⟨c, name ++ '/' :: ['/'].intercalate (next :: rest), ?_, hc⟩
          simp
  obtain ⟨c, rest, hrel, hc⟩ := hhead
  have hzero : (0 : UInt8) ∉ utf8Encode (relative parts) := fun hmem =>
    hnul ((mem_utf8Encode (a := '\x00') (by decide)).mp hmem)
  refine ⟨?_, hzero, ?_⟩
  all_goals rw [hrel, Encoding.utf8Encode_cons]
  · intro hnil
    exact String.utf8EncodeChar_ne_nil (List.append_eq_nil_iff.mp hnil).1
  · intro hslash
    cases hbytes : String.utf8EncodeChar c with
    | nil => exact String.utf8EncodeChar_ne_nil hbytes
    | cons byte bytes =>
      rw [hbytes, List.cons_append, List.head?_cons, Option.some.injEq] at hslash
      refine hc ((mem_utf8EncodeChar (a := '/') (by decide)).mp ?_)
      rw [hbytes]
      exact hslash ▸ List.mem_cons_self

theorem driveShaped_append {p q : Path} (h : p ≠ []) : driveShaped (p ++ q) = driveShaped p := by
  obtain ⟨name, rest, rfl⟩ := exists_cons_of_ne_nil h
  rcases name with _ | ⟨a, _ | ⟨b, _ | ⟨c, name⟩⟩⟩ <;> rfl

/-- **A decision the backend asks for** raises for a control character, whose only
source is the part below the mount, and is the policy's decision otherwise. -/
theorem Backend.decideUri_guest (b : Backend) (policy : ManagedPolicy) (h : ProperPath parts) :
    b.decideUri policy (b.guest parts) =
      if Plain parts then .ok (policy.decide (b.guest parts))
      else .error (.policy (controlError "path")) := by
  have hproper : ∀ name ∈ (b.guest parts).parts, Proper name := by
    intro name hname
    rcases mem_append.mp hname with hname | hname
    · exact b.mount.clean.proper name hname
    · exact h name hname
  have hdrive : driveShaped (b.guest parts).parts = false := by
    rw [Backend.guest, GuestPath.append_parts, driveShaped_append b.mount.ne]
    exact b.mount.clean.drive
  have hplain : (b.guest parts).parts.any (·.any isControl) = true ↔ ¬Plain parts := by
    rw [Backend.guest, GuestPath.append_parts, any_append, Bool.or_eq_true, Plain]
    have hmount : (b.mount.guest.parts.any (·.any isControl)) = false := by
      rw [any_eq_false]
      intro name hname
      simp [b.mount.clean.plain name hname]
    rw [hmount]
    simp
  rw [Backend.decideUri, policy.decideUri_uri b.rules hproper hdrive]
  by_cases hp : Plain parts
  · rw [if_neg (fun hany => hplain.mp hany hp), if_pos hp]
    rfl
  · rw [if_pos (hplain.mpr hp), if_neg hp]
    rfl

/-- What `_require_write` asks of the metadata directories. -/
def Unprotected (policy : ManagedPolicy) (path : GuestPath) (metadata : List GuestPath) : Prop :=
  ∀ root ∈ metadata, root.contains path → policy.explicitGrant root path

variable {b : Backend}

theorem requireRead_ok_iff {policy : ManagedPolicy} (h : ProperPath parts) {u : Unit} :
    requireRead b policy parts = .ok u ↔
      Plain parts ∧ (policy.decide (b.guest parts)).canRead := by
  rw [requireRead, b.decideUri_guest policy h]
  by_cases hp : Plain parts <;> simp [hp]

theorem requireWrite_ok_iff {policy : ManagedPolicy}
    {metadata : List GuestPath} (h : ProperPath parts) {u : Unit} :
    requireWrite b policy (b.guest parts) metadata = .ok u ↔
      Plain parts ∧ (policy.decide (b.guest parts)).canWrite ∧
        Unprotected policy (b.guest parts) metadata := by
  rw [requireWrite, b.decideUri_guest policy h]
  by_cases hp : Plain parts <;> simp [hp, Unprotected, imp_iff_not_or]

variable {path : GuestPath}

theorem Unprotected.of_perm {policy : ManagedPolicy} {m n : List GuestPath}
    (h : m.Perm n) : Unprotected policy path m ↔ Unprotected policy path n := by
  simp only [Unprotected, h.mem_iff]

@[simp] theorem Backend.partsOf_guest (b : Backend) (parts : Path) :
    b.partsOf (b.guest parts) = parts := by
  simp [Backend.partsOf, Backend.guest]

theorem Backend.guest_inj {p q : Path} : b.guest p = b.guest q ↔ p = q := by
  simp [Backend.guest, GuestPath.append]

theorem Backend.guest_contains {p q : Path} :
    (b.guest p).contains (b.guest q) ↔ p <+: q := GuestPath.append_contains _ _ _

theorem Backend.guest_nil (b : Backend) : b.guest [] = b.mount.guest := by
  simp [Backend.guest, GuestPath.append]

theorem Backend.guest_partsOf
    (h : b.mount.guest.contains path) : b.guest (b.partsOf path) = path := by
  obtain ⟨parts, hparts⟩ := GuestPath.contains_iff.mp h
  cases path
  subst hparts
  simp [Backend.guest, Backend.partsOf, GuestPath.append]

/-- A path of a request, below the mount. -/
structure Requested (b : Backend) (uri : List Char) (parts : Path) : Prop where
  read : GuestPath.fromUri b.rules uri "path" = .ok (b.guest parts)
  proper : ProperPath parts
  plain : Plain parts

theorem requested_of_fromUri {uri : List Char} (h : GuestPath.fromUri b.rules uri "path" = .ok path)
    (hin : b.mount.guest.contains path) : Requested b uri (b.partsOf path) := by
  have hclean := fromUri_clean h
  have hmem : ∀ name ∈ b.partsOf path, name ∈ path.parts := fun name => mem_of_mem_drop
  refine ⟨?_, fun name hname => hclean.proper name (hmem name hname),
    fun name hname => hclean.plain name (hmem name hname)⟩
  rw [h, Backend.guest_partsOf hin]

theorem requested_uri (b : Backend) (hproper : ProperPath parts)
    (hplain : Plain parts) : Requested b (b.guest parts).uri parts := by
  have h := b.decideUri_guest ⟨b.mount.guest, []⟩ hproper
  rw [if_pos hplain, Backend.decideUri, mapError_eq_ok, ManagedPolicy.decideUri, bind_eq_ok] at h
  obtain ⟨path, hpath, hdecide⟩ := h
  rw [pure_eq_ok] at hdecide
  have hsame : path = b.guest parts := congrArg Decision.path hdecide
  exact ⟨hsame ▸ hpath, hproper, hplain⟩

theorem locate_ok_iff {policy : ManagedPolicy} {uri : List Char} {rootAllowed writing : Bool} :
    locate b policy uri rootAllowed writing = .ok path ↔
      ∃ parts, path = b.guest parts ∧ Requested b uri parts ∧ (parts ≠ [] ∨ rootAllowed) ∧
        if writing then (policy.decide path).canWrite else (policy.decide path).canRead := by
  simp only [locate, bind_eq_ok, mapError_eq_ok, require_eq_ok, pure_eq_ok, exists_const]
  constructor
  · rintro ⟨found, hread, hin, decision, hdecision, hallowed, rfl⟩
    simp only [Bool.and_eq_true, Bool.or_eq_true, bne_iff_ne] at hin
    have hreq := requested_of_fromUri hread hin.1
    have hguest := Backend.guest_partsOf hin.1
    have hroot : b.partsOf found ≠ [] ∨ rootAllowed := by
      refine hin.2.imp_left fun hne hnil => hne ?_
      rw [← hguest, hnil, Backend.guest_nil]
    refine ⟨b.partsOf found, hguest.symm, hreq, hroot, ?_⟩
    rw [← hguest, b.decideUri_guest policy hreq.proper, if_pos hreq.plain] at hdecision
    cases hdecision
    rw [hguest] at hallowed
    cases writing <;> simpa using hallowed
  · rintro ⟨parts, rfl, hreq, hroot, hallowed⟩
    refine ⟨b.guest parts, hreq.read, ?_, policy.decide (b.guest parts), ?_, ?_, rfl⟩
    · simp only [Bool.and_eq_true, Bool.or_eq_true, bne_iff_ne]
      refine ⟨GuestPath.contains_iff.mpr (prefix_append _ _), hroot.imp_left ?_⟩
      intro hne hmount
      rw [← Backend.guest_nil, Backend.guest_inj] at hmount
      exact hne hmount
    · rw [b.decideUri_guest policy hreq.proper, if_pos hreq.plain]
    · cases writing <;> simpa using hallowed

/-! ### What the directory plan asks for -/

theorem length_takeWhile_range {p : Nat → Bool} {m n : Nat} (hlt : m < n)
    (hall : ∀ k < m, p k) (hm : p m = false) : ((List.range n).takeWhile p).length = m := by
  have hsplit : List.range n = List.range m ++ m :: List.range' (m + 1) (n - m - 1) := by
    have happend := range'_append_1 (s := 0) (m := m) (n := n - m - 1 + 1)
    rw [Nat.zero_add, show m + (n - m - 1 + 1) = n by omega] at happend
    rw [range_eq_range', range_eq_range', ← range'_succ, happend]
  rw [hsplit, takeWhile_append_of_pos (fun k hk => hall k (mem_range.mp hk)),
    takeWhile_cons_of_neg (by simp [hm]), append_nil, length_range]

namespace Sample

/-- A backend of user 1000 mounted at `/w`. -/
def backend : Backend where
  mount := ⟨⟨[['w']]⟩, by decide, ⟨by decide, by decide, by decide⟩⟩
  rules := ⟨id, fun _ => false⟩
  uid := 1000

/-- A policy that lets everything in the mount be written. -/
def policy : ManagedPolicy := ⟨⟨[['w']]⟩, [⟨⟨[['w']]⟩, .write⟩]⟩

theorem two_ne : (2 : UInt64) ≠ 0 := by decide
theorem three_ne : (3 : UInt64) ≠ 0 := by decide
theorem four_ne : (4 : UInt64) ≠ 0 := by decide
theorem five_ne : (5 : UInt64) ≠ 0 := by decide

/-- A root with one empty directory `s`. -/
def workspace : Workspace where
  root := { dev := 1, ino := 2, kind := .directory, mode := 0o700, uid := 1000 }
  entries := [([['s']], { dev := 1, ino := 3, kind := .directory, mode := 0o700, uid := 1000 })]
  root_dir := rfl
  nodup := by decide
  proper := by decide
  parent := by decide

end Sample

end FoldGPT.Files
