import FoldGPT.Acquire.Answer

/-!
# From the decision to the descriptor

`acquisition` asks for a decision, then looks the path up again and opens it:
`pin_project` compares the parent directory and the object it finds with the
identities in the decision, and reopens the very object it compared, or creates a
new one. Other processes may change the tree between any two of its system
calls, so nothing is assumed here of what a lookup finds; only that an object
found has an identity, that `/proc/self/fd` reopens the object it names, and that
an open without `O_CREAT` creates nothing.

Main result: `grant_safe_iff`.
-/

namespace FoldGPT.Acquire

open FoldGPT.Lib FoldGPT.Lib.Encoding FoldGPT.Files

def ENOENT : Nat := 2
def EEXIST : Nat := 17
def EOPNOTSUPP : Nat := 95
def ESTALE : Nat := 116
def O_PATH : Nat := 0o10000000

/-! ### The model of `pin_project` -/

/-- What the kernel answers to the system calls of one `pin_project`, each call finding
the tree as other processes left it. `last` is the `openat2` of a missing object. -/
structure Lookups where
  parent : Except Nat Info
  pin : Except Nat Info
  mkdirat : Except Nat Unit
  dup : Except Nat Unit
  reopen : Except Nat Unit
  last : Except Nat Info

/-- What a call of `pin_project` hands back. -/
inductive Outcome
  /-- A descriptor of an object that was there. -/
  | opened (object : Info)
  /-- A new object in a directory. -/
  | created (parent : Info)
  deriving DecidableEq

def exclusive (flags : Nat) : Bool := flags &&& O_EXCL != 0

/-- `pin_project`: `createDirectory` for `mkdir`. -/
def pinProject (sys : Lookups) (d : Record) (flags : Nat) (createDirectory : Bool) :
    Except Nat Outcome := do
  let parent ← sys.parent
  require (parent.dev = d.parentDevice && parent.ino = d.parentInode) ESTALE
  match sys.pin with
  | .ok pin => do
    require (pin.dev = d.device && pin.ino = d.inode && (pin.isReg || pin.isDir) &&
      !(pin.isReg && pin.nlink != 1)) ESTALE
    require (!createDirectory) EEXIST
    if flags = O_PATH then do
      sys.dup
      pure (.opened pin)
    else do
      require (!(creates flags && exclusive flags)) EEXIST
      sys.reopen
      pure (.opened pin)
  | .error errno => do
    require (errno = ENOENT) errno
    require (d.device = 0 && d.inode = 0) ESTALE
    if createDirectory then do
      sys.mkdirat
      pure (.created parent)
    else if flags = O_PATH then .error ENOENT
    else do
      let object ← sys.last
      -- with `O_CREAT | O_EXCL` the object is new, without `O_CREAT` it was there
      pure (if creates flags then .created parent else .opened object)

/-! ### The model of `acquisition` -/

/-- The notifications that open or create, their path copied and made absolute. -/
inductive Notification
  | opening (flags mode : Nat)
  | mkdir (mode : Nat)

namespace Notification

def operation : Notification → Operation
  | .opening _ _ => .opening
  | .mkdir _ => .mkdir

def flags : Notification → Nat
  | .opening flags _ => flags
  | .mkdir _ => 0

/-- The request may create something. -/
def mayCreate : Notification → Bool
  | .opening flags _ => creates flags
  | .mkdir _ => true

end Notification

/-- The flags that are let through. -/
def ALLOWED : Nat :=
  O_ACCMODE ||| O_APPEND ||| O_CLOEXEC ||| O_CREAT ||| O_DIRECTORY ||| O_EXCL ||| O_NOCTTY |||
    O_NOFOLLOW ||| O_NONBLOCK ||| O_TRUNC ||| O_LARGEFILE

/-- The check of flags and mode; the mode counts only for `O_CREAT`. -/
def openable (flags mode : Nat) : Bool :=
  flags &&& ALLOWED = flags && accessMode flags != O_ACCMODE &&
    (!creates flags || mode &&& 0o777 = mode)

/-- What happens around a notification: whether its identity stays valid after the
decision, the answers to the two calls of `pin_project`, and whether the descriptor
can be inserted. -/
structure System where
  valid : Bool
  first : Lookups
  second : Lookups
  inserted : Bool

/-- How `acquisition` ends. -/
inductive Answer
  /-- The control channel is lost. -/
  | broken
  /-- The notification is no longer there. -/
  | gone
  | error (errno : Nat)
  /-- An object handed out or created at a relative path; `injected` says whether the
  worker got a descriptor of it. -/
  | granted (relative : List Char) (outcome : Outcome) (injected : Bool)
  deriving DecidableEq

/-- The first lookup of an open may find nothing, but not fail otherwise. -/
def toleratesMissing : Except Nat Outcome → Except Nat Unit
  | .ok _ => .ok ()
  | .error errno => require (errno = ENOENT) errno

/-- The part of `acquisition` after a decision without an error. -/
def obtained (sys : System) (d : Record) : Notification → Except Nat (Outcome × Bool)
  | .mkdir _ => do
    let outcome ← pinProject sys.first d 0 true
    pure (outcome, false)
  | .opening flags _ => do
    toleratesMissing (pinProject sys.first d O_PATH false)
    let outcome ← pinProject sys.second d flags false
    pure (outcome, sys.inserted)

/-- `acquisition`, for an open or a `mkdir` of a path that is not the runtime's. -/
def acquisition (p : Policy) (w : Workspace) (sys : System) (id : Nat) (path : List UInt8)
    (n : Notification) : Answer :=
  match n with
  | .opening flags mode => if !openable flags mode then .error EOPNOTSUPP else decided
  | .mkdir _ => decided
where
  decided : Answer :=
    match p.decide w (acquire id path n.operation n.flags) with
    | .error _ => .broken
    | .ok d =>
      if !accepted id d then .broken
      else if d.error ≠ 0 then .error d.error
      else if !sys.valid then .gone
      else match obtained sys d n with
        | .error errno => .error errno
        | .ok (outcome, injected) => .granted d.relative outcome injected

/-! ### What a decision has checked -/

/-- The resolved path of a request below the mount, if it is text and inside. -/
def Policy.target (p : Policy) (path : List UInt8) : Option Path :=
  (utf8Decode path).bind fun value => (p.parts value).toOption

variable {w : Workspace}

/-- **A decision without an error** is the record of the resolved path, which the policy
grants. -/
theorem decide_granted {p : Policy} {id flags : Nat} {path : List UInt8} {operation : Operation}
    {d : Record} (h : p.decide w (acquire id path operation flags) = .ok d) (herror : d.error = 0) :
    ∃ parts, p.target path = some parts ∧ ProperPath parts ∧
      ¬Refused p w parts (acquire id path operation flags) ∧ d = granted w id parts := by
  rw [Policy.decide] at h
  simp only [bind_eq_ok, require_eq_ok, exists_const] at h
  obtain ⟨-, -, h⟩ := h
  have hattempt : p.attempt w (acquire id path operation flags) = .ok d := by
    cases hat : p.attempt w (acquire id path operation flags) with
    | ok record =>
      rw [hat] at h
      exact h
    | error error =>
      rw [hat] at h
      cases error <;> cases h <;> cases herror
  rw [Policy.attempt, acquire, fromHex_toHex] at hattempt
  simp only [bind_eq_ok, require_eq_ok, exists_const] at hattempt
  obtain ⟨-, hdecoded⟩ := hattempt
  cases hdecode : utf8Decode path with
  | none =>
    rw [hdecode] at hdecoded
    cases hdecoded
  | some value =>
    rw [hdecode] at hdecoded
    simp only [bind_eq_ok] at hdecoded
    obtain ⟨parts, hparts, found, hfound, hjudge⟩ := hdecoded
    have htarget : p.target path = some parts := by
      rw [Policy.target, hdecode, Option.bind_some, hparts]
      rfl
    have hvalid := hparts
    simp only [Policy.parts, bind_eq_ok, require_eq_ok, exists_const, Bool.and_eq_true,
      Bool.not_eq_true'] at hvalid
    obtain ⟨⟨-, hnul⟩, -, heq⟩ := hvalid
    have hnul : '\x00' ∉ value := by simpa using hnul
    have hproper : ProperPath parts := by
      intro name hname
      rw [pure_eq_ok] at heq
      exact resolve_proper p hnul name (List.mem_of_mem_drop (heq ▸ hname))
    obtain ⟨hw, hins⟩ := inspect_spec hfound
    by_cases hplain : Plain parts
    · obtain ⟨hrefused, -, hd⟩ := (judge_ok_iff hw hins hproper hplain).mp hjudge
      exact ⟨parts, htarget, hproper, hrefused, hd⟩
    · rw [judge_of_control hproper hplain] at hjudge
      cases hjudge

/-! ### What is opened and where something is created -/

section Pin

variable {sys : Lookups} {d : Record} {flags : Nat} {createDirectory : Bool}

/-- **An object handed out** was compared with the decision, or is one found by an open
without `O_CREAT` where the decision had seen nothing. -/
theorem pinProject_opened {object : Info}
    (h : pinProject sys d flags createDirectory = .ok (.opened object)) :
    createDirectory = false ∧ ((object.dev = d.device ∧ object.ino = d.inode) ∨
      (d.inode = 0 ∧ creates flags = false ∧ sys.last = .ok object)) := by
  rw [pinProject] at h
  simp only [bind_eq_ok, require_eq_ok, exists_const] at h
  obtain ⟨parent, -, -, h⟩ := h
  cases hpin : sys.pin with
  | ok pin =>
    simp only [hpin, bind_eq_ok, require_eq_ok, exists_const, Bool.and_eq_true,
      decide_eq_true_eq, Bool.not_eq_true'] at h
    obtain ⟨⟨⟨⟨hdev, hino⟩, -⟩, -⟩, hmake, h⟩ := h
    have hsame : pin = object := by
      split at h
      all_goals
        simp only [bind_eq_ok, require_eq_ok, exists_const, exists_unit, pure_eq_ok,
          Outcome.opened.injEq] at h
      · exact h.2
      · exact h.2.2
    exact ⟨hmake, .inl (hsame ▸ ⟨hdev, hino⟩)⟩
  | error errno =>
    simp only [hpin, bind_eq_ok, require_eq_ok, exists_const, Bool.and_eq_true,
      decide_eq_true_eq] at h
    obtain ⟨-, ⟨-, hino⟩, h⟩ := h
    split_ifs at h with hmake hpath hcreates
    · simp only [bind_eq_ok, pure_eq_ok] at h
      obtain ⟨-, -, h⟩ := h
      cases h
    · simp only [bind_eq_ok, pure_eq_ok] at h
      obtain ⟨-, -, h⟩ := h
      cases h
    · simp only [bind_eq_ok, pure_eq_ok] at h
      obtain ⟨found, hfound, h⟩ := h
      cases h
      exact ⟨Bool.eq_false_iff.mpr hmake,
        .inr ⟨hino, Bool.eq_false_iff.mpr hcreates, hfound⟩⟩

/-- **Something is created** only in the directory the decision saw above the path, the
decision having seen nothing at the path. -/
theorem pinProject_created {parent : Info}
    (h : pinProject sys d flags createDirectory = .ok (.created parent)) :
    parent.dev = d.parentDevice ∧ parent.ino = d.parentInode ∧ d.device = 0 ∧ d.inode = 0 ∧
      (createDirectory = true ∨ creates flags = true) := by
  rw [pinProject] at h
  simp only [bind_eq_ok, require_eq_ok, exists_const, Bool.and_eq_true, decide_eq_true_eq] at h
  obtain ⟨above, -, ⟨hdev, hino⟩, h⟩ := h
  cases hpin : sys.pin with
  | ok pin =>
    simp only [hpin, bind_eq_ok, require_eq_ok, exists_const] at h
    split at h
    all_goals
      simp only [bind_eq_ok, require_eq_ok, exists_const, pure_eq_ok] at h
      simp at h
  | error errno =>
    simp only [hpin, bind_eq_ok, require_eq_ok, exists_const, Bool.and_eq_true,
      decide_eq_true_eq] at h
    obtain ⟨-, ⟨hdevice, hinode⟩, h⟩ := h
    split_ifs at h with hmake hpath hcreates
    all_goals
      simp only [bind_eq_ok, pure_eq_ok] at h
      obtain ⟨found, -, h⟩ := h
      cases h
    · exact ⟨hdev, hino, hdevice, hinode, .inl hmake⟩
    · exact ⟨hdev, hino, hdevice, hinode, .inr hcreates⟩

end Pin

/-! ### Grants -/

/-- The text is `.`, or has no empty, `.` or `..` component. -/
def CleanRelative (text : List Char) : Prop :=
  text = dot ∨ ∀ name ∈ text.splitOn '/', name ≠ [] ∧ name ≠ dot ∧ name ≠ dotDot

variable {parts : Path}

theorem relative_clean (h : ProperPath parts) : CleanRelative (relative parts) := by
  unfold relative
  split
  · exact .inl rfl
  next hne =>
    refine .inr fun name hname => ?_
    rw [List.splitOn_intercalate '/' (fun piece hpiece => (h piece hpiece).2.1) hne] at hname
    exact ⟨(h name hname).1, (h name hname).2.2.2⟩

/-- The identity of an object is one that the decision saw. -/
def Info.Same (object : Info) (seen : Info) : Prop := seen.dev = object.dev ∧ seen.ino = object.ino

/-- The object handed out is the one seen at the path; the directory in which something
was created is the one seen above it. -/
def Outcome.Seen (w : Workspace) (parts : Path) : Outcome → Prop
  | .opened object => ∃ seen, w.get parts = some seen ∧ Info.Same object seen
  | .created parent => ∃ seen, w.get parts.dropLast = some seen ∧ seen.isDir ∧ Info.Same parent seen

def Outcome.isCreated : Outcome → Bool
  | .opened _ => false
  | .created _ => true

/-- **What a grant must keep to**, `w` being the workspace at the time of the decision. -/
structure Safe (p : Policy) (w : Workspace) (path : List UInt8) (n : Notification)
    (text : List Char) (outcome : Outcome) (parts : Path) : Prop where
  target : p.target path = some parts
  used : text = relative parts
  clean : CleanRelative text
  seen : outcome.Seen w parts
  read : reads n.operation n.flags → (p.policy.decide (p.files.guest parts)).canRead
  write : accessMode n.flags ≠ O_RDONLY ∨ truncates n.flags ∨ outcome.isCreated →
    (p.policy.decide (p.files.guest parts)).canWrite ∧
      ∀ root seen, w.get root = some seen → seen.isDir → isMetadataName (root.getLastD []) →
        root <+: parts → p.policy.explicitGrant (p.files.guest root) (p.files.guest parts)

/-- The request may create the object, or the decision saw one. -/
def Anticipated (p : Policy) (w : Workspace) (path : List UInt8) (n : Notification) : Prop :=
  n.mayCreate ∨ ∃ parts, p.target path = some parts ∧ w.get parts ≠ none

theorem granted_inode_eq_zero {id : Nat} : (granted w id parts).inode = 0 ↔ w.get parts = none := by
  show ((w.get parts).map Info.ino).getD 0 = 0 ↔ _
  cases w.get parts with
  | none => simp
  | some info => simp [info.ino_ne]

theorem writable_grants {p : Policy} (h : Writable p.files p.policy w parts) :
    (p.policy.decide (p.files.guest parts)).canWrite ∧
      ∀ root seen, w.get root = some seen → seen.isDir → isMetadataName (root.getLastD []) →
        root <+: parts → p.policy.explicitGrant (p.files.guest root) (p.files.guest parts) := by
  refine ⟨h.1, fun root seen hget hdir hname hle => ?_⟩
  have hne : root ≠ [] := by
    rintro rfl
    exact absurd hname (by decide)
  refine h.2 _ (mem_metadataOf.mpr ⟨(root, seen), ?_, hname, hdir, rfl⟩)
    (Backend.guest_contains.mpr hle)
  exact Workspace.mem_of_get hne hget

theorem acquisition_granted {p : Policy} {sys : System} {id : Nat}
    {path : List UInt8} {n : Notification} {text : List Char} {outcome : Outcome} {injected : Bool}
    (h : acquisition p w sys id path n = .granted text outcome injected) :
    ∃ d, p.decide w (acquire id path n.operation n.flags) = .ok d ∧ d.error = 0 ∧
      text = d.relative ∧ ((∃ mode, n = .mkdir mode ∧ pinProject sys.first d 0 true = .ok outcome) ∨
        ∃ flags mode, n = .opening flags mode ∧
          pinProject sys.second d flags false = .ok outcome) := by
  have hdecided : acquisition.decided p w sys id path n = .granted text outcome injected := by
    unfold acquisition at h
    split at h
    · split at h
      · cases h
      · exact h
    · exact h
  unfold acquisition.decided at hdecided
  split at hdecided
  · cases hdecided
  next d hd =>
    split_ifs at hdecided with haccepted herror hvalid
    split at hdecided
    · cases hdecided
    next found given hobtained =>
      cases hdecided
      refine ⟨d, hd, not_not.mp herror, rfl, ?_⟩
      cases n with
      | mkdir mode =>
        simp only [obtained, bind_eq_ok, pure_eq_ok, Prod.mk.injEq] at hobtained
        obtain ⟨made, hmade, rfl, -⟩ := hobtained
        exact .inl ⟨mode, rfl, hmade⟩
      | opening flags mode =>
        simp only [obtained, bind_eq_ok, pure_eq_ok, Prod.mk.injEq] at hobtained
        obtain ⟨-, -, made, hmade, rfl, -⟩ := hobtained
        exact .inr ⟨flags, mode, rfl, hmade⟩

/-- **A grant keeps to its decision** exactly when the request may create the object or
the decision saw one. -/
theorem grant_safe_iff (p : Policy) (w : Workspace) (sys : System) (id : Nat) (path : List UInt8)
    (n : Notification) (text : List Char) (outcome : Outcome) (injected : Bool)
    (h : acquisition p w sys id path n = .granted text outcome injected) :
    (∃ parts, Safe p w path n text outcome parts) ↔ Anticipated p w path n := by
  obtain ⟨d, hdecide, herror, rfl, hpin⟩ := acquisition_granted h
  obtain ⟨parts, htarget, hproper, hrefused, rfl⟩ := decide_granted hdecide herror
  have hread : reads n.operation n.flags = true →
      (p.policy.decide (p.files.guest parts)).canRead = true :=
    fun hr => by_contra fun hc => hrefused (.inl ⟨hr, hc⟩)
  have hwrite : writes n.operation n.flags (w.get parts).isNone = true →
      Writable p.files p.policy w parts :=
    fun hw => by_contra fun hc => hrefused (.inr ⟨hw, .inl hc⟩)
  have hanticipated : Anticipated p w path n ↔ n.mayCreate ∨ w.get parts ≠ none := by
    simp [Anticipated, htarget]
  rw [hanticipated]
  cases outcome with
  | created parent =>
    have hmade : parent.dev = (granted w id parts).parentDevice ∧
        parent.ino = (granted w id parts).parentInode ∧ w.get parts = none ∧
        n.mayCreate = true ∧ writes n.operation n.flags true = true := by
      rcases hpin with ⟨mode, rfl, hpin⟩ | ⟨flags, mode, rfl, hpin⟩
      · obtain ⟨hdev, hino, -, hzero, -⟩ := pinProject_created hpin
        exact ⟨hdev, hino, granted_inode_eq_zero.mp hzero, rfl, rfl⟩
      · obtain ⟨hdev, hino, -, hzero, hcreates⟩ := pinProject_created hpin
        have hcreates : creates flags = true := hcreates.resolve_left (by rintro ⟨⟩)
        refine ⟨hdev, hino, granted_inode_eq_zero.mp hzero, hcreates, ?_⟩
        simp [writes, Notification.operation, Notification.flags, hcreates]
    obtain ⟨hdev, hino, hnone, hmay, hwrites⟩ := hmade
    refine iff_of_true ⟨parts, htarget, rfl, relative_clean hproper, ?_, hread, fun _ => ?_⟩
      (.inl hmay)
    · -- a parent that was not seen would have inode number 0
      cases hseen : (w.get parts.dropLast).filter Info.isDir with
      | none =>
        have hzero : (granted w id parts).parentInode = 0 := by simp [granted, hseen]
        exact absurd (hino.trans hzero) parent.ino_ne
      | some seen =>
        obtain ⟨hget, hdir⟩ := Option.filter_eq_some_iff.mp hseen
        refine ⟨seen, hget, hdir, ?_, ?_⟩
        · rw [hdev]
          simp [granted, hseen]
        · rw [hino]
          simp [granted, hseen]
    · exact writable_grants (hwrite (by rw [hnone]; exact hwrites))
  | opened object =>
    rcases hpin with ⟨mode, rfl, hpin⟩ | ⟨flags, mode, rfl, hpin⟩
    · exact absurd (pinProject_opened hpin).1 (by rintro ⟨⟩)
    · cases hget : w.get parts with
      | none =>
        -- the decision saw nothing, so the object can only be one found without `O_CREAT`
        have hcreates : creates flags = false := by
          rcases (pinProject_opened hpin).2 with ⟨-, hino⟩ | ⟨-, hcreates, -⟩
          · exact absurd (hino.trans (granted_inode_eq_zero.mpr hget)) object.ino_ne
          · exact hcreates
        refine iff_of_false ?_ ?_
        · rintro ⟨other, hsafe⟩
          obtain ⟨seen, hseen, -⟩ := hsafe.seen
          have hother : parts = other := Option.some.inj (htarget.symm.trans hsafe.target)
          rw [← hother, hget] at hseen
          cases hseen
        · simp [Notification.mayCreate, hcreates]
      | some seen =>
        refine iff_of_true ⟨parts, htarget, rfl, relative_clean hproper, ?_, hread, fun hw => ?_⟩
          (.inr (by simp))
        · rcases (pinProject_opened hpin).2 with ⟨hdev, hino⟩ | ⟨hzero, -, -⟩
          · refine ⟨seen, hget, ?_, ?_⟩
            · rw [hdev]
              simp [granted, hget]
            · rw [hino]
              simp [granted, hget]
          · rw [granted_inode_eq_zero.mp hzero] at hget
            cases hget
        · refine writable_grants (hwrite ?_)
          have hw : accessMode flags ≠ O_RDONLY ∨ truncates flags = true := by
            simpa [Outcome.isCreated, Notification.flags] using hw
          rcases hw with hmode | htrunc
          · simp [writes, Notification.operation, Notification.flags, hmode]
          · simp [writes, Notification.operation, Notification.flags, htrunc]

namespace Sample

open FoldGPT.Files.Sample

/-- The directory `s` of the sample workspace. -/
def directory : Info :=
  { dev := 1, ino := 3, kind := .directory, mode := 0o700, uid := 1000, ino_ne := three_ne }

/-- A file another process created after the decision. -/
def intruder : Info := { dev := 1, ino := 9, kind := .regular, mode := 0o600, uid := 1000 }

/-- Lookups that find the root above the path and `pin` at it, and `last` at the end. -/
def lookups (pin last : Except Nat Info) : Lookups :=
  ⟨.ok workspace.root, pin, .error EEXIST, .ok (), .ok (), last⟩

/-- Nobody interferes with an open of `s`. -/
def quiet : System :=
  ⟨true, lookups (.ok directory) (.error EEXIST), lookups (.ok directory) (.error EEXIST), true⟩

/-- Another process creates the file between the last two system calls. -/
def race : System :=
  ⟨true, lookups (.error ENOENT) (.error ENOENT), lookups (.error ENOENT) (.ok intruder), true⟩

end Sample

open Sample FoldGPT.Files.Sample in
/-- Opening `s` read-only is granted and safe. -/
theorem grant_safe_directory :
    ∃ parts, Safe processPolicy workspace [115] (.opening 0 0) ['s'] (.opened directory) parts :=
  (grant_safe_iff processPolicy workspace quiet 1 [115] (.opening 0 0) ['s'] (.opened directory)
    true (by decide +kernel)).mpr (.inr ⟨[['s']], by decide +kernel, by decide⟩)

open Sample FoldGPT.Files.Sample in
/-- A read-only open of a missing file hands out an object that no decision saw. -/
theorem unseen_object_granted :
    acquisition processPolicy workspace race 1 [120] (.opening 0 0) =
        .granted ['x'] (.opened intruder) true ∧
      ¬∃ parts, Safe processPolicy workspace [120] (.opening 0 0) ['x'] (.opened intruder) parts := by
  refine ⟨by decide +kernel, ?_⟩
  rintro ⟨parts, hsafe⟩
  have htarget : processPolicy.target [120] = some [['x']] := by decide +kernel
  have hparts : [['x']] = parts := Option.some.inj (htarget.symm.trans hsafe.target)
  obtain ⟨seen, hseen, -⟩ := hsafe.seen
  have hnone : workspace.get [['x']] = none := by decide
  rw [← hparts, hnone] at hseen
  cases hseen

end FoldGPT.Acquire
