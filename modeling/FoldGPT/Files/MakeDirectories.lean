import FoldGPT.Files.Remove
import FoldGPT.Files.CreateDirectory
import Mathlib.Data.Nat.Bitwise

/-!
# Making the missing directories

`_directory_plan` hands the helper the text of a path, how many of its components are
missing and the identity of the directory they start in. `create_directories` splits
the text again, opens the rest of it, and makes the missing components from the top.
The tree is the one of `FoldGPT.Files.Verify`.

Main results: `directories_made`, `unwritable_not_made`.
-/

namespace FoldGPT.Files.Helper

open FoldGPT.Lib FoldGPT.Lib.Encoding
open List hiding utf8Encode

/-! ### The helper -/

/-- The errors the helper reports here. -/
inductive Cause
  | enoent
  | enotdir
  | eacces
  | eexist
  | einval
  | e2big
  | enametoolong
  | estale
  | eperm
  | eio
  deriving DecidableEq, Repr

inductive MakeStage
  | invocation
  | rootOwnership
  | directoryState
  | opening
  | mkdir
  | directorySync
  | close
  deriving DecidableEq, Repr

/-- What `error` prints. -/
structure Diagnostic where
  stage : MakeStage
  errno : Cause
  deriving DecidableEq, Repr

/-- `NAME_MAX`. -/
def nameMax : Nat := 255

/-- The owner's permission to change a directory. -/
def Attributes.writable (a : Attributes) : Bool := a.mode &&& 0o200 != 0

/-- The loop that splits the path: what is wrong with its components. -/
def checkComponents : List FileName → Nat → Option Cause
  | [], _ => none
  | name :: rest, count =>
    if count = MAX_DEPTH then some .e2big
    else if nameMax < name.val.length then some .enametoolong
    else checkComponents rest (count + 1)

/-- Why a directory cannot be opened. -/
def openCause (t : Tree) (path : List FileName) : Cause :=
  match (List.range path.length).find? fun n =>
      !((t.get (path.take n)).any fun a => a.isDir && a.searchable) ||
        (t.get (path.take (n + 1))).isNone with
  | some n =>
    match t.get (path.take n) with
    | none => .enoent
    | some a =>
      if a.isDir = false then .enotdir else if a.searchable = false then .eacces else .enoent
  | none => if (t.get path).any Attributes.isDir then .eacces else .enotdir

/-- The directory the missing ones start in; the root is open already. -/
def openExisting (t : Tree) (path : List FileName) : Except Cause Attributes :=
  if path = [] then .ok t.root
  else
    match openDirectory t (textOf path) with
    | some a => .ok a
    | none => .error (openCause t path)

/-- What the kernel chooses for a new directory. -/
structure Birth where
  device : Nat
  inode : Nat
  touch : Touch

/-- A directory made with mode `0700`; the set-group-ID bit is handed down. -/
def newDirectory (uid : Nat) (birth : Birth) (parent : Attributes) : Attributes :=
  Attributes.touched birth.touch
    ⟨birth.device, birth.inode, 0o040700 + (parent.mode &&& 0o2000), uid, 0, 0, 0, 0, 0, 0⟩

def mkdirat (uid : Nat) (birth : Birth) (x : Touch) (directory : List FileName) (name : FileName)
    (t : Tree) : Except Cause Tree :=
  match t.get directory with
  | none => .error .enoent
  | some parent =>
    if parent.isDir = false then .error .enotdir
    else if parent.searchable = false then .error .eacces
    else if room : t.Room (directory ++ [name]) then
      if parent.writable then
        .ok ((t.insert (directory ++ [name]) (newDirectory uid birth parent) room).modify directory
          (Attributes.touched x) (Attributes.isDir_touched x))
      else .error .eacces
    else .error .eexist

/-- The new directory is opened and looked at. -/
def checkMade (uid : Nat) (t : Tree) (path : List FileName) : Option Diagnostic :=
  match t.get path with
  | none => some ⟨.opening, .enoent⟩
  | some a =>
    if a.isDir = false then some ⟨.opening, .enotdir⟩
    else if a.readable = false then some ⟨.opening, .eacces⟩
    else if a.owner ≠ uid ∨ a.mode &&& 0o777 ≠ 0o700 then some ⟨.directoryState, .eperm⟩
    else none

/-- The tree, and the directories made in it. -/
structure Making where
  tree : Tree
  made : List Bytes

/-- The loop that makes the missing directories. A call that fails of itself is given as
what it reports; all but `mkdirat` fail behind it. -/
def makeLoop (uid : Nat) (faults : Nat → Option Diagnostic) (births : Nat → Birth)
    (touches : Nat → Touch) : List FileName → List FileName → Making → Making × Option Diagnostic
  | _, [], s => (s, none)
  | directory, name :: rest, s =>
    if (faults s.made.length).any fun d => d.stage = .mkdir then (s, faults s.made.length)
    else
      match mkdirat uid (births s.made.length) (touches s.made.length) directory name s.tree with
      | .error errno => (s, some ⟨.mkdir, errno⟩)
      | .ok tree =>
        match (checkMade uid tree (directory ++ [name])).or (faults s.made.length) with
        | some diagnostic =>
          (⟨tree, s.made ++ [textOf (directory ++ [name])]⟩, some diagnostic)
        | none =>
          makeLoop uid faults births touches (directory ++ [name]) rest
            ⟨tree, s.made ++ [textOf (directory ++ [name])]⟩

/-- The checks on the last existing directory, and the first missing component. -/
def makeBelow (uid : Nat) (faults : Nat → Option Diagnostic) (births : Nat → Birth)
    (touches : Nat → Touch) (recursive : Bool) (device inode : Nat)
    (start rest : List FileName) (t : Tree) : Making × Option Diagnostic :=
  match openExisting t start with
  | .error errno => (⟨t, []⟩, some ⟨.opening, errno⟩)
  | .ok directory =>
    if directory.isDir = false ∨ directory.owner ≠ uid ∨ directory.device ≠ device ∨
        directory.inode ≠ inode then
      (⟨t, []⟩, some ⟨.directoryState, .estale⟩)
    else
      match rest with
      | [] => if recursive then (⟨t, []⟩, none) else (⟨t, []⟩, some ⟨.mkdir, .eexist⟩)
      | name :: more =>
        if directory.searchable = false then (⟨t, []⟩, some ⟨.opening, .eacces⟩)
        else if (t.get (start ++ [name])).isSome then (⟨t, []⟩, some ⟨.directoryState, .eexist⟩)
        else makeLoop uid faults births touches start (name :: more) ⟨t, []⟩

/-- `create_directories` on its arguments, behind the checks of `main`. -/
def makeDirectories (uid : Nat) (faults : Nat → Option Diagnostic) (births : Nat → Birth)
    (touches : Nat → Touch) (recursive : Bool) (path missing device inode : Bytes) (t : Tree) :
    Making × Option Diagnostic :=
  if validRelative path = false ∧ path ≠ [46] then (⟨t, []⟩, some ⟨.invocation, .einval⟩)
  else if t.root.owner ≠ uid ∨ t.root.mode &&& 0o077 ≠ 0 then
    (⟨t, []⟩, some ⟨.rootOwnership, .eperm⟩)
  else
    match decimal missing, decimal device, decimal inode, resolve path with
    | some missing, some device, some inode, some components =>
      if MAX_DEPTH < missing then (⟨t, []⟩, some ⟨.directoryState, .einval⟩)
      else
        match checkComponents components 0 with
        | some errno => (⟨t, []⟩, some ⟨.directoryState, errno⟩)
        | none =>
          if components.length < missing then (⟨t, []⟩, some ⟨.directoryState, .einval⟩)
          else if recursive = false ∧ 1 < missing then (⟨t, []⟩, some ⟨.opening, .enoent⟩)
          else
            makeBelow uid faults births touches recursive device inode
              (components.take (components.length - missing))
              (components.drop (components.length - missing)) t
    | _, _, _, _ => (⟨t, []⟩, some ⟨.directoryState, .einval⟩)

/-- The text of a number, as Python's `str` writes it. -/
def digits (n : Nat) : Bytes := utf8Encode (Files.decimal n)

/-- The helper, run with the arguments `_directory_plan` returns. -/
def runPlan (uid : Nat) (faults : Nat → Option Diagnostic) (births : Nat → Birth)
    (touches : Nat → Touch) (plan : DirectoryPlan) (t : Tree) : Making × Option Diagnostic :=
  makeDirectories uid faults births touches plan.recursive (pathText plan.parts)
    (digits plan.missing) (digits plan.device.toNat) (digits plan.inode.toNat) t

/-! ### Paths and trees on both sides -/

/-- The components of the helper are those of the backend, encoded. -/
def Spells (path : List FileName) (parts : Path) : Prop :=
  path.map Subtype.val = parts.map utf8Encode

theorem exists_spells {parts : Path} (h : ProperPath parts) : ∃ path, Spells path parts := by
  induction parts with
  | nil => exact ⟨[], rfl⟩
  | cons name rest ih =>
    obtain ⟨path, hpath⟩ := ih fun other hother => h other (mem_cons_of_mem _ hother)
    have hname := properName_utf8Encode (h name mem_cons_self)
    refine ⟨⟨utf8Encode name, hname⟩ :: path, ?_⟩
    rw [Spells, map_cons, map_cons, hpath]

theorem Spells.length {path : List FileName} {parts : Path} (h : Spells path parts) :
    path.length = parts.length := by
  have hlength := congrArg List.length h
  rwa [length_map, length_map] at hlength

theorem Spells.take {path : List FileName} {parts : Path} (h : Spells path parts) (n : Nat) :
    Spells (path.take n) (parts.take n) := by
  rw [Spells, map_take, map_take, h]

/-- **The texts are the same.** -/
theorem Spells.text {path : List FileName} {parts : Path} (h : Spells path parts) :
    textOf path = pathText parts := by
  rw [textOf, h, pathText_eq]

/-- What the helper sees of an object. -/
def seen (e : List FileName × Attributes) : Bytes × Nat × Nat × Nat × Nat :=
  (textOf e.1, e.2.device, e.2.inode, e.2.mode, e.2.owner)

/-- What the backend saw of it. -/
def shown (e : Path × Info) : Bytes × Nat × Nat × Nat × Nat :=
  (pathText e.1, e.2.dev.toNat, e.2.ino.toNat, e.2.stMode, e.2.uid)

/-- **No concurrent change**: the helper finds the objects the backend inspected. -/
def Shows (w : Workspace) (t : Tree) : Prop := (t.nodes.map seen).Perm (w.nodes.map shown)

instance (w : Workspace) (t : Tree) : Decidable (Shows w t) :=
  inferInstanceAs (Decidable (List.Perm _ _))

/-- An object as the backend saw it. -/
structure Same (a : Attributes) (info : Info) : Prop where
  device : a.device = info.dev.toNat
  inode : a.inode = info.ino.toNat
  mode : a.mode = info.stMode
  owner : a.owner = info.uid

variable {w : Workspace} {t : Tree} {path : List FileName} {parts : Path}

theorem properPath_of_node {e : Path × Info} (he : e ∈ w.nodes) : ProperPath e.1 := by
  rcases mem_cons.mp he with rfl | hentry
  · exact nofun
  · exact (w.proper e hentry).2

theorem Shows.get_some (h : Shows w t) (htext : textOf path = pathText parts) {info : Info}
    (hinfo : w.get parts = some info) : ∃ a, t.get path = some a ∧ Same a info := by
  have hmem : shown (parts, info) ∈ t.nodes.map seen :=
    h.mem_iff.mpr (mem_map_of_mem (Workspace.get_eq_some.mp hinfo))
  obtain ⟨e, he, heq⟩ := mem_map.mp hmem
  simp only [seen, shown, Prod.mk.injEq] at heq
  obtain ⟨hpath, hdevice, hinode, hmode, howner⟩ := heq
  have hsame : e.1 = path := textOf_injective (hpath.trans htext.symm)
  exact ⟨e.2, hsame ▸ PathTree.get_eq_some.mpr he, hdevice, hinode, hmode, howner⟩

theorem Shows.get_none (h : Shows w t) (htext : textOf path = pathText parts)
    (hproper : ProperPath parts) (hnone : w.get parts = none) : t.get path = none := by
  by_contra hsome
  obtain ⟨a, ha⟩ := Option.ne_none_iff_exists'.mp hsome
  have hmem : seen (path, a) ∈ w.nodes.map shown :=
    h.mem_iff.mp (mem_map_of_mem (PathTree.get_eq_some.mp ha))
  obtain ⟨e, he, heq⟩ := mem_map.mp hmem
  simp only [seen, shown, Prod.mk.injEq] at heq
  have hsame : e.1 = parts :=
    relative_injective (properPath_of_node he) hproper (heq.1.trans htext)
  have hget : w.get parts = some e.2 := hsame ▸ Workspace.get_eq_some.mpr he
  rw [hnone] at hget
  cases hget

/-- Masks below the type bits read the permissions. -/
theorem stMode_and_low {info : Info} (h : info.mode < 0o10000) {mask : Nat}
    (hmask : mask < 2 ^ 12) : info.stMode &&& mask = info.mode &&& mask := by
  have hlow : ∀ type, (info.mode + type * 2 ^ 12) &&& mask = info.mode &&& mask := by
    intro type
    have hdiv := Nat.and_div_two_pow (a := info.mode + type * 2 ^ 12) (b := mask) (n := 12)
    have hmod := Nat.and_mod_two_pow (a := info.mode + type * 2 ^ 12) (b := mask) (n := 12)
    rw [Nat.div_eq_of_lt hmask, Nat.and_zero] at hdiv
    rw [Nat.mod_eq_of_lt hmask, show (info.mode + type * 2 ^ 12) % 2 ^ 12 = info.mode by omega]
      at hmod
    omega
  rw [Info.stMode]
  cases info.kind with
  | regular => exact hlow 8
  | directory => exact hlow 4
  | other => exact hlow 0

section

variable {a : Attributes} {info : Info} (h : Same a info) (hmode : info.mode < 0o10000)

include h hmode

theorem Same.isDir : a.isDir = info.isDir := by
  rw [Attributes.isDir, h.mode]
  exact (isDirMode_stMode hmode).1

theorem Same.readable : a.readable = info.readable := by
  rw [Attributes.readable, h.mode, stMode_and_low hmode (by decide)]
  rfl

theorem Same.writable : a.writable = info.writable := by
  rw [Attributes.writable, h.mode, stMode_and_low hmode (by decide)]
  rfl

theorem Same.searchable : a.searchable = info.searchable := by
  rw [Attributes.searchable, h.mode, stMode_and_low hmode (by decide)]
  rfl

end

/-! ### New directories -/

variable {uid : Nat} {directory : List FileName} {name : FileName}

/-- A directory as the helper makes it. -/
structure Fresh (uid : Nat) (a : Attributes) : Prop where
  isDir : a.isDir = true
  readable : a.readable = true
  writable : a.writable = true
  searchable : a.searchable = true
  bits : a.mode &&& 0o777 = 0o700
  owner : a.owner = uid

theorem fresh_newDirectory (uid : Nat) (birth : Birth) (parent : Attributes) :
    Fresh uid (newDirectory uid birth parent) := by
  have hbit : parent.mode &&& 0o2000 = 0 ∨ parent.mode &&& 0o2000 = 0o2000 := by
    rw [show (0o2000 : Nat) = 2 ^ 10 from rfl, Nat.and_two_pow]
    cases parent.mode.testBit 10 with
    | false => left; rfl
    | true => right; rfl
  have hmode : (newDirectory uid birth parent).mode = 0o040700 ∨
      (newDirectory uid birth parent).mode = 0o042700 := by
    rcases hbit with hzero | hone
    · left
      show 0o040700 + (parent.mode &&& 0o2000) = _
      rw [hzero]
    · right
      show 0o040700 + (parent.mode &&& 0o2000) = _
      rw [hone]
  rcases hmode with hmode | hmode
  all_goals
    refine ⟨?_, ?_, ?_, ?_, ?_, rfl⟩
    · rw [Attributes.isDir, hmode]
      decide
    · rw [Attributes.readable, hmode]
      decide
    · rw [Attributes.writable, hmode]
      decide
    · rw [Attributes.searchable, hmode]
      decide
    · rw [hmode]
      decide

/-- What is left of a new directory when something is made in it. -/
theorem Fresh.kept {a a' : Attributes} (h : Fresh uid a) (hkept : Kept a a') : Fresh uid a' := by
  obtain ⟨-, -, hmode, howner, -⟩ := hkept
  refine ⟨?_, ?_, ?_, ?_, ?_, howner.trans h.owner⟩
  · rw [Attributes.isDir, hmode]
    exact h.isDir
  · rw [Attributes.readable, hmode]
    exact h.readable
  · rw [Attributes.writable, hmode]
    exact h.writable
  · rw [Attributes.searchable, hmode]
    exact h.searchable
  · rw [hmode]
    exact h.bits

theorem Kept.trans {a a' a'' : Attributes} (h : Kept a a') (h' : Kept a' a'') : Kept a a'' := by
  have hdir := h.isDir
  obtain ⟨hdevice, hinode, hmode, howner, hfile⟩ := h
  obtain ⟨hdevice', hinode', hmode', howner', hfile'⟩ := h'
  refine ⟨hdevice'.trans hdevice, hinode'.trans hinode, hmode'.trans hmode,
    howner'.trans howner, ?_⟩
  intro hleaf
  rw [hfile' (hdir.trans hleaf), hfile hleaf]

/-- **The tree with the components below a directory made**, and nothing else; the
directory itself may have been touched. -/
structure Grown (uid : Nat) (t : Tree) (directory names : List FileName) (t' : Tree) : Prop where
  made : ∀ k, 1 ≤ k → k ≤ names.length → t.get (directory ++ names.take k) = none ∧
    ∃ a, t'.get (directory ++ names.take k) = some a ∧ Fresh uid a
  kept : ∀ p a, t.get p = some a → ∃ a', t'.get p = some a' ∧ Kept a a' ∧
    (p ≠ directory → a' = a)
  other : ∀ p, t.get p = none → t'.get p ≠ none →
    ∃ k, 1 ≤ k ∧ k ≤ names.length ∧ p = directory ++ names.take k

theorem Grown.refl (uid : Nat) (t : Tree) (directory : List FileName) : Grown uid t directory [] t where
  made := by
    intro k hlow hhigh
    rw [length_nil] at hhigh
    omega
  kept := fun _ a ha => ⟨a, ha, Kept.refl a, fun _ => rfl⟩
  other := fun _ hnone hsome => absurd hnone hsome

theorem mkdirat_eq_ok {parent : Attributes} (hparent : t.get directory = some parent)
    (hdir : parent.isDir = true) (hsearch : parent.searchable = true)
    (hwrite : parent.writable = true) (hnone : t.get (directory ++ [name]) = none) (birth : Birth)
    (x : Touch) : ∃ t', mkdirat uid birth x directory name t = .ok t' ∧
      t'.get (directory ++ [name]) = some (newDirectory uid birth parent) ∧
      Grown uid t directory [name] t' := by
  have hroom : t.Room (directory ++ [name]) := by
    refine ⟨by simp, hnone, ?_⟩
    rw [dropLast_concat, hparent]
    exact hdir
  have hother : directory ++ [name] ≠ directory := by simp
  have hmkdir : mkdirat uid birth x directory name t =
      .ok ((t.insert (directory ++ [name]) (newDirectory uid birth parent) hroom).modify directory
        (Attributes.touched x) (Attributes.isDir_touched x)) := by
    rw [mkdirat, hparent]
    dsimp only
    rw [if_neg (by simp [hdir]), if_neg (by simp [hsearch]), dif_pos hroom, if_pos hwrite]
  refine ⟨_, hmkdir, ?_, ?_⟩
  · rw [PathTree.get_modify, if_neg hother, PathTree.get_insert, if_pos rfl]
  · refine ⟨?_, ?_, ?_⟩
    · intro k hlow hhigh
      obtain rfl : k = 1 := by
        rw [length_singleton] at hhigh
        omega
      refine ⟨hnone, _, ?_, fresh_newDirectory uid birth parent⟩
      rw [PathTree.get_modify, take_succ_cons, take_nil, if_neg hother,
        PathTree.get_insert, if_pos rfl]
    · intro p a ha
      have hne : p ≠ directory ++ [name] := by
        intro heq
        rw [heq, hnone] at ha
        cases ha
      rw [PathTree.get_modify, PathTree.get_insert, if_neg hne, ha]
      by_cases hp : p = directory
      · rw [if_pos hp]
        rw [hp, hparent] at ha
        cases ha
        exact ⟨_, rfl, (Kept.refl parent).touched hdir x, fun hne => absurd hp hne⟩
      · rw [if_neg hp]
        exact ⟨a, rfl, Kept.refl a, fun _ => rfl⟩
    · intro p hp hsome
      refine ⟨1, Nat.le_refl 1, Nat.le_refl 1, ?_⟩
      by_contra hne
      rw [take_succ_cons, take_nil] at hne
      apply hsome
      rw [PathTree.get_modify, PathTree.get_insert, if_neg hne, hp, Option.map_none, ite_self]

/-- The first component, then those below it. -/
theorem Grown.cons {t' t'' : Tree} {rest : List FileName} (h : Grown uid t directory [name] t')
    (h' : Grown uid t' (directory ++ [name]) rest t'') :
    Grown uid t directory (name :: rest) t'' := by
  have hjoin : ∀ k, directory ++ [name] ++ rest.take k = directory ++ (name :: rest).take (k + 1) := by
    intro k
    simp
  obtain ⟨hfirst, a, ha, hfresh⟩ := h.made 1 (Nat.le_refl 1) (Nat.le_refl 1)
  rw [take_succ_cons, take_nil] at hfirst ha
  refine ⟨?_, ?_, ?_⟩
  · intro k hlow hhigh
    rw [length_cons] at hhigh
    by_cases hone : k = 1
    · subst hone
      obtain ⟨a', ha', hkept, -⟩ := h'.kept _ a ha
      exact ⟨hfirst, a', ha', hfresh.kept hkept⟩
    · obtain ⟨k, rfl⟩ : ∃ j, k = j + 1 := ⟨k - 1, by omega⟩
      obtain ⟨-, hmade⟩ := h'.made k (by omega) (by omega)
      rw [hjoin] at hmade
      refine ⟨?_, hmade⟩
      refine PathTree.get_none_below hfirst ?_
      rw [← hjoin]
      exact prefix_append _ _
  · intro p b hb
    obtain ⟨b', hb', hkept, hsame⟩ := h.kept p b hb
    obtain ⟨b'', hb'', hkept', hsame'⟩ := h'.kept p b' hb'
    refine ⟨b'', hb'', hkept.trans hkept', ?_⟩
    intro hne
    have hother : p ≠ directory ++ [name] := by
      intro heq
      rw [heq, hfirst] at hb
      cases hb
    rw [hsame' hother, hsame hne]
  · intro p hp hsome
    by_cases hmiddle : t'.get p = none
    · obtain ⟨k, hlow, hhigh, rfl⟩ := h'.other p hmiddle hsome
      refine ⟨k + 1, by omega, ?_, hjoin k⟩
      rw [length_cons]
      omega
    · obtain ⟨k, hlow, hhigh, rfl⟩ := h.other p hp hmiddle
      obtain rfl : k = 1 := by
        rw [length_singleton] at hhigh
        omega
      refine ⟨1, Nat.le_refl 1, ?_, by simp⟩
      rw [length_cons]
      omega

/-! ### The loop -/

variable {faults : Nat → Option Diagnostic} {births : Nat → Birth} {touches : Nat → Touch}

/-- The texts of the first components made below a directory. -/
def madeTexts (directory names : List FileName) : List Bytes :=
  (List.range names.length).map fun k => textOf (directory ++ names.take (k + 1))

theorem madeTexts_cons (directory : List FileName) (name : FileName) (rest : List FileName) :
    madeTexts directory (name :: rest) =
      textOf (directory ++ [name]) :: madeTexts (directory ++ [name]) rest := by
  rw [madeTexts, madeTexts, length_cons, range_succ_eq_map, map_cons, map_map]
  simp [Function.comp_def]

theorem checkMade_eq_none {a : Attributes} (ha : t.get path = some a) (h : Fresh uid a) :
    checkMade uid t path = none := by
  rw [checkMade, ha]
  dsimp only
  rw [if_neg (by simp [h.isDir]), if_neg (by simp [h.readable]), if_neg]
  intro hbad
  rcases hbad with howner | hbits
  · exact howner h.owner
  · exact hbits h.bits

/-- **The loop** makes a first part of the missing components, and all of them if no
call fails. -/
theorem makeLoop_spec {names : List FileName} {s : Making} {parent : Attributes}
    (hparent : s.tree.get directory = some parent) (hdir : parent.isDir = true)
    (hsearch : parent.searchable = true) (hwrite : parent.writable = true)
    (hnone : ∀ name, names.head? = some name → s.tree.get (directory ++ [name]) = none) :
    ∃ made, made <+: names ∧
      (makeLoop uid faults births touches directory names s).1.made =
        s.made ++ madeTexts directory made ∧
      Grown uid s.tree directory made (makeLoop uid faults births touches directory names s).1.tree ∧
      ((makeLoop uid faults births touches directory names s).2 = none → made = names) ∧
      ((∀ n, faults n = none) →
        (makeLoop uid faults births touches directory names s).2 = none) := by
  -- the induction is on the components; the directory just made is fresh, so the next can be made
  induction names generalizing directory s parent with
  | nil =>
    exact ⟨[], prefix_rfl, (append_nil _).symm, Grown.refl uid s.tree directory,
      fun _ => rfl, fun _ => rfl⟩
  | cons name rest ih =>
    obtain ⟨tree, hmkdir, hnew, hgrown⟩ := mkdirat_eq_ok hparent hdir hsearch hwrite
      (hnone name rfl) (births s.made.length) (touches s.made.length)
    have hfresh := fresh_newDirectory uid (births s.made.length) parent
    rw [makeLoop]
    by_cases hfault : (faults s.made.length).any (fun d => d.stage = .mkdir) = true
    · -- `mkdirat` fails of itself
      rw [if_pos hfault]
      obtain ⟨d, hd⟩ : ∃ d, faults s.made.length = some d := by
        cases hcase : faults s.made.length with
        | none =>
          rw [hcase] at hfault
          cases hfault
        | some d => exact ⟨d, rfl⟩
      refine ⟨[], nil_prefix, (append_nil _).symm, Grown.refl uid s.tree directory,
        ?_, ?_⟩
      · intro hsuccess
        rw [hd] at hsuccess
        cases hsuccess
      · intro hclean
        exact hclean _
    · rw [if_neg hfault, hmkdir]
      dsimp only
      rw [checkMade_eq_none hnew hfresh, Option.none_or]
      cases hcase : faults s.made.length with
      | some d =>
        refine ⟨[name], ⟨rest, rfl⟩, ?_, hgrown, nofun, ?_⟩
        · rfl
        · intro hclean
          rw [hclean] at hcase
          cases hcase
      | none =>
        have hnext : ∀ next, rest.head? = some next →
            tree.get (directory ++ [name] ++ [next]) = none := by
          intro next _
          by_contra hsome
          have hbefore : s.tree.get (directory ++ [name] ++ [next]) = none :=
            PathTree.get_none_below (hnone name rfl) (prefix_append _ _)
          obtain ⟨k, -, hhigh, heq⟩ := hgrown.other _ hbefore hsome
          have hlength := congrArg List.length heq
          rw [length_append, length_append, length_append, length_take,
            length_singleton, length_singleton] at hlength
          omega
        obtain ⟨made, hmade, htexts, hgrown', hall, hclean⟩ :=
          ih (s := ⟨tree, s.made ++ [textOf (directory ++ [name])]⟩) hnew hfresh.isDir
            hfresh.searchable hfresh.writable hnext
        refine ⟨name :: made, (prefix_cons_inj name).mpr hmade, ?_, hgrown.cons hgrown', ?_,
          hclean⟩
        · rw [htexts, madeTexts_cons, append_assoc]
          rfl
        · intro hsuccess
          rw [hall hsuccess]

/-! ### The plan -/

variable {b : Backend} {policy : ManagedPolicy} {found : Found} {recursive : Bool}
  {plan : DirectoryPlan}

/-- Where a count stops: everything before holds, and it does not hold there. -/
theorem takeWhile_range_spec (p : Nat → Bool) (n : Nat) :
    ((List.range n).takeWhile p).length ≤ n ∧ (((List.range n).takeWhile p).length < n →
      p ((List.range n).takeWhile p).length = false) := by
  by_cases hall : ∀ k < n, p k = true
  · have hself : (List.range n).takeWhile p = List.range n := by
      have happend : (List.range n ++ []).takeWhile p = List.range n ++ [].takeWhile p :=
        takeWhile_append_of_pos fun k hk => hall k (mem_range.mp hk)
      rwa [takeWhile_nil, append_nil] at happend
    rw [hself, length_range]
    exact ⟨Nat.le_refl n, fun hless => absurd hless (Nat.lt_irrefl n)⟩
  · have hsome : ∃ k, k < n ∧ p k = false := by
      by_contra hnone
      apply hall
      intro k hk
      by_contra hfalse
      exact hnone ⟨k, hk, by simpa using hfalse⟩
    have hbefore : ∀ k < Nat.find hsome, p k = true := by
      intro k hk
      by_contra hfalse
      have hless := Nat.lt_trans hk (Nat.find_spec hsome).1
      exact Nat.find_min hsome hk ⟨hless, by simpa using hfalse⟩
    rw [length_takeWhile_range (Nat.find_spec hsome).1 hbefore (Nat.find_spec hsome).2]
    exact ⟨Nat.le_of_lt (Nat.find_spec hsome).1, fun _ => (Nat.find_spec hsome).2⟩

/-- **What a plan says**: the existing part is a directory, the rest is not, and every
component of the rest was checked. -/
structure Planned (b : Backend) (policy : ManagedPolicy) (w : Workspace) (found : Found)
    (parts : Path) (recursive : Bool) (plan : DirectoryPlan) (start : Nat) : Prop where
  kind : plan.recursive = recursive
  path : plan.parts = parts
  missing : start + plan.missing = parts.length
  depth : parts.length ≤ MAX_DEPTH
  single : recursive = true ∨ plan.missing ≤ 1
  parent : ∃ info, w.get (parts.take start) = some info ∧ info.isDir = true ∧
    plan.device = info.dev ∧ plan.inode = info.ino
  next : start < parts.length → w.isDirectory (parts.take (start + 1)) = false
  checked : ∀ n, start < n → n ≤ parts.length →
    requireWrite b policy (b.guest (parts.take n)) found.metadata = .ok ()

theorem directoryPlan_spec (hins : Inspected b w found)
    (h : directoryPlan b policy parts recursive found = .ok plan) :
    Planned b policy w found parts recursive plan (existing found.directories parts) := by
  obtain ⟨hle, hstop⟩ := takeWhile_range_spec
    (fun size => (found.directories.get (parts.take (size + 1))).isSome) parts.length
  rw [← existing.eq_1] at hle hstop
  unfold directoryPlan at h
  simp only [bind_eq_ok, require_eq_ok, exists_unit, checkAll_eq_ok, decide_eq_true_eq,
    Bool.or_eq_true] at h
  obtain ⟨hdepth, hsingle, -, hchecked, hparent⟩ := h
  split at hparent
  · cases hparent
  next info hinfo =>
    cases hparent
    obtain ⟨hget, hdir⟩ := hins.get_directories.mp hinfo
    refine ⟨rfl, rfl, ?_, hdepth, hsingle, ⟨info, hget, hdir, rfl, rfl⟩, ?_, ?_⟩
    · show existing found.directories parts + (parts.length - existing found.directories parts) = _
      omega
    · intro hless
      have hfalse := hstop hless
      rwa [hins.isSome_directories] at hfalse
    · intro n hlow hhigh
      refine hchecked n ?_
      rw [missingSizes, mem_range'_1]
      omega

/-! ### Reading the arguments -/

theorem checkComponents_eq_none {count : Nat} (h : path.length + count ≤ MAX_DEPTH) :
    checkComponents path count = none ↔ ∀ name ∈ path, name.val.length ≤ nameMax := by
  induction path generalizing count with
  | nil => exact ⟨fun _ => nofun, fun _ => rfl⟩
  | cons name rest ih =>
    rw [length_cons] at h
    rw [checkComponents, if_neg (by omega), forall_mem_cons]
    by_cases hlong : nameMax < name.val.length
    · rw [if_pos hlong]
      constructor
      · exact nofun
      · intro hshort
        omega
    · rw [if_neg hlong, ih (by omega)]
      constructor
      · intro hrest
        exact ⟨by omega, hrest⟩
      · intro hall
        exact hall.2

/-- The path and its names fit. -/
structure Short (parts : Path) : Prop where
  path : (pathText parts).length < pathMax
  names : ∀ name ∈ parts, (utf8Encode name).length ≤ nameMax

theorem Spells.names {parts : Path} (h : Spells path parts) :
    (∀ name ∈ path, name.val.length ≤ nameMax) ↔
      ∀ name ∈ parts, (utf8Encode name).length ≤ nameMax := by
  have hleft : (∀ name ∈ path, name.val.length ≤ nameMax) ↔
      ∀ text ∈ path.map Subtype.val, text.length ≤ nameMax := by
    rw [forall_mem_map]
  have hright : (∀ name ∈ parts, (utf8Encode name).length ≤ nameMax) ↔
      ∀ text ∈ parts.map utf8Encode, text.length ≤ nameMax := by
    rw [forall_mem_map]
  rw [hleft, hright, h]

theorem resolve_spells (h : Spells path parts) : resolve (pathText parts) = some path := by
  rw [← h.text]
  exact resolve_textOf path

theorem decimal_digits_uint64 (n : UInt64) : decimal (digits n.toNat) = some n.toNat :=
  decimal_digits n.toNat_lt

section

variable {start : Nat} (hplanned : Planned b policy w found parts recursive plan start)
  (hspells : Spells path parts) (hproper : ProperPath parts)

include hplanned hspells

/-- Too long a path, or a name in it: nothing is made. -/
theorem runPlan_long (hlong : ¬ Short parts) (faults : Nat → Option Diagnostic) :
    ∃ d, runPlan uid faults births touches plan t = (⟨t, []⟩, some d) := by
  have hmissing : plan.missing < 2 ^ 64 := by
    have hsum := hplanned.missing
    have hdepth := hplanned.depth
    have hbound : MAX_DEPTH < 2 ^ 64 := by decide
    omega
  have hcount : path.length + 0 ≤ MAX_DEPTH := by
    rw [hspells.length]
    exact hplanned.depth
  unfold runPlan makeDirectories
  rw [hplanned.path, decimal_digits_uint64, decimal_digits_uint64, digits,
    decimal_digits hmissing, resolve_spells hspells]
  dsimp only
  by_cases hvalid : validRelative (pathText parts) = false ∧ pathText parts ≠ [46]
  · rw [if_pos hvalid]
    exact ⟨_, rfl⟩
  · rw [if_neg hvalid]
    by_cases hprivate : t.root.owner ≠ uid ∨ t.root.mode &&& 0o077 ≠ 0
    · rw [if_pos hprivate]
      exact ⟨_, rfl⟩
    · rw [if_neg hprivate]
      by_cases hdepth : MAX_DEPTH < plan.missing
      · rw [if_pos hdepth]
        exact ⟨_, rfl⟩
      · rw [if_neg hdepth]
        cases hcheck : checkComponents path 0 with
        | some errno => exact ⟨_, rfl⟩
        | none =>
          -- all names fit, so the path is too long, and `main` has refused it
          exfalso
          apply hlong
          refine ⟨?_, hspells.names.mp ((checkComponents_eq_none hcount).mp hcheck)⟩
          rcases not_and_or.mp hvalid with htrue | hdot
          · have htrue' : validRelative (pathText parts) = true := by simpa using htrue
            simp only [validRelative, Bool.and_eq_true, decide_eq_true_eq] at htrue'
            exact htrue'.1.2
          · rw [not_not.mp hdot]
            decide

include hproper

/-- Arguments that fit are read as they were meant. -/
theorem runPlan_short (hshort : Short parts) (hroot : t.root.owner = uid)
    (hprivate : t.root.mode &&& 0o077 = 0) (faults : Nat → Option Diagnostic) :
    runPlan uid faults births touches plan t =
      makeBelow uid faults births touches recursive plan.device.toNat plan.inode.toNat
        (path.take start) (path.drop start) t := by
  have hsum := hplanned.missing
  have hdepth := hplanned.depth
  have hmissing : plan.missing < 2 ^ 64 := by
    have hbound : MAX_DEPTH < 2 ^ 64 := by decide
    omega
  have hvalid : ¬ (validRelative (pathText parts) = false ∧ pathText parts ≠ [46]) := by
    intro hinvalid
    by_cases hnil : parts = []
    · exact hinvalid.2 (by rw [hnil, pathText_nil])
    · rw [validRelative_relative hnil hproper hshort.path] at hinvalid
      cases hinvalid.1
  have hcheck : checkComponents path 0 = none := by
    refine (checkComponents_eq_none ?_).mpr (hspells.names.mpr hshort.names)
    rw [hspells.length]
    exact hdepth
  have hsingle : ¬ (recursive = false ∧ 1 < plan.missing) := by
    intro hboth
    rcases hplanned.single with htrue | hone
    · rw [hboth.1] at htrue
      cases htrue
    · omega
  have hstart : path.length - plan.missing = start := by
    rw [hspells.length]
    omega
  unfold runPlan makeDirectories
  rw [hplanned.path, hplanned.kind, decimal_digits_uint64, decimal_digits_uint64, digits,
    decimal_digits hmissing, resolve_spells hspells]
  dsimp only
  rw [if_neg hvalid, if_neg (by simp [hroot, hprivate]), if_neg (by omega), hcheck]
  rw [if_neg (by rw [hspells.length]; omega), if_neg hsingle, hstart]

end

/-! ### Opening the existing part -/

theorem canSearch_of_get (hw : Admitted b w) {info : Info} (hget : w.get parts = some info) :
    w.canSearch parts := by
  by_cases hnil : parts = []
  · rw [hnil]
    rfl
  · obtain ⟨above, name, rfl⟩ : ∃ above name, parts = above ++ [name] :=
      ⟨_, _, (dropLast_append_getLast hnil).symm⟩
    have hentry := Workspace.mem_of_get hnil hget
    obtain ⟨directory, hdirectory, hdir⟩ :=
      Workspace.isDirectory_iff.mp (Workspace.isDirectory_parent hentry)
    have hsearch := hw.searchable _ hentry directory hdirectory
    rw [dropLast_concat] at hdirectory
    exact hw.canSearch hdirectory hdir hsearch

/-- **The last existing directory** is opened, and is the one the backend saw. -/
theorem openExisting_eq_ok (hw : Admitted b w) (hshows : Shows w t)
    (hmode : ∀ e ∈ w.nodes, e.2.mode < 0o10000) (hspells : Spells path parts) {info : Info}
    (hget : w.get parts = some info) (hdir : info.isDir = true) :
    ∃ a, openExisting t path = .ok a ∧ t.get path = some a ∧ Same a info := by
  obtain ⟨a, ha, hsame⟩ := hshows.get_some hspells.text hget
  have hbits : ∀ {p : Path} {i : Info}, w.get p = some i → i.mode < 0o10000 :=
    fun hi => hmode _ (Workspace.get_eq_some.mp hi)
  refine ⟨a, ?_, ha, hsame⟩
  unfold openExisting
  by_cases hnil : path = []
  · rw [if_pos hnil]
    rw [hnil, PathTree.get_root] at ha
    rw [Option.some.inj ha]
  · have hparts : parts ≠ [] := by
      intro hempty
      apply hnil
      rw [← length_eq_zero_iff, hspells.length, hempty]
      rfl
    have hreaches : reaches t path = true := by
      refine all_eq_true.mpr ?_
      intro n hn
      rw [mem_range] at hn
      have hpositive := length_pos_iff.mpr hnil
      have hn' : n < parts.length := by
        rw [← hspells.length]
        omega
      have hall := all_eq_true.mp (canSearch_of_get hw hget) n (mem_range.mpr hn')
      cases habove : w.get (parts.take n) with
      | none =>
        rw [habove] at hall
        cases hall
      | some above =>
        rw [habove, Option.any_some, Bool.and_eq_true] at hall
        obtain ⟨c, hc, hsame'⟩ := hshows.get_some (hspells.take n).text habove
        rw [hc, Option.any_some, hsame'.isDir (hbits habove), hsame'.searchable (hbits habove),
          hall.1, hall.2]
        rfl
    have hreadable : info.readable = true :=
      (hw.ordinary _ (Workspace.mem_of_get hparts hget)).readable hdir
    rw [if_neg hnil, openDirectory, find_textOf, if_pos hreaches, ha]
    dsimp only
    rw [hsame.isDir (hbits hget), hsame.readable (hbits hget), hdir, hreadable]
    rfl

/-! ### A whole run -/

/-- **Why nothing can be made** of a request, with so many components existing: one is no
directory, a name or the path is too long, or the last existing directory lets its
owner not write or search it. -/
inductive Blocked (w : Workspace) (parts : Path) (start : Nat) : Prop
  | object (n : Nat) (info : Info) (hn : n ≤ parts.length)
      (hget : w.get (parts.take n) = some info) (hfile : info.isDir = false)
  | name (name : Name) (hname : name ∈ parts) (hlong : nameMax < (utf8Encode name).length)
  | path (hlong : pathMax ≤ (pathText parts).length)
  | shut (info : Info) (hget : w.get (parts.take start) = some info)
      (hshut : (info.writable && info.searchable) = false)

theorem short_of_not_blocked {start : Nat} (h : ¬ Blocked w parts start) : Short parts := by
  refine ⟨?_, ?_⟩
  · by_contra hlong
    exact h (Blocked.path (by omega))
  · intro name hname
    by_contra hlong
    exact h (Blocked.name name hname (by omega))

theorem madeTexts_spells (h : Spells path parts) (start : Nat) {made : List FileName}
    (hmade : made <+: path.drop start) :
    madeTexts (path.take start) made =
      (List.range' (start + 1) made.length).map fun n => pathText (parts.take n) := by
  have hwhole := prefix_iff_eq_take.mp hmade
  rw [madeTexts, range'_eq_map_range, map_map]
  refine map_congr_left ?_
  intro k hk
  have hk' := mem_range.mp hk
  have htake : made.take (k + 1) = (path.drop start).take (k + 1) := by
    rw [hwhole, take_take, Nat.min_eq_left (by omega)]
  rw [htake, ← take_add, (h.take _).text]
  show _ = pathText (parts.take (start + 1 + k))
  rw [show start + (k + 1) = start + 1 + k by omega]

/-- A directory that cannot be written: the first `mkdirat` fails. -/
theorem makeLoop_unwritable {name : FileName} {more : List FileName} {s : Making} {a : Attributes}
    (ha : s.tree.get directory = some a) (hwrite : a.writable = false)
    (faults : Nat → Option Diagnostic) :
    ∃ d, makeLoop uid faults births touches directory (name :: more) s = (s, some d) := by
  have hmkdir : ∃ errno, mkdirat uid (births s.made.length) (touches s.made.length) directory name
      s.tree = .error errno := by
    rw [mkdirat, ha]
    dsimp only
    split
    · exact ⟨_, rfl⟩
    · split
      · exact ⟨_, rfl⟩
      · split
        · rw [hwrite]
          exact ⟨_, rfl⟩
        · exact ⟨_, rfl⟩
  obtain ⟨errno, hmkdir⟩ := hmkdir
  rw [makeLoop, hmkdir]
  cases hfault : faults s.made.length with
  | none => exact ⟨_, rfl⟩
  | some d =>
    by_cases hstage : d.stage = .mkdir
    · refine ⟨d, ?_⟩
      simp [hstage]
    · refine ⟨⟨.mkdir, errno⟩, ?_⟩
      simp [hstage]

/-- What is in the place of the first missing component is no directory. -/
theorem Planned.blocked {start : Nat}
    (h : Planned b policy w found parts recursive plan start) (hshows : Shows w t)
    (hspells : Spells path parts) (hproper : ProperPath parts) (hless : start < parts.length)
    (hsome : t.get (path.take (start + 1)) ≠ none) : Blocked w parts start := by
  cases hother : w.get (parts.take (start + 1)) with
  | none => exact absurd (hshows.get_none (hspells.take _).text (hproper.take _) hother) hsome
  | some other =>
    have hfile := h.next hless
    rw [Workspace.isDirectory, hother, Option.any_some] at hfile
    exact Blocked.object (start + 1) other hless hother hfile

/-- Nothing blocks a request that fits, whose first missing component is not there and whose
last existing directory can be written and searched. -/
theorem not_blocked {start : Nat} {info : Info} (hget : w.get (parts.take start) = some info)
    (hdir : info.isDir = true) (hopen : (info.writable && info.searchable) = true)
    (hshort : Short parts) (habsent : w.get (parts.take (start + 1)) = none) :
    ¬ Blocked w parts start := by
  intro hblocked
  cases hblocked with
  | object n other hn hother hfile =>
    by_cases hbefore : n ≤ start
    · have hle : parts.take n <+: parts.take start := take_prefix_take_left hbefore
      by_cases heq : parts.take n = parts.take start
      · rw [heq, hget] at hother
        rw [← Option.some.inj hother, hdir] at hfile
        cases hfile
      · obtain ⟨above, habove, hdir'⟩ :=
          Workspace.isDirectory_iff.mp (Workspace.isDirectory_above hget hle heq)
        rw [hother] at habove
        rw [Option.some.inj habove, hdir'] at hfile
        cases hfile
    · have hle : parts.take (start + 1) <+: parts.take n := take_prefix_take_left (by omega)
      rw [Workspace.get_none_below habsent hle] at hother
      cases hother
  | name other hname hlong =>
    have hfits := hshort.names other hname
    omega
  | path hlong =>
    have hfits := hshort.path
    omega
  | shut other hother hshut =>
    rw [hget] at hother
    rw [← Option.some.inj hother, hopen] at hshut
    cases hshut

section

variable {start : Nat} (hadmitted : Admitted b w)
  (hplanned : Planned b policy w found parts recursive plan start)
  (hmode : ∀ e ∈ w.nodes, e.2.mode < 0o10000)
  (hroot : w.root.uid = b.uid ∧ w.root.mode &&& 0o077 = 0) (hproper : ProperPath parts)
  (hshows : Shows w t) (hspells : Spells path parts)

include hadmitted hplanned hmode hroot hproper hshows hspells

/-- **Where the helper begins**: arguments that fit lead it to the last existing directory. -/
theorem runPlan_start (hshort : Short parts) :
    ∃ info a, w.get (parts.take start) = some info ∧ info.isDir = true ∧
      t.get (path.take start) = some a ∧ a.isDir = true ∧ a.writable = info.writable ∧
      a.searchable = info.searchable ∧ ∀ births touches faults,
        runPlan b.uid faults births touches plan t =
          match path.drop start with
          | [] => if recursive then (⟨t, []⟩, none) else (⟨t, []⟩, some ⟨.mkdir, .eexist⟩)
          | name :: more =>
            if a.searchable = false then (⟨t, []⟩, some ⟨.opening, .eacces⟩)
            else if (t.get (path.take start ++ [name])).isSome then
              (⟨t, []⟩, some ⟨.directoryState, .eexist⟩)
            else makeLoop b.uid faults births touches (path.take start) (name :: more) ⟨t, []⟩ := by
  obtain ⟨info, hget, hdir, hdevice, hinode⟩ := hplanned.parent
  have hbits := hmode _ (Workspace.get_eq_some.mp hget)
  obtain ⟨a, hopen, ha, hsame⟩ :=
    openExisting_eq_ok hadmitted hshows hmode (hspells.take start) hget hdir
  -- the root as the helper finds it
  obtain ⟨root, hroot', hsameRoot⟩ :=
    hshows.get_some (show textOf [] = pathText [] from pathText_nil.symm) (Workspace.get_root w)
  cases hroot'
  have hprivate : t.root.mode &&& 0o077 = 0 := by
    rw [hsameRoot.mode, stMode_and_low (hmode ([], w.root) mem_cons_self) (by decide)]
    exact hroot.2
  have howner : info.uid = b.uid := by
    by_cases hnil : parts.take start = []
    · rw [hnil, Workspace.get_root] at hget
      rw [← Option.some.inj hget]
      exact hroot.1
    · exact (hadmitted.ordinary _ (Workspace.mem_of_get hnil hget)).owner
  have hidentity : ¬ (a.isDir = false ∨ a.owner ≠ b.uid ∨ a.device ≠ plan.device.toNat ∨
      a.inode ≠ plan.inode.toNat) := by
    rw [hsame.isDir hbits, hdir, hsame.owner, howner, hsame.device, hsame.inode, hdevice, hinode]
    simp
  refine ⟨info, a, hget, hdir, ha, (hsame.isDir hbits).trans hdir, hsame.writable hbits,
    hsame.searchable hbits, ?_⟩
  intro births touches faults
  rw [runPlan_short hplanned hspells hproper hshort (hsameRoot.owner.trans hroot.1) hprivate,
    makeBelow, hopen]
  dsimp only
  rw [if_neg hidentity]

/-- **How a run goes**: it is refused, there is nothing to do, or the loop begins in a
directory where it can make the first component. -/
theorem runPlan_cases (births : Nat → Birth) (touches : Nat → Touch)
    (faults : Nat → Option Diagnostic) :
    (∃ d, runPlan b.uid faults births touches plan t = (⟨t, []⟩, some d) ∧
      (plan.missing = 0 ∨ Blocked w parts start)) ∨
    (plan.missing = 0 ∧ recursive = true ∧
      runPlan b.uid faults births touches plan t = (⟨t, []⟩, none)) ∨
    (plan.missing ≠ 0 ∧ ¬ Blocked w parts start ∧ ∃ a, t.get (path.take start) = some a ∧
      a.isDir = true ∧ a.searchable = true ∧ a.writable = true ∧
      (∀ next, (path.drop start).head? = some next → t.get (path.take start ++ [next]) = none) ∧
      runPlan b.uid faults births touches plan t =
        makeLoop b.uid faults births touches (path.take start) (path.drop start) ⟨t, []⟩) := by
  have hsum := hplanned.missing
  have hlength := hspells.length
  by_cases hshort : Short parts
  · obtain ⟨info, a, hget, hdir, ha, hdir', hwritable, hsearchable, hrun⟩ :=
      runPlan_start hadmitted hplanned hmode hroot hproper hshows hspells hshort
    have hshut : (info.writable && info.searchable) = false → Blocked w parts start :=
      Blocked.shut info hget
    rw [hrun births touches faults]
    cases hdrop : path.drop start with
    | nil =>
      have hnothing : plan.missing = 0 := by
        have hle := drop_eq_nil_iff.mp hdrop
        omega
      cases recursive with
      | true => exact .inr (.inl ⟨hnothing, rfl, rfl⟩)
      | false => exact .inl ⟨_, rfl, .inl hnothing⟩
    | cons name more =>
      dsimp only
      have hless : start < parts.length := by
        have hlengths := congrArg List.length hdrop
        rw [length_drop, length_cons] at hlengths
        omega
      have hjoin : path.take start ++ [name] = path.take (start + 1) := by
        rw [take_add, hdrop]
        rfl
      by_cases hsearch : a.searchable = true
      · rw [if_neg (by simp [hsearch])]
        cases hchild : t.get (path.take start ++ [name]) with
        | some c =>
          refine .inl ⟨_, rfl, .inr (hplanned.blocked hshows hspells hproper hless ?_)⟩
          rw [← hjoin, hchild]
          exact nofun
        | none =>
          by_cases hwrite : a.writable = true
          · have hfirst : ∀ next, (name :: more).head? = some next →
                t.get (path.take start ++ [next]) = none := by
              intro next hnext
              rw [← Option.some.inj hnext]
              exact hchild
            have habsent : w.get (parts.take (start + 1)) = none := by
              by_contra hsome
              obtain ⟨other, hother⟩ := Option.ne_none_iff_exists'.mp hsome
              obtain ⟨c, hc, -⟩ := hshows.get_some (hspells.take (start + 1)).text hother
              rw [hjoin, hc] at hchild
              cases hchild
            have hopen : (info.writable && info.searchable) = true := by
              rw [← hwritable, ← hsearchable, hwrite, hsearch]
              rfl
            exact .inr (.inr ⟨by omega, not_blocked hget hdir hopen hshort habsent, a, ha,
              hdir', hsearch, hwrite, hfirst, rfl⟩)
          · have hwrite' : a.writable = false := by simpa using hwrite
            obtain ⟨d, hd⟩ : ∃ d, makeLoop b.uid faults births touches (path.take start)
                (name :: more) ⟨t, []⟩ = (⟨t, []⟩, some d) := makeLoop_unwritable ha hwrite' faults
            refine .inl ⟨d, hd, .inr (hshut ?_)⟩
            rw [← hwritable, hwrite']
            rfl
      · have hsearch' : a.searchable = false := by simpa using hsearch
        rw [if_pos hsearch']
        refine .inl ⟨_, rfl, .inr (hshut ?_)⟩
        rw [← hsearchable, hsearch', Bool.and_false]
  · obtain ⟨d, hd⟩ := runPlan_long hplanned hspells hshort faults
    refine .inl ⟨d, hd, .inr ?_⟩
    by_contra hblocked
    exact hshort (short_of_not_blocked hblocked)

end

/-- **Making directories.** For every admitted workspace that its owner alone may enter, every
request `_directory_plan` returns arguments for, and the tree the backend saw: every missing
component was given to `_require_write`; the helper makes a first part of them from the top, with
permission bits 0700, all of them if it succeeds, and nothing else; it succeeds if no call fails of
itself and the request is not blocked, and makes nothing and fails if it is; and with nothing
missing it makes nothing, and succeeds only for a recursive request. -/
theorem directories_made (b : Backend) (policy : ManagedPolicy) (w : Workspace) (found : Found)
    (parts : Path) (recursive : Bool) (plan : DirectoryPlan) (t : Tree) (births : Nat → Birth)
    (touches : Nat → Touch) (hinspect : inspect b w = .ok found)
    (hmode : ∀ e ∈ w.nodes, e.2.mode < 0o10000)
    (hroot : w.root.uid = b.uid ∧ w.root.mode &&& 0o077 = 0) (hproper : ProperPath parts)
    (hplan : directoryPlan b policy parts recursive found = .ok plan) (hshows : Shows w t) :
    ∃ start path, start + plan.missing = parts.length ∧ Spells path parts ∧
      (∀ n, start < n → n ≤ parts.length →
        requireWrite b policy (b.guest (parts.take n)) found.metadata = .ok ()) ∧
      (∀ faults, ∃ made, made <+: path.drop start ∧
        (runPlan b.uid faults births touches plan t).1.made =
          ((List.range' (start + 1) made.length).map fun n => pathText (parts.take n)) ∧
        Grown b.uid t (path.take start) made (runPlan b.uid faults births touches plan t).1.tree ∧
        ((runPlan b.uid faults births touches plan t).2 = none → made = path.drop start)) ∧
      (plan.missing ≠ 0 → ¬ Blocked w parts start → ∀ faults, (∀ n, faults n = none) →
        (runPlan b.uid faults births touches plan t).2 = none) ∧
      (plan.missing ≠ 0 → Blocked w parts start → ∀ faults, ∃ d,
        runPlan b.uid faults births touches plan t = (⟨t, []⟩, some d)) ∧
      (plan.missing = 0 → ∀ faults,
        (runPlan b.uid faults births touches plan t).1 = ⟨t, []⟩ ∧
        ((runPlan b.uid faults births touches plan t).2 = none → recursive = true)) := by
  obtain ⟨hadmitted, hins⟩ := inspect_spec hinspect
  have hplanned := directoryPlan_spec hins hplan
  generalize existing found.directories parts = start at hplanned
  obtain ⟨path, hspells⟩ := exists_spells hproper
  have hcases := runPlan_cases hadmitted hplanned hmode hroot hproper hshows hspells births touches
  refine ⟨start, path, hplanned.missing, hspells, hplanned.checked, ?_, ?_, ?_, ?_⟩
  · intro faults
    rcases hcases faults with ⟨d, hrun, -⟩ | ⟨hnothing, -, hrun⟩ |
      ⟨-, -, a, ha, hdir, hsearch, hwrite, hfirst, hrun⟩
    · rw [hrun]
      exact ⟨[], nil_prefix, rfl, Grown.refl _ _ _, nofun⟩
    · rw [hrun]
      refine ⟨[], nil_prefix, rfl, Grown.refl _ _ _, fun _ => ?_⟩
      have hsum := hplanned.missing
      exact (drop_eq_nil_iff.mpr (by rw [hspells.length]; omega)).symm
    · obtain ⟨made, hmade, htexts, hgrown, hall, -⟩ :=
        makeLoop_spec (s := ⟨t, []⟩) ha hdir hsearch hwrite hfirst
      rw [hrun]
      refine ⟨made, hmade, ?_, hgrown, hall⟩
      rw [htexts, nil_append]
      exact madeTexts_spells hspells start hmade
  · intro hsome hfree faults hclean
    rcases hcases faults with ⟨d, hrun, hwhy⟩ | ⟨hnothing, -, -⟩ |
      ⟨-, -, a, ha, hdir, hsearch, hwrite, hfirst, hrun⟩
    · rcases hwhy with hnothing | hblocked
      · exact absurd hnothing hsome
      · exact absurd hblocked hfree
    · exact absurd hnothing hsome
    · obtain ⟨made, -, -, -, -, hdone⟩ :=
        makeLoop_spec (s := ⟨t, []⟩) ha hdir hsearch hwrite hfirst
      rw [hrun]
      exact hdone hclean
  · intro hsome hblocked faults
    rcases hcases faults with ⟨d, hrun, -⟩ | ⟨hnothing, -, -⟩ | ⟨-, hfree, -⟩
    · exact ⟨d, hrun⟩
    · exact absurd hnothing hsome
    · exact absurd hblocked hfree
  · intro hnothing faults
    rcases hcases faults with ⟨d, hrun, -⟩ | ⟨-, hrecursive, hrun⟩ | ⟨hsome, -⟩
    · rw [hrun]
      exact ⟨rfl, nofun⟩
    · rw [hrun]
      exact ⟨rfl, fun _ => hrecursive⟩
    · exact absurd hnothing hsome

/-! ### Two requests -/

def sampleBirth : Birth := ⟨1, 9, ⟨2, 0, 9, 0, 9, 0⟩⟩

/-- Two missing directories, made from the top. -/
theorem directories_made_dated : ∃ found plan,
    inspect Sample.backend dated = .ok found ∧
    directoryPlan Sample.backend Sample.policy [['z'], ['y']] true found = .ok plan ∧
    Shows dated datedTree ∧ plan.missing = 2 ∧
    (runPlan Sample.backend.uid (fun _ => none) (fun _ => sampleBirth)
      (fun _ => ⟨2, 0, 9, 0, 9, 0⟩) plan datedTree).1.made =
        [pathText [['z']], pathText [['z'], ['y']]] := by
  have hnodes : (inspect Sample.backend dated).isOk := by decide +kernel
  obtain ⟨found, hinspect⟩ := exists_ok_of_isOk hnodes
  have hresult : ((inspect Sample.backend dated >>= fun found =>
      directoryPlan Sample.backend Sample.policy [['z'], ['y']] true found).map
        DirectoryPlan.missing).toOption = some 2 := by
    decide +kernel
  rw [hinspect, ok_bind] at hresult
  cases hplan : directoryPlan Sample.backend Sample.policy [['z'], ['y']] true found with
  | error failure =>
    rw [hplan] at hresult
    cases hresult
  | ok plan =>
    rw [hplan] at hresult
    have hmissing : plan.missing = 2 := Option.some.inj hresult
    have hshows : Shows dated datedTree := by decide +kernel
    refine ⟨found, plan, hinspect, hplan, hshows, hmissing, ?_⟩
    obtain ⟨start, path, hsum, hspells, -, hmade, hfree, -, -⟩ :=
      directories_made Sample.backend Sample.policy dated found [['z'], ['y']] true plan datedTree
        (fun _ => sampleBirth) (fun _ => ⟨2, 0, 9, 0, 9, 0⟩) hinspect (by decide) (by decide)
        (by decide) hplan hshows
    obtain rfl : start = 0 := by
      rw [hmissing] at hsum
      exact Nat.add_right_cancel hsum
    obtain ⟨made, -, htexts, -, hall⟩ := hmade fun _ => none
    have hopen : ¬ Blocked dated [['z'], ['y']] 0 := by
      intro hblocked
      cases hblocked with
      | object n info hn hget hfile =>
        have hcases : n = 0 ∨ n = 1 ∨ n = 2 := by
          rw [show [['z'], ['y']].length = 2 from rfl] at hn
          omega
        rcases hcases with rfl | rfl | rfl
        · cases hget
          cases hfile
        · cases hget
        · cases hget
      | name name hname hlong =>
        revert name
        decide +kernel
      | path hlong =>
        revert hlong
        decide +kernel
      | shut info hget hshut =>
        cases hget
        revert hshut
        decide
    have hwhole := hall (hfree (by omega) hopen (fun _ => none) fun _ => rfl)
    rw [htexts, hwhole, length_drop, hspells.length]
    rfl

/-- An empty workspace whose owner may not write it. -/
def shutRoot : Workspace where
  root :=
    { dev := 1, ino := 2, kind := .directory, mode := 0o500, uid := 1000, ino_ne := Sample.two_ne }
  entries := []
  root_dir := rfl
  nodup := nodup_nil
  proper := nofun
  parent := nofun

def shutTree : Tree where
  root := ⟨1, 2, 0o040500, 1000, 2, 0, 0, 0, 0, 0⟩
  entries := []
  root_inner := by decide
  nodup := nodup_nil
  nonempty := nofun
  parent := nofun

/-- **A directory that cannot be written.** The plan passes, nothing is in the way and the name is
short, but `mkdirat` fails and nothing is made. -/
theorem unwritable_not_made : ∃ found plan,
    inspect Sample.backend shutRoot = .ok found ∧
    directoryPlan Sample.backend Sample.policy [['d']] true found = .ok plan ∧
    Shows shutRoot shutTree ∧ plan.missing = 1 ∧ shutRoot.get [['d']] = none ∧
    (utf8Encode ['d']).length ≤ nameMax ∧
    (runPlan Sample.backend.uid (fun _ => none) (fun _ => sampleBirth)
      (fun _ => ⟨2, 0, 9, 0, 9, 0⟩) plan shutTree).1.made = [] ∧
    (runPlan Sample.backend.uid (fun _ => none) (fun _ => sampleBirth)
      (fun _ => ⟨2, 0, 9, 0, 9, 0⟩) plan shutTree).2 = some ⟨.mkdir, .eacces⟩ := by
  have hnodes : (inspect Sample.backend shutRoot).isOk := by decide +kernel
  obtain ⟨found, hinspect⟩ := exists_ok_of_isOk hnodes
  have hresult : (inspect Sample.backend shutRoot >>= fun found =>
      directoryPlan Sample.backend Sample.policy [['d']] true found).toOption =
        some ⟨true, [['d']], 1, 1, 2⟩ := by
    decide +kernel
  rw [hinspect, ok_bind] at hresult
  cases hplan : directoryPlan Sample.backend Sample.policy [['d']] true found with
  | error failure =>
    rw [hplan] at hresult
    cases hresult
  | ok plan =>
    rw [hplan] at hresult
    cases hresult
    refine ⟨found, _, hinspect, hplan, by decide +kernel, rfl, rfl, by decide +kernel, ?_, ?_⟩
    · decide +kernel
    · decide +kernel

end FoldGPT.Files.Helper
