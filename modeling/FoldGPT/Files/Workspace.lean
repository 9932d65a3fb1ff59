import FoldGPT.Lib.Dict
import FoldGPT.Files.Policy
import Mathlib.Data.List.Induction

/-!
# Workspaces

The tree under a workspace root as the kernel shows it to its owner: one `Info`
for the root and one for each path below it. A `Workspace` carries the facts
that make the table a tree: no path twice, proper names, and every entry in a
directory. `insert`, `change` and `discard` are the only ways it grows, changes
and shrinks here, and they keep those facts.
-/

namespace FoldGPT.Files

open FoldGPT.Lib List

inductive Kind
  | regular
  | directory
  | other
  deriving DecidableEq, Repr

/-- The fields of `os.stat_result` that are read. Device and inode numbers are
64-bit and no object has inode number 0. -/
structure Info where
  dev : UInt64
  ino : UInt64
  kind : Kind
  /-- The permission bits of `st_mode`. -/
  mode : Nat
  uid : Nat
  nlink : Nat := 1
  size : Nat := 0
  mtimeNs : Int := 0
  ctimeNs : Int := 0
  ino_ne : ino ≠ 0 := by decide
  deriving DecidableEq, Repr

namespace Info

def isDir (info : Info) : Bool := info.kind = .directory
def isReg (info : Info) : Bool := info.kind = .regular

/-- The owner's permission to list a directory or read a file. -/
def readable (info : Info) : Bool := info.mode &&& 0o400 != 0
/-- The owner's permission to write a file or change a directory. -/
def writable (info : Info) : Bool := info.mode &&& 0o200 != 0
/-- The owner's permission to look a name up in a directory. -/
def searchable (info : Info) : Bool := info.mode &&& 0o100 != 0

end Info

/-- A root and the objects below it. -/
structure Workspace where
  root : Info
  entries : List (Path × Info)
  root_dir : root.isDir = true
  nodup : (entries.map Prod.fst).Nodup
  proper : ∀ e ∈ entries, e.1 ≠ [] ∧ ∀ name ∈ e.1, Proper name
  parent : ∀ e ∈ entries, (Dict.get (([], root) :: entries) e.1.dropLast).any Info.isDir = true

namespace Workspace

/-- Every object by its path, the root first. -/
def nodes (w : Workspace) : Dict Path Info := ([], w.root) :: w.entries

def get (w : Workspace) (path : Path) : Option Info := w.nodes.get path

def isDirectory (w : Workspace) (path : Path) : Bool := (w.get path).any Info.isDir

/-- Something new can be put at the path, permissions aside. -/
def Room (w : Workspace) (path : Path) : Prop :=
  path ≠ [] ∧ (∀ name ∈ path, Proper name) ∧ w.get path = none ∧ w.isDirectory path.dropLast

instance (w : Workspace) (path : Path) : Decidable (w.Room path) :=
  inferInstanceAs (Decidable (_ ∧ _))

/-- Nothing lies strictly below the path. -/
def Bare (w : Workspace) (path : Path) : Prop :=
  path ≠ [] ∧ ∀ e ∈ w.entries, path <+: e.1 → e.1 = path

instance (w : Workspace) (path : Path) : Decidable (w.Bare path) :=
  inferInstanceAs (Decidable (_ ∧ _))

variable {w : Workspace}

/-! ### The table -/

theorem nodup_nodes (w : Workspace) : w.nodes.keys.Nodup := by
  refine nodup_cons.mpr ⟨fun hmem => ?_, w.nodup⟩
  obtain ⟨e, he, hnil⟩ := mem_map.mp hmem
  exact (w.proper e he).1 hnil

variable {path : Path} {info : Info}

theorem get_eq_some :
    w.get path = some info ↔ (path, info) ∈ w.nodes := Dict.get_eq_some w.nodup_nodes

@[simp] theorem get_root (w : Workspace) : w.get [] = some w.root := by
  simp [get, nodes, Dict.get]

theorem get_of_mem {e : Path × Info} (h : e ∈ w.entries) : w.get e.1 = some e.2 :=
  get_eq_some.mpr (mem_cons_of_mem _ h)

theorem mem_of_get (hne : path ≠ []) (h : w.get path = some info) : (path, info) ∈ w.entries := by
  rcases mem_cons.mp (get_eq_some.mp h) with heq | hmem
  · exact absurd (Prod.mk.inj heq).1 hne
  · exact hmem

theorem isDirectory_iff : w.isDirectory path ↔ ∃ info, w.get path = some info ∧ info.isDir := by
  cases h : w.get path <;> simp [isDirectory, h]

theorem isDirectory_parent {e : Path × Info} (h : e ∈ w.entries) : w.isDirectory e.1.dropLast :=
  w.parent e h

theorem isDirectory_above {above : Path} (h : w.get path = some info)
    (hle : above <+: path) (hne : above ≠ path) : w.isDirectory above := by
  induction path using List.reverseRecOn generalizing info with
  | nil => exact absurd (prefix_nil.mp hle) hne
  | append_singleton path name ih =>
    have hmem : (path ++ [name], info) ∈ w.entries := mem_of_get (by simp) h
    have hdir : w.isDirectory path := by
      have := isDirectory_parent hmem
      rwa [dropLast_concat] at this
    rcases prefix_concat_iff.mp hle with heq | hle
    · exact absurd heq hne
    · by_cases heq : above = path
      · rwa [heq]
      · obtain ⟨info', hinfo', -⟩ := isDirectory_iff.mp hdir
        exact ih hinfo' hle heq

/-- Below a missing object there is nothing. -/
theorem get_none_below {above : Path} (h : w.get above = none) (hle : above <+: path) :
    w.get path = none := by
  by_cases heq : above = path
  · rwa [← heq]
  · cases hpath : w.get path with
    | none => rfl
    | some info =>
      obtain ⟨info', hinfo', -⟩ := isDirectory_iff.mp (isDirectory_above hpath hle heq)
      rw [h] at hinfo'
      cases hinfo'

/-! ### Growing -/

/-- The workspace with a new object. -/
def insert (w : Workspace) (path : Path) (info : Info) (room : w.Room path) : Workspace where
  root := w.root
  entries := w.entries ++ [(path, info)]
  root_dir := w.root_dir
  nodup := by
    rw [map_append, nodup_append]
    refine ⟨w.nodup, pairwise_singleton _ _, ?_⟩
    rintro a ha b hb rfl
    have hfresh : path ∉ w.nodes.keys := Dict.get_eq_none.mp room.2.2.1
    have hpath : a = path := mem_singleton.mp hb
    exact hfresh (mem_cons_of_mem _ (hpath ▸ ha))
  proper := by
    intro e he
    rcases mem_append.mp he with he | he
    · exact w.proper e he
    · rw [mem_singleton.mp he]
      exact ⟨room.1, room.2.1⟩
  parent := by
    have hkeep : ∀ p, (Dict.get w.nodes p).any Info.isDir = true →
        (Dict.get (([], w.root) :: (w.entries ++ [(path, info)])) p).any Info.isDir = true := by
      intro p hp
      show (Dict.get (w.nodes ++ [(path, info)]) p).any Info.isDir = true
      rw [Dict.get_append]
      cases h : Dict.get w.nodes p with
      | none => simp [h] at hp
      | some value => simpa [h] using hp
    intro e he
    rcases mem_append.mp he with he | he
    · exact hkeep _ (w.parent e he)
    · rw [mem_singleton.mp he]
      exact hkeep _ room.2.2.2

theorem get_insert (w : Workspace) (info : Info) (room : w.Room path) (p : Path) :
    (w.insert path info room).get p = if p = path then some info else w.get p := by
  have h : (w.insert path info room).get p = (w.get p).or (Dict.get [(path, info)] p) :=
    Dict.get_append w.nodes [(path, info)] p
  rw [h]
  by_cases hp : p = path
  · rw [hp, room.2.2.1]
    simp [Dict.get]
  · simp [Dict.get, hp, Ne.symm hp]

theorem get_insert_of_get (room : w.Room path) {p : Path} {found : Info}
    (h : w.get p = some found) : (w.insert path info room).get p = some found := by
  rw [get_insert, if_neg, h]
  rintro rfl
  rw [room.2.2.1] at h
  cases h

/-! ### Changing an object in place -/

/-- The table of a workspace after `f` at the path. -/
def changed (w : Workspace) (path : Path) (f : Info → Info) : Dict Path Info :=
  w.entries.map fun e => (e.1, if e.1 = path then f e.2 else e.2)

theorem get_changed (w : Workspace) (hne : path ≠ []) (f : Info → Info) (p : Path) :
    Dict.get (([], w.root) :: w.changed path f) p =
      if p = path then (w.get p).map f else w.get p := by
  have hmap : ([], w.root) :: w.changed path f =
      w.nodes.map fun e => (e.1, if e.1 = path then f e.2 else e.2) := by
    simp [changed, nodes, Ne.symm hne]
  rw [hmap, Dict.get_map fun k v => if k = path then f v else v]
  by_cases hp : p = path
  · simp [hp, get]
  · cases h : w.get p <;> simp [hp, get] at h ⊢ <;> simp [h]

/-- The workspace with one object's attributes changed, its kind kept. -/
def change (w : Workspace) (path : Path) (f : Info → Info) (hne : path ≠ [])
    (kind : ∀ info, (f info).kind = info.kind) : Workspace where
  root := w.root
  entries := w.changed path f
  root_dir := w.root_dir
  nodup := by
    have hkeys : (w.changed path f).map Prod.fst = w.entries.map Prod.fst := by
      rw [changed, map_map]
      rfl
    rw [hkeys]
    exact w.nodup
  proper := by
    intro e he
    obtain ⟨old, hold, rfl⟩ := mem_map.mp he
    exact w.proper old hold
  parent := by
    intro e he
    obtain ⟨old, hold, rfl⟩ := mem_map.mp he
    obtain ⟨info, hget, hinfo⟩ := isDirectory_iff.mp (isDirectory_parent hold)
    show (Dict.get (([], w.root) :: w.changed path f) old.1.dropLast).any Info.isDir = true
    rw [get_changed w hne, hget]
    split
    · simpa [Info.isDir, kind] using hinfo
    · simpa using hinfo

theorem get_change (w : Workspace) (f : Info → Info) (hne : path ≠ [])
    (kind : ∀ info, (f info).kind = info.kind) (p : Path) :
    (w.change path f hne kind).get p = if p = path then (w.get p).map f else w.get p :=
  get_changed w hne f p

/-! ### Shrinking -/

/-- The workspace without an object that nothing lies below. -/
def discard (w : Workspace) (path : Path) (bare : w.Bare path) : Workspace where
  root := w.root
  entries := w.entries.filter fun e => e.1 != path
  root_dir := w.root_dir
  nodup := w.nodup.sublist ((filter_sublist).map Prod.fst)
  proper := fun e he => w.proper e (mem_filter.mp he).1
  parent := by
    intro e he
    obtain ⟨hmem, hne⟩ := mem_filter.mp he
    have hkeep : ([], w.root) :: w.entries.filter (fun e => e.1 != path) =
        w.nodes.filter fun e => e.1 != path := by
      simp [nodes, Ne.symm bare.1]
    rw [hkeep, Dict.get_filter (· != path), if_pos]
    · exact w.parent e hmem
    · -- the directory that holds `e` is not the path, or `e` would lie below it
      rw [bne_iff_ne]
      intro hparent
      have hle : path <+: e.1 := hparent ▸ dropLast_prefix e.1
      exact absurd (bare.2 e hmem hle) (by simpa using hne)

theorem get_discard (w : Workspace) (bare : w.Bare path) (p : Path) :
    (w.discard path bare).get p = if p = path then none else w.get p := by
  have hkeep : (w.discard path bare).nodes = w.nodes.filter fun e => e.1 != path := by
    simp [nodes, discard, Ne.symm bare.1]
  rw [get, hkeep, Dict.get_filter (· != path)]
  by_cases hp : p = path <;> simp [hp, get]

end Workspace

end FoldGPT.Files
