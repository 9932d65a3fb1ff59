import FoldGPT.Lib.Dict
import Mathlib.Data.List.Induction
import Mathlib.Data.List.Nodup

/-!
# Trees by their paths

A finite tree of named objects, kept as a table from paths to what is there. Some
objects may have others inside them; the fields say that every path of the table
lies in such an object, and that the root, the empty path, is one.

* `get_inner_above`, `get_none_below`: what lies above and below a path.
* `listing`: the names in an object, in the order of the table.
* `below`, `below_perm`: **an object and all below it are the object and, for each
  name in it, that and all below it.**
* `erase`, `modify`, `insert`: the tree without an object that nothing lies in, with
  one object changed, and with a new one.
-/

namespace FoldGPT.Lib

open List Option

/-- A tree with names `ι` and objects `α`; `inner` tells which may have others inside. -/
structure PathTree (ι α : Type) [DecidableEq ι] (inner : α → Bool) where
  root : α
  entries : Dict (List ι) α
  root_inner : inner root = true
  nodup : (entries.map Prod.fst).Nodup
  nonempty : ∀ e ∈ entries, e.1 ≠ []
  parent : ∀ e ∈ entries, (Dict.get (([], root) :: entries) e.1.dropLast).any inner = true

namespace PathTree

/-- Below a path there is the path itself, or something in it. -/
theorem prefix_cases {κ : Type} {p q : List κ} (h : p <+: q) : q = p ∨ ∃ name, p ++ [name] <+: q := by
  obtain ⟨rest, rfl⟩ := h
  cases rest with
  | nil => exact .inl (append_nil p)
  | cons name rest =>
    right
    refine ⟨name, rest, ?_⟩
    simp

variable {ι α : Type} [DecidableEq ι] {inner : α → Bool} (t : PathTree ι α inner)

/-- The whole table, the root first. -/
def nodes : Dict (List ι) α := ([], t.root) :: t.entries

def get (path : List ι) : Option α := t.nodes.get path

/-- The names in an object. -/
def listing (path : List ι) : List ι :=
  t.entries.filterMap fun e => if e.1.dropLast = path then e.1.getLast? else none

/-- An object and all below it. -/
def below (path : List ι) : List (List ι × α) := t.nodes.filter fun e => path.isPrefixOf e.1

variable {t} {path above : List ι} {name : ι} {a : α}

/-! ### The table -/

theorem nodup_nodes (t : PathTree ι α inner) : t.nodes.keys.Nodup := by
  refine nodup_cons.mpr ⟨?_, t.nodup⟩
  intro hmem
  obtain ⟨e, he, hnil⟩ := List.mem_map.mp hmem
  exact t.nonempty e he hnil

theorem get_eq_some : t.get path = some a ↔ (path, a) ∈ t.nodes := Dict.get_eq_some t.nodup_nodes

@[simp] theorem get_root (t : PathTree ι α inner) : t.get [] = some t.root :=
  get_eq_some.mpr mem_cons_self

theorem mem_entries (hne : path ≠ []) (h : t.get path = some a) : (path, a) ∈ t.entries := by
  rcases mem_cons.mp (get_eq_some.mp h) with heq | hmem
  · exact absurd (Prod.mk.inj heq).1 hne
  · exact hmem

theorem get_inner_parent (h : t.get (path ++ [name]) = some a) :
    ∃ directory, t.get path = some directory ∧ inner directory = true := by
  have hparent := t.parent _ (mem_entries (by simp) h)
  rw [dropLast_concat] at hparent
  cases hdirectory : t.get path with
  | none =>
    have hnone : Dict.get (([], t.root) :: t.entries) path = none := hdirectory
    rw [hnone] at hparent
    cases hparent
  | some directory =>
    have hsome : Dict.get (([], t.root) :: t.entries) path = some directory := hdirectory
    rw [hsome] at hparent
    exact ⟨directory, rfl, hparent⟩

/-- **Above an object there are inner ones only.** -/
theorem get_inner_above (h : t.get path = some a) (hle : above <+: path) (hne : above ≠ path) :
    ∃ directory, t.get above = some directory ∧ inner directory = true := by
  induction path using List.reverseRecOn generalizing a with
  | nil => exact absurd (prefix_nil.mp hle) hne
  | append_singleton path name ih =>
    obtain ⟨directory, hdirectory, hinner⟩ := get_inner_parent h
    rcases prefix_concat_iff.mp hle with heq | hle
    · exact absurd heq hne
    · by_cases heq : above = path
      · exact ⟨directory, heq ▸ hdirectory, hinner⟩
      · exact ih hdirectory hle heq

theorem get_none_below (h : t.get above = none) (hle : above <+: path) : t.get path = none := by
  by_contra hpath
  obtain ⟨a, ha⟩ := ne_none_iff_exists'.mp hpath
  by_cases heq : above = path
  · rw [heq, ha] at h
    cases h
  · obtain ⟨directory, hdirectory, -⟩ := get_inner_above ha hle heq
    rw [h] at hdirectory
    cases hdirectory

/-! ### What is in an object and below it -/

theorem mem_listing : name ∈ t.listing path ↔ ∃ a, t.get (path ++ [name]) = some a := by
  unfold listing
  rw [mem_filterMap]
  constructor
  · intro h
    obtain ⟨e, he, hname⟩ := h
    by_cases hpath : e.1.dropLast = path
    · rw [if_pos hpath] at hname
      have hwhole : e.1 = path ++ [name] := by
        rw [← hpath]
        exact (dropLast_append_getLast? name hname).symm
      exact ⟨e.2, hwhole ▸ get_eq_some.mpr (mem_cons_of_mem _ he)⟩
    · rw [if_neg hpath] at hname
      cases hname
  · intro h
    obtain ⟨a, ha⟩ := h
    refine ⟨_, mem_entries (by simp) ha, ?_⟩
    simp

theorem nodup_listing (t : PathTree ι α inner) (path : List ι) : (t.listing path).Nodup := by
  have hpaths := pairwise_map.mp t.nodup
  refine List.Pairwise.filterMap _ ?_ hpaths
  intro e f hne name hname other hother
  rintro rfl
  by_cases he : e.1.dropLast = path
  · rw [if_pos he] at hname
    by_cases hf : f.1.dropLast = path
    · rw [if_pos hf] at hother
      apply hne
      rw [← dropLast_append_getLast? name hname, ← dropLast_append_getLast? name hother,
        he, hf]
    · rw [if_neg hf] at hother
      cases hother
  · rw [if_neg he] at hname
    cases hname

theorem mem_below {e : List ι × α} : e ∈ t.below path ↔ t.get e.1 = some e.2 ∧ path <+: e.1 := by
  unfold below
  rw [mem_filter, get_eq_some, isPrefixOf_iff_prefix]

theorem nodup_below (t : PathTree ι α inner) (path : List ι) : (t.below path).Nodup :=
  (List.Nodup.of_map _ t.nodup_nodes).filter _

theorem below_root (t : PathTree ι α inner) : t.below [] = t.nodes := by
  exact filter_eq_self.mpr fun e _ => rfl

theorem below_perm (h : t.get path = some a) :
    (t.below path).Perm
      ((path, a) :: (t.listing path).flatMap fun name => t.below (path ++ [name])) := by
  have hchild : ∀ e : List ι × α, ∀ name, path ++ [name] <+: e.1 → e.1 ≠ path := by
    intro e name hle heq
    have hlength := hle.length_le
    rw [heq, length_append, length_singleton] at hlength
    omega
  have hnodup : ((path, a) ::
      (t.listing path).flatMap fun name => t.below (path ++ [name])).Nodup := by
    rw [nodup_cons, nodup_flatMap]
    refine ⟨?_, ?_, ?_⟩
    · intro hmem
      obtain ⟨name, -, hbelow⟩ := mem_flatMap.mp hmem
      exact hchild _ name (mem_below.mp hbelow).2 rfl
    · intro name _
      exact t.nodup_below _
    · refine (t.nodup_listing path).imp ?_
      intro m n hne e hm hn
      -- the next name on the way to `e` is the same
      obtain ⟨restm, hrestm⟩ := (mem_below.mp hm).2
      obtain ⟨restn, hrestn⟩ := (mem_below.mp hn).2
      have hboth : path ++ ([m] ++ restm) = path ++ ([n] ++ restn) := by
        rw [← append_assoc, ← append_assoc, hrestm, hrestn]
      have hsame := append_cancel_left hboth
      exact hne (List.cons.inj hsame).1
  refine (perm_ext_iff_of_nodup (t.nodup_below path) hnodup).mpr ?_
  intro e
  rw [mem_cons, mem_flatMap, mem_below]
  constructor
  · intro hbelow
    obtain ⟨hget, hle⟩ := hbelow
    rcases prefix_cases hle with heq | hnext
    · left
      rw [heq, h] at hget
      exact Prod.ext heq (Option.some.inj hget).symm
    · right
      obtain ⟨name, hname⟩ := hnext
      refine ⟨name, ?_, mem_below.mpr ⟨hget, hname⟩⟩
      rw [mem_listing]
      by_cases heq : path ++ [name] = e.1
      · exact ⟨e.2, heq ▸ hget⟩
      · obtain ⟨directory, hdirectory, -⟩ := get_inner_above hget hname heq
        exact ⟨directory, hdirectory⟩
  · intro hmem
    rcases hmem with heq | hinside
    · rw [heq]
      exact ⟨h, prefix_rfl⟩
    · obtain ⟨name, -, hbelow⟩ := hinside
      obtain ⟨hget, hle⟩ := mem_below.mp hbelow
      exact ⟨hget, (prefix_append _ _).trans hle⟩

theorem listing_leaf (h : t.get path = some a) (hleaf : inner a = false) : t.listing path = [] := by
  rw [eq_nil_iff_forall_not_mem]
  intro name hname
  obtain ⟨b, hb⟩ := mem_listing.mp hname
  obtain ⟨directory, hdirectory, hinner⟩ := get_inner_parent hb
  rw [h] at hdirectory
  cases hdirectory
  rw [hleaf] at hinner
  cases hinner

/-! ### Taking an object away -/

/-- Nothing lies strictly below the path, and it is not the root. -/
def Bare (t : PathTree ι α inner) (path : List ι) : Prop :=
  path ≠ [] ∧ ∀ e ∈ t.entries, path <+: e.1 → e.1 = path

instance (t : PathTree ι α inner) (path : List ι) : Decidable (t.Bare path) :=
  inferInstanceAs (Decidable (_ ∧ _))

/-- The tree without an object that nothing lies in. -/
def erase (t : PathTree ι α inner) (path : List ι) (bare : t.Bare path) : PathTree ι α inner where
  root := t.root
  entries := t.entries.filter fun e => e.1 != path
  root_inner := t.root_inner
  nodup := t.nodup.sublist ((filter_sublist).map Prod.fst)
  nonempty := fun e he => t.nonempty e (mem_filter.mp he).1
  parent := by
    intro e he
    obtain ⟨hmem, hne⟩ := mem_filter.mp he
    have hkeep : ([], t.root) :: t.entries.filter (fun e => e.1 != path) =
        t.nodes.filter fun e => e.1 != path := by
      simp [nodes, Ne.symm bare.1]
    rw [hkeep, Dict.get_filter (· != path), if_pos]
    · exact t.parent e hmem
    · -- the object that holds `e` is not the path, or `e` would lie below it
      rw [bne_iff_ne]
      intro hparent
      have hle : path <+: e.1 := hparent ▸ dropLast_prefix e.1
      exact absurd (bare.2 e hmem hle) (by simpa using hne)

theorem get_erase (t : PathTree ι α inner) (bare : t.Bare path) (p : List ι) :
    (t.erase path bare).get p = if p = path then none else t.get p := by
  have hkeep : (t.erase path bare).nodes = t.nodes.filter fun e => e.1 != path := by
    simp [nodes, erase, Ne.symm bare.1]
  rw [get, hkeep, Dict.get_filter (· != path)]
  by_cases hp : p = path
  · simp [hp]
  · simp [hp, get]

/-! ### Changing an object -/

/-- The tree with the object at a path changed. -/
def modify (t : PathTree ι α inner) (path : List ι) (f : α → α)
    (keeps : ∀ a, inner (f a) = inner a) : PathTree ι α inner where
  root := if [] = path then f t.root else t.root
  entries := t.entries.map fun e => (e.1, if e.1 = path then f e.2 else e.2)
  root_inner := by
    split
    · rw [keeps]
      exact t.root_inner
    · exact t.root_inner
  nodup := by
    rw [List.map_map]
    exact t.nodup
  nonempty := by
    intro e he
    obtain ⟨old, hold, rfl⟩ := List.mem_map.mp he
    exact t.nonempty old hold
  parent := by
    intro e he
    obtain ⟨old, hold, rfl⟩ := List.mem_map.mp he
    have hnodes : ([], if [] = path then f t.root else t.root) ::
        t.entries.map (fun e => (e.1, if e.1 = path then f e.2 else e.2)) =
        t.nodes.map fun e => (e.1, if e.1 = path then f e.2 else e.2) := rfl
    have hparent := t.parent old hold
    rw [hnodes, Dict.get_map fun k v => if k = path then f v else v]
    cases hget : Dict.get t.nodes old.1.dropLast with
    | none =>
      have hnone : Dict.get (([], t.root) :: t.entries) old.1.dropLast = none := hget
      rw [hnone] at hparent
      cases hparent
    | some a =>
      have hsome : Dict.get (([], t.root) :: t.entries) old.1.dropLast = some a := hget
      rw [hsome] at hparent
      rw [any_some] at hparent
      by_cases hpath : old.1.dropLast = path
      · simpa [hpath, keeps] using hparent
      · simpa [hpath] using hparent

theorem get_modify (t : PathTree ι α inner) (f : α → α) (keeps : ∀ a, inner (f a) = inner a)
    (p : List ι) :
    (t.modify path f keeps).get p = if p = path then (t.get p).map f else t.get p := by
  have hnodes : (t.modify path f keeps).nodes =
      t.nodes.map fun e => (e.1, if e.1 = path then f e.2 else e.2) := rfl
  rw [get, hnodes, Dict.get_map fun k v => if k = path then f v else v]
  by_cases hp : p = path
  · simp [hp, get]
  · simp [hp, get]

/-! ### Putting an object in -/

/-- Nothing is at the path, and it lies in an inner object. -/
def Room (t : PathTree ι α inner) (path : List ι) : Prop :=
  path ≠ [] ∧ t.get path = none ∧ (t.get path.dropLast).any inner = true

instance (t : PathTree ι α inner) (path : List ι) : Decidable (t.Room path) :=
  decidable_of_iff (path ≠ [] ∧ (t.get path).isNone = true ∧
    (t.get path.dropLast).any inner = true) (by rw [Room, isNone_iff_eq_none])

/-- The tree with a new object. -/
def insert (t : PathTree ι α inner) (path : List ι) (a : α) (room : t.Room path) :
    PathTree ι α inner where
  root := t.root
  entries := t.entries ++ [(path, a)]
  root_inner := t.root_inner
  nodup := by
    rw [map_append, nodup_append]
    refine ⟨t.nodup, nodup_singleton _, ?_⟩
    intro p hp q hq heq
    rw [heq, mem_singleton.mp hq] at hp
    exact Dict.get_eq_none.mp room.2.1 (mem_cons_of_mem _ hp)
  nonempty := by
    intro e he
    rcases mem_append.mp he with hold | hnew
    · exact t.nonempty e hold
    · rw [mem_singleton.mp hnew]
      exact room.1
  parent := by
    intro e he
    have hparent : (t.get e.1.dropLast).any inner = true := by
      rcases mem_append.mp he with hold | hnew
      · exact t.parent e hold
      · rw [mem_singleton.mp hnew]
        exact room.2.2
    have hnodes : ([], t.root) :: (t.entries ++ [(path, a)]) = t.nodes ++ [(path, a)] := rfl
    rw [hnodes, Dict.get_append]
    cases hget : t.get e.1.dropLast with
    | none =>
      rw [hget] at hparent
      cases hparent
    | some directory =>
      have hdirectory : Dict.get t.nodes e.1.dropLast = some directory := hget
      rw [hdirectory, some_or]
      rw [hget] at hparent
      exact hparent

theorem get_insert (t : PathTree ι α inner) (a : α) (room : t.Room path) (p : List ι) :
    (t.insert path a room).get p = if p = path then some a else t.get p := by
  have hnodes : (t.insert path a room).nodes = t.nodes ++ [(path, a)] := rfl
  rw [get, hnodes, Dict.get_append]
  by_cases hp : p = path
  · have hnone : Dict.get t.nodes path = none := room.2.1
    rw [if_pos hp, hp, hnone]
    simp [Dict.get]
  · rw [if_neg hp]
    simp [Dict.get, Ne.symm hp, get]

end PathTree

end FoldGPT.Lib
