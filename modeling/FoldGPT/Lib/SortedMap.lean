import FoldGPT.Lib.Dict
import Mathlib.Data.List.Nodup
import Mathlib.Order.Lattice

/-!
# Maps in the order of their keys

A map whose iteration follows the order of the keys, as its list of entries.

* `SortedMap.put`: an update keeps the order.
* `SortedMap.entries_put_of_lt`: a key above all others goes to the end.
-/

namespace FoldGPT.Lib

open List

variable {κ ν : Type} [LinearOrder κ]

/-- Entries with increasing keys. -/
structure SortedMap (κ ν : Type) [LinearOrder κ] where
  entries : Dict κ ν
  sorted : entries.keys.Pairwise (· < ·)
  deriving DecidableEq

namespace SortedMap

/-- The entries with this one put in its place. -/
def insertEntry (key : κ) (value : ν) : Dict κ ν → Dict κ ν
  | [] => [(key, value)]
  | entry :: rest =>
    if key < entry.1 then (key, value) :: entry :: rest
    else if key = entry.1 then (key, value) :: rest
    else entry :: insertEntry key value rest

theorem mem_keys_insertEntry {key other : κ} {value : ν} {entries : Dict κ ν} :
    other ∈ (insertEntry key value entries).keys ↔ other = key ∨ other ∈ entries.keys := by
  induction entries with
  | nil => simp [insertEntry, Dict.keys]
  | cons entry rest ih =>
    unfold insertEntry
    split_ifs with hlt heq
    · simp [Dict.keys]
    · simp [Dict.keys, heq]
    · have hcons : ∀ d : Dict κ ν, other ∈ Dict.keys (entry :: d) ↔
          other = entry.1 ∨ other ∈ d.keys := fun d => by simp [Dict.keys]
      rw [hcons, hcons, ih, or_left_comm]

theorem sorted_insertEntry {entries : Dict κ ν} (h : entries.keys.Pairwise (· < ·)) (key : κ)
    (value : ν) : (insertEntry key value entries).keys.Pairwise (· < ·) := by
  induction entries with
  | nil => exact pairwise_singleton _ _
  | cons entry rest ih =>
    obtain ⟨hfirst, hrest⟩ := pairwise_cons.mp h
    unfold insertEntry
    split_ifs with hlt heq
    · refine pairwise_cons.mpr ⟨fun other hother => ?_, h⟩
      rcases mem_cons.mp hother with rfl | hother
      · exact hlt
      · exact lt_trans hlt (hfirst other hother)
    · refine pairwise_cons.mpr ⟨fun other hother => ?_, hrest⟩
      exact heq ▸ hfirst other hother
    · refine pairwise_cons.mpr ⟨fun other hother => ?_, ih hrest⟩
      rcases mem_keys_insertEntry.mp hother with rfl | hother
      · exact lt_of_le_of_ne (not_lt.mp hlt) (Ne.symm heq)
      · exact hfirst other hother

/-! ### The operations -/

def empty : SortedMap κ ν := ⟨[], .nil⟩

def put (map : SortedMap κ ν) (key : κ) (value : ν) : SortedMap κ ν :=
  ⟨insertEntry key value map.entries, sorted_insertEntry map.sorted key value⟩

def get (map : SortedMap κ ν) (key : κ) : Option ν := map.entries.get key

def keys (map : SortedMap κ ν) : List κ := map.entries.keys

variable {map : SortedMap κ ν} {key : κ} {value : ν}

theorem nodup (map : SortedMap κ ν) : map.keys.Nodup := map.sorted.imp fun h => ne_of_lt h

theorem get_eq_some : map.get key = some value ↔ (key, value) ∈ map.entries :=
  Dict.get_eq_some map.nodup

theorem mem_keys_put {k : κ} : k ∈ (map.put key value).keys ↔ k = key ∨ k ∈ map.keys :=
  mem_keys_insertEntry

theorem entries_put_of_lt (value : ν) (h : ∀ k ∈ map.keys, k < key) :
    (map.put key value).entries = map.entries ++ [(key, value)] := by
  show insertEntry key value map.entries = map.entries ++ [(key, value)]
  replace h : ∀ k ∈ map.entries.keys, k < key := h
  generalize map.entries = d at h ⊢
  induction d with
  | nil => rfl
  | cons entry d ih =>
    have hentry : entry.1 < key := h entry.1 mem_cons_self
    rw [insertEntry, if_neg (not_lt_of_gt hentry), if_neg (ne_of_gt hentry), cons_append]
    exact congrArg (entry :: ·) (ih fun k hk => h k (mem_cons_of_mem _ hk))

end SortedMap

end FoldGPT.Lib
