/-!
# Insertion-ordered dictionaries

A dictionary is the list of its entries in insertion order; assigning to a
present key keeps its place. The lemmas say what each operation does to the
value of every key.
-/

namespace FoldGPT.Lib

open List

/-- The entries of a dictionary, in insertion order. -/
abbrev Dict (κ ν : Type) := List (κ × ν)

namespace Dict

variable {κ ν : Type} [DecidableEq κ]

/-- `d.get(key)`. -/
def get : Dict κ ν → κ → Option ν
  | [], _ => none
  | (k, v) :: rest, key => if k = key then some v else get rest key

def keys (d : Dict κ ν) : List κ := d.map Prod.fst

/-- `d[key] = value`. -/
def set : Dict κ ν → κ → ν → Dict κ ν
  | [], key, value => [(key, value)]
  | (k, v) :: rest, key, value =>
    if k = key then (k, value) :: rest else (k, v) :: set rest key value

/-- `d.pop(key, None)`, less its result. -/
def erase : Dict κ ν → κ → Dict κ ν
  | [], _ => []
  | (k, v) :: rest, key => if k = key then erase rest key else (k, v) :: erase rest key

attribute [local simp] get set erase

theorem get_set (d : Dict κ ν) (key other : κ) (value : ν) :
    (d.set key value).get other = if other = key then some value else d.get other := by
  induction d with
  | nil => simp [eq_comm]
  | cons e rest ih =>
    obtain ⟨k, v⟩ := e
    by_cases hk : k = key
    · subst hk
      by_cases ho : other = k
      · simp [ho]
      · simp [ho, Ne.symm ho]
    · by_cases ho : k = other
      · subst ho
        simp [hk]
      · simp [hk, ho, ih]

@[simp] theorem get_set_self (d : Dict κ ν) (key : κ) (value : ν) :
    (d.set key value).get key = some value := by
  rw [get_set, if_pos rfl]

variable {key : κ}

theorem get_set_of_ne (d : Dict κ ν) {other : κ} (value : ν) (hne : other ≠ key) :
    (d.set key value).get other = d.get other := by
  rw [get_set, if_neg hne]

variable {d : Dict κ ν} {value : ν}

theorem set_of_get (h : d.get key = some value) : d.set key value = d := by
  induction d with
  | nil => cases h
  | cons e rest ih =>
    obtain ⟨k, v⟩ := e
    by_cases hk : k = key
    · simp only [get, hk, if_true, Option.some.injEq] at h
      simp [hk, h]
    · simp only [get, hk, if_false] at h
      simp [hk, ih h]

theorem get_erase (d : Dict κ ν) (key other : κ) :
    (d.erase key).get other = if other = key then none else d.get other := by
  induction d with
  | nil => simp
  | cons e rest ih =>
    obtain ⟨k, v⟩ := e
    by_cases hk : k = key
    · subst hk
      by_cases ho : other = k
      · subst ho
        simpa using ih
      · simp [ih, ho, Ne.symm ho]
    · by_cases ho : k = other
      · subst ho
        simp [hk]
      · simp [hk, ho, ih]

/-! ### Dictionaries without repeated keys -/

theorem mem_of_get (h : d.get key = some value) : (key, value) ∈ d := by
  induction d with
  | nil => cases h
  | cons e rest ih =>
    obtain ⟨k, v⟩ := e
    by_cases hk : k = key
    · simp only [get, hk, if_true, Option.some.injEq] at h
      rw [hk, h]
      exact mem_cons_self
    · simp only [get, hk, if_false] at h
      exact mem_cons_of_mem _ (ih h)

theorem get_eq_none : d.get key = none ↔ key ∉ d.keys := by
  induction d with
  | nil => simp [keys]
  | cons e rest ih =>
    obtain ⟨k, v⟩ := e
    by_cases hk : k = key
    · simp [keys, hk]
    · simp [keys, hk, ih, Ne.symm hk]

theorem get_eq_some (hd : d.keys.Nodup) : d.get key = some value ↔ (key, value) ∈ d := by
  refine ⟨mem_of_get, fun hmem => ?_⟩
  induction d with
  | nil => cases hmem
  | cons e rest ih =>
    obtain ⟨k, v⟩ := e
    obtain ⟨hfresh, hrest⟩ := nodup_cons.mp hd
    rcases mem_cons.mp hmem with heq | hmem
    · obtain ⟨rfl, rfl⟩ := Prod.mk.inj heq
      simp
    · have hne : k ≠ key := by
        rintro rfl
        exact hfresh (mem_map.mpr ⟨(k, value), hmem, rfl⟩)
      simp only [get, hne, if_false]
      exact ih hrest hmem

/-- The value of a key does not depend on the order of the entries. -/
theorem get_of_perm {e : Dict κ ν} (h : d.Perm e) (hd : e.keys.Nodup) (key : κ) :
    d.get key = e.get key := by
  have hdk : d.keys.Nodup := ((h.map Prod.fst).nodup_iff).mpr hd
  cases he : e.get key with
  | some value => exact (get_eq_some hdk).mpr (h.mem_iff.mpr (mem_of_get he))
  | none =>
    rw [get_eq_none] at he ⊢
    exact fun hkey => he ((h.map Prod.fst).mem_iff.mp hkey)

theorem get_append (d e : Dict κ ν) (key : κ) : get (d ++ e) key = (d.get key).or (e.get key) := by
  induction d with
  | nil => simp
  | cons entry rest ih =>
    obtain ⟨k, v⟩ := entry
    by_cases hk : k = key
    · simp [hk]
    · simpa [hk] using ih

theorem get_map (f : κ → ν → ν) (d : Dict κ ν) (key : κ) :
    get (d.map fun e => (e.1, f e.1 e.2)) key = (d.get key).map (f key) := by
  induction d with
  | nil => rfl
  | cons entry rest ih =>
    obtain ⟨k, v⟩ := entry
    by_cases hk : k = key
    · subst hk
      simp
    · simp only [map_cons, get, hk, if_false]
      exact ih

theorem get_filter (keep : κ → Bool) (d : Dict κ ν) (key : κ) :
    get (d.filter fun e => keep e.1) key = if keep key then d.get key else none := by
  induction d with
  | nil => simp
  | cons entry rest ih =>
    obtain ⟨k, v⟩ := entry
    by_cases hk : k = key
    · subst hk
      cases hkeep : keep k <;> simp [hkeep, ih]
    · cases hkeep : keep k <;> simp [hkeep, hk, ih]

theorem set_of_not_mem (value : ν) (h : key ∉ d.keys) : d.set key value = d ++ [(key, value)] := by
  induction d with
  | nil => rfl
  | cons e rest ih =>
    obtain ⟨hk, hrest⟩ := not_or.mp (fun hmem => h (mem_cons.mpr hmem))
    rw [set, if_neg (Ne.symm hk), ih hrest]
    rfl

theorem keys_set (d : Dict κ ν) (key : κ) (value : ν) :
    (d.set key value).keys = if key ∈ d.keys then d.keys else d.keys ++ [key] := by
  induction d with
  | nil => simp [keys]
  | cons e rest ih =>
    obtain ⟨k, v⟩ := e
    simp only [keys] at ih
    by_cases hk : k = key
    · simp [keys, hk]
    · by_cases hmem : key ∈ rest.map Prod.fst
      · simp [keys, hk, ih, hmem]
      · simp [keys, hk, ih, hmem, Ne.symm hk]

theorem nodup_keys_set (h : d.keys.Nodup) (key : κ) (value : ν) : (d.set key value).keys.Nodup := by
  rw [keys_set]
  split
  · exact h
  next hnew =>
    refine nodup_append.mpr ⟨h, nodup_cons.mpr ⟨not_mem_nil, nodup_nil⟩, ?_⟩
    intro a ha b hb hab
    exact hnew (mem_singleton.mp hb ▸ hab ▸ ha)

theorem length_set (d : Dict κ ν) (key : κ) (value : ν) :
    (d.set key value).length = if key ∈ d.keys then d.length else d.length + 1 := by
  have hkeys := congrArg List.length (keys_set d key value)
  by_cases hmem : key ∈ d.keys
  · rw [if_pos hmem] at hkeys ⊢
    simpa [keys] using hkeys
  · rw [if_neg hmem] at hkeys ⊢
    simpa [keys] using hkeys

theorem erase_sublist (d : Dict κ ν) (key : κ) : (d.erase key).Sublist d := by
  induction d with
  | nil => exact List.Sublist.refl _
  | cons e rest ih =>
    obtain ⟨k, v⟩ := e
    by_cases hk : k = key
    · simpa only [erase, hk, if_true] using ih.cons (k, v)
    · simpa only [erase, hk, if_false] using ih.cons_cons (k, v)

theorem erase_of_not_mem (h : key ∉ d.keys) : d.erase key = d := by
  induction d with
  | nil => rfl
  | cons e rest ih =>
    obtain ⟨k, v⟩ := e
    have hk : k ≠ key := fun heq => h (heq ▸ mem_cons_self)
    rw [erase, if_neg hk, ih fun hmem => h (mem_cons_of_mem _ hmem)]

theorem perm_erase (hd : d.keys.Nodup)
    (h : d.get key = some value) : d.Perm ((key, value) :: d.erase key) := by
  induction d with
  | nil => cases h
  | cons e rest ih =>
    obtain ⟨k, v⟩ := e
    obtain ⟨hk, hrest⟩ := nodup_cons.mp hd
    by_cases heq : k = key
    · subst heq
      have hnone : erase rest k = rest := erase_of_not_mem hk
      simp only [get, if_true, Option.some.injEq] at h
      simp [hnone, h]
    · simp only [get, if_neg heq] at h
      simp only [erase, if_neg heq]
      exact ((ih hrest h).cons _).trans (List.Perm.swap _ _ _)

theorem nodup_keys_erase (h : d.keys.Nodup) (key : κ) : (d.erase key).keys.Nodup :=
  h.sublist ((erase_sublist d key).map Prod.fst)

theorem mem_set {e : κ × ν} (h : e ∈ d.set key value) : e = (key, value) ∨ e ∈ d := by
  induction d with
  | nil => exact .inl (mem_singleton.mp h)
  | cons first rest ih =>
    obtain ⟨k, v⟩ := first
    by_cases hk : k = key
    · rw [set, if_pos hk, hk] at h
      exact (mem_cons.mp h).imp_right (mem_cons_of_mem _)
    · rw [set, if_neg hk] at h
      rcases mem_cons.mp h with h | h
      · exact .inr (h ▸ mem_cons_self)
      · exact (ih h).imp_right (mem_cons_of_mem _)

/-- `d.update(other)`. -/
def update (d other : Dict κ ν) : Dict κ ν := other.foldl (fun d e => d.set e.1 e.2) d

theorem get_update (d : Dict κ ν) {other : Dict κ ν} (h : other.keys.Nodup) (key : κ) :
    (d.update other).get key = (other.get key).or (d.get key) := by
  induction other generalizing d with
  | nil => rfl
  | cons e rest ih =>
    obtain ⟨k, v⟩ := e
    obtain ⟨hfresh, hrest⟩ := nodup_cons.mp h
    show (update (d.set k v) rest).get key = _
    rw [ih _ hrest, get_set]
    by_cases hk : k = key
    · subst hk
      rw [get_eq_none.mpr hfresh]
      simp
    · simp [hk, Ne.symm hk]

/-- What holds of the entries of both holds after the update. -/
theorem forall_mem_update {P : κ × ν → Prop} {other : Dict κ ν} (hd : ∀ e ∈ d, P e)
    (hother : ∀ e ∈ other, P e) : ∀ e ∈ d.update other, P e := by
  induction other generalizing d with
  | nil => exact hd
  | cons e rest ih =>
    refine ih ?_ fun e' he' => hother e' (mem_cons_of_mem e he')
    intro e' he'
    rcases mem_set he' with rfl | he'
    · exact hother _ mem_cons_self
    · exact hd e' he'

theorem nodup_keys_update (h : d.keys.Nodup) (other : Dict κ ν) : (d.update other).keys.Nodup := by
  induction other generalizing d with
  | nil => exact h
  | cons e rest ih => exact ih (nodup_keys_set h e.1 e.2)

omit [DecidableEq κ] in
theorem nodup_keys_filter (h : d.keys.Nodup) (keep : κ × ν → Bool) :
    (keys (d.filter keep)).Nodup := List.Nodup.sublist (List.Sublist.map _ filter_sublist) h

end Dict

end FoldGPT.Lib
