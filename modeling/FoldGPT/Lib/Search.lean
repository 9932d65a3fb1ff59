import Mathlib.Data.List.Basic

/-!
# Binary search

The loop that halves an interval of a list sorted by a key.

* `search_eq_some`: on a strictly sorted list the loop returns the item with the key, and it
  returns nothing when there is none.
-/

namespace FoldGPT.Lib

variable {α κ : Type} [LT κ] [DecidableEq κ] [DecidableLT κ]

/-- Look for the key between `low` and `high`. -/
def search (key : α → κ) (items : List α) (k : κ) (low high : Nat) : Option α :=
  if low < high then
    match items[low + (high - low) / 2]? with
    | none => none
    | some item =>
      if k = key item then some item
      else if k < key item then search key items k low (low + (high - low) / 2)
      else search key items k (low + (high - low) / 2 + 1) high
  else none
termination_by high - low

/-- The items in the order of their keys, no key twice. -/
abbrev Increasing (key : α → κ) (items : List α) : Prop :=
  items.Pairwise fun a b => key a < key b

variable {key : α → κ} {items : List α}

omit [DecidableEq κ] [DecidableLT κ] in
theorem Increasing.lt (h : Increasing key items) {i j : Nat} {a b : α} (hij : i < j)
    (ha : items[i]? = some a) (hb : items[j]? = some b) : key a < key b := by
  obtain ⟨hi, rfl⟩ := List.getElem?_eq_some_iff.mp ha
  obtain ⟨hj, rfl⟩ := List.getElem?_eq_some_iff.mp hb
  exact List.pairwise_iff_getElem.mp h i j hi hj hij

variable [Trans (· < · : κ → κ → Prop) (· < · : κ → κ → Prop) (· < · : κ → κ → Prop)]
  [Std.Irrefl (· < · : κ → κ → Prop)]

/-- What the loop finds lies in the interval, and what lies in the interval is found. -/
theorem search_iff (h : Increasing key items) {k : κ}
    {low high : Nat} (hhigh : high ≤ items.length) {item : α} :
    search key items k low high = some item ↔
      ∃ i, low ≤ i ∧ i < high ∧ items[i]? = some item ∧ key item = k := by
  fun_induction search key items k low high with
  | case1 low high hlt hnone =>
    rw [List.getElem?_eq_none_iff] at hnone
    omega
  | case2 low high hlt found hfound hkey =>
    rw [Option.some.injEq]
    constructor
    · rintro rfl
      exact ⟨_, by omega, by omega, hfound, hkey.symm⟩
    · rintro ⟨i, hlow, hi, hitem, hitemKey⟩
      have hsame : ¬ key item < key found := by
        rw [hitemKey, ← hkey]
        exact Std.Irrefl.irrefl k
      have hsame' : ¬ key found < key item := by
        rw [hitemKey, ← hkey]
        exact Std.Irrefl.irrefl k
      -- two items with one key are one item
      rcases Nat.lt_trichotomy i (low + (high - low) / 2) with hlt | rfl | hgt
      · exact absurd (h.lt hlt hitem hfound) hsame
      · exact Option.some.inj (hfound.symm.trans hitem)
      · exact absurd (h.lt hgt hfound hitem) hsame'
  | case3 low high hlt found hfound hne hless ih =>
    rw [ih (by omega)]
    constructor
    · rintro ⟨i, hlow, hi, hitem⟩
      exact ⟨i, hlow, by omega, hitem⟩
    · rintro ⟨i, hlow, hi, hitem, rfl⟩
      refine ⟨i, hlow, ?_, hitem, rfl⟩
      rcases Nat.lt_trichotomy i (low + (high - low) / 2) with hlt | rfl | hgt
      · exact hlt
      · exact absurd (congrArg key (Option.some.inj (hitem.symm.trans hfound))) hne
      · exact absurd (Trans.trans (h.lt hgt hfound hitem) hless) (Std.Irrefl.irrefl _)
  | case4 low high hlt found hfound hne hless ih =>
    rw [ih hhigh]
    constructor
    · rintro ⟨i, hlow, hi, hitem⟩
      exact ⟨i, by omega, hi, hitem⟩
    · rintro ⟨i, hlow, hi, hitem, rfl⟩
      refine ⟨i, ?_, hi, hitem, rfl⟩
      rcases Nat.lt_trichotomy i (low + (high - low) / 2) with hlt | rfl | hgt
      · exact absurd (h.lt hlt hitem hfound) hless
      · exact absurd (congrArg key (Option.some.inj (hitem.symm.trans hfound))) hne
      · exact hgt
  | case5 low high hge =>
    refine iff_of_false nofun ?_
    rintro ⟨i, hlow, hi, -⟩
    omega

/-- **Binary search** over a whole list finds exactly the item with the key. -/
theorem search_eq_some (h : Increasing key items) {k : κ} {item : α} :
    search key items k 0 items.length = some item ↔ item ∈ items ∧ key item = k := by
  rw [search_iff h (Nat.le_refl _), List.mem_iff_getElem?]
  constructor
  · rintro ⟨i, -, -, hitem, hkey⟩
    exact ⟨⟨i, hitem⟩, hkey⟩
  · rintro ⟨⟨i, hitem⟩, hkey⟩
    exact ⟨i, Nat.zero_le i, (List.getElem?_eq_some_iff.mp hitem).1, hitem, hkey⟩

theorem search_eq_none (h : Increasing key items) {k : κ} :
    search key items k 0 items.length = none ↔ ∀ item ∈ items, key item ≠ k := by
  rw [Option.eq_none_iff_forall_not_mem]
  simp only [Option.mem_def, search_eq_some h, not_and]

end FoldGPT.Lib
