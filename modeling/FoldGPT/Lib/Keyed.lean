import Mathlib.Data.List.Sort

/-!
# Lists in strictly increasing key order

A log whose entries carry strictly increasing keys is determined by which
entries are in it, and cutting it at a bound splits it in two.

* `eq_of_mem_iff`: two such lists with the same entries are equal.
* `filter_lt_split`: the entries below a bound are those below a smaller bound
  followed by those in between.
* `perm_cons_filter_ne`: taking the entry of a key out of a list without repeated
  keys.
-/

namespace FoldGPT.Lib.Keyed

open List

variable {α : Type*} (key : α → Nat)

/-- The entries stand in strictly increasing key order. -/
def Increasing (l : List α) : Prop := l.Pairwise (fun a b => key a < key b)

variable {key}

variable {l : List α}

theorem Increasing.filter (h : Increasing key l) (p : α → Bool) :
    Increasing key (l.filter p) := List.Pairwise.filter p h

theorem Increasing.nodup (h : Increasing key l) : l.Nodup :=
  List.Pairwise.imp (fun hab he => absurd (he ▸ hab) (Nat.lt_irrefl _)) h

/-- **Two increasing lists with the same entries are equal.** -/
theorem eq_of_mem_iff {m : List α} (hl : Increasing key l) (hm : Increasing key m)
    (h : ∀ a, a ∈ l ↔ a ∈ m) : l = m := by
  have hp : l.Perm m := (perm_ext_iff_of_nodup hl.nodup hm.nodup).mpr h
  refine hp.eq_of_pairwise ?_ hl hm
  intro a b _ _ hab hba
  exact absurd (Nat.lt_trans hab hba) (Nat.lt_irrefl _)

/-- **Cutting an increasing list at two bounds.** -/
theorem filter_lt_split (hl : Increasing key l) (p : α → Bool) {m n : Nat} (hmn : m ≤ n) :
    l.filter (fun a => decide (key a < n) && p a) =
      l.filter (fun a => decide (key a < m) && p a) ++
        l.filter (fun a => decide (m ≤ key a) && (decide (key a < n) && p a)) := by
  induction l with
  | nil => rfl
  | cons a rest ih =>
    have hrest : Increasing key rest := (pairwise_cons.mp hl).2
    have hhead : ∀ b ∈ rest, key a < key b := (pairwise_cons.mp hl).1
    by_cases ha : key a < m
    · have hn : key a < n := Nat.lt_of_lt_of_le ha hmn
      have hm : ¬ m ≤ key a := Nat.not_le.mpr ha
      simp only [filter_cons, ha, hn, hm, decide_true, decide_false, Bool.true_and,
        Bool.false_and]
      cases hp : p a with
      | true | false => simpa using ih hrest
    · -- from the first key past `m` on, nothing is below `m`
      have hnone : rest.filter (fun a => decide (key a < m) && p a) = [] := by
        rw [filter_eq_nil_iff]
        intro b hb
        have hab := hhead b hb
        simp only [Bool.and_eq_true, decide_eq_true_eq, not_and]
        intro hbm
        omega
      have hih := ih hrest
      rw [hnone, nil_append] at hih
      simp only [filter_cons, ha, Nat.not_lt.mp ha, decide_false, decide_true,
        Bool.false_and, Bool.true_and, hnone]
      rw [hih]
      simp

/-- **Taking out the entry of a key.** -/
theorem perm_cons_filter_ne (hl : (l.map key).Nodup) {a : α} (ha : a ∈ l) :
    l.Perm (a :: l.filter fun b => decide (key b ≠ key a)) := by
  induction l with
  | nil => cases ha
  | cons b rest ih =>
    obtain ⟨hb, hrest⟩ := nodup_cons.mp hl
    rcases mem_cons.mp ha with rfl | ha
    · have hkeep : rest.filter (fun c => decide (key c ≠ key a)) = rest := by
        rw [filter_eq_self]
        intro c hc
        refine decide_eq_true fun he => hb ?_
        rw [← he]
        exact mem_map_of_mem hc
      have hdrop : (a :: rest).filter (fun c => decide (key c ≠ key a)) = rest := by
        rw [filter_cons, if_neg (by simp), hkeep]
      rw [hdrop]
    · have hne : key b ≠ key a := fun he => hb (he ▸ mem_map_of_mem ha)
      rw [filter_cons, if_pos (decide_eq_true hne)]
      exact ((ih hrest ha).cons b).trans (List.Perm.swap a b _)

end FoldGPT.Lib.Keyed
