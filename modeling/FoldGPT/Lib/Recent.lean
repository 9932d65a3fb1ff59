import Mathlib.Data.List.Basic

/-!
# The most recent entries of a history

A component that must not do a thing twice often remembers only the last `n`
things it did: an ordered table that drops its oldest key when it grows past its
capacity. `push` is that table, `recent` what it stands for.

* `push_recent`: the table holds the last `n` entries of the history.
* `Spaced`: equal entries are more than `n` apart. `Spaced.append`: an entry that the
  table does not hold keeps this, so over a whole history a repetition can only
  come after `n` other entries.
-/

namespace FoldGPT.Lib

open List

variable {α : Type*}

/-- The last `n` entries. -/
def recent (n : Nat) (history : List α) : List α := history.drop (history.length - n)

/-- A new last entry; past the capacity the oldest one goes. -/
def push (n : Nat) (table : List α) (x : α) : List α :=
  if n < (table ++ [x]).length then (table ++ [x]).tail else table ++ [x]

theorem length_recent (n : Nat) (history : List α) :
    (recent n history).length = min n history.length := by
  rw [recent, length_drop]
  omega

/-- **The table holds the last `n` entries of the history.** -/
theorem push_recent (n : Nat) (history : List α) (x : α) :
    push n (recent n history) x = recent n (history ++ [x]) := by
  have hdrop : recent n history ++ [x] = (history ++ [x]).drop (history.length - n) := by
    rw [recent, drop_append_of_le_length (Nat.sub_le _ _)]
  rw [push, length_append, length_recent, length_singleton]
  by_cases hfull : n ≤ history.length
  · rw [if_pos (by omega), hdrop, tail_drop, recent, length_append,
      length_singleton, Nat.sub_add_comm hfull]
  · rw [if_neg (by omega), hdrop, recent, length_append, length_singleton]
    congr 1
    omega

/-- Equal entries are more than `n` apart. -/
def Spaced (n : Nat) (history : List α) : Prop :=
  ∀ (i j : Nat) (x : α), i < j → history[i]? = some x → history[j]? = some x → i + n < j

theorem spaced_nil (n : Nat) : Spaced n ([] : List α) := nofun

variable {history : List α}

/-- An entry is recent if it stands at one of the last `n` places. -/
theorem mem_recent_of_getElem? {n i : Nat} {x : α}
    (hx : history[i]? = some x) (hi : history.length ≤ i + n) : x ∈ recent n history := by
  apply mem_of_getElem? (i := i - (history.length - n))
  rw [recent, List.getElem?_drop, ← hx]
  congr 1
  omega

/-- **An entry that is not recent may be repeated.** -/
theorem Spaced.append {n : Nat} {x : α} (h : Spaced n history)
    (hx : x ∉ recent n history) : Spaced n (history ++ [x]) := by
  intro i j y hij hi hj
  have hj' : j < history.length + 1 := by
    have := (List.getElem?_eq_some_iff.mp hj).1
    simpa using this
  have hi' : history[i]? = some y := by
    rwa [List.getElem?_append_left (by omega)] at hi
  by_cases hlast : j = history.length
  · subst hlast
    rw [List.getElem?_concat_length] at hj
    cases hj
    by_contra hnear
    exact hx (mem_recent_of_getElem? hi' (by omega))
  · rw [List.getElem?_append_left (by omega)] at hj
    exact h i j y hij hi' hj

theorem Spaced.nodup_recent {n : Nat} (h : Spaced n history) : (recent n history).Nodup := by
  refine pairwise_iff_getElem.mpr fun i j hi hj hij heq => ?_
  have hplace : ∀ {k : Nat} (hk : k < (recent n history).length),
      history[history.length - n + k]? = some (recent n history)[k] := by
    intro k hk
    rw [← List.getElem?_eq_getElem hk, recent, List.getElem?_drop]
  have hfar := h _ _ _ (by omega) (hplace hi) (heq ▸ hplace hj)
  rw [length_recent] at hj
  omega

end FoldGPT.Lib
