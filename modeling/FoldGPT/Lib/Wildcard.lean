import Mathlib.Data.List.Infix

/-!
# Matching with wildcards

A pattern has literal symbols, a symbol that stands for any one symbol and a star that
stands for any number of them. `matching` says what it means to match, by recursion on
the pattern. `scan` is the usual loop without recursion: it walks along pattern and name,
remembers the last star it passed, and on a mismatch goes back to that star and lets it
take one symbol more.

* `scan_iff`: the loop decides the meaning. Forgetting the earlier stars loses nothing:
  what the last star and the pattern after it can match from a later place, it can match
  from here.
* `run_eq`: the same for a whole run.
* `matching_iff_split`: the meaning once more, as a way to split the name.
-/

namespace FoldGPT.Lib

open List

/-- The two wildcards and the comparison of literal symbols. -/
structure Wildcard (α : Type) where
  star : α
  any : α
  same : α → α → Bool

namespace Wildcard

variable {α : Type} [DecidableEq α] (w : Wildcard α)

/-- One symbol of the pattern, not a star, accepts one symbol of the name. -/
def fits (q c : α) : Bool := q = w.any || w.same q c

/-- **What it means to match.** -/
def matching : List α → List α → Bool
  | [], name => name.isEmpty
  | q :: pattern, name =>
    if q = w.star then name.tails.any (matching pattern)
    else match name with
      | [] => false
      | c :: rest => w.fits q c && matching pattern rest

/-- Where to go on after a mismatch: the last star takes one symbol more. -/
def retry : Option (List α × List α) → Option (List α × List α)
  | some (tried, _ :: later) => some (tried, later)
  | _ => none

variable {back : Option (List α × List α)}

omit [DecidableEq α] in
theorem retry_eq_some {b : List α × List α}
    (h : retry back = some b) : ∃ c, back = some (b.1, c :: b.2) := by
  match back, h with
  | some (_, c :: _), h =>
    cases h
    exact ⟨c, rfl⟩

/-- The loop: what is left of the pattern and of the name, and, once a star was passed, the
pattern after it and the rest of the name from which it was last tried. -/
def scan (pattern name : List α) (back : Option (List α × List α))
    (h : ∀ b, back = some b → pattern.length ≤ b.1.length) : Bool :=
  match name with
  | [] => (pattern.dropWhile (· = w.star)).isEmpty
  | c :: rest =>
    match pattern with
    | q :: more =>
      if q = w.star then
        scan more (c :: rest) (some (more, c :: rest)) (by rintro _ ⟨⟩; exact Nat.le_refl _)
      else if w.fits q c then
        scan more rest back fun b hb => Nat.le_of_succ_le (h b hb)
      else match hback : retry back with
        | some b => scan b.1 b.2 (some b) (by rintro _ ⟨⟩; exact Nat.le_refl _)
        | none => false
    | [] =>
      match hback : retry back with
      | some b => scan b.1 b.2 (some b) (by rintro _ ⟨⟩; exact Nat.le_refl _)
      | none => false
  -- a star shortens the pattern to come back to, a mismatch the name to come back to
termination_by
  ((match back with | none => pattern.length + 1 | some b => b.1.length),
    (match back with | none => 0 | some b => b.2.length), pattern.length)
decreasing_by
  · cases back with
    | none =>
      apply Prod.Lex.left
      simp only [length_cons]
      omega
    | some b =>
      have := h b rfl
      apply Prod.Lex.left
      simp only [length_cons] at this ⊢
      omega
  · cases back with
    | none =>
      apply Prod.Lex.left
      simp only [length_cons]
      omega
    | some b =>
      apply Prod.Lex.right
      apply Prod.Lex.right
      simp only [length_cons]
      omega
  all_goals
    obtain ⟨d, rfl⟩ := retry_eq_some hback
    apply Prod.Lex.right
    apply Prod.Lex.left
    exact Nat.lt_succ_self _

variable {w}


variable {pattern name : List α}

theorem matching_star :
    w.matching (w.star :: pattern) name = true ↔
      ∃ rest, rest <:+ name ∧ w.matching pattern rest = true := by
  cases name <;> simp only [matching, if_true, any_eq_true, mem_tails]

theorem matching_cons {q c : α} (hq : q ≠ w.star) :
    w.matching (q :: pattern) (c :: name) = (w.fits q c && w.matching pattern name) := by
  rw [matching, if_neg hq]

theorem matching_cons_nil {q : α} (hq : q ≠ w.star) : w.matching (q :: pattern) [] = false := by
  rw [matching, if_neg hq]

theorem matching_end : w.matching pattern [] = (pattern.dropWhile (· = w.star)).isEmpty := by
  induction pattern with
  | nil => rfl
  | cons q pattern ih =>
    by_cases hq : q = w.star
    · subst hq
      simp [matching, ih]
    · simp [matching, hq]

theorem matching_append {seg : List α} (hseg : w.star ∉ seg)
    (h : w.matching (seg ++ pattern) name = true) :
    ∃ taken rest, name = taken ++ rest ∧ taken.length = seg.length ∧
      w.matching pattern rest = true := by
  induction seg generalizing name with
  | nil => exact ⟨[], name, rfl, rfl, h⟩
  | cons q seg ih =>
    obtain ⟨hq, hrest⟩ := not_or.mp (fun hmem => hseg (mem_cons.mpr hmem))
    cases name with
    | nil =>
      rw [cons_append, matching_cons_nil (Ne.symm hq)] at h
      cases h
    | cons c name =>
      rw [cons_append, matching_cons (Ne.symm hq), Bool.and_eq_true] at h
      obtain ⟨taken, rest, rfl, hlen, hmatch⟩ := ih hrest h.2
      exact ⟨c :: taken, rest, rfl, by rw [length_cons, length_cons, hlen], hmatch⟩

/-- Since the last star the loop has gone on symbol by symbol. -/
def Since (w : Wildcard α) (pattern name : List α) (back : Option (List α × List α)) : Prop :=
  ∀ b, back = some b → ∃ seg taken, b.1 = seg ++ pattern ∧ b.2 = taken ++ name ∧
    seg.length = taken.length ∧ w.star ∉ seg

/-- What is still to be tried after a mismatch. -/
def Later (w : Wildcard α) (back : Option (List α × List α)) : Prop :=
  ∃ b, back = some b ∧ ∃ rest, rest <:+ b.2 ∧ rest ≠ b.2 ∧ w.matching b.1 rest = true

omit [DecidableEq α] in
theorem since_start (pattern name : List α) : Since w pattern name (some (pattern, name)) := by
  rintro _ ⟨⟩
  exact ⟨[], [], rfl, rfl, rfl, not_mem_nil⟩

theorem not_later_none : ¬ Later w none := nofun

theorem later_iff : Later w back ↔
    ∃ b, retry back = some b ∧ (w.matching b.1 b.2 = true ∨ Later w (some b)) := by
  constructor
  · rintro ⟨⟨tried, name⟩, rfl, rest, hsuffix, hne, hmatch⟩
    cases name with
    | nil => exact absurd (suffix_nil.mp hsuffix) hne
    | cons c later =>
      refine ⟨(tried, later), rfl, ?_⟩
      rcases suffix_cons_iff.mp hsuffix with rfl | hsuffix
      · exact absurd rfl hne
      · by_cases heq : rest = later
        · exact .inl (heq ▸ hmatch)
        · exact .inr ⟨_, rfl, rest, hsuffix, heq, hmatch⟩
  · rintro ⟨⟨tried, later⟩, hback, hor⟩
    obtain ⟨c, rfl⟩ := retry_eq_some hback
    have hlonger : ∀ rest : List α, rest <:+ later → rest ≠ c :: later := by
      intro rest hsuffix heq
      have hlen := hsuffix.length_le
      rw [heq, length_cons] at hlen
      omega
    rcases hor with hmatch | ⟨_, ⟨⟩, rest, hsuffix, -, hmatch⟩
    · exact ⟨_, rfl, later, suffix_cons c later, hlonger later (suffix_refl _), hmatch⟩
    · exact ⟨_, rfl, rest, hsuffix.trans (suffix_cons c later), hlonger rest hsuffix, hmatch⟩

theorem matching_star_iff : w.matching (w.star :: pattern) name = true ↔
    w.matching pattern name = true ∨ Later w (some (pattern, name)) := by
  rw [matching_star]
  constructor
  · rintro ⟨rest, hsuffix, hmatch⟩
    by_cases heq : rest = name
    · exact .inl (heq ▸ hmatch)
    · exact .inr ⟨_, rfl, rest, hsuffix, heq, hmatch⟩
  · rintro (hmatch | ⟨_, ⟨⟩, rest, hsuffix, -, hmatch⟩)
    · exact ⟨name, suffix_refl name, hmatch⟩
    · exact ⟨rest, hsuffix, hmatch⟩

/-- What is left of a match that starts later, past the symbols since the last star. -/
theorem later_since (hsince : Since w pattern name back) (h : Later w back) :
    ∃ rest, rest <:+ name ∧ rest.length < name.length ∧ w.matching pattern rest = true := by
  obtain ⟨b, hb, whole, hsuffix, hne, hmatch⟩ := h
  obtain ⟨seg, taken, hpattern, hname, hlen, hseg⟩ := hsince b hb
  rw [hpattern] at hmatch
  obtain ⟨first, rest, rfl, hfirst, hrest⟩ := matching_append hseg hmatch
  have hshort : (first ++ rest).length < b.2.length := by
    refine Nat.lt_of_le_of_ne hsuffix.length_le fun heq => hne (hsuffix.eq_of_length heq)
  rw [hname, length_append, length_append] at hshort
  have hlt : rest.length < name.length := by omega
  have hinner : rest <:+ b.2 := (suffix_append first rest).trans hsuffix
  refine ⟨rest, ?_, hlt, hrest⟩
  exact suffix_of_suffix_length_le hinner (hname ▸ suffix_append taken name)
    (Nat.le_of_lt hlt)

/-- **The loop decides the meaning.** -/
theorem scan_iff
    {h : ∀ b, back = some b → pattern.length ≤ b.1.length} (hsince : Since w pattern name back) :
    w.scan pattern name back h = true ↔ w.matching pattern name = true ∨ Later w back := by
  -- the induction follows the recursion of the loop
  fun_induction scan w pattern name back h with
  | case1 pattern back h =>
    rw [matching_end]
    refine ⟨.inl, fun hor => hor.resolve_right fun hlater => ?_⟩
    obtain ⟨rest, -, hlt, -⟩ := later_since hsince hlater
    exact absurd hlt (Nat.not_lt_zero _)
  | case2 back c rest more _ h ih =>
    rw [ih (since_start _ _), ← matching_star_iff]
    -- a match from a later place is one that this star can find as well
    refine ⟨.inl, fun hor => hor.elim id fun hlater => ?_⟩
    obtain ⟨later, hsuffix, -, hmatch⟩ := later_since hsince hlater
    obtain ⟨found, hfound, hmatch⟩ := matching_star.mp hmatch
    exact matching_star.mpr ⟨found, hfound.trans hsuffix, hmatch⟩
  | case3 back c rest q more _ hq hfits h ih =>
    rw [matching_cons hq, hfits, Bool.true_and]
    refine ih fun b hb => ?_
    obtain ⟨seg, taken, hpattern, hname, hlen, hseg⟩ := hsince b hb
    refine ⟨seg ++ [q], taken ++ [c], ?_, ?_, ?_, ?_⟩
    · rw [hpattern, append_assoc, singleton_append]
    · rw [hname, append_assoc, singleton_append]
    · rw [length_append, length_append, hlen, length_singleton,
        length_singleton]
    · intro hmem
      rcases mem_append.mp hmem with hmem | hmem
      · exact hseg hmem
      · exact hq (mem_singleton.mp hmem).symm
  | case4 back c rest q more _ hq hfits b hback h ih =>
    rw [matching_cons hq, Bool.eq_false_iff.mpr hfits, Bool.false_and, ih (since_start _ _),
      @later_iff _ _ w back, hback]
    simp
  | case5 back c rest q more _ hq hfits hback h =>
    rw [matching_cons hq, Bool.eq_false_iff.mpr hfits, Bool.false_and, later_iff, hback]
    simp
  | case6 back c rest _ b hback h ih =>
    rw [ih (since_start _ _), @later_iff _ _ w back, hback]
    simp [matching]
  | case7 back c rest _ hback h =>
    rw [later_iff, hback]
    simp [matching]

/-- The whole loop, from the start of pattern and name. -/
def run (w : Wildcard α) (pattern name : List α) : Bool := w.scan pattern name none nofun

theorem run_eq (pattern name : List α) : w.run pattern name = w.matching pattern name := by
  rw [Bool.eq_iff_iff, run, scan_iff (by rintro _ ⟨⟩)]
  simp [not_later_none]

/-! ### Splitting the name -/

/-- What one symbol of the pattern may stand for. -/
def Covers (w : Wildcard α) (q : α) (piece : List α) : Prop :=
  q ≠ w.star → ∃ c, piece = [c] ∧ w.fits q c = true

theorem matching_iff_split :
    w.matching pattern name = true ↔
      ∃ pieces : List (List α), name = pieces.flatten ∧ List.Forall₂ w.Covers pattern pieces := by
  induction pattern generalizing name with
  | nil =>
    constructor
    · intro hmatch
      exact ⟨[], List.isEmpty_iff.mp hmatch, .nil⟩
    · rintro ⟨pieces, rfl, hall⟩
      cases hall
      rfl
  | cons q pattern ih =>
    by_cases hq : q = w.star
    · subst hq
      rw [matching_star]
      constructor
      · rintro ⟨rest, ⟨taken, rfl⟩, hmatch⟩
        obtain ⟨pieces, rfl, hall⟩ := ih.mp hmatch
        exact ⟨taken :: pieces, rfl, .cons (fun hne => absurd rfl hne) hall⟩
      · rintro ⟨pieces, rfl, hall⟩
        cases hall with
        | cons _ hall => exact ⟨_, suffix_append _ _, ih.mpr ⟨_, rfl, hall⟩⟩
    · constructor
      · intro hmatch
        cases name with
        | nil =>
          rw [matching_cons_nil hq] at hmatch
          exact nomatch hmatch
        | cons c name =>
          rw [matching_cons hq, Bool.and_eq_true] at hmatch
          obtain ⟨pieces, rfl, hall⟩ := ih.mp hmatch.2
          exact ⟨[c] :: pieces, rfl, .cons (fun _ => ⟨c, rfl, hmatch.1⟩) hall⟩
      · rintro ⟨pieces, rfl, hall⟩
        cases hall with
        | cons hcovers hall =>
          obtain ⟨c, rfl, hfits⟩ := hcovers hq
          rw [flatten_cons, singleton_append, matching_cons hq, hfits, Bool.true_and]
          exact ih.mpr ⟨_, rfl, hall⟩

end Wildcard

end FoldGPT.Lib
