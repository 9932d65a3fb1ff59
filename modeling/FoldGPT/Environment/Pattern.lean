import FoldGPT.Environment.Resolve

/-!
# The loop of `matches_pattern`

`matchesPattern` is the loop with what is left of pattern and name in the place of the indices. Here
the loop is the one of the source: two indices, the index of the last star and the place in the name
from which it was last tried. `loop_scan` follows it turn by turn; that it ends comes with the
recursion of `Wildcard.scan`, where a star shortens the pattern to come back to and a mismatch the
name.

Main result: `matches_pattern_exact`.
-/

namespace FoldGPT.Environment

open FoldGPT.Lib Option

/-- The variables of the loop; `star` is absent while it is `-1`. -/
structure Cursor where
  patternIndex : Nat
  nameIndex : Nat
  star : Option Nat
  retry : Nat

section Loop

variable (pattern name : Text)

/-- The test of the second branch. -/
def accepts (s : Cursor) : Bool :=
  match pattern[s.patternIndex]?, name[s.nameIndex]? with
  | some q, some c => q = '?' || lowercaseScalar q = lowercaseScalar c
  | _, _ => false

/-- One turn of the loop, or what is returned. -/
def turn (s : Cursor) : Cursor ⊕ Bool :=
  if s.nameIndex < name.length then
    if pattern[s.patternIndex]? = some '*' then
      .inl ⟨s.patternIndex + 1, s.nameIndex, some s.patternIndex, s.nameIndex⟩
    else if accepts pattern name s then
      .inl ⟨s.patternIndex + 1, s.nameIndex + 1, s.star, s.retry⟩
    else
      match s.star with
      | some star => .inl ⟨star + 1, s.retry + 1, some star, s.retry + 1⟩
      | none => .inr false
  else .inr ((pattern.drop s.patternIndex).dropWhile (· = '*')).isEmpty

/-- The loop, with a bound on its turns. -/
def loop : Nat → Cursor → Option Bool
  | 0, _ => none
  | n + 1, s =>
    match turn pattern name s with
    | .inl next => loop n next
    | .inr result => some result

end Loop

variable {pattern name : Text}

/-- The loop ends in a result, with any bound that is large enough. -/
def Ends (pattern name : Text) (s : Cursor) (result : Bool) : Prop :=
  ∃ bound, ∀ n, bound ≤ n → loop pattern name n s = some result

variable {s : Cursor} {result : Bool}

theorem ends_of_inr (h : turn pattern name s = .inr result) : Ends pattern name s result := by
  refine ⟨1, fun n hn => ?_⟩
  obtain ⟨m, rfl⟩ : ∃ m, n = m + 1 := ⟨n - 1, by omega⟩
  rw [loop, h]

theorem ends_of_inl {next : Cursor} (h : turn pattern name s = .inl next)
    (hnext : Ends pattern name next result) : Ends pattern name s result := by
  obtain ⟨bound, hbound⟩ := hnext
  refine ⟨bound + 1, fun n hn => ?_⟩
  obtain ⟨m, rfl⟩ : ∃ m, n = m + 1 := ⟨n - 1, by omega⟩
  rw [loop, h]
  exact hbound m (by omega)

/-- Where to come back to, as what is left from there. -/
def Cursor.back (pattern name : Text) (s : Cursor) : Option (Text × Text) :=
  s.star.map fun star => (pattern.drop (star + 1), name.drop s.retry)

/-- The last star was tried from a place the loop has reached. -/
def Cursor.Sane (s : Cursor) : Prop := ∀ star, s.star = some star → s.retry ≤ s.nameIndex

variable {c : Char}

theorem getElem?_of_drop {text rest : Text} {i : Nat} (h : c :: rest = text.drop i) :
    text[i]? = some c ∧ rest = text.drop (i + 1) ∧ i < text.length := by
  have hlt : i < text.length := by
    by_contra hge
    rw [List.drop_eq_nil_of_le (Nat.le_of_not_lt hge)] at h
    exact nomatch h
  rw [List.drop_eq_getElem_cons hlt] at h
  obtain ⟨hc, hrest⟩ := List.cons.inj h
  exact ⟨by rw [List.getElem?_eq_getElem hlt, hc], hrest, hlt⟩

theorem retry_back (hsane : s.Sane) (hlt : s.nameIndex < name.length) :
    Wildcard.retry (s.back pattern name) =
      s.star.map fun star => (pattern.drop (star + 1), name.drop (s.retry + 1)) := by
  unfold Cursor.back
  cases hstar : s.star with
  | none => rfl
  | some star =>
    have hretry := hsane star hstar
    have hlt' : s.retry < name.length := by omega
    rw [map_some, List.drop_eq_getElem_cons hlt']
    rfl

theorem accepts_eq {q : Char} (hq : pattern[s.patternIndex]? = some q)
    (hc : name[s.nameIndex]? = some c) : accepts pattern name s = letters.fits q c := by
  unfold accepts
  rw [hq, hc]
  rfl

/-- There is a character left, and what is left of the pattern does not begin with it. -/
structure Cursor.Stuck (pattern name : Text) (s : Cursor) : Prop where
  left : s.nameIndex < name.length
  star : pattern[s.patternIndex]? ≠ some '*'
  refused : accepts pattern name s = false

theorem stuck_of_mismatch {q : Char} {more left : Text}
    (hrest : q :: more = pattern.drop s.patternIndex) (hleft : c :: left = name.drop s.nameIndex)
    (hq : q ≠ '*') (hfits : ¬letters.fits q c = true) : s.Stuck pattern name := by
  obtain ⟨hget, -, -⟩ := getElem?_of_drop hrest
  obtain ⟨hname, -, hlt⟩ := getElem?_of_drop hleft
  refine ⟨hlt, ?_, (accepts_eq hget hname).trans (eq_false_of_ne_true hfits)⟩
  rw [hget]
  exact fun heq => hq (Option.some.inj heq)

theorem stuck_of_end {left : Text} (hrest : [] = pattern.drop s.patternIndex)
    (hleft : c :: left = name.drop s.nameIndex) : s.Stuck pattern name := by
  have hget : pattern[s.patternIndex]? = none :=
    List.getElem?_eq_none (List.drop_eq_nil_iff.mp hrest.symm)
  refine ⟨(getElem?_of_drop hleft).2.2, by rw [hget]; exact nofun, ?_⟩
  unfold accepts
  rw [hget]

theorem turn_stuck (h : s.Stuck pattern name) :
    turn pattern name s =
      match s.star with
      | some star => .inl ⟨star + 1, s.retry + 1, some star, s.retry + 1⟩
      | none => .inr false := by
  rw [turn, if_pos h.left, if_neg h.star, if_neg (by rw [h.refused]; exact Bool.false_ne_true)]

/-- On a mismatch the result is that of the last star, one character later. -/
theorem ends_of_retry {b : Text × Text} (hsane : s.Sane)
    (hstuck : s.Stuck pattern name) (hretry : Wildcard.retry (s.back pattern name) = some b)
    (hnext : ∀ next : Cursor, b.1 = pattern.drop next.patternIndex →
      b.2 = name.drop next.nameIndex → some b = next.back pattern name → next.Sane →
      Ends pattern name next result) : Ends pattern name s result := by
  have hturn := turn_stuck hstuck
  rw [retry_back hsane hstuck.left] at hretry
  obtain ⟨star, hstar, rfl⟩ := map_eq_some_iff.mp hretry
  rw [hstar] at hturn
  exact ends_of_inl hturn (hnext ⟨star + 1, s.retry + 1, some star, s.retry + 1⟩ rfl rfl rfl
    fun _ _ => Nat.le_refl _)

theorem ends_of_stuck (hsane : s.Sane) (hstuck : s.Stuck pattern name)
    (hretry : Wildcard.retry (s.back pattern name) = none) : Ends pattern name s false := by
  have hturn := turn_stuck hstuck
  rw [retry_back hsane hstuck.left, map_eq_none_iff] at hretry
  rw [hretry] at hturn
  exact ends_of_inr hturn

/-- **The loop of the source follows the loop on what is left.** -/
theorem loop_scan {rest left : Text} {back : Option (Text × Text)}
    (h : ∀ b, back = some b → rest.length ≤ b.1.length) (s : Cursor)
    (hrest : rest = pattern.drop s.patternIndex) (hleft : left = name.drop s.nameIndex)
    (hback : back = s.back pattern name) (hsane : s.Sane) :
    Ends pattern name s (letters.scan rest left back h) := by
  -- the induction is on the recursion of the other loop, one case for every branch
  fun_induction Wildcard.scan letters rest left back h generalizing s with
  | case1 rest back h =>
    have hge : ¬ s.nameIndex < name.length := by
      intro hlt
      rw [List.drop_eq_getElem_cons hlt] at hleft
      cases hleft
    refine ends_of_inr ?_
    rw [turn, if_neg hge, hrest]
    rfl
  | case2 back c left more h hless ih =>
    obtain ⟨hq, hmore, -⟩ := getElem?_of_drop hrest
    obtain ⟨-, -, hlt⟩ := getElem?_of_drop hleft
    have hturn : turn pattern name s =
        .inl ⟨s.patternIndex + 1, s.nameIndex, some s.patternIndex, s.nameIndex⟩ := by
      rw [turn, if_pos hlt]
      exact if_pos hq
    refine ends_of_inl hturn (ih _ hmore hleft ?_ fun _ _ => Nat.le_refl _)
    unfold Cursor.back
    rw [map_some, ← hmore, ← hleft]
  | case3 back c left q more h hq hfits hless ih =>
    obtain ⟨hget, hmore, -⟩ := getElem?_of_drop hrest
    obtain ⟨hname, hleft', hlt⟩ := getElem?_of_drop hleft
    have hstar : pattern[s.patternIndex]? ≠ some '*' := by
      rw [hget]
      exact fun heq => hq (Option.some.inj heq)
    have hturn : turn pattern name s =
        .inl ⟨s.patternIndex + 1, s.nameIndex + 1, s.star, s.retry⟩ := by
      rw [turn, if_pos hlt, if_neg hstar, if_pos ((accepts_eq hget hname).trans hfits)]
    refine ends_of_inl hturn (ih _ hmore hleft' hback fun star hs => ?_)
    exact Nat.le_succ_of_le (hsane star hs)
  | case4 back c left q more h hq hfits b hretry hless ih =>
    exact ends_of_retry hsane (stuck_of_mismatch hrest hleft hq hfits) (hback ▸ hretry) ih
  | case5 back c left q more h hq hfits hretry hless =>
    exact ends_of_stuck hsane (stuck_of_mismatch hrest hleft hq hfits) (hback ▸ hretry)
  | case6 back c left h b hretry hless ih =>
    exact ends_of_retry hsane (stuck_of_end hrest hleft) (hback ▸ hretry) ih
  | case7 back c left h hretry hless =>
    exact ends_of_stuck hsane (stuck_of_end hrest hleft) (hback ▸ hretry)

/-- What a character of the pattern covers: a star any string, a question mark one character, and
every other one character of the same lowercase. -/
def Covers (q : Char) (piece : Text) : Prop :=
  q ≠ '*' → ∃ c, piece = [c] ∧ (q = '?' ∨ lowercaseScalar q = lowercaseScalar c)

/-- **`matches_pattern` ends**, and returns whether the name can be split along the pattern. -/
theorem matches_pattern_exact (pattern name : Text) :
    ∃ result, Ends pattern name ⟨0, 0, none, 0⟩ result ∧
      result = matchesPattern pattern name ∧
      (result = true ↔ ∃ pieces : List Text, name = pieces.flatten ∧
        List.Forall₂ Covers pattern pieces) := by
  have hloop : Ends pattern name ⟨0, 0, none, 0⟩ (letters.scan pattern name none nofun) :=
    loop_scan _ ⟨0, 0, none, 0⟩ rfl rfl rfl fun _ hs => nomatch hs
  refine ⟨matchesPattern pattern name, hloop, rfl, ?_⟩
  have hcovers : letters.Covers = Covers := by
    funext q piece
    show (q ≠ '*' → ∃ c, piece = [c] ∧
      (q = '?' || lowercaseScalar q = lowercaseScalar c : Bool) = true) = Covers q piece
    simp only [Bool.or_eq_true, decide_eq_true_eq]
    rfl
  rw [matchesPattern_eq, Wildcard.matching_iff_split, hcovers]

example : Ends "*a?".toList "bAaB".toList ⟨0, 0, none, 0⟩ true :=
  ⟨8, fun n hn => by
    obtain ⟨m, rfl⟩ : ∃ m, n = m + 8 := ⟨n - 8, by omega⟩
    rfl⟩

end FoldGPT.Environment
