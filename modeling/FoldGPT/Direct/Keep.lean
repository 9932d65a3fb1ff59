import FoldGPT.Lib.Checks
import Mathlib.Algebra.GroupWithZero.Nat
import Mathlib.Algebra.Ring.Int.Defs
import Mathlib.Data.List.Nodup

/-!
# The descriptors a worker keeps

`keep` of `direct-runner.c` and of `runner.c` sorts the descriptors it is given and closes what lies
between them with `close_range`.

Main results: `keep_exact`, `keep_accepts`.
-/

namespace FoldGPT.Direct

open FoldGPT.Lib List

/-- Which descriptors are open. -/
abbrev Descriptors := Fin (2 ^ 31) → Bool

inductive KeepError where
  | einval
  | closeRange (errno : Nat)

/-- `close_range`, with its answers, by its arguments. -/
def closeRange (refusal : Nat → Nat → Option Nat) (first last : Nat) (fds : Descriptors) :
    Except KeepError Descriptors :=
  match refusal first last with
  | some errno => .error (.closeRange errno)
  | none => .ok fun fd => fds fd && !(decide (first ≤ fd.val) && decide (fd.val ≤ last))

/-- The inner loop of the sort, with `ordered[i]` and what stands behind it. -/
def exchange (x : Int) : List Int → Int × List Int
  | [] => (x, [])
  | y :: rest =>
    if y < x then ((exchange y rest).1, x :: (exchange y rest).2)
    else ((exchange x rest).1, y :: (exchange x rest).2)

/-- The sort, over `count` places. -/
def order : Nat → List Int → List Int
  | count + 1, x :: rest => (exchange x rest).1 :: order count (exchange x rest).2
  | _, ordered => ordered

def unsigned (value : Int) : Nat := (value % 2 ^ 32).toNat

/-- The loop that closes the gaps, and the last call behind it. -/
def closeGaps (refusal : Nat → Nat → Option Nat) :
    Option Int → Nat → List Int → Descriptors → Except KeepError Descriptors
  | _, first, [], fds => closeRange refusal first (2 ^ 32 - 1) fds
  | previous, first, fd :: rest, fds =>
    if fd < 3 ∨ previous = some fd then .error .einval
    else
      (if first < unsigned fd then closeRange refusal first (unsigned fd - 1) fds else .ok fds).bind
        (closeGaps refusal (some fd) ((unsigned fd + 1) % 2 ^ 32) rest)

def keep (capacity : Nat) (refusal : Nat → Nat → Option Nat) (keeps : List Int32)
    (fds : Descriptors) : Except KeepError Descriptors :=
  if keeps.length > capacity then .error .einval
  else closeGaps refusal none 3 (order keeps.length (keeps.map Int32.toInt)) fds

/-- `keep` of `direct-runner.c`. -/
def directKeep := keep 8

/-- `keep` of `runner.c`. -/
def runnerKeep := keep 16

/-! ### The sort -/

theorem exchange_perm (x : Int) (rest : List Int) :
    ((exchange x rest).1 :: (exchange x rest).2).Perm (x :: rest) := by
  induction rest generalizing x with
  | nil => exact .refl _
  | cons y rest ih =>
    rw [exchange]
    split
    · exact (List.Perm.swap _ _ _).trans ((ih y).cons x)
    · exact (List.Perm.swap _ _ _).trans (((ih x).cons y).trans (.swap _ _ _))

theorem exchange_le (x : Int) (rest : List Int) :
    (exchange x rest).1 ≤ x ∧ ∀ y ∈ rest, (exchange x rest).1 ≤ y := by
  induction rest generalizing x with
  | nil => exact ⟨Int.le_refl x, by simp⟩
  | cons y rest ih =>
    rw [exchange]
    split
    next hlt =>
      obtain ⟨hy, hrest⟩ := ih y
      exact ⟨by omega, forall_mem_cons.mpr ⟨hy, hrest⟩⟩
    next hle =>
      obtain ⟨hx, hrest⟩ := ih x
      exact ⟨hx, forall_mem_cons.mpr ⟨by omega, hrest⟩⟩

theorem order_perm (count : Nat) (l : List Int) : (order count l).Perm l := by
  induction count generalizing l with
  | zero => cases l <;> exact .refl _
  | succ count ih =>
    cases l with
    | nil => exact .refl _
    | cons x rest => exact ((ih _).cons _).trans (exchange_perm x rest)

theorem order_sorted {count : Nat} {l : List Int} (h : l.length ≤ count) :
    (order count l).Pairwise (· ≤ ·) := by
  induction count generalizing l with
  | zero =>
    rw [length_eq_zero_iff.mp (Nat.le_zero.mp h)]
    exact .nil
  | succ count ih =>
    cases l with
    | nil => exact .nil
    | cons x rest =>
      have hperm := exchange_perm x rest
      have hlength : (exchange x rest).2.length = rest.length := by simpa using hperm.length_eq
      refine .cons (fun y hy => ?_) (ih (by simpa [hlength] using h))
      have hmem := hperm.mem_iff.mp (mem_cons_of_mem _ ((order_perm _ _).mem_iff.mp hy))
      exact forall_mem_cons.mpr (exchange_le x rest) y hmem

/-! ### The gaps -/

variable {refusal : Nat → Nat → Option Nat} {fds fds' : Descriptors} {first last : Nat}

theorem closeRange_ok (h : closeRange refusal first last fds = .ok fds') (fd : Fin (2 ^ 31)) :
    fds' fd = true ↔ fds fd = true ∧ (fd.val < first ∨ last < fd.val) := by
  unfold closeRange at h
  split at h
  · cases h
  · cases h
    simp

/-- **The loop closes the gaps**, and takes neither a descriptor below 3 nor one twice. -/
theorem closeGaps_ok {previous : Option Int} {l : List Int} (hsorted : l.Pairwise (· ≤ ·))
    (hint : ∀ fd ∈ l, fd < 2 ^ 31)
    (hprevious : ∀ fd ∈ l, fd < first → fd < 3 ∨ previous = some fd)
    (h : closeGaps refusal previous first l fds = .ok fds') :
    (∀ fd ∈ l, first ≤ fd ∧ 3 ≤ fd) ∧ l.Nodup ∧
      ∀ fd, fds' fd = true ↔ fds fd = true ∧ (fd.val < first ∨ (fd.val : Int) ∈ l) := by
  induction l generalizing previous first fds with
  | nil =>
    refine ⟨nofun, .nil, fun fd => ?_⟩
    rw [closeRange_ok h fd]
    have hlast : ¬2 ^ 32 - 1 < fd.val := by omega
    simp only [hlast, or_false, not_mem_nil]
  | cons x rest ih =>
    rw [pairwise_cons] at hsorted
    rw [forall_mem_cons] at hint hprevious
    rw [closeGaps] at h
    split at h
    · cases h
    next hvalid =>
      rw [not_or, Int.not_lt] at hvalid
      have hle : (first : Int) ≤ x := by
        by_contra hlt
        rcases hprevious.1 (Int.not_le.mp hlt) with hlow | hsame
        · omega
        · exact hvalid.2 hsame
      have hunsigned : (unsigned x : Int) = x := by
        unfold unsigned
        omega
      obtain ⟨between, hbetween, h⟩ := bind_eq_ok.mp h
      -- closed or not, nothing is open between `first` and `x`
      have hopen : ∀ fd, between fd = true ↔ fds fd = true ∧ (fd.val < first ∨ x ≤ fd.val) := by
        intro fd
        split at hbetween
        · rw [closeRange_ok hbetween fd]
          grind
        · cases hbetween
          grind
      have hnext : (unsigned x + 1) % 2 ^ 32 = unsigned x + 1 := by omega
      rw [hnext] at h
      have hsame : ∀ fd ∈ rest, fd < (unsigned x + 1 : Nat) → fd < 3 ∨ some x = some fd := by
        intro fd hfd hlt
        have := hsorted.1 fd hfd
        exact .inr (congrArg some (by omega))
      obtain ⟨hrest, hnodup, hkept⟩ := ih hsorted.2 hint.2 hsame h
      refine ⟨forall_mem_cons.mpr ⟨⟨hle, hvalid.1⟩, fun fd hfd => ?_⟩, ?_, fun fd => ?_⟩
      · have := hrest fd hfd
        omega
      · refine nodup_cons.mpr ⟨fun hmem => ?_, hnodup⟩
        have := (hrest x hmem).1
        omega
      · rw [hkept, hopen, mem_cons]
        have hafter := hrest fd.val
        grind

/-- **What is open behind a `keep` that succeeds**: the standard streams and the descriptors of the
list, as far as they were open. A list with a descriptor twice or with one below 3 is refused. -/
theorem keep_exact (capacity : Nat) (refusal : Nat → Nat → Option Nat) (keeps : List Int32)
    (fds : Descriptors) :
    (∀ fds', keep capacity refusal keeps fds = .ok fds' → ∀ fd,
      fds' fd = true ↔ fds fd = true ∧ (fd.val < 3 ∨ ∃ kept ∈ keeps, kept.toInt = fd.val)) ∧
    (¬keeps.Nodup ∨ (∃ kept ∈ keeps, kept < 3) →
      ∃ error, keep capacity refusal keeps fds = .error error) := by
  have hperm := order_perm keeps.length (keeps.map Int32.toInt)
  have hspec : ∀ fds', keep capacity refusal keeps fds = .ok fds' →
      (∀ kept ∈ keeps, 3 ≤ kept) ∧ keeps.Nodup ∧ ∀ fd,
        fds' fd = true ↔ fds fd = true ∧ (fd.val < 3 ∨ ∃ kept ∈ keeps, kept.toInt = fd.val) := by
    intro fds' h
    unfold keep at h
    split at h
    · cases h
    · have hint : ∀ fd ∈ order keeps.length (keeps.map Int32.toInt), fd < 2 ^ 31 := by
        intro fd hfd
        obtain ⟨kept, -, rfl⟩ := mem_map.mp (hperm.mem_iff.mp hfd)
        exact kept.toInt_lt
      obtain ⟨hlow, hnodup, hopen⟩ := closeGaps_ok (order_sorted (by simp)) hint
        (fun _ _ hlt => .inl hlt) h
      refine ⟨fun kept hkept => ?_, (hperm.nodup_iff.mp hnodup).of_map _, fun fd => ?_⟩
      · have := (hlow _ (hperm.mem_iff.mpr (mem_map_of_mem hkept))).2
        rw [Int32.le_iff_toInt_le]
        exact this
      · rw [hopen, hperm.mem_iff, mem_map]
  refine ⟨fun fds' h => (hspec fds' h).2.2, fun hbad => ?_⟩
  cases hresult : keep capacity refusal keeps fds with
  | error error => exact ⟨error, rfl⟩
  | ok fds' =>
    obtain ⟨hlow, hnodup, -⟩ := hspec fds' hresult
    rcases hbad with hdup | ⟨kept, hmem, hlt⟩
    · exact absurd hnodup hdup
    · exact absurd hlt (Int32.not_lt.mpr (hlow kept hmem))

theorem keep_exact_unordered : ∃ fds',
    directKeep (fun _ _ => none) [7, 4] (fun _ => true) = .ok fds' ∧
      ∀ fd, fds' fd = true ↔ fd.val < 3 ∨ fd.val = 7 ∨ fd.val = 4 := by
  obtain ⟨fds', h⟩ : ∃ fds', directKeep (fun _ _ => none) [7, 4] (fun _ => true) = .ok fds' :=
    ⟨_, rfl⟩
  refine ⟨fds', h, fun fd => ?_⟩
  have hopen := (keep_exact 8 (fun _ _ => none) [7, 4] fun _ => true).1 fds' h fd
  have hseven : (7 : Int32).toInt = 7 := rfl
  have hfour : (4 : Int32).toInt = 4 := rfl
  simp only [mem_cons, not_mem_nil, or_false, exists_eq_or_imp, exists_eq_left, hseven,
    hfour, true_and] at hopen
  rw [hopen]
  omega

theorem closeGaps_accepts (hkernel : ∀ first last, first ≤ last → refusal first last = none)
    {previous : Option Int} {l : List Int} (hlow : ∀ fd ∈ l, 3 ≤ fd)
    (hnodup : (previous :: l.map some).Nodup) (hfirst : first < 2 ^ 32) (fds : Descriptors) :
    ∃ fds', closeGaps refusal previous first l fds = .ok fds' := by
  induction l generalizing previous first fds with
  | nil => exact ⟨_, by rw [closeGaps, closeRange, hkernel _ _ (by omega)]⟩
  | cons x rest ih =>
    rw [forall_mem_cons] at hlow
    rw [map_cons, nodup_cons, mem_cons, not_or] at hnodup
    have hrest := ih hlow.2 hnodup.2 (Nat.mod_lt (unsigned x + 1) (by decide))
    rw [closeGaps, if_neg (not_or.mpr ⟨Int.not_lt.mpr hlow.1, hnodup.1.1⟩)]
    split
    next hgap =>
      -- the range is not empty
      rw [closeRange, hkernel _ _ (by omega)]
      exact hrest _
    next => exact hrest fds

/-- **Different descriptors of at least 3 are accepted** by a kernel that refuses empty ranges only:
`keep` asks for none. -/
theorem keep_accepts (capacity : Nat) (keeps : List Int32) (fds : Descriptors)
    (hkernel : ∀ first last, first ≤ last → refusal first last = none)
    (hcapacity : keeps.length ≤ capacity) (hnodup : keeps.Nodup) (hlow : ∀ kept ∈ keeps, 3 ≤ kept) :
    ∃ fds', keep capacity refusal keeps fds = .ok fds' := by
  have hperm := order_perm keeps.length (keeps.map Int32.toInt)
  have hordered := hperm.nodup_iff.mpr (hnodup.map fun _ _ => Int32.toInt_inj.mp)
  rw [keep, if_neg (Nat.not_lt.mpr hcapacity)]
  refine closeGaps_accepts hkernel (fun fd hfd => ?_) ?_ (by decide) fds
  · obtain ⟨kept, hkept, rfl⟩ := mem_map.mp (hperm.mem_iff.mp hfd)
    exact Int32.le_iff_toInt_le.mp (hlow kept hkept)
  · exact nodup_cons.mpr ⟨by simp, hordered.map fun _ _ => Option.some.inj⟩

theorem keep_accepts_unordered :
    ∃ fds', runnerKeep (fun _ _ => none) [7, 4] (fun _ => true) = .ok fds' :=
  keep_accepts 16 [7, 4] _ (fun _ _ _ => rfl) (by decide) (by decide) (by simp)

end FoldGPT.Direct
