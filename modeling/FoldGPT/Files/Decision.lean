import FoldGPT.Files.Policy
import Mathlib.Data.List.MinMax

/-!
# Decisions and the order of the entries

`ManagedPolicy._decide` takes the access of the deepest entries that contain the path, the strictest
of them, so the order of the entries does not matter for the access. It does matter for the metadata
rule, which asks the first write entry that roots a metadata directory around the path; but only if
some write entry lies in the metadata directory of another.

Main result: `decision_order`.
-/

namespace FoldGPT.Files

open List

namespace ManagedPolicy

variable {policy other : ManagedPolicy} {path : GuestPath}

/-- The sort key of an entry as one number. -/
def rank (entry : ResolvedEntry) : Nat := 3 * entry.path.parts.length + entry.access.precedence

theorem precedence_lt (access : Access) : access.precedence < 3 := by
  cases access <;> decide

theorem precedence_injective {a b : Access} (h : a.precedence = b.precedence) : a = b := by
  cases a <;> cases b <;> first | rfl | exact nomatch h

theorem outranked_iff {a b : ResolvedEntry} : outranked a b = true ↔ rank a < rank b := by
  have ha := precedence_lt a.access
  have hb := precedence_lt b.access
  simp only [outranked, rank, Bool.or_eq_true, Bool.and_eq_true, decide_eq_true_eq]
  omega

/-- `max` with the key. -/
theorem winner_eq_argmax (candidates : List ResolvedEntry) :
    winner candidates = candidates.argmax rank := by
  unfold winner List.argmax
  congr 1
  funext best entry
  cases best with
  | none => rfl
  | some b => simp only [List.argAux, outranked_iff]

/-- The entries that contain the path. -/
def candidates (policy : ManagedPolicy) (path : GuestPath) : List ResolvedEntry :=
  policy.resolvedEntries.filter (·.path.contains path)

theorem mem_candidates {entry : ResolvedEntry} :
    entry ∈ policy.candidates path ↔
      entry ∈ policy.resolvedEntries ∧ entry.path.contains path = true :=
  mem_filter

theorem resolvedAccess_eq (policy : ManagedPolicy) (path : GuestPath) :
    (policy.decide path).resolvedAccess =
      (((policy.candidates path).argmax rank).map (·.access)).getD .deny := by
  rw [← winner_eq_argmax]
  rfl

/-- **The access of a decision** is that of an entry that contains the path, such that no entry that
contains the path is deeper, and none that is as deep is stricter. -/
structure Deepest (policy : ManagedPolicy) (path : GuestPath) (access : Access) : Prop where
  found : ∃ entry ∈ policy.resolvedEntries, entry.path.contains path = true ∧
    entry.access = access ∧ ∀ other ∈ policy.resolvedEntries, other.path.contains path = true →
      other.path.parts.length < entry.path.parts.length ∨
        other.path.parts.length = entry.path.parts.length ∧
          other.access.precedence ≤ access.precedence

theorem decide_deepest (policy : ManagedPolicy) (path : GuestPath) :
    ((∀ entry ∈ policy.resolvedEntries, entry.path.contains path = false) ∧
      (policy.decide path).resolvedAccess = .deny) ∨
    Deepest policy path (policy.decide path).resolvedAccess := by
  rw [resolvedAccess_eq]
  cases hmax : (policy.candidates path).argmax rank with
  | none =>
    refine .inl ⟨fun entry hentry => ?_, rfl⟩
    by_contra hcontains
    have hmem : entry ∈ policy.candidates path :=
      mem_candidates.mpr ⟨hentry, eq_true_of_ne_false hcontains⟩
    rw [argmax_eq_none.mp hmax] at hmem
    exact nomatch hmem
  | some entry =>
    obtain ⟨hentry, hcontains⟩ := mem_candidates.mp (argmax_mem hmax)
    refine .inr ⟨entry, hentry, hcontains, rfl, fun other hother hinside => ?_⟩
    have hrank : rank other ≤ rank entry :=
      le_of_mem_argmax (mem_candidates.mpr ⟨hother, hinside⟩) hmax
    have hsmall := precedence_lt entry.access
    show other.path.parts.length < entry.path.parts.length ∨
      other.path.parts.length = entry.path.parts.length ∧
        other.access.precedence ≤ entry.access.precedence
    unfold rank at hrank
    omega

theorem Deepest.unique {a b : Access} (ha : Deepest policy path a) (hb : Deepest other path b)
    (hsame : ∀ entry, entry ∈ policy.resolvedEntries ↔ entry ∈ other.resolvedEntries) : a = b := by
  obtain ⟨x, hx, hxin, rfl, hxmax⟩ := ha.found
  obtain ⟨y, hy, hyin, rfl, hymax⟩ := hb.found
  have hxy := hxmax y ((hsame y).mpr hy) hyin
  have hyx := hymax x ((hsame x).mp hx) hxin
  refine precedence_injective ?_
  omega

/-- **The access does not depend on the order of the entries**, nor on how often one is there. -/
theorem decide_congr (hsame : ∀ entry, entry ∈ policy.resolvedEntries ↔
    entry ∈ other.resolvedEntries) (path : GuestPath) :
    (policy.decide path).resolvedAccess = (other.decide path).resolvedAccess := by
  rcases policy.decide_deepest path with ⟨hnone, hdeny⟩ | hdeepest
  · rcases other.decide_deepest path with ⟨-, hdeny'⟩ | hdeepest'
    · rw [hdeny, hdeny']
    · obtain ⟨entry, hentry, hinside, -⟩ := hdeepest'.found
      exact Bool.noConfusion ((hnone entry ((hsame entry).mpr hentry)).symm.trans hinside)
  · rcases other.decide_deepest path with ⟨hnone, -⟩ | hdeepest'
    · obtain ⟨entry, hentry, hinside, -⟩ := hdeepest.found
      exact Bool.noConfusion ((hnone entry ((hsame entry).mp hentry)).symm.trans hinside)
    · exact hdeepest.unique hdeepest' hsame

/-! ### The metadata rule -/

/-- A write entry lies at or below the metadata directory that another write entry roots. -/
def Nested (policy : ManagedPolicy) : Prop :=
  ∃ root ∈ policy.resolvedEntries, ∃ entry ∈ policy.resolvedEntries, ∃ name ∈ metadataNames,
    root.access = .write ∧ entry.access = .write ∧ entry ≠ root ∧
      (root.path.append [name]).contains entry.path = true

theorem rooted_eq_some {entry : ResolvedEntry} {root : GuestPath} {name : Name}
    (h : rooted path entry = some (root, name)) :
    entry.access = .write ∧ name ∈ metadataNames ∧ root = entry.path.append [name] ∧
      root.contains path = true := by
  obtain ⟨hwrite, hfound⟩ := Option.ite_none_right_eq_some.mp h
  obtain ⟨name', hname, hfound⟩ := List.exists_of_findSome?_eq_some hfound
  obtain ⟨hcontains, hpair⟩ := Option.ite_none_right_eq_some.mp hfound
  obtain ⟨rfl, rfl⟩ := Prod.mk.inj (Option.some.inj hpair)
  exact ⟨hwrite, hname, rfl, hcontains⟩

/-- Whether a metadata directory is found does not depend on the order. -/
theorem protectedRoot_eq_none (hsame : ∀ entry, entry ∈ policy.resolvedEntries ↔
    entry ∈ other.resolvedEntries) (h : policy.protectedRoot path = none) :
    other.protectedRoot path = none := by
  unfold protectedRoot at h ⊢
  rw [List.findSome?_eq_none_iff] at h ⊢
  exact fun entry hentry => h entry ((hsame entry).mpr hentry)

theorem canWrite_iff :
    (policy.decide path).canWrite = true ↔
      (policy.decide path).resolvedAccess = .write ∧
        ∀ found ∈ policy.protectedRoot path, policy.explicitGrant found.1 path = true := by
  unfold Decision.canWrite
  rw [Bool.and_eq_true, decide_eq_true_eq]
  refine and_congr_right fun hwrite => ?_
  rw [show (policy.decide path).metadataWriteDenial = _ from if_pos hwrite]
  cases policy.protectedRoot path with
  | none => exact iff_of_true rfl (by simp)
  | some found =>
    obtain ⟨root, name⟩ := found
    show (if policy.explicitGrant root path then none else some name).isNone = true ↔ _
    by_cases hgrant : policy.explicitGrant root path = true
    · rw [if_pos hgrant]
      refine iff_of_true rfl fun found hfound => ?_
      cases hfound
      exact hgrant
    · rw [if_neg hgrant]
      exact iff_of_false Bool.false_ne_true fun hall => hgrant (hall _ rfl)

theorem ne_of_contains {root entry : ResolvedEntry} {name : Name}
    (h : (root.path.append [name]).contains entry.path = true) : entry ≠ root := by
  rintro rfl
  have hlength := (GuestPath.contains_iff.mp h).length_le
  rw [GuestPath.append_parts, length_append, length_singleton] at hlength
  omega

theorem nested_of_grant {root : GuestPath} {name : Name}
    (hroot : policy.protectedRoot path = some (root, name))
    (hgrant : policy.explicitGrant root path = true) : policy.Nested := by
  obtain ⟨rooting, hrooting, hfound⟩ := List.exists_of_findSome?_eq_some hroot
  obtain ⟨hwrite, hname, rfl, -⟩ := rooted_eq_some hfound
  obtain ⟨entry, hentry, hcovers⟩ := any_eq_true.mp hgrant
  simp only [Bool.and_eq_true, decide_eq_true_eq] at hcovers
  obtain ⟨⟨hwrite', hbelow⟩, -⟩ := hcovers
  exact ⟨rooting, hrooting, entry, hentry, name, hname, hwrite, hwrite', ne_of_contains hbelow,
    hbelow⟩

theorem nested_of_canWrite (hsame : ∀ entry, entry ∈ policy.resolvedEntries ↔
    entry ∈ other.resolvedEntries) (hcan : (policy.decide path).canWrite = true)
    (hcannot : (other.decide path).canWrite = false) : policy.Nested := by
  obtain ⟨hwrite, hgrants⟩ := canWrite_iff.mp hcan
  cases hroot : policy.protectedRoot path with
  | none =>
    have hother : (other.decide path).canWrite = true := by
      refine canWrite_iff.mpr ⟨(decide_congr hsame path).symm.trans hwrite, ?_⟩
      rw [protectedRoot_eq_none hsame hroot]
      exact nofun
    exact Bool.noConfusion (hcannot.symm.trans hother)
  | some found => exact nested_of_grant hroot (hgrants found hroot)

theorem Nested.congr (hsame : ∀ entry, entry ∈ policy.resolvedEntries ↔
    entry ∈ other.resolvedEntries) (h : policy.Nested) : other.Nested := by
  obtain ⟨root, hroot, entry, hentry, name, hname, hrest⟩ := h
  exact ⟨root, (hsame root).mp hroot, entry, (hsame entry).mp hentry, name, hname, hrest⟩

/-- **What the order of the entries decides**: not the access, and a write only if a write entry
lies in the metadata directory of another. -/
theorem decision_order (policy : ManagedPolicy) :
    (∀ path, ((∀ entry ∈ policy.resolvedEntries, entry.path.contains path = false) ∧
        (policy.decide path).resolvedAccess = .deny) ∨
      Deepest policy path (policy.decide path).resolvedAccess) ∧
    ∀ other : ManagedPolicy,
      (∀ entry, entry ∈ policy.resolvedEntries ↔ entry ∈ other.resolvedEntries) →
        (∀ path, (other.decide path).resolvedAccess = (policy.decide path).resolvedAccess) ∧
        ∀ path, (other.decide path).canWrite ≠ (policy.decide path).canWrite → policy.Nested := by
  refine ⟨policy.decide_deepest, fun other hsame => ⟨fun path => ?_, fun path hdiffer => ?_⟩⟩
  · exact (decide_congr hsame path).symm
  · by_cases hcan : (policy.decide path).canWrite = true
    · rw [hcan] at hdiffer
      exact nested_of_canWrite hsame hcan (eq_false_of_ne_true hdiffer)
    · have hcannot := eq_false_of_ne_true hcan
      rw [hcannot] at hdiffer
      have hback := fun entry => (hsame entry).symm
      exact (nested_of_canWrite hback (eq_true_of_ne_false hdiffer) hcannot).congr hback

/-- `/a` and `/a/.git`, both written: the first roots the directory the second lies in. -/
def twoGrants : List ResolvedEntry :=
  [⟨⟨[['a']]⟩, .write⟩, ⟨⟨[['a'], dotGit]⟩, .write⟩]

/-- In one order `/a/.git/.git` is written to, in the other it is not. -/
theorem decision_order_swapped :
    ((⟨⟨[]⟩, twoGrants⟩ : ManagedPolicy).decide ⟨[['a'], dotGit, dotGit]⟩).canWrite = true ∧
      ((⟨⟨[]⟩, twoGrants.reverse⟩ : ManagedPolicy).decide
        ⟨[['a'], dotGit, dotGit]⟩).canWrite = false ∧
      (⟨⟨[]⟩, twoGrants⟩ : ManagedPolicy).Nested :=
  have hsame : ∀ entry, entry ∈ twoGrants ↔ entry ∈ twoGrants.reverse :=
    fun _ => mem_reverse.symm
  ⟨by decide +kernel, by decide +kernel,
    ((decision_order ⟨⟨[]⟩, twoGrants⟩).2 ⟨⟨[]⟩, twoGrants.reverse⟩ hsame).2
      ⟨[['a'], dotGit, dotGit]⟩ (by decide +kernel)⟩

end ManagedPolicy

end FoldGPT.Files
