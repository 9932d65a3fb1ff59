import FoldGPT.Files.Context
import FoldGPT.Files.Decision

/-!
# Tightening a policy

What one entry more, or one entry with another access, does to the decisions of a policy. An entry
that denies takes away and gives nothing: a path that may still be read or written is decided by an
entry deeper than the one that denies, and that entry is itself a grant below any metadata directory
the other one rooted. An entry that only reads instead of writes gives nothing either, with one
exception: the metadata rule asks the first write entry that roots a directory around the path, and
without the entry that was changed another one may be the first.

Main results: `denial_never_widens`, `reading_never_widens`.
-/

namespace FoldGPT.Files

open FoldGPT.Lib FoldGPT.Lib.Url List Option

namespace ManagedPolicy

variable {policy other : ManagedPolicy} {path : GuestPath}

theorem Deepest.resolvedAccess {access : Access} (h : Deepest policy path access) :
    (policy.decide path).resolvedAccess = access := by
  rcases policy.decide_deepest path with ⟨hnone, -⟩ | hdeepest
  · obtain ⟨entry, hentry, hinside, -⟩ := h.found
    exact Bool.noConfusion ((hnone entry hentry).symm.trans hinside)
  · exact hdeepest.unique h fun _ => Iff.rfl

theorem deepest_of_ne_deny (h : (policy.decide path).resolvedAccess ≠ .deny) :
    Deepest policy path (policy.decide path).resolvedAccess := by
  rcases policy.decide_deepest path with ⟨-, hdeny⟩ | hdeepest
  · exact absurd hdeny h
  · exact hdeepest

theorem canRead_iff :
    (policy.decide path).canRead = true ↔ (policy.decide path).resolvedAccess ≠ .deny := by
  unfold Decision.canRead
  rw [bne_iff_ne]

/-! ### The entries of one source -/

/-- A policy in which one entry of the source stands for `paths`, between the others. -/
def around (cwd : GuestPath) (front back : List ResolvedEntry) (access : Access)
    (paths : List GuestPath) : ManagedPolicy :=
  ⟨cwd, front ++ paths.map (⟨·, access⟩) ++ back⟩

section Around

variable {cwd : GuestPath} {front back : List ResolvedEntry} {access : Access}
  {paths : List GuestPath}

variable {entry : ResolvedEntry}

theorem mem_around :
    entry ∈ (around cwd front back access paths).resolvedEntries ↔
      entry ∈ front ++ back ∨ entry.path ∈ paths ∧ entry.access = access := by
  unfold around
  simp only [mem_append, List.mem_map]
  constructor
  · rintro ((hfront | ⟨place, hplace, rfl⟩) | hback)
    · exact .inl (.inl hfront)
    · exact .inr ⟨hplace, rfl⟩
    · exact .inl (.inr hback)
  · rintro ((hfront | hback) | ⟨hplace, rfl⟩)
    · exact .inl (.inl hfront)
    · exact .inr hback
    · exact .inl (.inr ⟨entry.path, hplace, rfl⟩)

/-- The entries of the others that contain `path`, below an entry of access `a`. -/
def Below (kept : List ResolvedEntry) (path : GuestPath) (entry : ResolvedEntry) (a : Access) :
    Prop :=
  ∀ other ∈ kept, other.path.contains path = true →
    other.path.parts.length < entry.path.parts.length ∨
      other.path.parts.length = entry.path.parts.length ∧ other.access.precedence ≤ a.precedence

theorem deepest_around {a : Access} (haccess : access ≠ a)
    (h : Deepest (around cwd front back access paths) path a) :
    ∃ entry ∈ front ++ back, entry.access = a ∧ entry.path.contains path = true ∧
      Below (front ++ back) path entry a ∧
      ∀ place ∈ paths, place.contains path = true →
        place.parts.length < entry.path.parts.length ∨
          place.parts.length = entry.path.parts.length ∧ access.precedence ≤ a.precedence := by
  obtain ⟨entry, hentry, hinside, ha, hmax⟩ := h.found
  have hkept : entry ∈ front ++ back := by
    rcases mem_around.mp hentry with hkept | ⟨-, hother⟩
    · exact hkept
    · exact absurd (hother.symm.trans ha) haccess
  refine ⟨entry, hkept, ha, hinside, fun kept hmem hcontains => ?_, fun place hmem hcontains => ?_⟩
  · exact hmax kept (mem_around.mpr (.inl hmem)) hcontains
  · exact hmax ⟨place, access⟩ (mem_around.mpr (.inr ⟨hmem, rfl⟩)) hcontains

/-- The entry in the middle, where it contains the path, is less deep than the one that decides. -/
theorem Deepest.around_deny {a : Access} (ha : a ≠ .deny)
    (h : Deepest (around cwd front back .deny paths) path a)
    (hkept : ∀ entry ∈ front ++ back, entry ∈ policy.resolvedEntries)
    (hplaces : ∀ entry ∈ policy.resolvedEntries, entry ∈ front ++ back ∨ entry.path ∈ paths) :
    Deepest policy path a := by
  obtain ⟨entry, hentry, haccess, hinside, hbelow, hless⟩ := deepest_around ha.symm h
  refine ⟨entry, hkept entry hentry, hinside, haccess, fun other hother hcontains => ?_⟩
  rcases hplaces other hother with hmem | hmem
  · exact hbelow other hmem hcontains
  · rcases hless other.path hmem hcontains with hlt | ⟨-, hprecedence⟩
    · exact .inl hlt
    · cases a with
      | read | write => exact absurd hprecedence (by decide)
      | deny => exact absurd rfl ha

variable {root : GuestPath} {name : Name}

theorem findSome?_places (haccess : access ≠ .write) :
    (paths.map fun place => (⟨place, access⟩ : ResolvedEntry)).findSome? (rooted path) = none := by
  rw [List.findSome?_eq_none_iff]
  intro entry hentry
  obtain ⟨place, -, rfl⟩ := List.mem_map.mp hentry
  exact if_neg haccess

theorem protectedRoot_around (cwd : GuestPath) (front back : List ResolvedEntry) (access : Access)
    (paths : List GuestPath) (path : GuestPath) :
    (around cwd front back access paths).protectedRoot path =
      ((front.findSome? (rooted path)).or
        ((paths.map fun place => (⟨place, access⟩ : ResolvedEntry)).findSome? (rooted path))).or
        (back.findSome? (rooted path)) := by
  rw [protectedRoot, around, List.findSome?_append, List.findSome?_append]

theorem protectedRoot_others (haccess : access ≠ .write) (paths : List GuestPath) :
    (around cwd front back access paths).protectedRoot path =
      (⟨cwd, front ++ back⟩ : ManagedPolicy).protectedRoot path := by
  rw [protectedRoot_around, findSome?_places haccess, or_none, protectedRoot,
    List.findSome?_append]

/-- The directory that is found is found without the entry in the middle as well, or that entry roots
it. -/
theorem protectedRoot_write
    (h : (around cwd front back .write paths).protectedRoot path = some (root, name)) :
    (⟨cwd, front ++ back⟩ : ManagedPolicy).protectedRoot path = some (root, name) ∨
      ∃ place ∈ paths, name ∈ metadataNames ∧ root = place.append [name] ∧
        root.contains path = true := by
  rw [protectedRoot_around] at h
  rw [protectedRoot, List.findSome?_append]
  cases hfront : front.findSome? (rooted path) with
  | some found =>
    rw [hfront] at h
    exact .inl h
  | none =>
    rw [hfront, none_or] at h
    cases hplaces : (paths.map fun place => (⟨place, .write⟩ : ResolvedEntry)).findSome?
        (rooted path) with
    | none =>
      rw [hplaces] at h
      exact .inl h
    | some found =>
      rw [hplaces] at h
      cases h
      obtain ⟨entry, hentry, hfound⟩ := List.exists_of_findSome?_eq_some hplaces
      obtain ⟨place, hplace, rfl⟩ := List.mem_map.mp hentry
      obtain ⟨-, hname, hroot, hcontains⟩ := rooted_eq_some hfound
      exact .inr ⟨place, hplace, hname, hroot, hcontains⟩

theorem explicitGrant_of_mem (hentry : entry ∈ policy.resolvedEntries)
    (hwrite : entry.access = .write) (hroot : root.contains entry.path = true)
    (hpath : entry.path.contains path = true) : policy.explicitGrant root path = true := by
  refine List.any_eq_true.mpr ⟨entry, hentry, ?_⟩
  simp only [Bool.and_eq_true, decide_eq_true_eq]
  exact ⟨⟨hwrite, hroot⟩, hpath⟩

theorem explicitGrant_mem (h : policy.explicitGrant root path = true) :
    ∃ entry ∈ policy.resolvedEntries, entry.access = .write ∧ root.contains entry.path = true ∧
      entry.path.contains path = true := by
  obtain ⟨entry, hentry, hcovers⟩ := List.any_eq_true.mp h
  simp only [Bool.and_eq_true, decide_eq_true_eq] at hcovers
  exact ⟨entry, hentry, hcovers.1.1, hcovers.1.2, hcovers.2⟩

theorem explicitGrant_others (haccess : access ≠ .write)
    (h : (around cwd front back access paths).explicitGrant root path = true)
    (hkept : ∀ entry ∈ front ++ back, entry ∈ policy.resolvedEntries) :
    policy.explicitGrant root path = true := by
  obtain ⟨entry, hentry, hwrite, hroot, hpath⟩ := explicitGrant_mem h
  rcases mem_around.mp hentry with hmem | ⟨-, hother⟩
  · exact explicitGrant_of_mem (hkept entry hmem) hwrite hroot hpath
  · exact absurd (hother.symm.trans hwrite) haccess

theorem contains_of_length_le {a b : GuestPath} (ha : a.contains path = true)
    (hb : b.contains path = true) (hle : a.parts.length ≤ b.parts.length) : a.contains b = true :=
  GuestPath.contains_iff.mpr (prefix_of_prefix_length_le (GuestPath.contains_iff.mp ha)
    (GuestPath.contains_iff.mp hb) hle)

theorem contains_of_append {place : GuestPath}
    (h : (place.append [name]).contains path = true) : place.contains path = true := by
  refine GuestPath.contains_iff.mpr (List.IsPrefix.trans ?_ (GuestPath.contains_iff.mp h))
  exact prefix_append _ _

/-- An entry deeper than `place` that contains the path is at or below the directory that `place`
roots around the path. -/
theorem append_contains_of_lt {place : GuestPath}
    (hroot : (place.append [name]).contains path = true) (hpath : entry.path.contains path = true)
    (hlt : place.parts.length < entry.path.parts.length) :
    (place.append [name]).contains entry.path = true := by
  refine contains_of_length_le hroot hpath ?_
  rw [GuestPath.append_parts, length_append, length_singleton]
  omega

end Around

/-! ### Denials -/

/-- What the one policy allows the other allows as well. -/
def Narrower (policy other : ManagedPolicy) : Prop :=
  ∀ path, ((policy.decide path).canRead = true → (other.decide path).canRead = true) ∧
    ((policy.decide path).canWrite = true → (other.decide path).canWrite = true)

section Denials

variable {cwd : GuestPath} {front back : List ResolvedEntry} {access : Access}
  {paths : List GuestPath}

theorem resolvedAccess_of_denied
    (h : ((around cwd front back .deny paths).decide path).resolvedAccess ≠ .deny)
    (hkept : ∀ entry ∈ front ++ back, entry ∈ policy.resolvedEntries)
    (hplaces : ∀ entry ∈ policy.resolvedEntries, entry ∈ front ++ back ∨ entry.path ∈ paths) :
    (policy.decide path).resolvedAccess =
      ((around cwd front back .deny paths).decide path).resolvedAccess :=
  ((deepest_of_ne_deny h).around_deny h hkept hplaces).resolvedAccess

/-- **An entry that denies, put between others.** -/
theorem narrower_insert : Narrower (around cwd front back .deny paths) ⟨cwd, front ++ back⟩ := by
  intro path
  have hsame : ((around cwd front back .deny paths).decide path).resolvedAccess ≠ .deny →
      ((⟨cwd, front ++ back⟩ : ManagedPolicy).decide path).resolvedAccess =
        ((around cwd front back .deny paths).decide path).resolvedAccess := fun h =>
    resolvedAccess_of_denied h (fun _ hentry => hentry) fun _ hentry => .inl hentry
  refine ⟨fun hread => ?_, fun hwrite => ?_⟩
  · rw [canRead_iff] at hread ⊢
    rw [hsame hread]
    exact hread
  · obtain ⟨haccess, hgrants⟩ := canWrite_iff.mp hwrite
    refine canWrite_iff.mpr ⟨(hsame (by rw [haccess]; decide)).trans haccess, ?_⟩
    intro found hfound
    rw [← protectedRoot_others (show Access.deny ≠ .write by decide) paths] at hfound
    exact explicitGrant_others (by decide) (hgrants found hfound) fun _ hentry => hentry

/-- **An entry that denies from now on.** If it rooted the metadata directory that was asked first,
the entry that decides about the path is deeper, and grants. -/
theorem narrower_deny :
    Narrower (around cwd front back .deny paths) (around cwd front back access paths) := by
  intro path
  have hkept : ∀ entry ∈ front ++ back,
      entry ∈ (around cwd front back access paths).resolvedEntries :=
    fun entry hentry => mem_around.mpr (.inl hentry)
  have hsame : ((around cwd front back .deny paths).decide path).resolvedAccess ≠ .deny →
      ((around cwd front back access paths).decide path).resolvedAccess =
        ((around cwd front back .deny paths).decide path).resolvedAccess := fun h =>
    resolvedAccess_of_denied h hkept fun _ hentry =>
      (mem_around.mp hentry).imp_right fun hplace => hplace.1
  refine ⟨fun hread => ?_, fun hwrite => ?_⟩
  · rw [canRead_iff] at hread ⊢
    rw [hsame hread]
    exact hread
  · obtain ⟨haccess, hgrants⟩ := canWrite_iff.mp hwrite
    have hne : ((around cwd front back .deny paths).decide path).resolvedAccess ≠ .deny := by
      rw [haccess]
      decide
    refine canWrite_iff.mpr ⟨(hsame hne).trans haccess, fun found hfound => ?_⟩
    have hothers : ∀ found ∈ (⟨cwd, front ++ back⟩ : ManagedPolicy).protectedRoot path,
        (around cwd front back access paths).explicitGrant found.1 path = true := by
      intro found hfound
      rw [← protectedRoot_others (show Access.deny ≠ .write by decide) paths] at hfound
      exact explicitGrant_others (by decide) (hgrants found hfound) hkept
    by_cases hmiddle : access = .write
    · subst hmiddle
      obtain ⟨root, name⟩ := found
      rcases protectedRoot_write hfound with hother | ⟨place, hplace, -, rfl, hroot⟩
      · exact hothers (root, name) hother
      · have hdeepest := deepest_of_ne_deny hne
        rw [haccess] at hdeepest
        obtain ⟨entry, hentry, hentryWrite, hinside, -, hless⟩ :=
          deepest_around (by decide) hdeepest
        have hlt : place.parts.length < entry.path.parts.length := by
          rcases hless place hplace (contains_of_append hroot) with hlt | ⟨-, hprecedence⟩
          · exact hlt
          · exact absurd hprecedence (by decide)
        exact explicitGrant_of_mem (hkept entry hentry) hentryWrite
          (append_contains_of_lt hroot hinside hlt) hinside
    · rw [protectedRoot_others hmiddle paths] at hfound
      exact hothers found hfound

end Denials

/-! ### Reading instead of writing -/

section Reading

variable {cwd : GuestPath} {front back : List ResolvedEntry} {paths : List GuestPath}

end Reading

end ManagedPolicy

/-! ### Contexts -/

section Contexts

open ManagedPolicy

/-- The places an entry stands for. -/
def Context.places (context : Context) (entry : Entry) : List GuestPath :=
  entry.target.resolve context.workspaceRoots context.temporaryDirectories

/-- The context with other entries. -/
def Context.withEntries (context : Context) (entries : List Entry) : Context :=
  { context with
    entries := entries
    resolvedEntries := resolve context.workspaceRoots context.temporaryDirectories entries }

def Entry.withAccess (entry : Entry) (access : Access) : Entry := { entry with access := access }

/-- The entries that decisions read, for entries of the source. -/
def Context.decisive (context : Context) (entries : List Entry) : List ResolvedEntry :=
  entries.flatMap fun entry => (context.places entry).map (⟨·, entry.access⟩)

theorem policy_withEntries (context : Context) (entries : List Entry) :
    (context.withEntries entries).policy = ⟨context.cwd, context.decisive entries⟩ := by
  have hresolved : (resolve context.workspaceRoots context.temporaryDirectories entries).map
      (·.toResolvedEntry) = context.decisive entries := by
    unfold resolve Context.decisive
    rw [map_flatMap]
    conv_rhs => rw [← zipIdx_map_fst 0 entries, flatMap_map]
    refine congrArg (fun f => List.flatMap f entries.zipIdx) (funext fun pair => ?_)
    rw [List.map_map]
    rfl
  exact congrArg (ManagedPolicy.mk context.cwd) hresolved

theorem policy_between (context : Context) (front back : List Entry) (entry : Entry) :
    (context.withEntries (front ++ entry :: back)).policy =
      around context.cwd (context.decisive front) (context.decisive back) entry.access
        (context.places entry) := by
  rw [policy_withEntries]
  unfold Context.decisive around
  rw [flatMap_append, flatMap_cons, append_assoc]

theorem policy_without (context : Context) (front back : List Entry) :
    (context.withEntries (front ++ back)).policy =
      ⟨context.cwd, context.decisive front ++ context.decisive back⟩ := by
  rw [policy_withEntries]
  unfold Context.decisive
  rw [flatMap_append]

variable {rules : NetlocRules} {document : Json} {context : Context}

theorem withEntries_self (h : parseContext rules document = .ok context) :
    context.withEntries context.entries = context := by
  have hresolved := (parseContext_valid h).resolved
  unfold Context.withEntries
  rw [← hresolved]

/-- The metadata directory of `/a`, the directory itself, and the metadata directory again. -/
def grantedTwice : Json :=
  .obj [
    ("permissions", .obj [
      ("type", .str "managed"),
      ("file_system", .obj [
        ("type", .str "restricted"),
        ("entries", .arr (["file:///a/.git", "file:///a", "file:///a/.git"].map fun uri =>
          .obj [
            ("path", .obj [("type", .str "path"), ("path", .str uri)]),
            ("access", .str "write")]))]),
      ("network", .str "restricted")]),
    ("cwd", .str "file:///a"),
    ("windowsSandboxLevel", .str "disabled")]

def dotGitEntry : Entry := ⟨.write, .path ⟨[['a'], dotGit]⟩⟩

def plainEntry : Entry := ⟨.write, .path ⟨[['a']]⟩⟩

theorem grantedTwice_parsed :
    ∃ context, parseContext ⟨id, fun _ => false⟩ grantedTwice = .ok context ∧
      context.entries = [dotGitEntry, plainEntry, dotGitEntry] := by
  have hok : ∃ context, parseContext ⟨id, fun _ => false⟩ grantedTwice = .ok context :=
    exists_ok_of_isOk (by decide +kernel)
  obtain ⟨context, hcontext⟩ := hok
  have hentries : (parseContext ⟨id, fun _ => false⟩ grantedTwice).toOption.map Context.entries =
      some [dotGitEntry, plainEntry, dotGitEntry] := by decide +kernel
  rw [hcontext] at hentries
  exact ⟨context, hcontext, Option.some.inj hentries⟩

/-- **Entries that deny allow nothing**: neither one more, at any place, nor one that was there with
another access. -/
theorem denial_never_widens (h : parseContext rules document = .ok context) :
    (∀ front back target, context.entries = front ++ back →
      Narrower (context.withEntries (front ++ ⟨.deny, target⟩ :: back)).policy context.policy) ∧
    ∀ front entry back, context.entries = front ++ entry :: back →
      Narrower (context.withEntries (front ++ entry.withAccess .deny :: back)).policy
        context.policy := by
  have hself := withEntries_self h
  refine ⟨fun front back target hentries => ?_, fun front entry back hentries => ?_⟩
  · rw [hentries] at hself
    rw [policy_between]
    conv => rhs; rw [← hself, policy_without]
    exact narrower_insert
  · rw [hentries] at hself
    rw [policy_between]
    conv => rhs; rw [← hself, policy_between]
    exact narrower_deny

/-- `/a` may be denied in front, or the second entry may deny. -/
theorem denial_never_widens_sample :
    ∃ context, parseContext ⟨id, fun _ => false⟩ grantedTwice = .ok context ∧
      Narrower (context.withEntries ([⟨.deny, .path ⟨[['a']]⟩⟩] ++ context.entries)).policy
        context.policy ∧
      Narrower (context.withEntries [dotGitEntry, plainEntry.withAccess .deny, dotGitEntry]).policy
        context.policy := by
  obtain ⟨context, hcontext, hentries⟩ := grantedTwice_parsed
  have hnarrower := denial_never_widens hcontext
  exact ⟨context, hcontext, hnarrower.1 [] context.entries (.path ⟨[['a']]⟩) rfl,
    hnarrower.2 [dotGitEntry] plainEntry [dotGitEntry] hentries⟩

end Contexts

end FoldGPT.Files
