import Mathlib.Algebra.GroupWithZero.Nat
import Mathlib.Algebra.Ring.Int.Defs
import FoldGPT.Files.CreateDirectory

/-!
# What a copy may create

`_copy_plan` checks every target of a copy, and every missing directory above
one, against the metadata directories of the workspace and those of the copied
tree. The missing directories above the destination itself are created too, but
they are not in that list.
-/

namespace FoldGPT.Files

open FoldGPT.Lib List Option

variable {b : Backend} {policy : ManagedPolicy} {w : Workspace}

/-! ### What a plan that passes has checked -/

/-- What was checked of one directory above a target. -/
def AboveChecked (b : Backend) (policy : ManagedPolicy) (prospective : List GuestPath)
    (nodes : Dict Path Info) (sourceDirectory : Bool) (created : List Path) (above : Path) :
    Prop :=
  match nodes.get above with
  | some info => info.isDir
  | none => sourceDirectory ∧ requireWrite b policy (b.guest above) prospective = .ok () ∧
      above ∈ created

/-- What was checked of one selected object. -/
structure ObjectChecked (b : Backend) (policy : ManagedPolicy) (prospective : List GuestPath)
    (nodes : Dict Path Info) (sourceDirectory : Bool) (target : Path) (created : List Path)
    (info : Info) : Prop where
  depth : target.length ≤ MAX_DEPTH + if info.isReg then 1 else 0
  write : requireWrite b policy (b.guest target) prospective = .ok ()
  kind : ∀ found, nodes.get target = some found → found.kind = info.kind
  gitdir : info.isReg → target.getLastD [] ≠ dotGit
  above : ∀ n, 1 ≤ n → n < target.length →
    AboveChecked b policy prospective nodes sourceDirectory created (target.take n)
  created : nodes.get target = none → target ∈ created

variable {prospective : List GuestPath} {sourceDirectory : Bool} {created created' : List Path}

theorem AboveChecked.mono {nodes : Dict Path Info} {above : Path} (hsub : created ⊆ created')
    (h : AboveChecked b policy prospective nodes sourceDirectory created above) :
    AboveChecked b policy prospective nodes sourceDirectory created' above := by
  unfold AboveChecked at h ⊢
  split
  next info hinfo => simpa only [hinfo] using h
  next hnone =>
    simp only [hnone] at h
    exact ⟨h.1, h.2.1, hsub h.2.2⟩

variable {target : Path}

theorem copyParents_spec {nodes : Dict Path Info} {depths : List Nat}
    (h : copyParents b policy prospective nodes sourceDirectory target depths created =
      .ok created') (hnodup : created.Nodup) :
    created ⊆ created' ∧ created'.Nodup ∧ ∀ n ∈ depths,
      AboveChecked b policy prospective nodes sourceDirectory created' (target.take n) := by
  induction depths generalizing created with
  | nil =>
    cases h
    exact ⟨List.Subset.refl _, hnodup, nofun⟩
  | cons depth depths ih =>
    rw [copyParents] at h
    split at h
    next info hinfo =>
      simp only [bind_eq_ok, require_eq_ok, exists_const] at h
      obtain ⟨hsub, hnodup', hall⟩ := ih h.2 hnodup
      refine ⟨hsub, hnodup', fun n hn => ?_⟩
      rcases mem_cons.mp hn with rfl | hn
      · simpa only [AboveChecked, hinfo] using h.1
      · exact hall n hn
    next hnone =>
      simp only [bind_eq_ok, require_eq_ok, exists_const] at h
      obtain ⟨hdirectory, ⟨⟩, hwrite, hrest⟩ := h
      obtain ⟨hsub, hnodup', hall⟩ := ih hrest hnodup.insert
      refine ⟨fun p hp => hsub (mem_insert_of_mem hp), hnodup', fun n hn => ?_⟩
      rcases mem_cons.mp hn with rfl | hn
      · simp only [AboveChecked, hnone]
        exact ⟨hdirectory, hwrite, hsub mem_insert_self⟩
      · exact hall n hn

variable {parts : Path} {total : Nat}

theorem copyCheck_ok_iff {nodes : Dict Path Info} {info : Info} {u : Unit} :
    copyCheck b policy prospective nodes target parts info total = .ok u ↔
      requireRead b policy parts = .ok () ∧
        target.length ≤ MAX_DEPTH + (if info.isReg then 1 else 0) ∧
        requireWrite b policy (b.guest target) prospective = .ok () ∧
        (∀ found, nodes.get target = some found → found.kind = info.kind) ∧
        (info.isReg → target.getLastD [] ≠ dotGit) ∧
        (info.isReg → total + info.size ≤ MAX_DATA ∧ info.mode &&& 0o7000 = 0) := by
  have hkind : (nodes.get target).all (fun existing => decide (existing.kind = info.kind)) ↔
      ∀ found, nodes.get target = some found → found.kind = info.kind := by
    cases nodes.get target <;> simp
  simp only [copyCheck, bind_eq_ok, require_eq_ok, exists_const, decide_eq_true_eq, hkind]
  constructor
  · rintro ⟨⟨⟩, hread, hdepth, ⟨⟩, hwrite, hk, hgit, hdata⟩
    refine ⟨hread, hdepth, hwrite, hk, fun hreg => ?_, fun hreg => ?_⟩
    · simpa [hreg] using hgit
    · simpa [hreg] using hdata
  · rintro ⟨hread, hdepth, hwrite, hk, hgit, hdata⟩
    refine ⟨(), hread, hdepth, (), hwrite, hk, ?_, ?_⟩
    · cases hreg : info.isReg <;> simp_all
    · cases hreg : info.isReg <;> simp_all

variable {source destination : Path} {selected : List (Path × Info)}

theorem copyLoop_spec {nodes : Dict Path Info}
    (h : copyLoop b policy prospective nodes sourceDirectory source destination selected created
      total = .ok created') (hnodup : created.Nodup) :
    created ⊆ created' ∧ created'.Nodup ∧ ∀ e ∈ selected,
      ObjectChecked b policy prospective nodes sourceDirectory
        (copyTarget source destination e.1) created' e.2 := by
  induction selected generalizing created total with
  | nil =>
    cases h
    exact ⟨List.Subset.refl _, hnodup, nofun⟩
  | cons e selected ih =>
    obtain ⟨parts, info⟩ := e
    simp only [copyLoop, bind_eq_ok, copyCheck_ok_iff, exists_const] at h
    obtain ⟨⟨-, hdepth, hwrite, hkind, hgit, -⟩, between, hparents, hrest⟩ := h
    obtain ⟨hsub, hbetween, habove⟩ := copyParents_spec hparents hnodup
    have hnext : ∀ p ∈ between, p ∈ (if (nodes.get (copyTarget source destination parts)).isNone
        then between.insert (copyTarget source destination parts) else between) := by
      intro p hp
      split
      · exact mem_insert_of_mem hp
      · exact hp
    obtain ⟨hsub', hnodup', hall⟩ := ih hrest (by
      split
      · exact hbetween.insert
      · exact hbetween)
    refine ⟨fun p hp => hsub' (hnext p (hsub hp)), hnodup', fun e he => ?_⟩
    rcases mem_cons.mp he with rfl | he
    · refine ⟨hdepth, hwrite, hkind, hgit, fun n hlow hhigh => ?_, fun hnone => ?_⟩
      · have hhigh : n < (copyTarget source destination parts).length := hhigh
        refine (habove n (mem_range'_1.mpr ⟨hlow, ?_⟩)).mono fun p hp => hsub' (hnext p hp)
        omega
      · refine hsub' ?_
        simp only [hnone, isNone_none, if_true]
        exact mem_insert_self
    · exact hall e he

/-! ### What a plan that passes has counted -/

variable {p : Path}

/-- The loop over the directories above a target counts only missing ones. -/
theorem copyParents_created {nodes : Dict Path Info} {depths : List Nat}
    (h : copyParents b policy prospective nodes sourceDirectory target depths created =
      .ok created') (hp : p ∈ created') : p ∈ created ∨ nodes.get p = none ∧ p <+: target := by
  induction depths generalizing created with
  | nil =>
    cases h
    exact .inl hp
  | cons depth depths ih =>
    rw [copyParents] at h
    split at h
    next info hinfo =>
      simp only [bind_eq_ok, require_eq_ok, exists_const] at h
      exact ih h.2
    next hnone =>
      simp only [bind_eq_ok, require_eq_ok, exists_const] at h
      obtain ⟨-, ⟨⟩, -, hrest⟩ := h
      rcases ih hrest with hold | hnew
      · rcases mem_insert_iff.mp hold with rfl | hold
        · exact .inr ⟨hnone, take_prefix _ _⟩
        · exact .inl hold
      · exact .inr hnew

/-- The loop over the selected objects counts only missing targets and what is missing above
them. -/
theorem copyLoop_created {nodes : Dict Path Info}
    (h : copyLoop b policy prospective nodes sourceDirectory source destination selected created
      total = .ok created') (hp : p ∈ created') :
    p ∈ created ∨
      nodes.get p = none ∧ ∃ e ∈ selected, p <+: copyTarget source destination e.1 := by
  induction selected generalizing created total with
  | nil =>
    cases h
    exact .inl hp
  | cons e selected ih =>
    obtain ⟨parts, info⟩ := e
    simp only [copyLoop, bind_eq_ok, copyCheck_ok_iff, exists_const] at h
    obtain ⟨-, between, hparents, hrest⟩ := h
    rcases ih hrest with hmem | ⟨hnone, e, he, hle⟩
    · have hbetween : p ∈ between ∨
          nodes.get p = none ∧ p = copyTarget source destination parts := by
        split at hmem
        next hmissing =>
          rcases mem_insert_iff.mp hmem with rfl | hmem
          · exact .inr ⟨isNone_iff_eq_none.mp hmissing, rfl⟩
          · exact .inl hmem
        next => exact .inl hmem
      rcases hbetween with hmem | ⟨hnone, rfl⟩
      · rcases copyParents_created hparents hmem with hold | ⟨hnone, hle⟩
        · exact .inl hold
        · exact .inr ⟨hnone, _, mem_cons_self, hle⟩
      · exact .inr ⟨hnone, _, mem_cons_self, prefix_rfl⟩
    · exact .inr ⟨hnone, e, mem_cons_of_mem _ he, hle⟩

/-- What an object adds to the copied data. -/
def fileSize (e : Path × Info) : Nat := if e.2.isReg then e.2.size else 0

/-- The copied data is bounded, and no copied file has special mode bits. -/
theorem copyLoop_data {nodes : Dict Path Info}
    (h : copyLoop b policy prospective nodes sourceDirectory source destination selected created
      total = .ok created') (htotal : total ≤ MAX_DATA) :
    total + (selected.map fileSize).sum ≤ MAX_DATA ∧
      ∀ e ∈ selected, e.2.isReg → e.2.mode &&& 0o7000 = 0 := by
  induction selected generalizing created total with
  | nil => exact ⟨htotal, nofun⟩
  | cons e selected ih =>
    obtain ⟨parts, info⟩ := e
    simp only [copyLoop, bind_eq_ok, copyCheck_ok_iff, exists_const] at h
    obtain ⟨⟨-, -, -, -, -, hdata⟩, between, -, hrest⟩ := h
    have hnext : (if info.isReg then total + info.size else total) =
        total + fileSize (parts, info) := by
      simp only [fileSize]
      split <;> rfl
    rw [hnext] at hrest
    obtain ⟨hsum, hmodes⟩ := ih hrest (by
      simp only [fileSize]
      split
      next hreg => exact (hdata hreg).1
      next => exact htotal)
    refine ⟨?_, fun e he hreg => ?_⟩
    · rw [map_cons, sum_cons, ← Nat.add_assoc]
      exact hsum
    · rcases mem_cons.mp he with rfl | he
      · exact (hdata hreg).2
      · exact hmodes e he hreg

/-- What a plan that passes has checked. -/
structure CopyPlanned (b : Backend) (policy : ManagedPolicy) (w : Workspace) (found : Found)
    (source destination : Path) (top : Info) (created : List Path) : Prop where
  nodup : created.Nodup
  limit : w.entries.length + created.length ≤ MAX_ENTRIES
  checked : ∀ parts info, w.get parts = some info → source <+: parts →
    ObjectChecked b policy (prospectiveMetadata b found source destination) found.nodes top.isDir
      (copyTarget source destination parts) created info

variable {found : Found} {recursive : Bool}

/-- **A copy plan that passes** for an existing source has checked every object, and
what it counted as created holds every path it found missing. -/
theorem copyPlan_spec (hins : Inspected b w found) {top : Info} (hsource : w.get source = some top)
    {u : Unit} (h : copyPlan b policy source destination found recursive = .ok u) :
    ¬destination <+: source ∧ ¬source <+: destination ∧
      ∃ created, CopyPlanned b policy w found source destination top created := by
  have hnodes : found.nodes.get source = some top := by rw [hins.get_nodes, hsource]
  simp only [copyPlan, hnodes, bind_eq_ok, require_eq_ok, exists_const, decide_eq_true_eq,
    Bool.not_eq_true', Bool.or_eq_false_iff] at h
  obtain ⟨⟨hover, hover'⟩, -, created, hloop, hlimit⟩ := h
  obtain ⟨-, hnodup, hall⟩ := copyLoop_spec hloop nodup_nil
  refine ⟨?_, ?_, created, hnodup, ?_, ?_⟩
  · rw [← isPrefixOf_iff_prefix]
    simp [hover]
  · rw [← isPrefixOf_iff_prefix]
    simp [hover']
  · have hlength := hins.nodes.length_eq
    rw [Workspace.nodes, length_cons] at hlength
    omega
  · intro parts info hget hle
    have hmem : (parts, info) ∈ copySelected found.nodes source := by
      refine mem_filter.mpr ⟨?_, isPrefixOf_iff_prefix.mpr hle⟩
      exact hins.nodes.mem_iff.mpr (Workspace.get_eq_some.mp hget)
    exact hall (parts, info) hmem

/-! ### What a copy creates -/

/-- The path is missing, and is the target of a copied object or lies above one. -/
def CopyCreates (w : Workspace) (source destination path : Path) : Prop :=
  w.get path = none ∧ ∃ parts info, w.get parts = some info ∧ source <+: parts ∧
    path <+: copyTarget source destination parts

theorem copyTarget_self (source destination : Path) :
    copyTarget source destination source = destination := by simp [copyTarget]

theorem copyTarget_append (source destination x : Path) :
    copyTarget source destination (source ++ x) = destination ++ x := by simp [copyTarget]

theorem properPath_of_le {q : Path} (h : ProperPath q) (hle : p <+: q) : ProperPath p :=
  fun name hname => h name (hle.subset hname)

theorem CopyPlanned.write (hins : Inspected b w found) {top : Info} {path : Path}
    (h : CopyPlanned b policy w found source destination top created)
    (hcreates : CopyCreates w source destination path) :
    requireWrite b policy (b.guest path) (prospectiveMetadata b found source destination) =
      .ok () ∧ path ∈ created := by
  obtain ⟨hnone, parts, info, hget, hle, hprefix⟩ := hcreates
  have hobject := h.checked parts info hget hle
  have hnone' : found.nodes.get path = none := by rw [hins.get_nodes, hnone]
  have hne : path ≠ [] := by
    rintro rfl
    cases hnone
  rcases Nat.lt_or_eq_of_le hprefix.length_le with hlt | heq
  · have habove := hobject.above path.length (length_pos_iff.mpr hne) hlt
    rw [← prefix_iff_eq_take.mp hprefix] at habove
    simp only [AboveChecked, hnone'] at habove
    exact habove.2
  · have hpath := hprefix.eq_of_length heq
    rw [hpath] at hnone' ⊢
    exact ⟨hobject.write, hobject.created hnone'⟩

theorem copy_ok {sourceUri destinationUri : List Char} {args : Arguments}
    (h : handle b policy w (.copy sourceUri destinationUri recursive) = .ok args) :
    ∃ source destination found data, Requested b sourceUri source ∧
      Requested b destinationUri destination ∧ destination ≠ [] ∧ inspect b w = .ok found ∧
      copyPlan b policy source destination found recursive = .ok () ∧
      args = .copy source data destination recursive := by
  simp only [handle, mapError_eq_ok, plan, bind_eq_ok, locate_ok_iff, pure_eq_ok, require_eq_ok,
    exists_const] at h
  obtain ⟨_, ⟨source, rfl, hsource, -⟩, path, hpath, hin, found, hfound, -, -, data, -, ⟨⟩, hplan,
    rfl⟩ := h
  simp only [Bool.and_eq_true, bne_iff_ne] at hin
  have hguest := Backend.guest_partsOf hin.1
  refine ⟨source, b.partsOf path, found, data, hsource, requested_of_fromUri hpath hin.1, ?_,
    hfound, by simpa using hplan, by simp⟩
  intro hnil
  rw [hnil, Backend.guest_nil] at hguest
  exact hin.2 hguest.symm

theorem Requested.unique {uri : List Char} {q : Path} (hp : Requested b uri p)
    (hq : Requested b uri q) : p = q := by
  have := hp.read.symm.trans hq.read
  rwa [Except.ok.injEq, Backend.guest_inj] at this

end FoldGPT.Files
