import FoldGPT.Files.Copy

/-!
# Admission after a file call

`_inspect` refuses a workspace that is too large, too deep or holds something it
does not know, and every later call fails with it. The directory and copy plans
count what they add; a removal only takes away; a write adds at most one file,
but nobody counts it.
-/

namespace FoldGPT.Files

open FoldGPT.Lib List Option

variable {b : Backend} {policy : ManagedPolicy} {w : Workspace}

/-! ### Rewriting and removing one object -/

variable {path : Path} {info : Info}

theorem Ordinary.rewritten (h : Ordinary b path info) (hreg : info.isReg) (size : Nat)
    (mode : Option Nat) : Ordinary b path (info.rewritten size mode) := by
  have hdir : ¬(info.rewritten size mode).isDir := by
    have hkind : info.kind = .regular := of_decide_eq_true hreg
    simp [Info.rewritten, Info.isDir, hkind]
  exact ⟨h.owner, .inl hreg, h.single, h.gitdir, fun hd => absurd hd hdir,
    fun hd => absurd hd hdir⟩

theorem admitted_change (hw : Admitted b w)
    (hget : w.get path = some info) (hreg : info.isReg) (size : Nat) (mode : Option Nat)
    (hne : path ≠ []) (kind : ∀ i : Info, (i.rewritten size mode).kind = i.kind) :
    Admitted b (w.change path (Info.rewritten size mode) hne kind) := by
  refine ⟨?_, ?_, ?_⟩
  · show (w.changed path (Info.rewritten size mode)).length ≤ MAX_ENTRIES
    rw [Workspace.changed, length_map]
    exact hw.count
  · intro e he
    obtain ⟨old, hold, rfl⟩ := List.mem_map.mp he
    show Ordinary b old.1 (if old.1 = path then old.2.rewritten size mode else old.2)
    split
    next hpath =>
      have hsame : old.2 = info := by
        have := Workspace.get_of_mem hold
        rw [hpath, hget, Option.some.injEq] at this
        exact this.symm
      exact (hw.ordinary old hold).rewritten (hsame ▸ hreg) size mode
    next => exact hw.ordinary old hold
  · intro e he above habove
    obtain ⟨old, hold, rfl⟩ := List.mem_map.mp he
    have hchange := w.get_change (Info.rewritten size mode) hne kind old.1.dropLast
    have habove := hchange.symm.trans habove
    split at habove
    next hpath =>
      -- nothing lies below a file
      obtain ⟨directory, hdirectory, hdir⟩ :=
        Workspace.isDirectory_iff.mp (Workspace.isDirectory_parent hold)
      rw [hpath, hget, Option.some.injEq] at hdirectory
      subst hdirectory
      have hkind : info.kind = .regular := of_decide_eq_true hreg
      simp [Info.isDir, hkind] at hdir
    next => exact hw.searchable old hold above habove

theorem admitted_discard (hw : Admitted b w) (bare : w.Bare path) :
    Admitted b (w.discard path bare) := by
  have hentries : (w.discard path bare).entries = w.entries.filter fun e => e.1 != path := rfl
  refine ⟨?_, ?_, ?_⟩
  · exact (length_filter_le _ _).trans hw.count
  · exact fun e he => hw.ordinary e (mem_filter.mp he).1
  · intro e he above habove
    rw [Workspace.get_discard] at habove
    split at habove
    · cases habove
    · exact hw.searchable e (mem_filter.mp he).1 above habove

theorem unlinkAll_admitted {paths : List Path} {v : Workspace} (hw : Admitted b w)
    (h : unlinkAll paths w = some v) : Admitted b v := by
  induction paths generalizing w with
  | nil =>
    cases h
    exact hw
  | cons path paths ih =>
    obtain ⟨next, hnext, hrest⟩ := bind_eq_some_iff.mp h
    obtain ⟨bare, rfl⟩ := Workspace.unlink_eq_some hnext
    exact ih (admitted_discard hw bare) hrest

/-! ### Making directories -/

variable {k : Kernel} {parts : Path}

theorem makeMissing_admitted {sizes : List Nat} {v : Workspace} (hw : Admitted b w)
    (hdepth : parts.length ≤ MAX_DEPTH) (hcount : w.entries.length + sizes.length ≤ MAX_ENTRIES)
    (h : makeMissing k b parts sizes w = some v) : Admitted b v := by
  induction sizes generalizing w with
  | nil =>
    cases h
    exact hw
  | cons size sizes ih =>
    obtain ⟨next, hnext, hrest⟩ := bind_eq_some_iff.mp h
    obtain ⟨hsearch, -, room, rfl⟩ := Workspace.creat_eq_some.mp hnext
    rw [length_cons] at hcount
    have hlength : (parts.take size).length ≤ MAX_DEPTH :=
      (length_take_le' _ _).trans hdepth
    refine ih ((admitted_insert_iff hw room hsearch).mpr ⟨by omega, ?_⟩) ?_ hrest
    · exact fresh_directory_ordinary b _ hlength
    · show (w.entries ++ [_]).length + _ ≤ _
      rw [length_append, length_singleton]
      omega

/-! ### Copying -/

/-- A workspace on the way from `w` to the end of a copy: admitted, nothing lost, and
nothing new but what the plan counted. -/
structure Grown (b : Backend) (w : Workspace) (created : List Path) (v : Workspace) : Prop where
  admitted : Admitted b v
  keys : ∀ e ∈ v.entries, w.get e.1 ≠ none ∨ e.1 ∈ created
  kept : ∀ path, v.get path = none → w.get path = none

variable {created : List Path} {v : Workspace}

/-- What the plan counted leaves room for what it counted. -/
theorem Grown.room (h : Grown b w created v)
    (hlimit : w.entries.length + created.length ≤ MAX_ENTRIES) (hroom : v.Room path)
    (hpath : path ∈ created) : v.entries.length + 1 ≤ MAX_ENTRIES := by
  have hfresh : path ∉ v.entries.map Prod.fst := by
    intro hmem
    obtain ⟨e, he, rfl⟩ := List.mem_map.mp hmem
    have hnone := hroom.2.2.1
    rw [Workspace.get_of_mem he] at hnone
    cases hnone
  have hnodup : (path :: v.entries.map Prod.fst).Nodup := nodup_cons.mpr ⟨hfresh, v.nodup⟩
  have hsub : path :: v.entries.map Prod.fst ⊆ w.entries.map Prod.fst ++ created := by
    intro key hkey
    rcases mem_cons.mp hkey with rfl | hkey
    · exact mem_append_right _ hpath
    · obtain ⟨e, he, rfl⟩ := List.mem_map.mp hkey
      rcases h.keys e he with hold | hnew
      · obtain ⟨info, hinfo⟩ := ne_none_iff_exists'.mp hold
        exact mem_append_left _ (List.mem_map.mpr
          ⟨(e.1, info), Workspace.mem_of_get (v.proper e he).1 hinfo, rfl⟩)
      · exact mem_append_right _ hnew
  have hlength := (hnodup.subperm hsub).length_le
  simp only [length_cons, length_append, length_map] at hlength
  omega

variable {next : Workspace}

theorem Grown.creat (h : Grown b w created v)
    (hlimit : w.entries.length + created.length ≤ MAX_ENTRIES)
    (hnext : v.creat path info = some next) (hpath : path ∈ created)
    (hord : Ordinary b path info) : Grown b w created next := by
  obtain ⟨hsearch, -, room, rfl⟩ := Workspace.creat_eq_some.mp hnext
  refine ⟨(admitted_insert_iff h.admitted room hsearch).mpr ⟨h.room hlimit room hpath, hord⟩,
    fun e he => ?_, fun p hp => ?_⟩
  · rcases mem_append.mp he with he | he
    · exact h.keys e he
    · rw [mem_singleton.mp he]
      exact .inr hpath
  · rw [Workspace.get_insert] at hp
    split at hp
    · cases hp
    · exact h.kept p hp

theorem Grown.change (h : Grown b w created v)
    (hinfo : v.get path = some info) (hreg : info.isReg) (size : Nat) (mode : Option Nat)
    (hne : path ≠ []) (kind : ∀ i : Info, (i.rewritten size mode).kind = i.kind) :
    Grown b w created (v.change path (Info.rewritten size mode) hne kind) := by
  refine ⟨admitted_change h.admitted hinfo hreg size mode hne kind, fun e he => ?_, fun p hp => ?_⟩
  · obtain ⟨old, hold, rfl⟩ := List.mem_map.mp he
    exact h.keys old hold
  · rw [Workspace.get_change] at hp
    split at hp
    · exact h.kept p (map_eq_none_iff.mp hp)
    · exact h.kept p hp

theorem copyDirectory_grown {sizes : List Nat} (h : Grown b w created v)
    (hlimit : w.entries.length + created.length ≤ MAX_ENTRIES) (hdepth : path.length ≤ MAX_DEPTH)
    (hcounted : ∀ size, w.get (path.take size) = none → path.take size ∈ created)
    (hnext : copyDirectory k b path sizes v = some next) : Grown b w created next := by
  induction sizes generalizing v with
  | nil =>
    cases hnext
    exact h
  | cons size sizes ih =>
    rw [copyDirectory] at hnext
    split at hnext
    · split at hnext
      · exact ih h hnext
      · cases hnext
    next hnone =>
      obtain ⟨made, hmade, hrest⟩ := bind_eq_some_iff.mp hnext
      have hlength : (path.take size).length ≤ MAX_DEPTH :=
        (length_take_le' _ _).trans hdepth
      exact ih (h.creat hlimit hmade (hcounted size (h.kept _ hnone))
        (fresh_directory_ordinary b _ hlength)) hrest

theorem fresh_file_ordinary (b : Backend) (stamp : Stamp) (mode size : Nat)
    (hgit : path.getLastD [] ≠ dotGit) : Ordinary b path (b.fresh stamp .regular mode size) where
  owner := rfl
  kind := .inl rfl
  single := fun _ => rfl
  gitdir := fun _ => hgit
  depth := nofun
  readable := nofun

theorem writePinned_grown {size : Nat} {mode : Option Nat} (h : Grown b w created v)
    (hlimit : w.entries.length + created.length ≤ MAX_ENTRIES)
    (hcounted : w.get path = none → path ∈ created) (hgit : path.getLastD [] ≠ dotGit)
    (hnext : writePinned k b v path size mode = some next) : Grown b w created next := by
  unfold writePinned at hnext
  split at hnext
  next hne =>
    split at hnext
    next hnone =>
      exact h.creat hlimit hnext (hcounted (h.kept path hnone)) (fresh_file_ordinary b _ _ _ hgit)
    next info hinfo =>
      split at hnext
      next hcheck =>
        cases hnext
        simp only [Backend.ordinary, Bool.and_eq_true] at hcheck
        exact h.change hinfo hcheck.1.2.1.1 size mode hne _
      next => cases hnext
  next => cases hnext

variable {found : Found} {source destination : Path}

theorem CopyPlanned.counted (hins : Inspected b w found) {top : Info}
    (h : CopyPlanned b policy w found source destination top created)
    (hget : w.get parts = some info) (hle : source <+: parts)
    (hpath : path <+: copyTarget source destination parts) (hnone : w.get path = none) :
    path ∈ created := (h.write hins ⟨hnone, parts, info, hget, hle, hpath⟩).2

theorem copyAll_grown (hw : Admitted b w) (hins : Inspected b w found) {top : Info}
    (hplanned : CopyPlanned b policy w found source destination top created)
    {selected : List (Path × Info)}
    (hselected : ∀ e ∈ selected, w.get e.1 = some e.2 ∧ source <+: e.1) (h : Grown b w created v)
    (hnext : copyAll k b source destination selected v = some next) : Grown b w created next := by
  induction selected generalizing v with
  | nil =>
    cases hnext
    exact h
  | cons e selected ih =>
    obtain ⟨parts, info⟩ := e
    obtain ⟨hget, hle⟩ : w.get parts = some info ∧ source <+: parts :=
      hselected (parts, info) mem_cons_self
    have hcounted : ∀ path, path <+: copyTarget source destination parts → w.get path = none →
        path ∈ created := fun path => hplanned.counted hins hget hle
    have hobject := hplanned.checked parts info hget hle
    have hall := fun e he => hselected e (mem_cons_of_mem _ he)
    rw [copyAll] at hnext
    split at hnext
    next hdir =>
      obtain ⟨made, hmade, hrest⟩ := bind_eq_some_iff.mp hnext
      have hreg : info.isReg = false := by
        have hkind : info.kind = .directory := of_decide_eq_true hdir
        simp [Info.isReg, hkind]
      have hdepth := hobject.depth
      rw [hreg] at hdepth
      exact ih hall (copyDirectory_grown h hplanned.limit hdepth
        (fun size => hcounted _ (List.take_prefix _ _)) hmade) hrest
    next hdir =>
      split at hnext
      next =>
        obtain ⟨made, hmade, hrest⟩ := bind_eq_some_iff.mp hnext
        have hkind : info.isReg ∨ info.isDir := by
          by_cases hnil : parts = []
          · rw [hnil, Workspace.get_root, Option.some.injEq] at hget
            exact .inr (hget ▸ w.root_dir)
          · exact (hw.ordinary _ (Workspace.mem_of_get hnil hget)).kind
        exact ih hall (writePinned_grown h hplanned.limit (hcounted _ (prefix_refl _))
          (hobject.gitdir (hkind.resolve_right hdir)) hmade) hrest
      next => cases hnext

theorem mem_planNodes {e : Path × Info} : e ∈ planNodes w ↔ w.get e.1 = some e.2 := by
  rw [planNodes, mem_insertionSort]
  exact Workspace.get_eq_some.symm

theorem copyTree_admitted (hw : Admitted b w) (hins : Inspected b w found) {recursive : Bool}
    {u : Unit} (hplan : copyPlan b policy source destination found recursive = .ok u)
    (hnext : copyTree k b w source destination = some next) : Admitted b next := by
  unfold copyTree at hnext
  split at hnext
  · cases hnext
  next top htop =>
    obtain ⟨-, -, created, hplanned⟩ := copyPlan_spec hins htop hplan
    have hstart : Grown b w created w := by
      refine ⟨hw, fun e he => .inl ?_, fun path hnone => hnone⟩
      rw [Workspace.get_of_mem he]
      exact some_ne_none _
    refine (copyAll_grown hw hins hplanned (fun e he => ?_) hstart hnext).admitted
    obtain ⟨hmem, hle⟩ := mem_filter.mp he
    exact ⟨mem_planNodes.mp hmem, isPrefixOf_iff_prefix.mp hle⟩

/-! ### The calls -/

/-- The call writes no new file, or there is room for one. -/
def Call.Fits (b : Backend) (w : Workspace) : Call → Prop
  | .writeFile uri _ => ∀ parts, GuestPath.fromUri b.rules uri "path" = .ok (b.guest parts) →
      w.get parts ≠ none ∨ w.entries.length < MAX_ENTRIES
  | _ => True

theorem directoryPlan_spec (hins : Inspected b w found) {recursive : Bool} {plan : DirectoryPlan}
    (h : directoryPlan b policy parts recursive found = .ok plan) :
    plan.parts = parts ∧ parts.length ≤ MAX_DEPTH ∧
      w.entries.length + plan.missing ≤ MAX_ENTRIES := by
  simp only [directoryPlan, bind_eq_ok, require_eq_ok, exists_const, decide_eq_true_eq,
    hins.count] at h
  obtain ⟨hdepth, -, hcount, -, -, h⟩ := h
  split at h
  · cases h
  · cases h
    exact ⟨rfl, hdepth, hcount⟩

theorem createDirectories_admitted (hw : Admitted b w) {plan : DirectoryPlan}
    (hdepth : plan.parts.length ≤ MAX_DEPTH)
    (hcount : w.entries.length + plan.missing ≤ MAX_ENTRIES)
    (hnext : createDirectories k b w plan = some next) : Admitted b next := by
  simp only [createDirectories] at hnext
  cases hstart : w.get (plan.parts.take (plan.parts.length - plan.missing)) with
  | none =>
    rw [hstart] at hnext
    cases hnext
  | some info =>
    simp only [hstart] at hnext
    split_ifs at hnext
    · cases hnext
      exact hw
    · exact makeMissing_admitted hw hdepth (by rwa [length_range']) hnext

/-- A write leaves an admitted workspace, unless the file is new and the workspace full. -/
theorem writePinned_admitted_iff (hw : Admitted b w) {size : Nat} (hgit : path.getLastD [] ≠ dotGit)
    (hnext : writePinned k b w path size none = some next) :
    Admitted b next ↔ w.get path ≠ none ∨ w.entries.length < MAX_ENTRIES := by
  unfold writePinned at hnext
  split at hnext
  next hne =>
    split at hnext
    next hnone =>
      obtain ⟨hsearch, -, room, rfl⟩ := Workspace.creat_eq_some.mp hnext
      rw [admitted_insert_iff hw room hsearch, hnone]
      simp only [ne_eq, not_true_eq_false, false_or]
      exact ⟨fun h => h.1, fun h => ⟨h, fresh_file_ordinary b _ _ _ hgit⟩⟩
    next info hinfo =>
      split at hnext
      next hcheck =>
        cases hnext
        simp only [Backend.ordinary, Bool.and_eq_true] at hcheck
        refine iff_of_true (admitted_change hw hinfo hcheck.1.2.1.1 size none hne _) (.inl ?_)
        rw [hinfo]
        exact some_ne_none info
      next => cases hnext
  next => cases hnext

/-- **After a call that succeeds** the workspace is admitted exactly when the call fits. -/
theorem call_admitted_iff (hw : Admitted b w) {call : Call} {args : Arguments}
    (hok : handle b policy w call = .ok args)
    (hnext : native k b w args = some next) : Admitted b next ↔ call.Fits b w := by
  cases call with
  | writeFile uri encoded =>
    simp only [handle, mapError_eq_ok, plan, bind_eq_ok, locate_ok_iff, pure_eq_ok, require_eq_ok,
      exists_const] at hok
    obtain ⟨_, ⟨parts, rfl, hreq, hne, -⟩, found, hfound, -, -, hgit, data, -, rfl⟩ := hok
    have hne : parts ≠ [] := hne.resolve_right (by decide)
    have hlast : parts.getLastD [] ≠ dotGit := by
      rw [bne_iff_ne, Backend.guest, GuestPath.append_parts] at hgit
      rwa [List.getLastD_eq_getLast?, List.getLast?_append_of_ne_nil _ hne,
        ← List.getLastD_eq_getLast?] at hgit
    rw [b.partsOf_guest] at hnext
    rw [writePinned_admitted_iff hw hlast hnext]
    constructor
    · intro h other hother
      rw [hreq.read, Except.ok.injEq, Backend.guest_inj] at hother
      exact hother ▸ h
    · exact fun h => h parts hreq.read
  | createDirectory uri recursive =>
    simp only [handle, mapError_eq_ok, plan, bind_eq_ok, pure_eq_ok] at hok
    obtain ⟨path, -, found, hfound, -, -, made, hmade, rfl⟩ := hok
    obtain ⟨hparts, hdepth, hcount⟩ := directoryPlan_spec (inspect_spec hfound).2 hmade
    exact iff_of_true (createDirectories_admitted hw (hparts ▸ hdepth) hcount hnext) trivial
  | remove uri recursive force =>
    simp only [handle, mapError_eq_ok, plan, bind_eq_ok, pure_eq_ok] at hok
    obtain ⟨path, -, found, hfound, -, -, data, -, -, -, rfl⟩ := hok
    refine iff_of_true ?_ trivial
    have hnext : removeTree w (b.partsOf path) (force != some false) = some next := hnext
    unfold removeTree at hnext
    split at hnext
    · split at hnext
      · cases hnext
        exact hw
      · cases hnext
    · exact unlinkAll_admitted hw hnext
  | copy sourceUri destinationUri recursive =>
    obtain ⟨source, destination, found, data, -, -, -, hfound, hplan, rfl⟩ := copy_ok hok
    exact iff_of_true (copyTree_admitted hw (inspect_spec hfound).2 hplan hnext) trivial

end FoldGPT.Files
