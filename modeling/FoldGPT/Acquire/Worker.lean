import FoldGPT.Lib.Transition
import FoldGPT.Files.Mutation
import FoldGPT.Acquire.Pin

/-!
# Admission after what a worker does

A confined worker changes the workspace by opens with `O_CREAT` and by `mkdir`,
each let through by `Policy.decide` and done by `pin_project`. Neither counts the
entries or the depth, and the permission bits of a new directory are the worker's
choice. This is the case in which nobody else changes the tree meanwhile, so the
lookups of `pin_project` find what the decision saw.

Main results: `mutation_admitted_iff`, `mutations_admitted`.
-/

namespace FoldGPT.Acquire

open FoldGPT.Lib FoldGPT.Files Option

def ENOTDIR : Nat := 20

/-! ### A quiet kernel -/

/-- What a new object of the worker looks like: the supervisor's umask is `0077`. -/
def Notification.fresh (n : Notification) (b : Backend) (stamp : Stamp) : Info :=
  match n with
  | .opening _ mode => b.fresh stamp .regular (mode &&& 0o700) 0
  | .mkdir mode => b.fresh stamp .directory (mode &&& 0o700) 0

/-- The owner's permission for the access mode of an open. -/
def permitted (flags : Nat) (info : Info) : Bool :=
  (accessMode flags = O_WRONLY || info.readable) &&
    ((accessMode flags = O_RDONLY && !truncates flags) || (info.isReg && info.writable))

/-- **The lookups of `pin_project` in a workspace nobody else changes.** -/
def quietLookups (w : Workspace) (parts : Path) (flags : Nat) (info : Info) : Lookups where
  parent :=
    if !w.canSearch parts.dropLast then .error EACCES
    else match w.get parts.dropLast with
      | none => .error ENOENT
      | some parent => if parent.isDir then .ok parent else .error ENOTDIR
  pin :=
    if !(w.get parts.dropLast).any Info.searchable then .error EACCES
    else match w.get parts with
      | none => .error ENOENT
      | some object => .ok object
  mkdirat := if (w.creat parts info).isSome then .ok () else .error EACCES
  dup := .ok ()
  reopen := if (w.get parts).any (permitted flags) then .ok () else .error EACCES
  last :=
    if creates flags then if (w.creat parts info).isSome then .ok info else .error EACCES
    else .error ENOENT

/-- What a grant does to the workspace: an object is created, or an open with `O_TRUNC`
empties a file. -/
def granting (w : Workspace) (parts : Path) (flags : Nat) (info : Info) :
    Outcome → Option Workspace
  | .created _ => w.creat parts info
  | .opened _ =>
    if hchange : truncates flags = true ∧ (w.get parts).any Info.isReg = true ∧ parts ≠ [] then
      some (w.change parts (Info.rewritten 0 none) hchange.2.2 fun _ => rfl)
    else some w

/-- The workspace after a worker's open or `mkdir`, if it is granted. -/
def worker (k : Kernel) (p : Policy) (w : Workspace) (id : Nat) (path : List UInt8)
    (n : Notification) : Option Workspace := do
  let parts ← p.target path
  let info := n.fresh p.files (k parts)
  let lookups := quietLookups w parts n.flags info
  match acquisition p w ⟨true, lookups, lookups, true⟩ id path n with
  | .granted _ outcome _ => granting w parts n.flags info outcome
  | _ => none

/-! ### What fits -/

/-- A new directory needs a depth that is admitted and its owner's read permission. -/
def Notification.Admissible (parts : Path) : Notification → Prop
  | .opening _ _ => True
  | .mkdir mode => parts.length ≤ MAX_DEPTH ∧ mode &&& 0o400 ≠ 0

/-- Where there is nothing yet, there is room for a new object, and it is admissible. -/
def Notification.Fits (p : Policy) (w : Workspace) (path : List UInt8) (n : Notification) : Prop :=
  ∀ parts, p.target path = some parts →
    w.get parts ≠ none ∨ (w.entries.length < MAX_ENTRIES ∧ n.Admissible parts)

theorem fresh_directory_readable (b : Backend) (stamp : Stamp) (mode : Nat) :
    (b.fresh stamp .directory (mode &&& 0o700) 0).readable = true ↔ mode &&& 0o400 ≠ 0 := by
  show (mode &&& 0o700 &&& 0o400 != 0) = true ↔ _
  rw [Nat.and_assoc, bne_iff_ne]
  rfl

variable {n : Notification} {parts : Path}

/-- What `_inspect` asks of the worker's new object. -/
theorem fresh_ordinary_iff {b : Backend} {stamp : Stamp}
    (hgit : n.operation = .opening → parts.getLastD [] ≠ dotGit) :
    Ordinary b parts (n.fresh b stamp) ↔ n.Admissible parts := by
  cases n with
  | opening flags mode => exact iff_of_true (fresh_file_ordinary b _ _ _ (hgit rfl)) trivial
  | mkdir mode =>
    constructor
    · exact fun h => ⟨h.depth rfl, (fresh_directory_readable b stamp mode).mp (h.readable rfl)⟩
    · rintro ⟨hdepth, hmode⟩
      exact ⟨rfl, .inr rfl, nofun, nofun, fun _ => hdepth,
        fun _ => (fresh_directory_readable b stamp mode).mpr hmode⟩

variable {w : Workspace} {path : List UInt8}

theorem created_checked {p : Policy} {sys : System} {id : Nat} {text : List Char} {parent : Info}
    {injected : Bool} (htarget : p.target path = some parts)
    (h : acquisition p w sys id path n = .granted text (.created parent) injected) :
    w.get parts = none ∧ (n.operation = .opening → parts.getLastD [] ≠ dotGit) := by
  obtain ⟨d, hdecide, herror, -, hpin⟩ := acquisition_granted h
  obtain ⟨other, hother, -, hrefused, rfl⟩ := decide_granted hdecide herror
  have hsame : parts = other := Option.some.inj (htarget.symm.trans hother)
  subst hsame
  rcases hpin with ⟨mode, rfl, hpin⟩ | ⟨flags, mode, rfl, hpin⟩
  · obtain ⟨-, -, -, hzero, -⟩ := pinProject_created hpin
    exact ⟨granted_inode_eq_zero.mp hzero, nofun⟩
  · obtain ⟨-, -, -, hzero, hcreates⟩ := pinProject_created hpin
    have hcreates : creates flags = true := hcreates.resolve_left nofun
    have hnone := granted_inode_eq_zero.mp hzero
    refine ⟨hnone, fun _ hgit => hrefused (.inr ⟨?_, .inr ⟨hgit, rfl, hnone⟩⟩)⟩
    rw [hnone]
    show writes .opening flags true = true
    simp [writes, hcreates]

theorem opened_present {p : Policy} {id : Nat} {text : List Char} {object : Info} {injected : Bool}
    {info : Info} (htarget : p.target path = some parts)
    (h : acquisition p w ⟨true, quietLookups w parts n.flags info,
      quietLookups w parts n.flags info, true⟩ id path n = .granted text (.opened object) injected) :
    w.get parts ≠ none := by
  obtain ⟨d, hdecide, herror, -, hpin⟩ := acquisition_granted h
  obtain ⟨other, hother, -, -, rfl⟩ := decide_granted hdecide herror
  have hsame : parts = other := Option.some.inj (htarget.symm.trans hother)
  subst hsame
  intro hnone
  rcases hpin with ⟨mode, rfl, hpin⟩ | ⟨flags, mode, rfl, hpin⟩
  · exact absurd (pinProject_opened hpin).1 nofun
  · rcases (pinProject_opened hpin).2 with ⟨-, hino⟩ | ⟨-, hcreates, hlast⟩
    · exact object.ino_ne (hino.trans (granted_inode_eq_zero.mpr hnone))
    · have hmissing : (quietLookups w parts flags info).last = .error ENOENT := by
        simp [quietLookups, hcreates]
      cases hmissing.symm.trans hlast

/-- **After what a worker did** the workspace is admitted exactly when it fits. -/
theorem worker_admitted_iff {k : Kernel} {p : Policy} (hw : Admitted p.files w)
    {id : Nat} {next : Workspace}
    (h : worker k p w id path n = some next) : Admitted p.files next ↔ n.Fits p w path := by
  obtain ⟨parts, htarget, h⟩ := bind_eq_some_iff.mp h
  have hfits : n.Fits p w path ↔
      w.get parts ≠ none ∨ (w.entries.length < MAX_ENTRIES ∧ n.Admissible parts) := by
    simp [Notification.Fits, htarget]
  rw [hfits]
  simp only at h
  split at h
  next outcome injected hgrant =>
    cases outcome with
    | created parent =>
      obtain ⟨hnone, hgit⟩ := created_checked htarget hgrant
      obtain ⟨hsearch, -, room, rfl⟩ := Workspace.creat_eq_some.mp h
      rw [admitted_insert_iff hw room hsearch, fresh_ordinary_iff hgit, hnone]
      simp only [ne_eq, not_true_eq_false, false_or]
      exact Iff.rfl
    | opened object =>
      refine iff_of_true ?_ (.inl (opened_present htarget hgrant))
      rw [granting] at h
      split at h
      next hchange =>
        cases h
        obtain ⟨info, hinfo, hreg⟩ := (any_eq_true _ _).mp hchange.2.1
        exact admitted_change hw hinfo hreg 0 none hchange.2.2 _
      next =>
        cases h
        exact hw
  next => cases h

/-! ### All mutations -/

/-- What changes the workspace of a backend: a file call under its own policy, or a
worker's open or `mkdir` under the policy of its process. -/
inductive Mutation (b : Backend)
  | call (policy : ManagedPolicy) (request : Call)
  | worker (p : Policy) (shared : p.files = b) (id : Nat) (path : List UInt8) (n : Notification)

variable {b : Backend}

/-- The workspace after a mutation that the executor let through and that succeeded. -/
def Mutation.apply (k : Kernel) (w : Workspace) : Mutation b → Option Workspace
  | .call policy request => (handle b policy w request).toOption.bind (native k b w)
  | .worker p _ id path n => Acquire.worker k p w id path n

def Mutation.Fits (w : Workspace) : Mutation b → Prop
  | .call _ request => request.Fits b w
  | .worker p _ _ path n => n.Fits p w path

theorem Mutation.admitted_iff {k : Kernel} (hw : Admitted b w) {m : Mutation b}
    {next : Workspace} (h : m.apply k w = some next) : Admitted b next ↔ m.Fits w := by
  cases m with
  | call policy request =>
    obtain ⟨args, hargs, hnext⟩ := bind_eq_some_iff.mp h
    have hok : handle b policy w request = .ok args := by
      cases hhandle : handle b policy w request with
      | error error => simp [hhandle, Except.toOption] at hargs
      | ok found => simpa [hhandle, Except.toOption] using hargs
    exact call_admitted_iff hw hok hnext
  | worker p shared id path n =>
    show Admitted b next ↔ n.Fits p w path
    rw [← shared] at hw ⊢
    exact worker_admitted_iff hw h

/-- **Mutations that fit keep a workspace admitted**, however many there are. -/
theorem mutations_admitted (k : Kernel) (hw : ∃ found, inspect b w = .ok found)
    {ms : List (Mutation b)} {last : Workspace}
    (h : (LTS.ofFun (· = w) fun v m => m.apply k v).RunOf (fun v m => m.Fits v) ms last) :
    ∃ found, inspect b last = .ok found := by
  rw [inspect_ok_iff] at hw ⊢
  refine LTS.RunOf.invariant (I := fun _ v => Admitted b v) h ?_ ?_
  · rintro v rfl
    exact hw
  · exact fun ms v m next hv hfits hnext => (m.admitted_iff hv hnext).mpr hfits

open Sample FoldGPT.Files.Sample in
def makesDirectory : Mutation backend := .call policy (.createDirectory "file:///w/d".toList none)

open Sample FoldGPT.Files.Sample in
def makesNested : Mutation backend := .worker processPolicy rfl 1 [100, 47, 101] (.mkdir 0o700)

open Sample FoldGPT.Files.Sample in
/-- A call makes `d`, and a worker makes `d/e` in it. -/
theorem mutations_admitted_nested : ∃ made last, makesDirectory.apply default workspace = some made ∧
    makesNested.apply default made = some last ∧ ∃ found, inspect backend last = .ok found := by
  have hboth : ((makesDirectory.apply default workspace).bind fun made =>
      (makesNested.apply default made).map fun _ => made.entries.length) = some 2 := by
    decide +kernel
  obtain ⟨made, hmade, hnested⟩ := bind_eq_some_iff.mp hboth
  obtain ⟨last, hlast, hlength⟩ := map_eq_some_iff.mp hnested
  have hfits : makesNested.Fits made := by
    intro parts hparts
    have htarget : processPolicy.target [100, 47, 101] = some [['d'], ['e']] := by decide +kernel
    obtain rfl := Option.some.inj (htarget.symm.trans hparts)
    exact .inr ⟨by rw [hlength]; decide, by decide, by decide⟩
  exact ⟨made, last, hmade, hlast, mutations_admitted default workspace_inspected
    (.next (l := makesNested) (.next (l := makesDirectory) (.start rfl) trivial hmade) hfits hlast)⟩

/-- **After a mutation that succeeds** an admitted workspace is admitted again exactly when
the mutation fits. -/
theorem mutation_admitted_iff (k : Kernel) (b : Backend) (w : Workspace)
    (hw : ∃ found, inspect b w = .ok found) (m : Mutation b) (next : Workspace)
    (h : m.apply k w = some next) : (∃ found, inspect b next = .ok found) ↔ m.Fits w := by
  rw [inspect_ok_iff] at hw ⊢
  exact Mutation.admitted_iff hw h

open Sample FoldGPT.Files.Sample in
/-- A worker's `mkdir` of `d` with permission bits `0700` keeps the workspace admitted. -/
theorem mutation_admitted_mkdir :
    ∃ next, (Mutation.worker processPolicy rfl 1 [100] (.mkdir 0o700) : Mutation backend).apply
        default workspace = some next ∧ ∃ found, inspect backend next = .ok found := by
  obtain ⟨next, hnext⟩ := isSome_iff_exists.mp
    (show ((Mutation.worker processPolicy rfl 1 [100] (.mkdir 0o700) : Mutation backend).apply
      default workspace).isSome = true by decide +kernel)
  refine ⟨next, hnext, (mutation_admitted_iff default backend workspace workspace_inspected _ next
    hnext).mpr fun parts hparts => .inr ⟨by decide, ?_, by decide⟩⟩
  have htarget : processPolicy.target [100] = some [['d']] := by decide +kernel
  rw [← Option.some.inj (htarget.symm.trans hparts)]
  decide

open Sample FoldGPT.Files.Sample in
/-- A worker's `mkdir` without permission bits leaves a workspace that is refused. -/
theorem unreadable_directory_refused :
    (∃ found, inspect backend workspace = .ok found) ∧
      ∃ next, (Mutation.worker processPolicy rfl 1 [100] (.mkdir 0) : Mutation backend).apply
        default workspace = some next ∧ ¬∃ found, inspect backend next = .ok found := by
  refine ⟨workspace_inspected, ?_⟩
  have hrefused : ((Mutation.worker processPolicy rfl 1 [100] (.mkdir 0) : Mutation backend).apply
      default workspace).any (fun next => !(inspect backend next).isOk) = true := by decide +kernel
  obtain ⟨next, hnext, hbad⟩ := (any_eq_true _ _).mp hrefused
  refine ⟨next, hnext, ?_⟩
  rintro ⟨found, hfound⟩
  rw [hfound] at hbad
  cases hbad

end FoldGPT.Acquire
