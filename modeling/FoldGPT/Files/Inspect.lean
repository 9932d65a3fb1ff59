import FoldGPT.Json
import FoldGPT.Files.Workspace
import Mathlib.Data.List.Nodup
import Mathlib.Data.List.Perm.Subperm

/-!
# The admission of a workspace

`NativeFilesBackend._inspect` walks the whole tree with a stack of directories
before every operation. It refuses foreign owners, special files, hard links,
gitdir files, unreadable directories, too many entries and too deep a tree, and
returns what it saw: the metadata directories, the directories, the number of
entries, and every object.
-/

namespace FoldGPT.Files

open FoldGPT.Lib FoldGPT.Lib.Url List Option

def MAX_DATA : Nat := 16 * 1024 * 1024
def MAX_ENTRIES : Nat := 100000
def MAX_DEPTH : Nat := 64

/-- What the backend and the policies raise. -/
inductive Failure
  | value (message : String)
  | permission (message : String)
  | policy (error : PolicyError)
  | key
  | unicode
  | rpc (error : RpcError)

/-- The guest path of the workspace root: read by `from_absolute`, and not `/`. -/
structure Mount where
  guest : GuestPath
  ne : guest.parts ≠ []
  clean : guest.Clean

/-- `NativeFilesBackend.__init__`, as far as the mount goes. -/
def Mount.ofWorkspace (guestWorkspace : List Char) : Except Failure Mount :=
  match h : GuestPath.fromAbsolute guestWorkspace "path" with
  | .error error => .error (.policy error)
  | .ok guest =>
    if ne : guest.parts ≠ [] then .ok ⟨guest, ne, fromAbsolute_clean h⟩
    else .error (.value "A dedicated guest workspace is required")

/-- What stays fixed over a backend's life. -/
structure Backend where
  mount : Mount
  rules : NetlocRules
  /-- `os.getuid()`. -/
  uid : Nat

/-- `_guest`. -/
def Backend.guest (b : Backend) (parts : Path) : GuestPath := b.mount.guest.append parts

/-- What `_inspect` collects. -/
structure Found where
  metadata : List GuestPath
  directories : Dict Path Info
  count : Nat
  nodes : Dict Path Info

/-- An element of the stack: the open directory, its path and its depth. -/
structure Pending where
  directory : Info
  parts : Path
  depth : Nat

/-- `os.listdir(directory)` with what opening each name shows. -/
def Workspace.listdir (w : Workspace) (parts : Path) : List (Name × Info) :=
  (w.entries.filter fun e => e.1.dropLast = parts).map fun e => (e.1.getLastD [], e.2)

def denied : Failure := .permission "[Errno 13] Permission denied"

/-- `name in (".git", ".agents")`. -/
def isMetadataName (name : Name) : Bool := name = dotGit || name = dotAgents

/-- The assignments of the loop body of `_inspect`. -/
def Found.add (b : Backend) (found : Found) (path : Path) (name : Name) (info : Info) : Found where
  metadata :=
    if isMetadataName name && info.isDir then found.metadata ++ [b.guest path] else found.metadata
  directories := if info.isDir then found.directories.set path info else found.directories
  count := found.count + 1
  nodes := found.nodes.set path info

/-- The loop body of `_inspect`, for one name of the directory on top. -/
def visit (b : Backend) (top : Pending) (name : Name) (info : Info) (found : Found)
    (pending : List Pending) : Except Failure (Found × List Pending) := do
  require (found.count + 1 ≤ MAX_ENTRIES) (.value "Workspace exceeds admission limit")
  require top.directory.searchable denied
  require (info.uid = b.uid && (info.isReg || info.isDir) && !(info.isReg && info.nlink != 1))
    (.value "Workspace contains an unsupported alias, owner or file kind")
  require (!(name = dotGit && info.isReg))
    (.value "gitdir worktrees require the native alias resolver")
  require (!info.isDir || info.readable) denied
  pure (found.add b (top.parts ++ [name]) name info,
    if info.isDir then ⟨info, top.parts ++ [name], top.depth + 1⟩ :: pending else pending)

def visitAll (b : Backend) (top : Pending) :
    List (Name × Info) → Found → List Pending → Except Failure (Found × List Pending)
  | [], found, pending => .ok (found, pending)
  | (name, info) :: rest, found, pending => do
    let state ← visit b top name info found pending
    visitAll b top rest state.1 state.2

/-- The loop `while pending` of `_inspect`. The fuel bounds the directories; a tree
has fewer than it has nodes, so it never runs out (`inspect_ok_iff`). -/
def inspectLoop (b : Backend) (w : Workspace) :
    Nat → Found → List Pending → Except Failure Found
  | _, found, [] => .ok found
  | 0, _, _ :: _ => .error (.value "fuel")
  | fuel + 1, found, top :: pending => do
    require (top.depth ≤ MAX_DEPTH) (.value "Workspace depth exceeds admission limit")
    let state ← visitAll b top (w.listdir top.parts) found pending
    inspectLoop b w fuel state.1 state.2

/-- `_inspect`. -/
def inspect (b : Backend) (w : Workspace) : Except Failure Found :=
  inspectLoop b w (w.entries.length + 1)
    { metadata := [], directories := [([], w.root)], count := 0, nodes := [([], w.root)] }
    [⟨w.root, [], 0⟩]

/-- What `_inspect` asks of one object, its directory searched. -/
structure Ordinary (b : Backend) (path : Path) (info : Info) : Prop where
  owner : info.uid = b.uid
  kind : info.isReg ∨ info.isDir
  single : info.isReg → info.nlink = 1
  gitdir : info.isReg → path.getLastD [] ≠ dotGit
  depth : info.isDir → path.length ≤ MAX_DEPTH
  readable : info.isDir → info.readable

/-- **The workspaces that are admitted**, said of the tree alone. -/
structure Admitted (b : Backend) (w : Workspace) : Prop where
  count : w.entries.length ≤ MAX_ENTRIES
  ordinary : ∀ e ∈ w.entries, Ordinary b e.1 e.2
  searchable : ∀ e ∈ w.entries, ∀ info, w.get e.1.dropLast = some info → info.searchable

/-- The metadata directories among some objects. -/
def metadataOf (b : Backend) (rows : List (Path × Info)) : List GuestPath :=
  (rows.filter fun e => isMetadataName (e.1.getLastD []) && e.2.isDir).map fun e => b.guest e.1

/-- What `inspect` returns for a workspace. -/
structure Inspected (b : Backend) (w : Workspace) (found : Found) : Prop where
  nodes : found.nodes.Perm w.nodes
  directories : found.directories.Perm (w.nodes.filter (·.2.isDir))
  count : found.count = w.entries.length
  metadata : found.metadata.Perm (metadataOf b w.entries)

/-! ### One directory -/

/-- The checks of the loop body, the limit apart. -/
def passes (b : Backend) (directory : Info) (name : Name) (info : Info) : Bool :=
  directory.searchable &&
    (info.uid = b.uid && (info.isReg || info.isDir) && !(info.isReg && info.nlink != 1)) &&
    !(name = dotGit && info.isReg) && (!info.isDir || info.readable)

variable {b : Backend} {top : Pending} {info : Info} {found : Found} {pending : List Pending}

theorem visit_ok_iff {name : Name} {state : Found × List Pending} :
    visit b top name info found pending = .ok state ↔
      found.count + 1 ≤ MAX_ENTRIES ∧ passes b top.directory name info ∧
        (found.add b (top.parts ++ [name]) name info,
          if info.isDir then ⟨info, top.parts ++ [name], top.depth + 1⟩ :: pending
          else pending) = state := by
  simp only [visit, passes, bind_eq_ok, require_eq_ok, pure_eq_ok, exists_const,
    decide_eq_true_eq, Bool.and_eq_true, and_assoc]

/-- The paths and attributes a listing of `parts` shows. -/
def rows (parts : Path) (listing : List (Name × Info)) : List (Path × Info) :=
  listing.map fun e => (parts ++ [e.1], e.2)

/-- What was found, with all objects of one directory. -/
def Found.extend (b : Backend) (found : Found) (rows : List (Path × Info)) : Found where
  metadata := found.metadata ++ metadataOf b rows
  directories := found.directories ++ rows.filter (·.2.isDir)
  count := found.count + rows.length
  nodes := found.nodes ++ rows

/-- The directories pushed for one listing. -/
def pushed (top : Pending) (listing : List (Name × Info)) : List Pending :=
  (listing.filter (·.2.isDir)).map fun e => ⟨e.2, top.parts ++ [e.1], top.depth + 1⟩

theorem Found.add_eq_extend (b : Backend) {parts : Path} {name : Name}
    (hnodes : parts ++ [name] ∉ found.nodes.keys)
    (hdirs : parts ++ [name] ∉ found.directories.keys) :
    found.add b (parts ++ [name]) name info = found.extend b [(parts ++ [name], info)] := by
  cases hdir : info.isDir <;> cases hmeta : isMetadataName name <;>
    simp [Found.add, Found.extend, metadataOf, hdir, hmeta, Dict.set_of_not_mem _ hnodes,
      Dict.set_of_not_mem _ hdirs]

theorem Found.extend_extend (b : Backend) (found : Found) (r s : List (Path × Info)) :
    (found.extend b r).extend b s = found.extend b (r ++ s) := by
  simp [Found.extend, metadataOf, Nat.add_assoc]

/-- The keys a listing adds are new. -/
def Fresh (found : Found) (rows : List (Path × Info)) : Prop :=
  ∀ e ∈ rows, e.1 ∉ found.nodes.keys ∧ e.1 ∉ found.directories.keys

/-- **What one directory contributes**: it passes when all its objects do and the
limit allows them, and then all of them are recorded and its directories pushed. -/
theorem visitAll_ok_iff {listing : List (Name × Info)} {state : Found × List Pending}
    (hcount : found.count ≤ MAX_ENTRIES) (hfresh : Fresh found (rows top.parts listing))
    (hnodup : (listing.map Prod.fst).Nodup) :
    visitAll b top listing found pending = .ok state ↔
      found.count + listing.length ≤ MAX_ENTRIES ∧
        (∀ e ∈ listing, passes b top.directory e.1 e.2) ∧
        state = (found.extend b (rows top.parts listing),
          (pushed top listing).reverse ++ pending) := by
  induction listing generalizing found pending with
  | nil =>
    have hnothing : (found.extend b (rows top.parts []), (pushed top []).reverse ++ pending) =
        (found, pending) := by simp [rows, pushed, Found.extend, metadataOf]
    rw [hnothing, visitAll, Except.ok.injEq, @eq_comm _ state]
    simpa using fun _ => hcount
  | cons e listing ih =>
    obtain ⟨name, info⟩ := e
    obtain ⟨hname, hrest⟩ := nodup_cons.mp hnodup
    obtain ⟨hnodes, hdirs⟩ := hfresh (top.parts ++ [name], info) mem_cons_self
    have hfresh' : Fresh (found.extend b [(top.parts ++ [name], info)])
        (rows top.parts listing) := by
      intro e he
      obtain ⟨entry, hentry, rfl⟩ := List.mem_map.mp he
      have hne : entry.1 ≠ name := by
        rintro rfl
        exact hname (List.mem_map.mpr ⟨entry, hentry, rfl⟩)
      have hold := hfresh _ (mem_cons_of_mem _ he)
      constructor
      · simpa [Found.extend, Dict.keys, hne] using hold.1
      · cases hdir : info.isDir <;> simpa [Found.extend, Dict.keys, hdir, hne] using hold.2
    simp only [visitAll, bind_eq_ok, visit_ok_iff, Found.add_eq_extend b hnodes hdirs]
    constructor
    · rintro ⟨_, ⟨hlimit, hpass, rfl⟩, hvisit⟩
      obtain ⟨hlength, hall, hstate⟩ := (ih hlimit hfresh' hrest).mp hvisit
      refine ⟨?_, ?_, ?_⟩
      · simp only [Found.extend, length_cons, length_nil] at hlength ⊢
        omega
      · exact fun e he => (mem_cons.mp he).elim (fun h => h ▸ hpass) (hall e)
      · rw [hstate, Found.extend_extend]
        cases hdir : info.isDir <;> simp [rows, pushed, hdir]
    · rintro ⟨hlength, hall, rfl⟩
      have hlimit : found.count + 1 ≤ MAX_ENTRIES := by
        rw [length_cons] at hlength
        omega
      refine ⟨_, ⟨hlimit, hall _ mem_cons_self, rfl⟩, ?_⟩
      rw [ih hlimit hfresh' hrest]
      refine ⟨?_, fun e he => hall e (mem_cons_of_mem _ he), ?_⟩
      · simp only [Found.extend, length_cons, length_nil] at hlength ⊢
        omega
      · rw [Found.extend_extend]
        cases hdir : info.isDir <;> simp [rows, pushed, hdir]

/-! ### Listings of a workspace -/

theorem dropLast_append_getLastD {path : Path} (h : path ≠ []) :
    path.dropLast ++ [path.getLastD []] = path := by
  rw [List.getLastD_eq_getLast?, List.getLast?_eq_some_getLast h, getD_some]
  exact dropLast_concat_getLast h

theorem rows_listdir (w : Workspace) (parts : Path) :
    rows parts (w.listdir parts) = w.entries.filter fun e => e.1.dropLast = parts := by
  rw [rows, Workspace.listdir, List.map_map]
  refine (map_congr_left fun e he => ?_).trans (List.map_id _)
  obtain ⟨hmem, hparts⟩ := mem_filter.mp he
  have hparts : e.1.dropLast = parts := by simpa using hparts
  rw [Function.comp_apply, ← hparts, dropLast_append_getLastD (w.proper e hmem).1]
  rfl

theorem length_listdir (w : Workspace) (parts : Path) :
    (w.listdir parts).length = (w.entries.filter fun e => e.1.dropLast = parts).length := by
  rw [Workspace.listdir, length_map]

theorem nodup_listdir (w : Workspace) (parts : Path) : ((w.listdir parts).map Prod.fst).Nodup := by
  have hrows : ((rows parts (w.listdir parts)).map Prod.fst).Nodup := by
    rw [rows_listdir]
    exact w.nodup.sublist (filter_sublist.map Prod.fst)
  have hmap : (rows parts (w.listdir parts)).map Prod.fst =
      ((w.listdir parts).map Prod.fst).map fun name => parts ++ [name] := by
    simp [rows]
  rw [hmap] at hrows
  exact hrows.of_map

/-- The checks of the loop body for an object of the tree. -/
def Checked (b : Backend) (w : Workspace) (e : Path × Info) : Prop :=
  ∃ directory, w.get e.1.dropLast = some directory ∧ passes b directory (e.1.getLastD []) e.2

variable {w : Workspace}

theorem forall_passes_iff (htop : w.get top.parts = some top.directory) :
    (∀ e ∈ w.listdir top.parts, passes b top.directory e.1 e.2) ↔
      ∀ e ∈ w.entries.filter (fun e => e.1.dropLast = top.parts), Checked b w e := by
  have hstep : ∀ e ∈ w.entries.filter (fun e => e.1.dropLast = top.parts),
      (Checked b w e ↔ passes b top.directory (e.1.getLastD []) e.2) := by
    intro e he
    have hparts : e.1.dropLast = top.parts := by simpa using (mem_filter.mp he).2
    simp [Checked, hparts, htop]
  rw [Workspace.listdir, List.forall_mem_map]
  exact forall₂_congr fun e he => (hstep e he).symm

/-! ### The walk -/

/-- The objects whose directories have been visited. -/
def Workspace.below (w : Workspace) (visited : List Path) : List (Path × Info) :=
  w.entries.filter fun e => e.1.dropLast ∈ visited

/-- **The state of the walk** when the directories in `visited` have been listed:
everything in them is recorded and has passed, and the directories among it are
visited or on the stack, each once. -/
structure Walk (b : Backend) (w : Workspace) (visited : List Path) (pending : List Pending)
    (found : Found) : Prop where
  nodes : found.nodes.Perm (([], w.root) :: w.below visited)
  directories : found.directories.Perm ((([], w.root) :: w.below visited).filter (·.2.isDir))
  count : found.count = (w.below visited).length
  metadata : found.metadata.Perm (metadataOf b (w.below visited))
  stack : (pending.map (·.parts) ++ visited).Perm found.directories.keys
  top : ∀ p ∈ pending, w.get p.parts = some p.directory ∧ p.depth = p.parts.length
  limit : found.count ≤ MAX_ENTRIES
  checked : ∀ e ∈ w.below visited, Checked b w e
  depth : ∀ parts ∈ visited, parts.length ≤ MAX_DEPTH

theorem walk_start (b : Backend) (w : Workspace) :
    Walk b w [] [⟨w.root, [], 0⟩]
      { metadata := [], directories := [([], w.root)], count := 0, nodes := [([], w.root)] } where
  nodes := by simp [Workspace.below]
  directories := by simp [Workspace.below, w.root_dir]
  count := by simp [Workspace.below]
  metadata := by simp [Workspace.below, metadataOf]
  stack := by simp [Dict.keys]
  top := by simp
  limit := Nat.zero_le _
  checked := by simp [Workspace.below]
  depth := by simp

theorem below_sublist (w : Workspace) (visited : List Path) :
    (([], w.root) :: w.below visited).Sublist w.nodes := filter_sublist.cons_cons _

variable {visited : List Path}

theorem Walk.top_not_mem (h : Walk b w visited (top :: pending) found) : top.parts ∉ visited := by
  have hkeys : found.directories.keys.Nodup := by
    refine ((h.directories.map Prod.fst).nodup_iff).mpr ?_
    exact w.nodup_nodes.sublist ((filter_sublist.trans (below_sublist w visited)).map _)
  have hstack := (h.stack.nodup_iff).mpr hkeys
  exact fun hmem => (nodup_cons.mp hstack).1 (mem_append_right _ hmem)

theorem filter_or_perm {α : Type} (p q : α → Bool) (l : List α) (h : ∀ x ∈ l, ¬(p x ∧ q x)) :
    (l.filter fun x => p x || q x).Perm (l.filter p ++ l.filter q) := by
  induction l with
  | nil => exact List.Perm.refl _
  | cons x l ih =>
    have hx := h x mem_cons_self
    have ih := ih fun y hy => h y (mem_cons_of_mem x hy)
    cases hp : p x <;> cases hq : q x
    · simpa [hp, hq] using ih
    · simpa [hp, hq] using (ih.cons x).trans perm_middle.symm
    · simpa [hp, hq] using ih
    · exact absurd ⟨hp, hq⟩ hx

theorem below_cons_perm {parts : Path} (h : parts ∉ visited) :
    (w.below (parts :: visited)).Perm (w.below visited ++ rows parts (w.listdir parts)) := by
  rw [rows_listdir, Workspace.below, Workspace.below]
  refine List.Perm.trans ?_ (filter_or_perm _ _ _ ?_)
  · refine List.Perm.of_eq (filter_congr fun e _ => ?_)
    simp [Bool.or_comm]
  · simp only [decide_eq_true_eq, not_and]
    rintro e - hmem rfl
    exact h hmem

theorem metadataOf_append (b : Backend) (r s : List (Path × Info)) :
    metadataOf b (r ++ s) = metadataOf b r ++ metadataOf b s := by simp [metadataOf]

theorem keys_directories_rows (top : Pending) (listing : List (Name × Info)) :
    ((rows top.parts listing).filter (·.2.isDir)).map Prod.fst =
      (pushed top listing).map (·.parts) := by
  simp [rows, pushed, List.filter_map, Function.comp_def]

theorem Walk.fresh (h : Walk b w visited (top :: pending) found) :
    Fresh found (rows top.parts (w.listdir top.parts)) := by
  have hnew : ∀ e ∈ rows top.parts (w.listdir top.parts),
      e.1 ∉ Dict.keys (([], w.root) :: w.below visited) := by
    intro e he hmem
    rw [rows_listdir] at he
    obtain ⟨he, hparts⟩ := mem_filter.mp he
    have hparts : e.1.dropLast = top.parts := by simpa using hparts
    obtain ⟨e', he', heq⟩ := List.mem_map.mp hmem
    rcases mem_cons.mp he' with rfl | he'
    · exact (w.proper e he).1 heq.symm
    · refine h.top_not_mem ?_
      rw [← hparts, ← heq]
      simpa using (mem_filter.mp he').2
  intro e he
  refine ⟨fun hmem => hnew e he ((h.nodes.map Prod.fst).mem_iff.mp hmem), fun hmem => ?_⟩
  have hmem := (h.directories.map Prod.fst).mem_iff.mp hmem
  exact hnew e he ((filter_sublist.map Prod.fst).subset hmem)

theorem Walk.step (h : Walk b w visited (top :: pending) found) (hdepth : top.depth ≤ MAX_DEPTH)
    (hlimit : found.count + (w.listdir top.parts).length ≤ MAX_ENTRIES)
    (hpass : ∀ e ∈ w.listdir top.parts, passes b top.directory e.1 e.2) :
    Walk b w (top.parts :: visited) ((pushed top (w.listdir top.parts)).reverse ++ pending)
      (found.extend b (rows top.parts (w.listdir top.parts))) := by
  obtain ⟨htop, htopDepth⟩ := h.top top mem_cons_self
  have hbelow := below_cons_perm (w := w) h.top_not_mem
  have hrows := rows_listdir w top.parts
  refine ⟨?_, ?_, ?_, ?_, ?_, ?_, ?_, ?_, ?_⟩
  · exact (h.nodes.append_right _).trans (hbelow.cons _).symm
  · refine (h.directories.append_right _).trans ?_
    rw [← filter_append]
    exact ((hbelow.cons ([], w.root)).filter _).symm
  · rw [hbelow.length_eq, length_append, ← h.count]
    rfl
  · refine (h.metadata.append_right _).trans ?_
    rw [← metadataOf_append]
    exact ((hbelow.filter _).map _).symm
  · -- the new directories join the stack, and the top moves to the visited ones
    have hkeys : (found.extend b (rows top.parts (w.listdir top.parts))).directories.keys =
        found.directories.keys ++ (pushed top (w.listdir top.parts)).map (·.parts) := by
      rw [← keys_directories_rows]
      exact map_append
    rw [hkeys]
    refine List.Perm.trans ?_ (h.stack.append_right _)
    simp only [map_append, map_reverse, map_cons, append_assoc,
      cons_append]
    refine ((reverse_perm _).append_right _).trans ?_
    refine perm_append_comm.trans ?_
    simp only [append_assoc, cons_append]
    exact perm_middle
  · intro p hp
    rcases mem_append.mp hp with hp | hp
    · obtain ⟨e, he, rfl⟩ := List.mem_map.mp (mem_reverse.mp hp)
      have hmem : (top.parts ++ [e.1], e.2) ∈ w.entries := by
        have : (top.parts ++ [e.1], e.2) ∈ rows top.parts (w.listdir top.parts) :=
          List.mem_map.mpr ⟨e, (mem_filter.mp he).1, rfl⟩
        rw [hrows] at this
        exact (mem_filter.mp this).1
      refine ⟨Workspace.get_of_mem hmem, ?_⟩
      simp [htopDepth]
    · exact h.top p (mem_cons_of_mem top hp)
  · simpa [Found.extend, rows] using hlimit
  · intro e he
    rcases mem_append.mp (hbelow.mem_iff.mp he) with he | he
    · exact h.checked e he
    · rw [hrows] at he
      exact (forall_passes_iff htop).mp hpass e he
  · intro parts hparts
    rcases mem_cons.mp hparts with rfl | hparts
    · omega
    · exact h.depth parts hparts

theorem Walk.of_loop {fuel : Nat} {final : Found} (h : Walk b w visited pending found)
    (hloop : inspectLoop b w fuel found pending = .ok final) :
    ∃ visited', Walk b w visited' [] final := by
  induction fuel generalizing visited pending found with
  | zero =>
    cases pending with
    | nil =>
      cases hloop
      exact ⟨visited, h⟩
    | cons top pending => cases hloop
  | succ fuel ih =>
    cases pending with
    | nil =>
      cases hloop
      exact ⟨visited, h⟩
    | cons top pending =>
      simp only [inspectLoop, bind_eq_ok, require_eq_ok, exists_const, decide_eq_true_eq] at hloop
      obtain ⟨hdepth, state, hvisit, hloop⟩ := hloop
      obtain ⟨hlimit, hpass, rfl⟩ :=
        (visitAll_ok_iff h.limit h.fresh (nodup_listdir w _)).mp hvisit
      exact ih (h.step hdepth hlimit hpass) hloop

/-- A finished walk has seen every directory, by induction on its depth. -/
theorem Walk.visited_of_isDirectory (h : Walk b w visited [] found) {path : Path}
    (hdir : w.isDirectory path) :
    path ∈ visited := by
  have hkeys : ∀ e ∈ ([], w.root) :: w.below visited, e.2.isDir → e.1 ∈ visited := by
    intro e he hinfo
    have hmem : e.1 ∈ found.directories.keys :=
      (h.directories.map Prod.fst).mem_iff.mpr
        (List.mem_map_of_mem (mem_filter.mpr ⟨he, hinfo⟩))
    exact h.stack.mem_iff.mpr hmem
  induction path using List.reverseRecOn with
  | nil => exact hkeys ([], w.root) mem_cons_self w.root_dir
  | append_singleton path name ih =>
    obtain ⟨info, hget, hinfo⟩ := Workspace.isDirectory_iff.mp hdir
    have hmem := Workspace.mem_of_get (by simp) hget
    have hparent : w.isDirectory path := by
      have := Workspace.isDirectory_parent hmem
      rwa [dropLast_concat] at this
    refine hkeys (path ++ [name], info) (mem_cons_of_mem _ ?_) hinfo
    exact mem_filter.mpr ⟨hmem, by simpa using ih hparent⟩

theorem Walk.below_eq (h : Walk b w visited [] found) : w.below visited = w.entries := by
  refine filter_eq_self.mpr fun e he => ?_
  simpa using h.visited_of_isDirectory (Workspace.isDirectory_parent he)

theorem passes_iff {directory : Info} {name : Name} :
    passes b directory name info ↔ directory.searchable ∧ info.uid = b.uid ∧
      (info.isReg ∨ info.isDir) ∧ (info.isReg → info.nlink = 1) ∧
      (info.isReg → name ≠ dotGit) ∧ (info.isDir → info.readable) := by
  cases hreg : info.isReg <;> cases hdir : info.isDir <;> simp [passes, hreg, hdir, and_assoc]

theorem Walk.finished (h : Walk b w visited [] found) : Admitted b w ∧ Inspected b w found := by
  have hbelow := h.below_eq
  have hchecked := h.checked
  rw [hbelow] at hchecked
  refine ⟨⟨?_, ?_, ?_⟩, ?_⟩
  · rw [← hbelow, ← h.count]
    exact h.limit
  · intro e he
    obtain ⟨directory, -, hpass⟩ := hchecked e he
    obtain ⟨-, howner, hkind, hsingle, hgit, hreadable⟩ := passes_iff.mp hpass
    refine ⟨howner, hkind, hsingle, hgit, fun hdir => ?_, hreadable⟩
    exact h.depth e.1 (h.visited_of_isDirectory
      (Workspace.isDirectory_iff.mpr ⟨e.2, Workspace.get_of_mem he, hdir⟩))
  · intro e he info hinfo
    obtain ⟨directory, hdirectory, hpass⟩ := hchecked e he
    rw [hinfo] at hdirectory
    cases hdirectory
    exact (passes_iff.mp hpass).1
  · refine ⟨?_, ?_, ?_, ?_⟩
    · have hnodes := h.nodes
      rwa [hbelow] at hnodes
    · have hdirectories := h.directories
      rwa [hbelow] at hdirectories
    · rw [h.count, hbelow]
    · have hmetadata := h.metadata
      rwa [hbelow] at hmetadata

/-- **What `inspect` returns is the workspace**, and the workspace is admitted. -/
theorem inspect_spec (h : inspect b w = .ok found) : Admitted b w ∧ Inspected b w found := by
  obtain ⟨visited, hwalk⟩ := (walk_start b w).of_loop h
  exact hwalk.finished

theorem Walk.visited_length (h : Walk b w visited (top :: pending) found) :
    visited.length ≤ w.entries.length := by
  have hle : found.directories.length ≤ w.nodes.length := by
    rw [h.directories.length_eq]
    exact (filter_sublist.trans (below_sublist w visited)).length_le
  have hstack := h.stack.length_eq
  rw [Dict.keys, length_append, length_map, length_map, length_cons] at hstack
  rw [Workspace.nodes, length_cons] at hle
  omega

theorem Admitted.loop (hw : Admitted b w) {fuel : Nat} (h : Walk b w visited pending found)
    (hfuel : w.entries.length + 1 ≤ fuel + visited.length) :
    ∃ final, inspectLoop b w fuel found pending = .ok final := by
  induction fuel generalizing visited pending found with
  | zero =>
    cases pending with
    | nil => exact ⟨found, rfl⟩
    | cons top pending =>
      have := h.visited_length
      omega
  | succ fuel ih =>
    cases pending with
    | nil => exact ⟨found, rfl⟩
    | cons top pending =>
      obtain ⟨htop, htopDepth⟩ := h.top top mem_cons_self
      have hdepth : top.depth ≤ MAX_DEPTH := by
        rw [htopDepth]
        by_cases hnil : top.parts = []
        · simp [hnil]
        · have hdir : top.directory.isDir := by
            have hmem : top.parts ∈ found.directories.keys :=
              h.stack.mem_iff.mp (by simp)
            obtain ⟨e, he, heq⟩ := List.mem_map.mp ((h.directories.map Prod.fst).mem_iff.mp hmem)
            obtain ⟨he, hinfo⟩ := mem_filter.mp he
            have hget := Workspace.get_eq_some.mpr ((below_sublist w visited).subset he)
            rw [heq, htop, Option.some.injEq] at hget
            rwa [hget]
          exact (hw.ordinary _ (Workspace.mem_of_get hnil htop)).depth hdir
      have hlimit : found.count + (w.listdir top.parts).length ≤ MAX_ENTRIES := by
        have hperm := (below_cons_perm (w := w) h.top_not_mem).length_eq
        have hle := (below_sublist w (top.parts :: visited)).length_le
        rw [length_append, rows_listdir, ← length_listdir, ← h.count] at hperm
        simp only [Workspace.nodes, length_cons] at hle
        have := hw.count
        omega
      have hpass : ∀ e ∈ w.listdir top.parts, passes b top.directory e.1 e.2 := by
        rw [forall_passes_iff htop]
        intro e he
        obtain ⟨hmem, hparts⟩ := mem_filter.mp he
        have hparts : e.1.dropLast = top.parts := by simpa using hparts
        have hord := hw.ordinary e hmem
        refine ⟨top.directory, by rw [hparts, htop], passes_iff.mpr ⟨?_, hord.owner, hord.kind,
          hord.single, hord.gitdir, hord.readable⟩⟩
        exact hw.searchable e hmem top.directory (by rw [hparts, htop])
      obtain ⟨final, hfinal⟩ := ih (h.step hdepth hlimit hpass) (by
        rw [length_cons]
        omega)
      refine ⟨final, ?_⟩
      simp only [inspectLoop, bind_eq_ok, require_eq_ok, exists_const, decide_eq_true_eq]
      refine ⟨hdepth, (_, _), ?_, hfinal⟩
      exact (visitAll_ok_iff h.limit h.fresh (nodup_listdir w _)).mpr ⟨hlimit, hpass, rfl⟩

/-- **`inspect` returns for exactly the admitted workspaces.** -/
theorem inspect_ok_iff : (∃ found, inspect b w = .ok found) ↔ Admitted b w := by
  constructor
  · rintro ⟨found, h⟩
    exact (inspect_spec h).1
  · exact fun hw => hw.loop (walk_start b w) (by simp)

/-! ### Reading what was found -/

theorem Inspected.get_nodes
    (h : Inspected b w found) (path : Path) : found.nodes.get path = w.get path :=
  Dict.get_of_perm h.nodes w.nodup_nodes path

theorem Inspected.get_directories (h : Inspected b w found) {path : Path} :
    found.directories.get path = some info ↔ w.get path = some info ∧ info.isDir := by
  have hkeys : Dict.keys (w.nodes.filter (·.2.isDir)) |>.Nodup :=
    w.nodup_nodes.sublist (filter_sublist.map Prod.fst)
  rw [Dict.get_of_perm h.directories hkeys, Dict.get_eq_some hkeys, mem_filter,
    Workspace.get_eq_some]

theorem Inspected.get_directories_eq (h : Inspected b w found) (path : Path) :
    found.directories.get path = (w.get path).filter Info.isDir := by
  refine ext fun info => ?_
  rw [h.get_directories, filter_eq_some_iff]

theorem Inspected.isSome_directories (h : Inspected b w found) (path : Path) :
    (found.directories.get path).isSome = w.isDirectory path := by
  rw [Bool.eq_iff_iff, isSome_iff_exists, Workspace.isDirectory_iff]
  exact exists_congr fun info => h.get_directories

theorem mem_metadataOf {rows : List (Path × Info)} {root : GuestPath} :
    root ∈ metadataOf b rows ↔
      ∃ e ∈ rows, isMetadataName (e.1.getLastD []) ∧ e.2.isDir ∧ b.guest e.1 = root := by
  simp only [metadataOf, List.mem_map, mem_filter, Bool.and_eq_true, and_assoc]

end FoldGPT.Files
