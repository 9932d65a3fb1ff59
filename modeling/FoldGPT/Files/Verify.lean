import FoldGPT.Files.Plan
import FoldGPT.Lib.PathTree

/-!
# The tree the helper finds

Before a planned operation the helper walks the whole tree below the workspace root
with `verify_tree` and compares every object with the record the plan has for its
path. Names come from `readdir`, so they are any bytes without a slash; the plan is
any that `read_plan` accepts. Mount points below the root, which `openat2` does not
cross, and a `readdir` that fails are left out.

Main results: `verify_exact`, `shut_unverified`.
-/

namespace FoldGPT.Files.Helper

open FoldGPT.Lib FoldGPT.Lib.Encoding List Option

/-! ### Trees -/

/-- What `fstat` shows of an object, as the helper compares it. -/
structure Attributes where
  device : Nat
  inode : Nat
  mode : Nat
  owner : Nat
  links : Nat
  size : Nat
  mtime : Int
  mns : Nat
  ctime : Int
  cns : Nat
  deriving DecidableEq, Repr

namespace Attributes

def isDir (a : Attributes) : Bool := isDirMode a.mode
def isReg (a : Attributes) : Bool := isRegMode a.mode

/-- The owner's permission to list a directory. -/
def readable (a : Attributes) : Bool := a.mode &&& 0o400 != 0
/-- The owner's permission to look a name up in a directory. -/
def searchable (a : Attributes) : Bool := a.mode &&& 0o100 != 0

end Attributes

abbrev FileName := { name : Bytes // ProperName name }

/-- The tree below the workspace root. -/
abbrev Tree := PathTree FileName Attributes Attributes.isDir

/-! ### Texts -/

/-- The text of a path relative to the root. -/
def textOf (path : List FileName) : Bytes := joined (path.map Subtype.val)

/-- `snprintf(child, ..., "%s/%s", path, item->d_name)`, without the root. -/
def childText (path name : Bytes) : Bytes := if path = [46] then name else path ++ 47 :: name

/-- The components `openat2` finds in a text. -/
def resolve (text : Bytes) : Option (List FileName) :=
  if text = [46] then some []
  else (text.splitOn 47).mapM fun part => if h : ProperName part then some ⟨part, h⟩ else none

variable {path : List FileName} {name : FileName}

theorem fileNames (path : List FileName) : ∀ part ∈ path.map Subtype.val, ProperName part := by
  intro part hpart
  obtain ⟨name, -, rfl⟩ := List.mem_map.mp hpart
  exact name.property

theorem textOf_ne_dot (hne : path ≠ []) : textOf path ≠ [46] :=
  fun htext => hne (map_eq_nil_iff.mp (eq_nil_of_joined (fileNames path) htext))

theorem textOf_injective {p q : List FileName} (h : textOf p = textOf q) : p = q :=
  map_injective_iff.mpr Subtype.val_injective (joined_injective (fileNames p) (fileNames q) h)

theorem textOf_append {p q : List FileName} (hp : p ≠ []) (hq : q ≠ []) :
    textOf (p ++ q) = textOf p ++ 47 :: textOf q := by
  rw [textOf, map_append, joined_append (mt map_eq_nil_iff.mp hp) (mt map_eq_nil_iff.mp hq)]
  rfl

theorem textOf_concat (path : List FileName) (name : FileName) :
    textOf (path ++ [name]) = childText (textOf path) name.val := by
  have hname : textOf [name] = name.val := by simp [textOf, joined]
  by_cases hne : path = []
  · rw [hne, nil_append, hname]
    rfl
  · rw [childText, if_neg (textOf_ne_dot hne), textOf_append hne (cons_ne_nil _ _), hname]

theorem resolve_textOf (path : List FileName) : resolve (textOf path) = some path := by
  by_cases hne : path = []
  · rw [hne]
    rfl
  · rw [resolve, if_neg (textOf_ne_dot hne), textOf,
      splitOn_joined (mt map_eq_nil_iff.mp hne) (fileNames path)]
    clear hne
    induction path with
    | nil => rfl
    | cons name path ih =>
      rw [map_cons, mapM_cons, dif_pos name.property, ih]
      rfl

/-! ### Looking objects up -/

/-- Every directory on the way can be searched; the way to the root is the root. -/
def reaches (t : Tree) (path : List FileName) : Bool :=
  (List.range (max 1 path.length)).all fun n =>
    (t.get (path.take n)).any fun a => a.isDir && a.searchable

/-- `open_beneath(root, path, O_PATH | O_NOFOLLOW)` and `fstat`. -/
def find (t : Tree) (text : Bytes) : Option Attributes :=
  match resolve text with
  | none => none
  | some path => if reaches t path then t.get path else none

/-- `open_beneath(root, path, O_RDONLY | O_DIRECTORY | O_NOFOLLOW)` and `fstat`. -/
def openDirectory (t : Tree) (text : Bytes) : Option Attributes :=
  match find t text with
  | none => none
  | some a => if a.isDir && a.readable then some a else none

/-- The names `readdir` returns, `.` and `..` skipped. -/
def readdir (t : Tree) (text : Bytes) : List FileName :=
  match resolve text with
  | none => []
  | some path => t.listing path

theorem find_textOf (t : Tree) (path : List FileName) :
    find t (textOf path) = if reaches t path then t.get path else none := by
  rw [find, resolve_textOf]

/-! ### The traversal -/

/-- Why `verify_tree` gave up. -/
inductive Refusal
  | e2big
  | failed
  | estale
  | enametoolong
  deriving DecidableEq, Repr

/-- `same_node`. -/
def sameNode (uid : Nat) (a : Attributes) (expected : Node) (full : Bool) : Bool :=
  a.owner = uid && a.device = expected.device && a.inode = expected.inode &&
    a.mode = expected.mode && (!a.isReg || a.links = 1) &&
    (!full || (a.size = expected.size && a.mtime = expected.mtime && a.mns = expected.mns &&
      a.ctime = expected.ctime && a.cns = expected.cns))

/-- The loop over `readdir`. -/
def verifyEach (step : Bytes → Nat → Except Refusal Nat) (path : Bytes) :
    List FileName → Nat → Except Refusal Nat
  | [], seen => .ok seen
  | name :: rest, seen =>
    if (childText path name.val).length < pathMax then
      match step (childText path name.val) seen with
      | .error refusal => .error refusal
      | .ok seen => verifyEach step path rest seen
    else .error .enametoolong

/-- `verify_tree`. The first number is `MAX_DEPTH + 2 - depth`, so it is 0 beyond the
greatest depth of an object and 1 beyond that of a directory. -/
def verifyTree (uid : Nat) (t : Tree) (plan : List Node) : Nat → Bytes → Nat → Except Refusal Nat
  | 0, _, _ => .error .e2big
  | left + 1, path, seen =>
    if MAX_ENTRIES + 1 < seen + 1 then .error .e2big
    else match find t path, findNode plan path with
      | none, _ => .error .failed
      | some _, none => .error .estale
      | some found, some expected =>
        if sameNode uid found expected true = false then .error .estale
        else if isDirMode expected.mode = false then .ok (seen + 1)
        else if left = 0 then .error .e2big
        else match openDirectory t path with
          | none => .error .failed
          | some directory =>
            if sameNode uid directory expected true = false then .error .estale
            else verifyEach (verifyTree uid t plan left) path (readdir t path) (seen + 1)

/-- `verify_tree(root, &plan, ".", 0, &seen)` and the count, as `planned_operation`
asks for them. -/
def verified (uid : Nat) (t : Tree) (plan : List Node) : Prop :=
  verifyTree uid t plan (MAX_DEPTH + 2) [46] 0 = .ok plan.length

instance (uid : Nat) (t : Tree) (plan : List Node) : Decidable (verified uid t plan) :=
  inferInstanceAs (Decidable (_ = _))

/-! ### Accepted plans -/

variable {item : Node}

theorem node_spec {previous : Option Node} {parts : List Bytes}
    (h : node previous parts = some item) :
    (validRelative item.path = true ∨ item.path = [46]) ∧
      (∀ before, previous = some before → before.path < item.path) ∧
      (isDirMode item.mode = true ∨ isRegMode item.mode = true) := by
  unfold node at h
  split at h
  · simp only [bind_eq_bind, bind_eq_some_iff, guard_eq_some'] at h
    obtain ⟨-, hpath, -, hprevious, _, -, _, -, _, -, _, -, _, -, _, -, _, -, _, -, -, hkind, heq⟩ :=
      h
    cases heq
    refine ⟨?_, ?_, ?_⟩
    · simpa using hpath
    · intro before hbefore
      rw [hbefore] at hprevious
      simpa using hprevious
    · simp only [Bool.and_eq_true, Bool.or_eq_true] at hkind
      exact hkind.2
  · cases h

/-- The record has a path that fits, and a kind the helper knows. -/
structure Accepted (item : Node) : Prop where
  path : validRelative item.path = true ∨ item.path = [46]
  kind : isDirMode item.mode = true ∨ isRegMode item.mode = true

theorem increasing_concat {plan : List Node} (h : Increasing Node.path plan)
    (hlast : ∀ before, plan.getLast? = some before → before.path < item.path) :
    Increasing Node.path (plan ++ [item]) := by
  refine pairwise_append.mpr ⟨h, pairwise_singleton _ _, ?_⟩
  intro before hbefore after hafter
  obtain rfl := mem_singleton.mp hafter
  obtain ⟨front, last, rfl⟩ : ∃ front last, plan = front ++ [last] :=
    ⟨_, _, (dropLast_append_getLast (ne_nil_of_mem hbefore)).symm⟩
  have hend := hlast last List.getLast?_concat
  rcases mem_append.mp hbefore with hfront | hsame
  · have hless := (pairwise_append.mp h).2.2 before hfront last (mem_singleton_self _)
    exact List.lt_trans hless hend
  · rw [mem_singleton.mp hsame]
    exact hend

theorem readNodes_spec {room : Nat} {before plan : List Node} {data : Bytes}
    (h : readNodes room before data = .ok plan) (hsorted : Increasing Node.path before)
    (haccepted : ∀ item ∈ before, Accepted item) :
    Increasing Node.path plan ∧ plan.length ≤ before.length + room ∧
      ∀ item ∈ plan, Accepted item := by
  induction room generalizing before data with
  | zero =>
    cases data with
    | nil =>
      cases h
      exact ⟨hsorted, Nat.le_refl _, haccepted⟩
    | cons byte data => cases h
  | succ room ih =>
    cases data with
    | nil =>
      cases h
      exact ⟨hsorted, Nat.le_add_right _ _, haccepted⟩
    | cons byte data =>
      rw [readNodes] at h
      split at h
      · cases h
      · split at h
        · cases h
        next parts rest _ item hitem =>
          obtain ⟨hpath, hprevious, hkind⟩ := node_spec hitem
          have hitems : ∀ other ∈ before ++ [item], Accepted other := by
            intro other hother
            rcases mem_append.mp hother with hold | hnew
            · exact haccepted other hold
            · rw [mem_singleton.mp hnew]
              exact ⟨hpath, hkind⟩
          obtain ⟨hplan, hlength, hall⟩ := ih h (increasing_concat hsorted hprevious) hitems
          rw [length_append, length_singleton] at hlength
          exact ⟨hplan, by omega, hall⟩

/-- **An accepted plan** is in strict order, bounded, and its records are proper. -/
theorem readPlan_spec {lengthText input : Bytes} {plan : List Node}
    (h : readPlan lengthText input = .ok plan) :
    Increasing Node.path plan ∧ plan.length ≤ MAX_ENTRIES + 1 ∧ ∀ item ∈ plan, Accepted item := by
  unfold readPlan at h
  split at h
  · cases h
  · split at h
    · cases h
    · split at h
      · cases h
      · simp only [bind_eq_ok, require_eq_ok, exists_unit, pure_eq_ok] at h
        obtain ⟨nodes, hread, -, rfl⟩ := h
        obtain ⟨hsorted, hlength, haccepted⟩ := readNodes_spec hread List.Pairwise.nil (by simp)
        rw [length_nil] at hlength
        exact ⟨hsorted, by omega, haccepted⟩

theorem Accepted.short (h : Accepted item) : item.path.length < pathMax := by
  rcases h.path with hvalid | hroot
  · simp only [validRelative, Bool.and_eq_true, decide_eq_true_eq] at hvalid
    exact hvalid.1.2
  · rw [hroot]
    decide

/-! ### What the traversal asks for -/

/-- What `verify_tree` asks of one object. -/
structure Fits (uid : Nat) (t : Tree) (plan : List Node) (e : List FileName × Attributes) :
    Prop where
  reached : reaches t e.1 = true
  record : ∃ item, findNode plan (textOf e.1) = some item ∧ sameNode uid e.2 item true = true
  depth : e.1.length ≤ MAX_DEPTH + 1
  directory : e.2.isDir = true → e.1.length ≤ MAX_DEPTH ∧ e.2.readable = true

variable {uid : Nat} {t : Tree} {plan : List Node} {a : Attributes} {seen seen' left : Nat}

theorem sameNode_mode {full : Bool} (h : sameNode uid a item full = true) : a.mode = item.mode := by
  simp only [sameNode, Bool.and_eq_true, decide_eq_true_eq] at h
  exact h.1.1.2

/-- The loop over `readdir`, from what its rounds do. -/
theorem verifyEach_iff {step : Bytes → Nat → Except Refusal Nat} {P : FileName → Prop}
    {size : FileName → Nat} {bound : Nat} {names : List FileName}
    (hstep : ∀ name ∈ names, ∀ seen seen', seen ≤ bound →
      (step (textOf (path ++ [name])) seen = .ok seen' ↔
        P name ∧ seen' = seen + size name ∧ seen' ≤ bound))
    (hshort : ∀ name ∈ names, P name → (textOf (path ++ [name])).length < pathMax)
    (hseen : seen ≤ bound) :
    verifyEach step (textOf path) names seen = .ok seen' ↔
      (∀ name ∈ names, P name) ∧ seen' = seen + (names.map size).sum ∧ seen' ≤ bound := by
  induction names generalizing seen with
  | nil =>
    simp only [verifyEach, Except.ok.injEq, map_nil, sum_nil, Nat.add_zero]
    constructor
    · intro heq
      exact ⟨nofun, heq.symm, heq ▸ hseen⟩
    · intro h
      exact h.2.1.symm
  | cons name rest ih =>
    have hone := hstep name mem_cons_self
    have hlater := fun other hother => hstep other (mem_cons_of_mem _ hother)
    have hshort' := fun other hother => hshort other (mem_cons_of_mem _ hother)
    rw [verifyEach, ← textOf_concat, map_cons, sum_cons]
    constructor
    · intro h
      split at h
      · split at h
        · cases h
        next middle hmiddle =>
          obtain ⟨hfirst, hsum, hbound⟩ := (hone seen middle hseen).mp hmiddle
          obtain ⟨hrest, hsum', hbound'⟩ := (ih hlater hshort' hbound).mp h
          refine ⟨forall_mem_cons.mpr ⟨hfirst, hrest⟩, ?_, hbound'⟩
          omega
      · cases h
    · intro h
      obtain ⟨hall, hsum, hbound⟩ := h
      obtain ⟨hfirst, hrest⟩ := forall_mem_cons.mp hall
      have hmiddle : seen + size name ≤ bound := by omega
      rw [if_pos (hshort name mem_cons_self hfirst),
        (hone seen (seen + size name) hseen).mpr ⟨hfirst, rfl, hmiddle⟩]
      exact (ih hlater hshort' hmiddle).mpr ⟨hrest, by omega, hbound⟩

theorem verifyTree_succ (h : t.get path = some a) :
    verifyTree uid t plan (left + 1) (textOf path) seen = .ok seen' ↔
      seen + 1 ≤ MAX_ENTRIES + 1 ∧ reaches t path = true ∧
      (∃ item, findNode plan (textOf path) = some item ∧ sameNode uid a item true = true) ∧
      if a.isDir = true then left ≠ 0 ∧ a.readable = true ∧
        verifyEach (verifyTree uid t plan left) (textOf path) (t.listing path) (seen + 1) =
          .ok seen'
      else seen' = seen + 1 := by
  rw [verifyTree, openDirectory, readdir, find_textOf, resolve_textOf, h]
  by_cases hcount : MAX_ENTRIES + 1 < seen + 1
  · rw [if_pos hcount]
    simp only [reduceCtorEq, false_iff]
    intro hall
    omega
  · rw [if_neg hcount]
    have hcount' : seen + 1 ≤ MAX_ENTRIES + 1 := by omega
    by_cases hreach : reaches t path = true
    · rw [if_pos hreach]
      cases hitem : findNode plan (textOf path) with
      | none => simp
      | some item =>
        dsimp only
        by_cases hsame : sameNode uid a item true = true
        · have hmode : isDirMode item.mode = a.isDir := by
            rw [← sameNode_mode hsame]
            rfl
          have hexists : ∃ other, some item = some other ∧ sameNode uid a other true = true :=
            ⟨item, rfl, hsame⟩
          rw [if_neg (by simp [hsame]), hmode]
          by_cases hdir : a.isDir = true
          · rw [if_neg (by simp [hdir]), if_pos hdir]
            by_cases hleft : left = 0
            · simp [hleft]
            · rw [if_neg hleft]
              by_cases hread : a.readable = true
              · simp [hdir, hread, hsame, hcount', hreach, hleft]
              · simp [hread]
          · rw [if_pos (by simpa using hdir), if_neg hdir]
            rw [Except.ok.injEq]
            exact ⟨fun heq => ⟨hcount', hreach, hexists, heq.symm⟩, fun hall => hall.2.2.2.symm⟩
        · simp [hsame]
    · simp [hreach]

theorem length_lt_of_record (haccepted : ∀ item ∈ plan, Accepted item)
    (hsorted : Increasing Node.path plan) {text : Bytes}
    (h : findNode plan text = some item) : text.length < pathMax := by
  obtain ⟨hmem, rfl⟩ := (search_eq_some hsorted).mp h
  exact (haccepted item hmem).short

/-- **The traversal** from an object on succeeds if all at and below it fits, and adds
their number. -/
theorem verifyTree_iff (haccepted : ∀ item ∈ plan, Accepted item)
    (hsorted : Increasing Node.path plan) (h : t.get path = some a)
    (hdepth : left + path.length = MAX_DEPTH + 2) (hseen : seen ≤ MAX_ENTRIES + 1) :
    verifyTree uid t plan left (textOf path) seen = .ok seen' ↔
      (∀ e ∈ t.below path, Fits uid t plan e) ∧ seen' = seen + (t.below path).length ∧
        seen' ≤ MAX_ENTRIES + 1 := by
  -- the induction is on the depth that is left; the objects below are those in it and below them
  induction left generalizing path a seen seen' with
  | zero =>
    simp only [verifyTree, reduceCtorEq, false_iff]
    intro hall
    have hself := hall.1 (path, a) (PathTree.mem_below.mpr ⟨h, prefix_rfl⟩)
    have hle : path.length ≤ MAX_DEPTH + 1 := hself.depth
    omega
  | succ left ih =>
    have hbelow := PathTree.below_perm h
    have hall : (∀ e ∈ t.below path, Fits uid t plan e) ↔ Fits uid t plan (path, a) ∧
        ∀ name ∈ t.listing path, ∀ e ∈ t.below (path ++ [name]), Fits uid t plan e := by
      constructor
      · intro hfits
        have hfits' : ∀ e ∈ (path, a) :: (t.listing path).flatMap
            (fun name => t.below (path ++ [name])), Fits uid t plan e :=
          fun e he => hfits e (hbelow.mem_iff.mpr he)
        obtain ⟨hself, hrest⟩ := forall_mem_cons.mp hfits'
        exact ⟨hself, fun name hname e he => hrest e (mem_flatMap.mpr ⟨name, hname, he⟩)⟩
      · intro hfits e he
        rcases mem_cons.mp (hbelow.mem_iff.mp he) with rfl | hinside
        · exact hfits.1
        · obtain ⟨name, hname, hchild⟩ := mem_flatMap.mp hinside
          exact hfits.2 name hname e hchild
    have hsize : (t.below path).length =
        1 + ((t.listing path).map fun name => (t.below (path ++ [name])).length).sum := by
      rw [hbelow.length_eq, length_cons, length_flatMap]
      omega
    rw [verifyTree_succ h, hall, hsize]
    by_cases hdir : a.isDir = true
    · rw [if_pos hdir]
      have heach : seen + 1 ≤ MAX_ENTRIES + 1 → (verifyEach (verifyTree uid t plan left)
          (textOf path) (t.listing path) (seen + 1) = .ok seen' ↔
          (∀ name ∈ t.listing path, ∀ e ∈ t.below (path ++ [name]), Fits uid t plan e) ∧
            seen' = seen + 1 +
              ((t.listing path).map fun name => (t.below (path ++ [name])).length).sum ∧
            seen' ≤ MAX_ENTRIES + 1) := by
        intro hseen'
        refine verifyEach_iff ?_ ?_ hseen'
        · intro name hname seen₁ seen₂ hseen₁
          obtain ⟨b, hb⟩ := PathTree.mem_listing.mp hname
          refine ih hb ?_ hseen₁
          rw [length_append, length_singleton]
          omega
        · intro name hname hfits
          obtain ⟨b, hb⟩ := PathTree.mem_listing.mp hname
          obtain ⟨item, hitem, -⟩ :=
            (hfits (path ++ [name], b) (PathTree.mem_below.mpr ⟨hb, prefix_rfl⟩)).record
          exact length_lt_of_record haccepted hsorted hitem
      constructor
      · intro hcall
        obtain ⟨hcount, hreach, hrecord, hleft, hread, hloop⟩ := hcall
        obtain ⟨hrest, hsum, hbound⟩ := (heach hcount).mp hloop
        refine ⟨⟨⟨hreach, hrecord, ?_, fun _ => ⟨?_, hread⟩⟩, hrest⟩, by omega, hbound⟩
        · show path.length ≤ MAX_DEPTH + 1
          omega
        · show path.length ≤ MAX_DEPTH
          omega
      · intro hcall
        obtain ⟨⟨hself, hrest⟩, hsum, hbound⟩ := hcall
        obtain ⟨hlevel, hread⟩ := hself.directory hdir
        have hlevel' : path.length ≤ MAX_DEPTH := hlevel
        have hcount : seen + 1 ≤ MAX_ENTRIES + 1 := by omega
        exact ⟨hcount, hself.reached, hself.record, by omega, hread,
          (heach hcount).mpr ⟨hrest, by omega, hbound⟩⟩
    · rw [if_neg hdir, PathTree.listing_leaf h (by simpa using hdir)]
      constructor
      · intro hcall
        obtain ⟨hcount, hreach, hrecord, rfl⟩ := hcall
        refine ⟨⟨⟨hreach, hrecord, ?_, fun htrue => absurd htrue hdir⟩, nofun⟩, ?_, hcount⟩
        · show path.length ≤ MAX_DEPTH + 1
          omega
        · rfl
      · intro hcall
        obtain ⟨⟨hself, -⟩, hsum, hbound⟩ := hcall
        have hsum' : seen' = seen + 1 := hsum
        exact ⟨by omega, hself.reached, hself.record, hsum'⟩

/-! ### Trees and plans that agree -/

/-- The relative paths in the tree, as texts. -/
def treeTexts (t : Tree) : List Bytes := t.nodes.map fun e => textOf e.1

/-- What the record says is what `fstat` shows. -/
def Matches (a : Attributes) (item : Node) : Prop :=
  a.device = item.device ∧ a.inode = item.inode ∧ a.mode = item.mode ∧ a.size = item.size ∧
    a.mtime = item.mtime ∧ a.mns = item.mns ∧ a.ctime = item.ctime ∧ a.cns = item.cns

instance (a : Attributes) (item : Node) : Decidable (Matches a item) :=
  inferInstanceAs (Decidable (_ ∧ _))

/-- **The tree and the plan agree**: the same paths, and every object matches its
record, is owned by the caller and has one link if it is regular. -/
structure Agrees (uid : Nat) (t : Tree) (plan : List Node) : Prop where
  paths : ∀ text, text ∈ treeTexts t ↔ text ∈ plan.map Node.path
  records : ∀ e ∈ t.nodes, ∀ item ∈ plan, item.path = textOf e.1 → Matches e.2 item
  owner : ∀ e ∈ t.nodes, e.2.owner = uid
  single : ∀ e ∈ t.nodes, e.2.isReg = true → e.2.links = 1

/-- The bounds of the helper on depth, entries and the length of paths. -/
structure WithinBounds (t : Tree) : Prop where
  depth : ∀ e ∈ t.nodes, e.1.length ≤ MAX_DEPTH + 1 ∧ (e.2.isDir = true → e.1.length ≤ MAX_DEPTH)
  entries : t.nodes.length ≤ MAX_ENTRIES + 1
  short : ∀ e ∈ t.nodes, (textOf e.1).length < pathMax

/-- Every directory can be read, and the root and those with something in them can be
searched. -/
structure Accessible (t : Tree) : Prop where
  readable : ∀ e ∈ t.nodes, e.2.isDir = true → e.2.readable = true
  searchable : ∀ e ∈ t.nodes, e.2.isDir = true → e.1 = [] ∨ t.listing e.1 ≠ [] →
    e.2.searchable = true

theorem Accessible.reaches (h : Accessible t) {e : List FileName × Attributes} (he : e ∈ t.nodes) :
    reaches t e.1 = true := by
  have hget := PathTree.get_eq_some.mpr he
  refine List.all_eq_true.mpr ?_
  intro n hn
  rw [mem_range] at hn
  -- the directory on the way, and that it is the root or has something in it
  have hway : ∃ directory, t.get (e.1.take n) = some directory ∧ directory.isDir = true ∧
      (e.1.take n = [] ∨ t.listing (e.1.take n) ≠ []) := by
    by_cases hlast : n < e.1.length
    · have hne : e.1.take n ≠ e.1 := by
        intro heq
        have hlength := congrArg List.length heq
        rw [length_take] at hlength
        omega
      obtain ⟨directory, hdirectory, hdir⟩ :=
        PathTree.get_inner_above hget (List.take_prefix n e.1) hne
      refine ⟨directory, hdirectory, hdir, .inr ?_⟩
      have hnext : e.1.take n ++ [e.1.get ⟨n, hlast⟩] <+: e.1 := by
        rw [get_eq_getElem, take_append_getElem]
        exact take_prefix _ _
      apply ne_nil_of_mem (a := e.1.get ⟨n, hlast⟩)
      rw [PathTree.mem_listing]
      by_cases hwhole : e.1.take n ++ [e.1.get ⟨n, hlast⟩] = e.1
      · exact ⟨e.2, by rw [hwhole, hget]⟩
      · obtain ⟨next, hget', -⟩ := PathTree.get_inner_above hget hnext hwhole
        exact ⟨next, hget'⟩
    · have hroot : e.1.take n = [] := by
        have hnil : e.1 = [] := by
          rw [← length_eq_zero_iff]
          omega
        rw [hnil, take_nil]
      rw [hroot]
      exact ⟨t.root, PathTree.get_root t, t.root_inner, .inl rfl⟩
  obtain ⟨directory, hdirectory, hdir, hplace⟩ := hway
  have hsearch := h.searchable (e.1.take n, directory) (PathTree.get_eq_some.mp hdirectory) hdir
    hplace
  rw [hdirectory, any_some, hdir, hsearch]
  rfl

theorem searchable_of_reaches (h : ∀ e ∈ t.nodes, reaches t e.1 = true)
    {e : List FileName × Attributes} (he : e ∈ t.nodes)
    (hplace : e.1 = [] ∨ t.listing e.1 ≠ []) : e.2.searchable = true := by
  have hget := PathTree.get_eq_some.mpr he
  have hway : ∃ path, reaches t path = true ∧ e.1.length < max 1 path.length ∧
      path.take e.1.length = e.1 := by
    by_cases hroot : e.1 = []
    · refine ⟨[], h ([], t.root) mem_cons_self, ?_, ?_⟩
      · rw [hroot]
        exact Nat.zero_lt_one
      · rw [hroot]
        rfl
    · obtain ⟨name, hname⟩ := exists_mem_of_ne_nil _ (hplace.resolve_left hroot)
      obtain ⟨b, hb⟩ := PathTree.mem_listing.mp hname
      refine ⟨e.1 ++ [name], h _ (PathTree.get_eq_some.mp hb), ?_, take_left⟩
      rw [length_append, length_singleton]
      omega
  obtain ⟨path, hreach, hlength, htake⟩ := hway
  have hall := List.all_eq_true.mp hreach e.1.length (mem_range.mpr hlength)
  rw [htake, hget, any_some, Bool.and_eq_true] at hall
  exact hall.2

theorem nodup_treeTexts (t : Tree) : (treeTexts t).Nodup := by
  have hkeys := t.nodup_nodes
  have htexts : treeTexts t = t.nodes.keys.map textOf := by
    unfold treeTexts Dict.keys
    rw [List.map_map]
    rfl
  rw [htexts]
  exact hkeys.map fun _ _ => textOf_injective

theorem nodup_paths (hsorted : Increasing Node.path plan) : (plan.map Node.path).Nodup := by
  refine pairwise_map.mpr (hsorted.imp ?_)
  intro a b hless heq
  rw [heq] at hless
  exact List.lt_irrefl _ hless

theorem sameNode_iff : sameNode uid a item true = true ↔
    Matches a item ∧ a.owner = uid ∧ (a.isReg = true → a.links = 1) := by
  have hlinks : (a.isReg = false ∨ a.links = 1) ↔ (a.isReg = true → a.links = 1) := by
    cases a.isReg with
    | false | true => simp
  simp only [sameNode, Matches, Bool.and_eq_true, Bool.or_eq_true, Bool.not_eq_true',
    decide_eq_true_eq, Bool.true_eq_false, false_or, hlinks]
  constructor
  · intro h
    obtain ⟨⟨⟨⟨⟨howner, hdevice⟩, hinode⟩, hmode⟩, hsingle⟩, ⟨⟨⟨hsize, hmtime⟩, hmns⟩, hctime⟩, hcns⟩ :=
      h
    exact ⟨⟨hdevice, hinode, hmode, hsize, hmtime, hmns, hctime, hcns⟩, howner, hsingle⟩
  · intro h
    obtain ⟨⟨hdevice, hinode, hmode, hsize, hmtime, hmns, hctime, hcns⟩, howner, hsingle⟩ := h
    exact ⟨⟨⟨⟨⟨howner, hdevice⟩, hinode⟩, hmode⟩, hsingle⟩, ⟨⟨⟨hsize, hmtime⟩, hmns⟩, hctime⟩, hcns⟩

/-- All objects fit and are as many as the records: then the paths are the same. -/
theorem agrees_of_fits (hsorted : Increasing Node.path plan)
    (hfits : ∀ e ∈ t.nodes, Fits uid t plan e) (hcount : t.nodes.length = plan.length) :
    Agrees uid t plan := by
  have hrecord : ∀ e ∈ t.nodes, ∃ item ∈ plan, item.path = textOf e.1 ∧
      sameNode uid e.2 item true = true := by
    intro e he
    obtain ⟨item, hitem, hsame⟩ := (hfits e he).record
    obtain ⟨hmem, hpath⟩ := (search_eq_some hsorted).mp hitem
    exact ⟨item, hmem, hpath, hsame⟩
  have hsubset : treeTexts t ⊆ plan.map Node.path := by
    intro text htext
    obtain ⟨e, he, rfl⟩ := List.mem_map.mp htext
    obtain ⟨item, hmem, hpath, -⟩ := hrecord e he
    exact List.mem_map.mpr ⟨item, hmem, hpath⟩
  have hperm : (treeTexts t).Perm (plan.map Node.path) := by
    refine (subperm_of_subset (nodup_treeTexts t) hsubset).perm_of_length_le ?_
    rw [treeTexts, length_map, length_map, hcount]
  refine ⟨fun text => hperm.mem_iff, ?_, ?_, ?_⟩
  · intro e he item hitem hpath
    obtain ⟨other, hother, hpath', hsame⟩ := hrecord e he
    have heq : item = other := by
      have hsame' := hpath.trans hpath'.symm
      exact inj_on_of_nodup_map (nodup_paths hsorted) hitem hother hsame'
    rw [heq]
    exact (sameNode_iff.mp hsame).1
  · intro e he
    obtain ⟨item, -, -, hsame⟩ := hrecord e he
    exact (sameNode_iff.mp hsame).2.1
  · intro e he
    obtain ⟨item, -, -, hsame⟩ := hrecord e he
    exact (sameNode_iff.mp hsame).2.2

/-- **The traversal is exact.** For every tree and every plan that `read_plan` accepts,
`verify_tree` from the root succeeds with as many objects as the plan has records
exactly if the tree and the plan agree, within the bounds of the helper, and every
directory can be opened. -/
theorem verify_exact (uid : Nat) (t : Tree) (lengthText input : Bytes) (plan : List Node)
    (hplan : readPlan lengthText input = .ok plan) :
    verified uid t plan ↔ Agrees uid t plan ∧ WithinBounds t ∧ Accessible t := by
  obtain ⟨hsorted, hlength, haccepted⟩ := readPlan_spec hplan
  have htraversal : verifyTree uid t plan (MAX_DEPTH + 2) (textOf []) 0 = .ok plan.length ↔
      (∀ e ∈ t.below [], Fits uid t plan e) ∧ plan.length = 0 + (t.below []).length ∧
        plan.length ≤ MAX_ENTRIES + 1 :=
    verifyTree_iff haccepted hsorted (PathTree.get_root t) rfl (Nat.zero_le _)
  rw [show textOf [] = [46] from rfl, PathTree.below_root, Nat.zero_add] at htraversal
  unfold verified
  rw [htraversal]
  constructor
  · intro h
    obtain ⟨hfits, hcount, hbound⟩ := h
    refine ⟨agrees_of_fits hsorted hfits hcount.symm, ⟨?_, by omega, ?_⟩, ⟨?_, ?_⟩⟩
    · intro e he
      exact ⟨(hfits e he).depth, fun hdir => ((hfits e he).directory hdir).1⟩
    · intro e he
      obtain ⟨item, hitem, -⟩ := (hfits e he).record
      exact length_lt_of_record haccepted hsorted hitem
    · intro e he hdir
      exact ((hfits e he).directory hdir).2
    · intro e he _ hplace
      exact searchable_of_reaches (fun e he => (hfits e he).reached) he hplace
  · intro h
    obtain ⟨hagrees, hbounds, haccess⟩ := h
    refine ⟨?_, ?_, hlength⟩
    · intro e he
      refine ⟨haccess.reaches he, ?_, (hbounds.depth e he).1, ?_⟩
      · have hpath := (hagrees.paths (textOf e.1)).mp (List.mem_map.mpr ⟨e, he, rfl⟩)
        obtain ⟨item, hitem, hsame⟩ := List.mem_map.mp hpath
        refine ⟨item, (search_eq_some hsorted).mpr ⟨hitem, hsame⟩, ?_⟩
        exact sameNode_iff.mpr ⟨hagrees.records e he item hitem hsame, hagrees.owner e he,
          hagrees.single e he⟩
      · intro hdir
        exact ⟨(hbounds.depth e he).2 hdir, haccess.readable e he hdir⟩
    · have hperm := (perm_ext_iff_of_nodup (nodup_treeTexts t) (nodup_paths hsorted)).mpr
        hagrees.paths
      have hlengths := hperm.length_eq
      rw [treeTexts, length_map, length_map] at hlengths
      exact hlengths.symm

/-! ### A directory that cannot be opened -/

/-- The root of the samples. -/
def sampleRoot : Attributes := ⟨1, 2, 0o040700, 1000, 3, 0, 5, 0, 5, 0⟩

theorem proper_a : ProperName [97] := by decide

/-- A tree with one object in its root. -/
def single (a : Attributes) : Tree where
  root := sampleRoot
  entries := [([⟨[97], proper_a⟩], a)]
  root_inner := by decide
  nodup := nodup_singleton _
  nonempty := by
    intro e he
    rw [mem_singleton.mp he]
    exact cons_ne_nil _ _
  parent := by
    intro e he
    rw [mem_singleton.mp he]
    rfl

/-- The records of such a tree, with the given mode of the object. -/
def singlePlan (mode : Nat) : List Node :=
  [⟨[46], 1, 2, 0o040700, 0, 5, 0, 5, 0⟩, ⟨[97], 1, 3, mode, 0, 5, 0, 5, 0⟩]

/-- The plan as the helper is given it. -/
def singleInput (mode : String) : Bytes :=
  utf8Encode (".\x001\x002\x0016832\x000\x005\x000\x005\x000\x00".toList ++
    "a\x001\x003\x00".toList ++ mode.toList ++ "\x000\x005\x000\x005\x000\x00".toList)

/-- A regular file in the root. -/
theorem verify_exact_file :
    readPlan (utf8Encode "44".toList) (singleInput "33152") = .ok (singlePlan 0o100600) ∧
      verified 1000 (single ⟨1, 3, 0o100600, 1000, 1, 0, 5, 0, 5, 0⟩) (singlePlan 0o100600) := by
  have hplan : readPlan (utf8Encode "44".toList) (singleInput "33152") =
      .ok (singlePlan 0o100600) := by decide +kernel
  refine ⟨hplan, (verify_exact 1000 _ _ _ _ hplan).mpr ⟨⟨?_, ?_, ?_, ?_⟩, ⟨?_, ?_, ?_⟩, ⟨?_, ?_⟩⟩⟩
  · exact fun text => Iff.rfl
  all_goals decide +kernel

/-- **A directory without permissions.** The tree and the plan agree within all bounds,
but the directory cannot be opened, so `verify_tree` fails. -/
theorem shut_unverified :
    readPlan (utf8Encode "44".toList) (singleInput "16384") = .ok (singlePlan 0o040000) ∧
      Agrees 1000 (single ⟨1, 3, 0o040000, 1000, 2, 0, 5, 0, 5, 0⟩) (singlePlan 0o040000) ∧
      WithinBounds (single ⟨1, 3, 0o040000, 1000, 2, 0, 5, 0, 5, 0⟩) ∧
      ¬ verified 1000 (single ⟨1, 3, 0o040000, 1000, 2, 0, 5, 0, 5, 0⟩) (singlePlan 0o040000) := by
  refine ⟨by decide +kernel, ⟨fun text => Iff.rfl, ?_, ?_, ?_⟩, ⟨?_, ?_, ?_⟩, ?_⟩
  all_goals decide +kernel

end FoldGPT.Files.Helper
