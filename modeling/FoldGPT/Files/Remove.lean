import FoldGPT.Files.Verify

/-!
# Removing what the plan names

`remove_plan` goes through the records in reverse order and unlinks every object
within the target. The tree is the one of `FoldGPT.Files.Verify`; any call may fail,
and an unlink changes the size, the links and the times of the directory it works in.

Main result: `remove_exact`.
-/

namespace FoldGPT.Files.Helper

open FoldGPT.Lib FoldGPT.Lib.Encoding
open List hiding utf8Encode

/-! ### Texts below a text -/

variable {p q : List FileName}

theorem within_textOf (hne : p ≠ []) : within (textOf p) (textOf q) = true ↔ p <+: q := by
  rw [textOf, textOf, within_joined (fileNames p) (fileNames q) (mt map_eq_nil_iff.mp hne)]
  exact prefix_map_iff_of_injective Subtype.val_injective

theorem textOf_lt (hne : p ≠ []) (hle : p <+: q) (hother : q ≠ p) : textOf p < textOf q := by
  obtain ⟨rest, rfl⟩ := hle
  have hrest : rest ≠ [] := by
    intro hnil
    rw [hnil, append_nil] at hother
    exact hother rfl
  have hle : textOf p ≤ textOf (p ++ rest) := by
    rw [textOf_append hne hrest]
    exact le_append_left
  exact lt_of_le_of_ne hle fun heq => hother (textOf_injective heq).symm

theorem exists_textOf {text : Bytes} (hvalid : validRelative text = true) (hnul : 0 ∉ text) :
    ∃ path, path ≠ [] ∧ textOf path = text := by
  simp only [validRelative, Bool.and_eq_true, all_eq_true, bne_iff_ne] at hvalid
  obtain ⟨-, hparts⟩ := hvalid
  have hproper : ∀ part ∈ text.splitOn 47, ProperName part := by
    intro part hpart
    obtain ⟨⟨hempty, hdot⟩, hdots⟩ := hparts part hpart
    refine ⟨hempty, ?_, ?_, hdot, hdots⟩
    · exact not_mem_of_mem_splitOn hpart
    · intro hzero
      exact hnul (mem_of_mem_splitOn hpart hzero)
  have hne : (text.splitOn 47).attach.map
      (fun part => (⟨part.1, hproper part.1 part.2⟩ : FileName)) ≠ [] := by
    intro hnil
    simp at hnil
  refine ⟨_, hne, ?_⟩
  rw [textOf, joined, if_neg (mt map_eq_nil_iff.mp hne), map_map]
  simp [Function.comp_def]

/-! ### The loop -/

/-- What an unlink leaves of the directory it works in. -/
structure Touch where
  links : Nat
  size : Nat
  mtime : Int
  mns : Nat
  ctime : Int
  cns : Nat

def Attributes.touched (x : Touch) (a : Attributes) : Attributes :=
  { a with links := x.links, size := x.size, mtime := x.mtime, mns := x.mns, ctime := x.ctime,
           cns := x.cns }

theorem Attributes.isDir_touched (x : Touch) (a : Attributes) : (a.touched x).isDir = a.isDir := rfl

/-- `unlinkat` on an object with nothing in it. -/
def unlinkat (x : Touch) (path : List FileName) (t : Tree) (bare : t.Bare path) : Tree :=
  (t.erase path bare).modify path.dropLast (Attributes.touched x) (Attributes.isDir_touched x)

/-- The operation `error` names; `remove_plan` stops there. -/
inductive Stage
  | opening
  | treeState
  | remove
  | directorySync
  deriving DecidableEq, Repr

/-- One round of the loop. A call that fails of itself, for want of a permission or
otherwise, is given as the stage it fails at; `fsync` fails behind the unlink. -/
def removeItem (uid : Nat) (fault : Option Stage) (x : Touch) (item : Node) (t : Tree) :
    Tree × Option Stage :=
  match resolve item.path with
  | none => (t, some .opening)
  | some path =>
    if fault = some .opening ∨ (t.get path.dropLast).any Attributes.isDir = false then
      (t, some .opening)
    else match t.get path with
      | none => (t, some .treeState)
      | some a =>
        if fault = some .treeState ∨ sameNode uid a item (isRegMode item.mode) = false then
          (t, some .treeState)
        else if fault = some .remove ∨ a.isDir ≠ isDirMode item.mode then (t, some .remove)
        else if bare : t.Bare path then (unlinkat x path t bare, fault)
        else (t, some .remove)

/-- The tree, and the paths the loop got to. -/
structure Removal where
  tree : Tree
  attempts : List Bytes

/-- The loop over the records within the target. -/
def removeLoop (uid : Nat) (faults : Nat → Option Stage) (touches : Nat → Touch) :
    List Node → Removal → Removal × Option Stage
  | [], s => (s, none)
  | item :: rest, s =>
    match removeItem uid (faults s.attempts.length) (touches s.attempts.length) item s.tree with
    | (tree, some stage) => (⟨tree, s.attempts ++ [item.path]⟩, some stage)
    | (tree, none) => removeLoop uid faults touches rest ⟨tree, s.attempts ++ [item.path]⟩

/-- `open_beneath` fails with `ENOENT`: something on the way is missing, and all before
it can be searched. -/
def isMissing (t : Tree) (text : Bytes) : Bool :=
  (resolve text).any fun path => (List.range path.length).any fun n =>
    reaches t (path.take (n + 1)) && (t.get (path.take (n + 1))).isNone

/-- `remove_plan`; no stage is success. -/
def removeRun (uid : Nat) (faults : Nat → Option Stage) (touches : Nat → Touch)
    (plan : List Node) (path : Bytes) (recursive force : Bool) (t : Tree) :
    Removal × Option Stage :=
  match findNode plan path with
  | none =>
    if (find t path).isSome then (⟨t, []⟩, some .treeState)
    else if isMissing t path && force then (⟨t, []⟩, none)
    else (⟨t, []⟩, some .opening)
  | some target =>
    if isDirMode target.mode && !recursive &&
        plan.any (fun item => path != item.path && within path item.path) then
      (⟨t, []⟩, some .remove)
    else
      removeLoop uid faults touches (plan.reverse.filter fun item => within path item.path) ⟨t, []⟩

/-! ### What a removal leaves -/

/-- The same object, up to what an unlink in it changes. -/
def Kept (a a' : Attributes) : Prop :=
  a'.device = a.device ∧ a'.inode = a.inode ∧ a'.mode = a.mode ∧ a'.owner = a.owner ∧
    (a.isDir = false → a' = a)

/-- The tree without some objects, and with all others. -/
structure Pruned (t : Tree) (gone : List Bytes) (left : Tree) : Prop where
  away : ∀ path, textOf path ∈ gone → left.get path = none
  kept : ∀ path a, t.get path = some a → textOf path ∉ gone →
    ∃ a', left.get path = some a' ∧ Kept a a'
  absent : ∀ path, t.get path = none → left.get path = none

variable {uid : Nat} {t left : Tree} {plan : List Node} {gone : List Bytes}

theorem Kept.refl (a : Attributes) : Kept a a := ⟨rfl, rfl, rfl, rfl, fun _ => rfl⟩

variable {a' : Attributes}

theorem Kept.isDir {a : Attributes} (h : Kept a a') : a'.isDir = a.isDir := by
  obtain ⟨-, -, hmode, -, -⟩ := h
  rw [Attributes.isDir, Attributes.isDir, hmode]

/-- A directory stays the same when something in it is unlinked. -/
theorem Kept.touched {a : Attributes} (h : Kept a a') (hdir : a.isDir = true) (x : Touch) :
    Kept a (a'.touched x) := by
  obtain ⟨hdevice, hinode, hmode, howner, -⟩ := h
  refine ⟨hdevice, hinode, hmode, howner, ?_⟩
  intro hfile
  rw [hdir] at hfile
  cases hfile

theorem Pruned.refl (t : Tree) : Pruned t [] t where
  away := nofun
  kept := fun _ a ha _ => ⟨a, ha, Kept.refl a⟩
  absent := fun _ h => h

theorem Pruned.get_of_mem (h : Pruned t gone left) {path : List FileName}
    (ha : left.get path = some a') : textOf path ∉ gone ∧ ∃ a, t.get path = some a ∧ Kept a a' := by
  have hleft : textOf path ∉ gone := by
    intro hmem
    rw [h.away path hmem] at ha
    cases ha
  refine ⟨hleft, ?_⟩
  cases hget : t.get path with
  | none =>
    rw [h.absent path hget] at ha
    cases ha
  | some a =>
    obtain ⟨other, hother, hkept⟩ := h.kept path a hget hleft
    rw [ha] at hother
    cases hother
    exact ⟨a, rfl, hkept⟩

/-- **Unlinking** an object that is still there, with nothing left below it. -/
theorem Pruned.unlink (h : Pruned t gone left) {path : List FileName} {b : Attributes}
    (hb : left.get path = some b) (bare : left.Bare path) (x : Touch) :
    Pruned t (gone ++ [textOf path]) (unlinkat x path left bare) := by
  refine ⟨?_, ?_, ?_⟩
  · intro p hp
    have hnone : (left.erase path bare).get p = none := by
      rw [PathTree.get_erase]
      rcases mem_append.mp hp with hold | hnew
      · by_cases heq : p = path
        · rw [if_pos heq]
        · rw [if_neg heq]
          exact h.away p hold
      · rw [if_pos (textOf_injective (mem_singleton.mp hnew))]
    rw [unlinkat, PathTree.get_modify, hnone, Option.map_none, ite_self]
  · intro p a ha hp
    obtain ⟨hold, hnew⟩ := not_or.mp fun hmem => hp (mem_append.mpr hmem)
    have hne : p ≠ path := fun heq => hnew (mem_singleton.mpr (congrArg textOf heq))
    obtain ⟨a', ha', hkept⟩ := h.kept p a ha hold
    rw [unlinkat, PathTree.get_modify, PathTree.get_erase, if_neg hne, ha']
    by_cases hdirectory : p = path.dropLast
    · -- the directory the object was in
      rw [← dropLast_append_getLast bare.1, ← hdirectory] at hb
      obtain ⟨directory, hget, hdir⟩ := PathTree.get_inner_parent hb
      rw [ha'] at hget
      cases hget
      rw [if_pos hdirectory]
      exact ⟨_, rfl, hkept.touched (hkept.isDir ▸ hdir) x⟩
    · rw [if_neg hdirectory]
      exact ⟨a', rfl, hkept⟩
  · intro p hp
    rw [unlinkat, PathTree.get_modify, PathTree.get_erase, h.absent p hp, ite_self, Option.map_none,
      ite_self]

/-! ### One record -/

/-- The record of an object that is still there, with all below it gone. -/
structure Ready (uid : Nat) (t : Tree) (gone : List Bytes) (item : Node) (path : List FileName)
    (a : Attributes) : Prop where
  text : item.path = textOf path
  nonempty : path ≠ []
  object : t.get path = some a
  same : sameNode uid a item true = true
  there : textOf path ∉ gone
  below : ∀ q b, t.get q = some b → path <+: q → q ≠ path → textOf q ∈ gone

theorem isDirMode_of_isRegMode {mode : Nat} (h : isRegMode mode = true) :
    isDirMode mode = false := by
  simp only [isRegMode, isDirMode, decide_eq_true_eq] at h ⊢
  rw [h]
  rfl

/-- What is left of an object still passes `same_node`, as far as it is asked. -/
theorem Kept.sameNode {a : Attributes} {item : Node} (h : Kept a a')
    (hsame : sameNode uid a item true = true) :
    sameNode uid a' item (isRegMode item.mode) = true := by
  have hmode := sameNode_mode hsame
  obtain ⟨hdevice, hinode, hmode', howner, hfile⟩ := h
  by_cases hreg : isRegMode item.mode = true
  · have hdir : a.isDir = false := by
      rw [Attributes.isDir, hmode]
      exact isDirMode_of_isRegMode hreg
    rw [hfile hdir, hreg]
    exact hsame
  · have hreg' : a'.isReg = false := by
      rw [Attributes.isReg, hmode', hmode]
      simpa using hreg
    have hreg'' : isRegMode item.mode = false := by simpa using hreg
    obtain ⟨⟨hdevice', hinode', -⟩, howner', -⟩ := sameNode_iff.mp hsame
    simp [Helper.sameNode, hreg', hreg'', hdevice, hinode, hmode', howner, hdevice', hinode',
      hmode, howner']

variable {item : Node} {path : List FileName} {a : Attributes}

theorem Ready.bare (hready : Ready uid t gone item path a) (h : Pruned t gone left) :
    left.Bare path := by
  refine ⟨hready.nonempty, ?_⟩
  intro e he hle
  by_contra hne
  have hget : left.get e.1 = some e.2 := PathTree.get_eq_some.mpr (mem_cons_of_mem _ he)
  obtain ⟨hleft, b, hb, -⟩ := h.get_of_mem hget
  exact hleft (hready.below e.1 b hb hle hne)

/-- **One round** ends as its calls do; without a fault the object is gone, and nothing
else. -/
theorem removeItem_spec (hready : Ready uid t gone item path a) (h : Pruned t gone left)
    (fault : Option Stage) (x : Touch) :
    ∃ result, removeItem uid fault x item left = (result, fault) ∧
      (Pruned t (gone ++ [item.path]) result ∨ fault ≠ none ∧ Pruned t gone result) := by
  obtain ⟨a', ha', hkept⟩ := h.kept path a hready.object hready.there
  have hparent : (left.get path.dropLast).any Attributes.isDir = true := by
    have hwhole := ha'
    rw [← dropLast_append_getLast hready.nonempty] at hwhole
    obtain ⟨directory, hdirectory, hdir⟩ := PathTree.get_inner_parent hwhole
    rw [hdirectory]
    exact hdir
  have hsame := hkept.sameNode hready.same
  have hkind : a'.isDir = isDirMode item.mode := by
    rw [hkept.isDir, Attributes.isDir, sameNode_mode hready.same]
  have hbare := hready.bare h
  rw [removeItem, hready.text, resolve_textOf]
  dsimp only
  rw [ha', hparent]
  dsimp only
  rw [hsame, hkind]
  by_cases hopening : fault = some .opening
  · refine ⟨left, ?_, .inr ⟨by simp [hopening], h⟩⟩
    simp [hopening]
  · by_cases hstate : fault = some .treeState
    · refine ⟨left, ?_, .inr ⟨by simp [hstate], h⟩⟩
      simp [hstate]
    · by_cases hremove : fault = some .remove
      · refine ⟨left, ?_, .inr ⟨by simp [hremove], h⟩⟩
        simp [hremove]
      · refine ⟨_, ?_, .inl (h.unlink ha' hbare x)⟩
        simp [hopening, hstate, hremove, hbare]

/-! ### The records in reverse order -/

variable {faults : Nat → Option Stage} {touches : Nat → Touch} {items : List Node} {s : Removal}

/-- **The loop** has lost what it got to, the last record perhaps apart; without faults
it gets to all. -/
theorem removeLoop_spec (faults : Nat → Option Stage) (touches : Nat → Touch)
    (hready : ∀ before item after, items = before ++ item :: after →
      ∃ path a, Ready uid t (s.attempts ++ before.map Node.path) item path a)
    (h : Pruned t s.attempts s.tree) :
    ∃ done, done <+: items ∧
      (removeLoop uid faults touches items s).1.attempts = s.attempts ++ done.map Node.path ∧
      (∃ gone, gone <+: s.attempts ++ done.map Node.path ∧
        Pruned t gone (removeLoop uid faults touches items s).1.tree) ∧
      ((∀ n, faults n = none) → (removeLoop uid faults touches items s).2 = none ∧
        done = items ∧
        Pruned t (s.attempts ++ items.map Node.path)
          (removeLoop uid faults touches items s).1.tree) := by
  induction items generalizing s with
  | nil =>
    refine ⟨[], prefix_rfl, by simp [removeLoop], ⟨s.attempts, by simp, h⟩, ?_⟩
    intro _
    refine ⟨rfl, rfl, ?_⟩
    rw [map_nil, append_nil]
    exact h
  | cons item rest ih =>
    obtain ⟨path, a, hfirst⟩ := hready [] item rest rfl
    rw [map_nil, append_nil] at hfirst
    obtain ⟨tree, hround, hleft⟩ :=
      removeItem_spec hfirst h (faults s.attempts.length) (touches s.attempts.length)
    rw [removeLoop, hround]
    cases hfault : faults s.attempts.length with
    | some stage =>
      -- the run ends here, before or behind the unlink
      refine ⟨[item], ⟨rest, rfl⟩, rfl, ?_, ?_⟩
      · rcases hleft with hgone | ⟨-, hstays⟩
        · exact ⟨_, prefix_rfl, hgone⟩
        · exact ⟨_, prefix_append _ _, hstays⟩
      · intro hnone
        rw [hnone] at hfault
        cases hfault
    | none =>
      have hgone : Pruned t (s.attempts ++ [item.path]) tree := by
        rcases hleft with hgone | ⟨hsome, -⟩
        · exact hgone
        · exact absurd hfault hsome
      have hlater : ∀ before next after, rest = before ++ next :: after →
          ∃ path a, Ready uid t (s.attempts ++ [item.path] ++ before.map Node.path) next path a := by
        intro before next after hrest
        have hnext := hready (item :: before) next after (by rw [hrest]; rfl)
        rwa [map_cons, ← singleton_append, ← append_assoc] at hnext
      obtain ⟨done, hdone, hattempts, hpruned, hall⟩ :=
        ih (s := ⟨tree, s.attempts ++ [item.path]⟩) hlater hgone
      have hshift : ∀ list : List Node, s.attempts ++ [item.path] ++ list.map Node.path =
          s.attempts ++ (item :: list).map Node.path := by
        intro list
        simp
      rw [hshift] at hattempts hpruned hall
      refine ⟨item :: done, (prefix_cons_inj item).mpr hdone, hattempts, hpruned, ?_⟩
      intro hnone
      obtain ⟨hstage, rfl, hfinal⟩ := hall hnone
      exact ⟨hstage, rfl, hfinal⟩

theorem mem_treeTexts {text : Bytes} :
    text ∈ treeTexts t ↔ ∃ path a, t.get path = some a ∧ textOf path = text := by
  rw [treeTexts, mem_map]
  constructor
  · intro h
    obtain ⟨e, he, htext⟩ := h
    exact ⟨e.1, e.2, PathTree.get_eq_some.mpr he, htext⟩
  · intro h
    obtain ⟨path, a, ha, htext⟩ := h
    exact ⟨(path, a), PathTree.get_eq_some.mp ha, htext⟩

/-- **Reverse order** gets to every object behind all below it. -/
theorem ready_of_agrees (hsorted : Increasing Node.path plan) (hagrees : Agrees uid t plan)
    {target : List FileName} (hne : target ≠ []) {before after : List Node}
    (hitems : plan.reverse.filter (fun item => within (textOf target) item.path) =
      before ++ item :: after) : ∃ path a, Ready uid t (before.map Node.path) item path a := by
  have hmem : ∀ other, other ∈ before ++ item :: after ↔
      other ∈ plan ∧ within (textOf target) other.path = true := by
    intro other
    rw [← hitems, mem_filter, mem_reverse]
  have hdecreasing : (before ++ item :: after).Pairwise fun x y => y.path < x.path := by
    rw [← hitems]
    exact (pairwise_reverse.mpr hsorted).filter _
  obtain ⟨-, hbehind, hbefore⟩ := pairwise_append.mp hdecreasing
  obtain ⟨hitem, hwithin⟩ := (hmem item).mp (by simp)
  obtain ⟨path, a, ha, htext⟩ :=
    mem_treeTexts.mp ((hagrees.paths item.path).mpr (mem_map_of_mem hitem))
  have hnode := PathTree.get_eq_some.mp ha
  rw [← htext, within_textOf hne] at hwithin
  refine ⟨path, a, htext.symm, ?_, ha, ?_, ?_, ?_⟩
  · intro hnil
    rw [hnil] at hwithin
    exact hne (prefix_nil.mp hwithin)
  · exact sameNode_iff.mpr ⟨hagrees.records (path, a) hnode item hitem htext.symm,
      hagrees.owner (path, a) hnode, hagrees.single (path, a) hnode⟩
  · intro hearlier
    obtain ⟨other, hother, hpath⟩ := mem_map.mp hearlier
    have hless := hbefore other hother item mem_cons_self
    rw [hpath, htext] at hless
    exact List.lt_irrefl _ hless
  · intro q b hb hle hother
    obtain ⟨next, hnext, hpath⟩ :=
      mem_map.mp ((hagrees.paths (textOf q)).mp (mem_treeTexts.mpr ⟨q, b, hb, rfl⟩))
    have hpathne : path ≠ [] := by
      intro hnil
      rw [hnil] at hwithin
      exact hne (prefix_nil.mp hwithin)
    have hless : item.path < next.path := by
      rw [hpath, ← htext]
      exact textOf_lt hpathne hle hother
    have hplace : next ∈ before ++ item :: after := by
      rw [hmem, hpath, within_textOf hne]
      exact ⟨hnext, hwithin.trans hle⟩
    rcases mem_append.mp hplace with hearlier | hlater
    · exact mem_map.mpr ⟨next, hearlier, hpath⟩
    · rcases mem_cons.mp hlater with rfl | hlater
      · exact absurd hless (List.lt_irrefl _)
      · have hback := (pairwise_cons.mp hbehind).1 next hlater
        exact absurd (List.lt_trans hless hback) (List.lt_irrefl _)

/-! ### A whole removal -/

/-- Something lies strictly below the path. -/
def Occupied (t : Tree) (path : Bytes) : Prop :=
  ∃ text ∈ treeTexts t, within path text = true ∧ text ≠ path

/-- The records within the target, in the order of the loop. -/
def targets (plan : List Node) (path : Bytes) : List Node :=
  plan.reverse.filter fun item => within path item.path

variable {target : List FileName} {recursive force : Bool} {stage : Option Stage}

/-- **How a removal begins**: with nothing to do, with a refusal, or with the loop. -/
theorem removeRun_cases (hsorted : Increasing Node.path plan) (hagrees : Agrees uid t plan)
    (hrun : removeRun uid faults touches plan (textOf target) recursive force t = (s, stage)) :
    (s = ⟨t, []⟩ ∧ t.get target = none) ∨
    (s = ⟨t, []⟩ ∧ recursive = false ∧ Occupied t (textOf target) ∧ stage = some .remove) ∨
    (t.get target ≠ none ∧ (recursive = true ∨ ¬ Occupied t (textOf target)) ∧
      removeLoop uid faults touches (targets plan (textOf target)) ⟨t, []⟩ = (s, stage)) := by
  have hoccupied : Occupied t (textOf target) ↔
      plan.any (fun item => textOf target != item.path && within (textOf target) item.path) =
        true := by
    simp only [Occupied, any_eq_true, Bool.and_eq_true, bne_iff_ne, hagrees.paths,
      mem_map]
    constructor
    · intro h
      obtain ⟨_, ⟨item, hitem, rfl⟩, hwithin, hne⟩ := h
      exact ⟨item, hitem, hne.symm, hwithin⟩
    · intro h
      obtain ⟨item, hitem, hne, hwithin⟩ := h
      exact ⟨item.path, ⟨item, hitem, rfl⟩, hwithin, hne.symm⟩
  unfold removeRun at hrun
  cases hfind : findNode plan (textOf target) with
  | none =>
    left
    rw [hfind] at hrun
    dsimp only at hrun
    refine ⟨?_, ?_⟩
    · split at hrun
      · exact (Prod.mk.inj hrun).1.symm
      · split at hrun
        · exact (Prod.mk.inj hrun).1.symm
        · exact (Prod.mk.inj hrun).1.symm
    · by_contra hsome
      obtain ⟨a, ha⟩ := Option.ne_none_iff_exists'.mp hsome
      have htext := (hagrees.paths _).mp (mem_treeTexts.mpr ⟨target, a, ha, rfl⟩)
      obtain ⟨item, hitem, hpath⟩ := mem_map.mp htext
      exact (search_eq_none hsorted).mp hfind item hitem hpath
  | some item =>
    right
    rw [hfind] at hrun
    dsimp only at hrun
    obtain ⟨hitem, hpath⟩ := (search_eq_some hsorted).mp hfind
    have htext := (hagrees.paths item.path).mpr (mem_map_of_mem hitem)
    obtain ⟨p, a, ha, hp⟩ := mem_treeTexts.mp htext
    obtain rfl : p = target := textOf_injective (hp.trans hpath)
    by_cases hrefused : (isDirMode item.mode && !recursive && plan.any
        (fun item => textOf p != item.path && within (textOf p) item.path)) = true
    · left
      rw [if_pos hrefused] at hrun
      simp only [Bool.and_eq_true, Bool.not_eq_true'] at hrefused
      obtain ⟨hs, hstage⟩ := Prod.mk.inj hrun
      exact ⟨hs.symm, hrefused.1.2, hoccupied.mpr (by simpa using hrefused.2), hstage.symm⟩
    · right
      rw [if_neg hrefused] at hrun
      refine ⟨by rw [ha]; exact Option.some_ne_none a, ?_, hrun⟩
      by_contra hboth
      obtain ⟨hrecursive, hmore⟩ := not_or.mp hboth
      have hoccupied' := not_not.mp hmore
      apply hrefused
      -- something below it, so it is a directory
      have hdir : isDirMode item.mode = true := by
        obtain ⟨text, htext', hwithin, hne⟩ := hoccupied'
        obtain ⟨q, b, hb, rfl⟩ := mem_treeTexts.mp htext'
        have hmode := (hagrees.records (p, a) (PathTree.get_eq_some.mp ha) item hitem
          hpath).2.2.1
        rw [← hmode]
        by_cases hroot : p = []
        · rw [hroot, PathTree.get_root] at ha
          rw [← Option.some.inj ha]
          exact t.root_inner
        · have hle := (within_textOf hroot).mp hwithin
          obtain ⟨directory, hdirectory, hinner⟩ :=
            PathTree.get_inner_above hb hle fun heq => hne (congrArg textOf heq.symm)
          rw [ha] at hdirectory
          rw [Option.some.inj hdirectory]
          exact hinner
      rw [hdir, hoccupied.mp hoccupied']
      simpa using hrecursive

/-- What every removal has lost lies within its target, is what it got to, and each
was got to behind all below it. -/
theorem removeRun_spec (hsorted : Increasing Node.path plan) (hagrees : Agrees uid t plan)
    (hne : target ≠ [])
    (hrun : removeRun uid faults touches plan (textOf target) recursive force t = (s, stage)) :
    ∃ done, done <+: targets plan (textOf target) ∧ s.attempts = done.map Node.path ∧
      (∃ gone, gone <+: s.attempts ∧ Pruned t gone s.tree) ∧
      ((∀ n, faults n = none) → recursive = true ∨ ¬ Occupied t (textOf target) →
        Pruned t ((targets plan (textOf target)).map Node.path) s.tree ∧
        (t.get target ≠ none → stage = none)) := by
  rcases removeRun_cases hsorted hagrees hrun with ⟨rfl, hnone⟩ | ⟨rfl, hfalse, hmore, -⟩ |
    ⟨hthere, -, hloop⟩
  · refine ⟨[], nil_prefix, rfl, ⟨[], nil_prefix, Pruned.refl t⟩, ?_⟩
    intro _ _
    refine ⟨?_, fun hsome => absurd hnone hsome⟩
    -- nothing is within a missing target
    have hnothing : targets plan (textOf target) = [] := by
      refine filter_eq_nil_iff.mpr ?_
      intro item hitem hwithin
      have htext := (hagrees.paths item.path).mpr
        (mem_map_of_mem (mem_reverse.mp hitem))
      obtain ⟨p, a, ha, hp⟩ := mem_treeTexts.mp htext
      rw [← hp, within_textOf hne] at hwithin
      rw [PathTree.get_none_below hnone hwithin] at ha
      cases ha
    rw [hnothing]
    exact Pruned.refl t
  · refine ⟨[], nil_prefix, rfl, ⟨[], nil_prefix, Pruned.refl t⟩, ?_⟩
    intro _ hallowed
    rcases hallowed with htrue | hbare
    · rw [hfalse] at htrue
      cases htrue
    · exact absurd hmore hbare
  · have hready : ∀ before item after, targets plan (textOf target) = before ++ item :: after →
        ∃ path a, Ready uid t (([] : List Bytes) ++ before.map Node.path) item path a :=
      fun before item after hitems => ready_of_agrees hsorted hagrees hne hitems
    obtain ⟨done, hdone, hattempts, hpruned, hall⟩ :=
      removeLoop_spec (s := ⟨t, []⟩) faults touches hready (Pruned.refl t)
    rw [hloop] at hattempts hpruned hall
    refine ⟨done, hdone, hattempts, hattempts ▸ hpruned, ?_⟩
    intro hnone _
    obtain ⟨hstage, -, hfinal⟩ := hall hnone
    exact ⟨hfinal, fun _ => hstage⟩

theorem mem_treeTexts_pruned (hagrees : Agrees uid t plan) {t' : Tree}
    (h : Pruned t ((targets plan (textOf target)).map Node.path) t') (text : Bytes) :
    text ∈ treeTexts t' ↔ text ∈ treeTexts t ∧ within (textOf target) text = false := by
  rw [mem_treeTexts, mem_treeTexts]
  constructor
  · intro htext
    obtain ⟨p, a', ha', rfl⟩ := htext
    obtain ⟨hleft, a, ha, -⟩ := h.get_of_mem ha'
    refine ⟨⟨p, a, ha, rfl⟩, ?_⟩
    by_contra hinside
    -- a record of the plan within the target, so it was removed
    obtain ⟨item, hitem, hpath⟩ :=
      mem_map.mp ((hagrees.paths (textOf p)).mp (mem_treeTexts.mpr ⟨p, a, ha, rfl⟩))
    refine hleft (mem_map.mpr ⟨item, ?_, hpath⟩)
    refine mem_filter.mpr ⟨mem_reverse.mpr hitem, ?_⟩
    rw [hpath]
    simpa using hinside
  · intro htext
    obtain ⟨⟨p, a, ha, rfl⟩, houtside⟩ := htext
    have hleft : textOf p ∉ (targets plan (textOf target)).map Node.path := by
      intro hmem
      obtain ⟨item, hitem, hpath⟩ := mem_map.mp hmem
      have hinside := (mem_filter.mp hitem).2
      rw [hpath, houtside] at hinside
      cases hinside
    obtain ⟨a', ha', -⟩ := h.kept p a ha hleft
    exact ⟨p, a', ha', rfl⟩

theorem below_attempted (hsorted : Increasing Node.path plan) (hagrees : Agrees uid t plan)
    (hne : target ≠ []) {done : List Node} (hdone : done <+: targets plan (textOf target))
    {before after : List Bytes} {text other : Bytes}
    (hsplit : done.map Node.path = before ++ text :: after) (hother : other ∈ treeTexts t)
    (hinside : within text other = true) (hdiffers : other ≠ text) : other ∈ before := by
  obtain ⟨front, rest, rfl, hfront, hrest⟩ := map_eq_append_iff.mp hsplit
  obtain ⟨item, back, rfl, rfl, -⟩ := map_eq_cons_iff.mp hrest
  obtain ⟨more, hmore⟩ := hdone
  have hitems : targets plan (textOf target) = front ++ item :: (back ++ more) := by
    rw [← hmore]
    simp
  obtain ⟨p, a, hready⟩ := ready_of_agrees hsorted hagrees hne hitems
  obtain ⟨q, b, hb, rfl⟩ := mem_treeTexts.mp hother
  rw [hready.text] at hinside hdiffers
  rw [← hfront]
  refine hready.below q b hb ((within_textOf hready.nonempty).mp hinside) ?_
  intro heq
  exact hdiffers (congrArg textOf heq)

/-- A record within the target was given to `_require_write`, if the plan is that of the snapshot
`_remove_plan` was asked about. -/
theorem removePlan_checked {b : Backend} {policy : ManagedPolicy} {w : Workspace} {found : Found}
    {parts : Path} {input : Bytes} (hinspect : inspect b w = .ok found)
    (hstat : ∀ e ∈ found.nodes, Stat e.2) (hsnapshot : snapshot found.nodes = .ok input)
    (hplan : readPlan (utf8Encode (Files.decimal input.length)) input = .ok plan)
    (hparts : ProperPath parts) (hne : parts ≠ [])
    (hchecked : removePlan b policy parts found recursive = .ok ()) (hitem : item ∈ plan)
    (hinside : within (pathText parts) item.path = true) :
    ∃ child ∈ found.nodes.keys, parts <+: child ∧ item.path = pathText child ∧
      requireWrite b policy (b.guest child) found.metadata = .ok () := by
  obtain ⟨rfl, hreadable⟩ := eq_planOf_of_readPlan hinspect hstat hsnapshot hplan
  obtain ⟨e, he, rfl⟩ := mem_map.mp hitem
  have hentry := (ordered_perm _).mem_iff.mp he
  have hle := (within_iff hparts (hreadable e hentry).proper hne).mp hinside
  have hkey : e.1 ∈ found.nodes.keys := mem_map_of_mem hentry
  refine ⟨e.1, hkey, hle, rfl, ?_⟩
  have hall := checkAll_eq_ok.mp hchecked e.1
    (mem_filter.mpr ⟨hkey, isPrefixOf_iff_prefix.mpr hle⟩)
  simp only [bind_eq_ok, require_eq_ok, exists_unit] at hall
  exact hall.2

/-- **A removal is exact.** For every plan `read_plan` accepts that agrees with the tree, and every
target: without a failing call exactly what is within the target is gone, unless the removal is not
recursive and something lies below, which removes nothing. Whatever calls fail, all outside the
target stays, only objects the loop got to are gone, it gets to each behind all below it, and each
was given to `_require_write` by `_remove_plan` on the same snapshot. -/
theorem remove_exact (uid : Nat) (t : Tree) (lengthText input : Bytes) (plan : List Node)
    (path : Bytes) (recursive force : Bool) (faults : Nat → Option Stage) (touches : Nat → Touch)
    (s : Removal) (stage : Option Stage) (hplan : readPlan lengthText input = .ok plan)
    (hagrees : Agrees uid t plan) (hvalid : validRelative path = true) (hnul : 0 ∉ path)
    (hrun : removeRun uid faults touches plan path recursive force t = (s, stage)) :
    ((∀ n, faults n = none) → recursive = true ∨ ¬ Occupied t path →
      (∀ text, text ∈ treeTexts s.tree ↔ text ∈ treeTexts t ∧ within path text = false) ∧
      (path ∈ treeTexts t → stage = none)) ∧
    (recursive = false → Occupied t path → s = ⟨t, []⟩ ∧ stage = some .remove) ∧
    (∀ p a, t.get p = some a → within path (textOf p) = false →
      ∃ a', s.tree.get p = some a' ∧ Kept a a') ∧
    (∀ text, text ∈ treeTexts s.tree → text ∈ treeTexts t) ∧
    (∀ text ∈ treeTexts t, text ∉ treeTexts s.tree → text ∈ s.attempts) ∧
    (∀ before text after, s.attempts = before ++ text :: after →
      ∀ other ∈ treeTexts t, within text other = true → other ≠ text → other ∈ before) ∧
    ∀ (b : Backend) (policy : ManagedPolicy) (w : Workspace) (found : Found) (parts : Path),
      inspect b w = .ok found → (∀ e ∈ found.nodes, Stat e.2) →
      snapshot found.nodes = .ok input → lengthText = utf8Encode (Files.decimal input.length) →
      ProperPath parts → path = pathText parts → removePlan b policy parts found recursive = .ok () →
      ∀ text ∈ s.attempts, ∃ child ∈ found.nodes.keys, parts <+: child ∧ text = pathText child ∧
        requireWrite b policy (b.guest child) found.metadata = .ok () := by
  obtain ⟨hsorted, -, -⟩ := readPlan_spec hplan
  obtain ⟨target, hne, rfl⟩ := exists_textOf hvalid hnul
  obtain ⟨done, hdone, hattempts, ⟨gone, hgone, hpruned⟩, hall⟩ :=
    removeRun_spec hsorted hagrees hne hrun
  have hdone' : ∀ item ∈ done, item ∈ plan ∧ within (textOf target) item.path = true := by
    intro item hitem
    obtain ⟨hmem, hwithin⟩ := mem_filter.mp (hdone.subset hitem)
    exact ⟨mem_reverse.mp hmem, hwithin⟩
  have hwithin : ∀ text ∈ s.attempts, within (textOf target) text = true := by
    intro text htext
    rw [hattempts] at htext
    obtain ⟨item, hitem, rfl⟩ := mem_map.mp htext
    exact (hdone' item hitem).2
  refine ⟨?_, ?_, ?_, ?_, ?_, ?_, ?_⟩
  · intro hnone hallowed
    obtain ⟨hfinal, hstage⟩ := hall hnone hallowed
    refine ⟨mem_treeTexts_pruned hagrees hfinal, ?_⟩
    intro hpresent
    obtain ⟨p, a, ha, hp⟩ := mem_treeTexts.mp hpresent
    obtain rfl := textOf_injective hp
    exact hstage (by rw [ha]; exact Option.some_ne_none a)
  · intro hfalse hoccupied
    rcases removeRun_cases hsorted hagrees hrun with ⟨-, hnone⟩ | ⟨hs, -, -, hstage⟩ |
      ⟨-, hallowed, -⟩
    · -- nothing lies below a missing target
      obtain ⟨text, htext, hinside, -⟩ := hoccupied
      obtain ⟨p, a, ha, rfl⟩ := mem_treeTexts.mp htext
      rw [PathTree.get_none_below hnone ((within_textOf hne).mp hinside)] at ha
      cases ha
    · exact ⟨hs, hstage⟩
    · rcases hallowed with htrue | hbare
      · rw [hfalse] at htrue
        cases htrue
      · exact absurd hoccupied hbare
  · intro p a ha houtside
    refine hpruned.kept p a ha ?_
    intro hmem
    rw [hwithin _ (hgone.subset hmem)] at houtside
    cases houtside
  · intro text htext
    obtain ⟨p, a', ha', rfl⟩ := mem_treeTexts.mp htext
    obtain ⟨-, a, ha, -⟩ := hpruned.get_of_mem ha'
    exact mem_treeTexts.mpr ⟨p, a, ha, rfl⟩
  · intro text htext hlost
    obtain ⟨p, a, ha, rfl⟩ := mem_treeTexts.mp htext
    by_contra hnever
    obtain ⟨a', ha', -⟩ := hpruned.kept p a ha fun hmem => hnever (hgone.subset hmem)
    exact hlost (mem_treeTexts.mpr ⟨p, a', ha', rfl⟩)
  · intro before text after hsplit other hother
    rw [hattempts] at hsplit
    exact below_attempted hsorted hagrees hne hdone hsplit hother
  · intro b policy w found parts hinspect hstat hsnapshot hlength hparts hpath hchecked text htext
    rw [hlength] at hplan
    rw [hattempts] at htext
    obtain ⟨item, hitem, rfl⟩ := mem_map.mp htext
    obtain ⟨hmem, hinside⟩ := hdone' item hitem
    have hpartsne : parts ≠ [] := by
      intro hnil
      rw [hnil, pathText_nil] at hpath
      exact textOf_ne_dot hne hpath
    rw [hpath] at hinside
    exact removePlan_checked hinspect hstat hsnapshot hplan hparts hpartsne hchecked hmem hinside

/-- The tree of the workspace `dated`. -/
def datedTree : Tree where
  root := ⟨1, 2, 0o040700, 1000, 3, 0, -1, 999999999, 0, 0⟩
  entries := [
    ([⟨[97], proper_a⟩], ⟨1, 3, 0o040700, 1000, 2, 0, 0, 0, 0, 0⟩),
    ([⟨[97, 46, 99], by decide⟩], ⟨1, 4, 0o100600, 1000, 1, 0, 0, 0, -2, 999999999⟩),
    ([⟨[97], proper_a⟩, ⟨[98], by decide⟩], ⟨1, 5, 0o100600, 1000, 1, 7, 0, 0, 0, 0⟩)]
  root_inner := by decide
  nodup := by decide
  nonempty := by decide
  parent := by decide

/-- The directory `a` is removed behind its file, and `a.c`, which comes between them in
the order of the plan, stays. -/
theorem remove_exact_dated : ∃ found data,
    inspect Sample.backend dated = .ok found ∧ snapshot found.nodes = .ok data ∧
    removePlan Sample.backend Sample.policy [['a']] found true = .ok () ∧
    ∃ s, removeRun 1000 (fun _ => none) (fun _ => ⟨2, 0, 9, 0, 9, 0⟩) (planOf found.nodes) [97] true
        false datedTree = (s, none) ∧
      s.attempts = [[97, 47, 98], [97]] ∧
      (∀ text, text ∈ treeTexts s.tree ↔
        text ∈ treeTexts datedTree ∧ within [97] text = false) ∧
      ∀ text ∈ s.attempts, ∃ child ∈ found.nodes.keys, [['a']] <+: child ∧ text = pathText child ∧
        requireWrite Sample.backend Sample.policy (Sample.backend.guest child) found.metadata =
          .ok () := by
  obtain ⟨found, data, hinspect, hfound, hdata, hstat, hplan⟩ := dated_inspected
  have hremove : (inspect Sample.backend dated >>= fun found =>
      removePlan Sample.backend Sample.policy [['a']] found true).isOk := by
    decide +kernel
  rw [hinspect, ok_bind] at hremove
  obtain ⟨⟨⟩, hremove⟩ := exists_ok_of_isOk hremove
  have hagrees : Agrees 1000 datedTree (planOf found.nodes) := by
    rw [hfound]
    refine ⟨?_, ?_, ?_, ?_⟩
    · have hperm : (treeTexts datedTree).Perm ((planOf dated.nodes).map Node.path) := by
        decide +kernel
      exact fun text => hperm.mem_iff
    all_goals decide +kernel
  obtain ⟨hexact, -, -, -, -, -, hchecked⟩ := remove_exact 1000 datedTree _ data (planOf found.nodes)
    [97] true false (fun _ => none) (fun _ => ⟨2, 0, 9, 0, 9, 0⟩) _ _ hplan hagrees
    (by decide +kernel) (by decide) rfl
  obtain ⟨htexts, hstage⟩ := hexact (fun _ => rfl) (.inl rfl)
  refine ⟨found, data, hinspect, hdata, hremove, _, Prod.ext rfl (hstage (by decide +kernel)), ?_,
    htexts, ?_⟩
  · rw [hfound]
    decide +kernel
  · exact hchecked Sample.backend Sample.policy dated found [['a']] hinspect hstat hdata rfl
      (by decide) (by decide +kernel) hremove

end FoldGPT.Files.Helper
