import Mathlib.Algebra.BigOperators.Group.List.Basic
import FoldGPT.Files.Copy
import FoldGPT.Files.Plan

/-!
# The native copy

`_copy_plan` authorizes a copy on the inspected tree; the helper's `copy_plan` then repeats the
checks that need no policy on the snapshot it was given, its preflight, and only after that makes
directories and writes files.

Main result: `copy_as_planned`.
-/

namespace FoldGPT.Files.Helper

open FoldGPT.Lib FoldGPT.Lib.Encoding List Option

/-! ### The preflight -/

/-- `total` and `new_count`. -/
structure Tally where
  total : Nat
  newCount : Nat
  deriving DecidableEq

/-- The loop over the ancestors of one target; only those of the source itself are counted. -/
def countAncestors (plan : List Node) (counts : Bool) : List Bytes → Nat → Except Errno Nat
  | [], newCount => .ok newCount
  | ancestor :: rest, newCount =>
    match findNode plan ancestor with
    | some parent => do
      require (isDirMode parent.mode) .enotdir
      countAncestors plan counts rest newCount
    | none => countAncestors plan counts rest (if counts then newCount + 1 else newCount)

/-- The checks on one object within the source. -/
def preflightItem (plan : List Node) (source destination : Bytes) (target item : Node)
    (tally : Tally) : Except Errno Tally := do
  let path := targetText source destination item.path
  require (path.length < pathMax && validRelative path) .enametoolong
  require (depthOf path ≤ MAX_DEPTH + if isRegMode item.mode then 1 else 0) .e2big
  let existing := findNode plan path
  require (existing.all fun other => other.mode &&& 0o170000 = item.mode &&& 0o170000) .einval
  let newCount := if existing.isNone then tally.newCount + 1 else tally.newCount
  require (!isRegMode item.mode || (item.size ≤ MAX_DATA && tally.total ≤ MAX_DATA - item.size &&
    item.mode &&& 0o7000 = 0)) .e2big
  let total := if isRegMode item.mode then tally.total + item.size else tally.total
  let newCount ← countAncestors plan (item = target && isDirMode target.mode) (ancestors path)
    newCount
  pure ⟨total, newCount⟩

def preflightLoop (plan : List Node) (source destination : Bytes) (target : Node) :
    List Node → Tally → Except Errno Tally
  | [], tally => .ok tally
  | item :: rest, tally =>
    if within source item.path then do
      let tally ← preflightItem plan source destination target item tally
      preflightLoop plan source destination target rest tally
    else preflightLoop plan source destination target rest tally

/-- The first half of `copy_plan`; the result is `new_count`. -/
def preflight (plan : List Node) (source destination : Bytes) (recursive : Bool) :
    Except Errno Nat :=
  match findNode plan source with
  | none => .error .enoent
  | some target => do
    require (!(within source destination || within destination source)) .einval
    require (!(isDirMode target.mode && !recursive)) .einval
    let tally ← preflightLoop plan source destination target plan ⟨0, 0⟩
    require (plan.length - 1 + tally.newCount ≤ MAX_ENTRIES) .e2big
    pure tally.newCount

/-! ### The run -/

/-- What the helper changes: a directory it makes, or a file it creates or truncates. -/
inductive Effect
  | mkdir (path : Bytes)
  | write (path : Bytes)
  deriving DecidableEq

def Effect.path : Effect → Bytes
  | .mkdir path | .write path => path

/-- How the kernel answers the calls for one object: they fail before anything is changed, they
fail after the change, or they succeed. -/
inductive Outcome
  | refused
  | interrupted
  | done
  deriving DecidableEq

/-- The tree below the workspace root, with directories told from files, what was changed so far,
and how many answers of the kernel were used. -/
structure Disk where
  tree : Bytes → Option Bool
  trace : List Effect
  calls : Nat

/-- The tree `verify_tree` found to be the one of the plan. -/
def Disk.ofPlan (plan : List Node) : Disk where
  tree path := (findNode plan path).map fun item => isDirMode item.mode
  trace := []
  calls := 0

/-- The change itself. -/
def Disk.change (disk : Disk) (effect : Effect) (isDir : Bool) : Disk where
  tree path := if path = effect.path then some isDir else disk.tree path
  trace := disk.trace ++ [effect]
  calls := disk.calls + 1

/-- The calls around one change. -/
def attempt (answers : Nat → Outcome) (effect : Effect) (isDir : Bool) (disk : Disk) :
    Disk × Bool :=
  match answers disk.calls with
  | .refused => ({ disk with calls := disk.calls + 1 }, false)
  | .interrupted => (disk.change effect isDir, false)
  | .done => (disk.change effect isDir, true)

/-- One round of `copy_directory`: a directory is opened, a missing one made in its parent. -/
def makeDirectory (answers : Nat → Outcome) (path : Bytes) (disk : Disk) : Disk × Bool :=
  match disk.tree path with
  | some true => ({ disk with calls := disk.calls + 1 }, answers disk.calls = .done)
  | some false => (disk, false)
  | none =>
    if disk.tree (parentText path) = some true then attempt answers (.mkdir path) true disk
    else (disk, false)

/-- `copy_file`, from the opening of the destination on; a missing one is created. -/
def copyFile (answers : Nat → Outcome) (path : Bytes) (disk : Disk) : Disk × Bool :=
  match disk.tree path with
  | some true => (disk, false)
  | some false => attempt answers (.write path) false disk
  | none =>
    if disk.tree (parentText path) = some true then attempt answers (.write path) false disk
    else (disk, false)

/-- A loop that stops at the first failure. -/
def each {α : Type} (step : α → Disk → Disk × Bool) : List α → Disk → Disk × Bool
  | [], disk => (disk, true)
  | item :: rest, disk =>
    if (step item disk).2 then each step rest (step item disk).1 else step item disk

/-- `copy_directory`: every directory on the way, from the top. -/
def copyDirectory (answers : Nat → Outcome) (path : Bytes) : Disk → Disk × Bool :=
  each (makeDirectory answers) ((ancestors path).reverse ++ [path])

def copyItem (answers : Nat → Outcome) (source destination : Bytes) (item : Node) :
    Disk → Disk × Bool :=
  if isDirMode item.mode then copyDirectory answers (targetText source destination item.path)
  else copyFile answers (targetText source destination item.path)

/-- `copy_plan` on a disk. -/
def copyRun (answers : Nat → Outcome) (plan : List Node) (source destination : Bytes)
    (recursive : Bool) (disk : Disk) : Disk × Bool :=
  match preflight plan source destination recursive with
  | .error _ => (disk, false)
  | .ok _ =>
    each (copyItem answers source destination) (plan.filter fun item => within source item.path)
      disk

/-! ### What every run keeps -/

/-- What holds of the disk throughout: nothing has gone, every object has its parent, all changes
are allowed ones and still there, and no directory was made behind something inside it. -/
structure Sound (start : Bytes → Option Bool) (allowed : Bytes → Prop) (disk : Disk) : Prop where
  kept : ∀ path, disk.tree path = none → start path = none
  parent : ∀ path, disk.tree path ≠ none → path ≠ [46] → disk.tree (parentText path) ≠ none
  there : ∀ effect ∈ disk.trace, disk.tree effect.path ≠ none
  allowed : ∀ effect ∈ disk.trace, allowed effect.path
  order : disk.trace.Pairwise fun earlier later =>
    ∀ path, later = .mkdir path → path ∉ ancestors earlier.path

variable {start : Bytes → Option Bool} {allowed : Bytes → Prop} {disk : Disk}
  {answers : Nat → Outcome}

variable {path : Bytes}

theorem Sound.above (h : Sound start allowed disk) (hpath : disk.tree path ≠ none) :
    ∀ above ∈ ancestors path, disk.tree above ≠ none := by
  induction hn : path.length using Nat.strong_induction_on generalizing path with
  | _ n ih =>
    rcases ancestors_eq path with hnil | ⟨hcons, hshorter⟩
    · rw [hnil]
      exact nofun
    · have hnotRoot : path ≠ [46] := by
        rintro rfl
        cases hcons
      have hparent := h.parent path hpath hnotRoot
      intro above habove
      rw [hcons] at habove
      rcases mem_cons.mp habove with rfl | habove
      · exact hparent
      · exact ih _ (hn ▸ hshorter) hparent rfl above habove

/-- **One change** keeps the disk sound, if it is allowed, has its parent, and makes a directory
only where nothing was. -/
theorem Sound.change (h : Sound start allowed disk) {effect : Effect} {isDir : Bool}
    (hallowed : allowed effect.path)
    (hparent : disk.tree effect.path = none → disk.tree (parentText effect.path) ≠ none)
    (hnew : ∀ path, effect = .mkdir path → disk.tree path = none) :
    Sound start allowed (disk.change effect isDir) := by
  have hmono : ∀ path, disk.tree path ≠ none → (disk.change effect isDir).tree path ≠ none := by
    intro path hpath
    simp only [Disk.change]
    split
    · exact some_ne_none _
    · exact hpath
  refine ⟨fun path hnone => ?_, fun path hpath hroot => ?_, fun e he => ?_, fun e he => ?_, ?_⟩
  · by_contra hstart
    exact hmono path (fun hdisk => hstart (h.kept path hdisk)) hnone
  · apply hmono
    by_cases hold : disk.tree path = none
    · have hself : path = effect.path := by
        by_contra hother
        exact hpath (by simpa only [Disk.change, if_neg hother] using hold)
      rw [hself] at hold ⊢
      exact hparent hold
    · exact h.parent path hold hroot
  · rcases mem_append.mp he with he | he
    · exact hmono _ (h.there e he)
    · rw [mem_singleton.mp he]
      simp [Disk.change]
  · rcases mem_append.mp he with he | he
    · exact h.allowed e he
    · rw [mem_singleton.mp he]
      exact hallowed
  · refine pairwise_append.mpr ⟨h.order, pairwise_singleton _ _, ?_⟩
    intro earlier hearlier later hlater path hmkdir hinside
    rw [mem_singleton.mp hlater] at hmkdir
    exact h.above (h.there earlier hearlier) path hinside (hnew path hmkdir)

theorem Sound.counted (h : Sound start allowed disk) (calls : Nat) :
    Sound start allowed { disk with calls := calls } :=
  ⟨h.kept, h.parent, h.there, h.allowed, h.order⟩

theorem Sound.attempt (h : Sound start allowed disk) {effect : Effect} {isDir : Bool}
    (hallowed : allowed effect.path)
    (hparent : disk.tree effect.path = none → disk.tree (parentText effect.path) ≠ none)
    (hnew : ∀ path, effect = .mkdir path → disk.tree path = none) :
    Sound start allowed (Helper.attempt answers effect isDir disk).1 := by
  rw [Helper.attempt]
  split
  · exact h.counted _
  · exact h.change hallowed hparent hnew
  · exact h.change hallowed hparent hnew

/-- A directory is made only where the plan has nothing, so only there it must be allowed. -/
theorem makeDirectory_sound (h : Sound start allowed disk)
    (hallowed : start path = none → allowed path) :
    Sound start allowed (makeDirectory answers path disk).1 := by
  rw [makeDirectory]
  split
  next => exact h.counted _
  next => exact h
  next hnone =>
    split
    next hparent =>
      refine h.attempt (hallowed (h.kept path hnone)) (fun _ => ?_) ?_
      · rw [Effect.path, hparent]
        exact some_ne_none _
      · intro other heq
        cases heq
        exact hnone
    next => exact h

theorem copyFile_sound (h : Sound start allowed disk) (hallowed : allowed path) :
    Sound start allowed (copyFile answers path disk).1 := by
  rw [copyFile]
  split
  next => exact h
  next hfile =>
    refine h.attempt hallowed (fun hnone => ?_) nofun
    rw [Effect.path, hfile] at hnone
    cases hnone
  next =>
    split
    next hparent =>
      refine h.attempt hallowed (fun _ => ?_) nofun
      rw [Effect.path, hparent]
      exact some_ne_none _
    next => exact h

/-- **The rule for loops**: what every round keeps, the loop keeps. -/
theorem each_invariant {α : Type} {step : α → Disk → Disk × Bool} {I : Disk → Prop}
    {items : List α} (hstep : ∀ item ∈ items, ∀ disk, I disk → I (step item disk).1) {disk : Disk}
    (h : I disk) : I (each step items disk).1 := by
  induction items generalizing disk with
  | nil => exact h
  | cons item rest ih =>
    have hnext := hstep item mem_cons_self disk h
    rw [each]
    split
    · exact ih (fun item hitem => hstep item (mem_cons_of_mem _ hitem)) hnext
    · exact hnext

theorem copyDirectory_sound (h : Sound start allowed disk) (hallowed : allowed path)
    (habove : ∀ above ∈ ancestors path, start above = none → allowed above) :
    Sound start allowed (copyDirectory answers path disk).1 := by
  refine each_invariant (I := Sound start allowed)
    (fun text htext disk h => makeDirectory_sound h fun hnone => ?_) h
  rcases mem_append.mp htext with hmem | hmem
  · exact habove text (mem_reverse.mp hmem) hnone
  · rw [mem_singleton.mp hmem]
    exact hallowed

/-- A path is the target of an object within the source, or missing and above such a target. -/
def Touches (plan : List Node) (source destination path : Bytes) : Prop :=
  ∃ item ∈ plan, within source item.path ∧
    (path = targetText source destination item.path ∨
      path ∈ ancestors (targetText source destination item.path) ∧ findNode plan path = none)

/-- **A whole run** keeps the disk sound: only targets are touched, and what is missing above
them. -/
theorem copyRun_sound {plan : List Node} {source destination : Bytes} {recursive : Bool}
    (h : Sound (Disk.ofPlan plan).tree (Touches plan source destination) disk) :
    Sound (Disk.ofPlan plan).tree (Touches plan source destination)
      (copyRun answers plan source destination recursive disk).1 := by
  rw [copyRun]
  split
  · exact h
  · refine each_invariant (fun item hitem disk h => ?_) h
    obtain ⟨hitem, hwithin⟩ := mem_filter.mp hitem
    have htarget : Touches plan source destination (targetText source destination item.path) :=
      ⟨item, hitem, hwithin, .inl rfl⟩
    rw [copyItem]
    split
    · refine copyDirectory_sound h htarget fun above habove hnone => ?_
      exact ⟨item, hitem, hwithin, .inr ⟨habove, map_eq_none_iff.mp hnone⟩⟩
    · exact copyFile_sound h htarget

/-! ### What the preflight counts -/

/-- What `_copy_plan` has made sure of when it passes for an existing source. -/
structure CopyChecked (b : Backend) (policy : ManagedPolicy) (prospective : List GuestPath)
    (nodes : Dict Path Info) (source destination : Path) (top : Info) (created : List Path) :
    Prop where
  nodup : nodes.keys.Nodup
  readable : ∀ e ∈ nodes, Readable e
  closed : ∀ e ∈ nodes, ∀ p, p <+: e.1 → nodes.get p ≠ none
  source_get : nodes.get source = some top
  destination_proper : ProperPath destination
  outside : ¬source <+: destination
  apart : ¬destination <+: source
  objects : ∀ e ∈ copySelected nodes source, ObjectChecked b policy prospective nodes top.isDir
    (copyTarget source destination e.1) created e.2
  created_nodup : created.Nodup
  counted : ∀ p ∈ created, nodes.get p = none ∧
    ∃ e ∈ copySelected nodes source, p <+: copyTarget source destination e.1

section

variable {b : Backend} {policy : ManagedPolicy} {prospective : List GuestPath}
  {nodes : Dict Path Info} {source destination : Path} {top : Info} {created : List Path}

theorem mem_copySelected {e : Path × Info} :
    e ∈ copySelected nodes source ↔ e ∈ nodes ∧ source <+: e.1 := by
  rw [copySelected, mem_filter, isPrefixOf_iff_prefix]

namespace CopyChecked

variable (h : CopyChecked b policy prospective nodes source destination top created)

include h

theorem source_ne : source ≠ [] := fun hnil => h.outside (hnil ▸ nil_prefix)

theorem destination_ne : destination ≠ [] := fun hnil => h.apart (hnil ▸ nil_prefix)

theorem source_mem : (source, top) ∈ copySelected nodes source :=
  mem_copySelected.mpr ⟨Dict.mem_of_get h.source_get, prefix_rfl⟩

variable {e : Path × Info}

theorem proper (he : e ∈ nodes) : ProperPath e.1 := (h.readable e he).proper

theorem source_proper : ProperPath source := h.proper (Dict.mem_of_get h.source_get)

theorem target_proper (he : e ∈ copySelected nodes source) :
    ProperPath (copyTarget source destination e.1) := by
  intro name hname
  rcases mem_append.mp hname with hname | hname
  · exact h.destination_proper name hname
  · exact h.proper (mem_copySelected.mp he).1 name (mem_of_mem_drop hname)

theorem target_ne (e : Path × Info) : copyTarget source destination e.1 ≠ [] := fun hnil =>
  h.destination_ne (append_eq_nil_iff.mp hnil).1

theorem targetText_record (he : e ∈ copySelected nodes source) :
    targetText (pathText source) (pathText destination) (record e).path =
      pathText (copyTarget source destination e.1) :=
  targetText_eq h.source_ne h.destination_ne (mem_copySelected.mp he).2

theorem findNode_eq {path : Path} (hpath : ProperPath path) :
    findNode (planOf nodes) (pathText path) =
      (nodes.get path).map fun info => record (path, info) :=
  findNode_planOf h.nodup (fun _ he => h.proper he) hpath

theorem within_record (he : e ∈ nodes) :
    within (pathText source) (record e).path = decide (source <+: e.1) := by
  rw [Bool.eq_iff_iff, decide_eq_true_eq]
  exact within_iff h.source_proper (h.proper he) h.source_ne

theorem record_eq_top (he : e ∈ nodes) : record e = record (source, top) ↔ e.1 = source := by
  constructor
  · intro heq
    exact relative_injective (h.proper he) h.source_proper (congrArg Node.path heq)
  · rintro rfl
    have hget := (Dict.get_eq_some h.nodup).mpr he
    rw [h.source_get, Option.some.injEq] at hget
    rw [hget]

theorem above_isDir (he : e ∈ copySelected nodes source) {above : Path}
    (habove : above ∈ aboves (copyTarget source destination e.1)) :
    AboveChecked b policy prospective nodes top.isDir created above := by
  obtain ⟨hne, hle, hother⟩ := mem_aboves.mp habove
  have hshorter := Nat.lt_of_le_of_ne hle.length_le fun heq => hother (hle.eq_of_length heq)
  have hchecked := (h.objects e he).above above.length (length_pos_iff.mpr hne) hshorter
  rwa [← prefix_iff_eq_take.mp hle] at hchecked

end CopyChecked

/-- The paths of a list that are not in the tree. -/
def missing (nodes : Dict Path Info) (paths : List Path) : List Path :=
  paths.filter fun path => (nodes.get path).isNone

theorem mem_missing {paths : List Path} {path : Path} :
    path ∈ missing nodes paths ↔ path ∈ paths ∧ nodes.get path = none := by
  rw [missing, mem_filter, isNone_iff_eq_none]

/-- What one object adds to `new_count`. -/
def newEntries (nodes : Dict Path Info) (source destination : Path) (top : Info)
    (e : Path × Info) : Nat :=
  (if (nodes.get (copyTarget source destination e.1)).isNone then 1 else 0) +
    if e.1 = source ∧ top.isDir then (missing nodes (aboves destination)).length else 0

theorem countAncestors_eq_ok {plan : List Node} {counts : Bool} {texts : List Bytes}
    (hdirs : ∀ text ∈ texts, ∀ parent, findNode plan text = some parent → isDirMode parent.mode)
    (newCount : Nat) :
    countAncestors plan counts texts newCount = .ok (newCount +
      if counts then (texts.filter fun text => (findNode plan text).isNone).length else 0) := by
  induction texts generalizing newCount with
  | nil => cases counts <;> rfl
  | cons text texts ih =>
    have hrest := ih fun t ht => hdirs t (mem_cons_of_mem _ ht)
    rw [countAncestors]
    cases hfind : findNode plan text with
    | some parent =>
      have hparent := hdirs text mem_cons_self parent hfind
      simp [hparent, require, hrest, hfind]
    | none =>
      simp only [hrest]
      cases counts with
      | false => simp
      | true =>
        simp only [if_true, filter_cons, hfind, isNone_none, length_cons]
        rw [Nat.add_assoc, Nat.add_comm 1]

theorem sum_map_ite_const {α : Type} (p : α → Bool) (n : Nat) (l : List α) :
    (l.map fun a => if p a then n else 0).sum = n * l.countP p := by
  induction l with
  | nil => rfl
  | cons a l ih =>
    rw [map_cons, sum_cons, ih, countP_cons]
    split
    · rw [Nat.mul_succ, Nat.add_comm]
    · rw [Nat.zero_add, Nat.add_zero]

namespace CopyChecked

variable (h : CopyChecked b policy prospective nodes source destination top created)

include h

variable {e : Path × Info}

theorem countAncestors_target (he : e ∈ copySelected nodes source)
    (counts : Bool) (newCount : Nat) :
    countAncestors (planOf nodes) counts
        (ancestors (pathText (copyTarget source destination e.1))) newCount =
      .ok (newCount + if counts then
        (missing nodes (aboves (copyTarget source destination e.1))).length else 0) := by
  have hproper : ∀ above ∈ aboves (copyTarget source destination e.1), ProperPath above :=
    fun above habove => properPath_of_le (h.target_proper he) (mem_aboves.mp habove).2.1
  have hmissing : (((aboves (copyTarget source destination e.1)).map pathText).filter
      fun text => (findNode (planOf nodes) text).isNone).length =
        (missing nodes (aboves (copyTarget source destination e.1))).length := by
    rw [List.filter_map, length_map, missing]
    congr 1
    refine filter_congr fun above habove => ?_
    rw [Function.comp_apply, h.findNode_eq (hproper above habove), isNone_map]
  rw [ancestors_pathText (h.target_proper he), countAncestors_eq_ok, hmissing]
  intro text htext parent hparent
  obtain ⟨above, habove, rfl⟩ := List.mem_map.mp htext
  rw [h.findNode_eq (hproper above habove), map_eq_some_iff] at hparent
  obtain ⟨info, hget, rfl⟩ := hparent
  have hchecked := h.above_isDir he habove
  simp only [AboveChecked, hget] at hchecked
  rw [record, (isDirMode_stMode (h.readable _ (Dict.mem_of_get hget)).stat.mode).1]
  exact hchecked

/-- What is at a target has the type bits of the object. -/
theorem existing_kind (he : e ∈ copySelected nodes source) :
    ((nodes.get (copyTarget source destination e.1)).map fun info =>
      record (copyTarget source destination e.1, info)).all
        (fun other => other.mode &&& 0o170000 = (record e).mode &&& 0o170000) = true := by
  cases hget : nodes.get (copyTarget source destination e.1) with
  | none => rfl
  | some info =>
    have hinfo := (h.readable _ (Dict.mem_of_get hget)).stat.mode
    have hmode := (h.readable e (mem_copySelected.mp he).1).stat.mode
    have hbits : info.stMode &&& 0o170000 = e.2.stMode &&& 0o170000 := by
      rw [stMode_and_type hinfo, stMode_and_type hmode, (h.objects e he).kind info hget]
    exact decide_eq_true hbits

theorem data_admitted (he : e ∈ copySelected nodes source)
    (hplain : e.2.isReg → e.2.mode &&& 0o7000 = 0) {total : Nat}
    (htotal : total + fileSize e ≤ MAX_DATA) :
    (!e.2.isReg || (decide ((record e).size ≤ MAX_DATA) &&
      decide (total ≤ MAX_DATA - (record e).size) &&
      decide ((record e).mode &&& 0o7000 = 0))) = true := by
  cases hkind : e.2.isReg with
  | false => rfl
  | true =>
    have hmode := (h.readable e (mem_copySelected.mp he).1).stat.mode
    have hspecial : (record e).mode &&& 0o7000 = 0 :=
      (stMode_and_special hmode).trans (hplain hkind)
    have hbound : total + (record e).size ≤ MAX_DATA := by
      rwa [fileSize, if_pos hkind] at htotal
    simp only [hspecial, Bool.not_true, Bool.false_or, Bool.and_eq_true, decide_eq_true_eq,
      and_true]
    omega

omit h in
theorem newCount_eq (e : Path × Info) (newCount : Nat) :
    (if (nodes.get (copyTarget source destination e.1)).isNone then newCount + 1 else newCount) +
      (if decide (e.1 = source ∧ top.isDir) then
        (missing nodes (aboves (copyTarget source destination e.1))).length else 0) =
      newCount + newEntries nodes source destination top e := by
  have hself : (if decide (e.1 = source ∧ top.isDir) then
      (missing nodes (aboves (copyTarget source destination e.1))).length else 0) =
      if e.1 = source ∧ top.isDir then (missing nodes (aboves destination)).length else 0 := by
    simp only [decide_eq_true_eq]
    split
    next hsource => rw [hsource.1, copyTarget_self]
    next => rfl
  rw [hself, newEntries, ← Nat.add_assoc]
  congr 1
  split <;> rfl

/-- **One object**: what `_copy_plan` has checked of it passes the preflight. -/
theorem preflightItem_eq_ok (he : e ∈ copySelected nodes source)
    (hshort : (pathText (copyTarget source destination e.1)).length < pathMax)
    (hplain : e.2.isReg → e.2.mode &&& 0o7000 = 0) {tally : Tally}
    (htotal : tally.total + fileSize e ≤ MAX_DATA) :
    preflightItem (planOf nodes) (pathText source) (pathText destination) (record (source, top))
        (record e) tally =
      .ok ⟨tally.total + fileSize e,
        tally.newCount + newEntries nodes source destination top e⟩ := by
  have hmem := (mem_copySelected.mp he).1
  have hproper := h.target_proper he
  have hreg : isRegMode (record e).mode = e.2.isReg :=
    (isDirMode_stMode (h.readable e hmem).stat.mode).2
  have htopDir : isDirMode (record (source, top)).mode = top.isDir :=
    (isDirMode_stMode (h.readable _ (Dict.mem_of_get h.source_get)).stat.mode).1
  have hvalid : (decide ((pathText (copyTarget source destination e.1)).length < pathMax) &&
      validRelative (pathText (copyTarget source destination e.1))) = true := by
    rw [validRelative_relative (h.target_ne e) hproper hshort, decide_eq_true hshort]
    rfl
  have hdepth := (h.objects e he).depth
  have hcounts : (decide (record e = record (source, top)) && top.isDir) =
      decide (e.1 = source ∧ top.isDir) := by
    rw [Bool.eq_iff_iff, Bool.and_eq_true, decide_eq_true_eq, decide_eq_true_eq,
      h.record_eq_top hmem]
  have hsum : (if e.2.isReg then tally.total + (record e).size else tally.total) =
      tally.total + fileSize e := by
    rw [fileSize]
    split <;> rfl
  rw [preflightItem]
  simp only [h.targetText_record he, hvalid, require, if_true, ok_bind, hreg,
    depthOf_pathText (h.target_ne e) hproper, hdepth, decide_true, h.findNode_eq hproper,
    h.existing_kind he, isNone_map, h.data_admitted he hplain htotal, hsum, htopDir,
    hcounts, h.countAncestors_target he, newCount_eq]
  rfl

/-- **All objects**, in the order of the snapshot. -/
theorem preflightLoop_eq_ok
    (hshort : ∀ e ∈ copySelected nodes source,
      (pathText (copyTarget source destination e.1)).length < pathMax)
    (hplain : ∀ e ∈ copySelected nodes source, e.2.isReg → e.2.mode &&& 0o7000 = 0)
    (rows : List (Path × Info)) (hrows : ∀ e ∈ rows, e ∈ nodes) (tally : Tally)
    (htotal : tally.total + ((copySelected rows source).map fileSize).sum ≤ MAX_DATA) :
    preflightLoop (planOf nodes) (pathText source) (pathText destination) (record (source, top))
        (rows.map record) tally =
      .ok ⟨tally.total + ((copySelected rows source).map fileSize).sum, tally.newCount +
        ((copySelected rows source).map (newEntries nodes source destination top)).sum⟩ := by
  induction rows generalizing tally with
  | nil => rfl
  | cons e rows ih =>
    have hrest := fun e he => hrows e (mem_cons_of_mem _ he)
    rw [map_cons, preflightLoop, h.within_record (hrows e mem_cons_self)]
    by_cases hle : source <+: e.1
    · have hselected : copySelected (e :: rows) source = e :: copySelected rows source :=
        filter_cons_of_pos (List.isPrefixOf_iff_prefix.mpr hle)
      have he := mem_copySelected.mpr ⟨hrows e mem_cons_self, hle⟩
      rw [hselected, map_cons, sum_cons] at htotal
      rw [if_pos (decide_eq_true hle), h.preflightItem_eq_ok he (hshort e he) (hplain e he)
        (by omega), ok_bind, ih hrest _ (by simp only; omega)]
      simp only [hselected, map_cons, sum_cons, Nat.add_assoc]
    · have hselected : copySelected (e :: rows) source = copySelected rows source :=
        filter_cons_of_neg fun heq => hle (List.isPrefixOf_iff_prefix.mp heq)
      rw [hselected] at htotal ⊢
      rw [if_neg (by simpa using hle), ih hrest _ htotal]

/-! ### Both count the same -/

theorem above_or_target (he : e ∈ copySelected nodes source) {p : Path}
    (hne : p ≠ []) (hle : p <+: copyTarget source destination e.1) :
    p ∈ aboves destination ∨
      ∃ e' ∈ copySelected nodes source, p = copyTarget source destination e'.1 := by
  obtain ⟨hmem, x, hx⟩ := mem_copySelected.mp he
  rw [← hx, copyTarget_append] at hle
  by_cases hinside : destination <+: p
  · obtain ⟨y, rfl⟩ := hinside
    rw [prefix_append_right_inj] at hle
    have hup : source ++ y <+: e.1 := hx ▸ (prefix_append_right_inj source).mpr hle
    obtain ⟨info, hinfo⟩ := ne_none_iff_exists'.mp (h.closed e hmem _ hup)
    refine .inr ⟨(source ++ y, info), ?_, (copyTarget_append source destination y).symm⟩
    exact mem_copySelected.mpr ⟨Dict.mem_of_get hinfo, prefix_append source y⟩
  · refine .inl (mem_aboves.mpr ⟨hne, ?_, fun heq => hinside (heq ▸ prefix_rfl)⟩)
    exact (List.prefix_or_prefix_of_prefix hle (prefix_append destination x)).resolve_right
      hinside

theorem targets_nodup :
    ((copySelected nodes source).map fun e => copyTarget source destination e.1).Nodup := by
  have hkeys : ((copySelected nodes source).map Prod.fst).Nodup :=
    Dict.nodup_keys_filter h.nodup _
  have hpairs : (copySelected nodes source).Pairwise fun a b => a.1 ≠ b.1 :=
    pairwise_map.mp hkeys
  refine pairwise_map.mpr (hpairs.imp_of_mem ?_)
  intro a b ha hb hne heq
  obtain ⟨-, x, hx⟩ := mem_copySelected.mp ha
  obtain ⟨-, y, hy⟩ := mem_copySelected.mp hb
  rw [← hx, ← hy, copyTarget_append, copyTarget_append, append_cancel_left_eq] at heq
  exact hne (by rw [← hx, ← hy, heq])

/-- **The set `created`** holds the missing targets, and what is missing above the destination if
a directory is copied. -/
theorem created_perm : created.Perm
    (missing nodes ((copySelected nodes source).map fun e => copyTarget source destination e.1) ++
      if top.isDir then missing nodes (aboves destination) else []) := by
  have hroot : nodes.get [] ≠ none := h.closed _ (Dict.mem_of_get h.source_get) [] nil_prefix
  refine (perm_ext_iff_of_nodup h.created_nodup ?_).mpr fun p => ?_
  · refine nodup_append'.mpr ⟨h.targets_nodup.filter _, ?_, ?_⟩
    · split
      · exact (nodup_aboves destination).filter _
      · exact nodup_nil
    · intro p htarget habove
      obtain ⟨e, -, rfl⟩ := List.mem_map.mp (mem_missing.mp htarget).1
      split at habove
      next =>
        obtain ⟨-, hle, hother⟩ := mem_aboves.mp (mem_missing.mp habove).1
        exact hother (hle.eq_of_length_le (prefix_append destination _).length_le)
      next => cases habove
  · rw [mem_append, mem_missing]
    constructor
    · intro hp
      obtain ⟨hnone, e, he, hle⟩ := h.counted p hp
      have hne : p ≠ [] := fun hnil => hroot (hnil ▸ hnone)
      rcases h.above_or_target he hne hle with habove | ⟨e', he', rfl⟩
      · refine .inr ?_
        have hself : p ∈ aboves (copyTarget source destination (source, top).1) := by
          rwa [copyTarget_self]
        have hchecked := h.above_isDir h.source_mem hself
        simp only [AboveChecked, hnone] at hchecked
        rw [if_pos hchecked.1]
        exact mem_missing.mpr ⟨habove, hnone⟩
      · exact .inl ⟨List.mem_map_of_mem he', hnone⟩
    · rintro (⟨hp, hnone⟩ | hp)
      · obtain ⟨e, he, rfl⟩ := List.mem_map.mp hp
        exact (h.objects e he).created hnone
      · split at hp
        next =>
          obtain ⟨habove, hnone⟩ := mem_missing.mp hp
          have hself : p ∈ aboves (copyTarget source destination (source, top).1) := by
            rwa [copyTarget_self]
          have hchecked := h.above_isDir h.source_mem hself
          simp only [AboveChecked, hnone] at hchecked
          exact hchecked.2.2
        next => cases hp

theorem sum_newEntries :
    ((copySelected nodes source).map (newEntries nodes source destination top)).sum =
      created.length := by
  have hkeys : ((copySelected nodes source).map Prod.fst).Nodup :=
    Dict.nodup_keys_filter h.nodup _
  have htargets : ((copySelected nodes source).map fun e =>
      if (nodes.get (copyTarget source destination e.1)).isNone then 1 else 0).sum =
      (missing nodes
        ((copySelected nodes source).map fun e => copyTarget source destination e.1)).length := by
    rw [sum_map_ite_const
        (fun e : Path × Info => (nodes.get (copyTarget source destination e.1)).isNone),
      Nat.one_mul, missing, ← countP_eq_length_filter, countP_map]
    rfl
  have habove : ((copySelected nodes source).map fun e =>
      if e.1 = source ∧ top.isDir then (missing nodes (aboves destination)).length else 0).sum =
      if top.isDir then (missing nodes (aboves destination)).length else 0 := by
    cases hdir : top.isDir with
    | false => simp
    | true =>
      have hone : (copySelected nodes source).countP (fun e => decide (e.1 = source)) = 1 := by
        have hcount := count_eq_one_of_mem hkeys (List.mem_map_of_mem h.source_mem)
        rw [count_eq_countP, countP_map] at hcount
        rw [← hcount]
        exact countP_congr fun e _ => by simp
      have hsum := sum_map_ite_const (fun e : Path × Info => decide (e.1 = source))
        (missing nodes (aboves destination)).length (copySelected nodes source)
      rw [hone, Nat.mul_one] at hsum
      simpa using hsum
  have hsplit := sum_map_add (l := copySelected nodes source)
    (f := fun e => if (nodes.get (copyTarget source destination e.1)).isNone then 1 else 0)
    (g := fun e =>
      if e.1 = source ∧ top.isDir then (missing nodes (aboves destination)).length else 0)
  rw [htargets, habove] at hsplit
  rw [h.created_perm.length_eq, length_append]
  refine hsplit.trans ?_
  congr 1
  split <;> rfl

/-- **The preflight** passes what `_copy_plan` passed, with the same count of new entries. -/
theorem preflight_eq_ok {recursive : Bool}
    (hshort : ∀ e ∈ copySelected nodes source,
      (pathText (copyTarget source destination e.1)).length < pathMax)
    (hplain : ∀ e ∈ copySelected nodes source, e.2.isReg → e.2.mode &&& 0o7000 = 0)
    (htotal : ((copySelected nodes source).map fileSize).sum ≤ MAX_DATA)
    (hrecursive : top.isDir → recursive)
    (hlimit : nodes.length - 1 + created.length ≤ MAX_ENTRIES) :
    preflight (planOf nodes) (pathText source) (pathText destination) recursive =
      .ok created.length := by
  have hperm : (copySelected (ordered nodes) source).Perm (copySelected nodes source) :=
    (ordered_perm nodes).filter _
  have htop : isDirMode (record (source, top)).mode = top.isDir :=
    (isDirMode_stMode (h.readable _ (Dict.mem_of_get h.source_get)).stat.mode).1
  have hout : within (pathText source) (pathText destination) = false :=
    Bool.eq_false_iff.mpr fun hin =>
      h.outside ((within_iff h.source_proper h.destination_proper h.source_ne).mp hin)
  have hapart : within (pathText destination) (pathText source) = false :=
    Bool.eq_false_iff.mpr fun hin =>
      h.apart ((within_iff h.destination_proper h.source_proper h.destination_ne).mp hin)
  have hloop := h.preflightLoop_eq_ok hshort hplain (ordered nodes)
    (fun e he => (ordered_perm nodes).mem_iff.mp he) ⟨0, 0⟩
    (by rw [Nat.zero_add, (hperm.map fileSize).sum_eq]; exact htotal)
  rw [(hperm.map (newEntries nodes source destination top)).sum_eq, h.sum_newEntries,
    Nat.zero_add, Nat.zero_add] at hloop
  have hlength : (planOf nodes).length = nodes.length := by
    rw [planOf, length_map, (ordered_perm nodes).length_eq]
  have hdir : (!(top.isDir && !recursive)) = true := by
    cases hkind : top.isDir with
    | false => rfl
    | true => simp [hrecursive hkind]
  rw [preflight, h.findNode_eq h.source_proper, h.source_get, map_some]
  simp only [hout, hapart, htop, hdir, require, Bool.or_self, Bool.not_false, if_true, ok_bind]
  rw [show preflightLoop (planOf nodes) _ _ _ (planOf nodes) _ = _ from hloop, ok_bind]
  simp only [hlength, hlimit, decide_true, if_true, ok_bind]
  rfl

end CopyChecked

/-- The paths `_copy_plan` gives to `_require_write`: every target, and what is missing above
one. -/
def writeChecks (nodes : Dict Path Info) (source destination : Path) : List Path :=
  (copySelected nodes source).flatMap fun e =>
    copyTarget source destination e.1 :: missing nodes (aboves (copyTarget source destination e.1))

theorem CopyChecked.of_touches
    (h : CopyChecked b policy prospective nodes source destination top created) {text : Bytes}
    (htouches : Touches (planOf nodes) (pathText source) (pathText destination) text) :
    ∃ path ∈ writeChecks nodes source destination, text = pathText path ∧
      requireWrite b policy (b.guest path) prospective = .ok () := by
  obtain ⟨item, hitem, hwithin, htext⟩ := htouches
  obtain ⟨e, he, rfl⟩ := List.mem_map.mp hitem
  have hmem := (ordered_perm nodes).mem_iff.mp he
  rw [h.within_record hmem, decide_eq_true_eq] at hwithin
  have hselected := mem_copySelected.mpr ⟨hmem, hwithin⟩
  rw [h.targetText_record hselected] at htext
  rcases htext with rfl | ⟨habove, hnone⟩
  · refine ⟨_, ?_, rfl, (h.objects e hselected).write⟩
    exact mem_flatMap.mpr ⟨e, hselected, mem_cons_self⟩
  · rw [ancestors_pathText (h.target_proper hselected)] at habove
    obtain ⟨above, hmem, rfl⟩ := List.mem_map.mp habove
    have hproper := properPath_of_le (h.target_proper hselected) (mem_aboves.mp hmem).2.1
    rw [h.findNode_eq hproper, map_eq_none_iff] at hnone
    have hchecked := h.above_isDir hselected hmem
    simp only [AboveChecked, hnone] at hchecked
    refine ⟨above, mem_flatMap.mpr ⟨e, hselected, ?_⟩, rfl, hchecked.2.1⟩
    exact mem_cons_of_mem _ (mem_missing.mpr ⟨hmem, hnone⟩)

end

/-! ### The native copy and its plan -/

variable {b : Backend} {policy : ManagedPolicy} {w : Workspace} {found : Found}

theorem closed_of_inspected (hins : Inspected b w found) {e : Path × Info} (he : e ∈ found.nodes)
    {p : Path} (hle : p <+: e.1) : found.nodes.get p ≠ none := by
  have hget : w.get e.1 = some e.2 := Workspace.get_eq_some.mpr (hins.nodes.mem_iff.mp he)
  rw [hins.get_nodes]
  by_cases heq : p = e.1
  · rw [heq, hget]
    exact some_ne_none _
  · obtain ⟨info, hinfo, -⟩ := Workspace.isDirectory_iff.mp (Workspace.isDirectory_above hget hle heq)
    rw [hinfo]
    exact some_ne_none _

theorem copyChecked_of_copyPlan (hins : Inspected b w found)
    (hreadable : ∀ e ∈ found.nodes, Readable e) {source destination : Path} {recursive : Bool}
    {top : Info} (hdestination : ProperPath destination) (htop : found.nodes.get source = some top)
    (hcopy : copyPlan b policy source destination found recursive = .ok ()) :
    ∃ created, copyLoop b policy (prospectiveMetadata b found source destination) found.nodes
        top.isDir source destination (copySelected found.nodes source) [] 0 = .ok created ∧
      CopyChecked b policy (prospectiveMetadata b found source destination) found.nodes source
        destination top created ∧
      (top.isDir → recursive) ∧ found.nodes.length - 1 + created.length ≤ MAX_ENTRIES := by
  simp only [copyPlan, htop, bind_eq_ok, require_eq_ok, exists_const, decide_eq_true_eq,
    Bool.or_eq_false_iff, Bool.or_eq_true, Bool.not_eq_eq_eq_not, Bool.not_true] at hcopy
  obtain ⟨⟨hapart, houtside⟩, hrecursive, created, hloop, hlimit⟩ := hcopy
  obtain ⟨-, hnodup, hobjects⟩ := copyLoop_spec hloop nodup_nil
  refine ⟨created, hloop, ?_, fun hdir => ?_, hlimit⟩
  · exact {
      nodup := keys_nodup_of_inspected hins
      readable := hreadable
      closed := fun e he p hle => closed_of_inspected hins he hle
      source_get := htop
      destination_proper := hdestination
      outside := fun hle => by
        rw [List.isPrefixOf_iff_prefix.mpr hle] at houtside
        cases houtside
      apart := fun hle => by
        rw [List.isPrefixOf_iff_prefix.mpr hle] at hapart
        cases hapart
      objects := hobjects
      created_nodup := hnodup
      counted := fun p hp => (copyLoop_created hloop hp).resolve_left not_mem_nil }
  · rcases hrecursive with hfile | hrecursive
    · rw [hfile] at hdir
      cases hdir
    · exact hrecursive

theorem sound_ofPlan (hins : Inspected b w found) (hreadable : ∀ e ∈ found.nodes, Readable e) :
    Sound (Disk.ofPlan (planOf found.nodes)).tree allowed (Disk.ofPlan (planOf found.nodes)) := by
  have hnodup := keys_nodup_of_inspected hins
  have hproper : ∀ e ∈ found.nodes, ProperPath e.1 := fun e he => (hreadable e he).proper
  refine ⟨fun _ hnone => hnone, fun path hpath hroot => ?_, nofun, nofun, List.Pairwise.nil⟩
  obtain ⟨item, hitem⟩ := ne_none_iff_exists'.mp fun hnone =>
    hpath (map_eq_none_iff.mpr hnone)
  obtain ⟨hmem, rfl⟩ := (search_eq_some (increasing_ordered hnodup hproper)).mp hitem
  obtain ⟨e, he, rfl⟩ := List.mem_map.mp hmem
  have he := (ordered_perm _).mem_iff.mp he
  have hne : e.1 ≠ [] := fun hnil => hroot (by rw [record, hnil, pathText_nil])
  have hle := dropLast_prefix e.1
  have hparent : findNode (planOf found.nodes) (parentText (record e).path) ≠ none := by
    rw [record, parentText_pathText hne (hproper e he),
      findNode_planOf hnodup hproper (properPath_of_le (hproper e he) hle), Ne,
      map_eq_none_iff]
    exact closed_of_inspected hins he hle
  exact fun hnone => hparent (map_eq_none_iff.mp hnone)

/-- **The native copy.** What `_copy_plan` passed for an existing source passes the preflight on
the same snapshot with the same count of new entries, if every destination path fits; and however
the kernel answers, the helper changes only what was given to `_require_write` and permitted, makes
no directory behind something inside it, and changes nothing if its preflight fails. -/
theorem copy_as_planned (b : Backend) (policy : ManagedPolicy) (w : Workspace) (found : Found)
    (data : Bytes) (plan : List Node) (source destination : Path) (recursive : Bool)
    (hinspect : inspect b w = .ok found) (hstat : ∀ e ∈ found.nodes, Stat e.2)
    (hsnapshot : snapshot found.nodes = .ok data)
    (hplan : readPlan (utf8Encode (Files.decimal data.length)) data = .ok plan)
    (hsource : ProperPath source) (hdestination : ProperPath destination)
    (hcopy : copyPlan b policy source destination found recursive = .ok ()) :
    (∀ top, found.nodes.get source = some top →
      (∀ e ∈ copySelected found.nodes source,
        (pathText (copyTarget source destination e.1)).length < pathMax) →
      ∃ created, copyLoop b policy (prospectiveMetadata b found source destination) found.nodes
          top.isDir source destination (copySelected found.nodes source) [] 0 = .ok created ∧
        preflight plan (pathText source) (pathText destination) recursive = .ok created.length) ∧
    ∀ answers : Nat → Outcome,
      let disk := (copyRun answers plan (pathText source) (pathText destination) recursive
        (Disk.ofPlan plan)).1
      (∀ effect ∈ disk.trace, ∃ path ∈ writeChecks found.nodes source destination,
        effect.path = pathText path ∧
        requireWrite b policy (b.guest path) (prospectiveMetadata b found source destination) =
          .ok ()) ∧
      (disk.trace.Pairwise fun earlier later =>
        ∀ path, later = .mkdir path → path ∉ ancestors earlier.path) ∧
      ∀ errno, preflight plan (pathText source) (pathText destination) recursive = .error errno →
        disk = Disk.ofPlan plan := by
  obtain ⟨-, hins⟩ := inspect_spec hinspect
  obtain ⟨rfl, hreadable⟩ := eq_planOf_of_readPlan hinspect hstat hsnapshot hplan
  refine ⟨fun top htop hshort => ?_, fun answers => ?_⟩
  · obtain ⟨created, hloop, hchecked, hrecursive, hlimit⟩ :=
      copyChecked_of_copyPlan hins hreadable hdestination htop hcopy
    obtain ⟨htotal, hplain⟩ := copyLoop_data hloop (Nat.zero_le _)
    rw [Nat.zero_add] at htotal
    exact ⟨created, hloop, hchecked.preflight_eq_ok hshort hplain htotal hrecursive hlimit⟩
  · have hsound : Sound _ _ (copyRun answers _ (pathText source) (pathText destination) recursive
        _).1 := copyRun_sound (sound_ofPlan hins hreadable)
    refine ⟨fun effect heffect => ?_, hsound.order, fun errno herror => by rw [copyRun, herror]⟩
    have htouches := hsound.allowed effect heffect
    cases htop : found.nodes.get source with
    | some top =>
      obtain ⟨_, -, hchecked, -⟩ :=
        copyChecked_of_copyPlan hins hreadable hdestination htop hcopy
      exact hchecked.of_touches htouches
    | none =>
      -- the helper does not find the source either, so nothing was changed
      have hmissing : findNode (planOf found.nodes) (pathText source) = none := by
        rw [findNode_planOf (keys_nodup_of_inspected hins) (fun e he => (hreadable e he).proper)
          hsource, htop]
        rfl
      have herror : preflight (planOf found.nodes) (pathText source) (pathText destination)
          recursive = .error .enoent := by rw [preflight, hmissing]
      rw [copyRun, herror] at heffect
      cases heffect

/-- The directory `a` with its file `b`, copied to `z/y`: two directories are made, then the file
is written. -/
theorem copy_as_planned_dated : ∃ found data plan,
    inspect Sample.backend dated = .ok found ∧ snapshot found.nodes = .ok data ∧
    readPlan (utf8Encode (Files.decimal data.length)) data = .ok plan ∧
    copyPlan Sample.backend Sample.policy [['a']] [['z'], ['y']] found true = .ok () ∧
    preflight plan (pathText [['a']]) (pathText [['z'], ['y']]) true = .ok 3 ∧
    (copyRun (fun _ => .done) plan (pathText [['a']]) (pathText [['z'], ['y']]) true
      (Disk.ofPlan plan)).1.trace =
        [.mkdir (pathText [['z']]), .mkdir (pathText [['z'], ['y']]),
          .write (pathText [['z'], ['y'], ['b']])] ∧
    ∀ answers, ∀ effect ∈ (copyRun answers plan (pathText [['a']]) (pathText [['z'], ['y']]) true
        (Disk.ofPlan plan)).1.trace, ∃ path ∈ [[['z'], ['y']], [['z']], [['z'], ['y'], ['b']]],
      effect.path = pathText path := by
  obtain ⟨found, data, hinspect, hfound, hdata, hstat, hplan⟩ := dated_inspected
  have hcopy : (inspect Sample.backend dated >>= fun found =>
      copyPlan Sample.backend Sample.policy [['a']] [['z'], ['y']] found true).isOk := by
    decide +kernel
  rw [hinspect, ok_bind] at hcopy
  obtain ⟨⟨⟩, hcopy⟩ := exists_ok_of_isOk hcopy
  obtain ⟨-, hrun⟩ := copy_as_planned Sample.backend Sample.policy dated found data _
    [['a']] [['z'], ['y']] true hinspect hstat hdata hplan (by decide) (by decide) hcopy
  refine ⟨found, data, planOf found.nodes, hinspect, hdata, hplan, hcopy, ?_, ?_, ?_⟩
  · rw [hfound]
    decide +kernel
  · rw [hfound]
    decide +kernel
  · intro answers effect heffect
    obtain ⟨path, hpath, htext, -⟩ := (hrun answers).1 effect heffect
    have hchecks : writeChecks dated.nodes [['a']] [['z'], ['y']] ⊆
        [[['z'], ['y']], [['z']], [['z'], ['y'], ['b']]] := by decide
    rw [hfound] at hpath
    exact ⟨path, hchecks hpath, htext⟩

end FoldGPT.Files.Helper
