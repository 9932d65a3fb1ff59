import FoldGPT.Files.Backend

/-!
# Walking the workspace

`_walk` lists what lies below a directory in breadth-first order, up to bounds on
entries, directories, bytes and depth. `WalkState` is what the two loops keep; the
paths listed and the directories opened are kept as paths, and the answer shows the
URIs of the first.

Main result: `walk_exact`.
-/

namespace FoldGPT.Files

open FoldGPT.Lib FoldGPT.Lib.Encoding
open List hiding utf8Encode

/-! ### Options -/

/-- The options a walk accepts, with their bounds. -/
structure WalkOptions where
  maxDepth : Nat
  maxDirectories : Nat
  maxEntries : Nat
  pruneHidden : Bool
  depth_le : maxDepth ≤ 64
  directories_pos : 1 ≤ maxDirectories
  directories_le : maxDirectories ≤ 10000
  entries_pos : 1 ≤ maxEntries
  entries_le : maxEntries ≤ 50000

def walkKeys : List String :=
  ["maxDepth", "maxDirectories", "maxEntries", "followDirectorySymlinks", "pruneHiddenDirectories"]

/-- `{"pruneHiddenDirectories": False, **options}`. -/
def walkDefaults (options : Members) : Members :=
  Dict.update [("pruneHiddenDirectories", .bool false)] options

/-- An integer that is not too small; a Boolean is no integer here. -/
def walkBound (options : Members) (key : String) (low : Nat) :
    Except Failure { n : Nat // low ≤ n } :=
  match Dict.get options key with
  | some (.int i) =>
    if h : (low : Int) ≤ i then .ok ⟨i.toNat, by omega⟩
    else .error (.value "Invalid filesystem walk bound")
  | _ => .error (.value "Invalid filesystem walk bound")

def walkFlag (options : Members) (key : String) : Except Failure Bool :=
  match Dict.get options key with
  | some (.bool value) => .ok value
  | _ => .error (.value "Invalid filesystem walk option")

/-- The checks of `_walk` on its options. Links are never followed, so that option is
checked and not kept. -/
def readOptions : Json → Except Failure WalkOptions
  | .obj options => do
    require (options.all (fun e => walkKeys.contains e.1) &&
        (walkKeys.filter (· != "pruneHiddenDirectories")).all fun key =>
          (Dict.get options key).isSome)
      (.value "Walk requires all exact reviewed options")
    let maxDepth ← walkBound (walkDefaults options) "maxDepth" 0
    let maxDirectories ← walkBound (walkDefaults options) "maxDirectories" 1
    let maxEntries ← walkBound (walkDefaults options) "maxEntries" 1
    let _ ← walkFlag (walkDefaults options) "followDirectorySymlinks"
    let pruneHidden ← walkFlag (walkDefaults options) "pruneHiddenDirectories"
    if h : maxDepth.val ≤ 64 ∧ maxDirectories.val ≤ 10000 ∧ maxEntries.val ≤ 50000 then
      pure ⟨maxDepth, maxDirectories, maxEntries, pruneHidden, h.1, maxDirectories.property, h.2.1,
        maxEntries.property, h.2.2⟩
    else throw (.value "Walk limits exceed the admitted workspace bounds")
  | _ => .error (.value "Walk requires all exact reviewed options")

/-! ### The loops -/

/-- `children[directory]`: what lies in a directory, by the bytes of the names. -/
def childrenOf (nodes : Dict Path Info) (directory : Path) : List Path :=
  (nodes.keys.filter fun child => child != [] && child.dropLast == directory).insertionSort
    fun a b => utf8Encode (a.getLastD []) ≤ utf8Encode (b.getLastD [])

/-- `stat.S_ISDIR(nodes[child].st_mode)`. -/
def isDirectoryNode (nodes : Dict Path Info) (child : Path) : Bool :=
  (nodes.get child).any Info.isDir

/-- `child[-1].startswith(".")`. -/
def hidden (child : Path) : Bool := (child.getLastD []).head? = some '.'

/-- What the loops of `_walk` keep; `listed` and `opened` are the entries of the answer
and the directories taken from the queue. -/
structure WalkState (options : WalkOptions) where
  queue : List (Path × Nat)
  directoryCount : Nat
  entryCount : Nat
  responseBytes : Nat
  listed : List Path
  opened : List Path
  truncated : Bool
  counted : directoryCount ≤ options.maxDirectories

variable {options : WalkOptions} {b : Backend} {policy : ManagedPolicy} {nodes : Dict Path Info}

/-- Whether a child of a directory at the given depth is to be walked through as well. -/
def enters (options : WalkOptions) (nodes : Dict Path Info) (depth : Nat) (child : Path) : Bool :=
  isDirectoryNode nodes child && decide (depth < options.maxDepth) &&
    !(options.pruneHidden && hidden child)

/-- The end of the loop body: a directory is queued, or the answer is cut off. -/
def WalkState.enqueue (nodes : Dict Path Info) (depth : Nat) (child : Path)
    (s : WalkState options) : WalkState options :=
  if enters options nodes depth child then
    if h : s.directoryCount = options.maxDirectories then { s with truncated := true }
    else
      { s with
        directoryCount := s.directoryCount + 1
        queue := s.queue ++ [(child, depth + 1)]
        counted := by
          have := s.counted
          omega }
  else s

/-- The bytes an entry is charged with. -/
def entryBytes (b : Backend) (child : Path) : Nat := (utf8Encode (b.guest child).uri).length + 64

/-- The body of the loop over the children; the flag is its `return`. -/
def walkChild (b : Backend) (policy : ManagedPolicy) (nodes : Dict Path Info) (depth : Nat)
    (child : Path) (s : WalkState options) : Except Failure (WalkState options × Bool) :=
  if s.entryCount = options.maxEntries then .ok ({ s with truncated := true }, true)
  else
    match requireRead b policy child with
    | .error failure => .error failure
    | .ok () =>
      if 4 * 1024 * 1024 < s.responseBytes + entryBytes b child then
        .ok ({ s with
          entryCount := s.entryCount + 1
          responseBytes := s.responseBytes + entryBytes b child
          truncated := true }, true)
      else
        .ok (WalkState.enqueue nodes depth child { s with
          entryCount := s.entryCount + 1
          responseBytes := s.responseBytes + entryBytes b child
          listed := s.listed ++ [child] }, false)

def walkChildren (b : Backend) (policy : ManagedPolicy) (nodes : Dict Path Info) (depth : Nat) :
    List Path → WalkState options → Except Failure (WalkState options × Bool)
  | [], s => .ok (s, false)
  | child :: rest, s =>
    match walkChild b policy nodes depth child s with
    | .error failure => .error failure
    | .ok (s, true) => .ok (s, true)
    | .ok (s, false) => walkChildren b policy nodes depth rest s

/-- What the loop over some children did: it listed `done` and queued `new`. -/
structure Advance (b : Backend) (policy : ManagedPolicy) (nodes : Dict Path Info) (depth : Nat)
    (children : List Path) (s s' : WalkState options) (stop : Bool) (done new : List Path) :
    Prop where
  initial : done <+: children
  whole : stop = false → done = children
  stopped : stop = true → s'.truncated = true
  listed : s'.listed = s.listed ++ done
  opened : s'.opened = s.opened
  queue : s'.queue = s.queue ++ new.map fun p => (p, depth + 1)
  queued : new.Sublist done
  permitted : ∀ p ∈ new, enters options nodes depth p = true
  entered : s'.truncated = false →
    s.truncated = false ∧ ∀ p ∈ done, enters options nodes depth p = true → p ∈ new
  directories : s'.directoryCount = s.directoryCount + new.length
  entries : s.entryCount + done.length ≤ s'.entryCount
  limit : s.entryCount ≤ options.maxEntries → s'.entryCount ≤ options.maxEntries
  readable : ∀ p ∈ done, requireRead b policy p = .ok ()

variable {depth : Nat} {child : Path} {children : List Path} {s s' s'' : WalkState options}
  {stop : Bool}

theorem Advance.refl : Advance b policy nodes depth [] s s false [] [] where
  initial := prefix_rfl
  whole := fun _ => rfl
  stopped := nofun
  listed := (append_nil _).symm
  opened := rfl
  queue := (append_nil _).symm
  queued := List.Sublist.slnil
  permitted := nofun
  entered := fun h => ⟨h, nofun⟩
  directories := rfl
  entries := Nat.le_refl _
  limit := fun h => h
  readable := nofun

theorem Advance.cut (hlisted : s'.listed = s.listed) (hopened : s'.opened = s.opened)
    (hqueue : s'.queue = s.queue) (hcount : s'.directoryCount = s.directoryCount)
    (hentries : s.entryCount ≤ s'.entryCount)
    (hlimit : s.entryCount ≤ options.maxEntries → s'.entryCount ≤ options.maxEntries)
    (htruncated : s'.truncated = true) :
    Advance b policy nodes depth children s s' true [] [] where
  initial := nil_prefix
  whole := nofun
  stopped := fun _ => htruncated
  listed := by rw [hlisted, append_nil]
  opened := hopened
  queue := by rw [hqueue, map_nil, append_nil]
  queued := List.Sublist.slnil
  permitted := nofun
  entered := by
    intro hfalse
    rw [htruncated] at hfalse
    cases hfalse
  directories := hcount
  entries := hentries
  limit := hlimit
  readable := nofun

variable {new : List Path}

theorem Advance.single (hread : requireRead b policy child = .ok ())
    (hroom : s.entryCount ≠ options.maxEntries) (hlisted : s'.listed = s.listed ++ [child])
    (hopened : s'.opened = s.opened) (hentries : s'.entryCount = s.entryCount + 1)
    (hqueue : s'.queue = s.queue ++ new.map fun p => (p, depth + 1))
    (hcount : s'.directoryCount = s.directoryCount + new.length) (hnew : new.Sublist [child])
    (henters : new ≠ [] → enters options nodes depth child = true)
    (hentered : s'.truncated = false →
      s.truncated = false ∧ (enters options nodes depth child = true → child ∈ new)) :
    Advance b policy nodes depth [child] s s' false [child] new where
  initial := prefix_rfl
  whole := fun _ => rfl
  stopped := nofun
  listed := hlisted
  opened := hopened
  queue := hqueue
  queued := hnew
  permitted := by
    intro p hp
    rw [mem_singleton.mp (hnew.subset hp)]
    exact henters (ne_nil_of_mem hp)
  entered := by
    intro hfalse
    obtain ⟨hbefore, hqueued⟩ := hentered hfalse
    refine ⟨hbefore, ?_⟩
    intro p hp
    rw [mem_singleton.mp hp]
    exact hqueued
  directories := hcount
  entries := Nat.le_of_eq hentries.symm
  limit := by
    intro hle
    omega
  readable := by
    intro p hp
    rw [mem_singleton.mp hp]
    exact hread

/-- It is queued, left alone, or the limit of directories cuts the answer off. -/
theorem enqueue_advance (hread : requireRead b policy child = .ok ())
    (hroom : s.entryCount ≠ options.maxEntries) (bytes : Nat) :
    ∃ new, Advance b policy nodes depth [child] s (WalkState.enqueue nodes depth child { s with
      entryCount := s.entryCount + 1
      responseBytes := bytes
      listed := s.listed ++ [child] }) false [child] new := by
  unfold WalkState.enqueue
  by_cases henters : enters options nodes depth child = true
  · rw [if_pos henters]
    by_cases hfull : s.directoryCount = options.maxDirectories
    · rw [dif_pos hfull]
      exact ⟨[], Advance.single hread hroom rfl rfl rfl (append_nil _).symm rfl
        (nil_sublist _) (fun h => absurd rfl h) nofun⟩
    · rw [dif_neg hfull]
      exact ⟨[child], Advance.single hread hroom rfl rfl rfl rfl rfl (List.Sublist.refl _)
        (fun _ => henters) fun h => ⟨h, fun _ => mem_singleton_self child⟩⟩
  · rw [if_neg henters]
    exact ⟨[], Advance.single hread hroom rfl rfl rfl (append_nil _).symm rfl
      (nil_sublist _) (fun h => absurd rfl h) fun h => ⟨h, fun h => absurd h henters⟩⟩

theorem walkChild_advance (h : walkChild b policy nodes depth child s = .ok (s', stop)) :
    ∃ done new, Advance b policy nodes depth [child] s s' stop done new := by
  unfold walkChild at h
  by_cases hfull : s.entryCount = options.maxEntries
  · rw [if_pos hfull] at h
    cases h
    exact ⟨[], [], Advance.cut rfl rfl rfl rfl (Nat.le_refl _) (fun h => h) rfl⟩
  · rw [if_neg hfull] at h
    split at h
    · cases h
    next hread =>
      by_cases hbytes : 4 * 1024 * 1024 < s.responseBytes + entryBytes b child
      · rw [if_pos hbytes] at h
        cases h
        refine ⟨[], [], Advance.cut rfl rfl rfl rfl (Nat.le_succ _) ?_ rfl⟩
        intro hle
        show s.entryCount + 1 ≤ options.maxEntries
        omega
      · rw [if_neg hbytes] at h
        cases h
        obtain ⟨new, hadvance⟩ := enqueue_advance hread hfull _
        exact ⟨[child], new, hadvance⟩

variable {done : List Path}

theorem Advance.trans {done' new' : List Path}
    (h : Advance b policy nodes depth [child] s s' false done new)
    (h' : Advance b policy nodes depth children s' s'' stop done' new') :
    Advance b policy nodes depth (child :: children) s s'' stop (child :: done') (new ++ new') := by
  obtain rfl : done = [child] := h.whole rfl
  refine {
    initial := (prefix_cons_inj child).mpr h'.initial
    whole := fun hstop => by rw [h'.whole hstop]
    stopped := h'.stopped
    listed := by rw [h'.listed, h.listed, append_assoc]; rfl
    opened := h'.opened.trans h.opened
    queue := by rw [h'.queue, h.queue, map_append, append_assoc]
    queued := h.queued.append h'.queued
    permitted := ?_
    entered := ?_
    directories := by rw [h'.directories, h.directories, length_append]; omega
    entries := ?_
    limit := fun hle => h'.limit (h.limit hle)
    readable := ?_ }
  · intro p hp
    rcases mem_append.mp hp with hp | hp
    · exact h.permitted p hp
    · exact h'.permitted p hp
  · intro hfalse
    obtain ⟨hmiddle, hlater⟩ := h'.entered hfalse
    obtain ⟨hbefore, hfirst⟩ := h.entered hmiddle
    refine ⟨hbefore, ?_⟩
    intro p hp henters
    rw [mem_append]
    rcases mem_cons.mp hp with rfl | hp
    · exact .inl (hfirst p (mem_singleton_self p) henters)
    · exact .inr (hlater p hp henters)
  · have hfirst := h.entries
    have hlater := h'.entries
    rw [length_singleton] at hfirst
    rw [length_cons]
    omega
  · intro p hp
    rcases mem_cons.mp hp with rfl | hp
    · exact h.readable p (mem_singleton_self p)
    · exact h'.readable p hp

theorem Advance.ended (h : Advance b policy nodes depth [child] s s' true done new) :
    Advance b policy nodes depth (child :: children) s s' true done new :=
  { h with
    initial := h.initial.trans ⟨children, rfl⟩
    whole := nofun }

/-- **The loop over the children of a directory.** -/
theorem walkChildren_advance (h : walkChildren b policy nodes depth children s = .ok (s', stop)) :
    ∃ done new, Advance b policy nodes depth children s s' stop done new := by
  induction children generalizing s with
  | nil =>
    cases h
    exact ⟨[], [], Advance.refl⟩
  | cons child rest ih =>
    rw [walkChildren] at h
    split at h
    · cases h
    next middle hmiddle =>
      cases h
      obtain ⟨done, new, hadvance⟩ := walkChild_advance hmiddle
      exact ⟨done, new, hadvance.ended⟩
    next middle hmiddle =>
      obtain ⟨done, new, hadvance⟩ := walkChild_advance hmiddle
      obtain ⟨done', new', hadvance'⟩ := ih h
      exact ⟨_, _, hadvance.trans hadvance'⟩

/-- How many directories can still be opened. -/
def WalkState.room (s : WalkState options) : Nat :=
  s.queue.length + (options.maxDirectories - s.directoryCount)

theorem Advance.room
    (h : Advance b policy nodes depth children s s' stop done new) : s'.room = s.room := by
  have hcounted := s'.counted
  have hdirectories := h.directories
  rw [WalkState.room, WalkState.room, h.queue, length_append, length_map]
  omega

/-- A directory is taken from the queue. -/
def WalkState.take (directory : Path) (queue : List (Path × Nat)) (s : WalkState options) :
    WalkState options :=
  { s with queue := queue, opened := s.opened ++ [directory] }

variable {directory : Path}

theorem room_lt {queue : List (Path × Nat)}
    (hqueue : s.queue = (directory, depth) :: queue)
    (hround : walkChildren b policy nodes depth children (s.take directory queue) =
      .ok (s', stop)) : s'.room < s.room := by
  obtain ⟨done, new, hadvance⟩ := walkChildren_advance hround
  rw [hadvance.room, WalkState.room, WalkState.room, hqueue]
  show queue.length + (options.maxDirectories - s.directoryCount) <
    queue.length + 1 + (options.maxDirectories - s.directoryCount)
  omega

/-- The loop over the queue. -/
def walkLoop (b : Backend) (policy : ManagedPolicy) (nodes : Dict Path Info)
    (s : WalkState options) : Except Failure (WalkState options) :=
  match hqueue : s.queue with
  | [] => .ok s
  | (directory, depth) :: queue =>
    match requireRead b policy directory with
    | .error failure => .error failure
    | .ok () =>
      match hround : walkChildren b policy nodes depth (childrenOf nodes directory)
        (s.take directory queue) with
      | .error failure => .error failure
      | .ok (s', true) => .ok s'
      | .ok (s', false) =>
        have : s'.room < s.room := room_lt hqueue hround
        walkLoop b policy nodes s'
termination_by s.room

def WalkState.start (options : WalkOptions) (parts : Path) : WalkState options where
  queue := [(parts, 0)]
  directoryCount := 1
  entryCount := 0
  responseBytes := 0
  listed := []
  opened := []
  truncated := false
  counted := options.directories_pos

/-- An element of the answer of `fs/walk`. -/
structure WalkEntry where
  path : List Char
  directory : Bool
  deriving DecidableEq, Repr

/-- The answer; `_walk` reports no errors of single entries. -/
structure WalkOutcome where
  entries : List WalkEntry
  errors : List WalkEntry
  truncated : Bool
  deriving DecidableEq, Repr

def walkEntry (b : Backend) (nodes : Dict Path Info) (child : Path) : WalkEntry :=
  ⟨(b.guest child).uri, isDirectoryNode nodes child⟩

def WalkState.outcome (b : Backend) (nodes : Dict Path Info) (s : WalkState options) : WalkOutcome :=
  ⟨s.listed.map (walkEntry b nodes), [], s.truncated⟩

/-- `_walk`; `none` leaves a missing path to the native lookup. -/
def walk (b : Backend) (policy : ManagedPolicy) (parts : Path) (nodes : Dict Path Info)
    (options : Json) : Except Failure (Option WalkOutcome) := do
  let options ← readOptions options
  match nodes.get parts with
  | none => pure none
  | some info =>
    if info.isDir then do
      let s ← walkLoop b policy nodes (WalkState.start options parts)
      pure (some (s.outcome b nodes))
    else pure (some ⟨[], [], false⟩)

/-! ### The order -/

/-- **The order of the answer**: shorter paths first, and paths of one length by the
bytes of their names, from the first on. -/
def Earlier (p q : Path) : Prop :=
  p.length < q.length ∨ p.length = q.length ∧ p.map utf8Encode < q.map utf8Encode

theorem Earlier.ne {p q : Path} (h : Earlier p q) : p ≠ q := by
  intro heq
  rw [heq] at h
  rcases h with hless | ⟨-, hless⟩
  · omega
  · exact List.lt_irrefl _ hless

theorem append_lt_append {p q : List (List UInt8)} (hlength : p.length = q.length) (h : p < q)
    (x y : List (List UInt8)) : p ++ x < q ++ y := by
  induction p generalizing q with
  | nil =>
    obtain rfl := length_eq_zero_iff.mp hlength.symm
    exact absurd h (List.lt_irrefl _)
  | cons a p ih =>
    cases q with
    | nil => cases hlength
    | cons c q =>
      rw [length_cons, length_cons, Nat.add_right_cancel_iff] at hlength
      rw [cons_append, cons_append, cons_lt_cons_iff]
      rcases cons_lt_cons_iff.mp h with hless | ⟨heq, hless⟩
      · exact .inl hless
      · exact .inr ⟨heq, ih hlength hless⟩

theorem Earlier.concat {p q : Path} (h : Earlier p q) (x y : Name) :
    Earlier (p ++ [x]) (q ++ [y]) := by
  rw [Earlier, length_append, length_append, length_singleton,
    length_singleton, map_append, map_append]
  rcases h with hless | ⟨hlength, hless⟩
  · exact .inl (by omega)
  · refine .inr ⟨by omega, append_lt_append ?_ hless _ _⟩
    rw [length_map, length_map, hlength]

theorem mem_childrenOf :
    child ∈ childrenOf nodes directory ↔
      child ∈ nodes.keys ∧ ∃ name, child = directory ++ [name] := by
  unfold childrenOf
  rw [mem_insertionSort, mem_filter, Bool.and_eq_true, bne_iff_ne, beq_iff_eq]
  refine and_congr_right fun _ => ?_
  constructor
  · intro h
    obtain ⟨hne, rfl⟩ := h
    exact ⟨_, (dropLast_append_getLast hne).symm⟩
  · intro h
    obtain ⟨name, rfl⟩ := h
    exact ⟨by simp, dropLast_concat⟩

theorem pairwise_childrenOf (hnodup : nodes.keys.Nodup) (directory : Path) :
    (childrenOf nodes directory).Pairwise Earlier := by
  let order : Path → Path → Prop :=
    fun p q => utf8Encode (p.getLastD []) ≤ utf8Encode (q.getLastD [])
  have hle : (childrenOf nodes directory).Pairwise order := pairwise_insertionSort order _
  have hne : (childrenOf nodes directory).Nodup :=
    (perm_insertionSort _ _).nodup_iff.mpr (hnodup.filter _)
  refine (hle.and hne).imp_of_mem ?_
  intro p q hp hq hboth
  obtain ⟨-, x, rfl⟩ := mem_childrenOf.mp hp
  obtain ⟨-, y, rfl⟩ := mem_childrenOf.mp hq
  have hnames : utf8Encode x ≤ utf8Encode y := by
    have hlast := hboth.1
    simp only [order, getLastD_concat] at hlast
    exact hlast
  have hdiffer : utf8Encode x ≠ utf8Encode y := by
    intro heq
    exact hboth.2 (by rw [utf8Encode_injective heq])
  have hless : utf8Encode x < utf8Encode y := by
    by_contra hnot
    exact hdiffer (List.le_antisymm hnames (List.not_lt.mp hnot))
  refine .inr ⟨by simp, ?_⟩
  rw [map_append, map_append]
  exact append_left_lt (cons_lt_cons_iff.mpr (.inl hless))

/-- **The children of ordered directories are ordered.** -/
theorem pairwise_flatMap_childrenOf (hnodup : nodes.keys.Nodup) {directories : List Path}
    (h : directories.Pairwise Earlier) :
    (directories.flatMap (childrenOf nodes)).Pairwise Earlier := by
  rw [pairwise_flatMap]
  refine ⟨fun directory _ => pairwise_childrenOf hnodup directory, h.imp ?_⟩
  intro p q hearlier x hx y hy
  obtain ⟨-, name, rfl⟩ := mem_childrenOf.mp hx
  obtain ⟨-, name', rfl⟩ := mem_childrenOf.mp hy
  exact hearlier.concat name name'

/-! ### The directories a walk goes through -/

/-- A directory at or below the start, within the depth, with no hidden name on the way
if those are pruned. -/
structure Entered (options : WalkOptions) (start path : Path) : Prop where
  below : start <+: path
  depth : path.length ≤ start.length + options.maxDepth
  visible : options.pruneHidden = true → ∀ above, start <+: above → above <+: path →
    above ≠ start → hidden above = false

/-- **What a walk is to list**: the objects below the start within the depth, not below
a hidden directory if those are pruned. -/
structure Reachable (options : WalkOptions) (nodes : Dict Path Info) (start path : Path) :
    Prop where
  node : path ∈ nodes.keys
  below : start <+: path
  other : path ≠ start
  depth : path.length ≤ start.length + options.maxDepth + 1
  visible : options.pruneHidden = true → ∀ above, start <+: above → above <+: path →
    above ≠ start → above ≠ path → hidden above = false

theorem entered_start (options : WalkOptions) (start : Path) : Entered options start start where
  below := prefix_rfl
  depth := Nat.le_add_right _ _
  visible := by
    intro _ above hle hle' hne
    exact absurd (hle'.eq_of_length_le hle.length_le) hne

variable {start path : Path} {name : Name}

theorem Entered.reachable (h : Entered options start path)
    (hnode : path ++ [name] ∈ nodes.keys) : Reachable options nodes start (path ++ [name]) where
  node := hnode
  below := h.below.trans (prefix_append _ _)
  other := by
    intro heq
    have hlength := h.below.length_le
    rw [← heq, length_append, length_singleton] at hlength
    omega
  depth := by
    have hdepth := h.depth
    rw [length_append, length_singleton]
    omega
  visible := by
    intro hprune above hle hle' hne hother
    rcases prefix_concat_iff.mp hle' with heq | hle'
    · exact absurd heq hother
    · exact h.visible hprune above hle hle' hne

theorem Reachable.parent
    (h : Reachable options nodes start (path ++ [name])) : Entered options start path where
  below := by
    rcases prefix_concat_iff.mp h.below with heq | hle
    · exact absurd heq.symm h.other
    · exact hle
  depth := by
    have hdepth := h.depth
    rw [length_append, length_singleton] at hdepth
    omega
  visible := by
    intro hprune above hle hle' hne
    refine h.visible hprune above hle (hle'.trans (prefix_append _ _)) hne ?_
    intro heq
    have hlength := hle'.length_le
    rw [heq, length_append, length_singleton] at hlength
    omega

/-- A listed directory that is walked through. -/
theorem Entered.concat (h : Entered options start path)
    {depth : Nat} (hdepth : path.length = start.length + depth)
    (henters : enters options nodes depth (path ++ [name]) = true) :
    Entered options start (path ++ [name]) where
  below := h.below.trans (prefix_append _ _)
  depth := by
    simp only [enters, Bool.and_eq_true, decide_eq_true_eq] at henters
    rw [length_append, length_singleton]
    omega
  visible := by
    intro hprune above hle hle' hne
    rcases prefix_concat_iff.mp hle' with heq | hle'
    · simp only [enters, hprune, Bool.and_eq_true, Bool.true_and, Bool.not_eq_true'] at henters
      rw [heq]
      exact henters.2
    · exact h.visible hprune above hle hle' hne

theorem Entered.enters {depth : Nat}
    (h : Entered options start (path ++ [name])) (hdepth : path.length = start.length + depth)
    (hdir : isDirectoryNode nodes (path ++ [name]) = true) :
    enters options nodes depth (path ++ [name]) = true := by
  have hlength : (path ++ [name]).length = path.length + 1 := length_append
  have hless : depth < options.maxDepth := by
    have hle := h.depth
    omega
  have hvisible : (options.pruneHidden && hidden (path ++ [name])) = false := by
    cases hprune : options.pruneHidden with
    | false => rfl
    | true =>
      refine h.visible hprune _ h.below prefix_rfl ?_
      intro heq
      rw [heq] at hlength
      omega
  rw [Files.enters, hdir, hvisible, decide_eq_true hless]
  rfl

/-! ### What holds in every round -/

/-- What holds of the loop over the queue: `opened` and `queue` are the start and some of
what was listed, in order, and what was listed are the children of what was opened. -/
structure Walking (b : Backend) (policy : ManagedPolicy) (nodes : Dict Path Info) (start : Path)
    (s : WalkState options) : Prop where
  listed : s.listed <+: s.opened.flatMap (childrenOf nodes)
  tail : ∃ tail, s.opened ++ s.queue.map Prod.fst = start :: tail ∧ tail.Sublist s.listed
  order : (s.opened ++ s.queue.map Prod.fst).Pairwise Earlier
  way : ∀ p ∈ s.opened ++ s.queue.map Prod.fst, Entered options start p
  depth : ∀ e ∈ s.queue, e.1.length = start.length + e.2
  complete : s.truncated = false → s.listed = s.opened.flatMap (childrenOf nodes) ∧
    ∀ p ∈ s.listed, isDirectoryNode nodes p = true → Entered options start p →
      p ∈ s.opened ++ s.queue.map Prod.fst
  directories : s.directoryCount = s.opened.length + s.queue.length
  entries : s.listed.length ≤ s.entryCount
  limit : s.entryCount ≤ options.maxEntries
  readable : ∀ p ∈ s.listed ++ s.opened, requireRead b policy p = .ok ()

theorem walking_start (start : Path) :
    Walking b policy nodes start (WalkState.start options start) where
  listed := prefix_rfl
  tail := ⟨[], rfl, List.Sublist.slnil⟩
  order := pairwise_singleton _ _
  way := by
    intro p hp
    rw [mem_singleton.mp hp]
    exact entered_start options start
  depth := by
    intro e he
    rw [mem_singleton.mp he]
    rfl
  complete := fun _ => ⟨rfl, nofun⟩
  directories := rfl
  entries := Nat.le_refl _
  limit := Nat.zero_le _
  readable := nofun

theorem Walking.pairwise_listed (h : Walking b policy nodes start s)
    (hnodup : nodes.keys.Nodup) : s.listed.Pairwise Earlier :=
  (pairwise_flatMap_childrenOf hnodup (pairwise_append.mp h.order).1).sublist h.listed.sublist

theorem Walking.parent (h : Walking b policy nodes start s) (hpath : path ∈ s.listed) :
    path ∈ nodes.keys ∧ ∃ directory name, path = directory ++ [name] ∧ directory ∈ s.opened := by
  obtain ⟨directory, hdirectory, hchild⟩ := mem_flatMap.mp (h.listed.subset hpath)
  obtain ⟨hnode, name, rfl⟩ := mem_childrenOf.mp hchild
  exact ⟨hnode, directory, name, rfl, hdirectory⟩

theorem Walking.reachable (h : Walking b policy nodes start s)
    (hpath : path ∈ s.listed) : Reachable options nodes start path := by
  obtain ⟨hnode, directory, name, rfl, hdirectory⟩ := h.parent hpath
  exact (h.way directory (mem_append_left _ hdirectory)).reachable hnode

theorem Walking.step {queue : List (Path × Nat)} (h : Walking b policy nodes start s)
    (hnodup : nodes.keys.Nodup) (hwhole : s.listed = s.opened.flatMap (childrenOf nodes))
    (hqueue : s.queue = (directory, depth) :: queue)
    (hread : requireRead b policy directory = .ok ())
    (hadvance : Advance b policy nodes depth (childrenOf nodes directory) (s.take directory queue)
      s' stop done new) :
    Walking b policy nodes start s' ∧
      (stop = false → s'.listed = s'.opened.flatMap (childrenOf nodes)) := by
  have hopened : s'.opened = s.opened ++ [directory] := hadvance.opened
  have hlisted : s'.listed = s.listed ++ done := hadvance.listed
  have hqueue' : s'.queue.map Prod.fst = queue.map Prod.fst ++ new := by
    rw [hadvance.queue, map_append, map_map]
    simp [WalkState.take, Function.comp_def]
  -- the directories known so far, and then the new ones
  have hknown : s'.opened ++ s'.queue.map Prod.fst =
      (s.opened ++ s.queue.map Prod.fst) ++ new := by
    rw [hopened, hqueue', hqueue]
    simp
  have hdirectory : directory ∈ s.opened ++ s.queue.map Prod.fst := by
    rw [hqueue]
    simp
  have hway := h.way directory hdirectory
  have hdepth : directory.length = start.length + depth := by
    have hfirst := h.depth (directory, depth)
    rw [hqueue] at hfirst
    exact hfirst mem_cons_self
  have hchild : ∀ p ∈ done, p ∈ nodes.keys ∧ ∃ name, p = directory ++ [name] :=
    fun p hp => mem_childrenOf.mp (hadvance.initial.subset hp)
  have hinitial : s'.listed <+: s'.opened.flatMap (childrenOf nodes) := by
    rw [hlisted, hwhole, hopened, flatMap_append, flatMap_singleton,
      prefix_append_right_inj]
    exact hadvance.initial
  have hordered : s'.opened.Pairwise Earlier := by
    rw [hopened]
    refine h.order.sublist ?_
    rw [hqueue]
    exact (List.Sublist.refl _).append (singleton_sublist.mpr mem_cons_self)
  have hlist : s'.listed.Pairwise Earlier :=
    (pairwise_flatMap_childrenOf hnodup hordered).sublist hinitial.sublist
  obtain ⟨tail, htail, hsublist⟩ := h.tail
  have htail' : (tail ++ new).Sublist s'.listed := by
    rw [hlisted]
    exact hsublist.append hadvance.queued
  have hwhole' : stop = false → s'.listed = s'.opened.flatMap (childrenOf nodes) := by
    intro hstop
    rw [hlisted, hadvance.whole hstop, hwhole, hopened, flatMap_append,
      flatMap_singleton]
  refine ⟨⟨hinitial, ⟨tail ++ new, ?_, htail'⟩, ?_, ?_, ?_, ?_, ?_, ?_, ?_, ?_⟩, hwhole'⟩
  · rw [hknown, htail]
    rfl
  · rw [hknown, htail, cons_append, pairwise_cons]
    refine ⟨?_, hlist.sublist htail'⟩
    intro p hp
    -- everything listed is longer than the start
    have hmem := htail'.subset hp
    rw [hlisted] at hmem
    left
    rcases mem_append.mp hmem with hold | hnew
    · have hreach := h.reachable hold
      exact Nat.lt_of_le_of_ne hreach.below.length_le fun heq =>
        hreach.other (hreach.below.eq_of_length heq).symm
    · obtain ⟨-, name, rfl⟩ := hchild p hnew
      rw [length_append, length_singleton]
      omega
  · intro p hp
    rw [hknown] at hp
    rcases mem_append.mp hp with hold | hnew
    · exact h.way p hold
    · obtain ⟨-, name, rfl⟩ := hchild p (hadvance.queued.subset hnew)
      exact hway.concat hdepth (hadvance.permitted _ hnew)
  · intro e he
    rw [hadvance.queue] at he
    rcases mem_append.mp he with hold | hnew
    · apply h.depth e
      rw [hqueue]
      exact mem_cons_of_mem _ hold
    · obtain ⟨p, hp, rfl⟩ := mem_map.mp hnew
      obtain ⟨-, name, rfl⟩ := hchild p (hadvance.queued.subset hp)
      show (directory ++ [name]).length = start.length + (depth + 1)
      rw [length_append, length_singleton]
      omega
  · intro hfalse
    obtain ⟨hbefore, hentered⟩ := hadvance.entered hfalse
    have hstop : stop = false := by
      cases hcase : stop with
      | false => rfl
      | true =>
        rw [hadvance.stopped hcase] at hfalse
        cases hfalse
    refine ⟨hwhole' hstop, ?_⟩
    intro p hp hdir hway'
    rw [hknown]
    rw [hlisted] at hp
    rcases mem_append.mp hp with hold | hnew
    · exact mem_append_left _ ((h.complete hbefore).2 p hold hdir hway')
    · refine mem_append_right _ (hentered p hnew ?_)
      obtain ⟨-, name, rfl⟩ := hchild p hnew
      exact hway'.enters hdepth hdir
  · have hcount := h.directories
    have hlengths := congrArg List.length hadvance.queue
    rw [length_append, length_map] at hlengths
    rw [hqueue, length_cons] at hcount
    rw [hadvance.directories, hopened, hlengths, length_append, length_singleton]
    show s.directoryCount + new.length = s.opened.length + 1 + (queue.length + new.length)
    omega
  · have hentries := h.entries
    have hmore : s.entryCount + done.length ≤ s'.entryCount := hadvance.entries
    rw [hlisted, length_append]
    omega
  · exact hadvance.limit h.limit
  · intro p hp
    rw [hlisted, hopened] at hp
    rcases mem_append.mp hp with hp | hp
    · rcases mem_append.mp hp with hold | hnew
      · exact h.readable p (mem_append_left _ hold)
      · exact hadvance.readable p hnew
    · rcases mem_append.mp hp with hold | hnew
      · exact h.readable p (mem_append_right _ hold)
      · rw [mem_singleton.mp hnew]
        exact hread

/-- **The loop over the queue** keeps it, and ends with an empty queue or a truncated
answer. -/
theorem walkLoop_spec (hnodup : nodes.keys.Nodup)
    (h : Walking b policy nodes start s) (hwhole : s.listed = s.opened.flatMap (childrenOf nodes))
    (hloop : walkLoop b policy nodes s = .ok s') :
    Walking b policy nodes start s' ∧ (s'.truncated = false → s'.queue = []) := by
  fun_induction walkLoop b policy nodes s with
  | case1 s hqueue =>
    cases hloop
    exact ⟨h, fun _ => hqueue⟩
  | case2 | case3 => cases hloop
  | case4 s directory depth queue hqueue hread middle hround =>
    cases hloop
    obtain ⟨done, new, hadvance⟩ := walkChildren_advance hround
    refine ⟨(h.step hnodup hwhole hqueue hread hadvance).1, ?_⟩
    intro hfalse
    rw [hadvance.stopped rfl] at hfalse
    cases hfalse
  | case5 s directory depth queue hqueue hread middle hround _ ih =>
    obtain ⟨done, new, hadvance⟩ := walkChildren_advance hround
    obtain ⟨hnext, hwhole'⟩ := h.step hnodup hwhole hqueue hread hadvance
    exact ih hnext (hwhole' rfl) hloop

/-! ### Answers -/

theorem walkEntry_injective {p q : Path} (hp : ProperPath p) (hq : ProperPath q)
    (hreadp : requireRead b policy p = .ok ()) (hreadq : requireRead b policy q = .ok ())
    (h : walkEntry b nodes p = walkEntry b nodes q) : p = q := by
  have huri : (b.guest p).uri = (b.guest q).uri := congrArg WalkEntry.path h
  have hfirst := (requested_uri b hp ((requireRead_ok_iff hp).mp hreadp).1).read
  have hsecond := (requested_uri b hq ((requireRead_ok_iff hq).mp hreadq).1).read
  rw [huri, hsecond] at hfirst
  exact (Backend.guest_inj.mp (Except.ok.inj hfirst)).symm

theorem Walking.listed_of_reachable (h : Walking b policy nodes start s) (hqueue : s.queue = [])
    (hfalse : s.truncated = false)
    (hparent : ∀ p name, p ++ [name] ∈ nodes.keys → p ∈ nodes.keys ∧ isDirectoryNode nodes p = true)
    (hpath : Reachable options nodes start path) : path ∈ s.listed := by
  obtain ⟨hwhole, hentered⟩ := h.complete hfalse
  rw [hqueue, map_nil, append_nil] at hentered
  induction path using List.reverseRecOn with
  | nil => exact absurd (prefix_nil.mp hpath.below).symm hpath.other
  | append_singleton directory name ih =>
    have hway := hpath.parent
    obtain ⟨hnode, hdir⟩ := hparent directory name hpath.node
    have hopened : directory ∈ s.opened := by
      by_cases heq : directory = start
      · obtain ⟨tail, htail, -⟩ := h.tail
        rw [hqueue, map_nil, append_nil] at htail
        rw [htail, heq]
        exact mem_cons_self
      · refine hentered directory (ih ?_) hdir hway
        exact {
          node := hnode
          below := hway.below
          other := heq
          depth := Nat.le_succ_of_le hway.depth
          visible := fun hprune above hle hle' hne _ => hway.visible hprune above hle hle' hne }
    rw [hwhole]
    exact mem_flatMap.mpr ⟨directory, hopened, mem_childrenOf.mpr ⟨hpath.node, name, rfl⟩⟩

theorem Walking.parent_before {before after : List Path} (h : Walking b policy nodes start s)
    (hnodup : nodes.keys.Nodup) (hsplit : s.listed = before ++ path :: after) :
    path.dropLast = start ∨ path.dropLast ∈ before := by
  have hordered := h.pairwise_listed hnodup
  have hpath : path ∈ s.listed := by simp [hsplit]
  obtain ⟨-, directory, name, rfl, hopened⟩ := h.parent hpath
  rw [dropLast_concat]
  obtain ⟨tail, htail, hsublist⟩ := h.tail
  have hmem := mem_append_left (s.queue.map Prod.fst) hopened
  rw [htail] at hmem
  rcases mem_cons.mp hmem with heq | hlater
  · exact .inl heq
  · right
    have hlisted := hsublist.subset hlater
    rw [hsplit] at hlisted hordered
    rcases mem_append.mp hlisted with hbefore | hafter
    · exact hbefore
    · -- a parent is shorter than its child, so it does not come behind it
      rcases mem_cons.mp hafter with heq | hbehind
      · have hlength := congrArg List.length heq
        rw [length_append, length_singleton] at hlength
        omega
      · obtain ⟨-, hpairs, -⟩ := pairwise_append.mp hordered
        have hearlier := (pairwise_cons.mp hpairs).1 directory hbehind
        rw [Earlier, length_append, length_singleton] at hearlier
        omega

theorem walk_eq_ok {raw : Json} {outcome : WalkOutcome}
    (hoptions : readOptions raw = .ok options) (hstart : isDirectoryNode nodes start = true)
    (hwalk : walk b policy start nodes raw = .ok (some outcome)) : ∃ s,
      walkLoop b policy nodes (WalkState.start options start) = .ok s ∧
        outcome = s.outcome b nodes := by
  unfold walk at hwalk
  rw [hoptions, ok_bind] at hwalk
  cases hget : nodes.get start with
  | none =>
    rw [isDirectoryNode, hget] at hstart
    cases hstart
  | some info =>
    rw [isDirectoryNode, hget, Option.any_some] at hstart
    rw [hget] at hwalk
    dsimp only at hwalk
    rw [if_pos hstart, bind_eq_ok] at hwalk
    obtain ⟨s, hloop, houtcome⟩ := hwalk
    exact ⟨s, hloop, (Option.some.inj (Except.ok.inj houtcome)).symm⟩

/-- **The answer of a walk.** For every admitted workspace, policy, directory and accepted
options, a walk that succeeds lists different entries, shallower ones first and those of one depth
by the bytes of their names; the parent of each is the start or is listed before it; all it lists
and opens may be read, within the bounds; and if it is not truncated, it lists exactly what can be
reached within the depth, not through pruned hidden directories. -/
theorem walk_exact (b : Backend) (policy : ManagedPolicy) (w : Workspace) (found : Found)
    (start : Path) (raw : Json) (options : WalkOptions) (outcome : WalkOutcome)
    (hinspect : inspect b w = .ok found) (hoptions : readOptions raw = .ok options)
    (hstart : isDirectoryNode found.nodes start = true)
    (hwalk : walk b policy start found.nodes raw = .ok (some outcome)) :
    ∃ s, walkLoop b policy found.nodes (WalkState.start options start) = .ok s ∧
      outcome = ⟨s.listed.map (walkEntry b found.nodes), [], s.truncated⟩ ∧
      outcome.entries.Nodup ∧ s.listed.Pairwise Earlier ∧
      (∀ before path after, s.listed = before ++ path :: after →
        path.dropLast = start ∨ path.dropLast ∈ before) ∧
      (∀ path ∈ s.listed ++ s.opened, requireRead b policy path = .ok ()) ∧
      (outcome.entries.length ≤ s.entryCount ∧ s.entryCount ≤ options.maxEntries) ∧
      (s.opened.length ≤ s.directoryCount ∧ s.directoryCount ≤ options.maxDirectories) ∧
      (∀ path ∈ s.listed, Reachable options found.nodes start path) ∧
      (∀ directory ∈ s.opened, Entered options start directory) ∧
      (outcome.truncated = false →
        (∀ path, path ∈ s.listed ↔ Reachable options found.nodes start path) ∧
        ∀ entry, entry ∈ outcome.entries ↔
          ∃ path, Reachable options found.nodes start path ∧
            walkEntry b found.nodes path = entry) := by
  obtain ⟨-, hins⟩ := inspect_spec hinspect
  have hnodup : found.nodes.keys.Nodup := (hins.nodes.map Prod.fst).nodup_iff.mpr w.nodup_nodes
  have hkey : ∀ path, path ∈ found.nodes.keys ↔ ∃ info, w.get path = some info := by
    intro path
    rw [← hins.get_nodes, ← Option.ne_none_iff_exists', Ne, Dict.get_eq_none, not_not]
  obtain ⟨s, hloop, rfl⟩ := walk_eq_ok hoptions hstart hwalk
  obtain ⟨hwalking, hended⟩ := walkLoop_spec hnodup (walking_start start) rfl hloop
  have hordered := hwalking.pairwise_listed hnodup
  have hproper : ∀ path ∈ s.listed, ProperPath path := by
    intro path hpath
    obtain ⟨hnode, directory, name, rfl, -⟩ := hwalking.parent hpath
    obtain ⟨info, hinfo⟩ := (hkey _).mp hnode
    exact (w.proper _ (Workspace.mem_of_get (by simp) hinfo)).2
  refine ⟨s, hloop, rfl, ?_, hordered, ?_, hwalking.readable,
    ⟨(length_map _).trans_le hwalking.entries, hwalking.limit⟩, ⟨?_, s.counted⟩,
    fun path => hwalking.reachable,
    fun directory hopened => hwalking.way directory (mem_append_left _ hopened), ?_⟩
  · refine List.Nodup.map_on ?_ (hordered.imp Earlier.ne)
    intro p hp q hq heq
    exact walkEntry_injective (hproper p hp) (hproper q hq)
      (hwalking.readable p (mem_append_left _ hp))
      (hwalking.readable q (mem_append_left _ hq)) heq
  · exact fun before path after => hwalking.parent_before hnodup
  · rw [hwalking.directories]
    exact Nat.le_add_right _ _
  · intro hfalse
    suffices hexact : ∀ path, path ∈ s.listed ↔ Reachable options found.nodes start path by
      refine ⟨hexact, fun entry => mem_map.trans (exists_congr fun path => ?_)⟩
      rw [hexact]
    intro path
    refine ⟨hwalking.reachable, hwalking.listed_of_reachable (hended hfalse) hfalse ?_⟩
    intro p name hnode
    obtain ⟨info, hinfo⟩ := (hkey _).mp hnode
    have hdir : w.isDirectory p := by
      exact Workspace.isDirectory_above hinfo (prefix_append _ _) (by simp)
    obtain ⟨info', hinfo', -⟩ := Workspace.isDirectory_iff.mp hdir
    refine ⟨(hkey p).mpr ⟨info', hinfo'⟩, ?_⟩
    rw [isDirectoryNode, hins.get_nodes]
    exact hdir

/-- A hidden directory and another, with a file in each. -/
def shaded : Workspace where
  root :=
    { dev := 1, ino := 2, kind := .directory, mode := 0o700, uid := 1000, ino_ne := Sample.two_ne }
  entries := [
    ([['a']],
      { dev := 1, ino := 3, kind := .directory, mode := 0o700, uid := 1000
        ino_ne := Sample.three_ne }),
    ([['.', 'h']],
      { dev := 1, ino := 4, kind := .directory, mode := 0o700, uid := 1000, ino_ne := Sample.four_ne }),
    ([['.', 'h'], ['x']],
      { dev := 1, ino := 5, kind := .regular, mode := 0o600, uid := 1000, ino_ne := Sample.five_ne }),
    ([['a'], ['b']], { dev := 1, ino := 6, kind := .regular, mode := 0o600, uid := 1000 })]
  root_dir := rfl
  nodup := by decide
  proper := by decide
  parent := by decide

def shadedOptions : Json :=
  .obj [("maxDepth", .int 2), ("maxDirectories", .int 10), ("maxEntries", .int 10),
    ("followDirectorySymlinks", .bool false), ("pruneHiddenDirectories", .bool true)]

/-- The hidden directory is listed and not entered. -/
theorem walk_exact_shaded : ∃ found options outcome,
    inspect Sample.backend shaded = .ok found ∧ readOptions shadedOptions = .ok options ∧
    walk Sample.backend Sample.policy [] found.nodes shadedOptions = .ok (some outcome) ∧
    outcome = ⟨[⟨"file:///w/.h".toList, true⟩, ⟨"file:///w/a".toList, true⟩,
      ⟨"file:///w/a/b".toList, false⟩], [], false⟩ ∧
    ∀ entry, entry ∈ outcome.entries ↔
      ∃ path, Reachable options found.nodes [] path ∧
        walkEntry Sample.backend found.nodes path = entry := by
  have hnodes : (inspect Sample.backend shaded).map Found.nodes = .ok shaded.nodes := rfl
  obtain ⟨found, hinspect, hfound⟩ := map_eq_ok.mp hnodes
  obtain ⟨options, hoptions⟩ := exists_ok_of_isOk (x := readOptions shadedOptions)
    (by decide +kernel)
  have hresult : (walk Sample.backend Sample.policy [] found.nodes shadedOptions).toOption =
      some (some ⟨[⟨"file:///w/.h".toList, true⟩, ⟨"file:///w/a".toList, true⟩,
        ⟨"file:///w/a/b".toList, false⟩], [], false⟩) := by
    rw [hfound]
    decide +kernel
  cases hwalk : walk Sample.backend Sample.policy [] found.nodes shadedOptions with
  | error failure =>
    rw [hwalk] at hresult
    cases hresult
  | ok result =>
    rw [hwalk] at hresult
    cases hresult
    obtain ⟨s, -, -, -, -, -, -, -, -, -, -, hexact⟩ :=
      walk_exact Sample.backend Sample.policy shaded found [] shadedOptions options _ hinspect
        hoptions (by rw [hfound]; decide +kernel) hwalk
    exact ⟨found, options, _, hinspect, hoptions, hwalk, rfl, (hexact rfl).2⟩

end FoldGPT.Files
