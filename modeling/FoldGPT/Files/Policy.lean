import FoldGPT.Files.GuestPath

/-!
# The decisions of a managed policy

`ManagedPolicy._decide`: the most specific entry that contains the path gives
its access, ties going to the stricter access and then to the first entry; a
write is withheld inside the first metadata directory a write entry roots,
unless another write entry at or below that directory covers the path.
-/

namespace FoldGPT.Files

open FoldGPT.Lib FoldGPT.Lib.Url

inductive Access
  | read
  | write
  | deny
  deriving DecidableEq, Repr

/-- `_PRECEDENCE`. -/
def Access.precedence : Access → Nat
  | .read => 0
  | .write => 1
  | .deny => 2

def dotGit : Name := ['.', 'g', 'i', 't']
def dotAgents : Name := ['.', 'a', 'g', 'e', 'n', 't', 's']
def dotCodex : Name := ['.', 'c', 'o', 'd', 'e', 'x']

/-- `METADATA_NAMES`. -/
def metadataNames : List Name := [dotGit, dotAgents, dotCodex]

structure ResolvedEntry where
  path : GuestPath
  access : Access
  deriving DecidableEq, Repr

structure Decision where
  path : GuestPath
  resolvedAccess : Access
  metadataWriteDenial : Option Name
  deriving DecidableEq, Repr

def Decision.canRead (decision : Decision) : Bool := decision.resolvedAccess != .deny

def Decision.canWrite (decision : Decision) : Bool :=
  decision.resolvedAccess = .write && decision.metadataWriteDenial.isNone

/-- The fields of a parsed context that decisions and their callers read. -/
structure ManagedPolicy where
  cwd : GuestPath
  resolvedEntries : List ResolvedEntry
  deriving DecidableEq, Repr

namespace ManagedPolicy

/-- The sort key `(len(entry.path.parts), _PRECEDENCE[entry.access])`, compared. -/
def outranked (a b : ResolvedEntry) : Bool :=
  a.path.parts.length < b.path.parts.length ||
    (a.path.parts.length = b.path.parts.length && a.access.precedence < b.access.precedence)

/-- `max(candidates, key=..., default=None)`: the first of the greatest. -/
def winner (candidates : List ResolvedEntry) : Option ResolvedEntry :=
  candidates.foldl
    (fun best entry => match best with
      | none => some entry
      | some b => if outranked b entry then some entry else some b) none

/-- The first metadata directory, in the order of the names, that an entry roots when it writes
and the path lies in. -/
def rooted (path : GuestPath) (entry : ResolvedEntry) : Option (GuestPath × Name) :=
  if entry.access = .write then
    metadataNames.findSome? fun name =>
      if (entry.path.append [name]).contains path then some (entry.path.append [name], name)
      else none
  else none

/-- The first one in the order of the entries. -/
def protectedRoot (policy : ManagedPolicy) (path : GuestPath) : Option (GuestPath × Name) :=
  policy.resolvedEntries.findSome? (rooted path)

/-- Whether a write entry lies at or below `root` and covers `path`. -/
def explicitGrant (policy : ManagedPolicy) (root path : GuestPath) : Bool :=
  policy.resolvedEntries.any fun entry =>
    entry.access = .write && root.contains entry.path && entry.path.contains path

/-- `_decide`. -/
def decide (policy : ManagedPolicy) (path : GuestPath) : Decision :=
  let candidates := policy.resolvedEntries.filter (·.path.contains path)
  let access : Access := ((winner candidates).map (·.access)).getD .deny
  let metadata :=
    if access = .write then
      match policy.protectedRoot path with
      | none => none
      | some (root, name) => if policy.explicitGrant root path then none else some name
    else none
  ⟨path, access, metadata⟩

/-- `decide_uri`. -/
def decideUri (rules : NetlocRules) (policy : ManagedPolicy) (uri : List Char) :
    Except PolicyError Decision := do
  let path ← GuestPath.fromUri rules uri "path"
  pure (policy.decide path)

end ManagedPolicy

/-! ### Containment -/

variable {path : GuestPath}

theorem GuestPath.contains_iff {other : GuestPath} :
    path.contains other ↔ path.parts <+: other.parts := by
  rw [GuestPath.contains, decide_eq_true_eq, List.prefix_iff_eq_take, eq_comm]

@[simp] theorem GuestPath.append_parts (path : GuestPath) (parts : Path) :
    (path.append parts).parts = path.parts ++ parts := rfl

theorem GuestPath.append_contains (path : GuestPath) (p q : Path) :
    (path.append p).contains (path.append q) ↔ p <+: q := by
  rw [contains_iff, append_parts, append_parts, List.prefix_append_right_inj]

/-- **A decision asked for by URI** is the decision for the path, or the refusal of
a control character. -/
theorem ManagedPolicy.decideUri_uri (rules : NetlocRules) (policy : ManagedPolicy)
    (hproper : ∀ name ∈ path.parts, Proper name) (hdrive : driveShaped path.parts = false) :
    policy.decideUri rules path.uri =
      if path.parts.any (·.any isControl) then .error (controlError "path")
      else .ok (policy.decide path) := by
  rw [ManagedPolicy.decideUri, fromUri_uri rules "path" hproper hdrive]
  split
  · exact error_bind
  · exact ok_bind

end FoldGPT.Files
