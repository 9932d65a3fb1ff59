import FoldGPT.Files.Native

/-!
# Creating directories, at once and one by one

`_directory_plan` judges every missing component of a recursive
`fs/createDirectory` against the metadata directories that exist beforehand.
Creating the same components one at a time shows each request the directories
the earlier ones made, and a `.git` or `.agents` among them protects what comes
below it.
-/

namespace FoldGPT.Files

open FoldGPT.Lib List

/-- What `handle` asks of a path that is to be written: the policy's permission and
no metadata directory of the workspace in the way. -/
def Writable (b : Backend) (policy : ManagedPolicy) (w : Workspace) (parts : Path) : Prop :=
  (policy.decide (b.guest parts)).canWrite ∧
    Unprotected policy (b.guest parts) (metadataOf b w.entries)

/-- The missing components below a directory can all be created. -/
structure Creatable (b : Backend) (policy : ManagedPolicy) (w : Workspace)
    (start missing : Path) : Prop where
  depth : start.length + missing.length ≤ MAX_DEPTH
  count : w.entries.length + missing.length ≤ MAX_ENTRIES
  writable : ∀ n, 1 ≤ n → n ≤ missing.length → Writable b policy w (start ++ missing.take n)

variable {b : Backend} {policy : ManagedPolicy} {w : Workspace}

variable {found : Found}

theorem requireWrite_inspected (h : Inspected b w found) {parts : Path}
    (hproper : ProperPath parts) {u : Unit} :
    requireWrite b policy (b.guest parts) found.metadata = .ok u ↔
      Plain parts ∧ Writable b policy w parts := by
  rw [requireWrite_ok_iff hproper, Unprotected.of_perm h.metadata, Writable]

variable {start rest : Path} {name : Name}

theorem Creatable.last (h : Creatable b policy w start (name :: rest)) :
    Writable b policy w (start ++ name :: rest) := by
  have := h.writable (name :: rest).length (by simp) (Nat.le_refl _)
  rwa [take_length] at this

/-- A directory with mode `0700` lets its owner do everything. -/
theorem fresh_directory_open (b : Backend) (stamp : Stamp) (size : Nat) :
    (b.fresh stamp .directory 0o700 size).readable ∧
      (b.fresh stamp .directory 0o700 size).writable ∧
      (b.fresh stamp .directory 0o700 size).searchable := by
  show ((0o700 : Nat) &&& 0o400 != 0) = true ∧ ((0o700 : Nat) &&& 0o200 != 0) = true ∧
    ((0o700 : Nat) &&& 0o100 != 0) = true
  decide

theorem fresh_directory_ordinary (b : Backend) (stamp : Stamp) {path : Path}
    (hdepth : path.length ≤ MAX_DEPTH) : Ordinary b path (b.fresh stamp .directory 0o700 0) where
  owner := rfl
  kind := .inr rfl
  single := nofun
  gitdir := nofun
  depth := fun _ => hdepth
  readable := fun _ => (fresh_directory_open b stamp 0).1

variable {v : Workspace}

theorem Creatable.first
    (h : Creatable b policy w start (name :: rest)) : Creatable b policy w start [name] := by
  have hdepth := h.depth
  have hcount := h.count
  simp only [length_cons] at hdepth hcount
  refine ⟨?_, ?_, fun n hlow hhigh => ?_⟩
  · simp only [length_singleton]
    omega
  · simp only [length_singleton]
    omega
  · have hn : n = 1 := Nat.le_antisymm hhigh hlow
    rw [hn]
    exact h.writable 1 (Nat.le_refl 1) (by simp)

end FoldGPT.Files
