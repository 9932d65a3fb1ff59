import FoldGPT.Lib.Transition
import Mathlib.Data.List.Chain

/-!
# The pending connector callback

`PendingConnectorCallback.java` hands one callback at a time to the client and remembers the digest
of the last one it handed over or discarded, so that the same callback is not handed over again. It
remembers only that one: a callback comes back once another has been handed over or discarded
meanwhile.

Main results: `callback_not_repeated`, `callback_returns`.
-/

namespace FoldGPT.App

open FoldGPT.Lib List Option

inductive Offer
  | queued
  | duplicate
  | busy
  /-- The callback is not a valid one. -/
  | invalid
  deriving DecidableEq

variable {Text Digest : Type} [DecidableEq Digest]

/-- The object's fields. -/
structure Pending (Text Digest : Type) where
  pending : Option Text := none
  pendingDigest : Option Digest := none
  consumedDigest : Option Digest := none
  inFlight : Bool := false
  deriving DecidableEq

namespace Pending

def offer (validate : Text → Option Text) (digest : Text → Digest) (s : Pending Text Digest)
    (callback : Text) : Pending Text Digest × Offer :=
  match validate callback with
  | none => (s, .invalid)
  | some validated =>
    if some (digest validated) = s.pendingDigest ∨ some (digest validated) = s.consumedDigest then
      (s, .duplicate)
    else if s.pending.isSome || s.inFlight then (s, .busy)
    else ({ s with pending := some validated, pendingDigest := some (digest validated) }, .queued)

def take (s : Pending Text Digest) (clientReady : Bool) : Pending Text Digest × Option Text :=
  if !clientReady || s.inFlight || s.pending.isNone then (s, none)
  else
    ({ pending := none, consumedDigest := s.pendingDigest, pendingDigest := none,
       inFlight := true }, s.pending)

def completed (s : Pending Text Digest) : Pending Text Digest := { s with inFlight := false }

/-- `cancelPending`, with the text it discards. -/
def cancelPending (s : Pending Text Digest) : Pending Text Digest × Option Text :=
  ({ s with
      consumedDigest := if s.pending.isSome then s.pendingDigest else s.consumedDigest
      pending := none
      pendingDigest := none }, s.pending)

end Pending

/-! ### Histories -/

inductive CallbackCall (Text : Type)
  | offer (callback : Text)
  | take (clientReady : Bool)
  | completed
  | cancelPending

/-- A text has left the object. -/
inductive Gone (Text : Type)
  | taken (text : Text)
  | discarded (text : Text)
  deriving DecidableEq

def Gone.text : Gone Text → Text
  | .taken text | .discarded text => text

/-- The object with all that has left it, the last at the end. -/
structure Handoff (Text Digest : Type) where
  object : Pending Text Digest := {}
  gone : List (Gone Text) := []
  deriving DecidableEq

namespace Handoff

variable (validate : Text → Option Text) (digest : Text → Digest)

def step (s : Handoff Text Digest) : CallbackCall Text → Handoff Text Digest
  | .offer callback => { s with object := (s.object.offer validate digest callback).1 }
  | .take clientReady =>
    { object := (s.object.take clientReady).1
      gone := s.gone ++ ((s.object.take clientReady).2.map Gone.taken).toList }
  | .completed => { s with object := s.object.completed }
  | .cancelPending =>
    { object := s.object.cancelPending.1
      gone := s.gone ++ (s.object.cancelPending.2.map Gone.discarded).toList }

def machine : LTS (Handoff Text Digest) (CallbackCall Text) :=
  .ofFun (· = {}) fun s call => some (s.step validate digest call)

/-- **The invariant**: the remembered digest is that of the last text that has left, and a pending
text is another one. -/
structure Sound (s : Handoff Text Digest) : Prop where
  consumed : s.object.consumedDigest = s.gone.getLast?.map fun gone => digest gone.text
  pending : s.object.pendingDigest = s.object.pending.map digest
  fresh : ∀ text ∈ s.object.pending, s.object.consumedDigest ≠ some (digest text)
  chain : (s.gone.map Gone.text).IsChain (· ≠ ·)

variable {validate digest} {s : Handoff Text Digest}

omit [DecidableEq Digest] in
theorem Sound.leave (h : s.Sound digest) {text : Text} (hpending : s.object.pending = some text)
    {gone : Gone Text} (hgone : gone.text = text) :
    ((s.gone ++ [gone]).map Gone.text).IsChain (· ≠ ·) := by
  rw [map_append, map_singleton, hgone]
  refine isChain_append.mpr ⟨h.chain, isChain_singleton _, ?_⟩
  intro last hlast next hnext heq
  obtain rfl : text = next := by simpa using hnext
  subst heq
  refine h.fresh last hpending ?_
  rw [h.consumed]
  rw [List.getLast?_map, mem_def, map_eq_some_iff] at hlast
  obtain ⟨earlier, hearlier, rfl⟩ := hlast
  rw [hearlier]
  rfl

theorem Sound.step (h : s.Sound digest) (call : CallbackCall Text) :
    (s.step validate digest call).Sound digest := by
  cases call with
  | offer callback =>
    show Sound digest { s with object := (s.object.offer validate digest callback).1 }
    unfold Pending.offer
    split
    · exact h
    · rename_i validated hvalidated
      split
      · exact h
      · rename_i hnew
        split
        · exact h
        · refine ⟨h.consumed, rfl, ?_, h.chain⟩
          intro text htext heq
          cases htext
          exact hnew (.inr heq.symm)
  | take clientReady =>
    show Sound digest ⟨(s.object.take clientReady).1,
      s.gone ++ ((s.object.take clientReady).2.map Gone.taken).toList⟩
    unfold Pending.take
    split
    · rw [map_none, toList_none, append_nil]
      exact h
    · rename_i hready
      cases hpending : s.object.pending with
      | none => simp [hpending] at hready
      | some text =>
        refine ⟨?_, rfl, by rintro _ ⟨⟩, h.leave hpending rfl⟩
        show s.object.pendingDigest = _
        rw [h.pending, hpending]
        simp [Gone.text]
  | completed => exact { h with }
  | cancelPending =>
    show Sound digest ⟨s.object.cancelPending.1,
      s.gone ++ (s.object.cancelPending.2.map Gone.discarded).toList⟩
    unfold Pending.cancelPending
    cases hpending : s.object.pending with
    | none =>
      refine ⟨?_, rfl, by rintro _ ⟨⟩, ?_⟩
      · simpa using h.consumed
      · simpa using h.chain
    | some text =>
      refine ⟨?_, rfl, by rintro _ ⟨⟩, h.leave hpending rfl⟩
      show s.object.pendingDigest = _
      rw [h.pending, hpending]
      simp [Gone.text]

theorem sound_of_run {calls : List (CallbackCall Text)}
    (h : (machine validate digest).Run calls s) : s.Sound digest := by
  refine h.invariant (I := fun _ s => s.Sound digest) ?_ ?_
  · rintro _ rfl
    exact ⟨rfl, rfl, nofun, isChain_nil⟩
  · intro _ s call s' _ hsound hstep
    cases hstep
    exact hsound.step call

end Handoff

variable {validate : Text → Option Text} {digest : Text → Digest} {s : Handoff Text Digest}

/-- **Between two departures of one text, another text has left.** So `take` does not return a text
again, and not one that `cancelPending` has discarded, before another was taken or discarded. -/
theorem callback_not_repeated {calls : List (CallbackCall Text)}
    (h : (Handoff.machine validate digest).Run calls s) {before between after : List (Gone Text)}
    {first second : Gone Text} (hgone : s.gone = before ++ first :: between ++ second :: after)
    (hsame : first.text = second.text) : ∃ other ∈ between, other.text ≠ first.text := by
  have hchain : (s.gone.map Gone.text).IsChain (· ≠ ·) := (Handoff.sound_of_run h).chain
  rw [hgone, append_assoc, map_append] at hchain
  have hlater := (isChain_append.mp hchain).2.1
  cases between with
  | nil =>
    rw [singleton_append, map_cons, map_cons, isChain_cons_cons] at hlater
    exact absurd hsame hlater.1
  | cons other rest =>
    rw [cons_append, cons_append, map_cons, map_cons,
      isChain_cons_cons] at hlater
    exact ⟨other, mem_cons_self, hlater.1.symm⟩

/-- Texts that are all valid and are their own digests. -/
def plainHandoffs : LTS (Handoff Nat Nat) (CallbackCall Nat) := Handoff.machine some id

/-- Hand over a text. -/
def handOver (text : Nat) : List (CallbackCall Nat) := [.offer text, .take true, .completed]

/-- Between the two hand-overs of text 0, text 1 has left. -/
theorem callback_not_repeated_between :
    ∃ calls s, plainHandoffs.Run calls s ∧ s.gone = [.taken 0] ++ [.taken 1] ++ [.taken 0] ∧
      ∃ other ∈ [Gone.taken 1], other.text ≠ 0 := by
  obtain ⟨s, hrun, hgone⟩ := LTS.exists_run_of_exec (A := plainHandoffs) (fun h => h) rfl
    (handOver 0 ++ handOver 1 ++ handOver 0)
    (fun s => s.gone = [.taken 0, .taken 1, .taken 0]) (by decide +kernel)
  have hsplit : s.gone = [] ++ .taken 0 :: [.taken 1] ++ .taken 0 :: [] := hgone
  exact ⟨_, s, hrun, hgone, callback_not_repeated hrun hsplit rfl⟩

/-- **A callback comes back**: after another one, `take` returns the same text a second time, and
also one that `cancelPending` has discarded. -/
theorem callback_returns :
    (∃ calls s, plainHandoffs.Run calls s ∧ s.gone = [.taken 0, .taken 1, .taken 0]) ∧
      ∃ calls s, plainHandoffs.Run calls s ∧ s.gone = [.discarded 0, .taken 1, .taken 0] := by
  obtain ⟨s, hrun, hgone⟩ := LTS.exists_run_of_exec (A := plainHandoffs) (fun h => h) rfl
    (handOver 0 ++ handOver 1 ++ handOver 0)
    (fun s => s.gone = [.taken 0, .taken 1, .taken 0]) (by decide +kernel)
  obtain ⟨t, hrun', hgone'⟩ := LTS.exists_run_of_exec (A := plainHandoffs) (fun h => h) rfl
    ([.offer 0, .cancelPending] ++ handOver 1 ++ handOver 0)
    (fun s => s.gone = [.discarded 0, .taken 1, .taken 0]) (by decide +kernel)
  exact ⟨⟨_, s, hrun, hgone⟩, _, t, hrun', hgone'⟩

end FoldGPT.App
