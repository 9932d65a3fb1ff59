import Mathlib.Algebra.GroupWithZero.Nat
import Mathlib.Algebra.Ring.Int.Defs
import Mathlib.Data.List.ReduceOption

/-!
# Writing to the standard input of a host process

`HostProcesses.write` queues the chunk of a call, and behind it `None` when the call closes the
input; `_writer` moves the chunks to the pipe and ends at `None`.

A call runs from its beginning, or from a wake-up, to its answer or its next wait as one step, and
a wake-up may come at any time here. The bytes the pipe took are history; the accepted calls of a
run are those that got this answer.

* `host_writes_exact`: every run.
-/

namespace FoldGPT.Host.Stdin

open List

abbrev Bytes := List UInt8

/-- The task of `_writer`: before the test of its loop, with a chunk and what is left to write of
it, or ended. -/
inductive Writer where
  | ready
  | writing (data view : Bytes)
  | ended

structure Record where
  hostEofQueued : Bool
  stdinClosed : Bool
  /-- `stdin >= 0`. -/
  opened : Bool
  terminationRequested : Bool := false
  writes : List (Option Bytes) := []
  queuedBytes : Int := 0
  writer : Writer := .ready
  written : Bytes := []
  /-- The writer closed the pipe at the end marker. -/
  atMarker : Bool := false

inductive Answer where
  | accepted
  | waits
  | rpcError (code : Int) (message : String)

/-- What `os.write` does; a count beyond what was offered stands for all of it. -/
inductive Wrote where
  | count (n : Nat)
  | blocked
  | failed

inductive Event where
  | write (known : Bool) (data : Bytes) (closeStdin : Bool)
  | terminate
  /-- The owner of the process closes the pipe, also while the writer is kept. -/
  | close
  | writer (wrote : Wrote)
  /-- A task that is cancelled before its first step does not run at all. -/
  | cancel (begun : Bool)

/-- What a call appends to `writes`. -/
def entries (data : Bytes) (closeStdin : Bool) : List (Option Bytes) :=
  (if data = [] then [] else [some data]) ++ if closeStdin then [none] else []

namespace Record

def accept (s : Record) (data : Bytes) (closeStdin : Bool) : Record :=
  { s with
    writes := s.writes ++ entries data closeStdin
    queuedBytes := s.queuedBytes + data.length
    hostEofQueued := closeStdin }

def write (s : Record) (known : Bool) (data : Bytes) (closeStdin : Bool) : Record × Answer :=
  if known = false then (s, .rpcError (-32600) "Host process is outside this authority")
  else if 32768 < data.length then
    (s, .rpcError (-32602) "Host stdin requires a bounded complete byte chunk")
  else if s.hostEofQueued || s.stdinClosed || s.terminationRequested then
    (s, .rpcError (-32603) "Host stdin is closed")
  else if s.queuedBytes + data.length ≤ 65536 ∧ s.writes.length < 128 then
    (s.accept data closeStdin, .accepted)
  else (s, .waits)

/-- The `finally` of `_writer`. -/
def finish (s : Record) (atMarker : Bool) : Record :=
  { s with
    opened := false, stdinClosed := true, writes := [], queuedBytes := 0
    writer := .ended, atMarker := atMarker }

/-- The loop of `_writer` up to its chunk. -/
def look (s : Record) : Record :=
  if s.terminationRequested || s.stdinClosed then s.finish false
  else match s.writes with
    | [] => s
    | none :: _ => s.finish true
    | some data :: _ => { s with writer := .writing data data }

/-- One `os.write`, or the end of the chunk. -/
def push (s : Record) (data view : Bytes) (wrote : Wrote) : Record :=
  if view = [] then
    { s with writes := s.writes.tail, queuedBytes := s.queuedBytes - data.length, writer := .ready }
  else match wrote with
    | .count n =>
      if s.opened = true ∧ 0 < n then
        { s with written := s.written ++ view.take n, writer := .writing data (view.drop n) }
      else s.finish false
    | .blocked => s
    | .failed => s.finish false

def step (s : Record) : Event → Record
  | .write known data closeStdin => (s.write known data closeStdin).1
  | .terminate => { s with terminationRequested := true }
  | .close => { s with opened := false, stdinClosed := true }
  | .writer wrote =>
    match s.writer with
    | .ready => s.look
    | .writing data view => s.push data view wrote
    | .ended => s
  | .cancel begun =>
    match s.writer with
    | .ended => s
    | _ => if begun then s.finish false else { s with writer := .ended }

/-- `spawn`, which closes the pipe at once when no input is asked for. -/
def spawn (pipeStdin : Bool) : Record :=
  { hostEofQueued := !pipeStdin, stdinClosed := !pipeStdin, opened := pipeStdin }

def run (pipeStdin : Bool) (events : List Event) : Record := events.foldl step (spawn pipeStdin)

/-- The call of an event that is answered `accepted`. -/
def accepts (s : Record) : Event → List (Bytes × Bool)
  | .write known data closeStdin =>
    match (s.write known data closeStdin).2 with
    | .accepted => [(data, closeStdin)]
    | _ => []
  | _ => []

/-- The calls that are answered `accepted` from a record on, in their order. -/
def accepted (s : Record) : List Event → List (Bytes × Bool)
  | [] => []
  | event :: events => s.accepts event ++ (s.step event).accepted events

/-- The bytes of calls. -/
def input (calls : List (Bytes × Bool)) : Bytes := (calls.map Prod.fst).flatten

/-! ### What every step keeps -/

/-- The bytes of the queue that are not in the pipe. -/
def pending (s : Record) : Bytes :=
  match s.writer with
  | .writing _ view => view ++ s.writes.tail.reduceOption.flatten
  | _ => s.writes.reduceOption.flatten

/-- What holds of a record once `calls` have been accepted. -/
structure Inv (s : Record) (calls : List (Bytes × Bool)) : Prop where
  queued : s.queuedBytes = (s.writes.reduceOption.flatten.length : Int)
  bounded : s.queuedBytes ≤ 65536
  head : ∀ data view, s.writer = .writing data view → s.writes.head? = some (some data)
  /-- The marker is the last in the queue. -/
  marker : none ∉ s.writes.dropLast
  eofQueued : none ∈ s.writes ∨ (∃ call ∈ calls, call.2 = true) → s.hostEofQueued = true
  last : ∀ call ∈ calls.dropLast, call.2 = false
  flow : s.writer ≠ .ended → s.written ++ s.pending = input calls
  written : s.written <+: input calls
  atMarker : s.atMarker = true → s.stdinClosed = true ∧ s.writer = .ended ∧ s.written = input calls

theorem entries_spec (data : Bytes) (closeStdin : Bool) :
    (entries data closeStdin).reduceOption.flatten = data ∧
      none ∉ (entries data closeStdin).dropLast ∧
      (none ∈ entries data closeStdin → closeStdin = true) := by
  by_cases hdata : data = [] <;> cases closeStdin <;> simp [entries, hdata, List.reduceOption]

variable {s : Record} {calls : List (Bytes × Bool)}

theorem Inv.accept (h : s.Inv calls) {data : Bytes} {closeStdin : Bool}
    (heof : s.hostEofQueued = false) (hclosed : s.stdinClosed = false)
    (hroom : s.queuedBytes + data.length ≤ 65536) :
    (s.accept data closeStdin).Inv (calls ++ [(data, closeStdin)]) := by
  obtain ⟨hdata, hmarker, hnone⟩ := entries_spec data closeStdin
  have hqueue : none ∉ s.writes := fun hmem => by simpa [heof] using h.eofQueued (.inl hmem)
  have hopen : ∀ call ∈ calls, call.2 = false := fun call hcall => by
    by_contra hnot
    simpa [heof] using h.eofQueued (.inr ⟨call, hcall, by simpa using hnot⟩)
  have hinput : input (calls ++ [(data, closeStdin)]) = input calls ++ data := by
    simp [input]
  refine ⟨?_, hroom, ?_, ?_, ?_, ?_, ?_, ?_, ?_⟩
  · simp only [Record.accept, reduceOption_append, flatten_append, length_append,
      hdata, h.queued]
    push_cast
    rfl
  · intro chunk view hwriter
    simp only [Record.accept, List.head?_append, h.head chunk view hwriter, Option.some_or]
  · simp only [Record.accept, dropLast_append]
    split
    · exact h.marker
    · simp [hqueue, hmarker]
  · rintro (hmem | ⟨call, hcall, hcloses⟩)
    · exact hnone ((mem_append.mp hmem).resolve_left hqueue)
    · rcases mem_append.mp hcall with hcall | hcall
      · simp [hopen call hcall] at hcloses
      · rw [mem_singleton.mp hcall] at hcloses
        exact hcloses
  · simpa using hopen
  · intro hwriter
    rw [hinput, ← h.flow hwriter, append_assoc]
    congr 1
    unfold pending
    cases hs : s.writer with
    | writing chunk view =>
      have hhead := h.head chunk view hs
      cases hwrites : s.writes with
      | nil => simp [hwrites] at hhead
      | cons first rest => simp [Record.accept, hs, hwrites, reduceOption_append, hdata]
    | ready | ended => simp [Record.accept, hs, reduceOption_append, hdata]
  · rw [hinput]
    exact h.written.trans (prefix_append _ _)
  · intro hat
    simpa [hclosed] using (h.atMarker hat).1

theorem Inv.finish (h : s.Inv calls) {atMarker : Bool}
    (hat : atMarker = true → s.written = input calls) :
    (s.finish atMarker).Inv calls where
  queued := rfl
  bounded := by simp [Record.finish]
  head _ _ hwriter := by simp [Record.finish] at hwriter
  marker := by simp [Record.finish]
  eofQueued hor := h.eofQueued (.inr (by simpa [Record.finish] using hor))
  last := h.last
  flow hwriter := absurd rfl hwriter
  written := h.written
  atMarker hat' := ⟨rfl, rfl, hat hat'⟩

theorem Inv.look (h : s.Inv calls) (hready : s.writer = .ready) : s.look.Inv calls := by
  have hflow := h.flow (by simp [hready])
  rw [pending, hready] at hflow
  rw [Record.look]
  split
  · exact h.finish (by simp)
  split
  · exact h
  next rest hwrites =>
    -- nothing stands behind the marker
    have hrest : rest = [] := by
      have hmarker := h.marker
      rw [hwrites] at hmarker
      cases rest <;> simp_all
    refine h.finish fun _ => ?_
    simpa [hwrites, hrest, List.reduceOption] using hflow
  next data rest hwrites =>
    refine ⟨h.queued, h.bounded, ?_, h.marker, h.eofQueued, h.last, fun _ => ?_, h.written, ?_⟩
    · rintro _ _ ⟨⟩
      simp [hwrites]
    · simpa [pending, input, hwrites] using hflow
    · intro hat
      simpa [hready] using (h.atMarker hat).2.1

theorem Inv.push (h : s.Inv calls) {data view : Bytes} (hwriter : s.writer = .writing data view)
    (wrote : Wrote) : (s.push data view wrote).Inv calls := by
  obtain ⟨rest, hwrites⟩ : ∃ rest, s.writes = some data :: rest := by
    have hhead := h.head data view hwriter
    exact ⟨s.writes.tail, (List.cons_head?_tail hhead).symm⟩
  have hflow := h.flow (by simp [hwriter])
  have hat : s.atMarker = true → False := fun hat => by
    simpa [hwriter] using (h.atMarker hat).2.1
  simp only [pending, hwriter, hwrites, tail_cons] at hflow
  have hqueued := h.queued
  have hbounded := h.bounded
  have hmarker := h.marker
  rw [hwrites] at hqueued hmarker
  simp only [reduceOption_cons_of_some, flatten_cons, length_append] at hqueued
  rw [Record.push.eq_def]
  split
  next hview =>
    refine ⟨?_, ?_, ?_, ?_, ?_, h.last, fun _ => ?_, h.written, fun h => (hat h).elim⟩
    · simp only [hwrites, tail_cons]
      omega
    · simp only
      omega
    · simp
    · cases rest <;> simp_all
    · rintro (hmem | hcall)
      · exact h.eofQueued (.inl (by simp [hwrites] at hmem ⊢; exact hmem))
      · exact h.eofQueued (.inr hcall)
    · simpa [pending, input, hwrites, hview] using hflow
  · cases wrote with
    | count n =>
      dsimp only
      split
      · rw [← take_append_drop n view] at hflow
        refine ⟨h.queued, h.bounded, ?_, h.marker, h.eofQueued, h.last, fun _ => ?_, ?_,
          fun h => (hat h).elim⟩
        · rintro _ _ ⟨⟩
          simp [hwrites]
        · simpa only [pending, input, hwrites, tail_cons, append_assoc] using hflow
        · exact ⟨view.drop n ++ rest.reduceOption.flatten,
            by simpa only [input, append_assoc] using hflow⟩
      · exact h.finish (by simp)
    | blocked => exact h
    | failed => exact h.finish (by simp)

theorem step_inv (h : s.Inv calls) (event : Event) :
    (s.step event).Inv (calls ++ s.accepts event) := by
  cases event with
  | write known data closeStdin =>
    simp only [step, accepts, write]
    split_ifs with hknown hlarge hclosed hroom
    on_goal 4 =>
      simp only [Bool.or_eq_true, not_or, Bool.not_eq_true] at hclosed
      exact h.accept hclosed.1.1 hclosed.1.2 hroom.1
    all_goals
      rw [append_nil]
      exact h
  | terminate =>
    simp only [accepts, append_nil]
    exact { h with }
  | close =>
    simp only [accepts, append_nil]
    exact { h with atMarker := fun hat => ⟨rfl, (h.atMarker hat).2⟩ }
  | writer wrote =>
    simp only [step, accepts, append_nil]
    split
    next hwriter => exact h.look hwriter
    next hwriter => exact h.push hwriter wrote
    · exact h
  | cancel begun =>
    simp only [step, accepts, append_nil]
    split
    · exact h
    next hwriter =>
      split
      · exact h.finish (by simp)
      · exact { h with
          head := by simp
          flow := fun hover => absurd rfl hover
          atMarker := fun hat => absurd (h.atMarker hat).2.1 hwriter }

theorem run_inv (pipeStdin : Bool) (events : List Event) :
    (run pipeStdin events).Inv ((spawn pipeStdin).accepted events) := by
  have hspawn : (spawn pipeStdin).Inv [] := by
    constructor <;> simp [spawn, pending, input, List.reduceOption]
  have hfold : ∀ {s : Record} {calls}, s.Inv calls →
      (events.foldl step s).Inv (calls ++ s.accepted events) := by
    induction events with
    | nil =>
      intro s calls h
      rwa [accepted, append_nil]
    | cons event events ih =>
      intro s calls h
      rw [accepted, ← append_assoc]
      exact ih (step_inv h event)
  exact hfold hspawn

/-- **What is accepted is written**, in every state of every schedule: the queue is counted and
bounded, the pipe has the first bytes of the accepted calls, nothing is accepted after a call that
closes the input, and a writer that ended at the marker has written everything. -/
theorem host_writes_exact (pipeStdin : Bool) (events : List Event) :
    let s := run pipeStdin events
    let calls := (spawn pipeStdin).accepted events
    s.queuedBytes = ((s.writes.reduceOption.map List.length).sum : Int) ∧ s.queuedBytes ≤ 65536 ∧
      s.written <+: input calls ∧ (∀ call ∈ calls.dropLast, call.2 = false) ∧
      (s.atMarker = true → s.written = input calls) := by
  have h := run_inv pipeStdin events
  refine ⟨?_, h.bounded, h.written, h.last, fun hat => (h.atMarker hat).2.2⟩
  rw [h.queued, length_flatten]

/-- Two calls, the second of which closes the input, a third that comes too late, and the writer
up to the marker. -/
def twoCalls : List Event :=
  [.write true [1, 2] false, .write true [3] true, .write true [4] false] ++
    replicate 9 (.writer (.count 1))

theorem host_writes_exact_two :
    (spawn true).accepted twoCalls = [([1, 2], false), ([3], true)] ∧
      (run true twoCalls).written = [1, 2, 3] := by
  have hcalls : (spawn true).accepted twoCalls = [([1, 2], false), ([3], true)] := by decide
  have h := (host_writes_exact true twoCalls).2.2.2.2 (by decide)
  rw [hcalls] at h
  exact ⟨hcalls, h⟩

end Record

end FoldGPT.Host.Stdin
