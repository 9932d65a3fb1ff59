import FoldGPT.Lib.Recent
import FoldGPT.Lib.Transition
import FoldGPT.Process.Record

/-!
# Writing to the standard input of a process

`NativeProcessesBackend._write` queues the chunk of a `process/write` call under its
`writeId`, and `_writer` moves the queued chunks to the pipe. Any number of calls,
retries of one another among them, wait on `record.write_changed`, an event that every
party clears and sets. A call that finds its id among the last accepted ones is answered
at once; one that finds no room waits. The writer keeps a chunk at the head of the
queue while it writes it piece by piece, and whatever ends it closes the pipe and drops
the queue.

A call runs from its beginning, or from a wake-up, to its answer or its next wait as one
step. The writer is cut finer, one `os.write` a step; the steps that the event loop would
not interleave are interleaved here as well. Two fields of the record are history: the
accepted chunks in the order of acceptance, and the bytes the pipe took.

Main result: `writes_exact`.
-/

namespace FoldGPT.Process

open FoldGPT.Lib List

def STDIN_BYTES : Nat := 1024 * 1024
def RETAINED_WRITE_IDS : Nat := 4096

inductive WriteStatus
  | unknownProcess
  | starting
  | stdinClosed
  | accepted
  deriving DecidableEq, Repr

/-- What `_write` returns or raises. -/
inductive WriteResult
  | status (status : WriteStatus)
  | rpcError (code : Int) (message : String)
  | binasciiError
  deriving DecidableEq, Repr

/-- The fields of `_Process` that writing uses, and the history. -/
structure Stdin where
  state : State := .starting
  /-- `params_json["pipeStdin"]`. -/
  pipeStdin : Bool
  /-- `stdin >= 0`. -/
  opened : Bool := false
  stdinClosed : Bool := false
  terminationRequested : Bool := false
  writeChanged : Bool := false
  writes : List (List UInt8) := []
  queuedBytes : Int := 0
  acceptedIds : List (List Char) := []
  log : List (List Char × List UInt8) := []
  written : List UInt8 := []
  deriving DecidableEq, Repr

/-- A call that waits for `write_changed`. -/
structure Waiter where
  identifier : List Char
  data : List UInt8
  woken : Bool
  deriving DecidableEq, Repr

/-- The task of `_writer`: not made, made but not yet run, before the test of its loop,
waiting, with a chunk and what is left to write of it, or over. -/
inductive Writer
  | absent
  | created
  | ready
  | waiting (woken : Bool)
  | writing (data view : List UInt8)
  | ended
  deriving DecidableEq, Repr

/-- A process, its writer, the calls that wait, and the answers given so far. -/
structure Input where
  record : Stdin
  writer : Writer := .absent
  waiters : List Waiter := []
  answers : List (List Char × WriteResult) := []
  deriving DecidableEq, Repr

/-- `record.writes.append(data)` and what is committed along with it. -/
def Stdin.accept (record : Stdin) (identifier : List Char) (data : List UInt8) : Stdin :=
  { record with
    writes := record.writes ++ [data]
    queuedBytes := record.queuedBytes + data.length
    acceptedIds := push RETAINED_WRITE_IDS record.acceptedIds identifier
    log := record.log ++ [(identifier, data)] }

/-- The wake-up of the writer. -/
def Writer.wake : Writer → Writer
  | .waiting _ => .waiting true
  | writer => writer

namespace Input

/-- `write_changed.clear()`. -/
def clear (s : Input) : Input := { s with record := { s.record with writeChanged := false } }

/-- `write_changed.set()`: everyone who waits is woken. -/
def signal (s : Input) : Input :=
  { s with
    record := { s.record with writeChanged := true }
    writer := s.writer.wake
    waiters := s.waiters.map fun w => { w with woken := true } }

/-- A call is answered. -/
def reply (s : Input) (identifier : List Char) (result : WriteResult) : Input :=
  { s with answers := s.answers ++ [(identifier, result)] }

local instance lawful_identifier : LawfulBEq (List Char) := inferInstance

/-- One turn of the loop of `_write`, up to its answer or its wait. -/
def turn (s : Input) (identifier : List Char) (data : List UInt8) : Input :=
  let s := s.clear
  if identifier ∈ s.record.acceptedIds then s.reply identifier (.status .accepted)
  else if s.record.stdinClosed || s.record.terminationRequested then
    s.reply identifier (.rpcError (-32603) "Failed to write to process stdin")
  else if s.record.queuedBytes + data.length ≤ STDIN_BYTES ∧ s.record.writes.length < 128 then
    ({ s with record := s.record.accept identifier data }.signal).reply identifier
      (.status .accepted)
  else { s with waiters := s.waiters ++ [⟨identifier, data, s.record.writeChanged⟩] }

/-- `_write`; `known` tells whether the session has the process. -/
def write (s : Input) (known : Bool) (identifier chunk : List Char) : Input :=
  if identifier = [] then s.reply identifier (.rpcError (-32602) "writeId must not be empty")
  else if known = false then s.reply identifier (.status .unknownProcess)
  else if s.record.state = .starting then s.reply identifier (.status .starting)
  else if s.record.pipeStdin = false then s.reply identifier (.status .stdinClosed)
  else if identifier ∈ s.record.acceptedIds then s.reply identifier (.status .accepted)
  else match Base64.decode chunk with
    | none => s.reply identifier .binasciiError
    | some data =>
      if STDIN_BYTES < data.length then
        s.reply identifier
          (.rpcError (-32602) "Process stdin chunk exceeds the declared private bound")
      else s.turn identifier data

/-- The `finally` of `_writer`. -/
def finish (s : Input) : Input :=
  { s with
    record := { s.record with opened := false, stdinClosed := true, writes := [], queuedBytes := 0 }
    writer := .ended }.signal

/-- What `os.write` does: it takes some bytes, would block, or raises. -/
inductive Outcome
  | wrote (count : Nat)
  | blocked
  | raised
  deriving DecidableEq, Repr

/-- The test of the writer's loop, and the loop's beginning. -/
def begin (s : Input) : Input :=
  if s.record.terminationRequested || s.record.stdinClosed then s.finish
  else
    let s := s.clear
    match s.record.writes with
    | [] => { s with writer := .waiting s.record.writeChanged }
    | data :: _ => { s with writer := .writing data data }

/-- The rest of the loop, after the last byte of a chunk. -/
def popleft (s : Input) (data : List UInt8) : Input :=
  match s.record.writes with
  | [] => s.finish
  | _ :: rest =>
    { s with
      record := { s.record with writes := rest, queuedBytes := s.record.queuedBytes - data.length }
      writer := .ready }.signal

/-- One step of `_writer`. -/
def writerStep (s : Input) (outcome : Outcome) : Option Input :=
  match s.writer with
  | .created | .ready => some s.begin
  | .waiting true => some { s with writer := .ready }
  | .writing data [] => some (s.popleft data)
  | .writing data view =>
    match outcome with
    | .wrote count =>
      if count ≤ view.length then
        some { s with
          record := { s.record with written := s.record.written ++ view.take count }
          writer := .writing data (view.drop count) }
      else none
    | .blocked => some s
    | .raised => some s.finish
  | _ => none

/-- What can happen: a call, a woken call goes on, a waiting call is cancelled, the writer's
own steps and its cancellation, and what `_run`, `_control` and `_terminate` do to the
record. -/
inductive Act
  | call (known : Bool) (identifier chunk : List Char)
  | resume (i : Nat)
  | abandon (i : Nat)
  | writer (outcome : Outcome)
  | cancelWriter
  | openPipe
  | spawn
  | become (state : State)
  | terminate
  | exited
  | close
  deriving DecidableEq, Repr

/-- **One step.** -/
def step (s : Input) : Act → Option Input
  | .call known identifier chunk => some (s.write known identifier chunk)
  | .resume i =>
    match s.waiters[i]? with
    | some ⟨identifier, data, true⟩ =>
      some ({ s with waiters := s.waiters.eraseIdx i }.turn identifier data)
    | _ => none
  | .abandon i => some { s with waiters := s.waiters.eraseIdx i }
  | .writer outcome => s.writerStep outcome
  | .cancelWriter =>
    match s.writer with
    | .absent | .ended => none
    -- a task that never ran does not enter its `try`
    | .created => some { s with writer := .ended }
    | _ => some s.finish
  | .openPipe =>
    if s.record.pipeStdin then some { s with record := { s.record with opened := true } }
    else some { s with record := { s.record with stdinClosed := true } }
  | .spawn =>
    if s.writer = .absent ∧ s.record.opened = true then some { s with writer := .created } else none
  | .become state => some { s with record := { s.record with state } }
  | .terminate => some ({ s with record := { s.record with terminationRequested := true } }.signal)
  | .exited => some s.signal
  | .close =>
    -- `_run` has cancelled and awaited the writer
    if s.writer = .absent ∨ s.writer = .ended then
      some ({ s with record := { s.record with opened := false, stdinClosed := true } }.signal)
    else none

end Input

/-- The writes to a process, from its registration on. -/
def writing (pipeStdin : Bool) : LTS Input Input.Act :=
  .ofFun (fun s => s = { record := { pipeStdin } }) Input.step

/-! ### The queue -/

/-- The accepted chunks, one after the other. -/
def Stdin.accepted (record : Stdin) : List UInt8 := (record.log.map Prod.snd).flatten

/-- The accounting of the queue and of the accepted ids. -/
structure Stdin.Sound (record : Stdin) : Prop where
  queued : record.queuedBytes = (record.writes.map List.length).sum
  bounded : record.queuedBytes ≤ STDIN_BYTES
  chunks : record.writes.length ≤ 128
  retained : record.acceptedIds = recent RETAINED_WRITE_IDS (record.log.map Prod.fst)
  spaced : Spaced RETAINED_WRITE_IDS (record.log.map Prod.fst)

variable {record : Stdin}

theorem Stdin.Sound.accept (h : record.Sound) {identifier : List Char}
    {data : List UInt8} (hnew : identifier ∉ record.acceptedIds)
    (hbytes : record.queuedBytes + data.length ≤ STDIN_BYTES) (hchunks : record.writes.length < 128) :
    (record.accept identifier data).Sound where
  queued := by
    simp only [Stdin.accept, h.queued, map_append, sum_append, map_cons,
      map_nil, sum_singleton]
    omega
  bounded := hbytes
  chunks := by
    simp only [Stdin.accept, length_append, length_singleton]
    omega
  retained := by
    simp only [Stdin.accept, h.retained, map_append, push_recent]
    rfl
  spaced := by
    rw [h.retained] at hnew
    simpa [Stdin.accept] using h.spaced.append hnew

theorem Stdin.Sound.pop (h : record.Sound) {data : List UInt8}
    {rest : List (List UInt8)} (hwrites : record.writes = data :: rest) :
    ({ record with writes := rest, queuedBytes := record.queuedBytes - data.length } :
      Stdin).Sound := by
  have hqueued := h.queued
  have hchunks := h.chunks
  have hbounded := h.bounded
  rw [hwrites] at hqueued hchunks
  simp only [map_cons, sum_cons, length_cons] at hqueued hchunks
  refine { h with queued := ?_, bounded := ?_, chunks := ?_ }
  · show record.queuedBytes - data.length = ((rest.map List.length).sum : Nat)
    omega
  · show record.queuedBytes - data.length ≤ _
    omega
  · show rest.length ≤ 128
    omega

/-- What the pipe has taken: with the chunk in the writer's hands and the rest of the queue
it makes up what was accepted, until the queue is dropped. -/
def Flow : Writer → Stdin → Prop
  | .ended, record => record.written <+: record.accepted
  | .writing data view, record => ∃ rest, record.writes = data :: rest ∧
      record.written ++ view ++ rest.flatten = record.accepted
  | _, record => record.written ++ record.writes.flatten = record.accepted

variable {writer : Writer}

/-- Whatever the writer does, the pipe has taken a beginning of what was accepted. -/
theorem Flow.written_le (h : Flow writer record) : record.written <+: record.accepted := by
  cases writer with
  | ended => exact h
  | writing data view =>
    obtain ⟨rest, -, hflow⟩ := h
    rw [append_assoc] at hflow
    exact ⟨_, hflow⟩
  | absent | created | ready | waiting => exact ⟨_, h⟩

theorem Flow.wake (h : Flow writer record) : Flow writer.wake record := by
  cases writer <;> exact h

theorem Flow.accept (h : Flow writer record)
    (identifier : List Char) (data : List UInt8) : Flow writer (record.accept identifier data) := by
  have haccepted : (record.accept identifier data).accepted = record.accepted ++ data := by
    simp [Stdin.accepted, Stdin.accept]
  cases writer with
  | ended =>
    show record.written <+: _
    rw [haccepted]
    exact List.IsPrefix.trans h (prefix_append _ _)
  | writing head view =>
    obtain ⟨rest, hwrites, hflow⟩ := h
    refine ⟨rest ++ [data], ?_, ?_⟩
    · simp [Stdin.accept, hwrites]
    · rw [haccepted, ← hflow]
      simp [Stdin.accept]
  | absent | created | ready | waiting =>
    show record.written ++ (record.writes ++ [data]).flatten = _
    rw [haccepted, ← (show record.written ++ record.writes.flatten = record.accepted from h)]
    simp

namespace Input

/-! ### What every step keeps -/

/-- **The invariant.** -/
structure Inv (s : Input) : Prop where
  sound : s.record.Sound
  flow : Flow s.writer s.record
  answered : ∀ identifier, (identifier, .status .accepted) ∈ s.answers →
    identifier ∈ s.record.log.map Prod.fst

variable {s s' : Input}

theorem Inv.congr (h : s.Inv) (hwriter : s'.writer = s.writer) (hanswers : s'.answers = s.answers)
    (hwrites : s'.record.writes = s.record.writes)
    (hqueued : s'.record.queuedBytes = s.record.queuedBytes)
    (hids : s'.record.acceptedIds = s.record.acceptedIds) (hlog : s'.record.log = s.record.log)
    (hwritten : s'.record.written = s.record.written) : s'.Inv := by
  obtain ⟨⟨queued, bounded, chunks, retained, spaced⟩, flow, answered⟩ := h
  have hflow : Flow s'.writer s'.record := by
    rw [hwriter]
    cases hw : s.writer <;> rw [hw] at flow <;>
      simpa only [Flow, Stdin.accepted, hwrites, hlog, hwritten] using flow
  refine ⟨⟨?_, ?_, ?_, ?_, ?_⟩, hflow, ?_⟩
  · rw [hqueued, hwrites, queued]
  · rw [hqueued]
    exact bounded
  · rw [hwrites]
    exact chunks
  · rw [hids, hlog, retained]
  · rw [hlog]
    exact spaced
  · rw [hanswers, hlog]
    exact answered

theorem Inv.clear (h : s.Inv) : s.clear.Inv := h.congr rfl rfl rfl rfl rfl rfl rfl

theorem Inv.signal (h : s.Inv) : s.signal.Inv :=
  Inv.congr (s := { s with writer := s.writer.wake }) { h with flow := h.flow.wake }
    rfl rfl rfl rfl rfl rfl rfl

theorem Inv.reply (h : s.Inv) {identifier : List Char} {result : WriteResult}
    (hresult : result = .status .accepted → identifier ∈ s.record.log.map Prod.fst) :
    (s.reply identifier result).Inv where
  __ := h
  answered := by
    intro other hmem
    rcases mem_append.mp hmem with hmem | hmem
    · exact h.answered other hmem
    · obtain ⟨rfl, rfl⟩ := Prod.mk.inj (mem_singleton.mp hmem)
      exact hresult rfl

theorem Inv.logged (h : s.Inv) {identifier : List Char}
    (hmem : identifier ∈ s.record.acceptedIds) : identifier ∈ s.record.log.map Prod.fst := by
  rw [h.sound.retained] at hmem
  exact mem_of_mem_drop hmem

theorem Inv.turn (h : s.Inv) (identifier : List Char) (data : List UInt8) :
    (s.turn identifier data).Inv := by
  have hclear := h.clear
  simp only [Input.turn]
  split
  next hold => exact hclear.reply fun _ => hclear.logged hold
  next hnew =>
    split
    · exact hclear.reply nofun
    · split
      next hroom =>
        have haccept : ({ s.clear with record := s.clear.record.accept identifier data } :
            Input).Inv :=
          { sound := hclear.sound.accept hnew hroom.1 hroom.2
            flow := hclear.flow.accept identifier data
            answered := fun other hmem => by
              have hlog := hclear.answered other hmem
              simp only [Stdin.accept, map_append]
              exact mem_append_left _ hlog }
        refine haccept.signal.reply fun _ => ?_
        simp [Input.signal, Stdin.accept]
      · exact hclear.congr rfl rfl rfl rfl rfl rfl rfl

theorem Inv.write (h : s.Inv) (known : Bool) (identifier chunk : List Char) :
    (s.write known identifier chunk).Inv := by
  unfold Input.write
  split
  · exact h.reply nofun
  split
  · exact h.reply nofun
  split
  · exact h.reply nofun
  split
  · exact h.reply nofun
  split
  next hold => exact h.reply fun _ => h.logged hold
  split
  · exact h.reply nofun
  · split
    · exact h.reply nofun
    · exact h.turn identifier _

/-- Dropping the queue. -/
theorem Inv.finish (h : s.Inv) : s.finish.Inv := by
  have hdropped : ({ s with
      record := { s.record with opened := false, stdinClosed := true, writes := [], queuedBytes := 0 }
      writer := .ended } : Input).Inv :=
    { sound := { h.sound with
        queued := rfl
        bounded := show (0 : Int) ≤ STDIN_BYTES by decide
        chunks := Nat.zero_le _ }
      flow := h.flow.written_le
      answered := h.answered }
  exact hdropped.signal

theorem Inv.begin (h : s.Inv) (hready : s.writer = .created ∨ s.writer = .ready) : s.begin.Inv := by
  unfold Input.begin
  split
  · exact h.finish
  · have hclear := h.clear
    have hflow : s.record.written ++ s.record.writes.flatten = s.record.accepted := by
      have := h.flow
      rcases hready with hw | hw <;> rw [hw] at this <;> exact this
    dsimp only
    split
    · exact { hclear with flow := hflow }
    next data rest hwrites =>
      have hwrites : s.record.writes = data :: rest := hwrites
      rw [hwrites, flatten_cons, ← append_assoc] at hflow
      exact { hclear with flow := ⟨rest, hwrites, hflow⟩ }

theorem Inv.popleft (h : s.Inv) {data : List UInt8} (hw : s.writer = .writing data []) :
    (s.popleft data).Inv := by
  have hflow := h.flow
  rw [hw] at hflow
  obtain ⟨rest, hwrites, hflow⟩ := hflow
  rw [append_nil] at hflow
  unfold Input.popleft
  split
  · exact h.finish
  next first tail hcons =>
    rw [hwrites] at hcons
    obtain ⟨rfl, rfl⟩ := List.cons.inj hcons
    have hpopped : ({ s with
        record := { s.record with
          writes := rest, queuedBytes := s.record.queuedBytes - data.length }
        writer := .ready } : Input).Inv :=
      { sound := h.sound.pop hwrites
        flow := hflow
        answered := h.answered }
    exact hpopped.signal

theorem Inv.writerStep (h : s.Inv) {outcome : Outcome} (hstep : s.writerStep outcome = some s') :
    s'.Inv := by
  have hflow := h.flow
  unfold Input.writerStep at hstep
  split at hstep
  next hw => cases hstep; exact h.begin (.inl hw)
  next hw => cases hstep; exact h.begin (.inr hw)
  next hw =>
    cases hstep
    rw [hw] at hflow
    exact { h with flow := hflow }
  next data hw =>
    cases hstep
    exact h.popleft hw
  next data view _ hw =>
    split at hstep
    next count =>
      split at hstep
      · cases hstep
        rw [hw] at hflow
        obtain ⟨rest, hwrites, hflow⟩ := hflow
        refine { h with sound := { h.sound with }, flow := ⟨rest, hwrites, ?_⟩ }
        show s.record.written ++ view.take count ++ view.drop count ++ rest.flatten = _
        rw [append_assoc s.record.written, take_append_drop]
        exact hflow
      · cases hstep
    · cases hstep
      exact h
    · cases hstep
      exact h.finish
  · cases hstep

/-- **Every step keeps the invariant.** -/
theorem step_inv (h : s.Inv) {act : Act} (hstep : s.step act = some s') : s'.Inv := by
  cases act with
  | call known identifier chunk =>
    cases hstep
    exact h.write known identifier chunk
  | resume i =>
    simp only [Input.step] at hstep
    split at hstep
    · cases hstep
      have hrest : ({ s with waiters := s.waiters.eraseIdx i } : Input).Inv :=
        h.congr rfl rfl rfl rfl rfl rfl rfl
      exact hrest.turn _ _
    · cases hstep
  | abandon i =>
    cases hstep
    exact h.congr rfl rfl rfl rfl rfl rfl rfl
  | writer outcome => exact h.writerStep hstep
  | cancelWriter =>
    simp only [Input.step] at hstep
    split at hstep
    · cases hstep
    · cases hstep
    · cases hstep
      exact { h with flow := h.flow.written_le }
    · cases hstep
      exact h.finish
  | openPipe =>
    simp only [Input.step] at hstep
    split at hstep <;> cases hstep <;> exact h.congr rfl rfl rfl rfl rfl rfl rfl
  | spawn =>
    simp only [Input.step, Option.ite_none_right_eq_some, Option.some.injEq] at hstep
    obtain ⟨⟨habsent, -⟩, rfl⟩ := hstep
    have hflow := h.flow
    rw [habsent] at hflow
    exact { h with flow := hflow }
  | become state =>
    cases hstep
    exact h.congr rfl rfl rfl rfl rfl rfl rfl
  | terminate =>
    cases hstep
    exact Inv.signal (h.congr rfl rfl rfl rfl rfl rfl rfl)
  | exited =>
    cases hstep
    exact h.signal
  | close =>
    simp only [Input.step, Option.ite_none_right_eq_some, Option.some.injEq] at hstep
    obtain ⟨-, rfl⟩ := hstep
    exact Inv.signal (h.congr rfl rfl rfl rfl rfl rfl rfl)

theorem init_inv (pipeStdin : Bool) : ({ record := { pipeStdin } } : Input).Inv where
  sound := ⟨rfl, show (0 : Int) ≤ STDIN_BYTES by decide, Nat.zero_le _, drop_nil.symm,
    spaced_nil _⟩
  flow := rfl
  answered := nofun

/-- **What the queue, the answers and the pipe have in common.** -/
structure Exact (s : Input) : Prop where
  /-- The retained ids are those of the last acceptances. -/
  retained : s.record.acceptedIds = recent RETAINED_WRITE_IDS (s.record.log.map Prod.fst)
  /-- Each of them had one chunk queued among these. -/
  once : s.record.acceptedIds.Nodup
  /-- A chunk is queued twice under one id only with more than `RETAINED_WRITE_IDS`
  acceptances from the one to the other. -/
  apart : Spaced RETAINED_WRITE_IDS (s.record.log.map Prod.fst)
  queued : s.record.queuedBytes = (s.record.writes.map List.length).sum
  bounded : s.record.queuedBytes ≤ STDIN_BYTES
  chunks : s.record.writes.length ≤ 128
  /-- A call is answered `accepted` only after a chunk with its id was queued. -/
  accepted : ∀ identifier, (identifier, .status .accepted) ∈ s.answers →
    ∃ data, (identifier, data) ∈ s.record.log
  /-- The pipe has taken a beginning of the accepted chunks. -/
  written : s.record.written <+: (s.record.log.map Prod.snd).flatten

end Input

/-- **Every interleaving of the calls and the writer is exact.** -/
theorem writes_exact {pipeStdin : Bool} {acts : List Input.Act} {s : Input}
    (h : (writing pipeStdin).Run acts s) : s.Exact := by
  have hinv : s.Inv := by
    refine h.invariant (I := fun _ s => s.Inv) ?_ ?_
    · rintro _ rfl
      exact Input.init_inv pipeStdin
    · intro _ _ _ _ _ hinv hstep
      exact Input.step_inv hinv hstep
  exact {
    retained := hinv.sound.retained
    once := hinv.sound.retained ▸ hinv.sound.spaced.nodup_recent
    apart := hinv.sound.spaced
    queued := hinv.sound.queued
    bounded := hinv.sound.bounded
    chunks := hinv.sound.chunks
    accepted := fun identifier hmem => by
      obtain ⟨⟨id, data⟩, hlog, rfl⟩ := mem_map.mp (hinv.answered identifier hmem)
      exact ⟨data, hlog⟩
    written := hinv.flow.written_le }

/-- Two writes and a retry of the first, whose chunk leaves in two pieces. -/
theorem writes_exact_retry : ∃ s, (writing true).Run
      [.openPipe, .spawn, .become .running, .call true ['a'] "aGk=".toList,
        .writer .blocked, .writer (.wrote 1), .call true ['b'] "IQ==".toList,
        .call true ['a'] "aGk=".toList, .writer .blocked, .writer (.wrote 1)] s ∧
    (s.record.written = [104, 105] ∧ s.record.log = [(['a'], [104, 105]), (['b'], [33])]) ∧
    s.Exact := by
  obtain ⟨s, hrun, hend⟩ :=
    LTS.exists_run_of_exec (A := writing true) (fun h => h) rfl
      [.openPipe, .spawn, .become .running, .call true ['a'] "aGk=".toList,
        .writer .blocked, .writer (.wrote 1), .call true ['b'] "IQ==".toList,
        .call true ['a'] "aGk=".toList, .writer .blocked, .writer (.wrote 1)]
      (fun s => s.record.written = [104, 105] ∧
        s.record.log = [(['a'], [104, 105]), (['b'], [33])])
      (by decide +kernel)
  exact ⟨s, hrun, hend, writes_exact hrun⟩

end FoldGPT.Process
