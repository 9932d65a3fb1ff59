import Mathlib.Algebra.GroupWithZero.Nat
import Mathlib.Algebra.Ring.Int.Defs
import FoldGPT.Lib.Checks
import FoldGPT.Lib.Transition
import Mathlib.Data.List.Infix
import Mathlib.Algebra.BigOperators.Group.List.Basic

/-!
# Messages on standard output

`serve_stdio` lets every task of the connection emit messages into one bounded queue
and has a single writer task hand them to the output. An emission does not suspend,
so it is one step. The writer task suspends while it waits for a message and while
`_pipe_io` writes one on a thread of its own; the thread touches the output only, and
its result reaches the task later.

Main results: `output_accounted`, `emits_after_failed_write`.
-/

namespace FoldGPT.ExecServer

open FoldGPT.Lib List

/-! ### Emitting -/

/-- Why an emission failed: what stands behind the `ProtocolClosed` with the text
`Output channel failed` that the caller gets. -/
inductive Cause
  /-- A `ProtocolClosed` of `emit` itself. -/
  | closed (text : String)
  /-- What `encode_message` raised. -/
  | encoding (text : String)
  /-- `asyncio.QueueFull`. -/
  | queueFull
deriving DecidableEq, Repr

/-- Where the writer task stands. -/
inductive Writer
  /-- In `outgoing.get()`. -/
  | waiting
  /-- In `_pipe_io`, with a thread that has `remaining` of the message to write. -/
  | writing (data remaining : List UInt8)
  /-- In `_pipe_io`, with a thread that has written the message and flushed. -/
  | written (data : List UInt8)
  /-- In `_pipe_io`, with a thread that failed. -/
  | broken (data : List UInt8)
  | ended
deriving DecidableEq, Repr

/-- The shared state of `emit` and `write_responses`, with the bytes the output has
taken. -/
structure Channel where
  failure : Bool := false
  queue : List (List UInt8) := []
  outstanding : ℤ := 0
  writer : Writer := .waiting
  output : List UInt8 := []
deriving DecidableEq, Repr

/-- `asyncio.Queue(maxsize=128)`. -/
def queueSize : ℕ := 128

/-- The checks of `emit`, in order: the message as it is put into the queue. -/
def Channel.admit (limit : ℕ) (c : Channel) (encoded : Except String (List UInt8)) :
    Except Cause (List UInt8) := do
  require (!c.failure) (.closed "Output channel is closed")
  let data ← encoded.mapError .encoding
  require (data.length ≤ limit) (.closed "Outbound message exceeds stdio size limit")
  require (c.outstanding + (data ++ [10]).length ≤ limit + 1)
    (.closed "Outbound queued bytes exceed transport budget")
  require (c.queue.length < queueSize) .queueFull
  pure (data ++ [10])

/-- `emit(message)`, with what `encode_message` returned or raised. -/
def Channel.emit (limit : ℕ) (c : Channel) (encoded : Except String (List UInt8)) :
    Channel × Except Cause Unit :=
  match c.admit limit encoded with
  | .ok data =>
    ({ c with queue := c.queue ++ [data], outstanding := c.outstanding + data.length }, .ok ())
  | .error cause => ({ c with failure := true }, .error cause)

/-! ### Writing -/

/-- `data = await outgoing.get()` and the start of the thread. -/
def Channel.get (c : Channel) : Option Channel :=
  match c.writer, c.queue with
  | .waiting, data :: queue => some { c with queue := queue, writer := .writing data data }
  | _, _ => none

/-- One `writer.write(remaining)` of the thread. `size` is the number it returned, if
it returned one; a call without a proper number may have taken any first part. -/
def Channel.write (c : Channel) (size : Option ℤ) (taken : ℕ) : Option Channel :=
  match c.writer with
  | .writing data remaining =>
    if remaining = [] then none
    else match size with
      | some size =>
        if 0 < size ∧ size ≤ remaining.length then
          some { c with
            writer := .writing data (remaining.drop size.toNat)
            output := c.output ++ remaining.take size.toNat }
        else some { c with writer := .broken data, output := c.output ++ remaining.take taken }
      | none => some { c with writer := .broken data, output := c.output ++ remaining.take taken }
  | _ => none

/-- `writer.flush()` of the thread, which returns or raises. -/
def Channel.flush (c : Channel) (flushed : Bool) : Option Channel :=
  match c.writer with
  | .writing data [] => some { c with writer := if flushed then .written data else .broken data }
  | _ => none

/-- The task goes on after `_pipe_io` returned. -/
def Channel.resume (c : Channel) : Option Channel :=
  match c.writer with
  | .written data => some { c with outstanding := c.outstanding - data.length, writer := .waiting }
  | _ => none

/-- The task goes on after `_pipe_io` raised, to its end. -/
def Channel.raise (c : Channel) : Option Channel :=
  match c.writer with
  | .broken data => some { c with
      outstanding := c.outstanding - data.length, writer := .ended, failure := true }
  | _ => none

/-- What happens, one step at a time: an emission with its outcome, the writer task
and its thread. -/
inductive Output
  | emit (encoded : Except String (List UInt8)) (outcome : Except Cause Unit)
  | get
  | write (size : Option ℤ) (taken : ℕ)
  | flush (flushed : Bool)
  | resume
  | raise

/-- One step, up to the close of the connection. -/
def Channel.step (limit : ℕ) (c : Channel) : Output → Option Channel
  | .emit encoded outcome =>
    if (c.emit limit encoded).2 = outcome then some (c.emit limit encoded).1 else none
  | .get => c.get
  | .write size taken => c.write size taken
  | .flush flushed => c.flush flushed
  | .resume => c.resume
  | .raise => c.raise

/-- `serve_stdio`'s output with a given `max_message_bytes`. -/
def stdioOutput (limit : ℕ) : LTS Channel Output :=
  LTS.ofFun (· = {}) (Channel.step limit)

/-! ### What a run has emitted -/

/-- The message of a successful emission, with its newline. -/
def Output.message? : Output → Option (List UInt8)
  | .emit (.ok data) (.ok ()) => some (data ++ [10])
  | _ => none

/-- The messages emitted in a run, in order. -/
def emissions (events : List Output) : List (List UInt8) := events.filterMap Output.message?

/-- The emission succeeded. -/
def Output.Succeeds : Output → Prop
  | .emit _ (.ok ()) => True
  | _ => False

/-- An emission failed, or the writer task was told that a write failed. -/
def Output.Fails : Output → Prop
  | .emit _ (.error _) => True
  | .raise => True
  | _ => False

/-- The size of the message the writer task has taken from the queue. -/
def Writer.inHand : Writer → ℕ
  | .writing data _ => data.length
  | .written data => data.length
  | .broken data => data.length
  | _ => 0

/-- What the thread has yet to write, unless a write failed. -/
def Writer.left : Writer → Option (List UInt8)
  | .waiting => some []
  | .writing _ remaining => some remaining
  | .written _ => some []
  | _ => none

/-- The bytes of the emitted messages: those output, those left and those queued, in
this order, until a write fails. -/
def Carried (events : List Output) (c : Channel) : Prop :=
  match c.writer.left with
  | some left => c.output ++ left ++ c.queue.flatten = (emissions events).flatten
  | none => c.output <+: (emissions events).flatten

/-- **The accounting** of a run. -/
structure Accounted (limit : ℕ) (events : List Output) (c : Channel) : Prop where
  outstanding : c.outstanding = (c.queue.map List.length).sum + c.writer.inHand
  budget : c.outstanding ≤ limit + 1
  queued : c.queue.length ≤ queueSize
  carried : Carried events c
  failed : ∀ event ∈ events, event.Fails → c.failure = true
  closed : events.Pairwise fun before after => before.Fails → ¬ after.Succeeds

variable {limit : ℕ} {events : List Output} {c c' : Channel} {event : Output}

theorem Carried.output_prefix (h : Carried events c) : c.output <+: (emissions events).flatten := by
  unfold Carried at h
  split at h
  · rw [← h, append_assoc]
    exact prefix_append _ _
  · exact h

/-! ### The steps -/

theorem Channel.admit_ok {encoded : Except String (List UInt8)} {data : List UInt8}
    (h : c.admit limit encoded = .ok data) :
    c.failure = false ∧ (∃ bytes, encoded = .ok bytes ∧ data = bytes ++ [10]) ∧
      c.outstanding + data.length ≤ limit + 1 ∧ c.queue.length < queueSize := by
  simp only [ Channel.admit, bind_eq_ok, require_eq_ok, pure_eq_ok] at h
  obtain ⟨-, hfailure, bytes, hencoded, -, -, -, hbudget, -, hqueue, rfl⟩ := h
  refine ⟨by simpa using hfailure, ⟨bytes, ?_, rfl⟩, by simpa using hbudget, by simpa using hqueue⟩
  cases encoded with
  | error text => cases hencoded
  | ok bytes' => rw [Except.ok.inj hencoded]

/-- An emission puts one message into the queue or marks the channel as failed. -/
theorem Channel.emit_cases (limit : ℕ) (c : Channel) (encoded : Except String (List UInt8)) :
    (∃ bytes, encoded = .ok bytes ∧ c.failure = false ∧
      c.outstanding + (bytes ++ [10]).length ≤ limit + 1 ∧ c.queue.length < queueSize ∧
      c.emit limit encoded = ({ c with
        queue := c.queue ++ [bytes ++ [10]]
        outstanding := c.outstanding + (bytes ++ [10]).length }, .ok ())) ∨
    ∃ cause, c.emit limit encoded = ({ c with failure := true }, .error cause) := by
  unfold Channel.emit
  cases hadmit : c.admit limit encoded with
  | error cause => exact .inr ⟨cause, rfl⟩
  | ok data =>
    obtain ⟨hfailure, ⟨bytes, hencoded, rfl⟩, hbudget, hqueue⟩ := Channel.admit_ok hadmit
    exact .inl ⟨bytes, hencoded, hfailure, hbudget, hqueue, rfl⟩

theorem emissions_append (events : List Output) (event : Output) :
    emissions (events ++ [event]) = emissions events ++ event.message?.toList := by
  unfold emissions
  cases h : event.message? with
  | none => simp [h]
  | some data => simp [h]

theorem Carried.quiet (h : Carried events c') (hevent : event.message? = none) :
    Carried (events ++ [event]) c' := by
  have hsame : emissions (events ++ [event]) = emissions events := by
    rw [emissions_append, hevent]
    exact append_nil _
  unfold Carried
  rw [hsame]
  exact h

theorem Accounted.history (h : Accounted limit events c) (event : Output) (c' : Channel)
    (hsucceeds : event.Succeeds → c.failure = false)
    (hmono : c.failure = true → c'.failure = true) (hfails : event.Fails → c'.failure = true) :
    (∀ event' ∈ events ++ [event], event'.Fails → c'.failure = true) ∧
      (events ++ [event]).Pairwise fun before after => before.Fails → ¬ after.Succeeds := by
  constructor
  · intro event' hmem hfail
    rcases mem_append.mp hmem with hbefore | hlast
    · exact hmono (h.failed event' hbefore hfail)
    · obtain rfl := mem_singleton.mp hlast
      exact hfails hfail
  · rw [pairwise_append]
    refine ⟨h.closed, pairwise_singleton _ _, ?_⟩
    intro before hbefore after hafter hfail hsuccess
    obtain rfl := mem_singleton.mp hafter
    have hopen := hsucceeds hsuccess
    rw [h.failed before hbefore hfail] at hopen
    cases hopen

/-- **An emission keeps the accounting.** -/
theorem Accounted.emit (h : Accounted limit events c) {encoded : Except String (List UInt8)}
    {outcome : Except Cause Unit} (houtcome : (c.emit limit encoded).2 = outcome) :
    Accounted limit (events ++ [.emit encoded outcome]) (c.emit limit encoded).1 := by
  obtain ⟨bytes, hencoded, hopen, hbudget, hqueue, hemit⟩ | ⟨cause, hemit⟩ :=
    Channel.emit_cases limit c encoded
  · rw [hemit] at houtcome ⊢
    subst hencoded
    subst houtcome
    have hhistory := h.history (.emit (.ok bytes) (.ok ())) c (fun _ => hopen) id
      (fun hfail => hfail.elim)
    refine ⟨?_, hbudget, ?_, ?_, hhistory.1, hhistory.2⟩
    · have houtstanding := h.outstanding
      simp only [map_append, sum_append, map_cons, map_nil, sum_cons,
        sum_nil]
      omega
    · simp only [length_append, length_singleton]
      omega
    · have hcarried := h.carried
      unfold Carried at hcarried ⊢
      rw [emissions_append]
      cases hleft : c.writer.left with
      | none =>
        rw [hleft] at hcarried
        refine hcarried.trans ?_
        rw [flatten_append]
        exact prefix_append _ _
      | some left =>
        rw [hleft] at hcarried
        simp only [flatten_append, ← append_assoc]
        rw [hcarried]
        rfl
  · rw [hemit] at houtcome ⊢
    subst houtcome
    have hhistory := h.history (.emit encoded (.error cause)) { c with failure := true }
      (fun hsuccess => hsuccess.elim) (fun _ => rfl) (fun _ => rfl)
    have hquiet : (Output.emit encoded (.error cause)).message? = none := by
      cases encoded with
      | error text => rfl
      | ok bytes => rfl
    exact ⟨h.outstanding, h.budget, h.queued, Carried.quiet h.carried hquiet, hhistory.1,
      hhistory.2⟩

/-- What the steps of the writer task and its thread do. -/
inductive Moves : Channel → Output → Channel → Prop
  | get {c : Channel} {data : List UInt8} {queue : List (List UInt8)} :
      c.writer = .waiting → c.queue = data :: queue →
      Moves c .get { c with queue := queue, writer := .writing data data }
  | wrote {c : Channel} {data remaining : List UInt8} {size : Option ℤ} {taken count : ℕ} :
      c.writer = .writing data remaining →
      Moves c (.write size taken) { c with
        writer := .writing data (remaining.drop count)
        output := c.output ++ remaining.take count }
  | lost {c : Channel} {data remaining : List UInt8} {size : Option ℤ} {taken : ℕ} :
      c.writer = .writing data remaining →
      Moves c (.write size taken) { c with
        writer := .broken data, output := c.output ++ remaining.take taken }
  | flushed {c : Channel} {data : List UInt8} :
      c.writer = .writing data [] → Moves c (.flush true) { c with writer := .written data }
  | unflushed {c : Channel} {data : List UInt8} :
      c.writer = .writing data [] → Moves c (.flush false) { c with writer := .broken data }
  | resumed {c : Channel} {data : List UInt8} :
      c.writer = .written data →
      Moves c .resume { c with outstanding := c.outstanding - data.length, writer := .waiting }
  | raised {c : Channel} {data : List UInt8} :
      c.writer = .broken data →
      Moves c .raise { c with
        outstanding := c.outstanding - data.length, writer := .ended, failure := true }

theorem Channel.write_moves {size : Option ℤ} {taken : ℕ} (h : c.write size taken = some c') :
    Moves c (.write size taken) c' := by
  unfold Channel.write at h
  split at h
  · rename_i data remaining hwriter
    split at h
    · cases h
    · split at h
      · split at h
        · cases h
          exact .wrote hwriter
        · cases h
          exact .lost hwriter
      · cases h
        exact .lost hwriter
  · cases h

theorem Channel.flush_moves {flushed : Bool} (h : c.flush flushed = some c') :
    Moves c (.flush flushed) c' := by
  unfold Channel.flush at h
  split at h
  · rename_i data hwriter
    cases h
    cases flushed with
    | false => exact .unflushed hwriter
    | true => exact .flushed hwriter
  · cases h

theorem Channel.step_moves (h : c.step limit event = some c') :
    (∃ encoded outcome, event = .emit encoded outcome ∧ (c.emit limit encoded).2 = outcome ∧
      c' = (c.emit limit encoded).1) ∨ Moves c event c' := by
  cases event with
  | emit encoded outcome =>
    rw [Channel.step] at h
    split at h
    · rename_i houtcome
      exact .inl ⟨encoded, outcome, rfl, houtcome, (Option.some.inj h).symm⟩
    · cases h
  | get =>
    right
    rw [Channel.step, Channel.get] at h
    split at h
    · rename_i data queue hwriter hqueue
      cases h
      exact .get hwriter hqueue
    · cases h
  | write size taken => exact .inr (Channel.write_moves h)
  | flush flushed => exact .inr (Channel.flush_moves h)
  | resume =>
    right
    rw [Channel.step, Channel.resume] at h
    split at h
    · rename_i data hwriter
      cases h
      exact .resumed hwriter
    · cases h
  | raise =>
    right
    rw [Channel.step, Channel.raise] at h
    split at h
    · rename_i data hwriter
      cases h
      exact .raised hwriter
    · cases h

theorem Moves.outstanding (h : Moves c event c')
    (hc : c.outstanding = (c.queue.map List.length).sum + c.writer.inHand) :
    c'.outstanding = (c'.queue.map List.length).sum + c'.writer.inHand ∧
      c'.outstanding ≤ c.outstanding := by
  cases h with
  | get hwriter hqueue =>
    rw [hwriter, hqueue] at hc
    simp only [Writer.inHand, map_cons, sum_cons] at hc ⊢
    omega
  | wrote hwriter | lost hwriter | flushed hwriter | unflushed hwriter =>
    rw [hwriter] at hc
    exact ⟨hc, Int.le_refl _⟩
  | resumed hwriter | raised hwriter =>
    rw [hwriter] at hc
    simp only [Writer.inHand] at hc ⊢
    omega

theorem Moves.queued (h : Moves c event c') : c'.queue.length ≤ c.queue.length := by
  cases h with
  | get hwriter hqueue =>
    rw [hqueue]
    exact Nat.le_succ _
  | _ => exact le_refl _

theorem Moves.quiet (h : Moves c event c') : event.message? = none ∧ ¬ event.Succeeds := by
  cases h with
  | _ => exact ⟨rfl, id⟩

theorem Moves.failure (h : Moves c event c') :
    (c.failure = true → c'.failure = true) ∧ (event.Fails → c'.failure = true) := by
  cases h with
  | raised hwriter => exact ⟨fun _ => rfl, fun _ => rfl⟩
  | _ => exact ⟨id, fun hfail => hfail.elim⟩

/-- The bytes stay in order: one message from the queue to the thread, one part of it
from the thread to the output. -/
theorem Moves.carried (h : Moves c event c') (hc : Carried events c) : Carried events c' := by
  have hprefix := hc.output_prefix
  cases h with
  | get hwriter hqueue =>
    simp only [Carried, hwriter, hqueue, Writer.left, flatten_cons] at hc ⊢
    rw [← hc]
    simp
  | @wrote data remaining size taken count hwriter =>
    simp only [Carried, hwriter, Writer.left] at hc ⊢
    rw [← hc, append_assoc c.output, take_append_drop]
  | @lost data remaining size taken hwriter =>
    simp only [Carried, hwriter, Writer.left] at hc ⊢
    rw [← hc, append_assoc]
    refine (prefix_append_right_inj _).mpr ?_
    exact (List.take_prefix _ _).trans (prefix_append _ _)
  | flushed hwriter =>
    simp only [Carried, hwriter, Writer.left] at hc ⊢
    exact hc
  | unflushed hwriter => exact hprefix
  | resumed hwriter =>
    simp only [Carried, hwriter, Writer.left] at hc ⊢
    exact hc
  | raised hwriter => exact hprefix

theorem Accounted.writer (h : Accounted limit events c) (hmoves : Moves c event c') :
    Accounted limit (events ++ [event]) c' := by
  obtain ⟨houtstanding, hless⟩ := hmoves.outstanding h.outstanding
  obtain ⟨hquiet, hsilent⟩ := hmoves.quiet
  obtain ⟨hmono, hfails⟩ := hmoves.failure
  have hhistory := h.history event c' (fun hsuccess => absurd hsuccess hsilent) hmono hfails
  exact ⟨houtstanding, Int.le_trans hless h.budget, hmoves.queued.trans h.queued,
    (hmoves.carried h.carried).quiet hquiet, hhistory.1, hhistory.2⟩

/-! ### The runs -/

theorem Accounted.start (limit : ℕ) : Accounted limit [] {} where
  outstanding := rfl
  budget := by
    show (0 : ℤ) ≤ limit + 1
    omega
  queued := Nat.zero_le _
  carried := rfl
  failed := fun _ hmem => absurd hmem not_mem_nil
  closed := List.Pairwise.nil

theorem Accounted.step (h : Accounted limit events c) (hstep : c.step limit event = some c') :
    Accounted limit (events ++ [event]) c' := by
  obtain ⟨encoded, outcome, rfl, houtcome, rfl⟩ | hmoves := Channel.step_moves hstep
  · exact h.emit houtcome
  · exact h.writer hmoves

theorem accounted_of_run (h : (stdioOutput limit).Run events c) : Accounted limit events c := by
  refine h.invariant ?_ ?_
  · intro s hs
    obtain rfl : s = {} := hs
    exact Accounted.start limit
  · intro ls s l s' _ hs hstep
    exact hs.step hstep

/-- **The output over every interleaving** of emissions, the writer task and its
threads, up to the close: the outstanding bytes are those of the messages queued or
in the hands of the writer, at most `limit + 1`; at most 128 messages are queued;
the output has taken a first part of the emitted messages, joined in the order of
their emission; and after a failed emission, or after the writer task was told of a
failed write, no emission succeeds. -/
theorem output_accounted (limit : ℕ) (events : List Output) (c : Channel)
    (h : (stdioOutput limit).Run events c) :
    c.outstanding = (c.queue.map List.length).sum + c.writer.inHand ∧
    c.outstanding ≤ limit + 1 ∧
    c.queue.length ≤ 128 ∧
    c.output <+: (emissions events).flatten ∧
    ∀ before event after, events = before ++ event :: after → event.Fails →
      ∀ later ∈ after, ¬ later.Succeeds := by
  have hc := accounted_of_run h
  refine ⟨hc.outstanding, hc.budget, hc.queued, hc.carried.output_prefix, ?_⟩
  intro before event after hevents hfails later hlater
  have hclosed := hc.closed
  rw [hevents] at hclosed
  have hafter := (pairwise_append.mp hclosed).2.1
  exact (pairwise_cons.mp hafter).1 later hlater hfails

theorem output_accounted_sample :
    ∃ events c, (stdioOutput 2).Run events c ∧ c.output = [97] ∧
      c.outstanding = (c.queue.map List.length).sum + c.writer.inHand ∧
      c.output <+: (emissions events).flatten := by
  obtain ⟨c, hrun, houtput⟩ := LTS.exists_run_of_exec (A := stdioOutput 2)
    (fun hstep => hstep) rfl
    [.emit (.ok [97]) (.ok ()), .get, .write (some 1) 0, .write none 0, .raise,
      .emit (.ok []) (.error (.closed "Output channel is closed"))]
    (fun c => c.output = [97]) (by decide)
  have haccounted := output_accounted 2 _ c hrun
  exact ⟨_, c, hrun, houtput, haccounted.1, haccounted.2.2.2.1⟩

/-- **A write that failed on its thread** does not yet refuse an emission: the writer
task has not been told. -/
theorem emits_after_failed_write :
    ∃ c, (stdioOutput 9).Run [.emit (.ok [97]) (.ok ()), .get, .write none 0,
      .emit (.ok [98]) (.ok ())] c ∧ c.writer = .broken [97, 10] ∧
      c.queue = [[98, 10]] ∧ (Output.emit (.ok [98]) (.ok ())).Succeeds := by
  obtain ⟨c, hrun, hwriter, hqueue⟩ := LTS.exists_run_of_exec (A := stdioOutput 9)
    (fun hstep => hstep) rfl
    [.emit (.ok [97]) (.ok ()), .get, .write none 0, .emit (.ok [98]) (.ok ())]
    (fun c => c.writer = .broken [97, 10] ∧ c.queue = [[98, 10]]) (by decide)
  exact ⟨c, hrun, hwriter, hqueue, trivial⟩

end FoldGPT.ExecServer
