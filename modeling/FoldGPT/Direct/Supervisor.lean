import FoldGPT.Direct.Owner
import FoldGPT.Lib.Transition

/-!
# The native owner of a direct process

`supervise` of `direct-runner.c` forks the command, opens its gate and then runs
one polling loop: read commands, look at the control socket, terminate what has
to go, reap, read the setup pipe, report the exit, pump both output streams,
apply the output limit, and leave once nothing is left. Between any two of
these system calls the kernel, the child and its descendants may move, so the
loop is given here as a machine with a program counter (`Pc`) whose steps
interleave with theirs.

The results of system calls are part of the label of a step. A packet is sent
only on a control socket that still works: a run that gets to its end has
delivered every packet.
-/

namespace FoldGPT.Direct

open FoldGPT.Lib

/-! ### The records -/

inductive Outcome
  | exited
  | cancelled
  | timeout
  | outputLimit
  | outputError
  | setupError
  | brokerError
  | cleanupError
  deriving DecidableEq, Repr

def Outcome.text : Outcome → String
  | .exited => "exited"
  | .cancelled => "cancelled"
  | .timeout => "timeout"
  | .outputLimit => "output_limit"
  | .outputError => "output_error"
  | .setupError => "setup_error"
  | .brokerError => "broker_error"
  | .cleanupError => "cleanup_error"

def readyRecord : Json := .obj [("type", .str "ready"), ("profile", .str PROFILE)]

def startedRecord : Json :=
  .obj [("type", .str "started"), ("profile", .str PROFILE), ("setupCompleted", .bool true),
    ("sandboxType", .str "none")]

def exitedRecord (exitCode : Int) (exitSignal : Nat) : Json :=
  .obj [("type", .str "exited"), ("exitCode", .int exitCode), ("signal", .int exitSignal)]

def retainedRecord : Json :=
  .obj [("type", .str "ownership-retained"), ("cleanupComplete", .bool false)]

/-- The numbers of the final record, as they are when it is printed. -/
structure Totals where
  reaped : Nat := 0
  signalsSent : Nat := 0
  stdoutReadBytes : Nat := 0
  stderrReadBytes : Nat := 0
  stdoutBytes : Nat := 0
  stderrBytes : Nat := 0
  deriving DecidableEq, Repr

/-- A `uint64_t` counter as it is printed. -/
def counter (n : Nat) : Json := .int (n % 2 ^ 64 : Nat)

def resultMembers (outcome : Outcome) (started : Bool) (exitCode : Int) (exitSignal : Nat)
    (totals : Totals) (stage errno : Nat) : Members :=
  [("type", .str "result"), ("profile", .str PROFILE), ("outcome", .str outcome.text),
    ("started", .bool started), ("cleanupComplete", .bool true), ("exitCode", .int exitCode),
    ("signal", .int exitSignal), ("reaped", counter totals.reaped),
    ("signalsSent", counter totals.signalsSent),
    ("stdoutReadBytes", counter totals.stdoutReadBytes),
    ("stderrReadBytes", counter totals.stderrReadBytes),
    ("stdoutBytes", counter totals.stdoutBytes), ("stderrBytes", counter totals.stderrBytes),
    ("stage", .int stage), ("errno", .int errno)]

def resultRecord (outcome : Outcome) (started : Bool) (exitCode : Int) (exitSignal : Nat)
    (totals : Totals) (stage errno : Nat) : Json :=
  .obj (resultMembers outcome started exitCode exitSignal totals stage errno)

/-- A `started` record is among those sent. -/
def startedSent (records : List Json) : Bool :=
  records.any fun record => record.asObj.map frameType == some .started

/-! ### The child -/

/-- An error number of the kernel, 0 for none. -/
abbrev Errno := Fin 4096

instance errno_neZero : NeZero 4096 := ⟨by decide⟩
instance setupStage_neZero : NeZero 14 := ⟨by decide⟩
instance stage_neZero : NeZero 6 := ⟨by decide⟩

def EPROTO : Errno := 71

/-- How a process ended, as `waitid` tells it: `CLD_EXITED` with a code, or the
signal that killed it. -/
inductive Status
  | exited (code : Fin 256)
  | killed (signal : { n : Nat // 0 < n ∧ n ≤ 64 })
  deriving DecidableEq, Repr

def Status.exitCode : Status → Int
  | .exited code => code.val
  | .killed _ => -1

def Status.exitSignal : Status → Nat
  | .exited _ => 0
  | .killed signal => signal.val

/-- The life of the child. A process closes its descriptors before it can be
waited for, hence `closing` between life and `zombie`. -/
inductive Child
  | unborn
  | preparing
  | permitted
  | reporting
  | running
  | closing (status : Status)
  | zombie (status : Status)
  | reaped (status : Status)
  deriving DecidableEq, Repr

/-- Nobody holds the write end of the setup pipe: it was closed by the `execve`
or by the end of the child. -/
def Child.setupClosed : Child → Bool
  | .running | .closing _ | .zombie _ | .reaped _ => true
  | _ => false

/-- The child has ended, or is about to and has closed its descriptors. -/
def Child.gone : Child → Bool
  | .closing _ | .zombie _ | .reaped _ => true
  | _ => false

def Child.isZombie : Child → Bool
  | .zombie _ => true
  | _ => false

def Child.isReaped : Child → Bool
  | .reaped _ => true
  | _ => false

/-- A report of a failed setup: `int report[2] = {stage, errno}`, eight bytes. -/
structure Report where
  stage : Fin 6 := 0
  errno : Errno := 0
  deriving DecidableEq, Repr

def REPORT_BYTES : Nat := 8

/-- What is outside the owner: the child with its other descendants, live and
waiting to be reaped, the gate, and the setup pipe with the report in it.
`executed` remembers that the `execve` succeeded. -/
structure World where
  child : Child := .unborn
  descendants : Nat := 0
  zombies : Nat := 0
  gateOpened : Bool := false
  executed : Bool := false
  report : Report := {}
  written : Nat := 0
  deriving DecidableEq, Repr

/-- A step of the child or of a descendant. -/
inductive Event
  | permit
  | fail (report : Report)
  | write (n : Nat)
  | exec
  | exit (code : Fin 256)
  | die (signal : { n : Nat // 0 < n ∧ n ≤ 64 })
  | zombie
  | fork
  | descendantDies (orphaned : Bool)
  deriving DecidableEq, Repr

/-- `child` of the source, and what may happen to a process: it waits for the gate
and calls `execve`, or reports its failure and exits; it may be killed at any time. -/
def World.move (w : World) : Event → Option World
  | .permit =>
    if w.child = .preparing ∧ w.gateOpened = true then some { w with child := .permitted }
    else none
  | .fail report =>
    if w.child = .preparing ∨ w.child = .permitted then
      some { w with child := .reporting, report }
    else none
  | .write n =>
    if w.child = .reporting ∧ w.written + n ≤ REPORT_BYTES then
      some { w with written := w.written + n }
    else none
  | .exec =>
    if w.child = .permitted then some { w with child := .running, executed := true } else none
  | .exit code =>
    if w.child = .reporting ∨ w.child = .running then
      some { w with child := .closing (.exited code) }
    else none
  | .die signal =>
    if w.child = .preparing ∨ w.child = .permitted ∨ w.child = .reporting ∨
        w.child = .running then
      some { w with child := .closing (.killed signal) }
    else none
  | .zombie =>
    match w.child with
    | .closing status => some { w with child := .zombie status }
    | _ => none
  | .fork =>
    if w.child = .running ∨ 0 < w.descendants then
      some { w with descendants := w.descendants + 1 }
    else none
  | .descendantDies orphaned =>
    -- one whose own parent lives is reaped there
    if 0 < w.descendants then
      some { w with
        descendants := w.descendants - 1
        zombies := if orphaned then w.zombies + 1 else w.zombies }
    else none

/-! ### Pumping one output stream -/

structure Stream where
  eof : Bool := false
  broken : Bool := false
  first : Nat := 0
  last : Nat := 0
  readBytes : Nat := 0
  sentBytes : Nat := 0
  deriving DecidableEq, Repr

def STREAM_BUFFER : Nat := 65536

/-- The result of a `write`; `retry` is `EINTR` or `EAGAIN`. -/
inductive Wrote
  | bytes (n : Nat)
  | retry
  | failed
  deriving DecidableEq, Repr

/-- The result of a `read`. -/
inductive Got
  | bytes (n : Nat)
  | eof
  | retry
  | failed
  deriving DecidableEq, Repr

/-- How much of `size` buffered bytes the output limit lets through. -/
def allowance (limit forwardedTotal size : Nat) : Nat :=
  if limit ≠ 0 ∧ limit - forwardedTotal < size then limit - forwardedTotal else size

/-- The first half of `pump`: forward buffered bytes. The flag tells whether it
may go on; without room under the limit nothing is written (`bytes 0`). -/
def Stream.forward (stream : Stream) (limit forwardedTotal : Nat) (wrote : Wrote) :
    Option (Stream × Nat × Bool) :=
  if stream.first < stream.last ∧ stream.broken = false then
    match wrote with
    | .bytes n =>
      if n ≤ allowance limit forwardedTotal (stream.last - stream.first) then
        some ({ stream with first := stream.first + n, sentBytes := stream.sentBytes + n },
          forwardedTotal + n, true)
      else none
    | .retry => some (stream, forwardedTotal, true)
    | .failed => some ({ stream with broken := true }, forwardedTotal, false)
  else some (stream, forwardedTotal, true)

/-- The middle of `pump`: a cancelled stream is drained, an empty buffer rewound. -/
def Stream.settle (stream : Stream) (cancelling : Bool) : Stream :=
  if cancelling = true ∨ stream.first = stream.last then { stream with first := 0, last := 0 }
  else stream

/-- The second half of `pump`: read more. -/
def Stream.fill (stream : Stream) (got : Got) : Option (Stream × Bool) :=
  if stream.eof = false ∧ stream.last < STREAM_BUFFER then
    match got with
    | .bytes n =>
      if 0 < n ∧ n ≤ STREAM_BUFFER - stream.last then
        some ({ stream with last := stream.last + n, readBytes := stream.readBytes + n }, true)
      else none
    | .eof => some ({ stream with eof := true }, true)
    | .retry => some (stream, true)
    | .failed => some (stream, false)
  else some (stream, true)

/-- `pump`. -/
def Stream.pump (stream : Stream) (limit forwardedTotal : Nat) (cancelling : Bool) (wrote : Wrote)
    (got : Got) : Option (Stream × Nat × Bool) :=
  match stream.forward limit forwardedTotal wrote with
  | none => none
  | some (stream, forwardedTotal, false) => some (stream, forwardedTotal, false)
  | some (stream, forwardedTotal, true) =>
    ((stream.settle cancelling).fill got).map fun (stream, ok) => (stream, forwardedTotal, ok)

/-! ### The machine -/

/-- Where the owner is: before the fork, at one of the stages of the loop, after
the loop, or at its end. -/
inductive Pc
  | launch
  | commands
  | peek
  | deadline
  | kill
  | reap
  | setup
  | report
  | pumpOut
  | pumpErr
  | limit
  | retain
  | leave
  | result
  | done
  deriving DecidableEq, Repr

/-- The variables of `supervise`, the records it has sent, and behind them the
child, its other descendants and the setup pipe. -/
structure Supervisor where
  pc : Pc := .launch
  cancellation : Bool := false
  controlBroken : Bool := false
  leaderReaped : Bool := false
  exitCode : Int := -1
  exitSignal : Nat := 0
  launchError : Errno := 0
  setupError : Errno := 0
  setupStage : Fin 14 := 0
  setupBytes : Nat := 0
  setupEof : Bool := false
  started : Bool := false
  empty : Bool := false
  terminating : Bool := false
  retained : Bool := false
  exitReported : Bool := false
  previousLeader : Bool := false
  discard : Bool := false
  outcome : Outcome := .exited
  reapedCount : Nat := 0
  signalCount : Nat := 0
  forwardedTotal : Nat := 0
  out : Stream := {}
  err : Stream := {}
  records : List Json := []
  world : World := {}

/-- What a call of `commands` did: it saw a termination or the end of the socket,
it failed, and it sent some signals. -/
structure Commands where
  cancelled : Bool := false
  failed : Bool := false
  signals : Nat := 0
  deriving DecidableEq, Repr

/-- One step: of the loop, of the child or of the kernel. The steps of the loop
carry the results of their system calls. -/
inductive Act
  -- the loop
  | noWorker (stage : Fin 14) (error : Errno) (expired : Bool) (seen : Commands)
  | launch (error : Errno) (opened : Bool)
  | commands (seen : Commands)
  | peek (broken unexpected : Bool)
  | deadline (expired : Bool)
  | kill (signals : Nat) (failed : Option Errno)
  | reapLeader
  | reapOther (status : Status) (reusedPid : Bool)
  | reapNone
  | reapEmpty
  | reapFailed (error : Errno)
  | setup (got : Got) (error : Errno) (seen : Commands)
  | report (seen : Commands)
  | pump (wrote : Wrote) (got : Got)
  | limit
  | retain (late : Bool) (seen : Commands)
  | leave
  | result (seen : Commands)
  -- a signal to the owner itself
  | interrupt
  -- everything else
  | event (event : Event)
  deriving DecidableEq, Repr

namespace Supervisor

/-- A control packet: commands are read first, then the record is sent. -/
def packet (s : Supervisor) (record : Json) (seen : Commands) : Option Supervisor :=
  if s.controlBroken = true ∨ seen.failed = true then none
  else some { s with
    records := s.records ++ [record]
    cancellation := s.cancellation || seen.cancelled
    signalCount := s.signalCount + seen.signals }

/-- A broken command or control socket cancels; it is the outcome unless the
process is being terminated already. -/
def breakBroker (s : Supervisor) : Supervisor :=
  { s with
    cancellation := true
    outcome := if s.terminating then s.outcome else .brokerError }

/-- `cancellation ? "cancelled" : "timeout"` in place of "exited". -/
def stopOutcome (s : Supervisor) : Outcome :=
  if s.outcome = .exited then (if s.cancellation then .cancelled else .timeout) else s.outcome

/-- The totals printed in the final record. -/
def totals (s : Supervisor) : Totals where
  reaped := s.reapedCount
  signalsSent := s.signalCount
  stdoutReadBytes := s.out.readBytes
  stderrReadBytes := s.err.readBytes
  stdoutBytes := s.out.sentBytes
  stderrBytes := s.err.sentBytes

/-! The stages of `supervise`. -/

def noWorkerOutcome (s : Supervisor) (expired : Bool) : Outcome :=
  if s.cancellation then .cancelled else if expired then .timeout else .setupError

/-- `no_worker_result`: the owner gives up before there is a child. -/
def noWorker (s : Supervisor) (stage : Fin 14) (error : Errno) (expired : Bool)
    (seen : Commands) : Option Supervisor :=
  ({ s with pc := .done, outcome := s.noWorkerOutcome expired } : Supervisor).packet
    (resultRecord (s.noWorkerOutcome expired) false (-1) 0 {} stage
      (if error = 0 then EPROTO else error : Errno)) seen

/-- The fork and the gate. The gate is opened unless the launch failed before or
the owner was cancelled; a launch may also fail after it. -/
def launched (s : Supervisor) (error : Errno) (opened : Bool) : Option Supervisor :=
  if (opened = true → s.cancellation = false) ∧ (error = 0 → opened = !s.cancellation) then
    some { s with
      pc := .commands
      world := { s.world with child := .preparing, gateOpened := opened }
      launchError := error
      terminating := decide (error ≠ 0)
      outcome := if error = 0 then .exited else .setupError
      setupStage := if error = 0 then s.setupStage else 12
      setupError := if error = 0 then s.setupError else error }
  else none

def readCommands (s : Supervisor) (seen : Commands) : Supervisor :=
  let s := { s with
    pc := .peek
    cancellation := s.cancellation || seen.cancelled
    signalCount := s.signalCount + seen.signals }
  if seen.failed then s.breakBroker else s

def peekControl (s : Supervisor) (broken unexpected : Bool) : Supervisor :=
  let s := { s with pc := .deadline, controlBroken := s.controlBroken || broken }
  if broken || unexpected then s.breakBroker else s

/-- The two checks of the deadline and of a cancellation. -/
def checkDeadline (s : Supervisor) (expired : Bool) : Supervisor :=
  if s.cancellation || expired then
    { s with pc := .kill, terminating := true, outcome := s.stopOutcome }
  else { s with pc := .kill }

def killChildren (s : Supervisor) (signals : Nat) (failed : Option Errno) : Supervisor :=
  if s.terminating = true ∧ s.empty = false then
    { s with
      pc := .reap
      previousLeader := s.leaderReaped
      signalCount := s.signalCount + signals
      setupError := failed.getD s.setupError }
  else { s with pc := .reap, previousLeader := s.leaderReaped }

/-- `waitid` returned the leader, or a process that bears its number. -/
def noteLeader (s : Supervisor) (status : Status) : Supervisor :=
  { s with
    leaderReaped := true
    exitCode := status.exitCode
    exitSignal := status.exitSignal }

def reapLeader (s : Supervisor) : Option Supervisor :=
  match s.world.child with
  | .zombie status =>
    some (({ s with
      world := { s.world with child := .reaped status }
      reapedCount := s.reapedCount + 1 } : Supervisor).noteLeader status)
  | _ => none

/-- A descendant is reaped; once the leader is, the kernel may have given its
number to another process. -/
def reapOther (s : Supervisor) (status : Status) (reusedPid : Bool) : Option Supervisor :=
  if 0 < s.world.zombies ∧ (reusedPid = true → s.world.child.isReaped = true) then
    let s := { s with
      world := { s.world with zombies := s.world.zombies - 1 }
      reapedCount := s.reapedCount + 1 }
    some (if reusedPid then s.noteLeader status else s)
  else none

/-- The loop of `reap` has ended with `observed`; the exit of the leader starts the
termination of what is left. -/
def reaped (s : Supervisor) (observed : Bool) : Supervisor :=
  { s with
    pc := .setup
    empty := observed
    terminating := s.terminating || (!s.previousLeader && s.leaderReaped) }

def reapFailed (s : Supervisor) (error : Errno) : Supervisor :=
  { s with
    pc := .setup
    outcome := if s.terminating then s.outcome else .cleanupError
    terminating := true
    setupError := error }

/-- A setup that failed is the outcome and cancels. -/
def setupFailed (s : Supervisor) (stage : Fin 14) (error : Errno) : Supervisor :=
  { s with
    setupStage := stage
    setupError := error
    outcome := .setupError
    cancellation := true }

/-- The end of the setup pipe: with a report the setup failed, without one the
command has started, unless the launch failed, was cancelled or the leader is
known to have been killed. -/
def setupEnd (s : Supervisor) (seen : Commands) : Option Supervisor :=
  if s.setupBytes ≠ 0 then
    if s.setupBytes = REPORT_BYTES then
      some (s.setupFailed (s.world.report.stage.castLE (by decide)) s.world.report.errno)
    else some (s.setupFailed 13 EPROTO)
  else if s.launchError = 0 ∧ s.cancellation = false ∧
      ¬(s.leaderReaped = true ∧ s.exitSignal ≠ 0) then
    ({ s with started := true } : Supervisor).packet startedRecord seen
  else some s

/-- One `read` of the setup pipe. -/
def readSetup (s : Supervisor) (got : Got) (error : Errno) (seen : Commands) :
    Option Supervisor :=
  if s.setupEof = true then some { s with pc := .report }
  else match got with
    | .bytes n =>
      if 0 < n ∧ n ≤ 32 ∧ n ≤ s.world.written - s.setupBytes then
        if REPORT_BYTES < s.setupBytes + n then
          some (({ s with pc := .report } : Supervisor).setupFailed 13 EPROTO)
        else some { s with pc := .report, setupBytes := s.setupBytes + n }
      else none
    | .eof =>
      if s.world.written = s.setupBytes ∧ s.world.child.setupClosed = true then
        ({ s with pc := .report, setupEof := true } : Supervisor).setupEnd seen
      else none
    | .retry => some { s with pc := .report }
    | .failed => some (({ s with pc := .report } : Supervisor).setupFailed s.setupStage error)

/-- The exit of the leader is reported once, after the end of the setup pipe. -/
def reportExit (s : Supervisor) (seen : Commands) : Option Supervisor :=
  let s : Supervisor :=
    { s with pc := .pumpOut, discard := s.terminating && decide (s.outcome ≠ .exited) }
  if s.leaderReaped = true ∧ s.setupEof = true ∧ s.exitReported = false then
    ({ s with exitReported := true } : Supervisor).packet (exitedRecord s.exitCode s.exitSignal)
      seen
  else some s

/-- A stream that cannot be pumped cancels, and is the outcome of a process that
was not being stopped. -/
def pumpFailed (s : Supervisor) : Supervisor :=
  { s with
    outcome := if s.terminating = false ∨ s.outcome = .exited then .outputError else s.outcome
    cancellation := true }

def pumpStreams (s : Supervisor) (cap : Nat) (wrote : Wrote) (got : Got) : Option Supervisor :=
  match s.pc with
  | .pumpOut =>
    (s.out.pump cap s.forwardedTotal s.discard wrote got).map fun (out, forwardedTotal, ok) =>
      if ok then { s with pc := .pumpErr, out, forwardedTotal }
      else ({ s with pc := .pumpErr, out, forwardedTotal } : Supervisor).pumpFailed
  | .pumpErr =>
    (s.err.pump cap s.forwardedTotal s.discard wrote got).map fun (err, forwardedTotal, ok) =>
      if ok then { s with pc := .limit, err, forwardedTotal }
      else ({ s with pc := .limit, err, forwardedTotal } : Supervisor).pumpFailed
  | _ => none

def checkLimit (s : Supervisor) (cap : Nat) : Supervisor :=
  if cap ≠ 0 ∧ cap < (s.out.readBytes + s.err.readBytes) % 2 ^ 64 then
    { s with pc := .retain, outcome := .outputLimit, cancellation := true }
  else { s with pc := .retain }

/-- A termination that outlives its grace is reported once. -/
def retain (s : Supervisor) (late : Bool) (seen : Commands) : Option Supervisor :=
  if s.terminating = true ∧ s.retained = false ∧ late = true then
    ({ s with pc := .leave, retained := true } : Supervisor).packet retainedRecord seen
  else some { s with pc := .leave }

/-- The loop ends when no child, no setup and no output is left. -/
def leave (s : Supervisor) : Supervisor :=
  if s.empty = true ∧ s.setupEof = true ∧ s.out.eof = true ∧ s.err.eof = true ∧
      s.out.first = s.out.last ∧ s.err.first = s.err.last then
    { s with pc := .result }
  else { s with pc := .commands }

def sendResult (s : Supervisor) (seen : Commands) : Option Supervisor :=
  ({ s with pc := .done } : Supervisor).packet
    (resultRecord s.outcome s.started s.exitCode s.exitSignal s.totals s.setupStage s.setupError)
    seen

/-- The end of the owner as its parent sees it; what it forwarded was received. -/
def ending (s : Supervisor) : Ending where
  returncode := if s.started then 0 else 70
  pipeEof := true
  stdout := s.out.sentBytes
  stderr := s.err.sentBytes

/-- A stage is performed only where the program counter is. -/
def atStage (s : Supervisor) (pc : Pc) (next : Option Supervisor) : Option Supervisor :=
  if s.pc = pc then next else none

/-- **One step**, with `cap` the configured output limit, 0 for none. -/
def step (cap : Nat) (s : Supervisor) : Act → Option Supervisor
  | .noWorker stage error expired seen =>
    s.atStage .launch (s.noWorker stage error expired seen)
  | .launch error opened => s.atStage .launch (s.launched error opened)
  | .commands seen => s.atStage .commands (some (s.readCommands seen))
  | .peek broken unexpected => s.atStage .peek (some (s.peekControl broken unexpected))
  | .deadline expired => s.atStage .deadline (some (s.checkDeadline expired))
  | .kill signals failed => s.atStage .kill (some (s.killChildren signals failed))
  | .reapLeader => s.atStage .reap s.reapLeader
  | .reapOther status reusedPid => s.atStage .reap (s.reapOther status reusedPid)
  | .reapNone =>
    s.atStage .reap
      (if s.world.child.isZombie = false ∧ s.world.zombies = 0 ∧
          ¬(s.world.child.isReaped = true ∧ s.world.descendants = 0) then some (s.reaped false)
        else none)
  | .reapEmpty =>
    s.atStage .reap
      (if s.world.child.isReaped = true ∧ s.world.descendants = 0 ∧ s.world.zombies = 0 then
          some (s.reaped true)
        else none)
  | .reapFailed error => s.atStage .reap (some (s.reapFailed error))
  | .setup got error seen => s.atStage .setup (s.readSetup got error seen)
  | .report seen => s.atStage .report (s.reportExit seen)
  | .pump wrote got => s.pumpStreams cap wrote got
  | .limit => s.atStage .limit (some (s.checkLimit cap))
  | .retain late seen => s.atStage .retain (s.retain late seen)
  | .leave => s.atStage .leave (some s.leave)
  | .result seen => s.atStage .result (s.sendResult seen)
  | .interrupt => some { s with cancellation := true }
  | .event event => (s.world.move event).map fun world => { s with world }

end Supervisor

/-- The owner from the acknowledged start on. -/
def supervision (cap : Nat) : LTS Supervisor Act :=
  .ofFun (fun s => s = {}) (Supervisor.step cap)

end FoldGPT.Direct
