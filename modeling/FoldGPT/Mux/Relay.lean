import FoldGPT.Decode
import FoldGPT.Lib.Transition

/-!
# The two-server relay

`relay` of `host_rpc_mux.py`: the task `to_servers` reads the client's lines and writes each to the
main server or to the host companion; two tasks `from_server` write what the servers say to the
client. They share two futures for the answers to the first `initialize`, the event `initialized`
and a lock on the output.

A step of the machine is what one task does between two suspensions: a `readline` that returns, a
write, a drain, the lock, a future. In which order the tasks go on is left to the labels of a run.
-/

namespace FoldGPT.Mux

open FoldGPT.Lib

abbrev Line := List UInt8

inductive Role
  | main
  | host
  deriving DecidableEq, Repr

def hostMethods : List String :=
  ["fs/readFile", "fs/writeFile", "fs/createDirectory", "fs/getMetadata", "fs/readDirectory",
    "fs/remove", "fs/copy", "fs/watch", "fs/unwatch",
    "process/spawn", "process/writeStdin", "process/kill", "process/resizePty",
    "command/exec", "command/exec/write", "command/exec/resize", "command/exec/terminate"]

def hostNotifications : List String :=
  ["fs/changed", "process/outputDelta", "process/exited", "command/exec/outputDelta",
    "configWarning"]

/-- The params name the local environment. -/
def isLocal (message : Members) : Bool :=
  match message.read "params" with
  | .obj params => (Members.read params "environmentId").asStr == some "local"
  | _ => false

def destination (message : Members) : Role :=
  match (message.read "method").asStr with
  | none => .main
  | some method =>
    if hostMethods.contains method then .host
    else if ["environment/info", "environment/status"].contains method && isLocal message then .host
    else .main

/-! ### Messages -/

def hasId (message : Members) : Bool := (Dict.get message "id").isSome

def hasMethod (message : Members) : Bool := (Dict.get message "method").isSome

/-- A request `initialize`. -/
def isInitialize (message : Members) : Bool :=
  (message.read "method").asStr == some "initialize" && hasId message

/-- The notification `initialized`. -/
def isInitialized (message : Members) : Bool :=
  (message.read "method").asStr == some "initialized" && !hasId message

/-- A notification the host companion may send. -/
def isAllowed (message : Members) : Bool :=
  (message.read "method").asStr.any hostNotifications.contains

/-- `frame`. -/
def frame (loads : Loads) (line : Line) : Except String Members :=
  if isFrame line then
    match decodeMessage loads line with
    | some message => .ok message
    | none => .error "Malformed exec-server message"
  else .error "Incomplete or oversized multiplexed RPC frame"

/-- `"error" in frame(line)`. -/
def isFailure (loads : Loads) (line : Line) : Bool :=
  match frame loads line with
  | .ok message => (Dict.get message "error").isSome
  | .error _ => false

/-- The one answer to `initialize` that is published. -/
def chosen (loads : Loads) (primary companion : Line) : Line :=
  if isFailure loads primary then primary
  else if isFailure loads companion then companion
  else primary

/-! ### The tasks -/

inductive Outcome
  | ended
  | failed (message : String)
  | interrupted
  deriving DecidableEq, Repr

/-- Where `to_servers` stands. -/
inductive Feeder
  | reading
  /-- The servers the line is not yet written to, and whether it is the first `initialize`. -/
  | sending (line : Line) (left : List Role) (opening : Bool)
  | awaiting
  | locking (line : Line)
  | draining (line : Line)
  | stopped (outcome : Outcome)
  deriving DecidableEq, Repr

/-- Where a `from_server` stands. -/
inductive Speaker
  | reading
  | locking (line : Line)
  | draining
  | waiting
  | stopped (outcome : Outcome)
  deriving DecidableEq, Repr

/-- `main_init` and `host_init`. -/
inductive Promise
  | pending
  | result (line : Line)
  | closed
  deriving DecidableEq, Repr

inductive Task
  | feeder
  | speaker (role : Role)
  deriving DecidableEq, Repr

structure Relay where
  initialization : Option PyKey := none
  answer : Role → Promise := fun _ => .pending
  initialized : Bool := false
  lock : Option Task := none
  feeder : Feeder := .reading
  speaker : Role → Speaker := fun _ => .reading
  toClient : List Line := []
  sent : Role → List Line := fun _ => []

/-- The empty line is the end of the stream. -/
inductive Event
  | client (line : Line)
  | server (role : Role) (line : Line)
  | write (role : Role)
  | sent
  | gathered
  | acquire (task : Task)
  | drained (task : Task)
  | resume (role : Role)
  | interrupt (task : Task)
  | teardown

namespace Relay

def setSpeaker (s : Relay) (role : Role) (speaker : Speaker) : Relay :=
  { s with speaker := Function.update s.speaker role speaker }

/-- The servers a line is written to. -/
def targets (initialization : Option PyKey) (message : Members) : List Role :=
  if initialization.isNone && isInitialize message || isInitialized message then [.main, .host]
  else [destination message]

/-- `to_servers` has read a line. -/
def client (loads : Loads) (s : Relay) (line : Line) : Relay :=
  if line.isEmpty then { s with feeder := .stopped .ended }
  else
    match frame loads line with
    | .error message => { s with feeder := .stopped (.failed message) }
    | .ok message =>
      let opening := s.initialization.isNone && isInitialize message
      { s with
        initialization := if opening then (message.read "id").key else s.initialization
        feeder := .sending line (targets s.initialization message) opening }

/-- The answer to `initialize`, if none was seen before. -/
def isAnswer (s : Relay) (role : Role) (message : Members) : Bool :=
  s.initialization.isSome && decide (s.answer role = .pending) && !hasMethod message &&
    decide ((message.read "id").key = s.initialization)

/-- What `from_server` does with a message. -/
def heard (s : Relay) (role : Role) (line : Line) (message : Members) : Relay :=
  if s.isAnswer role message then
    { s.setSpeaker role .waiting with answer := Function.update s.answer role (.result line) }
  else if decide (role = .main) || !hasMethod message then s.setSpeaker role (.locking line)
  else if hasId message then
    s.setSpeaker role (.stopped (.failed "Host companion emitted an unaudited server request"))
  else if isAllowed message then s.setSpeaker role (.locking line)
  else s

/-- `from_server` has read a line. -/
def server (loads : Loads) (s : Relay) (role : Role) (line : Line) : Relay :=
  if line.isEmpty then
    { s.setSpeaker role (.stopped .ended) with
      answer := if s.answer role = .pending then Function.update s.answer role .closed
        else s.answer }
  else
    match frame loads line with
    | .error message => s.setSpeaker role (.stopped (.failed message))
    | .ok message => s.heard role line message

/-- `asyncio.gather(main_init, host_init)` returns or raises. -/
def gather (loads : Loads) (s : Relay) : Option Relay :=
  match s.answer .main, s.answer .host with
  | .result primary, .result companion =>
    some { s with feeder := .locking (chosen loads primary companion) }
  | .closed, _ | _, .closed =>
    some { s with feeder := .stopped (.failed "Official child closed before initialize response") }
  | _, _ => none

/-- The task that waits for the lock has it and writes its line. -/
def acquire (s : Relay) : Task → Option Relay
  | .feeder =>
    match s.feeder with
    | .locking line => some { s with
        lock := some .feeder, feeder := .draining line, toClient := s.toClient ++ [line] }
    | _ => none
  | .speaker role =>
    match s.speaker role with
    | .locking line => some { s.setSpeaker role .draining with
        lock := some (.speaker role), toClient := s.toClient ++ [line] }
    | _ => none

/-- The output is drained and the lock released. -/
def drained (loads : Loads) (s : Relay) : Task → Option Relay
  | .feeder =>
    match s.feeder with
    | .draining line => some { s with
        lock := none
        initialized := true
        feeder := if isFailure loads line then
            .stopped (.failed "An official multiplexed initialization failed")
          else .reading }
    | _ => none
  | .speaker role =>
    match s.speaker role with
    | .draining => some { s.setSpeaker role .reading with lock := none }
    | _ => none

/-- An await of the task raises; `async with` releases the lock. -/
def interrupt (s : Relay) : Task → Relay
  | .feeder => { s with
      lock := if s.lock = some .feeder then none else s.lock, feeder := .stopped .interrupted }
  | .speaker role => { s.setSpeaker role (.stopped .interrupted) with
      lock := if s.lock = some (.speaker role) then none else s.lock }

/-- The `finally` of `relay`: the event is set and every task is cancelled before it goes on. -/
def teardown (s : Relay) : Relay :=
  { s with
    initialized := true
    lock := none
    feeder := .stopped .interrupted
    speaker := fun _ => .stopped .interrupted }

def step (loads : Loads) (s : Relay) : Event → Option Relay
  | .client line => if s.feeder = .reading then some (s.client loads line) else none
  | .server role line =>
    if s.speaker role = .reading then some (s.server loads role line) else none
  | .write role =>
    match s.feeder with
    | .sending line left opening =>
      if role ∈ left then some { s with
        feeder := .sending line (left.erase role) opening
        sent := Function.update s.sent role (s.sent role ++ [line]) }
      else none
    | _ => none
  | .sent =>
    match s.feeder with
    | .sending _ [] opening => some { s with feeder := if opening then .awaiting else .reading }
    | _ => none
  | .gathered => if s.feeder = .awaiting then s.gather loads else none
  | .acquire task => if s.lock = none then s.acquire task else none
  | .drained task => if s.lock = some task then s.drained loads task else none
  | .resume role =>
    if s.speaker role = .waiting ∧ s.initialized = true then some (s.setSpeaker role .reading)
    else none
  | .interrupt task => some (s.interrupt task)
  | .teardown => some s.teardown

end Relay

/-- The relay, from its start. -/
def relaying (loads : Loads) : LTS Relay Event := LTS.ofFun (fun s => s = {}) (Relay.step loads)

end FoldGPT.Mux
