import Mathlib.Algebra.GroupWithZero.Nat
import Mathlib.Algebra.Ring.Int.Defs
import FoldGPT.Json
import FoldGPT.Lib.Checks

/-!
# The Python side of a direct process

`DirectProcesses._control` reads the lifecycle frames of the native owner and
refuses every frame that does not fit; `_clean` then decides whether the owner
ended well. Both work on the record of the process, of which `Owner` keeps the
fields they read and write.
-/

namespace FoldGPT.Direct

open FoldGPT.Lib

def PROFILE : String := "bionic-direct-v1"

/-- What `_control` and `_clean` can raise: an `RpcError` with code -32603, or an
exception of the language. -/
inductive Raised
  | rpc (message : String)
  | invalidState
  | typeError
  deriving DecidableEq, Repr

/-- A future nobody cancels. -/
inductive Future
  | pending
  | result
  | exception (message : String)
  deriving DecidableEq, Repr

structure Owner where
  ready : Bool := false
  nativeStarted : Option Members := none
  exitCode : Option Int := none
  exitNotified : Bool := false
  nativeResult : Option Members := none
  started : Future := .pending
  running : Bool := false
  terminationRequested : Bool := false
  ownershipRetained : Bool := false
  quarantined : Bool := false
  failure : Option String := none

/-! ### Frames as dictionaries -/

/-- `set(message) == set(names)`. -/
def sameKeys (members : Members) (names : List String) : Bool :=
  names.all (fun name => (Dict.keys members).contains name) &&
    (Dict.keys members).all (fun key => names.contains key)

/-- `message == expected` for a literal whose values are hashable. -/
def sameMembers (members expected : Members) : Bool :=
  sameKeys members (Dict.keys expected) &&
    expected.all fun e => decide ((members.read e.1).key = e.2.key)

/-- `type(value) is int`. -/
def asInt : Json → Option Int
  | .int i => some i
  | _ => none

/-- A number once the frame has passed its schema. -/
def number (members : Members) (name : String) : Int := (asInt (members.read name)).getD 0

def isCount (value : Json) : Bool :=
  match asInt value with
  | some i => decide (0 ≤ i ∧ i < 2 ^ 64)
  | none => false

/-- `_wait_status` of two numbers. -/
def checkStatus (code signum : Int) (absent : Bool) : Except Raised Int :=
  if -1 ≤ code ∧ code ≤ 255 ∧ 0 ≤ signum ∧ signum ≤ 64 ∧ ¬(signum ≠ 0 ∧ code ≠ -1) ∧
      ¬(signum = 0 ∧ code < 0 ∧ absent = false) then
    .ok (if signum ≠ 0 then 128 + signum else code)
  else .error (.rpc "Direct native wait status is invalid")

/-- `_wait_status`. -/
def waitStatus (members : Members) (absent : Bool) : Except Raised Int :=
  match asInt (members.read "exitCode"), asInt (members.read "signal") with
  | some code, some signum => checkStatus code signum absent
  | _, _ => .error (.rpc "Direct native wait status is invalid")

/-! ### The frames -/

/-- `_publish_exit`: the exit is an event once it is known and the start succeeded. -/
def Owner.publishExit (owner : Owner) : Owner :=
  if owner.exitNotified = false ∧ owner.exitCode.isSome ∧ owner.started = .result then
    { owner with exitNotified := true }
  else owner

/-- `_terminate`, as far as the record goes. -/
def Owner.terminate (owner : Owner) : Owner := { owner with terminationRequested := true }

def Owner.receiveReady (owner : Owner) (message : Members) : Except Raised Owner := do
  require (!owner.ready && sameMembers message [("type", .str "ready"), ("profile", .str PROFILE)])
    (.rpc "Invalid direct startup handshake")
  pure { owner with ready := true }

/-- `record.started.set_result(None)`. -/
def Owner.setStarted (owner : Owner) : Except Raised Owner :=
  if owner.started = .pending then .ok { owner with running := true, started := .result }
  else .error .invalidState

def Owner.receiveStarted (owner : Owner) (message : Members) : Except Raised Owner := do
  require (owner.ready && owner.nativeStarted.isNone && (message.read "setupCompleted").isBool &&
      sameMembers message [("type", .str "started"), ("profile", .str PROFILE),
        ("setupCompleted", .bool true), ("sandboxType", .str "none")])
    (.rpc "Invalid direct exec acknowledgement")
  if owner.terminationRequested then
    pure ({ owner with nativeStarted := some message }).terminate
  else
    ({ owner with nativeStarted := some message }).setStarted.map Owner.publishExit

def Owner.receiveExited (owner : Owner) (message : Members) : Except Raised Owner := do
  require (owner.ready && owner.exitCode.isNone && sameKeys message ["type", "exitCode", "signal"])
    (.rpc "Invalid direct native exit observation")
  let code ← waitStatus message false
  pure ({ owner with exitCode := some code }).publishExit

def Owner.receiveRetained (owner : Owner) (message : Members) : Except Raised Owner := do
  require (owner.ready && (message.read "cleanupComplete").isBool &&
      sameMembers message [("type", .str "ownership-retained"), ("cleanupComplete", .bool false)])
    (.rpc "Invalid direct retained-ownership observation")
  pure ({ owner with
    quarantined := true
    failure := some "Native cleanup is pending; ownership and workspace lease are retained"
    ownershipRetained := true }).terminate

def resultNumbers : List String :=
  ["reaped", "signalsSent", "stdoutReadBytes", "stderrReadBytes", "stdoutBytes", "stderrBytes",
    "stage", "errno"]

def resultFields : List String :=
  ["type", "profile", "outcome", "started", "cleanupComplete", "exitCode", "signal"] ++
    resultNumbers

def outcomes : List String :=
  ["exited", "cancelled", "timeout", "output_limit", "output_error", "setup_error",
    "broker_error", "cleanup_error"]

/-- The schema of the final record, up to its outcome. -/
def resultSchema (message : Members) : Bool :=
  sameKeys message resultFields && decide ((message.read "profile").key = some (.str PROFILE)) &&
    ["started", "cleanupComplete"].all (fun name => (message.read name).isBool) &&
    resultNumbers.all (fun name => isCount (message.read name))

/-- `record.started.set_exception(..)` unless the future is done. -/
def Owner.failStart (owner : Owner) (message : Members) : Owner :=
  if owner.started = .pending then
    { owner with started := .exception ("Direct command failed before exec: outcome=" ++
        (message.read "outcome").asStr.getD "" ++ " stage=" ++ toString (number message "stage") ++
        " errno=" ++ toString (number message "errno")) }
  else owner

def Owner.receiveResult (owner : Owner) (message : Members) : Except Raised Owner := do
  require (resultSchema message) (.rpc "Direct native final result violates its schema")
  require (message.read "outcome").key.isSome .typeError
  require (outcomes.any fun o => decide ((message.read "outcome").key = some (.str o)))
    (.rpc "Direct native final result violates its schema")
  let _ ← waitStatus message (!(message.read "started").isTrue)
  require ((message.read "started").isTrue == owner.nativeStarted.isSome)
    (.rpc "Direct final result disagrees with the exec acknowledgement")
  require (!((message.read "started").isTrue && decide (number message "reaped" < 1)) &&
      !(decide ((message.read "outcome").key = some (.str "exited")) &&
        !(message.read "started").isTrue))
    (.rpc "Direct final result has no corresponding actual command wait")
  require (["stdout", "stderr"].all fun name =>
      decide (number message (name ++ "Bytes") ≤ number message (name ++ "ReadBytes")))
    (.rpc "Direct output counts claim unsourced bytes")
  pure (({ owner with nativeResult := some message } : Owner).failStart message)

/-- The frames `_control` tells apart by their type. -/
inductive FrameType
  | ready
  | started
  | exited
  | retained
  | result
  | unknown
  deriving DecidableEq, Repr

/-- `message.get("type")`. -/
def frameType (message : Members) : FrameType :=
  match (message.read "type").asStr with
  | some "ready" => .ready
  | some "started" => .started
  | some "exited" => .exited
  | some "ownership-retained" => .retained
  | some "result" => .result
  | _ => .unknown

/-- The branches of `_control` before the final result. -/
def Owner.dispatch (owner : Owner) (message : Members) : Except Raised Owner :=
  match frameType message with
  | .ready => owner.receiveReady message
  | .started => owner.receiveStarted message
  | .exited => owner.receiveExited message
  | .retained => owner.receiveRetained message
  | .result => owner.receiveResult message
  | .unknown => .error (.rpc "Unknown direct native lifecycle frame")

/-- **One frame of `_control`.** -/
def Owner.receive (owner : Owner) (message : Json) : Except Raised Owner :=
  match message.asObj with
  | none => .error (.rpc "Direct lifecycle frame is not an object")
  | some members =>
    if owner.nativeResult.isSome then
      .error (.rpc "Direct lifecycle frame arrived after the final result")
    else owner.dispatch members

/-- A termination request that arrived before the frame. -/
def Owner.interrupted (owner : Owner) (requested : Bool) : Owner :=
  if requested then owner.terminate else owner

/-- **The loop of `_control`**: the frames in order, `requested i` telling whether a
termination was asked for between frame `i` and the one before it. -/
def Owner.control (requested : Nat → Bool) (frames : List Json) : Except Raised Owner :=
  frames.zipIdx.foldlM (fun owner frame => (owner.interrupted (requested frame.2)).receive frame.1)
    {}

/-! ### The verdict -/

/-- What the end of the native owner shows: its return code, whether both output
pipes reached their end, and the bytes received from each. -/
structure Ending where
  returncode : Int
  pipeEof : Bool
  stdout : Nat
  stderr : Nat

/-- `_clean`. -/
def Owner.clean (owner : Owner) (ending : Ending) : Except Raised Bool :=
  match owner.nativeResult with
  | none => .ok false
  | some result =>
    if !(result.read "cleanupComplete").isTrue ||
        ending.returncode != (if (result.read "started").isTrue then 0 else 70) ||
        !ending.pipeEof then .ok false
    else if number result "stdoutBytes" ≠ ending.stdout ∨
        number result "stderrBytes" ≠ ending.stderr then .ok false
    else if (result.read "outcome").key = some (.str "exited") ∧
        (number result "stdoutReadBytes" ≠ number result "stdoutBytes" ∨
          number result "stderrReadBytes" ≠ number result "stderrBytes") then .ok false
    else if (result.read "started").isTrue then
      (waitStatus result false).map fun code => decide (some code = owner.exitCode)
    else .ok true

end FoldGPT.Direct
