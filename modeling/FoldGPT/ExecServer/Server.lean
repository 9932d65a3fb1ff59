import FoldGPT.ExecServer.Validate
import FoldGPT.Lib.Checks
import FoldGPT.Lib.Transition

/-!
# The exec server

One connection of `ExecServer`: `accept` answers the handshake in line, refuses
what breaks the protocol and dispatches every other request as a task that runs
`request`, waits for the backend, emits the answer and then leaves the table of
pending requests. A `Job` is a request between its admission and its answer;
`step` lets the jobs interleave with incoming messages at every `await`.

Tickets number the admitted requests, since an id may be used again once it is
answered. `accepted`, `sent`, `dropped` and `log` record what happened and are
read by no program step.
-/

namespace FoldGPT.ExecServer

open FoldGPT.Lib

/-- An id is a string or a signed 64-bit integer; as a table key it carries its type. -/
inductive RequestId
  | str (s : String)
  | int (i : Int)
  deriving DecidableEq, Repr

/-- The members of a decoded envelope that the server reads. -/
structure Message where
  id : Option RequestId
  method : Option String
  params : Json := .null
  trace : Json := .null

inductive Body
  | result (value : Json)
  | error (error : RpcError)

structure Response where
  id : RequestId
  body : Body

inductive Capability
  | networkProxyLaunch
  | capabilityDiscoverySandbox
  | environmentConfigRead
  | httpHeaderEnvVars
  | sandboxedFileStreaming
  | shellSnapshotV2
  deriving DecidableEq, Repr

/-- The methods a capability needs. -/
def Capability.requirements : Capability → List BackendMethod
  | networkProxyLaunch => [.processStart]
  | capabilityDiscoverySandbox => [.discover]
  | environmentConfigRead => [.configRead]
  | httpHeaderEnvVars => [.httpRequest]
  | sandboxedFileStreaming => [.open, .readBlock, .close]
  | shellSnapshotV2 => [.processStart]

/-- What `__init__` has checked and fixed, with the library functions the
requests go through: `urlsplit`'s tables and whether `json.dumps` takes a value. -/
structure Config where
  methods : List BackendMethod
  features : List Capability
  backed : ∀ c ∈ features, ∀ m ∈ c.requirements, m ∈ methods
  maxInFlight : Nat
  positive : 1 ≤ maxInFlight
  info : Json
  rules : Url.NetlocRules
  encodable : Json → Bool

structure BackendCall where
  sessionId : String
  requestId : RequestId
  method : BackendMethod
  params : Json
  trace : Option Json

/-- How an awaited `backend.handle` ends. -/
inductive Outcome
  | returned (result : Json)
  | raised (error : RpcError)
  | failed

inductive Kind
  | inline
  | ordinary
  | control
  deriving DecidableEq, Repr

inductive Phase
  | queued
  | calling (call : BackendCall)
  | emitting (response : Response)

structure Job where
  ticket : Nat
  id : RequestId
  method : String
  params : Json
  trace : Json
  kind : Kind
  phase : Phase

/-- What happened to the connection, in order. -/
inductive Event
  | opened
  | ready
  | called (call : BackendCall)

structure Server where
  sessionId : Option String := none
  initialized : Bool := false
  closed : Bool := false
  /-- The table of pending tasks, a task named by its ticket. -/
  pending : List (RequestId × Nat) := []
  ordinary : Int := 0
  control : Int := 0
  jobs : List Job := []
  accepted : List (Nat × RequestId) := []
  sent : List (Nat × Response) := []
  dropped : List (Nat × RequestId) := []
  log : List Event := []

/-! ### `request` -/

/-- What `request` does up to its answer or its only `await`. -/
inductive Reaction
  | respond (body : Body)
  | handle (call : BackendCall)

def internalError : RpcError :=
  { code := -32603, message := "Native backend or executor metadata failed" }

/-- The `initialize` branch; the session id is a fresh uuid. -/
def Server.openSession (config : Config) (s : Server) (params : Json) (uuid : String) :
    Except RpcError (Server × Json) := do
  let members ← fields params ["clientName"] ["resumeSessionId"]
  let _ ← typed (members.read "clientName").asStr "clientName"
  let resume := members.read "resumeSessionId"
  require (resume.isNull || resume.asStr.isSome)
    { code := -32602, message := "resumeSessionId has an invalid type" }
  require s.sessionId.isNone
    { code := -32600, message := "initialize may only be sent once per connection" }
  require resume.isNull
    { code := -32600, message := "Unknown session; stdio sessions cannot be resumed" }
  return ({ s with sessionId := some uuid, log := s.log ++ [.opened] },
    .obj [("sessionId", .str uuid), ("environmentInfo", config.info)])

/-- A member of `process/start` that needs a capability. -/
def checkCapability (config : Config) (members : Members) (field : String)
    (capability : Capability) (name : String) : Except RpcError Unit :=
  require ((members.read field).isNull || config.features.contains capability)
    { code := -32602, message := "Unsupported capability: " ++ name }

/-- The capability checks of `process/start` and `fs/open`. -/
def checkCapabilities (config : Config) (method : BackendMethod) (members : Members) :
    Except RpcError Unit :=
  match method with
  | .processStart => do
    checkCapability config members "networkProxy" .networkProxyLaunch "networkProxyLaunch"
    checkCapability config members "shellSnapshot" .shellSnapshotV2 "shellSnapshotV2"
    require (!(members.read "enforceManagedNetwork").isTrue ||
        !(members.read "managedNetwork").isNull)
      { code := -32602, message := "Managed networking requires its enforcement context" }
  | .open =>
    require ((members.read "sandbox").isNull ||
        config.features.contains .sandboxedFileStreaming)
      { code := -32602, message := "Sandboxed file streaming is unsupported" }
  | _ => .ok ()

/-- A request to the backend, from its validation to the call. -/
def backendCall (config : Config) (sessionId : String) (id : RequestId) (method : BackendMethod)
    (params trace : Json) : Except RpcError BackendCall := do
  let members ← validateOperation config.rules method params
  require (config.methods.contains method)
    { code := -32601, message := "Native backend does not support " ++ method.name }
  checkCapabilities config method members
  require (config.encodable params && (trace.isNull || config.encodable trace)) internalError
  return { sessionId, requestId := id, method, params,
           trace := if trace.isNull then none else some trace }

def isEmptyObj : Json → Bool
  | .obj [] => true
  | _ => false

def notInitialized : RpcError :=
  { code := -32600, message := "Client must call initialize then send initialized" }

/-- The methods the server answers itself. -/
def isLocal (method : String) : Bool := ["environment/info", "environment/status"].contains method

/-- The branches of `request` past `initialize`. -/
def Server.operate (config : Config) (s : Server) (id : RequestId) (method : String)
    (params trace : Json) : Except RpcError Reaction :=
  match BackendMethod.ofName method with
  | none => do
    require (isLocal method)
      { code := -32601, message := "Unsupported exec-server method: " ++ method }
    require (s.sessionId.isSome && s.initialized) notInitialized
    require (params.isNull || isEmptyObj params)
      { code := -32602, message := "Method takes no parameters" }
    return .respond (.result (if method = "environment/info" then config.info
      else .obj [("status", .str "ready")]))
  | some backendMethod =>
    match s.sessionId, s.initialized with
    | some sessionId, true =>
      (backendCall config sessionId id backendMethod params trace).map .handle
    | _, _ => .error notInitialized

/-- `request` up to its answer or the backend call. -/
def Server.request (config : Config) (s : Server) (id : RequestId) (method : String)
    (params trace : Json) (uuid : String) : Server × Reaction :=
  if method = "initialize" then
    match s.openSession config params uuid with
    | .ok (s, result) => (s, .respond (.result result))
    | .error error => (s, .respond (.error error))
  else
    match s.operate config id method params trace with
    | .ok reaction => (s, reaction)
    | .error error => (s, .respond (.error error))

/-- The answer `request` makes of the backend's outcome. -/
def settle (config : Config) : Outcome → Body
  | .returned (.obj members) =>
    if config.encodable (.obj members) then .result (.obj members) else .error internalError
  | .returned _ => .error internalError
  | .raised error => .error error
  | .failed => .error internalError

/-! ### `accept` and the tasks -/

/-- The state of a job after `request` reacted. -/
def Reaction.phase (id : RequestId) : Reaction → Phase
  | .respond body => .emitting ⟨id, body⟩
  | .handle call => .calling call

def Reaction.events : Reaction → List Event
  | .respond _ => []
  | .handle call => [.called call]

/-- A request that `accept` does not refuse becomes a job. -/
def Server.enlist (s : Server) (id : RequestId) (method : String) (params trace : Json)
    (kind : Kind) (phase : Phase) : Server :=
  { s with
    jobs := s.jobs ++ [{ ticket := s.accepted.length, id, method, params, trace, kind, phase }]
    accepted := s.accepted ++ [(s.accepted.length, id)] }

/-- The class of a dispatched request. -/
def kindOf (method : String) : Kind := if isControl method then .control else .ordinary

/-- The counter of a class. -/
def Server.counter (s : Server) : Kind → Int
  | .inline => 0
  | .ordinary => s.ordinary
  | .control => s.control

def Server.count (s : Server) (kind : Kind) (change : Int) : Server :=
  match kind with
  | .inline => s
  | .ordinary => { s with ordinary := s.ordinary + change }
  | .control => { s with control := s.control + change }

/-- The dispatched task enters the table and its counter. -/
def Server.enter (s : Server) (kind : Kind) (id : RequestId) : Server :=
  { s with pending := s.pending ++ [(id, s.accepted.length)] }.count kind 1

/-- `accept`; the error is `ProtocolClosed`. -/
def Server.accept (config : Config) (s : Server) (message : Message) (uuid : String) :
    Except String Server :=
  if s.closed then .error "Connection is closed"
  else
    match message.method, message.id with
    | none, _ => .error "Unexpected client response; no server request is pending"
    | some method, none =>
      if method ≠ "initialized" ∨ s.sessionId.isNone then
        .error "Unexpected notification or initialized before initialize"
      else .ok { s with initialized := true, log := s.log ++ [.ready] }
    | some method, some id =>
      if (s.pending.lookup id).isSome then .error "Duplicate in-flight request id"
      else if method = "initialize" ∨ s.initialized = false then
        let (s, reaction) := s.request config id method message.params message.trace uuid
        .ok ({ s with log := s.log ++ reaction.events }.enlist id method message.params
          message.trace .inline (reaction.phase id))
      else
        if (config.maxInFlight : Int) ≤ s.counter (kindOf method) then
          .ok (s.enlist id method message.params message.trace .inline
            (.emitting ⟨id, .error
              { code := -32000, message := "Executor request capacity exhausted" }⟩))
        else
          .ok ((s.enter (kindOf method) id).enlist id method message.params message.trace
            (kindOf method) .queued)

/-- The `finally` of a task: it leaves the table and its counter. -/
def Server.leave (s : Server) (job : Job) : Server :=
  let s := { s with jobs := s.jobs.filter fun j => j.ticket ≠ job.ticket }
  if job.kind = .inline then s
  else { s with pending := s.pending.filter fun p => p.1 ≠ job.id }.count job.kind (-1)

def Server.setPhase (s : Server) (ticket : Nat) (phase : Phase) : Server :=
  { s with jobs := s.jobs.map fun j => if j.ticket = ticket then { j with phase } else j }

def Server.job (s : Server) (ticket : Nat) : Option Job := s.jobs.find? fun j => j.ticket = ticket

inductive Act
  | receive (message : Message) (uuid : String)
  | start (ticket : Nat) (uuid : String)
  | complete (ticket : Nat) (outcome : Outcome)
  | emit (ticket : Nat) (delivered : Bool)
  | close
  | cancel (ticket : Nat)

def Server.step (config : Config) (s : Server) : Act → Option Server
  | .receive message uuid =>
    match s.accept config message uuid with
    | .ok s' => some s'
    | .error _ => some s
  | .start ticket uuid =>
    match s.job ticket with
    | some { phase := .queued, id, method, params, trace, .. } =>
      let (s, reaction) := s.request config id method params trace uuid
      some ({ s with log := s.log ++ reaction.events }.setPhase ticket (reaction.phase id))
    | _ => none
  | .complete ticket outcome =>
    match s.job ticket with
    | some { phase := .calling _, id, .. } =>
      some (s.setPhase ticket (.emitting ⟨id, settle config outcome⟩))
    | _ => none
  | .emit ticket delivered =>
    match s.job ticket with
    | some job =>
      match job.phase with
      | .emitting response =>
        some (if delivered then { s.leave job with sent := s.sent ++ [(ticket, response)] }
          else { s.leave job with dropped := s.dropped ++ [(ticket, job.id)] })
      | _ => none
    | none => none
  | .close => some { s with closed := true }
  | .cancel ticket =>
    match s.job ticket with
    | some job =>
      if s.closed = false ∨ job.kind = .inline then none
      else
        match job.phase with
        -- a task cancelled before its first step never reaches its `try`
        | .queued => some { s with
            jobs := s.jobs.filter fun j => j.ticket ≠ ticket
            dropped := s.dropped ++ [(ticket, job.id)] }
        | _ => some { s.leave job with dropped := s.dropped ++ [(ticket, job.id)] }
    | none => none

/-- Every interleaving of messages, backend completions and emissions. -/
def serving (config : Config) : LTS Server Act := .ofFun (fun s => s = {}) (Server.step config)

end FoldGPT.ExecServer
