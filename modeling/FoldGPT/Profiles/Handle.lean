import FoldGPT.ExecServer.Server
import FoldGPT.Lib.Reservation

/-!
# The model profiles

`NativeModelProfiles` sends each request of the model to one of three process backends or one of
two file backends. `handle` is the part of the source's method up to where it awaits a backend;
`step` adds what the backends do meanwhile: a start enters its process at once, an open enters its
handle when it gets the lease, reads and closes drop handles, processes are forgotten.

The names of the errors of a backend other than those of its registry are of no concern here: a
call may be refused for any other reason.
-/

namespace FoldGPT.Profiles

open FoldGPT.Lib FoldGPT.ExecServer

inductive ProcessBackend
  | managed
  | direct
  | pty
  deriving DecidableEq

inductive FileBackend
  | managed
  | direct
  deriving DecidableEq

/-- A session and a `processId`. -/
abbrev ProcessKey := String × String

/-- `self.process_backends`. -/
def processBackends (hasPty : Bool) : List ProcessBackend :=
  [.managed, .direct] ++ if hasPty then [.pty] else []

def fileBackends : List FileBackend := [.managed, .direct]

def capacity : Nat := 128

/-- A call that awaits a backend. -/
inductive Flight
  | start (key : ProcessKey)
  | opening (identifier : String) (backend : FileBackend)
  | opened (identifier : String) (backend : FileBackend)
  | failing (identifier : String)
  | handle (identifier : String) (backend : FileBackend)
  | other

structure ModelProfiles where
  processes : Book ProcessKey ProcessBackend
  files : Book String FileBackend
  calls : Dict Nat Flight

def ModelProfiles.init : ModelProfiles where
  processes := .empty
  files := .empty
  calls := []

/-! ### `handle`, up to the backend -/

/-- `METHODS`. -/
def isProcessMethod : BackendMethod → Bool
  | .processStart | .processRead | .processWrite | .processSignal | .processTerminate => true
  | _ => false

def processId (params : Members) : String := (params.read "processId").asStr.getD ""

def handleId (params : Members) : String := (params.read "handleId").asStr.getD ""

/-- `_direct_file_request`. -/
def directFileRequest (params : Members) : Bool :=
  match params.read "sandbox" with
  | .null => true
  | .obj context =>
    match Members.read context "permissions" with
    | .obj permissions => (Members.read permissions "type").asStr = some "disabled"
    | _ => false
  | _ => false

/-- `_process_backend`. -/
def ModelProfiles.processBackend (s : ModelProfiles) (hasPty : Bool) (key : ProcessKey) :
    Except RpcError (Option ProcessBackend) :=
  match s.processes.owners (processBackends hasPty) key with
  | [] => .ok none
  | [backend] => .ok (some backend)
  | _ => .error ⟨-32603, "Native process handle has ambiguous ownership", none⟩

/-- `_file_backend`. -/
def ModelProfiles.fileBackend (s : ModelProfiles) (identifier : String) :
    Except RpcError (Option FileBackend) :=
  match s.files.owners fileBackends identifier with
  | [] => .ok none
  | [backend] => .ok (some backend)
  | _ => .error ⟨-32603, "Native file handle has ambiguous ownership", none⟩

/-- Where a request goes. -/
inductive Route
  | answer (value : Json)
  | process (backend : ProcessBackend)
  | start (key : ProcessKey) (backend : ProcessBackend)
  | file (backend : FileBackend)
  | handle (identifier : String) (backend : FileBackend)
  | opening (identifier : String) (backend : FileBackend)

def ModelProfiles.handleProcess (s : ModelProfiles) (hasPty : Bool) (method : BackendMethod)
    (key : ProcessKey) (params : Members) : Except RpcError Route :=
  if method ≠ .processStart then do
    match ← s.processBackend hasPty key with
    | some backend => pure (.process backend)
    | none =>
      match method with
      | .processSignal => pure (.answer (.obj []))
      | .processTerminate => pure (.answer (.obj [("running", .bool false)]))
      | _ => .error ⟨-32600, "Unknown native process handle", none⟩
  else if key ∈ s.processes.names ∨
      (processBackends hasPty).any (fun backend => decide (key ∈ s.processes.kept backend)) then
    .error ⟨-32600, "Process id already exists in this session", none⟩
  else if capacity ≤ (s.processes.occupied (processBackends hasPty)).length then
    .error ⟨-32000, "Native process registry capacity exhausted", none⟩
  else if !(params.read "sandbox").isNull then pure (.start key .managed)
  else if (params.read "tty").asBool = some true ∧ hasPty then pure (.start key .pty)
  else pure (.start key .direct)

/-- `fs/readBlock` and `fs/close`. -/
def ModelProfiles.handleStream (s : ModelProfiles) (method : BackendMethod) (identifier : String) :
    Except RpcError Route :=
  if 32 < identifier.utf8ByteSize then
    .error ⟨-32600, "File read handle ID exceeds 32 bytes", none⟩
  else if identifier ∈ s.files.names then
    .error ⟨-32600, "File handle acquisition is still pending", none⟩
  else do
    match ← s.fileBackend identifier with
    | some backend => pure (.handle identifier backend)
    | none =>
      if method = .close then pure (.answer (.obj []))
      else .error ⟨-32004, "Unknown file read handle", none⟩

/-- `fs/open`. -/
def ModelProfiles.handleOpen (s : ModelProfiles) (identifier : String) (backend : FileBackend) :
    Except RpcError Route := do
  if identifier ∈ s.files.names then .error ⟨-32600, "File read handle already exists", none⟩
  else
    match ← s.fileBackend identifier with
    | some _ => .error ⟨-32600, "File read handle already exists", none⟩
    | none =>
      if capacity ≤ (s.files.occupied fileBackends).length then
        .error ⟨-32600, "At most 128 file reads may be open per connection", none⟩
      else pure (.opening identifier backend)

def ModelProfiles.handle (s : ModelProfiles) (rules : Url.NetlocRules) (hasPty : Bool)
    (call : BackendCall) : Except RpcError Route := do
  let params ← validateOperation rules call.method call.params
  if isProcessMethod call.method then
    s.handleProcess hasPty call.method (call.sessionId, processId params) params
  else if call.method = .readBlock ∨ call.method = .close then
    s.handleStream call.method (handleId params)
  else
    let backend : FileBackend := if directFileRequest params then .direct else .managed
    if call.method = .open then s.handleOpen (handleId params) backend
    else pure (.file backend)

/-! ### The backends -/

/-- What `_start` says when its registry is full. -/
def startFull : ProcessBackend → String
  | .managed => "Static native process registry capacity exhausted"
  | .direct | .pty => "Native process registry capacity exhausted"

/-- The registry checks of `_start`, behind every other reason to refuse. -/
def backendStart (backend : ProcessBackend) (registry : List ProcessKey) (key : ProcessKey)
    (refused : Option RpcError) : Except RpcError Unit :=
  match refused with
  | some error => .error error
  | none =>
    if key ∈ registry then .error ⟨-32600, "Process id already exists in this session", none⟩
    else if 128 ≤ registry.length then .error ⟨-32000, startFull backend, none⟩
    else .ok ()

/-- What `fs/open` says of an identifier that is too long, there already, or one too many. -/
def openTexts : FileBackend → String × String × String
  | .managed => ("File read handle ID exceeds the official 32-byte bound",
      "File read handle already exists", "At most 128 file reads may be open per connection")
  | .direct => ("File read handle ID exceeds 32 bytes",
      "File read handle already exists or connection limit reached",
      "File read handle already exists or connection limit reached")

/-- The registry checks of `fs/open`, before the descriptor is acquired. -/
def backendOpen (backend : FileBackend) (registry : List String) (identifier : String)
    (refused : Option RpcError) : Except RpcError Unit :=
  let (long, present, full) := openTexts backend
  if 32 < identifier.utf8ByteSize then .error ⟨-32600, long, none⟩
  else if identifier ∈ registry then .error ⟨-32600, present, none⟩
  else if 128 ≤ registry.length then .error ⟨-32600, full, none⟩
  else
    match refused with
    | some error => .error error
    | none => .ok ()

inductive Event
  | request (ticket : Nat) (call : BackendCall) (refused : Option RpcError)
  | acquire (ticket : Nat) (refused : Option RpcError)
  | drops (ticket : Nat)
  | retire (backend : ProcessBackend) (key : ProcessKey)
  | finish (ticket : Nat) (cancelled : Bool)

def ModelProfiles.fly (s : ModelProfiles) (ticket : Nat) (flight : Flight) : ModelProfiles :=
  { s with calls := s.calls.set ticket flight }

/-- A request is routed and its backend begins. -/
def ModelProfiles.route (s : ModelProfiles) (ticket : Nat) (refused : Option RpcError) :
    Route → ModelProfiles
  | .answer _ => s
  | .process _ | .file _ => s.fly ticket .other
  | .handle identifier backend => s.fly ticket (.handle identifier backend)
  | .opening identifier backend =>
    { s with files := s.files.reserve identifier backend }.fly ticket (.opening identifier backend)
  | .start key backend =>
    let reserved := s.processes.reserve key backend
    match backendStart backend (reserved.kept backend) key refused with
    | .error _ => { s with processes := reserved.release key }
    | .ok () => { s with processes := reserved.enter backend key }.fly ticket (.start key)

/-- The end of a call, with the `finally` of `handle`. An open that is cancelled behind its worker
drops the handle. -/
def ModelProfiles.finish (s : ModelProfiles) (ticket : Nat) (cancelled : Bool) :
    Flight → Option ModelProfiles
  | .start key => some { s with processes := s.processes.release key, calls := s.calls.erase ticket }
  | .opening identifier _ | .failing identifier =>
    some { s with files := s.files.release identifier, calls := s.calls.erase ticket }
  | .opened identifier backend =>
    if !cancelled then
      some { s with files := s.files.release identifier, calls := s.calls.erase ticket }
    else if backend = .direct then
      some { s with
        files := (s.files.drop backend identifier).release identifier, calls := s.calls.erase ticket }
    else none
  | .handle _ _ | .other => some { s with calls := s.calls.erase ticket }

def ModelProfiles.step (rules : Url.NetlocRules) (hasPty : Bool) (s : ModelProfiles) :
    Event → Option ModelProfiles
  | .request ticket call refused =>
    if ticket ∈ s.calls.keys then none
    else
      match s.handle rules hasPty call with
      | .error _ => some s
      | .ok route => some (s.route ticket refused route)
  | .acquire ticket refused =>
    match s.calls.get ticket with
    | some (.opening identifier backend) =>
      match backendOpen backend (s.files.kept backend) identifier refused with
      | .error _ => some (s.fly ticket (.failing identifier))
      | .ok () =>
        some ({ s with files := s.files.enter backend identifier }.fly ticket
          (.opened identifier backend))
    | _ => none
  | .drops ticket =>
    match s.calls.get ticket with
    | some (.handle identifier backend) => some { s with files := s.files.drop backend identifier }
    | _ => none
  | .retire backend key => some { s with processes := s.processes.drop backend key }
  | .finish ticket cancelled => (s.calls.get ticket).bind (s.finish ticket cancelled)

/-- The profiles, from empty backends. -/
def serving (rules : Url.NetlocRules) (hasPty : Bool) : LTS ModelProfiles Event :=
  .ofFun (· = ModelProfiles.init) (ModelProfiles.step rules hasPty)

end FoldGPT.Profiles
