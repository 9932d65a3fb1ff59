import FoldGPT.Lib.Dict
import FoldGPT.Lib.Transition

/-!
# The read handles of the file backends

`fs/open`, `fs/readBlock`, `fs/close` and `close` of `NativeFileStreamsBackend` and of
`OrdinaryUidFilesBackend`. A call waits for the lock, runs under it and may be cancelled wherever
it waits. The native backend asks a helper, which sends the descriptor over a socket; the ordinary
one has a worker thread, which its call joins even when it is cancelled.

A descriptor is named by the number of its acquisition, so a second `os.close` or a read behind the
first shows. `closes`, `uses`, `openers` and `ended` are histories. A cancellation that arrives
while the helper is reaped is swallowed by the source; then nothing happens here.
-/

namespace FoldGPT.Streams

open FoldGPT.Lib

inductive Kind
  | native
  | ordinary
  deriving DecidableEq

inductive Op
  | opening
  | readBlock (len : Nat)
  | close
  deriving DecidableEq

structure Request where
  session : String
  identifier : String
  op : Op
  deriving DecidableEq

inductive Call
  | stream (request : Request)
  | closing (session : Option String)
  deriving DecidableEq

/-- How a call ends: `refused` before a descriptor is touched, `failed` behind that. -/
inductive Outcome
  | returned
  | refused
  | failed
  | cancelled
  deriving DecidableEq

/-- What the call that has the lock awaits: the native helper, or the worker of the ordinary
backend, which has not begun, reads, or is over. `touched` are the descriptors it acquired or
read, `acquired` is `operation.acquired_handle`. -/
inductive Phase
  | acquiring (queue : List Nat)
  | reading (fd : Nat)
  | working (cancelled : Bool)
  | workerReading (fd : Nat) (cancelled : Bool)
  | worked (touched : List Nat) (acquired : Option String) (outcome : Outcome) (cancelled : Bool)
  deriving DecidableEq

structure Running where
  ticket : Nat
  request : Request
  phase : Phase
  deriving DecidableEq

structure Handle where
  fd : Nat
  session : String
  deriving DecidableEq

/-- A use of a descriptor, and whether it was open. -/
structure Use where
  fd : Nat
  session : String
  live : Bool
  deriving DecidableEq

/-- A call that is over, with the descriptors it touched. -/
structure Ended where
  ticket : Nat
  call : Call
  outcome : Outcome
  touched : List Nat
  deriving DecidableEq

/-- The backend: `waiting` are the calls that want the lock, `running` is the one that has it, and
`next` descriptors have been acquired so far. -/
structure Backend where
  session : Option String
  closed : Bool
  handles : Dict String Handle
  waiting : Dict Nat Call
  running : Option Running
  next : Nat
  closes : List Nat
  openers : Dict Nat String
  uses : List Use
  ended : List Ended
  deriving DecidableEq

def Backend.init : Backend where
  session := none
  closed := false
  handles := []
  waiting := []
  running := none
  next := 0
  closes := []
  openers := []
  uses := []
  ended := []

def maxHandles : Nat := 128
def maxHandleBytes : Nat := 32
def maxBlock : Nat := 1024 * 1024

namespace Backend

/-! ### Descriptors -/

/-- The descriptor is acquired and not closed. -/
def isOpen (s : Backend) (fd : Nat) : Bool := decide (fd < s.next) && decide (fd ∉ s.closes)

/-- `os.close(fd)`. -/
def closeFd (s : Backend) (fd : Nat) : Backend := { s with closes := s.closes ++ [fd] }

/-- The descriptors that came over the socket, or are still in it when it is closed. -/
def closeAll (s : Backend) (fds : List Nat) : Backend := { s with closes := s.closes ++ fds }

/-- A descriptor that was not there before. -/
def acquire (s : Backend) (session : String) : Backend :=
  { s with next := s.next + 1, openers := s.openers.set s.next session }

/-- `_drop`. -/
def drop (s : Backend) (identifier : String) : Backend :=
  match s.handles.get identifier with
  | none => s
  | some handle => { s with handles := s.handles.erase identifier }.closeFd handle.fd

/-- The loop of `close`. -/
def dropAll (s : Backend) : Backend := s.handles.keys.foldl drop s

def use (s : Backend) (fd : Nat) (session : String) : Backend :=
  { s with uses := s.uses ++ [⟨fd, session, s.isOpen fd⟩] }

/-- `fs/close`, of a handle that may be unknown. -/
def closeHandle (s : Backend) (request : Request) : Backend :=
  match s.handles.get request.identifier with
  | none => s
  | some handle => (s.use handle.fd request.session).drop request.identifier

/-! ### Calls -/

/-- A call is over; the lock is free unless another call has it. -/
def conclude (s : Backend) (ticket : Nat) (call : Call) (outcome : Outcome) (touched : List Nat) :
    Backend :=
  { s with ended := s.ended ++ [⟨ticket, call, outcome, touched⟩] }

/-- The running call is over. -/
def leave (s : Backend) (ticket : Nat) (request : Request) (outcome : Outcome)
    (touched : List Nat) : Backend :=
  { s with running := none }.conclude ticket (.stream request) outcome touched

/-- The running call awaits something. -/
def await (s : Backend) (ticket : Nat) (request : Request) (phase : Phase) : Backend :=
  { s with running := some ⟨ticket, request, phase⟩ }

/-- The handle a read may use. -/
def readable (s : Backend) (request : Request) (len : Nat) : Option Handle :=
  if 1 ≤ len ∧ len ≤ maxBlock then
    (s.handles.get request.identifier).filter fun handle => handle.session = request.session
  else none

/-- A new handle has a name that is free, and there is room for it. -/
def mayOpen (s : Backend) (request : Request) : Bool :=
  decide (request.identifier ∉ s.handles.keys) && decide (s.handles.length < maxHandles)

def register (s : Backend) (request : Request) (fd : Nat) : Backend :=
  { s with handles := s.handles.set request.identifier ⟨fd, request.session⟩ }

/-- The native backend under the lock, up to where it asks the helper; `admitted` says whether the
operation is valid and, for an open, the policy allows it. -/
def enterNative (s : Backend) (ticket : Nat) (request : Request) (admitted : Bool) : Backend :=
  if s.closed then s.leave ticket request .refused []
  else if s.session.any (· ≠ request.session) then s.leave ticket request .refused []
  else
    let s := { s with session := some request.session }
    if !admitted ∨ maxHandleBytes < request.identifier.utf8ByteSize then
      s.leave ticket request .refused []
    else
      match request.op with
      | .opening =>
        if s.mayOpen request then s.await ticket request (.acquiring [])
        else s.leave ticket request .refused []
      | .close => (s.closeHandle request).leave ticket request .returned []
      | .readBlock len =>
        match s.readable request len with
        | none => s.leave ticket request .refused []
        | some handle => s.await ticket request (.reading handle.fd)

/-- What `_bind` takes for a session. -/
def validSession (session : String) : Bool :=
  decide (session ≠ "") && session.toList.all fun c => decide (32 ≤ c.toNat)

/-- `_bind`. -/
def bind (s : Backend) (session : String) : Option Backend :=
  if !validSession session then none
  else if s.session.any (· ≠ session) then none
  else some { s with session := some session }

/-- The ordinary backend under the lock, up to where it awaits the worker; what is not valid is
refused before. -/
def enterOrdinary (s : Backend) (ticket : Nat) (request : Request) (admitted : Bool) : Backend :=
  if !admitted then s.leave ticket request .refused []
  else
    match s.bind request.session with
    | none => s.leave ticket request .refused []
    | some s =>
      if s.closed then s.leave ticket request .refused []
      else s.await ticket request (.working false)

/-- What `close` checks and binds before it drops the handles. -/
def closable (kind : Kind) (s : Backend) (session : Option String) : Option Backend :=
  match kind, session with
  | .native, session =>
    if !s.closed ∧ s.session.isSome ∧ s.session ≠ session then none else some s
  | .ordinary, none => if s.session.isSome ∨ s.handles ≠ [] then none else some s
  | .ordinary, some session => s.bind session

/-- `close`, of the session. -/
def enterClosing (kind : Kind) (s : Backend) (ticket : Nat) (session : Option String) : Backend :=
  match closable kind s session with
  | none => s.conclude ticket (.closing session) .refused []
  | some s =>
    if s.closed then s.conclude ticket (.closing session) .returned []
    else { s.dropAll with closed := true }.conclude ticket (.closing session) .returned []

/-- `_execute` in the worker thread, up to the first block of a read; `opens` says whether the file
can be opened. -/
def work (s : Backend) (ticket : Nat) (request : Request) (cancelled opens : Bool) : Backend :=
  let refused := s.await ticket request (.worked [] none .refused cancelled)
  if cancelled ∨ maxHandleBytes < request.identifier.utf8ByteSize then refused
  else
    match request.op with
    | .close => (s.closeHandle request).await ticket request (.worked [] none .returned cancelled)
    | .opening =>
      if s.mayOpen request ∧ opens then
        ((s.acquire request.session).register request s.next).await ticket request
          (.worked [s.next] (some request.identifier) .returned cancelled)
      else refused
    | .readBlock len =>
      match s.readable request len with
      | none => refused
      | some handle => s.await ticket request (.workerReading handle.fd cancelled)

/-- The native open has heard from its helper: exactly one descriptor came and it is what was asked
for, or every descriptor is closed. -/
def helpedOpen (s : Backend) (ticket : Nat) (request : Request) (queue : List Nat) (ok : Bool) :
    Backend :=
  match ok, queue with
  | true, [fd] => (s.register request fd).leave ticket request .returned [fd]
  | _, _ => (s.closeAll queue).leave ticket request .failed queue

/-- A cancellation of the running call, where it waits. -/
def cancel (s : Backend) (ticket : Nat) (request : Request) : Phase → Backend
  | .acquiring queue => (s.closeAll queue).leave ticket request .cancelled queue
  | .reading fd => (s.drop request.identifier).leave ticket request .cancelled [fd]
  | .working _ => s.await ticket request (.working true)
  | .workerReading fd _ => s.await ticket request (.workerReading fd true)
  | .worked touched acquired outcome _ =>
    s.await ticket request (.worked touched acquired outcome true)

/-- The ordinary call goes on behind its worker. -/
def resume (s : Backend) (ticket : Nat) (request : Request) (touched : List Nat)
    (acquired : Option String) (outcome : Outcome) (cancelled : Bool) : Backend :=
  if cancelled then (acquired.elim s s.drop).leave ticket request .cancelled touched
  else s.leave ticket request outcome touched

inductive Event
  | call (ticket : Nat) (call : Call)
  | enter (ticket : Nat) (admitted : Bool)
  | sends
  | helped (ok : Bool)
  | work (opens : Bool)
  | reads
  | worked (ok : Bool)
  | resume
  | cancel (ticket : Nat)

/-- A call gets the lock. -/
def enter (kind : Kind) (s : Backend) (ticket : Nat) (admitted : Bool) : Call → Backend
  | .closing session => s.enterClosing kind ticket session
  | .stream request =>
    match kind with
    | .native => s.enterNative ticket request admitted
    | .ordinary => s.enterOrdinary ticket request admitted

/-- What the helper, the worker and the loop do for the running call. -/
def proceed (s : Backend) : Running → Event → Option Backend
  | ⟨ticket, request, .acquiring queue⟩, .sends =>
    some ((s.acquire request.session).await ticket request (.acquiring (queue ++ [s.next])))
  | ⟨ticket, request, .acquiring queue⟩, .helped ok => some (s.helpedOpen ticket request queue ok)
  | ⟨ticket, request, .reading fd⟩, .helped ok =>
    if ok then some (s.leave ticket request .returned [fd])
    else some ((s.drop request.identifier).leave ticket request .failed [fd])
  | ⟨ticket, request, .working cancelled⟩, .work opens =>
    some (s.work ticket request cancelled opens)
  | ⟨_, request, .reading fd⟩, .reads => some (s.use fd request.session)
  | ⟨_, request, .workerReading fd _⟩, .reads => some (s.use fd request.session)
  | ⟨ticket, request, .workerReading fd cancelled⟩, .worked ok =>
    if ok then
      some (s.await ticket request (.worked [fd] (some request.identifier) .returned cancelled))
    else
      some ((s.drop request.identifier).await ticket request
        (.worked [fd] (some request.identifier) .failed cancelled))
  | ⟨ticket, request, .worked touched acquired outcome cancelled⟩, .resume =>
    some (s.resume ticket request touched acquired outcome cancelled)
  | _, _ => none

def step (kind : Kind) (s : Backend) : Event → Option Backend
  | .call ticket call =>
    if ticket ∈ s.waiting.keys ∨ s.running.any (·.ticket = ticket) then none
    else some { s with waiting := s.waiting.set ticket call }
  | .enter ticket admitted =>
    match s.waiting.get ticket, s.running with
    | some call, none =>
      some ({ s with waiting := s.waiting.erase ticket }.enter kind ticket admitted call)
    | _, _ => none
  | .cancel ticket =>
    match s.waiting.get ticket, s.running with
    | some call, _ =>
      some ({ s with waiting := s.waiting.erase ticket }.conclude ticket call .cancelled [])
    | none, some running =>
      if running.ticket = ticket then some (s.cancel ticket running.request running.phase)
      else none
    | none, none => none
  | event => s.running.bind fun running => s.proceed running event

end Backend

/-- The read handles of a backend, from its construction. -/
def streaming (kind : Kind) : LTS Backend Backend.Event :=
  .ofFun (· = Backend.init) (Backend.step kind)

end FoldGPT.Streams
