import FoldGPT.Host.Upload
import FoldGPT.Lib.Transition

/-!
# The host channel, version 2

`HostChannelV2` as a state machine. The loop of `run` takes packets; every accepted request is a
task of its own, and what the tasks, their done callbacks, the file operations, the processes and
their notifiers do comes in any order between the packets.

One step of the machine is what happens between two points where the source awaits: a task that
returns from its operation stands in line for `send_lock` before anything else runs, and the lock
serves in order of arrival.

The fields `accepted`, `sent`, `raised` and `emitted` are histories; no step reads them but
the next event's number, which is the record's `next_seq`.
-/

namespace FoldGPT.Host

open FoldGPT.Lib

def maxPending : Nat := 128

/-! ### Responses -/

inductive Body
  | output (stream : String) (chunk : String)
  | exited (exitCode : Int)
  | closed
  deriving DecidableEq

/-- What a process gives to `notify`. -/
structure ProcessEvent where
  seq : Nat
  body : Body
  deriving DecidableEq

/-- The result of a request; an event is kept with the process the request named. -/
inductive Value
  | transfer (bytes chunks : Nat)
  | metadata (value : Json)
  | path (text : String)
  | nothing
  | processId (key : Key)
  | event (key : Key) (event : ProcessEvent) (failure : Option String)

inductive Response
  | chunk (id index : Nat) (text : List Char)
  | result (id : Nat) (value : Value)
  | error (id : Nat) (code : Int) (message : String)

def Response.id : Response → Nat
  | .chunk id _ _ | .result id _ | .error id _ _ => id

/-- A response that ends its request. -/
def Response.terminal : Response → Bool
  | .chunk .. => false
  | .result .. | .error .. => true

/-- The event a response returns, if it is one of this process. -/
def Response.eventOf (key : Key) : Response → Option ProcessEvent
  | .result _ (.event k event _) => if k = key then some event else none
  | _ => none

/-- How a file operation of the authority ends. -/
inductive Answer
  | data (bytes : Bytes)
  | metadata (value : Json)
  | path (text : String)
  | done
  | refused (error : RpcError)

def refusal (id : Nat) (error : RpcError) : Response := .error id error.code error.message

/-- The chunks of a result. -/
def dataChunks (id : Nat) (data : Bytes) : List Response :=
  (List.range (chunkCount data.length)).map fun index =>
    .chunk id index (Base64.encode (piece data index))

/-- What `_respond` sends for an answer; `none` if the operation does not give such answers. -/
def respond (request : FileRequest) : Answer → Option (List Response)
  | .refused error => some [refusal request.id error]
  | .data bytes =>
    match request.op with
    | .readFile | .readDirectory =>
      if maxDataBytes < bytes.length then
        some [.error request.id (-32000) "Host result exceeds admitted data bound"]
      else
        some (dataChunks request.id bytes ++
          [.result request.id (.transfer bytes.length (chunkCount bytes.length))])
    | _ => none
  | .metadata value =>
    match request.op with
    | .getMetadata _ => some [.result request.id (.metadata value)]
    | _ => none
  | .path text =>
    match request.op with
    | .canonicalize => some [.result request.id (.path text)]
    | _ => none
  | .done =>
    match request.op with
    | .writeFile .. | .createDirectory _ => some [.result request.id .nothing]
    | _ => none

/-! ### The state -/

inductive Work
  | file (request : FileRequest) (data : Bytes)
  | process (request : ProcessRequest)

def Work.isFile : Work → Bool
  | .file .. => true
  | .process _ => false

/-- How far a task is: in its operation, in line with a response and more to come, or over. -/
inductive Phase
  | running
  | spawning (key : Key)
  | writing (key : Key)
  | reading (key : Key)
  | sending (rest : List Response)
  | done
  | raised

/-- A task in its operation has sent nothing yet. -/
def Phase.working : Phase → Bool
  | .running | .spawning _ | .writing _ | .reading _ => true
  | .sending _ | .done | .raised => false

/-- Neither returned nor raised. -/
def Phase.active : Phase → Bool
  | .done | .raised => false
  | _ => true

structure Task where
  work : Work
  phase : Phase

/-- Who reads the events of a process: nobody, a read that waits, or one that has its event. -/
inductive Reader
  | free
  | waiting
  | holding (event : ProcessEvent)
  deriving DecidableEq

def Reader.held : Reader → List ProcessEvent
  | .holding event => [event]
  | _ => []

/-- A process: `record` is there once it is started, `queue` are the `events` of its slot,
`notifications` those its notifier has not put there yet. -/
structure Slot where
  started : Bool
  reader : Reader
  writing : Bool
  queue : List ProcessEvent
  notifications : List ProcessEvent
  ended : Bool
  emitted : List ProcessEvent
  deriving DecidableEq

def Slot.new : Slot where
  started := false
  reader := .free
  writing := false
  queue := []
  notifications := []
  ended := false
  emitted := []

structure Channel where
  number : Nat
  tasks : Dict Nat Task
  upload : Option Upload
  fileRequest : Option Nat
  slots : Dict Key Slot
  live : List Key
  line : List (Nat × Response)
  failed : Bool
  stopped : Option String
  accepted : List Nat
  sent : List Response
  raised : List Nat

def Channel.init : Channel where
  number := 1
  tasks := []
  upload := none
  fileRequest := none
  slots := []
  live := []
  line := []
  failed := false
  stopped := none
  accepted := []
  sent := []
  raised := []

/-- `len(self.tasks) + (self.upload is not None)`. -/
def Channel.pending (s : Channel) : Nat := s.tasks.length + if s.upload.isSome then 1 else 0

/-! ### Packets -/

def Channel.stop (s : Channel) (text : String) : Channel := { s with stopped := some text }

/-- `_start_task`. -/
def Channel.startTask (s : Channel) (id : Nat) (work : Work) : Channel :=
  { s with tasks := s.tasks.set id ⟨work, .running⟩ }

/-- `number += 1`, once a request is accepted. -/
def Channel.accept (s : Channel) : Channel :=
  { s with number := s.number + 1, accepted := s.accepted ++ [s.number] }

def Channel.acceptFile (s : Channel) (request : FileRequest) : Channel :=
  match request.op with
  | .writeFile bytes chunks =>
    { s.accept with
      fileRequest := some s.number
      upload := some ⟨⟨request.id, request.path, bytes, chunks⟩, [], 0⟩ }
  | _ => { s.accept with fileRequest := some s.number }.startTask request.id (.file request [])

/-- The work of a write. -/
def WriteRequest.work (request : WriteRequest) (data : Bytes) : Work :=
  .file ⟨request.id, .writeFile request.bytes request.chunks, request.path⟩ data

/-- The write starts. -/
def Channel.startWrite (s : Channel) (request : WriteRequest) (data : Bytes) : Channel :=
  { s with upload := none }.startTask request.id (request.work data)

/-- One round of the loop of `run`. -/
def Channel.packet (s : Channel) : Packet → Channel
  | .error text => s.stop text
  | .ok packet =>
    if isUploadFrame packet then
      match uploadFrame s.upload packet with
      | .error text => s.stop text
      | .ok (.more upload) => { s with upload := some upload }
      | .ok (.complete request data) => s.startWrite request data
    else if maxPending ≤ s.pending then s.stop "Host in-flight request allowance exceeded"
    else if (packet.read "op").asStr.any (operations.contains ·) then
      match Host.fileRequest packet s.number with
      | .error text => s.stop text
      | .ok request =>
        if s.fileRequest.isSome then s.stop "Only one filesystem exchange may own staged bytes"
        else s.acceptFile request
    else
      match processRequest packet s.number with
      | .error text => s.stop text
      | .ok request => s.accept.startTask request.id (.process request)

/-! ### Tasks -/

def Channel.setPhase (s : Channel) (id : Nat) (work : Work) (phase : Phase) : Channel :=
  { s with tasks := s.tasks.set id ⟨work, phase⟩ }

/-- A task has what it sends, and stands in line with the first of it. -/
def Channel.reply (s : Channel) (id : Nat) (work : Work) (first : Response)
    (rest : List Response) : Channel :=
  { s.setPhase id work (.sending rest) with line := s.line ++ [(id, first)] }

/-- The `finally` of a file task. -/
def Channel.leave (s : Channel) (work : Work) : Channel :=
  if work.isFile then { s with fileRequest := none } else s

/-- A task ends with an exception that is no `RpcError`. -/
def Channel.raises (s : Channel) (id : Nat) (work : Work) : Channel :=
  { (s.leave work).setPhase id work .raised with raised := s.raised ++ [id] }

def Channel.setSlot (s : Channel) (key : Key) (slot : Slot) : Channel :=
  { s with slots := s.slots.set key slot }

/-- `self.live.get(key)`, if its `record` is there. -/
def Channel.process (s : Channel) (key : Key) : Option Slot :=
  if key ∈ s.live then (s.slots.get key).filter (·.started) else none

def unknownProcess : RpcError := ⟨-32600, "Unknown started host process", none⟩

/-- The first step of a process task, up to where it awaits or returns. -/
def Channel.begin (s : Channel) (id : Nat) (work : Work) (fresh : Key) :
    ProcessOp → Option Channel
  | .start .. =>
    if maxPending ≤ s.live.length then
      some (s.reply id work
        (refusal id ⟨-32000, "Host process registry capacity exhausted", none⟩) [])
    else if fresh ∈ s.slots.keys then none -- `uuid4` gives a new identifier
    else
      some ({ s.setSlot fresh .new with live := s.live ++ [fresh] }.setPhase id work
        (.spawning fresh))
  | .terminate key =>
    match s.process key with
    | none => some (s.reply id work (refusal id unknownProcess) [])
    | some _ => some (s.reply id work (.result id .nothing) [])
  | .write key _ _ =>
    match s.process key with
    | none => some (s.reply id work (refusal id unknownProcess) [])
    | some slot =>
      if slot.writing then some (s.raises id work)
      else some ((s.setSlot key { slot with writing := true }).setPhase id work (.writing key))
  | .read key =>
    match s.process key with
    | none => some (s.reply id work (refusal id unknownProcess) [])
    | some slot =>
      if slot.reader = .free then
        some ((s.setSlot key { slot with reader := .waiting }).setPhase id work (.reading key))
      else some (s.raises id work)

/-- How `spawn` or `write` ends. -/
inductive Outcome
  | returned
  | refused (error : RpcError)
  | raised

def Channel.spawned (s : Channel) (id : Nat) (work : Work) (key : Key) (slot : Slot) :
    Outcome → Channel
  | .returned =>
    (s.setSlot key { slot with started := true }).reply id work (.result id (.processId key)) []
  | .refused error => { s with live := s.live.erase key }.reply id work (refusal id error) []
  | .raised => { s with live := s.live.erase key }.raises id work

def Channel.wrote (s : Channel) (id : Nat) (work : Work) (key : Key) (slot : Slot) :
    Outcome → Channel
  | .returned => (s.setSlot key { slot with writing := false }).reply id work (.result id .nothing) []
  | .refused error =>
    (s.setSlot key { slot with writing := false }).reply id work (refusal id error) []
  | .raised => (s.setSlot key { slot with writing := false }).raises id work

/-- What a read makes of its event: the event as it is returned, or what is raised. -/
def shownEvent (event : ProcessEvent) : Except String ProcessEvent :=
  match event.body with
  | .output stream chunk =>
    (decodeBytes (.str chunk)).map fun data =>
      ⟨event.seq, .output stream (String.ofList (Base64.encode data))⟩
  | _ => .ok event

/-- A read that has its event returns. When the process is closed the read waits for the
notifier, and the process leaves the registry with the proof of its cleanup. -/
def Channel.deliver (s : Channel) (id : Nat) (work : Work) (key : Key) (slot : Slot) (proof : Bool)
    (failure : Option String) : Option Channel :=
  match slot.reader with
  | .holding event =>
    let free := s.setSlot key { slot with reader := .free }
    if event.body = .closed then
      if !slot.ended then none
      else if proof then
        some ({ free with live := s.live.erase key }.reply id work
          (.result id (.event key event failure)) [])
      else
        some (free.reply id work
          (refusal id ⟨-32603, "Host close lacks native cleanup proof", none⟩) [])
    else
      match shownEvent event with
      | .error _ => some (free.raises id work)
      | .ok shown => some (free.reply id work (.result id (.event key shown none)) [])
  | _ => none

/-! ### The machine -/

inductive Event
  | packet (packet : Packet)
  | eof
  | notice
  | answer (id : Nat) (answer : Answer)
  | fault (id : Nat)
  | begin (id : Nat) (fresh : Key)
  | spawned (id : Nat) (outcome : Outcome)
  | wrote (id : Nat) (outcome : Outcome)
  | take (id : Nat)
  | giveUp (id : Nat) (failure : Option String)
  | deliver (id : Nat) (proof : Bool) (failure : Option String)
  | transmit
  | unsent
  | reap (id : Nat)
  | emit (key : Key) (body : Body)
  | forward (key : Key)
  | ends (key : Key)

/-- The head of the line is sent; its task goes to the end of the line with its next response, or
is over. -/
def Channel.transmit (s : Channel) : Option Channel :=
  match s.line with
  | [] => none
  | (id, response) :: line =>
    match s.tasks.get id with
    | some ⟨work, .sending (next :: rest)⟩ =>
      some ({ s with line := line, sent := s.sent ++ [response] }.reply id work next rest)
    | some ⟨work, .sending []⟩ =>
      some (({ s with line := line, sent := s.sent ++ [response] }.leave work).setPhase id work
        .done)
    | _ => none

/-- The done callback. -/
def Channel.reap (s : Channel) (id : Nat) : Option Channel :=
  match s.tasks.get id with
  | some ⟨_, .done⟩ => some { s with tasks := s.tasks.erase id }
  | some ⟨_, .raised⟩ => some { s with tasks := s.tasks.erase id, failed := true }
  | _ => none

/-- A read takes the next event. -/
def Channel.take (s : Channel) (key : Key) (slot : Slot) : Option Channel :=
  match slot.reader, slot.queue with
  | .waiting, event :: queue =>
    some (s.setSlot key { slot with reader := .holding event, queue := queue })
  | _, _ => none

/-- A read finds the notifier ended and no event. -/
def Channel.giveUp (s : Channel) (id : Nat) (work : Work) (key : Key) (slot : Slot)
    (failure : Option String) : Option Channel :=
  if slot.reader = .waiting ∧ slot.ended ∧ slot.queue = [] then
    some ((s.setSlot key { slot with reader := .free }).reply id work
      (refusal id ⟨-32603,
        failure.getD "Native process ended without its complete event stream", none⟩) [])
  else none

/-- The process has an event; `process/closed` is its last. -/
def Channel.emit (s : Channel) (key : Key) (slot : Slot) (body : Body) : Option Channel :=
  if slot.emitted.any fun event => event.body = .closed then none
  else
    let event : ProcessEvent := ⟨slot.emitted.length + 1, body⟩
    some (s.setSlot key { slot with
      notifications := slot.notifications ++ [event]
      emitted := slot.emitted ++ [event] })

/-- The notifier puts an event into the queue of the slot, when there is room. -/
def Channel.forward (s : Channel) (key : Key) (slot : Slot) : Option Channel :=
  match slot.notifications with
  | event :: notifications =>
    if slot.ended || 128 ≤ slot.queue.length then none
    else
      some (s.setSlot key { slot with
        notifications := notifications, queue := slot.queue ++ [event] })
  | [] => none

/-- The send of the head of the line raises. -/
def Channel.unsent (s : Channel) : Option Channel :=
  match s.line with
  | [] => none
  | (id, _) :: line =>
    match s.tasks.get id with
    | some ⟨work, .sending _⟩ => some ({ s with line := line }.raises id work)
    | _ => none

def Channel.step (s : Channel) (event : Event) : Option Channel :=
  if s.stopped.isSome then none
  else
    match event with
    | .packet packet => some (s.packet packet)
    | .eof => some (s.stop "Host peer disconnected")
    | .notice => if s.failed then some (s.stop "A host task failed") else none
    | .answer id answer =>
      match s.tasks.get id with
      | some ⟨.file request data, .running⟩ =>
        match respond request answer with
        | some (first :: rest) => some (s.reply id (.file request data) first rest)
        | _ => none
      | _ => none
    | .fault id =>
      match s.tasks.get id with
      | some ⟨.file request data, .running⟩ => some (s.raises id (.file request data))
      | _ => none
    | .begin id fresh =>
      match s.tasks.get id with
      | some ⟨.process request, .running⟩ => s.begin id (.process request) fresh request.op
      | _ => none
    | .spawned id outcome =>
      match s.tasks.get id with
      | some ⟨work, .spawning key⟩ =>
        (s.slots.get key).map fun slot => s.spawned id work key slot outcome
      | _ => none
    | .wrote id outcome =>
      match s.tasks.get id with
      | some ⟨work, .writing key⟩ =>
        (s.slots.get key).map fun slot => s.wrote id work key slot outcome
      | _ => none
    | .take id =>
      match s.tasks.get id with
      | some ⟨_, .reading key⟩ => (s.slots.get key).bind fun slot => s.take key slot
      | _ => none
    | .giveUp id failure =>
      match s.tasks.get id with
      | some ⟨work, .reading key⟩ =>
        (s.slots.get key).bind fun slot => s.giveUp id work key slot failure
      | _ => none
    | .deliver id proof failure =>
      match s.tasks.get id with
      | some ⟨work, .reading key⟩ =>
        (s.slots.get key).bind fun slot => s.deliver id work key slot proof failure
      | _ => none
    | .transmit => s.transmit
    | .unsent => s.unsent
    | .reap id => s.reap id
    | .emit key body => (s.slots.get key).bind fun slot => s.emit key slot body
    | .forward key => (s.slots.get key).bind fun slot => s.forward key slot
    | .ends key => (s.slots.get key).map fun slot => s.setSlot key { slot with ended := true }

/-- The channel, from its start. -/
def machine : LTS Channel Event := LTS.ofFun (· = Channel.init) Channel.step

end FoldGPT.Host
