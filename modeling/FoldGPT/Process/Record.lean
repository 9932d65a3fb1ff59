import Mathlib.Algebra.GroupWithZero.Nat
import Mathlib.Algebra.Ring.Int.Defs
import FoldGPT.Lib.Base64

/-!
# The retained output of a process

`NativeProcessesBackend._event` and `DirectProcesses._event_async` number every
event of a process, keep the output chunks for later `process/read` calls and
hand the event to the notifier. The first half of the two is the same text:
`retain`. It takes the next sequence number, appends an output chunk with the
size of its decoded bytes, and evicts from the left while more than
`RETAINED_BYTES` bytes or `RETAINED_CHUNKS` chunks are kept.
-/

namespace FoldGPT.Process

open FoldGPT.Lib List

def RETAINED_BYTES : Nat := 1024 * 1024
def RETAINED_CHUNKS : Nat := 50000
def NOTIFICATION_CAPACITY : Nat := 128

inductive StreamName
  | stdout
  | stderr
  deriving DecidableEq, Repr

/-- What `_event` stores of an output event: `{"seq": seq, **payload}`. -/
structure Chunk where
  seq : Nat
  stream : StreamName
  chunk : List Char
  deriving DecidableEq, Repr

/-- The method of an event with its payload. -/
inductive Payload
  | output (stream : StreamName) (chunk : List Char)
  | exited (exitCode : Int) (sandboxDenied : Bool)
  | closed
  deriving DecidableEq, Repr

/-- A queued notification: the method and `{"processId": key, "seq": seq, **payload}`,
the process being fixed. -/
structure Notification where
  seq : Nat
  payload : Payload
  deriving DecidableEq, Repr

inductive State
  | starting
  | running
  | complete
  deriving DecidableEq, Repr

/-- The fields of `_Process` that the events and the reads use. -/
structure Record where
  state : State := .starting
  terminationRequested : Bool := false
  output : List (Chunk × Nat) := []
  retainedBytes : Int := 0
  nextSeq : Nat := 1
  exitCode : Option Int := none
  closed : Bool := false
  failure : Option String := none
  sandboxDenied : Bool := false
  notifications : List Notification := []
  deriving Repr

/-- The loop `while retained_bytes > RETAINED_BYTES or len(output) > RETAINED_CHUNKS`
with its `popleft`; `none` is the `IndexError` of an empty deque. -/
def evict : List (Chunk × Nat) → Int → Option (List (Chunk × Nat) × Int)
  | [], retained => if (RETAINED_BYTES : Int) < retained then none else some ([], retained)
  | (chunk, size) :: rest, retained =>
    if (RETAINED_BYTES : Int) < retained ∨ RETAINED_CHUNKS < rest.length + 1 then
      evict rest (retained - size)
    else some ((chunk, size) :: rest, retained)

/-- What the two event functions do before they queue the notification; `none`
is a payload that is not base64. -/
def Record.retain (record : Record) (payload : Payload) : Option (Record × Notification) :=
  let seq := record.nextSeq
  let params : Notification := ⟨seq, payload⟩
  match payload with
  | .output stream chunk => do
    let data ← Base64.decode chunk
    let (output, retainedBytes) ←
      evict (record.output ++ [(⟨seq, stream, chunk⟩, data.length)])
        (record.retainedBytes + data.length)
    some ({ record with nextSeq := seq + 1, output, retainedBytes }, params)
  | _ => some ({ record with nextSeq := seq + 1 }, params)

/-- `_terminate`, as far as the record goes. -/
def Record.terminate (record : Record) : Record := { record with terminationRequested := true }

/-- `NativeProcessesBackend._event`: a full queue fails and terminates the process. -/
def Record.event (record : Record) (payload : Payload) : Option Record := do
  let (record, params) ← record.retain payload
  if record.notifications.length < NOTIFICATION_CAPACITY then
    some { record with notifications := record.notifications ++ [params] }
  else
    some { record with failure := some "Native process notification capacity exhausted" }.terminate

/-- `DirectProcesses._event_async`: a full queue makes the caller wait with the
event lock held (`some`), unless the transport is gone or the process cancelled. -/
def Record.eventAsync (record : Record) (transportClosed : Bool) (payload : Payload) :
    Option (Record × Option Notification) := do
  let (record, params) ← record.retain payload
  if transportClosed then some (record, none)
  else if record.notifications.length < NOTIFICATION_CAPACITY then
    some ({ record with notifications := record.notifications ++ [params] }, none)
  else if record.terminationRequested then some (record, none)
  else some (record, some params)

/-! ### Eviction -/

/-- The sum of the retained chunk sizes. -/
def totalSize (output : List (Chunk × Nat)) : Int := (output.map fun e => (e.2 : Int)).sum

@[simp] theorem totalSize_nil : totalSize [] = 0 := rfl

@[simp] theorem totalSize_cons (c : Chunk) (n : Nat) (l : List (Chunk × Nat)) :
    totalSize ((c, n) :: l) = n + totalSize l := by simp [totalSize]

@[simp] theorem totalSize_append (l m : List (Chunk × Nat)) :
    totalSize (l ++ m) = totalSize l + totalSize m := by simp [totalSize]

/-- **Eviction leaves a suffix within both bounds**, and the total it carries
along stays the sum of what is left. -/
theorem evict_spec : ∀ l : List (Chunk × Nat), ∃ dropped kept,
    l = dropped ++ kept ∧ evict l (totalSize l) = some (kept, totalSize kept) ∧
      totalSize kept ≤ RETAINED_BYTES ∧ kept.length ≤ RETAINED_CHUNKS := by
  intro l
  induction l with
  | nil => exact ⟨[], [], rfl, by simp [evict, RETAINED_BYTES], by simp, by simp⟩
  | cons e rest ih =>
    obtain ⟨c, n⟩ := e
    by_cases hover : (RETAINED_BYTES : Int) < totalSize ((c, n) :: rest) ∨
        RETAINED_CHUNKS < rest.length + 1
    · obtain ⟨dropped, kept, hl, hev, hbytes, hcount⟩ := ih
      refine ⟨(c, n) :: dropped, kept, by rw [hl]; rfl, ?_, hbytes, hcount⟩
      rw [evict, if_pos hover, ← hev]
      congr 1
      rw [totalSize_cons]
      omega
    · refine ⟨[], (c, n) :: rest, rfl, by rw [evict, if_neg hover], ?_, ?_⟩
      · omega
      · simp only [length_cons]
        omega

/-! ### The accounting invariant -/

/-- The retained total is the sum of the chunk sizes and within its bound, a
chunk's size is that of its decoded bytes, and the sequence numbers increase
and have all been handed out. -/
structure Record.Sound (record : Record) : Prop where
  total : record.retainedBytes = totalSize record.output
  bytes : record.retainedBytes ≤ RETAINED_BYTES
  count : record.output.length ≤ RETAINED_CHUNKS
  sized : ∀ e ∈ record.output, (Base64.decode e.1.chunk).map List.length = some e.2
  increasing : record.output.Pairwise (fun a b => a.1.seq < b.1.seq)
  issued : ∀ e ∈ record.output, e.1.seq < record.nextSeq

/-- The chunks an event adds to the history. -/
def newChunks (seq : Nat) : Payload → List Chunk
  | .output stream chunk => [⟨seq, stream, chunk⟩]
  | _ => []

/-- **What one event does to the retained output**: it takes the next number,
appends its chunk, if it has one, under that number and drops a prefix; nothing
a read looks at changes otherwise. -/
theorem Record.retain_spec {record record' : Record} {payload : Payload} {params : Notification}
    (hs : record.Sound) (h : record.retain payload = some (record', params)) :
    record'.Sound ∧ record'.nextSeq = record.nextSeq + 1 ∧
      (∃ dropped, record.output.map Prod.fst ++ newChunks record.nextSeq payload =
        dropped ++ record'.output.map Prod.fst) := by
  cases payload with
  | exited | closed =>
    obtain ⟨rfl, -⟩ := Prod.mk.inj (Option.some.inj h)
    refine ⟨⟨hs.total, hs.bytes, hs.count, hs.sized, hs.increasing, fun e he => ?_⟩, rfl, [], ?_⟩
    · exact Nat.lt_succ_of_lt (hs.issued e he)
    · simp [newChunks]
  | output stream chunk =>
    simp only [Record.retain, Option.bind_eq_bind, Option.bind_eq_some_iff, Option.some.injEq,
      Prod.mk.injEq, Prod.exists] at h
    obtain ⟨data, hdata, kept', total', hev, rfl, -⟩ := h
    obtain ⟨dropped, kept, hl, hev', hbytes, hcount⟩ :=
      evict_spec (record.output ++ [(⟨record.nextSeq, stream, chunk⟩, data.length)])
    have htotal : record.retainedBytes + data.length =
        totalSize (record.output ++ [(⟨record.nextSeq, stream, chunk⟩, data.length)]) := by
      rw [totalSize_append, hs.total]
      simp
    rw [htotal, hev', Option.some.injEq, Prod.mk.injEq] at hev
    obtain ⟨rfl, rfl⟩ := hev
    have hmem : ∀ e ∈ kept, e ∈ record.output ∨
        e = (⟨record.nextSeq, stream, chunk⟩, data.length) := by
      intro e he
      have : e ∈ record.output ++ [(⟨record.nextSeq, stream, chunk⟩, data.length)] := by
        rw [hl]
        exact mem_append_right _ he
      simpa using this
    refine ⟨⟨rfl, hbytes, hcount, ?_, ?_, ?_⟩, rfl, dropped.map Prod.fst, ?_⟩
    · intro e he
      rcases hmem e he with h | rfl
      · exact hs.sized e h
      · simp [hdata]
    · -- the appended number exceeds every retained one, and a suffix stays sorted
      have hsorted : (record.output ++
          [((⟨record.nextSeq, stream, chunk⟩ : Chunk), data.length)]).Pairwise
          (fun a b => a.1.seq < b.1.seq) := by
        rw [pairwise_append]
        refine ⟨hs.increasing, pairwise_singleton _ _, fun a ha b hb => ?_⟩
        rw [mem_singleton.mp hb]
        exact hs.issued a ha
      rw [hl] at hsorted
      exact (pairwise_append.mp hsorted).2.1
    · intro e he
      rcases hmem e he with h | rfl
      · exact Nat.lt_succ_of_lt (hs.issued e h)
      · exact Nat.lt_succ_self _
    · have := congrArg (List.map Prod.fst) hl
      simpa [newChunks] using this

end FoldGPT.Process
