import FoldGPT.Lib.Checks
import Mathlib.Data.List.Basic

/-!
# The relay of the bridge

`relay` of `private-exec-bridge.c` passes bytes on between its standard streams and the peer, with
one buffer for each direction. A `Turn` has the answers of the system calls of one iteration; what
they read are the next bytes of the two streams, which are given with the run (`Input`).

Main result: `relay_transparent`.
-/

namespace FoldGPT.Bridge

open FoldGPT.Lib List

def BUFFER_SIZE : Nat := 65536

inductive Errno where
  | eintr | eio | epipe | econnreset | enotconn
  | other (code : Nat)
deriving DecidableEq

/-! ### One direction -/

/-- A buffer up to `end`, with what its source still has, the end that was read from it, and the
bytes written so far. -/
structure Way where
  source : List UInt8
  data : List UInt8 := []
  start : Nat := 0
  eof : Bool := false
  given : List UInt8 := []

/-- The answer of `write` and `send`; a size beyond what was offered stands for all of it. -/
inductive Wrote where
  | size (n : Nat)
  | transient
  | failed (errno : Errno)

/-- The answer of `read` and `recv`: at most `n + 1` bytes, and none at the end of the stream. -/
inductive Got where
  | upTo (n : Nat)
  | transient
  | failed (errno : Errno)

namespace Way

/-- Both branches of `compact` leave the bytes from `start` on, moved to the front. -/
def compact (way : Way) : Way := { way with data := way.data.drop way.start, start := 0 }

def give (way : Way) : Wrote → Way × Option Errno
  | .size n =>
    let size := min n way.data.length
    if 0 < size then
      ({ way with start := size, given := way.given ++ way.data.take size }, none)
    else (way, some .eio)
  | .transient => (way, none)
  | .failed errno => (way, some errno)

def take (way : Way) : Got → Way × Option Errno
  | .upTo n =>
    let size := min (n + 1) (BUFFER_SIZE - way.data.length)
    if 0 < (way.source.take size).length then
      ({ way with data := way.data ++ way.source.take size, source := way.source.drop size }, none)
    else ({ way with eof := true }, none)
  | .transient => (way, none)
  | .failed errno => (way, some errno)

/-- Within bounds, and nothing is lost, repeated or out of order. -/
structure Inv (way : Way) (stream : List UInt8) : Prop where
  start_le : way.start ≤ way.data.length
  length_le : way.data.length ≤ BUFFER_SIZE
  flow : way.given ++ way.data.drop way.start ++ way.source = stream
  ended : way.eof → way.source = []

variable {way : Way} {stream : List UInt8}

theorem Inv.compact (h : way.Inv stream) : way.compact.Inv stream where
  start_le := Nat.zero_le _
  length_le := by
    have := h.length_le
    simp only [Way.compact, length_drop]
    omega
  flow := h.flow
  ended := h.ended

/-- A write begins at the front, so the buffer has to be compact. -/
theorem Inv.give (h : way.Inv stream) (hstart : way.start = 0) (answer : Wrote) :
    (way.give answer).1.Inv stream := by
  cases answer with
  | size n =>
    rw [Way.give]
    split
    · refine ⟨Nat.min_le_right n _, h.length_le, ?_, h.ended⟩
      rw [← h.flow, hstart, append_assoc way.given, take_append_drop]
      rfl
    · exact h
  | transient | failed errno => exact h

/-- The end is read only where there is room, so from a stream that has nothing left. -/
theorem Inv.take (h : way.Inv stream) (hroom : way.data.length < BUFFER_SIZE) (answer : Got) :
    (way.take answer).1.Inv stream := by
  cases answer with
  | upTo n =>
    rw [Way.take]
    split
    next hread =>
      refine ⟨?_, ?_, ?_, fun heof => ?_⟩
      · simpa using Nat.le_add_right_of_le h.start_le
      · simp only [length_append, length_take]
        omega
      · rw [drop_append_of_le_length h.start_le, ← append_assoc, append_assoc _ (way.source.take _),
          take_append_drop, h.flow]
      · rw [h.ended heof, take_nil] at hread
        exact absurd hread (Nat.lt_irrefl 0)
    next hread =>
      refine ⟨h.start_le, h.length_le, h.flow, fun _ => length_eq_zero_iff.mp ?_⟩
      rw [length_take] at hread
      show way.source.length = 0
      omega
  | transient | failed errno => exact h

theorem start_take (way : Way) (answer : Got) : (way.take answer).1.start = way.start := by
  cases answer <;> simp only [Way.take]
  split <;> rfl

theorem Inv.given_eq (h : way.Inv stream) (heof : way.eof) (hempty : way.data = []) :
    way.given = stream := by
  simpa [hempty, h.ended heof] using h.flow

end Way

/-! ### The loop -/

structure Relay where
  toPeer : Way
  toStdout : Way
  writeClosed : Bool := false

/-- `revents`; `err` is `POLLERR` or `POLLNVAL`. -/
structure Events where
  pollin : Bool := false
  out : Bool := false
  hup : Bool := false
  err : Bool := false

structure Turn where
  interrupted : Bool
  shutdown : Option Errno
  poll : Option Errno
  stdin : Events
  stdout : Events
  peer : Events
  wrote : Wrote
  read : Got
  sent : Wrote
  received : Got

/-- What follows in the loop, or the state and the error with which `relay` returns. -/
abbrev Step := Except (Relay × Option Errno) Relay

def Relay.compact (s : Relay) : Relay :=
  { s with toPeer := s.toPeer.compact, toStdout := s.toStdout.compact }

/-- The state after a transfer. -/
def settle (put : Way → Relay) : Way × Option Errno → Step
  | (way, none) => .ok (put way)
  | (way, some errno) => .error (put way, some errno)

def Relay.setToPeer (s : Relay) (way : Way) : Relay := { s with toPeer := way }

def Relay.setToStdout (s : Relay) (way : Way) : Relay := { s with toStdout := way }

def closeWrite (t : Turn) (s : Relay) : Step :=
  if s.toPeer.eof ∧ s.toPeer.data = [] ∧ s.writeClosed = false then
    match t.shutdown with
    | none | some .enotconn => .ok { s with writeClosed := true }
    | some errno => .error (s, some errno)
  else .ok s

def finish (s : Relay) : Step :=
  if s.toStdout.eof ∧ s.toStdout.data = [] then
    if s.toPeer.eof = false ∨ s.toPeer.data ≠ [] then .error (s, some .econnreset)
    else .error (s, none)
  else .ok s

/-- The events that `poll` reports for what the loop asks for: none for a descriptor of `-1`. -/
def watched (s : Relay) (t : Turn) : Events × Events × Events :=
  let pollin := !s.toStdout.eof && decide (s.toStdout.data.length < BUFFER_SIZE)
  let pollout := !s.toStdout.eof && !s.toPeer.data.isEmpty
  (if s.toPeer.eof = false ∧ s.toStdout.eof = false ∧ s.toPeer.data.length < BUFFER_SIZE then
    t.stdin else {},
   if s.toStdout.data ≠ [] then t.stdout else {},
   if pollin || pollout then
    { t.peer with pollin := t.peer.pollin && pollin, out := t.peer.out && pollout }
   else {})

def refuse (bad : Bool) (errno : Errno) (s : Relay) : Step :=
  if bad then .error (s, some errno) else .ok s

def writeStdout (events : Events) (t : Turn) (s : Relay) : Step :=
  if events.out then settle s.setToStdout (s.toStdout.give t.wrote) else .ok s

def readStdin (events : Events) (t : Turn) (s : Relay) : Step :=
  if events.pollin || events.hup then settle s.setToPeer (s.toPeer.take t.read) else .ok s

def sendPeer (events : Events) (t : Turn) (s : Relay) : Step :=
  if events.out ∧ s.toPeer.data ≠ [] then settle s.setToPeer (s.toPeer.give t.sent) else .ok s

def receivePeer (events : Events) (t : Turn) (s : Relay) : Step :=
  if (events.pollin || events.hup) ∧ s.toStdout.data.length < BUFFER_SIZE then
    settle s.setToStdout (s.toStdout.take t.received)
  else .ok s

/-- One iteration of the loop. -/
def turn (s : Relay) (t : Turn) : Step :=
  if t.interrupted then .error (s, some .eintr)
  else do
    let s ← closeWrite t s.compact
    let s ← finish s
    match t.poll with
    | some .eintr => .ok s
    | some errno => .error (s, some errno)
    | none =>
      let (stdin, stdout, peer) := watched s t
      let s ← refuse (stdout.err || stdout.hup) .epipe s
      let s ← writeStdout stdout t s
      let s ← readStdin stdin t s
      let s ← refuse stdin.err .eio s
      let s ← sendPeer peer t s
      let s ← receivePeer peer t s
      refuse peer.err .econnreset s

/-- What the standard input and the peer send up to their ends. -/
structure Input where
  stdin : List UInt8
  peer : List UInt8

def relay (io : Input) (turns : List Turn) : Step :=
  turns.foldlM turn { toPeer := { source := io.stdin }, toStdout := { source := io.peer } }

/-! ### Every run -/

/-- The write side is closed when all input has been sent; nothing is read or sent after that. -/
structure Relay.Inv (io : Input) (s : Relay) : Prop where
  toPeer : s.toPeer.Inv io.stdin
  toStdout : s.toStdout.Inv io.peer
  closed : s.writeClosed → s.toPeer.eof ∧ s.toPeer.data = []

def Relay.Compact (io : Input) (s : Relay) : Prop :=
  s.Inv io ∧ s.toPeer.start = 0 ∧ s.toStdout.start = 0

/-- Both streams have ended and every byte has been passed on. -/
def Relay.Delivered (io : Input) (s : Relay) : Prop :=
  (s.toPeer.eof ∧ s.toPeer.given = io.stdin) ∧ s.toStdout.eof ∧ s.toStdout.given = io.peer

/-- The loop goes on in a state with `P`, or `relay` returns, with 0 only when all is delivered. -/
def Holds (io : Input) (P : Relay → Prop) : Step → Prop
  | .ok s => P s
  | .error (s, result) => s.Inv io ∧ (result = none → s.Delivered io)

variable {io : Input} {P Q : Relay → Prop} {s : Relay} {t : Turn}

theorem Holds.bind {x : Step} {f : Relay → Step} (hx : Holds io P x)
    (hf : ∀ s, P s → Holds io Q (f s)) : Holds io Q (x >>= f) := by
  cases x with
  | ok s =>
    rw [ok_bind]
    exact hf s hx
  | error result =>
    rw [error_bind]
    exact hx

theorem Holds.failed (h : s.Inv io) (errno : Errno) : Holds io P (.error (s, some errno)) :=
  ⟨h, by simp⟩

theorem holds_settle {put : Way → Relay} {result : Way × Option Errno}
    (hinv : (put result.1).Inv io) (h : P (put result.1)) : Holds io P (settle put result) := by
  obtain ⟨way, _ | errno⟩ := result
  · exact h
  · exact Holds.failed hinv errno

theorem closeWrite_holds (h : s.compact.Inv io) :
    Holds io (Relay.Compact io) (closeWrite t s.compact) := by
  rw [closeWrite]
  split
  next hready =>
    have hclosed : { s.compact with writeClosed := true : Relay }.Inv io :=
      ⟨h.toPeer, h.toStdout, fun _ => ⟨hready.1, hready.2.1⟩⟩
    split
    · exact ⟨hclosed, rfl, rfl⟩
    · exact ⟨hclosed, rfl, rfl⟩
    · exact Holds.failed h _
  · exact ⟨h, rfl, rfl⟩

theorem finish_holds (h : s.Inv io) (hP : P s) : Holds io P (finish s) := by
  rw [finish]
  split
  next hstdout =>
    split
    · exact Holds.failed h _
    next hpeer =>
      simp only [not_or, Bool.not_eq_false, not_not] at hpeer
      exact ⟨h, fun _ => ⟨⟨hpeer.1, h.toPeer.given_eq hpeer.1 hpeer.2⟩,
        hstdout.1, h.toStdout.given_eq hstdout.1 hstdout.2⟩⟩
  · exact hP

theorem refuse_holds (bad : Bool) (errno : Errno) (h : s.Inv io) (hP : P s) :
    Holds io P (refuse bad errno s) := by
  cases bad
  · exact hP
  · exact Holds.failed h errno

theorem writeStdout_holds (events : Events) (h : s.Inv io) (hstart : s.toStdout.start = 0) :
    Holds io (fun after => after.Inv io ∧ after.toPeer = s.toPeer) (writeStdout events t s) := by
  rw [writeStdout]
  split
  · have hinv : (s.setToStdout (s.toStdout.give t.wrote).1).Inv io :=
      ⟨h.toPeer, h.toStdout.give hstart t.wrote, h.closed⟩
    exact holds_settle hinv ⟨hinv, rfl⟩
  · exact ⟨h, rfl⟩

/-- Input is read only before its end, so not when the write side is closed. -/
theorem readStdin_holds {events : Events} (h : s.Inv io) (hstart : s.toPeer.start = 0)
    (hopen : events.pollin || events.hup →
      s.toPeer.eof = false ∧ s.toPeer.data.length < BUFFER_SIZE) :
    Holds io (fun s => s.Inv io ∧ s.toPeer.start = 0) (readStdin events t s) := by
  rw [readStdin]
  split
  next hready =>
    have hinv : (s.setToPeer (s.toPeer.take t.read).1).Inv io :=
      ⟨h.toPeer.take (hopen hready).2 t.read, h.toStdout, fun hclosed => by
        simpa [hopen hready] using (h.closed hclosed).1⟩
    exact holds_settle hinv ⟨hinv, (s.toPeer.start_take t.read).trans hstart⟩
  · exact ⟨h, hstart⟩

theorem sendPeer_holds (events : Events) (h : s.Inv io) (hstart : s.toPeer.start = 0) :
    Holds io (Relay.Inv io) (sendPeer events t s) := by
  rw [sendPeer]
  split
  next hready =>
    have hinv : (s.setToPeer (s.toPeer.give t.sent).1).Inv io :=
      ⟨h.toPeer.give hstart t.sent, h.toStdout, fun hclosed =>
        absurd (h.closed hclosed).2 hready.2⟩
    exact holds_settle hinv hinv
  · exact h

theorem receivePeer_holds (events : Events) (h : s.Inv io) :
    Holds io (Relay.Inv io) (receivePeer events t s) := by
  rw [receivePeer]
  split
  next hready =>
    have hinv : (s.setToStdout (s.toStdout.take t.received).1).Inv io :=
      ⟨h.toPeer, h.toStdout.take hready.2 t.received, h.closed⟩
    exact holds_settle hinv hinv
  · exact h

theorem watched_stdin (h : (watched s t).1.pollin || (watched s t).1.hup) :
    s.toPeer.eof = false ∧ s.toPeer.data.length < BUFFER_SIZE := by
  simp only [watched] at h
  split at h
  next hasked => exact ⟨hasked.1, hasked.2.2⟩
  · simp at h

theorem turn_holds (h : s.Inv io) (t : Turn) : Holds io (Relay.Inv io) (turn s t) := by
  rw [turn]
  split
  · exact Holds.failed h _
  have hcompact : s.compact.Inv io :=
    ⟨h.toPeer.compact, h.toStdout.compact, fun hclosed => ⟨(h.closed hclosed).1, by
      simp [Relay.compact, Way.compact, (h.closed hclosed).2]⟩⟩
  refine (closeWrite_holds hcompact).bind fun s hs => ?_
  refine (finish_holds (P := Relay.Compact io) hs.1 hs).bind fun s hs => ?_
  obtain ⟨hinv, hpeer, hstdout⟩ := hs
  split
  · exact hinv
  · exact Holds.failed hinv _
  refine (refuse_holds (P := (· = s)) _ _ hinv rfl).bind fun _ hs => ?_
  subst hs
  refine (writeStdout_holds _ hinv hstdout).bind fun after hafter => ?_
  obtain ⟨hinv, hsame⟩ := hafter
  refine (readStdin_holds hinv (hsame ▸ hpeer) fun hready => ?_).bind fun s hs => ?_
  · rw [hsame]
    exact watched_stdin hready
  refine (refuse_holds (P := fun s => s.Inv io ∧ s.toPeer.start = 0) _ _ hs.1 hs).bind fun s hs => ?_
  refine (sendPeer_holds _ hs.1 hs.2).bind fun s hs => ?_
  exact (receivePeer_holds _ hs).bind fun s hs => refuse_holds _ _ hs hs

theorem foldlM_turn_holds (turns : List Turn) (h : s.Inv io) :
    Holds io (Relay.Inv io) (turns.foldlM turn s) := by
  induction turns generalizing s with
  | nil => exact h
  | cons t turns ih => exact (turn_holds h t).bind fun s hs => ih hs

/-- The state in which the relay is, or with which it has returned. -/
def Step.state : Step → Relay
  | .ok s => s
  | .error (s, _) => s

/-- **The relay is transparent**, whatever is ready and however short the transfers are. -/
theorem relay_transparent (io : Input) (turns : List Turn) :
    let s := Step.state (relay io turns)
    (∀ side ∈ [(s.toPeer, io.stdin), (s.toStdout, io.peer)],
      side.1.start ≤ side.1.data.length ∧ side.1.data.length ≤ BUFFER_SIZE ∧
        ∃ read, read ++ side.1.source = side.2 ∧ side.1.given <+: read) ∧
      (s.writeClosed → s.toPeer.eof ∧ s.toPeer.given = io.stdin) ∧
      ∀ final, relay io turns = .error (final, none) → final.Delivered io := by
  have hstart : Relay.Inv io
      { toPeer := { source := io.stdin }, toStdout := { source := io.peer } } :=
    ⟨⟨by simp, by simp, rfl, by simp⟩, ⟨by simp, by simp, rfl, by simp⟩, by simp⟩
  have hway : ∀ {way : Way} {stream : List UInt8}, way.Inv stream →
      way.start ≤ way.data.length ∧ way.data.length ≤ BUFFER_SIZE ∧
        ∃ read, read ++ way.source = stream ∧ way.given <+: read :=
    fun h => ⟨h.start_le, h.length_le, _, h.flow, prefix_append _ _⟩
  have hholds := foldlM_turn_holds turns hstart
  rw [← relay] at hholds
  have hinv : (Step.state (relay io turns)).Inv io := by
    cases hrun : relay io turns with
    | ok s =>
      rw [hrun] at hholds
      exact hholds
    | error result =>
      rw [hrun] at hholds
      exact hholds.1
  refine ⟨by simpa using ⟨hway hinv.toPeer, hway hinv.toStdout⟩, fun hclosed => ?_, ?_⟩
  · obtain ⟨heof, hempty⟩ := hinv.closed hclosed
    exact ⟨heof, hinv.toPeer.given_eq heof hempty⟩
  · intro final hrun
    rw [hrun] at hholds
    exact hholds.2 rfl

/-- An iteration in which everything is ready and every transfer is short. -/
def short : Turn where
  interrupted := false
  shutdown := none
  poll := none
  stdin := { pollin := true }
  stdout := { out := true }
  peer := { pollin := true, out := true }
  wrote := .size 1
  read := .upTo 1
  sent := .size 1
  received := .upTo 2

/-- The input is sent before the peer answers. -/
def exchange : List Turn := replicate 3 { short with peer := { out := true } } ++ replicate 4 short

theorem relay_transparent_exchange :
    ∃ final, relay ⟨[1, 2, 3], [4, 5]⟩ exchange = .error (final, none) ∧
      final.toPeer.given = [1, 2, 3] ∧ final.toStdout.given = [4, 5] := by
  have hrun : relay ⟨[1, 2, 3], [4, 5]⟩ exchange =
      .error (⟨⟨[], [], 0, true, [1, 2, 3]⟩, ⟨[], [], 0, true, [4, 5]⟩, true⟩, none) := rfl
  have h := (relay_transparent ⟨[1, 2, 3], [4, 5]⟩ exchange).2.2 _ hrun
  exact ⟨_, hrun, h.1.2, h.2.2⟩

end FoldGPT.Bridge
