import FoldGPT.Lib.Transition
import Mathlib.Data.List.Basic

/-!
# The lines of a history file

`FoldConversationMonitor.java` follows a history file that grows. Between two reads it keeps how far
it has read, the line it is in, and whether that line is already too long to be passed on. The
appends of the writer may come at any moment, also between two buffers of one read.

Main result: `lines_passed_on`.
-/

namespace FoldGPT.App.Conversations

open FoldGPT.Lib List Option

abbrev Bytes := List UInt8

def MAX_LINE : Nat := 8 * 1024 * 1024

structure Tail where
  offset : Nat := 0
  oversized : Bool := false
  pending : Bytes := []
  deriving DecidableEq

def newline : UInt8 := 10

/-- The body of the inner loop of `read`, with the line it passes to `event`. The line is decoded as
a whole there. -/
def Tail.byte (tail : Tail) (b : UInt8) : Tail × List Bytes :=
  if b = newline then
    ({ tail with pending := [], oversized := false }, if tail.oversized then [] else [tail.pending])
  else if tail.oversized then (tail, [])
  else if tail.pending.length = MAX_LINE then
    ({ tail with pending := [], oversized := true }, [])
  else ({ tail with pending := tail.pending ++ [b] }, [])

/-- The inner loop. -/
def Tail.buffer (tail : Tail) : Bytes → Tail × List Bytes
  | [] => (tail, [])
  | b :: rest =>
    let (tail, line) := tail.byte b
    let (tail, lines) := tail.buffer rest
    (tail, line ++ lines)

/-- A file, what the monitor keeps of it and what it has passed on. `baseline` is where the first
scan left off. -/
structure Monitor where
  file : Bytes := []
  tail : Tail := {}
  baseline : Nat := 0
  known : Bool := false
  reading : Bool := false
  closed : Bool := false
  events : List Bytes := []

inductive Act
  | append (bytes : Bytes)
  /-- `read` with `baseline`, for a file not read before. -/
  | baseline
  /-- `read` without it, up to its loop. -/
  | start
  /-- One turn of the loop, in which `input.read` returns `count`. -/
  | fill (count : Nat)
  | finish
  | close
  deriving DecidableEq

namespace Monitor

def step (s : Monitor) : Act → Option Monitor
  | .append bytes => some { s with file := s.file ++ bytes }
  | .baseline =>
    if s.known || s.closed then none
    else some { s with
      known := true
      baseline := s.file.length
      tail := { s.tail with offset := s.file.length } }
  | .start =>
    if s.reading || s.closed then none
    else some { s with
      known := true
      reading := true
      tail := if s.file.length < s.tail.offset then {} else s.tail }
  | .fill count =>
    if s.reading && !s.closed && decide (0 < count ∧ count ≤ 16384 ∧
        s.tail.offset + count ≤ s.file.length) then
      let buffer := (s.file.drop s.tail.offset).take count
      let (tail, lines) := { s.tail with offset := s.tail.offset + count }.buffer buffer
      some { s with tail, events := s.events ++ lines }
    else none
  | .finish =>
    if s.reading && (s.closed || decide (s.file.length ≤ s.tail.offset)) then
      some { s with reading := false }
    else none
  | .close => some { s with closed := true }

end Monitor

def monitor : LTS Monitor Act := .ofFun (fun s => ∃ file, s = { file }) Monitor.step

/-! ### The lines of what was read -/

/-- `bytes` are the terminated pieces and a rest, and the lines passed on are the pieces that are
not too long. -/
structure Follows (bytes : Bytes) (tail : Tail) (events pieces : List Bytes) (rest : Bytes) :
    Prop where
  joined : bytes = (pieces.map (· ++ [newline])).flatten ++ rest
  ended : ∀ piece ∈ pieces, newline ∉ piece
  open_ : newline ∉ rest
  passed : events = pieces.filter fun piece => decide (piece.length ≤ MAX_LINE)
  oversized : tail.oversized = decide (MAX_LINE < rest.length)
  pending : tail.pending = if MAX_LINE < rest.length then [] else rest

variable {bytes : Bytes} {tail : Tail} {events pieces : List Bytes} {rest : Bytes}

theorem Follows.start : Follows [] {} [] [] [] where
  joined := rfl
  ended := by simp
  open_ := by simp
  passed := rfl
  oversized := rfl
  pending := rfl

theorem Follows.newline (h : Follows bytes tail events pieces rest) :
    Follows (bytes ++ [newline]) (tail.byte newline).1 (events ++ (tail.byte newline).2)
      (pieces ++ [rest]) [] := by
  unfold Tail.byte
  rw [if_pos rfl]
  refine ⟨?_, ?_, by simp, ?_, rfl, rfl⟩
  · simp [h.joined]
  · intro piece hpiece
    rcases mem_append.mp hpiece with hmem | hmem
    · exact h.ended piece hmem
    · rw [mem_singleton.mp hmem]
      exact h.open_
  · rw [filter_append, ← h.passed, h.oversized, h.pending]
    by_cases hlong : MAX_LINE < rest.length
    · simp [hlong, Nat.not_le.mpr hlong]
    · simp [hlong, Nat.not_lt.mp hlong]

theorem Follows.other (h : Follows bytes tail events pieces rest) {b : UInt8}
    (hb : b ≠ Conversations.newline) :
    Follows (bytes ++ [b]) (tail.byte b).1 (events ++ (tail.byte b).2) pieces (rest ++ [b]) := by
  have hnone : (tail.byte b).2 = [] := by
    unfold Tail.byte
    rw [if_neg hb]
    split
    · rfl
    · split
      · rfl
      · rfl
  have hlong : (tail.byte b).1.oversized = decide (MAX_LINE < (rest ++ [b]).length) ∧
      (tail.byte b).1.pending = if MAX_LINE < (rest ++ [b]).length then [] else rest ++ [b] := by
    unfold Tail.byte
    rw [if_neg hb, h.oversized, h.pending, length_append, length_singleton]
    by_cases hlong : MAX_LINE < rest.length
    · simp [hlong, Nat.lt_succ_of_lt hlong, h.oversized, h.pending]
    · by_cases hfull : rest.length = MAX_LINE
      · simp [hfull]
      · have hshort : ¬MAX_LINE < rest.length + 1 := by omega
        simp [hlong, hfull, hshort]
  rw [hnone, append_nil]
  refine ⟨?_, h.ended, ?_, h.passed, hlong.1, hlong.2⟩
  · rw [h.joined, append_assoc]
  · intro hmem
    rcases mem_append.mp hmem with hmem | hmem
    · exact h.open_ hmem
    · exact hb (mem_singleton.mp hmem).symm

/-- **A buffer is followed**, wherever it ends. -/
theorem Follows.buffer (h : Follows bytes tail events pieces rest) (buffer : Bytes) :
    ∃ pieces rest, Follows (bytes ++ buffer) (tail.buffer buffer).1
      (events ++ (tail.buffer buffer).2) pieces rest := by
  induction buffer generalizing bytes tail events pieces rest with
  | nil => exact ⟨pieces, rest, by simpa [Tail.buffer] using h⟩
  | cons b buffer ih =>
    have hone : ∃ pieces rest, Follows (bytes ++ [b]) (tail.byte b).1 (events ++ (tail.byte b).2)
        pieces rest := by
      by_cases hb : b = Conversations.newline
      · subst hb
        exact ⟨_, _, h.newline⟩
      · exact ⟨_, _, h.other hb⟩
    obtain ⟨pieces, rest, hone⟩ := hone
    have hall := ih hone
    rw [append_assoc, append_assoc] at hall
    exact hall

theorem offset_buffer (tail : Tail) (buffer : Bytes) :
    (tail.buffer buffer).1.offset = tail.offset := by
  have hbyte : ∀ (tail : Tail) b, (tail.byte b).1.offset = tail.offset := by
    intro tail b
    unfold Tail.byte
    split
    · rfl
    · split
      · rfl
      · split
        · rfl
        · rfl
  induction buffer generalizing tail with
  | nil => rfl
  | cons b buffer ih => exact (ih (tail.byte b).1).trans (hbyte tail b)

/-- What was read since the baseline. -/
def Monitor.seen (s : Monitor) : Bytes := (s.file.take s.tail.offset).drop s.baseline

/-- **The invariant of the monitor.** -/
structure Monitor.Sound (s : Monitor) : Prop where
  read : s.baseline ≤ s.tail.offset ∧ s.tail.offset ≤ s.file.length
  follows : ∃ pieces rest, Follows s.seen s.tail s.events pieces rest
  fresh : s.known = false → s.tail = {} ∧ s.events = []
  started : s.reading = true → s.known = true

theorem Monitor.Sound.step {s s' : Monitor} {act : Act} (h : s.Sound)
    (hstep : s.step act = some s') : s'.Sound := by
  obtain ⟨hbase, hoffset⟩ := h.read
  cases act with
  | append bytes =>
    cases hstep
    have hseen : Monitor.seen { s with file := s.file ++ bytes } = s.seen := by
      unfold Monitor.seen
      rw [take_append_of_le_length hoffset]
    refine ⟨⟨hbase, ?_⟩, ?_, h.fresh, h.started⟩
    · rw [length_append]
      exact Nat.le_add_right_of_le hoffset
    · rw [hseen]
      exact h.follows
  | baseline =>
    obtain ⟨hnew, hstep⟩ := ite_none_left_eq_some.mp hstep
    rw [Bool.or_eq_true, not_or, Bool.not_eq_true] at hnew
    obtain ⟨htail, hevents⟩ := h.fresh hnew.1
    cases hstep
    refine ⟨⟨Nat.le_refl _, Nat.le_refl _⟩, ⟨[], [], ?_⟩, nofun, fun _ => rfl⟩
    have hseen : Monitor.seen { s with
        known := true
        baseline := s.file.length
        tail := { s.tail with offset := s.file.length } } = [] := by
      simp [Monitor.seen]
    rw [hseen, hevents, htail]
    exact { Follows.start with }
  | start =>
    obtain ⟨-, hstep⟩ := ite_none_left_eq_some.mp hstep
    rw [if_neg (Nat.not_lt.mpr hoffset)] at hstep
    cases hstep
    exact ⟨h.read, h.follows, nofun, fun _ => rfl⟩
  | fill count =>
    obtain ⟨hready, hstep⟩ := ite_none_right_eq_some.mp hstep
    simp only [Bool.and_eq_true, decide_eq_true_eq] at hready
    obtain ⟨⟨hreading, -⟩, -, -, hcount⟩ := hready
    cases hstep
    obtain ⟨pieces, rest, hfollows⟩ := h.follows
    have hmoved : Follows s.seen { s.tail with offset := s.tail.offset + count } s.events pieces
        rest := { hfollows with }
    have hseen : (s.file.take (s.tail.offset + count)).drop s.baseline =
        s.seen ++ (s.file.drop s.tail.offset).take count := by
      have hlong : s.baseline ≤ (s.file.take s.tail.offset).length := by
        rw [length_take_of_le hoffset]
        exact hbase
      rw [take_add, drop_append_of_le_length hlong]
      rfl
    refine ⟨?_, ?_, fun hnew => ?_, h.started⟩
    · show s.baseline ≤ (Tail.buffer _ _).1.offset ∧ (Tail.buffer _ _).1.offset ≤ s.file.length
      rw [offset_buffer]
      exact ⟨Nat.le_add_right_of_le hbase, hcount⟩
    · show ∃ pieces rest, Follows ((s.file.take (Tail.buffer _ _).1.offset).drop s.baseline) _ _ _ _
      rw [offset_buffer, hseen]
      exact hmoved.buffer _
    · rw [h.started hreading] at hnew
      cases hnew
  | finish =>
    obtain ⟨-, hstep⟩ := ite_none_right_eq_some.mp hstep
    cases hstep
    exact ⟨h.read, h.follows, h.fresh, nofun⟩
  | close =>
    cases hstep
    exact { h with }

theorem sound_of_run {acts : List Act} {s : Monitor} (h : monitor.Run acts s) : s.Sound := by
  refine h.invariant (I := fun _ s => s.Sound) ?_ fun _ _ _ _ _ hs hstep => hs.step hstep
  rintro _ ⟨file, rfl⟩
  exact ⟨⟨Nat.le_refl _, Nat.zero_le _⟩, ⟨[], [], Follows.start⟩, fun _ => ⟨rfl, rfl⟩, nofun⟩

/-- **Every line is passed on once and in order.** In every run, what was read since the baseline is
a sequence of terminated pieces and a rest without a newline, and the lines passed on are the pieces
of at most `MAX_LINE` bytes. A read that ends before the monitor is closed has read the whole
file. -/
theorem lines_passed_on {acts : List Act} {s : Monitor} (h : monitor.Run acts s) :
    (∃ (pieces : List Bytes) (rest : Bytes),
      s.seen = (pieces.map (· ++ [newline])).flatten ++ rest ∧
      (∀ piece ∈ pieces, newline ∉ piece) ∧ newline ∉ rest ∧
      s.events = pieces.filter fun piece => decide (piece.length ≤ MAX_LINE)) ∧
    ∀ s', s.step .finish = some s' → s.closed = false →
      s'.events = s.events ∧ s'.seen = s'.file.drop s'.baseline := by
  have hsound := sound_of_run h
  obtain ⟨pieces, rest, hfollows⟩ := hsound.follows
  refine ⟨⟨pieces, rest, hfollows.joined, hfollows.ended, hfollows.open_, hfollows.passed⟩, ?_⟩
  intro s' hstep hclosed
  obtain ⟨hready, hstep⟩ := ite_none_right_eq_some.mp hstep
  simp only [hclosed, Bool.false_or, Bool.and_eq_true, decide_eq_true_eq] at hready
  cases hstep
  refine ⟨rfl, ?_⟩
  show (s.file.take s.tail.offset).drop s.baseline = s.file.drop s.baseline
  rw [take_of_length_le hready.2]

/-- A line that two reads and an append cut into three. -/
def splitActs : List Act :=
  [.append [65, 10, 66], .baseline, .append [67], .start, .fill 1, .finish, .append [68, 10],
    .start, .fill 2]

theorem lines_passed_on_split : ∃ s, monitor.Run splitActs s ∧ s.events = [[67, 68]] ∧
      s.closed = false ∧
      ∃ (pieces : List Bytes) (rest : Bytes),
        s.seen = (pieces.map (· ++ [newline])).flatten ++ rest ∧
        (∀ piece ∈ pieces, newline ∉ piece) ∧ newline ∉ rest ∧
        s.events = pieces.filter fun piece => decide (piece.length ≤ MAX_LINE) := by
  obtain ⟨s, hrun, hevents⟩ := LTS.exists_run_of_exec (A := monitor) (fun h => h) ⟨[], rfl⟩
    splitActs (fun s => s.events = [[67, 68]] ∧ s.closed = false) (by decide +kernel)
  exact ⟨s, hrun, hevents.1, hevents.2, (lines_passed_on hrun).1⟩

end FoldGPT.App.Conversations
