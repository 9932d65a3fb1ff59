import FoldGPT.Lib.Encoding
import Mathlib.Data.List.DropRight

/-!
# Frames on standard input

`serve_stdio` reads its input one frame at a time with `_read_frame`, a bounded
`readline` and, when the bound falls between a carriage return and its newline, one
more byte. What it returns is compared with plain splitting of the whole stream at
its newlines.

Main results: `read_frames_exact`, `received_eq`.
-/

namespace FoldGPT.ExecServer

open FoldGPT.Lib.Encoding List

/-! ### Reading one frame -/

/-- `reader.readline(n)`: the bytes up to a newline, `n` bytes or the end of the
input, and the stream after them. -/
def readline : ℕ → List UInt8 → List UInt8 × List UInt8
  | 0, stream => ([], stream)
  | _ + 1, [] => ([], [])
  | n + 1, byte :: stream =>
    if byte = 10 then ([byte], stream)
    else (byte :: (readline n stream).1, (readline n stream).2)

/-- How one call of `_read_frame` ends: `None`, a frame, or `ProtocolClosed` with
the text `Input exceeds stdio size limit`. -/
inductive Frame
  | finished
  | line (bytes : List UInt8)
  | closed
deriving DecidableEq, Repr

/-- `if line.endswith(b"\r"): line = line[:-1]`. -/
def dropReturn (line : List UInt8) : List UInt8 :=
  if line.getLast? = some 13 then line.dropLast else line

/-- The last check of `_read_frame`, with the stream that is left. -/
def bounded (limit : ℕ) (line stream : List UInt8) : Frame × List UInt8 :=
  if limit < line.length then (.closed, stream) else (.line line, stream)

/-- `await _pipe_io(reader.read, 1) == b"\n"` on a line that ends in a carriage
return. -/
def lookAhead (limit : ℕ) (line : List UInt8) : List UInt8 → Frame × List UInt8
  | [] => bounded limit line []
  | byte :: stream =>
    if byte = 10 then bounded limit line.dropLast stream else bounded limit line stream

/-- `_read_frame` after its bounded read. -/
def finishFrame (limit : ℕ) (line stream : List UInt8) : Frame × List UInt8 :=
  if line = [] then (.finished, stream)
  else if line.getLast? = some 10 then bounded limit (dropReturn line.dropLast) stream
  else if limit < line.length ∧ line.getLast? = some 13 then lookAhead limit line stream
  else bounded limit line stream

/-- `_read_frame(reader, limit)` on what is left of the stream. -/
def readFrame (limit : ℕ) (stream : List UInt8) : Frame × List UInt8 :=
  finishFrame limit (readline (limit + 1) stream).1 (readline (limit + 1) stream).2

/-- At most `n` calls of `_read_frame` one after another, as the receive loop makes
them: it goes on only after a frame. -/
def readFrames (limit : ℕ) : ℕ → List UInt8 → List Frame
  | 0, _ => []
  | n + 1, stream =>
    match readFrame limit stream with
    | (.line bytes, rest) => .line bytes :: readFrames limit n rest
    | (outcome, _) => [outcome]

/-- `not line.strip()`: bytes that are all white space. -/
def isBlank (line : List UInt8) : Bool :=
  line.all fun byte => byte = 32 || (9 ≤ byte && byte ≤ 13)

/-- The lines the receive loop of `serve_stdio` hands to `decode_message` in at most
`n` turns without a failure of the output. -/
def received (limit n : ℕ) (stream : List UInt8) : List (List UInt8) :=
  (readFrames limit n stream).filterMap fun outcome =>
    match outcome with
    | .line bytes => if isBlank bytes then none else some bytes
    | _ => none

/-! ### The frames of a stream -/

/-- **The frames of a stream**, split at its newlines: a terminated line without one
carriage return before its newline, and what follows the last newline as it is,
unless it is empty. -/
def frames (stream : List UInt8) : List (List UInt8) :=
  (stream.splitOn 10).dropLast.map dropReturn ++
    (stream.splitOn 10).getLast?.toList.filter (· ≠ [])

/-- The frames before the first one whose content is longer than the limit. -/
def goodFrames (limit : ℕ) (stream : List UInt8) : List (List UInt8) :=
  (frames stream).takeWhile (·.length ≤ limit)

/-- What the call after the good frames does. -/
def ending (limit : ℕ) (stream : List UInt8) : Frame :=
  if ∀ frame ∈ frames stream, frame.length ≤ limit then .finished else .closed

variable {limit n : ℕ} {line rest stream : List UInt8}

theorem stream_cases (stream : List UInt8) :
    10 ∉ stream ∨ ∃ line rest, 10 ∉ line ∧ stream = line ++ 10 :: rest := by
  by_cases h : 10 ∈ stream
  · obtain ⟨line, rest, hstream, hline⟩ := eq_append_cons_of_mem h
    exact .inr ⟨line, rest, hline, hstream⟩
  · exact .inl h

theorem splitOn_of_not_mem (h : 10 ∉ line) : line.splitOn 10 = [line] := by
  have h' := splitOn_append_of_not_mem h []
  rw [append_nil] at h'
  rw [h']
  simp

theorem frames_line (h : 10 ∉ line) (rest : List UInt8) :
    frames (line ++ 10 :: rest) = dropReturn line :: frames rest := by
  have hsplit : (line ++ 10 :: rest).splitOn 10 = line :: rest.splitOn 10 := by
    rw [splitOn_append_of_not_mem h, splitOn_cons_eq_if_modifyHead, if_pos (by decide)]
    simp
  have hne : rest.splitOn 10 ≠ [] := splitOn_ne_nil _ _
  unfold frames
  rw [hsplit, dropLast_cons_of_ne_nil hne, map_cons, cons_append,
    List.getLast?_cons_of_ne_nil hne]

theorem frames_last (h : 10 ∉ line) : frames line = if line = [] then [] else [line] := by
  unfold frames
  rw [splitOn_of_not_mem h]
  by_cases hline : line = []
  · simp [hline]
  · simp [hline]

/-! ### What the bounded read takes -/

/-- A line that fits is taken with its newline, another one is cut at `n` bytes. -/
theorem readline_line (h : 10 ∉ line) (rest : List UInt8) :
    readline n (line ++ 10 :: rest) =
      if line.length < n then (line ++ [10], rest)
      else (line.take n, line.drop n ++ 10 :: rest) := by
  induction line generalizing n with
  | nil =>
    cases n with
    | zero => simp [readline]
    | succ n => simp [readline]
  | cons byte line ih =>
    rw [mem_cons, not_or] at h
    cases n with
    | zero => simp [readline]
    | succ n =>
      rw [cons_append, readline, if_neg (Ne.symm h.1), ih h.2]
      by_cases hn : line.length < n
      · rw [if_pos hn, if_pos (by simpa using hn)]
        rfl
      · rw [if_neg hn, if_neg (by simpa using hn)]
        rfl

theorem readline_last (h : 10 ∉ line) : readline n line = (line.take n, line.drop n) := by
  induction line generalizing n with
  | nil =>
    cases n with
    | zero => rfl
    | succ n => rfl
  | cons byte line ih =>
    rw [mem_cons, not_or] at h
    cases n with
    | zero => rfl
    | succ n =>
      rw [readline, if_neg (Ne.symm h.1), ih h.2]
      rfl

/-! ### One call -/

theorem length_dropReturn_ge (line : List UInt8) : line.length ≤ (dropReturn line).length + 1 := by
  unfold dropReturn
  by_cases h : line.getLast? = some 13
  · rw [if_pos h, length_dropLast]
    omega
  · rw [if_neg h]
    omega

theorem length_dropReturn_le (line : List UInt8) : (dropReturn line).length ≤ line.length := by
  unfold dropReturn
  by_cases h : line.getLast? = some 13
  · rw [if_pos h, length_dropLast]
    omega
  · rw [if_neg h]

theorem getLast_ne_newline (h : 10 ∉ line) : line.getLast? ≠ some 10 :=
  fun hlast => h (List.mem_of_getLast? hlast)

/-- A cut line is too long whatever follows, unless a carriage return at the cut is
followed by a newline. -/
theorem finishFrame_cut (h : 10 ∉ line) (hlength : line.length = limit + 1)
    (hnext : line.getLast? = some 13 → stream.head? ≠ some 10) :
    (finishFrame limit line stream).1 = .closed := by
  have hne : line ≠ [] := by
    intro hnil
    rw [hnil] at hlength
    simp at hlength
  have hlong : limit < line.length := by omega
  rw [finishFrame, if_neg hne, if_neg (getLast_ne_newline h)]
  by_cases hreturn : line.getLast? = some 13
  · rw [if_pos ⟨hlong, hreturn⟩]
    cases stream with
    | nil => rw [lookAhead, bounded, if_pos hlong]
    | cons byte stream =>
      have hbyte : byte ≠ 10 := by
        intro hbyte
        exact hnext hreturn (by rw [hbyte]; rfl)
      rw [lookAhead, if_neg hbyte, bounded, if_pos hlong]
  · rw [if_neg (fun hboth => hreturn hboth.2), bounded, if_pos hlong]

/-- **One call on a terminated line**: the line without its newline and one carriage
return, or the refusal when that is longer than the limit. -/
theorem readFrame_line (limit : ℕ) (h : 10 ∉ line) (rest : List UInt8) :
    if (dropReturn line).length ≤ limit then
      readFrame limit (line ++ 10 :: rest) = (.line (dropReturn line), rest)
    else (readFrame limit (line ++ 10 :: rest)).1 = .closed := by
  unfold readFrame
  rw [readline_line h]
  have hge := length_dropReturn_ge line
  have hle := length_dropReturn_le line
  by_cases hfits : line.length < limit + 1
  · -- the newline is within the bound
    rw [if_pos hfits, if_pos (by omega), finishFrame, if_neg (by simp), if_pos (by simp),
      dropLast_concat, bounded, if_neg (by omega)]
  · rw [if_neg hfits]
    by_cases hexact : line.length = limit + 1
    · -- the bound falls between the line and its newline
      rw [take_of_length_le (by omega), drop_eq_nil_of_le (by omega), nil_append]
      dsimp only
      have hne : line ≠ [] := by
        intro hnil
        rw [hnil] at hexact
        simp at hexact
      by_cases hreturn : line.getLast? = some 13
      · have hdrop : dropReturn line = line.dropLast := if_pos hreturn
        have hlength : line.dropLast.length = limit := by
          rw [length_dropLast]
          omega
        rw [hdrop, if_pos (by omega), finishFrame, if_neg hne, if_neg (getLast_ne_newline h),
          if_pos ⟨by omega, hreturn⟩, lookAhead, if_pos rfl, bounded, if_neg (by omega)]
      · have hdrop : dropReturn line = line := if_neg hreturn
        rw [hdrop, if_neg (by omega)]
        exact finishFrame_cut h hexact (fun hlast => absurd hlast hreturn)
    · -- the line goes on beyond the bound, and not with a newline
      rw [if_neg (by omega)]
      have hdrop : 10 ∉ line.drop (limit + 1) := fun hmem => h (mem_of_mem_drop hmem)
      refine finishFrame_cut (fun hmem => h (mem_of_mem_take hmem)) ?_ (fun _ hhead => ?_)
      · rw [length_take]
        omega
      · cases hcut : line.drop (limit + 1) with
        | nil =>
          have := drop_eq_nil_iff.mp hcut
          omega
        | cons byte cut =>
          rw [hcut] at hhead hdrop
          obtain rfl : byte = 10 := Option.some.inj hhead
          exact hdrop mem_cons_self

/-- **One call at the end of the stream**: nothing, the unterminated frame as it is,
or the refusal when it is longer than the limit. -/
theorem readFrame_last (limit : ℕ) (h : 10 ∉ line) :
    (readFrame limit line).1 =
      if line = [] then .finished else if line.length ≤ limit then .line line else .closed := by
  unfold readFrame
  rw [readline_last h]
  by_cases hnil : line = []
  · rw [if_pos hnil, hnil]
    rfl
  · rw [if_neg hnil]
    by_cases hfits : line.length ≤ limit
    · rw [if_pos hfits, take_of_length_le (by omega)]
      dsimp only
      rw [finishFrame, if_neg hnil, if_neg (getLast_ne_newline h), if_neg (by omega), bounded,
        if_neg (by omega)]
    · rw [if_neg hfits]
      refine finishFrame_cut (fun hmem => h (mem_of_mem_take hmem)) ?_ (fun _ hhead => ?_)
      · rw [length_take]
        omega
      · exact h (mem_of_mem_drop (List.mem_of_head? hhead))

/-! ### A run of calls -/

theorem goodFrames_line (h : 10 ∉ line) (rest : List UInt8) :
    goodFrames limit (line ++ 10 :: rest) =
      if (dropReturn line).length ≤ limit then dropReturn line :: goodFrames limit rest
      else [] := by
  unfold goodFrames
  rw [frames_line h, takeWhile_cons]
  by_cases hfits : (dropReturn line).length ≤ limit
  · rw [if_pos hfits, if_pos (decide_eq_true hfits)]
  · rw [if_neg hfits, if_neg (by simpa using hfits)]

theorem ending_line (h : 10 ∉ line) (rest : List UInt8) :
    ending limit (line ++ 10 :: rest) =
      if (dropReturn line).length ≤ limit then ending limit rest else .closed := by
  unfold ending
  rw [frames_line h]
  by_cases hfits : (dropReturn line).length ≤ limit
  · simp only [forall_mem_cons, hfits, true_and, if_true]
  · rw [if_neg hfits, if_neg]
    intro hall
    exact hfits (hall _ mem_cons_self)

theorem goodFrames_last (h : 10 ∉ line) :
    goodFrames limit line = if line ≠ [] ∧ line.length ≤ limit then [line] else [] := by
  unfold goodFrames
  rw [frames_last h]
  by_cases hnil : line = []
  · simp [hnil]
  · by_cases hfits : line.length ≤ limit
    · simp [hnil, hfits]
    · simp [hnil, hfits]

theorem ending_last (h : 10 ∉ line) :
    ending limit line = if line.length ≤ limit then .finished else .closed := by
  unfold ending
  rw [frames_last h]
  by_cases hnil : line = []
  · simp [hnil]
  · simp [hnil]

theorem readFrame_last_rest (h : 10 ∉ line) (hfits : line.length ≤ limit) :
    (readFrame limit line).2 = [] := by
  unfold readFrame
  rw [readline_last h, take_of_length_le (by omega), drop_eq_nil_of_le (by omega)]
  dsimp only
  by_cases hnil : line = []
  · rw [hnil]
    rfl
  · rw [finishFrame, if_neg hnil, if_neg (getLast_ne_newline h), if_neg (by omega), bounded,
      if_neg (by omega)]

theorem readFrames_stop {outcome : Frame} (h : (readFrame limit stream).1 = outcome)
    (hstop : ∀ bytes, outcome ≠ .line bytes) : readFrames limit (n + 1) stream = [outcome] := by
  rw [readFrames]
  split
  next bytes rest heq =>
    rw [heq] at h
    exact absurd h.symm (hstop bytes)
  next heq =>
    rw [heq] at h
    rw [← h]

theorem readFrames_nil (limit n : ℕ) : readFrames limit n [] = [Frame.finished].take n := by
  cases n with
  | zero => rfl
  | succ n =>
    have hread := readFrame_last limit (not_mem_nil (a := 10))
    rw [readFrames_stop hread (by simp)]
    simp

theorem readFrames_next {bytes : List UInt8} (h : readFrame limit stream = (.line bytes, rest)) :
    readFrames limit (n + 1) stream = .line bytes :: readFrames limit n rest := by
  rw [readFrames, h]

theorem readFrames_eq (limit n : ℕ) (stream : List UInt8) :
    readFrames limit n stream =
      ((goodFrames limit stream).map Frame.line ++ [ending limit stream]).take n := by
  -- the induction is on the calls; each consumes one line of the stream
  induction n generalizing stream with
  | zero => rfl
  | succ n ih =>
    obtain h | ⟨line, rest, h, rfl⟩ := stream_cases stream
    · have hread := readFrame_last limit h
      rw [goodFrames_last h, ending_last h]
      by_cases hnil : stream = []
      · rw [hnil]
        exact readFrames_nil limit (n + 1)
      · by_cases hfits : stream.length ≤ limit
        · rw [if_neg hnil, if_pos hfits] at hread
          have hrest := readFrame_last_rest h hfits
          rw [readFrames_next (Prod.ext hread hrest), if_pos ⟨hnil, hfits⟩, if_pos hfits,
            readFrames_nil]
          rfl
        · rw [if_neg hnil, if_neg hfits] at hread
          rw [readFrames_stop hread (by simp), if_neg (fun hboth => hfits hboth.2), if_neg hfits]
          simp
    · have hread := readFrame_line limit h rest
      rw [goodFrames_line h, ending_line h]
      by_cases hfits : (dropReturn line).length ≤ limit
      · rw [if_pos hfits] at hread
        rw [readFrames_next hread, ih rest, if_pos hfits, if_pos hfits]
        rfl
      · rw [if_neg hfits] at hread
        rw [readFrames_stop hread (by simp), if_neg hfits, if_neg hfits]
        simp

/-- **Every run of calls.** For every stream and every limit, the outcomes of any
number of calls of `_read_frame` are the frames of the stream in order up to the
first one longer than the limit, and then `None` or, at such a frame,
`ProtocolClosed`; and a frame of exactly `limit` bytes that ends in a carriage
return and a newline is returned, with the stream left after that newline. -/
theorem read_frames_exact (limit : ℕ) (stream : List UInt8) :
    (∀ n, readFrames limit n stream =
      ((goodFrames limit stream).map Frame.line ++ [ending limit stream]).take n) ∧
    (∀ content rest, 10 ∉ content → content.length = limit →
      readFrame limit (content ++ 13 :: 10 :: rest) = (.line content, rest)) := by
  constructor
  · intro n
    exact readFrames_eq limit n stream
  · intro content rest hcontent hlength
    have hline : 10 ∉ content ++ [13] := by
      simp [hcontent]
    have hdrop : dropReturn (content ++ [13]) = content := by
      simp [dropReturn]
    have hread := readFrame_line limit hline rest
    rw [hdrop, if_pos (by omega)] at hread
    rw [← hread]
    simp

theorem read_frames_exact_sample :
    readFrames 1 9 [97, 13, 10, 98, 99] = [.line [97], .closed] ∧
      readFrame 1 ([97] ++ 13 :: 10 :: [98, 99]) = (.line [97], [98, 99]) := by
  refine ⟨?_, (read_frames_exact 1 []).2 [97] [98, 99] (by decide) rfl⟩
  decide

/-! ### The receive loop -/

/-- **The receive loop** decodes the good frames that are not blank, in order, once it
has taken enough turns to reach the end, and nothing in the turns after. -/
theorem received_eq (limit n : ℕ) (stream : List UInt8) :
    received limit ((goodFrames limit stream).length + 1 + n) stream =
      (goodFrames limit stream).filter (!isBlank ·) := by
  unfold received
  rw [readFrames_eq, take_of_length_le (by simp), filterMap_append, filterMap_map]
  have hlast : [ending limit stream].filterMap (fun outcome =>
      match outcome with
      | .line bytes => if isBlank bytes then none else some bytes
      | _ => none) = [] := by
    unfold ending
    by_cases hall : ∀ frame ∈ frames stream, frame.length ≤ limit
    · rw [if_pos hall]
      rfl
    · rw [if_neg hall]
      rfl
  rw [hlast, append_nil]
  induction goodFrames limit stream with
  | nil => rfl
  | cons frame rest ih =>
    by_cases hblank : isBlank frame = true
    · simpa [hblank] using ih
    · simpa [hblank] using ih

end FoldGPT.ExecServer
