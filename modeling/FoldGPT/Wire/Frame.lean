import FoldGPT.Lib.Checks
import FoldGPT.Lib.Encoding
import FoldGPT.Lib.Reader

/-!
# Length-prefixed strings of the launch envelopes

The supervisor writes every string of a sealed launch envelope with `frame`; the native runners
read it back with their function `string`, the same text in all three of them.
-/

namespace FoldGPT.Wire

open FoldGPT.Lib FoldGPT.Lib.Encoding FoldGPT.Lib.Reader

abbrev Text := List Char

abbrev Bytes := List UInt8

/-- What both sides ask of a string: no NUL byte, at most 65536 bytes. -/
structure Framed (data : Bytes) : Prop where
  nul : 0 ∉ data
  bound : data.length ≤ 65536

/-- A string with its length in front of it. -/
def packed (data : Bytes) : Bytes := le 4 data.length ++ data

/-- `frame`. -/
def frame (value : Text) : Except String Bytes := do
  let data := utf8Encode value
  require (!data.contains 0 && data.length ≤ 65536) "Native envelope string is outside its bounds"
  pure (le 4 data.length ++ data)

theorem frame_eq_ok {value : Text} {bytes : Bytes} : frame value = .ok bytes ↔
    Framed (utf8Encode value) ∧ bytes = packed (utf8Encode value) := by
  simp only [frame, Lib.bind_eq_ok, require_eq_ok, Lib.pure_eq_ok, exists_unit, Bool.and_eq_true,
    Bool.not_eq_true', List.contains_eq_mem, decide_eq_false_iff_not, decide_eq_true_eq]
  constructor
  · rintro ⟨⟨hnul, hbound⟩, h⟩
    exact ⟨⟨hnul, hbound⟩, h.symm⟩
  · rintro ⟨hframed, h⟩
    exact ⟨⟨hframed.nul, hframed.bound⟩, h.symm⟩

theorem mapM_frame_eq_ok {values : List Text} {frames : List Bytes} :
    values.mapM frame = .ok frames ↔ (∀ value ∈ values, Framed (utf8Encode value)) ∧
      frames = values.map fun value => packed (utf8Encode value) := by
  induction values generalizing frames with
  | nil =>
    rw [List.mapM_nil, Lib.pure_eq_ok]
    simp [eq_comm]
  | cons value values ih =>
    simp only [List.mapM_cons, Lib.bind_eq_ok, Lib.pure_eq_ok, frame_eq_ok, ih, List.forall_mem_cons,
      List.map_cons]
    constructor
    · rintro ⟨_, ⟨hvalue, rfl⟩, _, ⟨hvalues, rfl⟩, rfl⟩
      exact ⟨⟨hvalue, hvalues⟩, rfl⟩
    · rintro ⟨⟨hvalue, hvalues⟩, rfl⟩
      exact ⟨_, ⟨hvalue, rfl⟩, _, ⟨hvalues, rfl⟩, rfl⟩

/-! ### The reader of the runners -/

variable {ε : Type} {input rest : Bytes}

/-- The body of `string` behind the length. -/
def content (length : Nat) : Reader ε (Option Bytes) := do
  let left ← remaining
  if 65536 < length ∨ left < length then pure none
  else
    -- `memchr` looks at the bytes before the cursor moves
    let data ← peek length
    if 0 ∈ data then pure none
    else
      let data ← copy length
      pure (some data)

/-- `string`: `none` is the null pointer, with the cursor where the function left it. -/
def string : Reader ε (Option Bytes) := do
  let left ← remaining
  if left < 4 then pure none
  else
    let length ← word 4
    content length

theorem content_eq_ok {length : Nat} {data : Bytes} :
    (content length : Reader ε _) input = .ok (some data, rest) ↔
      Framed data ∧ data.length = length ∧ input = data ++ rest := by
  simp only [content, Reader.bind_eq_ok, remaining_eq_ok]
  constructor
  · rintro ⟨left, mid, ⟨rfl, rfl⟩, h⟩
    split at h
    · simp [Reader.pure_eq_ok] at h
    next hbound =>
      simp only [Reader.bind_eq_ok, peek_eq_ok] at h
      obtain ⟨found, mid, ⟨hfound, hprefix, rfl⟩, h⟩ := h
      split at h
      · simp [Reader.pure_eq_ok] at h
      next hnul =>
        simp only [Reader.bind_eq_ok, copy_eq_ok, Reader.pure_eq_ok, Option.some.injEq] at h
        obtain ⟨copied, _, ⟨hlen, rfl⟩, rfl, rfl⟩ := h
        have hsame : found = copied := by
          rw [List.prefix_iff_eq_take.mp hprefix, hfound, ← hlen, List.take_left]
        exact ⟨⟨hsame ▸ hnul, by omega⟩, hlen, rfl⟩
  · rintro ⟨hframed, rfl, rfl⟩
    refine ⟨_, _, ⟨rfl, rfl⟩, ?_⟩
    have hbound : ¬ (65536 < data.length ∨ (data ++ rest).length < data.length) := by
      have := hframed.bound
      rw [List.length_append]
      omega
    rw [if_neg hbound]
    simp only [Reader.bind_eq_ok, peek_eq_ok]
    refine ⟨data, data ++ rest, ⟨rfl, List.prefix_append _ _, rfl⟩, ?_⟩
    rw [if_neg hframed.nul]
    simp only [Reader.bind_eq_ok, copy_eq_ok, Reader.pure_eq_ok, Option.some.injEq]
    exact ⟨data, rest, ⟨rfl, rfl⟩, rfl, rfl⟩

/-- **The reader of strings** takes exactly the packed ones. -/
theorem string_eq_ok {data : Bytes} :
    (string : Reader ε _) input = .ok (some data, rest) ↔
      Framed data ∧ input = packed data ++ rest := by
  simp only [string, Reader.bind_eq_ok, remaining_eq_ok]
  constructor
  · rintro ⟨left, mid, ⟨rfl, rfl⟩, h⟩
    split at h
    · simp [Reader.pure_eq_ok] at h
    · simp only [Reader.bind_eq_ok, word_eq_ok, content_eq_ok] at h
      obtain ⟨_, _, ⟨-, rfl⟩, hframed, rfl, rfl⟩ := h
      exact ⟨hframed, by rw [packed, List.append_assoc]⟩
  · rintro ⟨hframed, rfl⟩
    refine ⟨_, _, ⟨rfl, rfl⟩, ?_⟩
    have hlen : ¬ (packed data ++ rest).length < 4 := by
      rw [packed, List.length_append, List.length_append, length_le]
      omega
    rw [if_neg hlen]
    simp only [Reader.bind_eq_ok, word_eq_ok, content_eq_ok]
    have hbound := hframed.bound
    refine ⟨data.length, data ++ rest, ⟨by omega, ?_⟩, hframed, rfl, rfl⟩
    rw [packed, List.append_assoc]

theorem content_inside (length : Nat) : Inside (content length : Reader ε _) input := by
  refine remaining_inside.bind fun left mid hleft => ?_
  obtain ⟨rfl, rfl⟩ := remaining_eq_ok.mp hleft
  split
  · exact pure_inside none
  next hbound =>
    have hlen : length ≤ input.length := by omega
    refine (peek_inside hlen).bind fun data mid hdata => ?_
    obtain ⟨-, -, rfl⟩ := peek_eq_ok.mp hdata
    split
    · exact pure_inside none
    · exact (copy_inside hlen).bind fun _ _ _ => pure_inside _

theorem string_inside : Inside (string : Reader ε _) input := by
  refine remaining_inside.bind fun left mid hleft => ?_
  obtain ⟨rfl, rfl⟩ := remaining_eq_ok.mp hleft
  split
  · exact pure_inside none
  next hlen => exact (word_inside (by omega)).bind fun length _ _ => content_inside length

/-- A string, or the error when there is none. -/
def stringOr (error : ε) : Reader ε Bytes := do
  let value ← string
  given value error

theorem stringOr_eq_ok {error : ε} {value : Bytes} :
    stringOr error input = .ok (value, rest) ↔ Framed value ∧ input = packed value ++ rest := by
  simp only [stringOr, Reader.bind_eq_ok, given_eq_ok]
  constructor
  · rintro ⟨_, mid, hstring, rfl, rfl⟩
    exact string_eq_ok.mp hstring
  · exact fun h => ⟨some value, rest, string_eq_ok.mpr h, rfl, rfl⟩

theorem stringOr_inside {error : ε} : Inside (stringOr error) input :=
  string_inside.bind fun _ _ _ => given_inside

/-! ### C strings -/

/-- The offset of `strchr(text, c)`, if there is one. -/
def strchr (c : UInt8) : Bytes → Option Nat
  | [] => none
  | b :: text => if b = c then some 0 else (strchr c text).map (· + 1)

/-- `!strncmp(a, b, n)` for texts without NUL bytes. -/
def strncmpZero : Nat → Bytes → Bytes → Bool
  | 0, _, _ => true
  | _ + 1, [], [] => true
  | n + 1, a :: as, b :: bs => a = b && strncmpZero n as bs
  | _ + 1, _, _ => false

/-- `text[0]`, the terminating NUL for an empty text. -/
def first (text : Bytes) : UInt8 := text.headD 0

theorem strchr_append {c : UInt8} {before : Bytes} (h : c ∉ before) (after : Bytes) :
    strchr c (before ++ c :: after) = some before.length := by
  induction before with
  | nil => simp [strchr]
  | cons b before ih =>
    obtain ⟨hb, hbefore⟩ := not_or.mp fun hmem => h (List.mem_cons.mpr hmem)
    rw [List.cons_append, strchr, if_neg (Ne.symm hb), ih hbefore]
    rfl

theorem strncmpZero_iff {n : Nat} {a b : Bytes} :
    strncmpZero n a b = true ↔ a.take n = b.take n := by
  induction n generalizing a b with
  | zero => simp [strncmpZero]
  | succ n ih =>
    cases a with
    | nil => cases b <;> simp [strncmpZero]
    | cons x a =>
      cases b with
      | nil => simp [strncmpZero]
      | cons y b => simp [strncmpZero, ih]

end FoldGPT.Wire
