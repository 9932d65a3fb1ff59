import Mathlib.Data.List.Basic

/-!
# Base64

The standard alphabet with padding, as `base64.b64encode` writes it and as
`base64.b64decode(..., validate=True)` reads it back, since Python 3.11 in its strict
mode. The decoder follows the reference implementation character by character: it
keeps the position inside the group of four and the bits left over, ignores a pad that
cannot end a group, and ends with the pad that does.

* `decode_encode`: decoding what was encoded gives the bytes back.
-/

namespace FoldGPT.Lib.Base64

/-- The digit of a six-bit value: `A`–`Z`, `a`–`z`, `0`–`9`, `+`, `/`. -/
def digit (n : Nat) : Char :=
  if n < 26 then Char.ofNat (n + 65)
  else if n < 52 then Char.ofNat (n + 71)
  else if n < 62 then Char.ofNat (n - 4)
  else if n = 62 then '+' else '/'

/-- The six-bit value of a digit. -/
def value (c : Char) : Option Nat :=
  let k := c.toNat
  if 65 ≤ k ∧ k ≤ 90 then some (k - 65)
  else if 97 ≤ k ∧ k ≤ 122 then some (k - 71)
  else if 48 ≤ k ∧ k ≤ 57 then some (k + 4)
  else if k = 43 then some 62
  else if k = 47 then some 63 else none

variable {n : Nat}

theorem value_digit (h : n < 64) : value (digit n) = some n := by
  have key : ∀ k : Fin 64, value (digit k) = some k.val := by decide +kernel
  exact key ⟨n, h⟩

theorem digit_ne_pad (h : n < 64) : digit n ≠ '=' := by
  have key : ∀ k : Fin 64, digit k ≠ '=' := by decide +kernel
  exact key ⟨n, h⟩

/-- `b64encode`. -/
def encode : List UInt8 → List Char
  | [] => []
  | [a] => [digit (a.toNat / 4), digit (a.toNat % 4 * 16), '=', '=']
  | [a, b] =>
    [digit (a.toNat / 4), digit (a.toNat % 4 * 16 + b.toNat / 16), digit (b.toNat % 16 * 4), '=']
  | a :: b :: c :: rest =>
    digit (a.toNat / 4) :: digit (a.toNat % 4 * 16 + b.toNat / 16) ::
      digit (b.toNat % 16 * 4 + c.toNat / 64) :: digit (c.toNat % 64) :: encode rest

/-- The decoder's loop: the position in the group, the bits left over and the
pads seen since the last digit. -/
def decodeFrom (quad left pads : Nat) : List Char → Option (List UInt8)
  | [] => if quad = 0 then some [] else none
  | c :: rest =>
    if c = '=' then
      if 2 ≤ quad then
        if 4 ≤ quad + (pads + 1) then if rest = [] then some [] else none
        else decodeFrom quad left (pads + 1) rest
      else decodeFrom quad left pads rest
    else
      match value c, quad with
      | none, _ => decodeFrom quad left pads rest
      | some v, 0 => decodeFrom 1 v 0 rest
      | some v, 1 => (decodeFrom 2 (v % 16) 0 rest).map (UInt8.ofNat (left * 4 + v / 16) :: ·)
      | some v, 2 => (decodeFrom 3 (v % 4) 0 rest).map (UInt8.ofNat (left * 16 + v / 4) :: ·)
      | some v, _ => (decodeFrom 0 0 0 rest).map (UInt8.ofNat (left * 64 + v) :: ·)

/-- Digits, then pads: nothing else is allowed, and no digit after a pad. -/
def validText (s : List Char) : Bool :=
  (s.dropWhile fun c => (value c).isSome).all (· == '=')

/-- `b64decode(s, validate=True)`; `none` is `binascii.Error`. -/
def decode (s : List Char) : Option (List UInt8) :=
  if s.head? ≠ some '=' ∧ validText s then decodeFrom 0 0 0 s else none

/-! ### What was encoded is decoded -/

variable {left pads : Nat}

attribute [local simp] encode decodeFrom

theorem decodeFrom_zero (h : n < 64) (rest : List Char) :
    decodeFrom 0 left pads (digit n :: rest) = decodeFrom 1 n 0 rest := by
  simp [digit_ne_pad h, value_digit h]

theorem decodeFrom_one (h : n < 64) (rest : List Char) :
    decodeFrom 1 left pads (digit n :: rest) =
      (decodeFrom 2 (n % 16) 0 rest).map (UInt8.ofNat (left * 4 + n / 16) :: ·) := by
  simp [digit_ne_pad h, value_digit h]

theorem decodeFrom_two (h : n < 64) (rest : List Char) :
    decodeFrom 2 left pads (digit n :: rest) =
      (decodeFrom 3 (n % 4) 0 rest).map (UInt8.ofNat (left * 16 + n / 4) :: ·) := by
  simp [digit_ne_pad h, value_digit h]

theorem decodeFrom_three (h : n < 64) (rest : List Char) :
    decodeFrom 3 left pads (digit n :: rest) =
      (decodeFrom 0 0 0 rest).map (UInt8.ofNat (left * 64 + n) :: ·) := by
  simp [digit_ne_pad h, value_digit h]

theorem ofNat_eq {a : UInt8} (h : n = a.toNat) : UInt8.ofNat n = a := by
  subst h
  simp

theorem decodeFrom_encode : ∀ bytes : List UInt8, decodeFrom 0 0 0 (encode bytes) = some bytes
  | [] => rfl
  | [a] => by
    have ha := a.toNat_lt
    rw [encode, decodeFrom_zero (by omega), decodeFrom_one (by omega)]
    simp only [decodeFrom, if_true, Nat.le_refl, Nat.reduceAdd, Nat.reduceLeDiff, if_false,
      Option.map_some]
    rw [ofNat_eq (a := a) (by omega)]
  | [a, b] => by
    have ha := a.toNat_lt
    have hb := b.toNat_lt
    rw [encode, decodeFrom_zero (by omega), decodeFrom_one (by omega), decodeFrom_two (by omega)]
    simp only [decodeFrom, if_true, Nat.reduceAdd, Nat.reduceLeDiff, Option.map_some]
    rw [ofNat_eq (a := a) (by omega), ofNat_eq (a := b) (by omega)]
  | a :: b :: c :: rest => by
    have ha := a.toNat_lt
    have hb := b.toNat_lt
    have hc := c.toNat_lt
    rw [encode, decodeFrom_zero (by omega), decodeFrom_one (by omega), decodeFrom_two (by omega),
      decodeFrom_three (by omega), decodeFrom_encode rest]
    simp only [Option.map_some]
    rw [ofNat_eq (a := a) (by omega), ofNat_eq (a := b) (by omega), ofNat_eq (a := c) (by omega)]

theorem validText_cons (h : n < 64) (rest : List Char) :
    validText (digit n :: rest) = validText rest := by
  simp [validText, value_digit h]

theorem validText_encode : ∀ bytes : List UInt8, validText (encode bytes) = true
  | [] => rfl
  | [a] => by
    have ha := a.toNat_lt
    rw [encode, validText_cons (by omega), validText_cons (by omega)]
    decide
  | [a, b] => by
    have ha := a.toNat_lt
    have hb := b.toNat_lt
    rw [encode, validText_cons (by omega), validText_cons (by omega), validText_cons (by omega)]
    decide
  | a :: b :: c :: rest => by
    have ha := a.toNat_lt
    have hb := b.toNat_lt
    have hc := c.toNat_lt
    rw [encode, validText_cons (by omega), validText_cons (by omega), validText_cons (by omega),
      validText_cons (by omega), validText_encode rest]

/-- **Decoding what was encoded gives the bytes back.** -/
theorem decode_encode (bytes : List UInt8) : decode (encode bytes) = some bytes := by
  have hhead : (encode bytes).head? ≠ some '=' := by
    match bytes with
    | [] => simp
    | [a] | [a, _] | a :: _ :: _ :: _ =>
      have ha := a.toNat_lt
      simpa using digit_ne_pad (n := a.toNat / 4) (by omega)
  rw [decode, if_pos ⟨hhead, validText_encode bytes⟩, decodeFrom_encode]

theorem length_encode : ∀ bytes : List UInt8, (encode bytes).length = (bytes.length + 2) / 3 * 4
  | [] => rfl
  | [_] => by simp
  | [_, _] => by simp
  | _ :: _ :: _ :: rest => by
    simp only [encode, List.length_cons, length_encode rest]
    omega

end FoldGPT.Lib.Base64
