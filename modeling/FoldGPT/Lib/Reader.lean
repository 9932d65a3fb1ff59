import Mathlib.Algebra.GroupWithZero.Nat
import Mathlib.Algebra.Ring.Int.Defs
import Mathlib.Data.List.Basic

/-!
# Readers of a byte buffer

A reader walks a cursor over a buffer it does not own. Its state is what lies between the
cursor and the end; copying more bytes than there are is the fault `outside`, which a C program
would not notice. Every reader has one equivalence that says which inputs it accepts and what
it leaves, so a whole format is characterised by rewriting.

* `word_eq_ok`: a little-endian word is read from exactly its own bytes.
* `collect_eq_ok`: a counted loop whose step may look at the items before it.
* `Inside`: no byte outside the buffer is read; `Inside.bind`, `collect_inside`.
-/

namespace FoldGPT.Lib

open List

/-- Why a reader stopped. -/
inductive Fault (ε : Type)
  | refused (error : ε)
  | outside
  deriving DecidableEq

/-- The state is what lies between the cursor and the end of the buffer. -/
abbrev Reader (ε α : Type) := StateT (List UInt8) (Except (Fault ε)) α

namespace Reader

variable {ε α β : Type}

def refuse (error : ε) : Reader ε α := fun _ => .error (.refused error)

/-- Refuse unless the condition holds. -/
def ensure (condition : Bool) (error : ε) : Reader ε Unit :=
  if condition then pure () else refuse error

/-- Refuse an absent value. -/
def given (value : Option α) (error : ε) : Reader ε α :=
  match value with
  | some a => pure a
  | none => refuse error

/-- `end - cursor`. -/
def remaining : Reader ε Nat := fun input => .ok (input.length, input)

/-- The next `n` bytes; the cursor stays. -/
def peek (n : Nat) : Reader ε (List UInt8) := fun input =>
  if n ≤ input.length then .ok (input.take n, input) else .error .outside

/-- `memcpy` of the next `n` bytes; the cursor moves behind them. -/
def copy (n : Nat) : Reader ε (List UInt8) := fun input =>
  if n ≤ input.length then .ok (input.take n, input.drop n) else .error .outside

/-! ### Accepted inputs -/

variable {input rest : List UInt8}

variable {p : Reader ε α}

theorem bind_eq_ok {f : α → Reader ε β} {b : β} :
    (p >>= f) input = .ok (b, rest) ↔
      ∃ a mid, p input = .ok (a, mid) ∧ f a mid = .ok (b, rest) := by
  show (p input >>= fun x => f x.1 x.2) = .ok (b, rest) ↔ _
  cases p input with
  | error e => simp [bind, Except.bind]
  | ok x =>
    obtain ⟨a, mid⟩ := x
    simp [bind, Except.bind]

theorem pure_eq_ok {a b : α} : (pure a : Reader ε α) input = .ok (b, rest) ↔
    a = b ∧ input = rest := by
  show Except.ok (a, input) = .ok (b, rest) ↔ _
  simp

variable {error : ε}

theorem ensure_eq_ok {condition : Bool} {u : Unit} :
    ensure condition error input = .ok (u, rest) ↔ condition = true ∧ input = rest := by
  cases condition with
  | true => simp [ensure, pure_eq_ok]
  | false => simp [ensure, refuse]

theorem given_eq_ok {value : Option α} {a : α} :
    given value error input = .ok (a, rest) ↔ value = some a ∧ input = rest := by
  cases value with
  | some b => simp [given, pure_eq_ok]
  | none => simp [given, refuse]

variable {n : Nat}

theorem remaining_eq_ok : (remaining : Reader ε Nat) input = .ok (n, rest) ↔
    input.length = n ∧ input = rest := by
  simp [remaining]

theorem peek_eq_ok {bytes : List UInt8} :
    (peek n : Reader ε _) input = .ok (bytes, rest) ↔
      bytes.length = n ∧ bytes <+: input ∧ input = rest := by
  unfold peek
  split
  next hlen =>
    simp only [Except.ok.injEq, Prod.mk.injEq]
    constructor
    · rintro ⟨rfl, rfl⟩
      exact ⟨length_take_of_le hlen, take_prefix n input, rfl⟩
    · rintro ⟨rfl, htake, rfl⟩
      exact ⟨(prefix_iff_eq_take.mp htake).symm, rfl⟩
  next hlen =>
    refine iff_of_false nofun ?_
    rintro ⟨rfl, htake, -⟩
    exact hlen htake.length_le

theorem copy_eq_ok {bytes : List UInt8} :
    (copy n : Reader ε _) input = .ok (bytes, rest) ↔
      bytes.length = n ∧ input = bytes ++ rest := by
  unfold copy
  split
  next hlen =>
    simp only [Except.ok.injEq, Prod.mk.injEq]
    constructor
    · rintro ⟨rfl, rfl⟩
      exact ⟨length_take_of_le hlen, (take_append_drop n input).symm⟩
    · rintro ⟨rfl, rfl⟩
      exact ⟨take_left, drop_left⟩
  next hlen =>
    refine iff_of_false nofun ?_
    rintro ⟨rfl, rfl⟩
    exact hlen (by simp)

/-! ### Little-endian words -/

/-- The `n` low bytes of a number, the lowest first. -/
def le : Nat → Nat → List UInt8
  | 0, _ => []
  | n + 1, value => UInt8.ofNat value :: le n (value / 256)

def ofLe : List UInt8 → Nat
  | [] => 0
  | b :: bytes => b.toNat + 256 * ofLe bytes

@[simp] theorem length_le (n value : Nat) : (le n value).length = n := by
  induction n generalizing value with
  | zero => rfl
  | succ n ih => rw [le, length_cons, ih]

theorem ofLe_lt (bytes : List UInt8) : ofLe bytes < 256 ^ bytes.length := by
  induction bytes with
  | nil => decide
  | cons b bytes ih =>
    have hb : b.toNat < 256 := b.toNat_lt
    rw [ofLe, length_cons, Nat.pow_succ]
    omega

theorem ofLe_le {value : Nat} (h : value < 256 ^ n) : ofLe (le n value) = value := by
  induction n generalizing value with
  | zero => rw [le, ofLe]; omega
  | succ n ih =>
    have hdiv : value / 256 < 256 ^ n := (Nat.div_lt_iff_lt_mul (by decide)).mpr h
    rw [le, ofLe, ih hdiv, UInt8.toNat_ofNat']
    omega

theorem le_ofLe (bytes : List UInt8) : le bytes.length (ofLe bytes) = bytes := by
  induction bytes with
  | nil => rfl
  | cons b bytes ih =>
    have hb : b.toNat < 256 := b.toNat_lt
    have hdiv : (b.toNat + 256 * ofLe bytes) / 256 = ofLe bytes := by omega
    have hlow : UInt8.ofNat (b.toNat + 256 * ofLe bytes) = b := by
      apply UInt8.toNat_inj.mp
      rw [UInt8.toNat_ofNat']
      omega
    rw [length_cons, ofLe, le, hdiv, ih, hlow]

/-- `memcpy` into an unsigned word of `n` bytes. -/
def word (n : Nat) : Reader ε Nat := do
  let bytes ← copy n
  pure (ofLe bytes)

/-- **A word** is read from exactly its own bytes. -/
theorem word_eq_ok {value : Nat} : (word n : Reader ε Nat) input = .ok (value, rest) ↔
    value < 256 ^ n ∧ input = le n value ++ rest := by
  simp only [word, bind_eq_ok, copy_eq_ok, pure_eq_ok]
  constructor
  · rintro ⟨bytes, mid, ⟨rfl, rfl⟩, rfl, rfl⟩
    exact ⟨ofLe_lt bytes, by rw [le_ofLe]⟩
  · rintro ⟨hvalue, rfl⟩
    exact ⟨le n value, rest, ⟨length_le n value, rfl⟩, ofLe_le hvalue, rfl⟩

/-! ### Counted loops -/

/-- `n` items, each read with the earlier ones at hand. -/
def collect (step : List α → Reader ε α) : Nat → List α → Reader ε (List α)
  | 0, before => pure before
  | n + 1, before => do
    let item ← step before
    collect step n (before ++ [item])

/-- Every item is admitted after the ones before it. -/
def Admitted (admits : List α → α → Prop) : List α → List α → Prop
  | _, [] => True
  | before, item :: items => admits before item ∧ Admitted admits (before ++ [item]) items

variable {before : List α}

/-- **A counted loop.** When a step reads the bytes of an admitted item, the loop reads the
bytes of as many admitted items, one behind the other. -/
theorem collect_eq_ok {step : List α → Reader ε α} {admits : List α → α → Prop}
    {encode : α → List UInt8}
    (hstep : ∀ before input item rest, step before input = .ok (item, rest) ↔
      admits before item ∧ input = encode item ++ rest) {all : List α} :
    collect step n before input = .ok (all, rest) ↔
      ∃ items, all = before ++ items ∧ items.length = n ∧ Admitted admits before items ∧
        input = items.flatMap encode ++ rest := by
  induction n generalizing before input with
  | zero =>
    rw [collect, pure_eq_ok]
    constructor
    · rintro ⟨rfl, rfl⟩
      exact ⟨[], (append_nil _).symm, rfl, trivial, rfl⟩
    · rintro ⟨items, rfl, hlen, -, rfl⟩
      obtain rfl := length_eq_zero_iff.mp hlen
      exact ⟨(append_nil _).symm, rfl⟩
  | succ n ih =>
    simp only [collect, bind_eq_ok, hstep, ih]
    constructor
    · rintro ⟨item, mid, ⟨hadmits, rfl⟩, items, rfl, hlen, hrest, rfl⟩
      refine ⟨item :: items, ?_, congrArg (· + 1) hlen, ⟨hadmits, hrest⟩, ?_⟩
      · rw [append_assoc, singleton_append]
      · rw [flatMap_cons, append_assoc]
    · rintro ⟨items, rfl, hlen, hadmitted, rfl⟩
      cases items with
      | nil => cases hlen
      | cons item items =>
        refine ⟨item, items.flatMap encode ++ rest, ⟨hadmitted.1, ?_⟩, items, ?_,
          Nat.succ.inj hlen, hadmitted.2, rfl⟩
        · rw [flatMap_cons, append_assoc]
        · rw [append_assoc, singleton_append]

/-- A loop whose step does not look back. -/
def times (n : Nat) (p : Reader ε α) : Reader ε (List α) := collect (fun _ => p) n []

theorem admitted_const {valid : α → Prop} {items : List α} :
    Admitted (fun _ => valid) before items ↔ ∀ item ∈ items, valid item := by
  induction items generalizing before with
  | nil => simp [Admitted]
  | cons item items ih => rw [Admitted, ih, forall_mem_cons]

theorem times_eq_ok {valid : α → Prop} {encode : α → List UInt8}
    (hp : ∀ input item rest, p input = .ok (item, rest) ↔ valid item ∧ input = encode item ++ rest)
    {items : List α} : times n p input = .ok (items, rest) ↔
      items.length = n ∧ (∀ item ∈ items, valid item) ∧ input = items.flatMap encode ++ rest := by
  rw [times, collect_eq_ok fun _ => hp]
  simp only [admitted_const, nil_append]
  constructor
  · rintro ⟨_, rfl, h⟩
    exact h
  · exact fun h => ⟨items, rfl, h⟩

theorem words_eq_ok {count : Nat} {words : List Nat} :
    (times count (word n) : Reader ε _) input = .ok (words, rest) ↔
      words.length = count ∧ (∀ value ∈ words, value < 256 ^ n) ∧
        input = words.flatMap (le n) ++ rest :=
  times_eq_ok fun _ _ _ => word_eq_ok

@[simp] theorem length_flatMap_le (n : Nat) (words : List Nat) :
    (words.flatMap (le n)).length = words.length * n := by
  simp [length_flatMap]

/-! ### Nothing outside the buffer -/

/-- The reader does not look outside the buffer on this input. -/
def Inside (p : Reader ε α) (input : List UInt8) : Prop := p input ≠ .error .outside

theorem Inside.bind {f : α → Reader ε β} (hp : Inside p input)
    (hf : ∀ a mid, p input = .ok (a, mid) → Inside (f a) mid) : Inside (p >>= f) input := by
  show (p input >>= fun x => f x.1 x.2) ≠ .error .outside
  cases hrun : p input with
  | error e => exact fun h => hp (hrun.trans (congrArg _ (Except.error.inj h)))
  | ok x => exact hf x.1 x.2 hrun

theorem pure_inside (a : α) : Inside (pure a : Reader ε α) input := nofun

theorem ensure_inside {condition : Bool} : Inside (ensure condition error) input := by
  cases condition with
  | true => exact pure_inside ()
  | false => nofun

theorem given_inside {value : Option α} : Inside (given value error) input := by
  cases value with
  | some a => exact pure_inside a
  | none => nofun

theorem remaining_inside : Inside (remaining : Reader ε Nat) input := nofun

theorem peek_inside (h : n ≤ input.length) : Inside (peek n : Reader ε _) input := by
  rw [Inside, peek, if_pos h]
  nofun

theorem copy_inside (h : n ≤ input.length) : Inside (copy n : Reader ε _) input := by
  rw [Inside, copy, if_pos h]
  nofun

theorem word_inside (h : n ≤ input.length) : Inside (word n : Reader ε _) input :=
  (copy_inside h).bind fun _ _ _ => pure_inside _

theorem collect_inside {step : List α → Reader ε α} (h : ∀ before input, Inside (step before) input) :
    Inside (collect step n before) input := by
  induction n generalizing before input with
  | zero => exact pure_inside before
  | succ n ih => exact (h before input).bind fun _ _ _ => ih

/-- A run of words stays inside when there are bytes for all of them. -/
theorem words_inside {count : Nat} {before : List Nat} (h : count * n ≤ input.length) :
    Inside (collect (fun _ => (word n : Reader ε Nat)) count before) input := by
  induction count generalizing before input with
  | zero => exact pure_inside before
  | succ count ih =>
    rw [Nat.succ_mul] at h
    refine (word_inside (by omega)).bind fun value mid hrun => ih ?_
    obtain ⟨-, rfl⟩ := word_eq_ok.mp hrun
    rw [length_append, length_le] at h
    omega

end Reader

end FoldGPT.Lib
