import Mathlib.Logic.Basic

/-!
# Programs that may die at any call

A program changes a store by calls. An environment answers the calls in turn; where it has no
answer, the process dies, and the store stays as it is. So a death between any two calls is an
environment like every other, and what holds of the store whenever a program dies holds of it at
every instant of every run.

* `Mortal`: the programs, with `call`, `raise`, `handle` and `cleanup`.
* `Meets`: what holds of the store when a program returns, raises or dies, for all environments
  whose answers meet a condition.
* `Meets.bind`, `Meets.call`, `Meets.handle`, `Meets.cleanup`, `Meets.mono`: one rule for every way
  to build a program.
-/

namespace FoldGPT.Lib

/-- What became of a program. -/
inductive Fate (ε α : Type)
  | returned (a : α)
  | raised (e : ε)
  | died
  deriving DecidableEq

/-- The answer to the `t`-th call, or the death of the process before it. -/
abbrev Env (γ : Type) := Nat → Option γ

/-- A program over the store `σ`, from the number of the next call. -/
def Mortal (γ ε σ α : Type) : Type := Env γ → Nat → σ → Fate ε α × Nat × σ

variable {γ ε σ α β : Type}

namespace Mortal

protected def pure (a : α) : Mortal γ ε σ α := fun _ t s => (.returned a, t, s)

protected def bind (m : Mortal γ ε σ α) (f : α → Mortal γ ε σ β) : Mortal γ ε σ β :=
  fun env t s =>
    match m env t s with
    | (.returned a, t, s) => f a env t s
    | (.raised e, t, s) => (.raised e, t, s)
    | (.died, t, s) => (.died, t, s)

instance : Monad (Mortal γ ε σ) where
  pure := Mortal.pure
  bind := Mortal.bind

def raise (e : ε) : Mortal γ ε σ α := fun _ t s => (.raised e, t, s)

/-- Raise unless the condition holds. -/
def demand (condition : Bool) (e : ε) : Mortal γ ε σ Unit :=
  if condition then pure () else raise e

/-- The store; to look at it is no call, since a death there is one before the next call. -/
def look : Mortal γ ε σ σ := fun _ t s => (.returned s, t, s)

/-- A call, with the answer of the environment. -/
def call (f : γ → σ → Except ε α × σ) : Mortal γ ε σ α := fun env t s =>
  match env t with
  | none => (.died, t, s)
  | some c =>
    match f c s with
    | (.ok a, s) => (.returned a, t + 1, s)
    | (.error e, s) => (.raised e, t + 1, s)

/-- `try … except`. -/
def handle (m : Mortal γ ε σ α) (handler : ε → Mortal γ ε σ α) : Mortal γ ε σ α :=
  fun env t s =>
    match m env t s with
    | (.raised e, t, s) => handler e env t s
    | fate => fate

/-- `try … finally`. -/
def cleanup (m : Mortal γ ε σ α) (last : Mortal γ ε σ Unit) : Mortal γ ε σ α :=
  fun env t s =>
    match m env t s with
    | (.returned a, t, s) => Mortal.bind last (fun _ => Mortal.pure a) env t s
    | (.raised e, t, s) => Mortal.bind last (fun _ => raise e) env t s
    | (.died, t, s) => (.died, t, s)

/-- One call for every item: a write that may be cut short leaves an initial piece. -/
def each (f : β → γ → σ → Except ε Unit × σ) : List β → Mortal γ ε σ Unit
  | [] => pure ()
  | b :: rest => do
    call (f b)
    each f rest

/-- The store behind a program. -/
def store (m : Mortal γ ε σ α) (env : Env γ) (s : σ) : σ := (m env 0 s).2.2

/-- What became of a program. -/
def fate (m : Mortal γ ε σ α) (env : Env γ) (s : σ) : Fate ε α := (m env 0 s).1

/-- `R` if the program returned, `E` if it raised, `D` if it died. -/
def Ends (D : σ → Prop) (R : α → σ → Prop) (E : ε → σ → Prop) : Fate ε α × Nat × σ → Prop
  | (.returned a, _, s) => R a s
  | (.raised e, _, s) => E e s
  | (.died, _, s) => D s

/-- Whenever all answers meet `A`, the program from `s` ends with `R` if it returns, with `E` if it
raises, and with `D` if it dies. -/
def Meets (A : Option γ → Prop) (D : σ → Prop) (m : Mortal γ ε σ α) (s : σ) (R : α → σ → Prop)
    (E : ε → σ → Prop) : Prop :=
  ∀ env : Env γ, (∀ t, A (env t)) → ∀ t, Ends D R E (m env t s)

variable {A : Option γ → Prop} {D D' : σ → Prop} {s : σ} {R R' : α → σ → Prop}
  {E E' : ε → σ → Prop} {m : Mortal γ ε σ α}

namespace Meets

theorem pure {a : α} (h : R a s) : Meets A D (pure a : Mortal γ ε σ α) s R E := fun _ _ _ => h

theorem raise {e : ε} (h : E e s) : Meets A D (raise e : Mortal γ ε σ α) s R E := fun _ _ _ => h

theorem look {R : σ → σ → Prop} (h : R s s) : Meets A D (look : Mortal γ ε σ σ) s R E :=
  fun _ _ _ => h

theorem demand {condition : Bool} {e : ε} {R : Unit → σ → Prop} (h : condition = true → R () s)
    (herror : condition = false → E e s) :
    Meets A D (demand condition e : Mortal γ ε σ Unit) s R E := by
  cases condition with
  | true => exact pure (h rfl)
  | false => exact raise (herror rfl)

theorem bind {f : α → Mortal γ ε σ β} {Q : β → σ → Prop} (h : Meets A D m s R E)
    (hnext : ∀ a s, R a s → Meets A D (f a) s Q E) : Meets A D (m >>= f) s Q E := by
  intro env henv t
  have hfirst := h env henv t
  show Ends D Q E (Mortal.bind m f env t s)
  unfold Mortal.bind
  rcases hm : m env t s with ⟨fate, t', s'⟩
  rw [hm] at hfirst
  cases fate with
  | returned a => exact hnext a s' hfirst env henv t'
  | raised e => exact hfirst
  | died => exact hfirst

/-- How a call ends. -/
def Ended (R : α → σ → Prop) (E : ε → σ → Prop) : Except ε α × σ → Prop
  | (.ok a, s) => R a s
  | (.error e, s) => E e s

theorem call {f : γ → σ → Except ε α × σ} (hdie : A none → D s)
    (hend : ∀ c, A (some c) → Ended R E (f c s)) : Meets A D (call f) s R E := by
  intro env henv t
  have hanswer := henv t
  unfold Mortal.call
  cases hc : env t with
  | none =>
    rw [hc] at hanswer
    exact hdie hanswer
  | some c =>
    rw [hc] at hanswer
    have hended := hend c hanswer
    rcases hf : f c s with ⟨result, s'⟩
    dsimp only
    rw [hf] at hended ⊢
    cases result with
    | ok a => exact hended
    | error e => exact hended

theorem handle {handler : ε → Mortal γ ε σ α} {F : ε → σ → Prop} (h : Meets A D m s R F)
    (hhandler : ∀ e s, F e s → Meets A D (handler e) s R E) :
    Meets A D (handle m handler) s R E := by
  intro env henv t
  have hfirst := h env henv t
  unfold Mortal.handle
  rcases hm : m env t s with ⟨fate, t', s'⟩
  rw [hm] at hfirst
  cases fate with
  | returned a => exact hfirst
  | raised e => exact hhandler e s' hfirst env henv t'
  | died => exact hfirst

theorem cleanup {last : Mortal γ ε σ Unit} {F : ε → σ → Prop} {Q : α → σ → Prop}
    (h : Meets A D m s Q F) (hreturned : ∀ a s, Q a s → Meets A D last s (fun _ s => R a s) E)
    (hraised : ∀ e s, F e s → Meets A D last s (fun _ s => E e s) E) :
    Meets A D (cleanup m last) s R E := by
  intro env henv t
  have hfirst := h env henv t
  unfold Mortal.cleanup
  rcases hm : m env t s with ⟨fate, t', s'⟩
  rw [hm] at hfirst
  cases fate with
  | returned a =>
    exact bind (hreturned a s' hfirst) (fun _ s hs => pure hs) env henv t'
  | raised e =>
    exact bind (hraised e s' hfirst) (fun _ s hs => raise hs) env henv t'
  | died => exact hfirst

theorem mono (h : Meets A D m s R E) (hR : ∀ a s, R a s → R' a s) (hE : ∀ e s, E e s → E' e s)
    (hD : ∀ s, D s → D' s) : Meets A D' m s R' E' := by
  intro env henv t
  have hfirst := h env henv t
  rcases hm : m env t s with ⟨fate, t', s'⟩
  rw [hm] at hfirst
  cases fate with
  | returned a => exact hR a s' hfirst
  | raised e => exact hE e s' hfirst
  | died => exact hD s' hfirst

theorem post (h : Meets A D m s R E) (hR : ∀ a s, R a s → R' a s) : Meets A D m s R' E :=
  h.mono hR (fun _ _ hE => hE) fun _ hD => hD

/-- The three ways a program may end. -/
theorem cases (h : Meets A D m s R E) {env : Env γ} (henv : ∀ t, A (env t)) :
    (∃ a, m.fate env s = .returned a ∧ R a (m.store env s)) ∨
      (∃ e, m.fate env s = .raised e ∧ E e (m.store env s)) ∨
      m.fate env s = .died ∧ D (m.store env s) := by
  have hends := h env henv 0
  unfold Mortal.fate Mortal.store
  rcases hm : m env 0 s with ⟨fate, t, s'⟩
  rw [hm] at hends
  cases fate with
  | returned a => exact .inl ⟨a, rfl, hends⟩
  | raised e => exact .inr (.inl ⟨e, rfl, hends⟩)
  | died => exact .inr (.inr ⟨rfl, hends⟩)

theorem store {I : σ → Prop} (h : Meets A I m s (fun _ => I) (fun _ => I)) {env : Env γ}
    (henv : ∀ t, A (env t)) : I (m.store env s) := by
  rcases h.cases henv with ⟨_, -, hI⟩ | ⟨_, -, hI⟩ | ⟨-, hI⟩
  · exact hI
  · exact hI
  · exact hI

theorem each {f : β → γ → σ → Except ε Unit × σ} {I : List β → σ → Prop}
    (hdie : ∀ rest s, I rest s → A none → D s)
    (hend : ∀ b rest s, I (b :: rest) s → ∀ c, A (some c) → Ended (fun _ => I rest) E (f b c s))
    {items : List β} {s : σ} (h : I items s) : Meets A D (each f items) s (fun _ => I []) E := by
  induction items generalizing s with
  | nil => exact pure h
  | cons b rest ih => exact bind (call (hdie _ s h) (hend b rest s h)) fun _ s hs => ih hs

end Meets

end Mortal

end FoldGPT.Lib
