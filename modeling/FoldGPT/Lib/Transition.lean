import Mathlib.Logic.Relation

/-!
# Labelled transition systems

A component that takes step after step is given here as an `LTS`: the states it
may start in and what one labelled step may do. `A.Run ls s` says that `s` is
reached from a start by performing the labels `ls` in order, so a run carries
its whole history and a property of histories is a property of `ls`.

* `Run.invariant`: what holds at the start and is kept by every step holds in
  every state a run reaches.
* `RunOf.invariant`: the same for the runs whose steps all meet a condition on
  the state before the step and its label.
* `exists_run_of_exec`, `exists_runOf_exec`: a run found by evaluating a step function.
-/

namespace FoldGPT.Lib

/-- A labelled transition system over states `S` and labels `L`. -/
structure LTS (S : Type*) (L : Type*) where
  /-- The states a run may start in. -/
  Init : S → Prop
  /-- `Step s l s'`: performing `l` in `s` may lead to `s'`. -/
  Step : S → L → S → Prop

namespace LTS

variable {S L : Type*}

/-- The system of a step function that refuses a label by returning `none`. -/
def ofFun (Init : S → Prop) (step : S → L → Option S) : LTS S L where
  Init := Init
  Step s l s' := step s l = some s'

/-- `A.Run ls s`: performing `ls` in order from a start leads to `s`. -/
inductive Run (A : LTS S L) : List L → S → Prop
  | start {s : S} : A.Init s → Run A [] s
  | next {ls : List L} {s s' : S} {l : L} : Run A ls s → A.Step s l s' → Run A (ls ++ [l]) s'

variable {A : LTS S L}

variable {ls : List L} {s : S}

/-- **The invariant rule**, over the history and the state. -/
theorem Run.invariant {I : List L → S → Prop} (h : A.Run ls s) (hinit : ∀ s, A.Init s → I [] s)
    (hstep : ∀ ls s l s', A.Run ls s → I ls s → A.Step s l s' → I (ls ++ [l]) s') : I ls s := by
  induction h with
  | start hs => exact hinit _ hs
  | next hr hst ih => exact hstep _ _ _ _ hr ih hst

/-- Every step of the run meets `C`, a condition on the state before the step
and on its label. -/
inductive RunOf (A : LTS S L) (C : S → L → Prop) : List L → S → Prop
  | start {s : S} : A.Init s → RunOf A C [] s
  | next {ls : List L} {s s' : S} {l : L} :
      RunOf A C ls s → C s l → A.Step s l s' → RunOf A C (ls ++ [l]) s'

theorem RunOf.run {C : S → L → Prop} (h : A.RunOf C ls s) : A.Run ls s := by
  induction h with
  | start hs => exact .start hs
  | next _ _ hst ih => exact .next ih hst

/-- **The invariant rule for the runs whose steps all meet a condition.** -/
theorem RunOf.invariant {C : S → L → Prop} {I : List L → S → Prop}
    (h : A.RunOf C ls s) (hinit : ∀ s, A.Init s → I [] s)
    (hstep : ∀ ls s l s', I ls s → C s l → A.Step s l s' → I (ls ++ [l]) s') : I ls s := by
  induction h with
  | start hs => exact hinit _ hs
  | next _ hc hst ih => exact hstep _ _ _ _ ih hc hst

/-- Performing the labels in order. -/
def exec (step : S → L → Option S) (s : S) : List L → Option S
  | [] => some s
  | l :: ls => (step s l).bind fun s' => exec step s' ls

variable {step : S → L → Option S} {C : S → L → Prop}

theorem RunOf.exec (hA : ∀ {s l s'}, step s l = some s' → C s l ∧ A.Step s l s')
    (h : A.RunOf C ls s) {ls' : List L} {s' : S} (he : exec step s ls' = some s') :
    A.RunOf C (ls ++ ls') s' := by
  induction ls' generalizing ls s with
  | nil =>
    cases he
    rwa [List.append_nil]
  | cons l rest ih =>
    obtain ⟨next, hstep, hrest⟩ := Option.bind_eq_some_iff.mp he
    have := ih (h.next (hA hstep).1 (hA hstep).2) hrest
    rwa [List.append_assoc] at this

/-- A run whose steps meet a condition, found by evaluation. -/
theorem exists_runOf_exec (hA : ∀ {s l s'}, step s l = some s' → C s l ∧ A.Step s l s')
    (hs : A.Init s) (ls : List L) (P : S → Prop) [DecidablePred P]
    (h : (LTS.exec step s ls).any (fun s => decide (P s)) = true) :
    ∃ s', A.RunOf C ls s' ∧ P s' := by
  cases he : LTS.exec step s ls with
  | none =>
    rw [he] at h
    cases h
  | some s' =>
    rw [he] at h
    exact ⟨s', (RunOf.start hs).exec hA he, of_decide_eq_true h⟩

theorem exists_run_of_exec (hA : ∀ {s l s'}, step s l = some s' → A.Step s l s')
    (hs : A.Init s) (ls : List L) (P : S → Prop) [DecidablePred P]
    (h : (LTS.exec step s ls).any (fun s => decide (P s)) = true) : ∃ s', A.Run ls s' ∧ P s' := by
  obtain ⟨s', hrun, hp⟩ :=
    exists_runOf_exec (C := fun _ _ => True) (fun hst => ⟨trivial, hA hst⟩) hs ls P h
  exact ⟨s', hrun.run, hp⟩

end LTS

end FoldGPT.Lib
