import FoldGPT.Lib.Transition
import Mathlib.Data.Finset.Card

/-!
# The shutdown gate and the exit gate

`RuntimeShutdownGate.java` keeps the service alive until the native part and the workspace of the
current generation have ended; `RuntimeExitGate.java` lets the process exit when no native owner is
unclean. Calls may come in any order and from any generation.

A `Story` is a gate with its calls and their results, so that what a result says about the past can
be stated without the fields of the gate.

Main result: `gates_safe`.
-/

namespace FoldGPT.App

open FoldGPT.Lib List

/-! ### The shutdown gate -/

inductive Action
  | wait
  | stopService
  | restart
  deriving DecidableEq

structure ShutdownGate where
  generation : Nat := 0
  active : Bool := false
  nativeClean : Bool := false
  workspaceExited : Bool := false
  restart : Bool := false
  stopReported : Bool := false
  destroyed : Bool := false
  /-- `cleanupFailure != null`. -/
  cleanupFailure : Bool := false
  deriving DecidableEq

namespace ShutdownGate

inductive Call
  | begin (workspaceRunning : Bool)
  | nativeCompleted (expectedGeneration : Nat) (error : Bool)
  | workspaceExited (expectedGeneration : Nat)
  | requestRestart
  | cancelRestart
  | destroy
  deriving DecidableEq

inductive Result
  | generation (value : Nat)
  | action (value : Action)
  | void
  | thrown (message : String)
  deriving DecidableEq

def current (g : ShutdownGate) (expectedGeneration : Nat) : Bool :=
  g.active && !g.destroyed && expectedGeneration == g.generation

/-- Both lifetimes of the generation have ended. -/
def isComplete (g : ShutdownGate) : Bool :=
  !g.destroyed && g.active && g.workspaceExited && g.nativeClean && !g.cleanupFailure

def readyAction (g : ShutdownGate) : ShutdownGate × Result :=
  if g.isComplete then
    if g.restart then ({ g with active := false }, .action .restart)
    else if g.stopReported then (g, .action .wait)
    else ({ g with stopReported := true }, .action .stopService)
  else (g, .action .wait)

def step (g : ShutdownGate) : Call → ShutdownGate × Result
  | .begin workspaceRunning =>
    if g.destroyed then (g, .thrown "Service was destroyed")
    else if g.active then (g, .thrown "Shutdown already started")
    else
      ({ g with
          active := true
          nativeClean := false
          workspaceExited := !workspaceRunning
          restart := false
          stopReported := false
          cleanupFailure := false
          generation := g.generation + 1 }, .generation (g.generation + 1))
  | .nativeCompleted expectedGeneration error =>
    if !g.current expectedGeneration then (g, .action .wait)
    else if g.nativeClean || g.cleanupFailure then (g, .action .wait)
    else if error then readyAction { g with cleanupFailure := true }
    else readyAction { g with nativeClean := true }
  | .workspaceExited expectedGeneration =>
    if !g.current expectedGeneration then (g, .action .wait)
    else readyAction { g with workspaceExited := true }
  | .requestRestart =>
    if !g.active || g.destroyed then (g, .action .wait) else readyAction { g with restart := true }
  | .cancelRestart => readyAction { g with restart := false, stopReported := false }
  | .destroy => ({ g with destroyed := true, restart := false }, .void)

/-- A call with its result. -/
structure Entry where
  call : Call
  result : Result
  deriving DecidableEq

/-- The entry of a `begin` that has begun a generation. -/
def Entry.begins (e : Entry) : Option Bool :=
  match e.call, e.result with
  | .begin workspaceRunning, .generation _ => some workspaceRunning
  | _, _ => none

/-- A gate with the calls since the last generation was begun. -/
structure Story where
  gate : ShutdownGate := {}
  /-- The argument of the `begin`, if there was one. -/
  workspaceRunning : Option Bool := none
  since : List Entry := []
  /-- `destroy` has been called. -/
  everDestroyed : Bool := false
  deriving DecidableEq

/-- The calls since the generation was begun. -/
def Story.calls (s : Story) : List Call := s.since.map Entry.call

def Story.step (s : Story) (call : Call) : Story :=
  match (Entry.mk call (s.gate.step call).2).begins with
  | some workspaceRunning =>
    ⟨(s.gate.step call).1, some workspaceRunning, [], s.everDestroyed || call == .destroy⟩
  | none =>
    ⟨(s.gate.step call).1, s.workspaceRunning, s.since ++ [⟨call, (s.gate.step call).2⟩],
      s.everDestroyed || call == .destroy⟩

def machine : LTS Story Call := .ofFun (· = {}) fun s call => some (s.step call)

/-! ### What the fields say about the calls -/

/-- The native completions of a generation among some calls, with whether they carry an error. -/
def completions (generation : Nat) (calls : List Call) : List Bool :=
  calls.filterMap fun
    | .nativeCompleted expected error => if expected = generation then some error else none
    | _ => none

def Result.isRelease : Result → Bool
  | .action .stopService | .action .restart => true
  | _ => false

/-- The fields of a gate in terms of the calls since its generation was begun. -/
structure Told (g : ShutdownGate) (workspaceRunning : Option Bool) (calls : List Call)
    (everDestroyed : Bool) : Prop where
  destroyed : g.destroyed = everDestroyed
  begun : g.active = true → workspaceRunning.isSome = true
  clean : g.nativeClean = true → (completions g.generation calls).head? = some false
  failure : g.cleanupFailure = true → (completions g.generation calls).head? = some true
  pending : g.active = true → g.destroyed = false → g.nativeClean = false →
    g.cleanupFailure = false → completions g.generation calls = []
  exited : g.workspaceExited = true →
    workspaceRunning = some false ∨ .workspaceExited g.generation ∈ calls

variable {g : ShutdownGate} {running : Option Bool} {calls : List Call} {call : Call}
  {everDestroyed : Bool} {s s' : Story}

theorem completions_append (generation : Nat) (calls : List Call) (call : Call) :
    completions generation (calls ++ [call]) =
      completions generation calls ++ completions generation [call] :=
  filterMap_append

/-- A first completion stays the first. -/
theorem head_completions_append {generation : Nat} {error : Bool}
    (h : (completions generation calls).head? = some error) (call : Call) :
    (completions generation (calls ++ [call])).head? = some error := by
  rw [completions_append, List.head?_append, h]
  rfl

theorem Told.other (h : Told g running calls everDestroyed) (call : Call)
    (hother : completions g.generation [call] = []) :
    Told g running (calls ++ [call]) everDestroyed := by
  have hsame : completions g.generation (calls ++ [call]) = completions g.generation calls := by
    rw [completions_append, hother, append_nil]
  refine ⟨h.destroyed, h.begun, ?_, ?_, ?_, fun hexited => ?_⟩
  · rw [hsame]
    exact h.clean
  · rw [hsame]
    exact h.failure
  · rw [hsame]
    exact h.pending
  · rcases h.exited hexited with hnone | hmem
    · exact .inl hnone
    · exact .inr (mem_append_left _ hmem)

/-- So is a completion that comes too late, or to a gate that is not current. -/
theorem Told.ignored (h : Told g running calls everDestroyed)
    (hdone : g.active = true → g.destroyed = false → g.nativeClean = true ∨
      g.cleanupFailure = true) :
    Told g running (calls ++ [call]) everDestroyed := by
  refine ⟨h.destroyed, h.begun, fun hclean => head_completions_append (h.clean hclean) call,
    fun hfailure => head_completions_append (h.failure hfailure) call, ?_, fun hexited => ?_⟩
  · intro hactive hdestroyed hclean hfailure
    rcases hdone hactive hdestroyed with hyes | hyes
    · exact Bool.noConfusion (hyes.symm.trans hclean)
    · exact Bool.noConfusion (hyes.symm.trans hfailure)
  · rcases h.exited hexited with hnone | hmem
    · exact .inl hnone
    · exact .inr (mem_append_left _ hmem)

theorem readyAction_cases (g : ShutdownGate) :
    (g.isComplete = true ∧ g.readyAction = ({ g with active := false }, .action .restart)) ∨
    (g.isComplete = true ∧ g.readyAction = ({ g with stopReported := true }, .action .stopService)) ∨
    g.readyAction = (g, .action .wait) := by
  unfold readyAction
  split
  · rename_i hcomplete
    split
    · exact .inl ⟨hcomplete, rfl⟩
    · split
      · exact .inr (.inr rfl)
      · exact .inr (.inl ⟨hcomplete, rfl⟩)
  · exact .inr (.inr rfl)

theorem Told.readyAction (h : Told g running calls everDestroyed) :
    Told g.readyAction.1 running calls everDestroyed := by
  rcases g.readyAction_cases with ⟨-, heq⟩ | ⟨-, heq⟩ | heq
  · rw [heq]
    exact { h with begun := nofun, pending := nofun }
  · rw [heq]
    exact { h with }
  · rw [heq]
    exact h

theorem current_iff {expected : Nat} : g.current expected = true ↔
    g.active = true ∧ g.destroyed = false ∧ expected = g.generation := by
  unfold current
  rw [Bool.and_eq_true, Bool.and_eq_true, Bool.not_eq_true', beq_iff_eq, and_assoc]

/-- **Both lifetimes of a begun generation have ended**, in terms of the calls: its first native
completion carries no error, its workspace was not running or has exited, and the gate was not
destroyed. -/
structure Ended (workspaceRunning : Option Bool) (generation : Nat) (calls : List Call)
    (everDestroyed : Bool) : Prop where
  begun : workspaceRunning.isSome = true
  native : (completions generation calls).head? = some false
  workspace : workspaceRunning = some false ∨ .workspaceExited generation ∈ calls
  alive : everDestroyed = false

theorem Told.release (h : Told g running calls everDestroyed)
    (hrelease : g.readyAction.2.isRelease = true) :
    Ended running g.generation calls everDestroyed ∧ g.active = true := by
  have hcomplete : g.isComplete = true := by
    rcases g.readyAction_cases with ⟨hcomplete, -⟩ | ⟨hcomplete, -⟩ | heq
    · exact hcomplete
    · exact hcomplete
    · rw [heq] at hrelease
      exact nomatch hrelease
  simp only [isComplete, Bool.and_eq_true, Bool.not_eq_true'] at hcomplete
  obtain ⟨⟨⟨⟨hdestroyed, hactive⟩, hexited⟩, hclean⟩, -⟩ := hcomplete
  exact ⟨⟨h.begun hactive, h.clean hclean, h.exited hexited, h.destroyed ▸ hdestroyed⟩, hactive⟩

/-- What a call other than a successful `begin` keeps, and what a release means. -/
structure Kept (g : ShutdownGate) (running : Option Bool) (calls : List Call)
    (everDestroyed : Bool) (call : Call) : Prop where
  told : Told (g.step call).1 running (calls ++ [call]) (everDestroyed || call == .destroy)
  generation : (g.step call).1.generation = g.generation
  inactive : g.active = false → (g.step call).1.active = false
  release : (g.step call).2.isRelease = true →
    Ended running g.generation (calls ++ [call]) (everDestroyed || call == .destroy) ∧
      g.active = true
  /-- After a restart the gate is not active. -/
  restart : (g.step call).2 = .action .restart → (g.step call).1.active = false

theorem Kept.ready (g' : ShutdownGate) (hstep : g.step call = g'.readyAction)
    (hcall : (call == .destroy) = false) (hgeneration : g'.generation = g.generation)
    (hactive : g'.active = g.active) (h : Told g' running (calls ++ [call]) everDestroyed) :
    Kept g running calls everDestroyed call := by
  refine ⟨?_, ?_, ?_, ?_, ?_⟩
  · rw [hstep, hcall, Bool.or_false]
    exact h.readyAction
  · rw [hstep]
    rcases g'.readyAction_cases with ⟨-, heq⟩ | ⟨-, heq⟩ | heq <;> rw [heq] <;> exact hgeneration
  · intro hidle
    rw [hstep]
    rcases g'.readyAction_cases with ⟨-, heq⟩ | ⟨-, heq⟩ | heq <;> rw [heq]
    · exact hactive.trans hidle
    · exact hactive.trans hidle
  · intro hrelease
    rw [hstep] at hrelease
    rw [hcall, Bool.or_false, ← hactive, ← hgeneration]
    exact h.release hrelease
  · intro hrestart
    rw [hstep] at hrestart ⊢
    rcases g'.readyAction_cases with ⟨-, heq⟩ | ⟨-, heq⟩ | heq
    · rw [heq]
    · rw [heq] at hrestart
      exact nomatch hrestart
    · rw [heq] at hrestart
      exact nomatch hrestart

theorem Kept.same (result : Result) (hstep : g.step call = (g, result))
    (hresult : result.isRelease = false) (hcall : (call == .destroy) = false)
    (h : Told g running (calls ++ [call]) everDestroyed) :
    Kept g running calls everDestroyed call := by
  refine ⟨?_, by rw [hstep], fun hidle => by rw [hstep]; exact hidle, ?_, ?_⟩
  · rw [hstep, hcall, Bool.or_false]
    exact h
  · rw [hstep, hresult]
    exact nofun
  · intro hrestart
    rw [hstep] at hrestart
    obtain rfl : result = .action .restart := hrestart
    exact nomatch hresult

theorem Told.kept (h : Told g running calls everDestroyed)
    (hbegins : (Entry.mk call (g.step call).2).begins = none) :
    Kept g running calls everDestroyed call := by
  cases call with
  | begin workspaceRunning =>
    unfold ShutdownGate.step at hbegins
    by_cases hdestroyed : g.destroyed = true
    · refine Kept.same (.thrown "Service was destroyed") ?_ rfl rfl (h.other _ rfl)
      simp [ShutdownGate.step, hdestroyed]
    · by_cases hactive : g.active = true
      · refine Kept.same (.thrown "Shutdown already started") ?_ rfl rfl (h.other _ rfl)
        simp [ShutdownGate.step, hdestroyed, hactive]
      · simp [hdestroyed, hactive, Entry.begins] at hbegins
  | nativeCompleted expected error =>
    cases hcurrent : g.current expected with
    | false =>
      refine Kept.same (.action .wait) ?_ rfl rfl ?_
      · simp [ShutdownGate.step, hcurrent]
      · by_cases hexpected : expected = g.generation
        · refine h.ignored fun hactive hdestroyed => ?_
          have hnow := current_iff.mpr ⟨hactive, hdestroyed, hexpected⟩
          exact Bool.noConfusion (hcurrent.symm.trans hnow)
        · exact h.other _ (by simp [completions, hexpected])
    | true =>
      obtain ⟨hactive, hdestroyed, rfl⟩ := current_iff.mp hcurrent
      by_cases hdone : g.nativeClean = true ∨ g.cleanupFailure = true
      · refine Kept.same (.action .wait) ?_ rfl rfl (h.ignored fun _ _ => hdone)
        have hor : (g.nativeClean || g.cleanupFailure) = true := by simpa using hdone
        simp [ShutdownGate.step, hcurrent, hor]
      · obtain ⟨hclean, hfailure⟩ := not_or.mp hdone
        have hnone := h.pending hactive hdestroyed (eq_false_of_ne_true hclean)
          (eq_false_of_ne_true hfailure)
        have hfirst : completions g.generation (calls ++ [.nativeCompleted g.generation error]) =
            [error] := by
          rw [completions_append, hnone]
          simp [completions]
        have hor : (g.nativeClean || g.cleanupFailure) = false := by simp [hclean, hfailure]
        have hexited : g.workspaceExited = true → running = some false ∨
            .workspaceExited g.generation ∈ calls ++ [.nativeCompleted g.generation error] :=
          fun hexited => (h.exited hexited).imp_right (mem_append_left _)
        cases error with
        | true =>
          refine Kept.ready { g with cleanupFailure := true } ?_ rfl rfl rfl ?_
          · simp [ShutdownGate.step, hcurrent, hor]
          · exact ⟨h.destroyed, h.begun, fun hyes => absurd hyes hclean,
              fun _ => by rw [hfirst]; rfl, nofun, hexited⟩
        | false =>
          refine Kept.ready { g with nativeClean := true } ?_ rfl rfl rfl ?_
          · simp [ShutdownGate.step, hcurrent, hor]
          · exact ⟨h.destroyed, h.begun, fun _ => by rw [hfirst]; rfl,
              fun hyes => absurd hyes hfailure, nofun, hexited⟩
  | workspaceExited expected =>
    cases hcurrent : g.current expected with
    | false =>
      refine Kept.same (.action .wait) ?_ rfl rfl (h.other _ rfl)
      simp [ShutdownGate.step, hcurrent]
    | true =>
      obtain ⟨-, -, rfl⟩ := current_iff.mp hcurrent
      refine Kept.ready { g with workspaceExited := true } ?_ rfl rfl rfl ?_
      · simp [ShutdownGate.step, hcurrent]
      · exact { h.other (.workspaceExited g.generation) rfl with
          exited := fun _ => .inr (mem_append_right _ mem_cons_self) }
  | requestRestart =>
    by_cases hidle : (!g.active || g.destroyed) = true
    · refine Kept.same (.action .wait) ?_ rfl rfl (h.other _ rfl)
      simp only [ShutdownGate.step, hidle, if_true]
    · refine Kept.ready { g with restart := true } ?_ rfl rfl rfl ?_
      · simp only [ShutdownGate.step, if_neg hidle]
      · exact { h.other (.requestRestart) rfl with }
  | cancelRestart =>
    exact Kept.ready { g with restart := false, stopReported := false } rfl rfl rfl rfl
      { h.other (.cancelRestart) rfl with }
  | destroy =>
    have hother := h.other (.destroy) rfl
    refine ⟨?_, rfl, fun hidle => hidle, nofun, nofun⟩
    rw [show (Call.destroy == Call.destroy) = true from rfl, Bool.or_true]
    exact { hother with destroyed := rfl, pending := nofun }

/-! ### Histories of the shutdown gate -/

structure Story.Sound (s : Story) : Prop where
  told : Told s.gate s.workspaceRunning s.calls s.everDestroyed
  /-- Nothing is released before a completion without error. -/
  released : ∀ entry ∈ s.since, entry.result.isRelease = true →
    (completions s.gate.generation s.calls).head? = some false
  /-- After a restart nothing is released. -/
  order : s.since.Pairwise fun a b => a.result = .action .restart → b.result.isRelease = false
  restarted : ∀ entry ∈ s.since, entry.result = .action .restart → s.gate.active = false

theorem Story.step_of_begins {workspaceRunning : Bool}
    (h : (Entry.mk call (s.gate.step call).2).begins = some workspaceRunning) :
    s.step call =
      ⟨(s.gate.step call).1, some workspaceRunning, [], s.everDestroyed || call == .destroy⟩ := by
  unfold Story.step
  rw [h]

theorem Story.step_of_not_begins (h : (Entry.mk call (s.gate.step call).2).begins = none) :
    s.step call =
      ⟨(s.gate.step call).1, s.workspaceRunning, s.since ++ [⟨call, (s.gate.step call).2⟩],
        s.everDestroyed || call == .destroy⟩ := by
  unfold Story.step
  rw [h]

/-- A generation is begun with nothing told. -/
theorem Told.begin {workspaceRunning : Bool} (h : Told g running calls everDestroyed)
    (hbegins : (Entry.mk call (g.step call).2).begins = some workspaceRunning) :
    Told (g.step call).1 (some workspaceRunning) [] (everDestroyed || call == .destroy) := by
  cases call with
  | begin running' =>
    by_cases hdestroyed : g.destroyed = true
    · simp [ShutdownGate.step, Entry.begins, hdestroyed] at hbegins
    · by_cases hactive : g.active = true
      · simp [ShutdownGate.step, Entry.begins, hdestroyed, hactive] at hbegins
      · simp only [ShutdownGate.step, if_neg hdestroyed, if_neg hactive] at hbegins ⊢
        obtain rfl : running' = workspaceRunning := Option.some.inj hbegins
        refine ⟨?_, fun _ => rfl, nofun, nofun, fun _ _ _ _ => rfl, fun hexited => ?_⟩
        · rw [show (Call.begin running' == Call.destroy) = false from rfl, Bool.or_false]
          exact h.destroyed
        · left
          have hnot : (!running') = true := hexited
          rw [Bool.not_eq_true'] at hnot
          rw [hnot]
  | nativeCompleted | workspaceExited | requestRestart | cancelRestart | destroy =>
    exact nomatch hbegins

theorem Story.Sound.step (h : s.Sound) (call : Call) : (s.step call).Sound := by
  cases hbegins : (Entry.mk call (s.gate.step call).2).begins with
  | some workspaceRunning =>
    rw [Story.step_of_begins hbegins]
    exact ⟨h.told.begin hbegins, forall_mem_nil _, List.Pairwise.nil, forall_mem_nil _⟩
  | none =>
    have hkept := h.told.kept hbegins
    have hcalls : (s.since ++ [Entry.mk call (s.gate.step call).2]).map Entry.call =
        s.calls ++ [call] := map_append
    rw [Story.step_of_not_begins hbegins]
    refine ⟨?_, ?_, ?_, ?_⟩
    · show Told (s.gate.step call).1 s.workspaceRunning
        ((s.since ++ [Entry.mk call (s.gate.step call).2]).map Entry.call) _
      rw [hcalls]
      exact hkept.told
    · intro entry hentry hrelease
      show (completions (s.gate.step call).1.generation
        ((s.since ++ [Entry.mk call (s.gate.step call).2]).map Entry.call)).head? = some false
      rw [hkept.generation, hcalls]
      rcases mem_append.mp hentry with hold | hnew
      · exact head_completions_append (h.released entry hold hrelease) call
      · obtain rfl := mem_singleton.mp hnew
        exact (hkept.release hrelease).1.native
    · refine pairwise_append.mpr ⟨h.order, pairwise_singleton _ _, ?_⟩
      intro a ha b hb hrestart
      obtain rfl := mem_singleton.mp hb
      have hidle := h.restarted a ha hrestart
      by_contra hrelease
      have hactive := (hkept.release (eq_true_of_ne_false hrelease)).2
      exact Bool.noConfusion (hidle.symm.trans hactive)
    · intro entry hentry hrestart
      rcases mem_append.mp hentry with hold | hnew
      · exact hkept.inactive (h.restarted entry hold hrestart)
      · obtain rfl := mem_singleton.mp hnew
        exact hkept.restart hrestart

theorem Story.sound_of_run {labels : List Call} (h : machine.Run labels s) : s.Sound := by
  refine h.invariant (I := fun _ s => s.Sound) ?_ ?_
  · rintro _ rfl
    exact ⟨⟨rfl, nofun, nofun, nofun, nofun, nofun⟩, forall_mem_nil _, List.Pairwise.nil,
      forall_mem_nil _⟩
  · intro _ s call s' _ hsound hstep
    cases hstep
    exact hsound.step call

/-- **The shutdown gate.** -/
structure Story.Safe (s : Story) : Prop where
  /-- A release means that both lifetimes of the begun generation have ended. -/
  release : ∀ call, (s.gate.step call).2.isRelease = true →
    Ended s.workspaceRunning s.gate.generation (s.calls ++ [call]) s.everDestroyed
  /-- A callback of an older generation changes nothing. -/
  older : ∀ generation < s.gate.generation,
    (∀ error, s.gate.step (.nativeCompleted generation error) = (s.gate, .action .wait)) ∧
      s.gate.step (.workspaceExited generation) = (s.gate, .action .wait)
  /-- After a first completion with an error, nothing is released for the generation. -/
  failure : (completions s.gate.generation s.calls).head? = some true →
    ∀ entry ∈ s.since, entry.result.isRelease = false
  /-- After a restart nothing is released before the next `begin`. -/
  restart : s.since.Pairwise fun a b => a.result = .action .restart → b.result.isRelease = false

theorem Story.Sound.safe (h : s.Sound) : s.Safe where
  release call hrelease := by
    have hbegins : (Entry.mk call (s.gate.step call).2).begins = none := by
      unfold Entry.begins
      split
      · rename_i value _ hresult
        have hgeneration : (s.gate.step call).2 = .generation value := hresult
        rw [hgeneration] at hrelease
        exact nomatch hrelease
      · rfl
    have hended := ((h.told.kept hbegins).release hrelease).1
    exact { hended with alive := (Bool.or_eq_false_iff.mp hended.alive).1 }
  older generation hless := by
    have hnot : s.gate.current generation = false := by
      by_contra hcurrent
      have hequal := (current_iff.mp (eq_true_of_ne_false hcurrent)).2.2
      omega
    exact ⟨fun error => by simp [ShutdownGate.step, hnot], by simp [ShutdownGate.step, hnot]⟩
  failure herror entry hentry := by
    by_contra hrelease
    have hclean := h.released entry hentry (eq_true_of_ne_false hrelease)
    exact nomatch herror.symm.trans hclean
  restart := h.order

end ShutdownGate

/-! ### The exit gate -/

variable {Exit : Type}

structure ExitGate (Exit : Type) where
  owners : Finset Nat := ∅
  generation : Nat := 0
  pendingGeneration : Nat := 0
  pendingExit : Option Exit := none
  retiring : Bool := false
  deriving DecidableEq

namespace ExitGate

inductive Call (Exit : Type)
  | register
  /-- `exit` may be null. -/
  | requestExit (owner : Nat) (exit : Option Exit)
  | markClean (owner : Nat)
  | runExitIfClean
  | runExitAfterOwnerDeath (owner : Nat) (exit : Option Exit)
  deriving DecidableEq

inductive Result (Exit : Type)
  | generation (value : Nat)
  | void
  /-- The method has run this and returned true. -/
  | ran (exit : Exit)
  | returnedFalse
  | thrown (message : String)
  deriving DecidableEq

def step (g : ExitGate Exit) : Call Exit → ExitGate Exit × Result Exit
  | .register =>
    if g.retiring then (g, .thrown "Runtime process retirement has begun")
    else
      ({ g with
          generation := g.generation + 1
          owners := insert (g.generation + 1) g.owners
          pendingExit := none }, .generation (g.generation + 1))
  | .requestExit owner exit =>
    if owner = 0 ∨ g.generation < owner then (g, .thrown "Unknown runtime generation")
    else if owner = g.generation then
      match exit with
      | some exit => ({ g with pendingGeneration := owner, pendingExit := some exit }, .void)
      | none => ({ g with pendingGeneration := owner }, .thrown "null")
    else (g, .void)
  | .markClean owner =>
    if owner ∈ g.owners then ({ g with owners := g.owners.erase owner }, .void)
    else (g, .thrown "Runtime ownership was already released or never registered")
  | .runExitIfClean =>
    if g.retiring ∨ g.owners ≠ ∅ ∨ g.pendingGeneration ≠ g.generation then (g, .returnedFalse)
    else
      match g.pendingExit with
      | some exit => ({ g with pendingExit := none }, .ran exit)
      | none => (g, .returnedFalse)
  | .runExitAfterOwnerDeath owner exit =>
    if g.retiring ∨ owner ≠ g.generation ∨ g.owners.card ≠ 1 ∨ owner ∉ g.owners then
      (g, .returnedFalse)
    else
      match exit with
      | some exit => ({ g with retiring := true, pendingExit := none }, .ran exit)
      | none => (g, .thrown "null")

/-- A call with its result. -/
structure Entry (Exit : Type) where
  call : Call Exit
  result : Result Exit
  deriving DecidableEq

/-- A gate with all its calls. -/
structure Story (Exit : Type) where
  gate : ExitGate Exit := {}
  log : List (Entry Exit) := []

def Story.step (s : Story Exit) (call : Call Exit) : Story Exit :=
  ⟨(s.gate.step call).1, s.log ++ [⟨call, (s.gate.step call).2⟩]⟩

def machine : LTS (Story Exit) (Call Exit) := .ofFun (· = {}) fun s call => some (s.step call)

/-- The owner a call has registered. -/
def Entry.registers (e : Entry Exit) : Option Nat :=
  match e.call, e.result with
  | .register, .generation owner => some owner
  | _, _ => none

/-- The owner a call has marked clean. -/
def Entry.cleans (e : Entry Exit) : Option Nat :=
  match e.call, e.result with
  | .markClean owner, .void => some owner
  | _, _ => none

/-- The owners that have been registered, in order. -/
def registered (log : List (Entry Exit)) : List Nat := log.filterMap Entry.registers

def cleaned (log : List (Entry Exit)) : List Nat := log.filterMap Entry.cleans

/-- An owner that is registered and not marked clean. -/
def Unclean (log : List (Entry Exit)) (owner : Nat) : Prop :=
  owner ∈ registered log ∧ owner ∉ cleaned log

/-- The last owner has asked for this exit, and no owner was registered since. -/
def Requested (log : List (Entry Exit)) (exit : Exit) : Prop :=
  ∃ before entry after, log = before ++ entry :: after ∧
    (∃ owner, entry.call = .requestExit owner (some exit) ∧
      (registered before).getLast? = some owner) ∧ registered after = []

variable {g : ExitGate Exit} {log : List (Entry Exit)} {entry : Entry Exit} {call : Call Exit}
  {s : Story Exit}

/-- The fields of a gate in terms of its calls. -/
structure Told (g : ExitGate Exit) (log : List (Entry Exit)) : Prop where
  registered : registered log = (List.range g.generation).map (· + 1)
  cleaned : ∀ owner ∈ cleaned log, owner ∈ ExitGate.registered log
  owners : ∀ owner, owner ∈ g.owners ↔ Unclean log owner
  requested : ∀ exit ∈ g.pendingExit, Requested log exit

theorem registered_append (log : List (Entry Exit)) (entry : Entry Exit) :
    registered (log ++ [entry]) = registered log ++ entry.registers.toList := by
  cases hentry : entry.registers <;> simp [hentry, registered]

theorem cleaned_append (log : List (Entry Exit)) (entry : Entry Exit) :
    cleaned (log ++ [entry]) = cleaned log ++ entry.cleans.toList := by
  cases hentry : entry.cleans <;> simp [hentry, cleaned]

theorem Requested.append {exit : Exit} (h : Requested log exit) (hentry : entry.registers = none) :
    Requested (log ++ [entry]) exit := by
  obtain ⟨before, request, after, rfl, hrequest, hafter⟩ := h
  refine ⟨before, request, after ++ [entry], by simp, hrequest, ?_⟩
  rw [registered_append, hafter, hentry]
  rfl

theorem Told.append (h : Told g log) (hregisters : entry.registers = none)
    (hcleans : entry.cleans = none) : Told g (log ++ [entry]) := by
  have hregistered : ExitGate.registered (log ++ [entry]) = ExitGate.registered log := by
    rw [registered_append, hregisters, Option.toList_none, append_nil]
  have hcleaned : ExitGate.cleaned (log ++ [entry]) = ExitGate.cleaned log := by
    rw [cleaned_append, hcleans, Option.toList_none, append_nil]
  refine ⟨?_, ?_, ?_, fun exit hexit => (h.requested exit hexit).append hregisters⟩
  · rw [hregistered]
    exact h.registered
  · rw [hregistered, hcleaned]
    exact h.cleaned
  · unfold Unclean
    rw [hregistered, hcleaned]
    exact h.owners

theorem Told.mem_registered (h : Told g log) {owner : Nat} (howner : owner ∈ ExitGate.registered log) :
    owner ≤ g.generation := by
  rw [h.registered, mem_map] at howner
  obtain ⟨i, hi, rfl⟩ := howner
  exact mem_range.mp hi

theorem Told.getLast (h : Told g log) (hpos : g.generation ≠ 0) :
    (ExitGate.registered log).getLast? = some g.generation := by
  obtain ⟨n, hn⟩ := Nat.exists_eq_succ_of_ne_zero hpos
  rw [h.registered, hn, range_succ, map_append]
  simp

theorem Told.register (h : Told g log) :
    Told
      { g with
        generation := g.generation + 1
        owners := insert (g.generation + 1) g.owners
        pendingExit := none }
      (log ++ [⟨.register, .generation (g.generation + 1)⟩]) := by
  have hregistered : ExitGate.registered
      (log ++ [⟨.register, .generation (g.generation + 1)⟩]) =
      ExitGate.registered log ++ [g.generation + 1] := registered_append _ _
  have hcleaned : ExitGate.cleaned (log ++ [⟨.register, .generation (g.generation + 1)⟩]) =
      ExitGate.cleaned log := by
    rw [cleaned_append]
    exact append_nil _
  refine ⟨?_, ?_, ?_, nofun⟩
  · rw [hregistered, h.registered, range_succ, map_append]
    rfl
  · rw [hregistered, hcleaned]
    exact fun owner howner => mem_append_left _ (h.cleaned owner howner)
  · intro owner
    have hnew : g.generation + 1 ∉ ExitGate.cleaned log := fun hmem =>
      absurd (h.mem_registered (h.cleaned _ hmem)) (Nat.not_succ_le_self _)
    unfold Unclean
    rw [hregistered, hcleaned, Finset.mem_insert, h.owners, mem_append, mem_singleton]
    constructor
    · rintro (rfl | ⟨hold, hclean⟩)
      · exact ⟨.inr rfl, hnew⟩
      · exact ⟨.inl hold, hclean⟩
    · rintro ⟨hold | rfl, hclean⟩
      · exact .inr ⟨hold, hclean⟩
      · exact .inl rfl

theorem Told.markClean (h : Told g log) {owner : Nat} (howner : owner ∈ g.owners) :
    Told { g with owners := g.owners.erase owner } (log ++ [⟨.markClean owner, .void⟩]) := by
  have hregistered : ExitGate.registered (log ++ [⟨.markClean owner, .void⟩]) =
      ExitGate.registered log := by
    rw [registered_append]
    exact append_nil _
  have hcleaned : ExitGate.cleaned (log ++ [⟨.markClean owner, .void⟩]) =
      ExitGate.cleaned log ++ [owner] := cleaned_append _ _
  refine ⟨?_, ?_, ?_, fun exit hexit => (h.requested exit hexit).append rfl⟩
  · rw [hregistered]
    exact h.registered
  · rw [hregistered, hcleaned]
    intro other hother
    rcases mem_append.mp hother with hold | hnew
    · exact h.cleaned other hold
    · obtain rfl := mem_singleton.mp hnew
      exact ((h.owners other).mp howner).1
  · intro other
    unfold Unclean
    rw [hregistered, hcleaned, Finset.mem_erase, h.owners, mem_append, mem_singleton,
      Unclean]
    tauto

theorem Told.step (h : Told g log) (call : Call Exit) :
    Told (g.step call).1 (log ++ [⟨call, (g.step call).2⟩]) := by
  cases call with
  | register =>
    by_cases hretiring : g.retiring = true
    · simp only [ExitGate.step, hretiring, if_true]
      exact h.append rfl rfl
    · simp only [ExitGate.step, if_neg hretiring]
      exact h.register
  | requestExit owner exit =>
    by_cases hunknown : owner = 0 ∨ g.generation < owner
    · simp only [ExitGate.step, if_pos hunknown]
      exact h.append rfl rfl
    · by_cases hlast : owner = g.generation
      · subst hlast
        have hpos : g.generation ≠ 0 := fun hzero => hunknown (.inl hzero)
        cases exit with
        | none =>
          simp only [ExitGate.step, if_neg hunknown, if_true]
          exact { h.append rfl rfl with }
        | some exit =>
          simp only [ExitGate.step, if_neg hunknown, if_true]
          refine { h.append rfl rfl with requested := fun other hother => ?_ }
          cases hother
          exact ⟨log, _, [], rfl, ⟨_, rfl, h.getLast hpos⟩, rfl⟩
      · simp only [ExitGate.step, if_neg hunknown, if_neg hlast]
        exact h.append rfl rfl
  | markClean owner =>
    by_cases howner : owner ∈ g.owners
    · simp only [ExitGate.step, if_pos howner]
      exact h.markClean howner
    · simp only [ExitGate.step, if_neg howner]
      exact h.append rfl rfl
  | runExitIfClean =>
    by_cases hrefused : g.retiring ∨ g.owners ≠ ∅ ∨ g.pendingGeneration ≠ g.generation
    · simp only [ExitGate.step, if_pos hrefused]
      exact h.append rfl rfl
    · simp only [ExitGate.step, if_neg hrefused]
      cases hpending : g.pendingExit with
      | none => exact h.append rfl rfl
      | some exit => exact { h.append rfl rfl with requested := nofun }
  | runExitAfterOwnerDeath owner exit =>
    by_cases hrefused : g.retiring ∨ owner ≠ g.generation ∨ g.owners.card ≠ 1 ∨ owner ∉ g.owners
    · simp only [ExitGate.step, if_pos hrefused]
      exact h.append rfl rfl
    · simp only [ExitGate.step, if_neg hrefused]
      cases exit with
      | none => exact h.append rfl rfl
      | some exit => exact { h.append rfl rfl with requested := nofun }

theorem told_of_run {labels : List (Call Exit)} (h : machine.Run labels s) : Told s.gate s.log := by
  refine h.invariant (I := fun _ s => Told s.gate s.log) ?_ ?_
  · rintro _ rfl
    refine ⟨rfl, nofun, fun owner => ?_, nofun⟩
    exact iff_of_false (Finset.notMem_empty owner) (fun hunclean => nomatch hunclean.1)
  · intro _ s call s' _ htold hstep
    cases hstep
    exact htold.step call

/-- **The exit gate.** -/
structure Story.Safe (s : Story Exit) : Prop where
  /-- A clean exit runs when no owner is unclean and none was registered since it was requested. -/
  clean : ∀ exit, (s.gate.step .runExitIfClean).2 = .ran exit →
    (∀ owner, ¬Unclean s.log owner) ∧ Requested s.log exit
  /-- The exit after an owner's death runs when the owner is the last and the only unclean one. -/
  death : ∀ owner request exit,
    (s.gate.step (.runExitAfterOwnerDeath owner request)).2 = .ran exit →
    (registered s.log).getLast? = some owner ∧ ∀ other, Unclean s.log other ↔ other = owner

theorem Told.safe (h : Told s.gate s.log) : s.Safe where
  clean exit hran := by
    by_cases hrefused : s.gate.retiring ∨ s.gate.owners ≠ ∅ ∨
        s.gate.pendingGeneration ≠ s.gate.generation
    · simp [ExitGate.step, if_pos hrefused] at hran
    · simp only [ExitGate.step, if_neg hrefused] at hran
      have hempty : s.gate.owners = ∅ := by
        by_contra hne
        exact hrefused (.inr (.inl hne))
      cases hpending : s.gate.pendingExit with
      | none => simp [hpending] at hran
      | some pending =>
        obtain rfl : pending = exit := by simpa [hpending] using hran
        refine ⟨fun owner hunclean => ?_, h.requested pending hpending⟩
        have hmem := (h.owners owner).mpr hunclean
        rw [hempty] at hmem
        exact Finset.notMem_empty owner hmem
  death owner request exit hran := by
    by_cases hrefused : s.gate.retiring ∨ owner ≠ s.gate.generation ∨ s.gate.owners.card ≠ 1 ∨
        owner ∉ s.gate.owners
    · simp [ExitGate.step, if_pos hrefused] at hran
    · simp only [not_or, not_not] at hrefused
      obtain ⟨-, rfl, hone, hmem⟩ := hrefused
      obtain ⟨only, hsingle⟩ := Finset.card_eq_one.mp hone
      have hunclean := (h.owners _).mp hmem
      rw [hsingle, Finset.mem_singleton] at hmem
      have hpos : s.gate.generation ≠ 0 := by
        intro hzero
        have hreg := hunclean.1
        rw [h.registered, hzero] at hreg
        exact nomatch hreg
      refine ⟨h.getLast hpos, fun other => ?_⟩
      rw [← h.owners, hsingle, Finset.mem_singleton, hmem]

end ExitGate

/-- **What the results of the two gates mean**, along all calls in any order. -/
theorem gates_safe {calls : List ShutdownGate.Call} {s : ShutdownGate.Story}
    (hs : ShutdownGate.machine.Run calls s) {exits : List (ExitGate.Call Exit)}
    {t : ExitGate.Story Exit} (ht : ExitGate.machine.Run exits t) : s.Safe ∧ t.Safe :=
  ⟨(ShutdownGate.Story.sound_of_run hs).safe, (ExitGate.told_of_run ht).safe⟩

/-- The second generation is stopped although a callback of the first comes late, and an exit is run
for the second owner. -/
theorem gates_safe_second :
    ∃ calls s exits, ∃ t : ExitGate.Story Unit,
      ShutdownGate.machine.Run calls s ∧ ExitGate.machine.Run exits t ∧
      s.gate.generation = 2 ∧
      ShutdownGate.Ended (some false) 2 (s.calls ++ [.nativeCompleted 2 false]) false ∧
      ExitGate.Requested t.log () := by
  obtain ⟨s, hs, hgeneration, hrunning, hdestroyed, hrelease⟩ :=
    LTS.exists_run_of_exec (A := ShutdownGate.machine) (fun h => h) rfl
      [.begin true, .requestRestart, .nativeCompleted 1 false, .workspaceExited 1, .begin false,
        .workspaceExited 1]
      (fun s => s.gate.generation = 2 ∧ s.workspaceRunning = some false ∧
        s.everDestroyed = false ∧
        (s.gate.step (.nativeCompleted 2 false)).2.isRelease = true)
      (by decide +kernel)
  obtain ⟨t, ht, hran⟩ :=
    LTS.exists_run_of_exec (A := (ExitGate.machine : LTS _ (ExitGate.Call Unit))) (fun h => h) rfl
      [.register, .register, .requestExit 2 (some ()), .markClean 1, .markClean 2]
      (fun t => (t.gate.step .runExitIfClean).2 = .ran ())
      (by decide +kernel)
  obtain ⟨hsafe, hexit⟩ := gates_safe hs ht
  have hended := hsafe.release (.nativeCompleted 2 false) hrelease
  rw [hgeneration, hrunning, hdestroyed] at hended
  exact ⟨_, s, _, t, hs, ht, hgeneration, hended, (hexit.clean () hran).2⟩

end FoldGPT.App
