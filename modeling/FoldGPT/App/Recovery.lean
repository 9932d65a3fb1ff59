import FoldGPT.Lib.Transition
import Mathlib.Tactic.NormNum

/-!
# The recovery policy of the runtime

`RuntimeRecoveryPolicy.java` decides whether the runtime may be started again after a failure. A
burst of failures shares one window of 90 seconds, its delays grow by the factor 1.618, and when a
delay no longer fits into the window the policy suspends itself until the user asks again.

The methods are functions on `Policy` that return the policy after the call as well, because a call
that throws may have changed it before.

Main results: `snapshot_restores`, `overflow_spoils_snapshot`.
-/

namespace FoldGPT.App

open FoldGPT.Lib

/-! ### The policy -/

inductive Phase
  | stopped
  | starting
  | ready
  | retry
  | suspended
  deriving DecidableEq, Repr

def Phase.name : Phase → String
  | .stopped => "stopped"
  | .starting => "starting"
  | .ready => "ready"
  | .retry => "retry"
  | .suspended => "suspended"

def Phase.all : List Phase := [.stopped, .starting, .ready, .retry, .suspended]

/-- The phase with this name, if there is one. -/
def Phase.ofName (name : String) : Option Phase := Phase.all.find? fun phase => phase.name == name

/-- A boot identity; the constructor refuses an empty one. -/
abbrev BootId := { id : String // id ≠ "" }

structure Policy where
  bootId : BootId
  wanted : Bool := false
  failures : Nat := 0
  state : Phase := .stopped
  readyAt : Int := -1
  retryAt : Int := -1
  recoveryUntil : Int := -1
  deriving DecidableEq

def stableWindow : Int := 90000

def firstRetry : Int := 1618

/-- The result of a call. -/
inductive Result
  | void
  | bool (value : Bool)
  | delay (value : Int)
  /-- An `IllegalStateException` of `launching`. -/
  | refused
  /-- An `ArithmeticException` of `Math.addExact`. -/
  | overflow
  deriving DecidableEq

/-- `Math.addExact` on longs. -/
def addExact (a b : Int) : Option Int :=
  if -2 ^ 63 ≤ a + b ∧ a + b < 2 ^ 63 then some (a + b) else none

/-- `Math.round(delay * 1.618)`, at most the window. -/
def grow (delay : Int) : Int := min stableWindow ((delay * 1618 + 500) / 1000)

/-- The loop of `failed` with `n` turns left. -/
def delayLoop : Nat → Int → Int
  | 0, delay => delay
  | n + 1, delay => if delay < stableWindow then delayLoop n (grow delay) else delay

/-- The delay before the retry after so many failures. -/
def retryDelay (failures : Nat) : Int := delayLoop (failures - 1) firstRetry

namespace Policy

def permitsRecovery (p : Policy) : Bool := p.wanted && p.state != .suspended

def userStarted (p : Policy) (now : Int) (sessionActive : Bool) : Policy :=
  if sessionActive then { p with wanted := true, failures := 0, recoveryUntil := -1 }
  else
    { p with
      wanted := true
      failures := 0
      recoveryUntil := -1
      state := .retry
      retryAt := now
      readyAt := -1 }

def userStopped (p : Policy) : Policy :=
  { p with
    wanted := false
    failures := 0
    state := .stopped
    readyAt := -1
    retryAt := -1
    recoveryUntil := -1 }

def launching (p : Policy) : Policy × Result :=
  if p.permitsRecovery then ({ p with state := .starting, readyAt := -1, retryAt := -1 }, .void)
  else (p, .refused)

def ready (p : Policy) (now : Int) : Policy :=
  if p.permitsRecovery && p.state != .ready then { p with state := .ready, readyAt := now } else p

/-- A ready period of at least the window lies behind `now`. -/
def isStable (p : Policy) (now : Int) : Bool :=
  p.state == .ready && decide (0 ≤ p.readyAt) && decide (stableWindow ≤ now - p.readyAt)

def stable (p : Policy) (now : Int) : Policy × Bool :=
  if p.isStable now && p.failures != 0 then ({ p with failures := 0, recoveryUntil := -1 }, true)
  else (p, false)

def suspend (p : Policy) : Policy × Result :=
  ({ p with state := .suspended, retryAt := -1 }, .delay (-1))

/-- The policy `failed` goes on with: a stable period is noted first. -/
def interrupted (p : Policy) (now : Int) : Policy := { (p.stable now).1 with readyAt := -1 }

/-- The end of the window is the first failure's. -/
def openWindow (p : Policy) (now : Int) : Option Policy :=
  if p.recoveryUntil < 0 then
    (addExact now stableWindow).map fun recoveryUntil => { p with recoveryUntil }
  else some p

/-- The last part of `failed`, with the failure counted. -/
def retryIn (p : Policy) (now delay : Int) : Policy × Result :=
  if p.recoveryUntil - now ≤ delay then p.suspend
  else
    match addExact now delay with
    | some retryAt => ({ p with state := .retry, retryAt }, .delay delay)
    | none => ({ p with state := .retry }, .overflow)

/-- `failed` once the end of the window is known. -/
def failedUntil (p : Policy) (now : Int) : Policy × Result :=
  if p.recoveryUntil ≤ now then p.suspend
  else if p.failures + 1 < 2 ^ 31 then
    retryIn { p with failures := p.failures + 1 } now (retryDelay (p.failures + 1))
  else (p, .overflow)

def failed (p : Policy) (now : Int) : Policy × Result :=
  if p.permitsRecovery then
    match (p.interrupted now).openWindow now with
    | some p => p.failedUntil now
    | none => (p.interrupted now, .overflow)
  else (p, .delay (-1))

def serviceRecreated (p : Policy) (now : Int) : Policy × Result :=
  if p.permitsRecovery then
    if p.state == .starting || p.state == .ready then p.failed now
    else if decide (0 ≤ p.recoveryUntil) && decide (p.recoveryUntil ≤ now) then p.suspend
    else if p.state == .retry then (p, .delay (max 0 (p.retryAt - now)))
    else (p, .delay (-1))
  else (p, .delay (-1))

end Policy

/-! ### Snapshots -/

/-- The JSON object of `snapshot`. -/
structure Snapshot where
  schema : String
  bootId : String
  wanted : Bool
  failures : Int
  state : String
  readyAt : Int
  retryAt : Int
  recoveryUntil : Int

def intentSchema : String := "foldgpt.runtime.intent.v1"

def Policy.snapshot (p : Policy) : Snapshot where
  schema := intentSchema
  bootId := p.bootId
  wanted := p.wanted
  failures := p.failures
  state := p.state.name
  readyAt := p.readyAt
  retryAt := p.retryAt
  recoveryUntil := p.recoveryUntil

/-- What `restore` does with a snapshot of another boot. -/
def Policy.reboot (p : Policy) : Policy :=
  if p.permitsRecovery then
    { p with readyAt := -1, recoveryUntil := -1, state := .retry, retryAt := 0 }
  else { p with readyAt := -1, recoveryUntil := -1 }

/-- The check of `restore` on a policy's fields. -/
def Policy.isValid (p : Policy) : Bool :=
  decide (-1 ≤ p.readyAt) && decide (-1 ≤ p.retryAt) && decide (-1 ≤ p.recoveryUntil) &&
    (p.wanted || p.state == .stopped) && (p.state != .ready || decide (0 ≤ p.readyAt)) &&
    (p.state != .retry || decide (0 ≤ p.retryAt))

/-- The fields of a policy as they stand in a snapshot. -/
def Snapshot.fields (value : Snapshot) (bootId : BootId) (state : Phase) : Policy where
  bootId := bootId
  wanted := value.wanted
  failures := value.failures.toNat
  state := state
  readyAt := value.readyAt
  retryAt := value.retryAt
  recoveryUntil := value.recoveryUntil

def restore (value : Snapshot) (bootId : String) : Except String Policy :=
  if hboot : bootId = "" then .error "Missing boot identity"
  else if value.schema ≠ intentSchema then .error "Unknown runtime intent schema"
  else
    match (Phase.ofName value.state).map (value.fields ⟨bootId, hboot⟩) with
    | none => .error "Invalid runtime intent state"
    | some p =>
      if value.failures < 0 ∨ p.isValid = false then .error "Invalid runtime intent state"
      else if bootId ≠ value.bootId then .ok p.reboot
      else .ok p

/-! ### Calls -/

inductive Call
  | userStarted (now : Int) (sessionActive : Bool)
  | userStopped
  | launching
  | ready (now : Int)
  | stable (now : Int)
  | failed (now : Int)
  | serviceRecreated (now : Int)
  /-- The policy is stored and restored under this boot identity. -/
  | restore (bootId : BootId)

/-- The time a call is given. -/
def Call.time : Call → Option Int
  | .userStarted now _ | .ready now | .stable now | .failed now | .serviceRecreated now => some now
  | .userStopped | .launching | .restore _ => none

/-- One call, with what it returns. -/
def Policy.step (p : Policy) : Call → Policy × Result
  | .userStarted now sessionActive => (p.userStarted now sessionActive, .void)
  | .userStopped => (p.userStopped, .void)
  | .launching => p.launching
  | .ready now => (p.ready now, .void)
  | .stable now => ((p.stable now).1, .bool (p.stable now).2)
  | .failed now => p.failed now
  | .serviceRecreated now => p.serviceRecreated now
  | .restore bootId =>
    match restore p.snapshot bootId with
    | .ok restored => (restored, .void)
    | .error _ => (p, .refused)

variable {p q : Policy} {now : Int} {call : Call}

/-! ### What a failure does -/

/-- What `failedUntil` does. -/
inductive Policy.Fails (p : Policy) (now : Int) : Policy × Result → Prop
  /-- The window is over. -/
  | closed (h : p.recoveryUntil ≤ now) :
    Fails p now ({ p with state := .suspended, retryAt := -1 }, .delay (-1))
  /-- The next delay does not fit into the window. -/
  | spent (h : now < p.recoveryUntil)
      (hdelay : p.recoveryUntil - now ≤ retryDelay (p.failures + 1)) :
    Fails p now
      ({ p with failures := p.failures + 1, state := .suspended, retryAt := -1 }, .delay (-1))
  | granted (hdelay : retryDelay (p.failures + 1) < p.recoveryUntil - now) :
    Fails p now
      ({ p with
          failures := p.failures + 1
          state := .retry
          retryAt := now + retryDelay (p.failures + 1) }, .delay (retryDelay (p.failures + 1)))
  | full (h : 2 ^ 31 ≤ p.failures + 1) : Fails p now (p, .overflow)
  | late (hdelay : retryDelay (p.failures + 1) < p.recoveryUntil - now)
      (h : addExact now (retryDelay (p.failures + 1)) = none) :
    Fails p now ({ p with failures := p.failures + 1, state := .retry }, .overflow)

theorem addExact_eq_some {a b c : Int} (h : addExact a b = some c) : c = a + b ∧ c < 2 ^ 63 := by
  unfold addExact at h
  split at h
  · rename_i hrange
    cases h
    exact ⟨rfl, hrange.2⟩
  · exact nomatch h

theorem Policy.failedUntil_fails (p : Policy) (now : Int) : p.Fails now (p.failedUntil now) := by
  unfold Policy.failedUntil Policy.retryIn
  split
  · rename_i hover
    exact .closed hover
  · rename_i hopen
    split
    · split
      · rename_i hdelay
        exact .spent (not_le.mp hopen) hdelay
      · rename_i hdelay
        split
        · rename_i retryAt hadd
          obtain ⟨rfl, -⟩ := addExact_eq_some hadd
          exact .granted (not_le.mp hdelay)
        · rename_i hadd
          exact .late (not_le.mp hdelay) hadd
    · rename_i hfull
      exact .full (not_lt.mp hfull)

theorem Policy.openWindow_eq_some (h : p.openWindow now = some q) :
    (0 ≤ p.recoveryUntil ∧ q = p) ∨
      (p.recoveryUntil < 0 ∧ now + stableWindow < 2 ^ 63 ∧
        q = { p with recoveryUntil := now + stableWindow }) := by
  unfold Policy.openWindow at h
  split at h
  · rename_i hclosed
    obtain ⟨recoveryUntil, hadd, rfl⟩ := Option.map_eq_some_iff.mp h
    obtain ⟨rfl, hlong⟩ := addExact_eq_some hadd
    exact .inr ⟨hclosed, hlong, rfl⟩
  · rename_i hopen
    exact .inl ⟨not_lt.mp hopen, (Option.some.inj h).symm⟩

theorem Policy.openWindow_eq_none (h : p.openWindow now = none) : p.recoveryUntil < 0 := by
  unfold Policy.openWindow at h
  split at h
  · assumption
  · exact nomatch h

theorem Policy.failed_cases (p : Policy) (now : Int) :
    (p.permitsRecovery = false ∧ p.failed now = (p, .delay (-1))) ∨
    (p.permitsRecovery = true ∧ (p.interrupted now).openWindow now = none ∧
      p.failed now = (p.interrupted now, .overflow)) ∨
    (p.permitsRecovery = true ∧ ∃ q, (p.interrupted now).openWindow now = some q ∧
      q.Fails now (p.failed now)) := by
  unfold Policy.failed
  cases hpermits : p.permitsRecovery with
  | false => exact .inl ⟨rfl, rfl⟩
  | true =>
    right
    cases hwindow : (p.interrupted now).openWindow now with
    | none => exact .inl ⟨rfl, rfl, rfl⟩
    | some q => exact .inr ⟨rfl, q, rfl, q.failedUntil_fails now⟩

/-! ### Delays -/

theorem grow_nonneg {delay : Int} (h : 0 ≤ delay) : 0 ≤ grow delay := by
  unfold grow stableWindow
  omega

theorem delayLoop_nonneg (n : Nat) {delay : Int} (h : 0 ≤ delay) : 0 ≤ delayLoop n delay := by
  induction n generalizing delay with
  | zero => exact h
  | succ n ih =>
    unfold delayLoop
    split
    · exact ih (grow_nonneg h)
    · exact h

theorem retryDelay_nonneg (failures : Nat) : 0 ≤ retryDelay failures :=
  delayLoop_nonneg _ (by decide)

theorem delayLoop_window (n : Nat) : delayLoop n stableWindow = stableWindow := by
  cases n with
  | zero => rfl
  | succ n =>
    unfold delayLoop
    rw [if_neg (Int.lt_irrefl _)]

theorem retryDelay_of_ten_le {failures : Nat} (h : 10 ≤ failures) :
    retryDelay failures = stableWindow := by
  obtain ⟨n, rfl⟩ : ∃ n, failures = n + 10 := ⟨failures - 10, by omega⟩
  have hnine : retryDelay (n + 10) = delayLoop n stableWindow := rfl
  rw [hnine, delayLoop_window]

/-! ### Stored policies -/

theorem Phase.ofName_name (phase : Phase) : Phase.ofName phase.name = some phase := by
  cases phase <;> decide

theorem restore_snapshot (p : Policy) (bootId : BootId) :
    restore p.snapshot bootId =
      if p.isValid then
        .ok (if bootId = p.bootId then p else Policy.reboot { p with bootId })
      else .error "Invalid runtime intent state" := by
  have hnonneg : ¬p.snapshot.failures < 0 := Int.not_lt.mpr (Int.natCast_nonneg p.failures)
  have hfields : (Phase.ofName p.snapshot.state).map (p.snapshot.fields bootId) =
      some { p with bootId } := by
    show (Phase.ofName p.state.name).map (p.snapshot.fields bootId) = _
    rw [Phase.ofName_name]
    rfl
  unfold restore
  rw [dif_neg bootId.property, if_neg (fun h => h rfl), hfields]
  show (if p.snapshot.failures < 0 ∨ p.isValid = false then _ else _) = _
  cases hvalid : p.isValid with
  | false => rw [if_pos (.inr rfl), if_neg Bool.false_ne_true]
  | true =>
    rw [if_neg (not_or.mpr ⟨hnonneg, Bool.true_eq_false_eq_False⟩), if_pos rfl]
    by_cases hboot : bootId = p.bootId
    · have hsame : ¬bootId.val ≠ p.snapshot.bootId := fun hne => hne (congrArg _ hboot)
      rw [if_neg hsame, if_pos hboot, hboot]
    · have hne : bootId.val ≠ p.snapshot.bootId := fun heq => hboot (Subtype.ext heq)
      rw [if_pos hne, if_neg hboot]

/-- What `restore` checks. -/
structure Policy.Valid (p : Policy) : Prop where
  readyAt : -1 ≤ p.readyAt
  retryAt : -1 ≤ p.retryAt
  recoveryUntil : -1 ≤ p.recoveryUntil
  stopped : p.wanted = false → p.state = .stopped
  ready : p.state = .ready → 0 ≤ p.readyAt
  retry : p.state = .retry → 0 ≤ p.retryAt

theorem Policy.isValid_iff : p.isValid = true ↔ p.Valid := by
  unfold Policy.isValid
  simp only [Bool.and_eq_true, decide_eq_true_eq, Bool.or_eq_true, beq_iff_eq, bne_iff_ne]
  constructor
  · rintro ⟨⟨⟨⟨⟨h1, h2⟩, h3⟩, hstopped⟩, hready⟩, hretry⟩
    refine ⟨h1, h2, h3, fun hwanted => ?_, fun hstate => ?_, fun hstate => ?_⟩
    · exact hstopped.resolve_left (by rw [hwanted]; exact Bool.false_ne_true)
    · exact hready.resolve_left (not_not.mpr hstate)
    · exact hretry.resolve_left (not_not.mpr hstate)
  · intro h
    refine ⟨⟨⟨⟨⟨h.readyAt, h.retryAt⟩, h.recoveryUntil⟩, ?_⟩, ?_⟩, ?_⟩
    · cases hwanted : p.wanted with
      | true => exact .inl rfl
      | false => exact .inr (h.stopped hwanted)
    · exact Classical.or_iff_not_imp_left.mpr fun hstate => h.ready (not_not.mp hstate)
    · exact Classical.or_iff_not_imp_left.mpr fun hstate => h.retry (not_not.mp hstate)

theorem Policy.permitsRecovery_iff :
    p.permitsRecovery = true ↔ p.wanted = true ∧ p.state ≠ .suspended := by
  unfold Policy.permitsRecovery
  rw [Bool.and_eq_true, bne_iff_ne]

theorem Policy.Valid.reboot (h : p.Valid) : p.reboot.Valid := by
  unfold Policy.reboot
  split
  · rename_i hpermits
    obtain ⟨hwanted, -⟩ := Policy.permitsRecovery_iff.mp hpermits
    refine ⟨Int.le_refl (-1), Int.neg_nonpos_of_nonneg (by decide), Int.le_refl (-1),
      fun hnot => ?_, nofun, fun _ => Int.le_refl 0⟩
    exact Bool.noConfusion (hwanted.symm.trans hnot)
  · rename_i hpermits
    have hidle : p.state = .stopped ∨ p.state = .suspended := by
      cases hwanted : p.wanted with
      | false => exact .inl (h.stopped hwanted)
      | true =>
        right
        by_contra hstate
        exact hpermits (Policy.permitsRecovery_iff.mpr ⟨hwanted, hstate⟩)
    refine ⟨Int.le_refl (-1), h.retryAt, Int.le_refl (-1), h.stopped, fun hstate => ?_, h.retry⟩
    rcases hidle with hidle | hidle
    · exact nomatch hidle.symm.trans hstate
    · exact nomatch hidle.symm.trans hstate

theorem Policy.stable_cases (p : Policy) (now : Int) :
    p.stable now = (p, false) ∨
      p.isStable now = true ∧
        p.stable now = ({ p with failures := 0, recoveryUntil := -1 }, true) := by
  unfold Policy.stable
  split
  · rename_i h
    exact .inr ⟨(Bool.and_eq_true _ _ ▸ h).1, rfl⟩
  · exact .inl rfl

theorem Policy.Valid.stable (h : p.Valid) : (p.stable now).1.Valid := by
  rcases p.stable_cases now with heq | ⟨-, heq⟩
  · rw [heq]
    exact h
  · rw [heq]
    exact { h with recoveryUntil := Int.le_refl (-1) }

theorem Policy.Fails.valid {out : Policy × Result} (hfails : p.Fails now out)
    (hnow : 0 ≤ now) (hready : p.readyAt = -1) (huntil : -1 ≤ p.recoveryUntil)
    (hwanted : p.wanted = true) (hresult : out.2 ≠ .overflow) : out.1.Valid := by
  have hnot : ¬p.wanted = false := by
    rw [hwanted]
    exact Bool.true_eq_false_eq_False
  have hreadyAt : -1 ≤ p.readyAt := hready.ge
  cases hfails with
  | closed | spent =>
    exact ⟨hreadyAt, Int.le_refl (-1), huntil, fun h => absurd h hnot, nofun, nofun⟩
  | granted =>
    have hretry : 0 ≤ now + retryDelay (p.failures + 1) :=
      Int.add_nonneg hnow (retryDelay_nonneg _)
    exact ⟨hreadyAt, by show -1 ≤ now + retryDelay (p.failures + 1); omega, huntil,
      fun h => absurd h hnot, nofun, fun _ => hretry⟩
  | full | late => exact absurd rfl hresult

theorem Policy.Valid.failed (h : p.Valid) (hnow : 0 ≤ now)
    (hresult : (p.failed now).2 ≠ .overflow) : (p.failed now).1.Valid := by
  rcases p.failed_cases now with ⟨-, heq⟩ | ⟨-, -, heq⟩ | ⟨hpermits, q, hwindow, hfails⟩
  · rw [heq]
    exact h
  · rw [heq] at hresult
    exact absurd rfl hresult
  · have hstable : (p.stable now).1.Valid := h.stable
    have hwanted : (p.interrupted now).wanted = true := by
      have hsame : (p.stable now).1.wanted = p.wanted := by
        rcases p.stable_cases now with heq | ⟨-, heq⟩ <;> rw [heq]
      exact hsame.trans (Policy.permitsRecovery_iff.mp hpermits).1
    rcases Policy.openWindow_eq_some hwindow with ⟨-, rfl⟩ | ⟨-, -, rfl⟩
    · exact hfails.valid hnow rfl hstable.recoveryUntil hwanted hresult
    · refine hfails.valid hnow rfl ?_ hwanted hresult
      show -1 ≤ now + stableWindow
      unfold stableWindow
      omega

theorem Policy.Valid.serviceRecreated (h : p.Valid) (hnow : 0 ≤ now)
    (hresult : (p.serviceRecreated now).2 ≠ .overflow) : (p.serviceRecreated now).1.Valid := by
  unfold Policy.serviceRecreated at hresult ⊢
  split
  · rename_i hpermits
    rw [if_pos hpermits] at hresult
    obtain ⟨hwanted, -⟩ := Policy.permitsRecovery_iff.mp hpermits
    split
    · rename_i hrunning
      rw [if_pos hrunning] at hresult
      exact h.failed hnow hresult
    · split
      · exact ⟨h.readyAt, Int.le_refl (-1), h.recoveryUntil,
          fun hnot => Bool.noConfusion (hwanted.symm.trans hnot), nofun, nofun⟩
      · split
        · exact h
        · exact h
  · exact h

/-- **Every call that does not overflow keeps a policy that can be restored.** -/
theorem Policy.Valid.step (h : p.Valid) (htimes : ∀ now ∈ call.time, 0 ≤ now)
    (hresult : (p.step call).2 ≠ .overflow) : (p.step call).1.Valid := by
  cases call with
  | userStarted now sessionActive =>
    have hnow : 0 ≤ now := htimes now rfl
    show (p.userStarted now sessionActive).Valid
    unfold Policy.userStarted
    split
    · exact { h with recoveryUntil := Int.le_refl (-1), stopped := nofun }
    · exact ⟨Int.le_refl (-1), by show -1 ≤ now; omega, Int.le_refl (-1), nofun, nofun, fun _ => hnow⟩
  | userStopped =>
    exact ⟨Int.le_refl (-1), Int.le_refl (-1), Int.le_refl (-1), fun _ => rfl, nofun, nofun⟩
  | launching =>
    show (p.launching).1.Valid
    unfold Policy.launching
    split
    · rename_i hpermits
      obtain ⟨hwanted, -⟩ := Policy.permitsRecovery_iff.mp hpermits
      exact ⟨Int.le_refl (-1), Int.le_refl (-1), h.recoveryUntil,
        fun hnot => Bool.noConfusion (hwanted.symm.trans hnot), nofun, nofun⟩
    · exact h
  | ready now =>
    have hnow : 0 ≤ now := htimes now rfl
    show (p.ready now).Valid
    unfold Policy.ready
    split
    · rename_i hpermits
      obtain ⟨hwanted, -⟩ := Policy.permitsRecovery_iff.mp (Bool.and_eq_true _ _ ▸ hpermits).1
      exact ⟨by show -1 ≤ now; omega, h.retryAt, h.recoveryUntil,
        fun hnot => Bool.noConfusion (hwanted.symm.trans hnot), fun _ => hnow, nofun⟩
    · exact h
  | stable now => exact h.stable
  | failed now => exact h.failed (htimes now rfl) hresult
  | serviceRecreated now => exact h.serviceRecreated (htimes now rfl) hresult
  | restore bootId =>
    have hvalid : p.isValid = true := Policy.isValid_iff.mpr h
    have hsame : Policy.Valid { p with bootId } := { h with }
    show (match restore p.snapshot bootId with
      | .ok restored => (restored, Result.void)
      | .error _ => (p, .refused)).1.Valid
    rw [restore_snapshot, if_pos hvalid]
    show (if bootId = p.bootId then p else Policy.reboot { p with bootId }).Valid
    split
    · exact h
    · exact hsame.reboot

/-- One call at a time that is a long, not before zero. -/
def Policy.timely (p : Policy) (call : Call) : Option Policy :=
  if ∀ now ∈ call.time, 0 ≤ now ∧ now < 2 ^ 63 then some (p.step call).1 else none

/-- The policies of a process, call after call. -/
def calls : LTS Policy Call := .ofFun (fun p => ∃ bootId, p = { bootId }) Policy.timely

/-- No call has thrown an `ArithmeticException`. -/
def Exact (p : Policy) (call : Call) : Prop := (p.step call).2 ≠ .overflow

theorem valid_of_runOf {labels : List Call} (h : calls.RunOf Exact labels p) : p.Valid := by
  refine h.invariant (I := fun _ p => p.Valid) ?_ ?_
  · rintro _ ⟨bootId, rfl⟩
    exact ⟨Int.le_refl (-1), Int.le_refl (-1), Int.le_refl (-1), fun _ => rfl, nofun, nofun⟩
  · intro _ p call p' hvalid hexact hstep
    obtain ⟨htimes, hnext⟩ := Option.ite_none_right_eq_some.mp hstep
    cases hnext
    exact hvalid.step (fun now hnow => (htimes now hnow).1) hexact

/-- **Every policy that was reached without an overflow can be stored and restored**: under the same
boot identity it is the same policy; under another one it keeps what the user wants, the failures
and the suspension, is due for a retry at once if it was wanted and not suspended, and can be
restored again. -/
theorem snapshot_restores {labels : List Call} (h : calls.RunOf Exact labels p) :
    restore p.snapshot p.bootId = .ok p ∧
      ∀ bootId : BootId, bootId ≠ p.bootId → ∃ q, restore p.snapshot bootId = .ok q ∧
        q.bootId = bootId ∧ q.wanted = p.wanted ∧ q.failures = p.failures ∧
        (q.state = .suspended ↔ p.state = .suspended) ∧
        (p.wanted = true → p.state ≠ .suspended → q.state = .retry ∧ q.retryAt = 0) ∧
        restore q.snapshot bootId = .ok q ∧
        ∀ next : BootId, ∃ r, restore q.snapshot next = .ok r := by
  have hp : p.Valid := valid_of_runOf h
  have hvalid : p.isValid = true := Policy.isValid_iff.mpr hp
  constructor
  · rw [restore_snapshot, if_pos hvalid, if_pos rfl]
  · intro bootId hne
    have hmoved : Policy.Valid { p with bootId } := { hp with }
    have hrebooted : (Policy.reboot { p with bootId }).isValid = true :=
      Policy.isValid_iff.mpr hmoved.reboot
    have hself : (Policy.reboot { p with bootId }).bootId = bootId := by
      unfold Policy.reboot
      split <;> rfl
    refine ⟨Policy.reboot { p with bootId }, ?_, hself, ?_, ?_, ?_, ?_, ?_, fun next => ?_⟩
    · rw [restore_snapshot, if_pos hvalid, if_neg hne]
    · unfold Policy.reboot
      split <;> rfl
    · unfold Policy.reboot
      split <;> rfl
    · unfold Policy.reboot
      split
      · rename_i hpermits
        exact iff_of_false nofun (Policy.permitsRecovery_iff.mp hpermits).2
      · exact Iff.rfl
    · intro hwanted hstate
      have hpermits : Policy.permitsRecovery { p with bootId } = true :=
        Policy.permitsRecovery_iff.mpr ⟨hwanted, hstate⟩
      unfold Policy.reboot
      rw [if_pos hpermits]
      exact ⟨rfl, rfl⟩
    · rw [restore_snapshot, if_pos hrebooted, if_pos hself.symm]
    · rw [restore_snapshot, if_pos hrebooted]
      exact ⟨_, rfl⟩

def bootA : BootId := ⟨"a", by decide⟩

def bootB : BootId := ⟨"b", by decide⟩

/-- A call that does not overflow, for evaluating. -/
def Policy.exactly (p : Policy) (call : Call) : Option Policy :=
  if (p.step call).2 = .overflow then none else p.timely call

/-- A policy that is ready for the second time, under another boot. -/
theorem snapshot_restores_rebooted :
    ∃ labels p, calls.RunOf Exact labels p ∧ p.bootId = bootB ∧ p.state = .ready ∧
      restore p.snapshot bootB = .ok p := by
  have hexactly : ∀ {p call p'}, Policy.exactly p call = some p' →
      Exact p call ∧ calls.Step p call p' :=
    fun hstep => Option.ite_none_left_eq_some.mp hstep
  obtain ⟨p, hrun, hboot, hstate⟩ := LTS.exists_runOf_exec hexactly
    (⟨bootA, rfl⟩ : calls.Init { bootId := bootA })
    [.userStarted 5 false, .launching, .ready 20, .failed 30, .restore bootB, .launching, .ready 10]
    (fun p => p.bootId = bootB ∧ p.state = .ready) (by decide +kernel)
  have hsame := (snapshot_restores hrun).1
  rw [hboot] at hsame
  exact ⟨_, p, hrun, hboot, hstate, hsame⟩

/-- **A failure at the end of time spoils the policy**: `failed` forgets when the policy became
ready, throws because the window would end after the last long, and leaves a ready policy that
`restore` refuses. -/
theorem overflow_spoils_snapshot :
    ∃ labels p, calls.Run labels p ∧
      restore p.snapshot p.bootId = .error "Invalid runtime intent state" := by
  obtain ⟨p, hrun, hp⟩ := LTS.exists_run_of_exec (A := calls) (fun h => h)
    (⟨bootA, rfl⟩ : calls.Init { bootId := bootA })
    [.userStarted 0 false, .launching, .ready 0, .failed (2 ^ 63 - 1)]
    (fun p => p.isValid = false) (by decide +kernel)
  refine ⟨_, p, hrun, ?_⟩
  rw [restore_snapshot, hp, if_neg Bool.false_ne_true]

end FoldGPT.App
