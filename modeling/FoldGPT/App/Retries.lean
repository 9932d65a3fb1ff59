import FoldGPT.App.Recovery

/-!
# The retries of the recovery policy

A reset gives `RuntimeRecoveryPolicy` a new budget. Here the retries between two resets are
counted along a history: the delay after the tenth failure is the whole window, so at most nine
delays fit, provided that the time does not go back and the window is the one its first failure
opened.

Main result: `retries_bounded`.
-/

namespace FoldGPT.App

open FoldGPT.Lib

variable {p q : Policy} {now : Int} {call : Call}

/-! ### Counting retries -/

/-- The time at which a call runs `failed`. -/
def Policy.failure (p : Policy) : Call → Option Int
  | .failed now => some now
  | .serviceRecreated now =>
    if p.permitsRecovery && (p.state == .starting || p.state == .ready) then some now else none
  | _ => none

/-- A call in which `failed` grants a retry. -/
def Policy.grants (p : Policy) (call : Call) : Bool :=
  match p.failure call, (p.step call).2 with
  | some _, .delay value => decide (0 ≤ value)
  | _, _ => false

/-- A call that gives the policy a new budget: the user's, a ready period of at least the window, or
another boot. -/
def Policy.resets (p : Policy) : Call → Bool
  | .userStarted _ _ | .userStopped => true
  | .restore bootId => bootId != p.bootId
  | .stable now | .failed now | .serviceRecreated now => p.isStable now
  | .launching | .ready _ => false

/-- A policy, the time of the last call, and the retries `failed` has granted since the last
reset. -/
structure Watch where
  policy : Policy
  now : Int := 0
  granted : Nat := 0

namespace Watch

def step (w : Watch) (call : Call) : Option Watch :=
  if ∀ now ∈ call.time, w.now ≤ now ∧ now < 2 ^ 63 then
    some
      { policy := (w.policy.step call).1
        now := call.time.getD w.now
        granted := (if w.policy.resets call then 0 else w.granted) +
          if w.policy.grants call then 1 else 0 }
  else none

/-- The calls on a policy at times that do not go back. -/
def machine : LTS Watch Call := .ofFun (fun w => ∃ bootId, w = { policy := { bootId } }) step

/-- **The invariant of the budget.** -/
structure Budget (w : Watch) : Prop where
  time : 0 ≤ w.now
  window : w.policy.recoveryUntil ≤ w.now + stableWindow
  long : w.policy.recoveryUntil < 2 ^ 63
  granted : w.granted ≤ w.policy.failures
  nine : w.granted ≤ 9
  /-- A retry has been granted only in an open window. -/
  opened : 0 < w.granted → 0 ≤ w.policy.recoveryUntil
  /-- Only a suspended policy has counted a tenth failure. -/
  failures : w.policy.failures ≤ 9 ∨ w.policy.state = .suspended ∧ w.policy.failures ≤ 10

variable {w w' : Watch}

theorem step_eq_some (h : w.step call = some w') :
    (∀ now ∈ call.time, w.now ≤ now ∧ now < 2 ^ 63) ∧
      w'.policy = (w.policy.step call).1 ∧ w'.now = call.time.getD w.now ∧
      w'.granted = (if w.policy.resets call then 0 else w.granted) +
        if w.policy.grants call then 1 else 0 := by
  obtain ⟨htimes, hnext⟩ := Option.ite_none_right_eq_some.mp h
  cases hnext
  exact ⟨htimes, rfl, rfl, rfl⟩

theorem Budget.fails {p : Policy} {out : Policy × Result} (hfails : p.Fails now out) {granted : Nat}
    (hnow : 0 ≤ now) (hwindow : p.recoveryUntil ≤ now + stableWindow) (hopen : 0 ≤ p.recoveryUntil)
    (hlong : p.recoveryUntil < 2 ^ 63) (hgranted : granted ≤ p.failures) (hnine : p.failures ≤ 9) :
    (out.2 = .delay (-1) ∧ Budget ⟨out.1, now, granted⟩) ∨
      (∃ delay, 0 ≤ delay ∧ out.2 = .delay delay ∧ out.1.retryAt < out.1.recoveryUntil ∧
        Budget ⟨out.1, now, granted + 1⟩) := by
  cases hfails with
  | closed =>
    exact .inl ⟨rfl, hnow, hwindow, hlong, hgranted, hgranted.trans hnine, fun _ => hopen,
      .inl hnine⟩
  | spent =>
    exact .inl ⟨rfl, hnow, hwindow, hlong, Nat.le_succ_of_le hgranted, hgranted.trans hnine,
      fun _ => hopen, .inr ⟨rfl, Nat.succ_le_succ hnine⟩⟩
  | granted hdelay =>
    have hless : p.failures + 1 ≤ 9 := by
      by_contra hten
      rw [retryDelay_of_ten_le (by omega)] at hdelay
      omega
    refine .inr ⟨_, retryDelay_nonneg _, rfl, ?_, hnow, hwindow, hlong, Nat.succ_le_succ hgranted,
      (Nat.succ_le_succ hgranted).trans hless, fun _ => hopen, .inl hless⟩
    show now + retryDelay (p.failures + 1) < p.recoveryUntil
    omega
  | full h =>
    omega
  | late hdelay h =>
    have hdelay' := retryDelay_nonneg (p.failures + 1)
    unfold addExact at h
    rw [if_pos (by omega)] at h
    exact nomatch h

theorem Budget.mono {p : Policy} {granted less : Nat} {t : Int}
    (h : Budget ⟨p, t, granted⟩) (hless : less ≤ granted) (hnow : t ≤ now) :
    Budget ⟨p, now, less⟩ where
  __ := h
  time := h.time.trans hnow
  window := h.window.trans (by show t + stableWindow ≤ now + stableWindow; omega)
  granted := hless.trans h.granted
  nine := hless.trans h.nine
  opened hpos := h.opened (hpos.trans_le hless)

/-- Without a window, a budget is a new one. -/
theorem Budget.fresh {p : Policy} (hnow : 0 ≤ now) (hwindow : p.recoveryUntil = -1)
    (hfailures : p.failures ≤ 9 ∨ p.state = .suspended ∧ p.failures ≤ 10) :
    Budget ⟨p, now, 0⟩ where
  time := hnow
  window := by
    show p.recoveryUntil ≤ now + stableWindow
    unfold stableWindow
    omega
  long := by
    show p.recoveryUntil < 2 ^ 63
    omega
  granted := Nat.zero_le _
  nine := Nat.zero_le 9
  opened hpos := absurd hpos (Nat.lt_irrefl 0)
  failures := hfailures

theorem Budget.nine_failures (h : w.Budget) (hpermits : w.policy.permitsRecovery = true) :
    w.policy.failures ≤ 9 :=
  h.failures.resolve_right fun hsuspended =>
    (Policy.permitsRecovery_iff.mp hpermits).2 hsuspended.1

/-- The retries of the burst a failure at `now` belongs to. -/
def burst (w : Watch) (now : Int) : Nat := if w.policy.isStable now then 0 else w.granted

theorem burst_le (w : Watch) (now : Int) : w.burst now ≤ w.granted := by
  unfold burst
  split
  · exact Nat.zero_le _
  · exact Nat.le_refl _

theorem Budget.stable (h : w.Budget) (hnow : w.now ≤ now) :
    Budget ⟨(w.policy.stable now).1, now, w.burst now⟩ := by
  rcases w.policy.stable_cases now with heq | ⟨hstable, heq⟩
  · rw [heq]
    exact h.mono (w.burst_le now) hnow
  · have hburst : w.burst now = 0 := if_pos hstable
    rw [heq, hburst]
    have htime := h.time
    exact Budget.fresh (htime.trans hnow) rfl (.inl (Nat.zero_le 9))

/-- **A failure**: it grants no retry, or one that lies before the end of the window. -/
theorem Budget.failed (h : w.Budget) (hnow : w.now ≤ now) :
    ((∀ delay, (w.policy.failed now).2 = .delay delay → delay < 0) ∧
      Budget ⟨(w.policy.failed now).1, now, w.burst now⟩) ∨
    ∃ delay, 0 ≤ delay ∧ (w.policy.failed now).2 = .delay delay ∧
      (w.policy.failed now).1.retryAt < (w.policy.failed now).1.recoveryUntil ∧
      Budget ⟨(w.policy.failed now).1, now, w.burst now + 1⟩ := by
  have hstable : Budget ⟨(w.policy.stable now).1, now, w.burst now⟩ := h.stable hnow
  have hzero : 0 ≤ now := h.time.trans hnow
  rcases w.policy.failed_cases now with ⟨-, heq⟩ | ⟨-, -, heq⟩ | ⟨hpermits, q, hwindow, hfails⟩
  · rw [heq]
    refine .inl ⟨fun delay hdelay => ?_, h.mono (w.burst_le now) hnow⟩
    obtain rfl := Result.delay.inj hdelay
    decide
  · rw [heq]
    exact .inl ⟨nofun, { hstable with }⟩
  · have hnine : (w.policy.interrupted now).failures ≤ 9 := by
      have hfailures := h.nine_failures hpermits
      show (w.policy.stable now).1.failures ≤ 9
      rcases w.policy.stable_cases now with heq | ⟨-, heq⟩
      · rw [heq]
        exact hfailures
      · rw [heq]
        exact Nat.zero_le 9
    have hout : ((w.policy.failed now).2 = .delay (-1) ∧
          Budget ⟨(w.policy.failed now).1, now, w.burst now⟩) ∨
        ∃ delay, 0 ≤ delay ∧ (w.policy.failed now).2 = .delay delay ∧
          (w.policy.failed now).1.retryAt < (w.policy.failed now).1.recoveryUntil ∧
          Budget ⟨(w.policy.failed now).1, now, w.burst now + 1⟩ := by
      rcases Policy.openWindow_eq_some hwindow with ⟨hopen, rfl⟩ | ⟨-, hlong, rfl⟩
      · exact Budget.fails hfails hzero hstable.window hopen hstable.long hstable.granted hnine
      · refine Budget.fails hfails hzero (Int.le_refl _) ?_ hlong hstable.granted hnine
        show 0 ≤ now + stableWindow
        unfold stableWindow
        omega
    rcases hout with ⟨hresult, hbudget⟩ | hgranted
    · refine .inl ⟨fun delay hdelay => ?_, hbudget⟩
      obtain rfl := Result.delay.inj (hresult.symm.trans hdelay)
      decide
    · exact .inr hgranted

theorem Budget.serviceRecreated (h : w.Budget) (hnow : w.now ≤ now) :
    (w.policy.failure (.serviceRecreated now) = some now ∧
      w.policy.serviceRecreated now = w.policy.failed now) ∨
    (w.policy.failure (.serviceRecreated now) = none ∧
      Budget ⟨(w.policy.serviceRecreated now).1, now, w.burst now⟩) := by
  unfold Policy.failure Policy.serviceRecreated
  have hsame : Budget ⟨w.policy, now, w.burst now⟩ := h.mono (w.burst_le now) hnow
  cases hpermits : w.policy.permitsRecovery with
  | false => exact .inr ⟨rfl, hsame⟩
  | true =>
    cases hrunning : (w.policy.state == .starting || w.policy.state == .ready) with
    | true => exact .inl ⟨rfl, rfl⟩
    | false =>
      refine .inr ⟨rfl, ?_⟩
      simp only [if_true, Bool.false_eq_true, if_false]
      split
      · exact { hsame with failures := .inl (h.nine_failures hpermits) }
      · split
        · exact hsame
        · exact hsame

theorem grants_of_failed {call : Call} {p : Policy} (hfailure : p.failure call = some now)
    (hstep : p.step call = p.failed now) :
    p.grants call = match (p.failed now).2 with
      | .delay value => decide (0 ≤ value)
      | _ => false := by
  unfold Policy.grants
  rw [hfailure, hstep]
  cases (p.failed now).2 <;> rfl

theorem Budget.failing (h : w.Budget) (hnow : w.now ≤ now)
    (hfailure : w.policy.failure call = some now) (hcall : w.policy.step call = w.policy.failed now) :
    Budget ⟨(w.policy.step call).1, now,
        w.burst now + if w.policy.grants call then 1 else 0⟩ ∧
      (w.policy.grants call = true →
        (w.policy.step call).1.retryAt < (w.policy.step call).1.recoveryUntil) := by
  rw [grants_of_failed hfailure hcall, hcall]
  rcases h.failed hnow with ⟨hnone, hbudget⟩ | ⟨delay, hpos, hdelay, hbefore, hbudget⟩
  · have hnot : (match (w.policy.failed now).2 with
        | .delay value => decide (0 ≤ value)
        | _ => false) = false := by
      cases hresult : (w.policy.failed now).2 with
      | delay value => exact decide_eq_false (not_le.mpr (hnone value hresult))
      | void | bool | refused | overflow => rfl
    rw [hnot]
    exact ⟨hbudget, nofun⟩
  · rw [hdelay]
    simp only [decide_eq_true hpos, if_true]
    exact ⟨hbudget, fun _ => hbefore⟩

theorem Budget.step (h : w.Budget) (hstep : w.step call = some w') :
    w'.Budget ∧ (w.policy.grants call = true →
      w'.policy.retryAt < w'.policy.recoveryUntil) := by
  obtain ⟨policy', now', granted'⟩ := w'
  obtain ⟨htimes, rfl, rfl, rfl⟩ := step_eq_some hstep
  cases call with
  | userStarted now sessionActive =>
    have hnow : 0 ≤ now := h.time.trans (htimes now rfl).1
    refine ⟨?_, by rintro ⟨⟩⟩
    show Budget ⟨w.policy.userStarted now sessionActive, now, 0⟩
    unfold Policy.userStarted
    split
    · exact Budget.fresh hnow rfl (.inl (Nat.zero_le 9))
    · exact Budget.fresh hnow rfl (.inl (Nat.zero_le 9))
  | userStopped => exact ⟨Budget.fresh h.time rfl (.inl (Nat.zero_le 9)), by rintro ⟨⟩⟩
  | launching =>
    refine ⟨?_, by rintro ⟨⟩⟩
    show Budget ⟨w.policy.launching.1, w.now, w.granted⟩
    unfold Policy.launching
    split
    · rename_i hpermits
      exact { h with failures := .inl (h.nine_failures hpermits) }
    · exact h
  | ready now =>
    have hlater : Budget ⟨w.policy, now, w.granted⟩ :=
      h.mono (Nat.le_refl _) (htimes now rfl).1
    refine ⟨?_, by rintro ⟨⟩⟩
    show Budget ⟨w.policy.ready now, now, w.granted⟩
    unfold Policy.ready
    split
    · rename_i hpermits
      exact { hlater with
        failures := .inl (h.nine_failures (Bool.and_eq_true _ _ ▸ hpermits).1) }
    · exact hlater
  | stable now => exact ⟨h.stable (htimes now rfl).1, by rintro ⟨⟩⟩
  | failed now => exact h.failing (htimes now rfl).1 rfl rfl
  | serviceRecreated now =>
    have hnow : w.now ≤ now := (htimes now rfl).1
    rcases h.serviceRecreated hnow with ⟨hfailure, hsame⟩ | ⟨hfailure, hbudget⟩
    · exact h.failing hnow hfailure hsame
    · have hnot : w.policy.grants (.serviceRecreated now) = false := by
        unfold Policy.grants
        rw [hfailure]
      rw [hnot]
      exact ⟨hbudget, by rintro ⟨⟩⟩
  | restore bootId =>
    refine ⟨?_, by rintro ⟨⟩⟩
    show Budget ⟨(w.policy.step (.restore bootId)).1, w.now,
      if (bootId != w.policy.bootId) = true then 0 else w.granted⟩
    unfold Policy.step
    dsimp only
    rw [restore_snapshot]
    have hkept : Budget ⟨w.policy, w.now,
        if (bootId != w.policy.bootId) = true then 0 else w.granted⟩ := by
      refine h.mono ?_ (Int.le_refl _)
      split
      · exact Nat.zero_le _
      · exact Nat.le_refl _
    cases w.policy.isValid with
    | false => exact hkept
    | true =>
      by_cases hboot : bootId = w.policy.bootId
      · rw [if_pos rfl, if_pos hboot]
        exact hkept
      · rw [if_pos rfl, if_neg hboot, if_pos (bne_iff_ne.mpr hboot)]
        show Budget ⟨Policy.reboot { w.policy with bootId }, w.now, 0⟩
        unfold Policy.reboot
        split
        · rename_i hpermits
          exact Budget.fresh h.time rfl (.inl (h.nine_failures hpermits))
        · exact Budget.fresh h.time rfl h.failures

theorem budget_of_run {labels : List Call} (h : machine.Run labels w) : w.Budget := by
  refine h.invariant (I := fun _ w => w.Budget) ?_ ?_
  · rintro _ ⟨bootId, rfl⟩
    exact Budget.fresh (Int.le_refl 0) rfl (.inl (Nat.zero_le 9))
  · intro _ w call w' _ hbudget hstep
    exact (hbudget.step hstep).1

/-- **The budget is spent**: nine retries have been granted, or the window is over. -/
def Spent (w : Watch) (now : Int) : Prop :=
  w.granted = 9 ∨ 0 ≤ w.policy.recoveryUntil ∧ w.policy.recoveryUntil ≤ now

theorem Budget.failed_spent (h : w.Budget) (hnow : w.now ≤ now)
    (hpermits : w.policy.permitsRecovery = true) (hburst : w.policy.isStable now = false)
    (hspent : w.Spent now) :
    (w.policy.failed now).1.state = .suspended ∧ (w.policy.failed now).2 = .delay (-1) := by
  have hopen : 0 ≤ w.policy.recoveryUntil := by
    rcases hspent with hnine | ⟨hopen, -⟩
    · exact h.opened (by omega)
    · exact hopen
  have hstable : w.policy.stable now = (w.policy, false) := by
    rcases w.policy.stable_cases now with heq | ⟨hstable, -⟩
    · exact heq
    · exact Bool.noConfusion (hburst.symm.trans hstable)
  have hsame : w.policy.interrupted now = { w.policy with readyAt := -1 } := by
    unfold Policy.interrupted
    rw [hstable]
  -- The next delay does not fit.
  have htooLate : w.policy.recoveryUntil - now ≤ retryDelay (w.policy.failures + 1) := by
    rcases hspent with hnine | ⟨-, hover⟩
    · have hgranted := h.granted
      have hwindow := h.window
      rw [retryDelay_of_ten_le (by omega)]
      omega
    · have hnonneg := retryDelay_nonneg (w.policy.failures + 1)
      omega
  have hfew : w.policy.failures ≤ 9 := h.nine_failures hpermits
  rcases w.policy.failed_cases now with ⟨hnot, -⟩ | ⟨-, hwindow, -⟩ | ⟨-, q, hwindow, hfails⟩
  · exact Bool.noConfusion (hpermits.symm.trans hnot)
  · have hclosed := Policy.openWindow_eq_none hwindow
    rw [hsame] at hclosed
    exact absurd hopen (not_le.mpr hclosed)
  · rw [hsame] at hwindow
    obtain ⟨-, rfl⟩ := (Policy.openWindow_eq_some hwindow).resolve_right
      fun hclosed => not_le.mpr hclosed.1 hopen
    revert hfails
    generalize w.policy.failed now = out
    intro hfails
    cases hfails with
    | closed | spent => exact ⟨rfl, rfl⟩
    | granted hdelay | late hdelay => exact absurd htooLate (not_le.mpr hdelay)
    | full hfull =>
      exact absurd (show 2 ^ 31 ≤ w.policy.failures + 1 from hfull) (by omega)

end Watch

/-! ### Suspended and stopped policies -/

def Call.isStart : Call → Bool
  | .userStarted _ _ => true
  | _ => false

theorem Policy.permits_step (h : p.permitsRecovery = false) (hcall : call.isStart = false) :
    (p.step call).1.permitsRecovery = false := by
  cases call with
  | userStarted now sessionActive => cases hcall
  | userStopped => rfl
  | launching =>
    show p.launching.1.permitsRecovery = false
    unfold Policy.launching
    rw [h]
    exact h
  | ready now =>
    show (p.ready now).permitsRecovery = false
    unfold Policy.ready
    rw [h]
    exact h
  | stable now =>
    show (p.stable now).1.permitsRecovery = false
    rcases p.stable_cases now with heq | ⟨-, heq⟩
    · rw [heq]
      exact h
    · rw [heq]
      exact h
  | failed now =>
    show (p.failed now).1.permitsRecovery = false
    unfold Policy.failed
    rw [h]
    exact h
  | serviceRecreated now =>
    show (p.serviceRecreated now).1.permitsRecovery = false
    unfold Policy.serviceRecreated
    rw [h]
    exact h
  | restore bootId =>
    have hsame : Policy.permitsRecovery { p with bootId } = false := h
    unfold Policy.step
    dsimp only
    rw [restore_snapshot]
    cases p.isValid with
    | false => exact h
    | true =>
      by_cases hboot : bootId = p.bootId
      · rw [if_pos rfl, if_pos hboot]
        exact h
      · rw [if_pos rfl, if_neg hboot]
        show (Policy.reboot { p with bootId }).permitsRecovery = false
        unfold Policy.reboot
        rw [hsame]
        exact h

/-- The policy after some calls. -/
def Policy.after (p : Policy) (later : List Call) : Policy :=
  later.foldl (fun p call => (p.step call).1) p

/-- **A policy that grants nothing**: no retry, and no launch. -/
structure Policy.Silent (p : Policy) : Prop where
  launching : p.launching.2 = .refused
  failed : ∀ now, (p.failed now).2 = .delay (-1)
  recreated : ∀ now, (p.serviceRecreated now).2 = .delay (-1)

theorem Policy.silent_after (h : p.permitsRecovery = false) {later : List Call}
    (hlater : ∀ call ∈ later, call.isStart = false) : (p.after later).Silent := by
  induction later generalizing p with
  | nil =>
    refine ⟨?_, fun now => ?_, fun now => ?_⟩
    · show p.launching.2 = .refused
      rw [Policy.launching, h]
      rfl
    · show (p.failed now).2 = .delay (-1)
      rw [Policy.failed, h]
      rfl
    · show (p.serviceRecreated now).2 = .delay (-1)
      rw [Policy.serviceRecreated, h]
      rfl
  | cons call rest ih =>
    obtain ⟨hcall, hrest⟩ := List.forall_mem_cons.mp hlater
    exact ih (Policy.permits_step h hcall) hrest

/-- **The retries of a policy.** Along all calls at times that do not go back: between two resets
at most nine retries are granted; a granted retry lies before the end of the window; a failure after
the budget is spent suspends the policy; and a suspended policy, as one the user has stopped, grants
no retry and no launch before `userStarted`. -/
theorem retries_bounded {labels : List Call} {w : Watch} (h : Watch.machine.Run labels w) :
    w.granted ≤ 9 ∧
    (∀ call w', Watch.machine.Step w call w' → w.policy.grants call = true →
      w'.policy.retryAt < w'.policy.recoveryUntil) ∧
    (∀ call now w', Watch.machine.Step w call w' → w.policy.failure call = some now →
      w.policy.permitsRecovery = true → w.policy.resets call = false → w.Spent now →
      w'.policy.state = .suspended ∧ (w.policy.step call).2 = .delay (-1)) ∧
    ∀ later : List Call, (∀ call ∈ later, call.isStart = false) →
      (w.policy.state = .suspended → (w.policy.after later).Silent) ∧
      (w.policy.userStopped.after later).Silent := by
  have hbudget : w.Budget := Watch.budget_of_run h
  refine ⟨hbudget.nine, fun call w' hstep => (hbudget.step hstep).2, ?_, ?_⟩
  · intro call now w' hstep hfailure hpermits hkept hspent
    obtain ⟨htimes, hpolicy, -⟩ := Watch.step_eq_some hstep
    rw [hpolicy]
    cases call with
    | failed time =>
      obtain rfl := Option.some.inj hfailure
      exact hbudget.failed_spent (htimes time rfl).1 hpermits hkept hspent
    | serviceRecreated time =>
      obtain ⟨hrunning, hsame⟩ := Option.ite_none_right_eq_some.mp hfailure
      obtain rfl := Option.some.inj hsame
      have hfailed : w.policy.serviceRecreated time = w.policy.failed time := by
        rw [Policy.serviceRecreated, if_pos hpermits,
          if_pos (Bool.and_eq_true _ _ ▸ hrunning).2]
      show (w.policy.serviceRecreated time).1.state = .suspended ∧
        (w.policy.serviceRecreated time).2 = .delay (-1)
      rw [hfailed]
      exact hbudget.failed_spent (htimes time rfl).1 hpermits hkept hspent
    | userStarted | userStopped | launching | ready | stable | restore => exact nomatch hfailure
  · intro later hlater
    refine ⟨fun hsuspended => Policy.silent_after ?_ hlater, Policy.silent_after rfl hlater⟩
    rw [Policy.permitsRecovery, hsuspended]
    exact Bool.and_false _

/-- Nine failures at once are granted nine retries, and the tenth suspends. -/
theorem retries_bounded_tenth :
    ∃ labels w w', Watch.machine.Run labels w ∧ w.granted = 9 ∧
      Watch.machine.Step w (.failed 7) w' ∧ w'.policy.state = .suspended := by
  obtain ⟨w, hrun, hgranted, hpermits, hstable, hstep⟩ :=
    LTS.exists_run_of_exec (A := Watch.machine) (fun h => h)
      (⟨bootA, rfl⟩ : Watch.machine.Init { policy := { bootId := bootA } })
      (.userStarted 0 false :: List.replicate 9 (.failed 7))
      (fun w => w.granted = 9 ∧ w.policy.permitsRecovery = true ∧
        w.policy.resets (.failed 7) = false ∧ (w.step (.failed 7)).isSome = true)
      (by decide +kernel)
  obtain ⟨w', hw'⟩ := Option.isSome_iff_exists.mp hstep
  have hsuspends := (retries_bounded hrun).2.2.1 (.failed 7) 7 w' hw' rfl hpermits hstable
    (.inl hgranted)
  exact ⟨_, w, w', hrun, hgranted, hw', hsuspends.1⟩

end FoldGPT.App
