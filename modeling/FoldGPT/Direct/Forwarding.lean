import FoldGPT.Direct.Output

/-!
# The owner with its streams

The owner and the two streams it forwards, over the bytes that pass through them.

A packet may also get lost here: its result is never looked at, so the owner goes on
as if it had been sent.

Main results: `exists_forwarding`, `output_balanced`.
-/

namespace FoldGPT.Direct

open FoldGPT.Lib List Option

/-! ### The steps beside the streams -/

namespace Supervisor

/-- **What every step but a `pump` leaves alone**: the streams and their sum; and an
outcome other than "exited" stays so. -/
structure Aside (s s' : Supervisor) : Prop where
  out : s'.out = s.out
  err : s'.err = s.err
  total : s'.forwardedTotal = s.forwardedTotal
  outcome : s'.outcome = .exited → s.outcome = .exited ∨ s.pc = .launch
  discard : s'.discard = true → s.discard = true ∨ s'.outcome ≠ .exited
  launch : s'.pc = .launch → s.pc = .launch ∧ s'.outcome = s.outcome
  ended : s'.pc = .result ∨ s'.pc = .done → s'.outcome = .exited →
    (s.pc = .result ∨ s.pc = .done) ∨ s.out.first = s.out.last ∧ s.err.first = s.err.last

variable {s s' : Supervisor} {cap : ℕ}

theorem Aside.inside (hout : s'.out = s.out) (herr : s'.err = s.err)
    (htotal : s'.forwardedTotal = s.forwardedTotal)
    (houtcome : s'.outcome = .exited → s.outcome = .exited) (hdiscard : s'.discard = s.discard)
    (hpc : s'.pc ≠ .launch ∧ s'.pc ≠ .result ∧ s'.pc ≠ .done) : s.Aside s' where
  out := hout
  err := herr
  total := htotal
  outcome := fun hexited => .inl (houtcome hexited)
  discard := fun hset => .inl (hdiscard ▸ hset)
  launch := fun hlaunch => absurd hlaunch hpc.1
  ended := fun hended _ => by
    rcases hended with hresult | hdone
    · exact absurd hresult hpc.2.1
    · exact absurd hdone hpc.2.2

variable {seen : Commands}

theorem packet_eq {record : Json} (h : s.packet record seen = some s') :
    s' = { s with
      records := s.records ++ [record]
      cancellation := s.cancellation || seen.cancelled
      signalCount := s.signalCount + seen.signals } := by
  unfold packet at h
  split at h
  · cases h
  · exact (Option.some.inj h).symm

theorem aside_packet {s₁ : Supervisor} {record : Json}
    (h : s₁.packet record seen = some s') (haside : s.Aside s₁) : s.Aside s' := by
  rw [packet_eq h]
  exact ⟨haside.out, haside.err, haside.total, haside.outcome, haside.discard, haside.launch,
    haside.ended⟩

theorem aside_breakBroker {s₁ : Supervisor} (hout : s₁.out = s.out) (herr : s₁.err = s.err)
    (htotal : s₁.forwardedTotal = s.forwardedTotal) (houtcome : s₁.outcome = s.outcome)
    (hdiscard : s₁.discard = s.discard)
    (hpc : s₁.pc ≠ .launch ∧ s₁.pc ≠ .result ∧ s₁.pc ≠ .done) : s.Aside s₁.breakBroker := by
  refine Aside.inside hout herr htotal ?_ hdiscard hpc
  intro hexited
  unfold breakBroker at hexited
  split at hexited
  · rw [← houtcome]
    exact hexited
  · cases hexited

variable {error : Errno}

theorem aside_noWorker {stage : Fin 14} {expired : Bool}
    (h : s.noWorker stage error expired seen = some s') : s.Aside s' := by
  have hnever : s.noWorkerOutcome expired ≠ .exited := by
    unfold noWorkerOutcome
    split
    · nofun
    · split
      · nofun
      · nofun
  refine aside_packet h ⟨rfl, rfl, rfl, fun hexited => absurd hexited hnever, Or.inl, nofun, ?_⟩
  intro _ hexited
  exact absurd hexited hnever

theorem aside_launched {opened : Bool} (h : s.launched error opened = some s')
    (hpc : s.pc = .launch) : s.Aside s' := by
  unfold launched at h
  split at h
  · cases h
    refine ⟨rfl, rfl, rfl, fun _ => .inr hpc, Or.inl, nofun, ?_⟩
    intro hended _
    rcases hended with hresult | hdone
    · cases hresult
    · cases hdone
  · cases h

theorem aside_readCommands (s : Supervisor) (seen : Commands) : s.Aside (s.readCommands seen) := by
  unfold readCommands
  split
  · exact aside_breakBroker rfl rfl rfl rfl rfl ⟨nofun, nofun, nofun⟩
  · exact Aside.inside rfl rfl rfl id rfl ⟨nofun, nofun, nofun⟩

theorem aside_peekControl (s : Supervisor) (broken unexpected : Bool) :
    s.Aside (s.peekControl broken unexpected) := by
  unfold peekControl
  split
  · exact aside_breakBroker rfl rfl rfl rfl rfl ⟨nofun, nofun, nofun⟩
  · exact Aside.inside rfl rfl rfl id rfl ⟨nofun, nofun, nofun⟩

theorem aside_checkDeadline (s : Supervisor) (expired : Bool) :
    s.Aside (s.checkDeadline expired) := by
  unfold checkDeadline
  split
  · refine Aside.inside rfl rfl rfl ?_ rfl ⟨nofun, nofun, nofun⟩
    intro hexited
    by_contra hother
    rw [show s.stopOutcome = s.outcome from if_neg hother] at hexited
    exact hother hexited
  · exact Aside.inside rfl rfl rfl id rfl ⟨nofun, nofun, nofun⟩

theorem aside_killChildren (s : Supervisor) (signals : ℕ) (failed : Option Errno) :
    s.Aside (s.killChildren signals failed) := by
  unfold killChildren
  split
  · exact Aside.inside rfl rfl rfl id rfl ⟨nofun, nofun, nofun⟩
  · exact Aside.inside rfl rfl rfl id rfl ⟨nofun, nofun, nofun⟩

theorem aside_reapLeader (h : s.reapLeader = some s') (hpc : s.pc = .reap) : s.Aside s' := by
  unfold reapLeader at h
  split at h
  · cases h
    refine Aside.inside rfl rfl rfl id rfl ?_
    simp [noteLeader, hpc]
  · cases h

theorem aside_reapOther {status : Status} {reusedPid : Bool}
    (h : s.reapOther status reusedPid = some s') (hpc : s.pc = .reap) : s.Aside s' := by
  unfold reapOther at h
  split at h
  · cases h
    cases reusedPid with
    | false => exact Aside.inside rfl rfl rfl id rfl (by simp [hpc])
    | true => exact Aside.inside rfl rfl rfl id rfl (by simp [noteLeader, hpc])
  · cases h

theorem aside_reaped (s : Supervisor) (observed : Bool) : s.Aside (s.reaped observed) :=
  Aside.inside rfl rfl rfl id rfl ⟨nofun, nofun, nofun⟩

theorem aside_reapFailed (s : Supervisor) (error : Errno) : s.Aside (s.reapFailed error) := by
  refine Aside.inside rfl rfl rfl ?_ rfl ⟨nofun, nofun, nofun⟩
  intro hexited
  unfold reapFailed at hexited
  split at hexited
  · exact hexited
  · cases hexited

theorem aside_setupFailed (s : Supervisor) (eof : Bool) (stage : Fin 14) (error : Errno) :
    s.Aside (({ s with pc := .report, setupEof := eof } : Supervisor).setupFailed stage error) :=
  Aside.inside rfl rfl rfl nofun rfl ⟨nofun, nofun, nofun⟩

theorem aside_setupEnd
    (h : ({ s with pc := .report, setupEof := true } : Supervisor).setupEnd seen = some s') :
    s.Aside s' := by
  unfold setupEnd at h
  split at h
  · split at h
    · cases h
      exact aside_setupFailed s true _ _
    · cases h
      exact aside_setupFailed s true _ _
  · split at h
    · exact aside_packet h (Aside.inside rfl rfl rfl id rfl ⟨nofun, nofun, nofun⟩)
    · cases h
      exact Aside.inside rfl rfl rfl id rfl ⟨nofun, nofun, nofun⟩

theorem aside_readSetup {got : Got} (h : s.readSetup got error seen = some s') : s.Aside s' := by
  unfold readSetup at h
  split at h
  · cases h
    exact Aside.inside rfl rfl rfl id rfl ⟨nofun, nofun, nofun⟩
  · cases got with
    | bytes n =>
      dsimp only at h
      split at h
      · split at h
        · cases h
          exact aside_setupFailed s s.setupEof _ _
        · cases h
          exact Aside.inside rfl rfl rfl id rfl ⟨nofun, nofun, nofun⟩
      · cases h
    | eof =>
      dsimp only at h
      split at h
      · exact aside_setupEnd h
      · cases h
    | retry =>
      cases h
      exact Aside.inside rfl rfl rfl id rfl ⟨nofun, nofun, nofun⟩
    | failed =>
      cases h
      exact aside_setupFailed s s.setupEof _ _

/-- The flag of the pumps is set for an outcome other than "exited". -/
theorem aside_reportExit (h : s.reportExit seen = some s') : s.Aside s' := by
  unfold reportExit at h
  dsimp only at h
  have haside : ∀ reported, s.Aside { s with
      pc := .pumpOut
      discard := s.terminating && decide (s.outcome ≠ .exited)
      exitReported := reported } := by
    intro reported
    refine ⟨rfl, rfl, rfl, Or.inl, ?_, nofun, ?_⟩
    · intro hset
      right
      simpa using (Bool.and_eq_true_iff.mp hset).2
    · intro hended _
      rcases hended with hresult | hdone
      · cases hresult
      · cases hdone
  split at h
  · exact aside_packet h (haside true)
  · cases h
    exact haside s.exitReported

theorem aside_checkLimit (s : Supervisor) (cap : ℕ) : s.Aside (s.checkLimit cap) := by
  unfold checkLimit
  split
  · exact Aside.inside rfl rfl rfl nofun rfl ⟨nofun, nofun, nofun⟩
  · exact Aside.inside rfl rfl rfl id rfl ⟨nofun, nofun, nofun⟩

theorem aside_retain {late : Bool} (h : s.retain late seen = some s') : s.Aside s' := by
  unfold retain at h
  split at h
  · exact aside_packet h (Aside.inside rfl rfl rfl id rfl ⟨nofun, nofun, nofun⟩)
  · cases h
    exact Aside.inside rfl rfl rfl id rfl ⟨nofun, nofun, nofun⟩

theorem aside_leave (s : Supervisor) : s.Aside s.leave := by
  unfold leave
  split
  next hempty =>
    exact ⟨rfl, rfl, rfl, Or.inl, Or.inl, nofun, fun _ _ => .inr hempty.2.2.2.2⟩
  next => exact Aside.inside rfl rfl rfl id rfl ⟨nofun, nofun, nofun⟩

theorem aside_sendResult (h : s.sendResult seen = some s') (hpc : s.pc = .result) : s.Aside s' :=
  aside_packet h ⟨rfl, rfl, rfl, Or.inl, Or.inl, nofun, fun _ _ => .inl (.inl hpc)⟩

theorem aside_same (h : s'.out = s.out) (herr : s'.err = s.err)
    (htotal : s'.forwardedTotal = s.forwardedTotal) (houtcome : s'.outcome = s.outcome)
    (hdiscard : s'.discard = s.discard) (hpc : s'.pc = s.pc) : s.Aside s' where
  out := h
  err := herr
  total := htotal
  outcome := fun hexited => .inl (houtcome ▸ hexited)
  discard := fun hset => .inl (hdiscard ▸ hset)
  launch := fun hlaunch => ⟨hpc ▸ hlaunch, houtcome⟩
  ended := fun hended _ => .inl (hpc ▸ hended)

/-- **Every step is beside the streams or pumps one of them.** -/
theorem aside_step {act : Act} (h : s.step cap act = some s')
    (hact : ∀ wrote got, act ≠ .pump wrote got) : s.Aside s' := by
  cases act <;> simp only [Supervisor.step, atStage, ite_none_right_eq_some,
    Option.some.injEq] at h
  case noWorker stage error expired seen => exact aside_noWorker h.2
  case launch error opened => exact aside_launched h.2 h.1
  case commands seen => exact h.2 ▸ aside_readCommands s seen
  case peek broken unexpected => exact h.2 ▸ aside_peekControl s broken unexpected
  case deadline expired => exact h.2 ▸ aside_checkDeadline s expired
  case kill signals failed => exact h.2 ▸ aside_killChildren s signals failed
  case reapLeader => exact aside_reapLeader h.2 h.1
  case reapOther status reusedPid => exact aside_reapOther h.2 h.1
  case reapNone => exact h.2.2 ▸ aside_reaped s false
  case reapEmpty => exact h.2.2 ▸ aside_reaped s true
  case reapFailed error => exact h.2 ▸ aside_reapFailed s error
  case setup got error seen => exact aside_readSetup h.2
  case report seen => exact aside_reportExit h.2
  case pump wrote got => exact absurd rfl (hact wrote got)
  case limit => exact h.2 ▸ aside_checkLimit s cap
  case retain late seen => exact aside_retain h.2
  case leave => exact h.2 ▸ aside_leave s
  case result seen => exact aside_sendResult h.2 h.1
  case interrupt => exact h ▸ aside_same rfl rfl rfl rfl rfl rfl
  case event event =>
    obtain ⟨world, -, rfl⟩ := map_eq_some_iff.mp h
    exact aside_same rfl rfl rfl rfl rfl rfl

/-! ### Lost packets -/

/-- What a `packet` that is not sent has seen of the commands: nothing on a control
socket that is broken already, and else all up to a failure. -/
def heard (s : Supervisor) (seen : Commands) : Commands :=
  if s.controlBroken then {} else { seen with failed := false }

/-- The stages that send a packet. -/
def unsent (s : Supervisor) : Act → Option Act
  | .noWorker stage error expired seen => some (.noWorker stage error expired (s.heard seen))
  | .setup got error seen => some (.setup got error (s.heard seen))
  | .report seen => some (.report (s.heard seen))
  | .retain late seen => some (.retain late (s.heard seen))
  | .result seen => some (.result (s.heard seen))
  | _ => none

/-- A stage whose packet is lost: `(void)packet(...)`, so the owner goes on as after a
packet that was sent; the control socket may be broken from now on. -/
def lose (cap : ℕ) (s : Supervisor) (act : Act) (broken : Bool) : Option Supervisor :=
  match s.unsent act with
  | none => none
  | some act =>
    match ({ s with controlBroken := false } : Supervisor).step cap act with
    | none => none
    | some s' =>
      if s'.records.length = s.records.length then none
      else some { s' with records := s.records, controlBroken := s.controlBroken || broken }

theorem aside_lose {act : Act} {broken : Bool} (h : s.lose cap act broken = some s') :
    s.Aside s' := by
  unfold lose at h
  split at h
  · cases h
  next unsentAct hunsent =>
    split at h
    · cases h
    next s₁ hstep =>
      have haside : Aside { s with controlBroken := false } s₁ := by
        refine aside_step hstep ?_
        intro wrote got hpump
        rw [hpump] at hunsent
        cases act <;> cases hunsent
      split at h
      · cases h
      · cases h
        exact ⟨haside.out, haside.err, haside.total, haside.outcome, haside.discard,
          haside.launch, haside.ended⟩

/-- What the owner does with the result of a `pump`, beside the stream itself. -/
structure Pumped (total : ℕ) (s s' : Supervisor) : Prop where
  total : s'.forwardedTotal = total
  discard : s'.discard = s.discard
  outcome : s'.outcome = .exited → s.outcome = .exited
  pc : s'.pc = .pumpErr ∨ s'.pc = .limit

theorem pumped_failed {total : ℕ} (h : s.Pumped total s') : s.Pumped total s'.pumpFailed :=
  { h with
    outcome := by
      intro hexited
      unfold pumpFailed at hexited
      split at hexited
      · cases hexited
      · exact h.outcome hexited }

variable {wrote : Wrote} {got : Got} {stream : Stream} {total : ℕ} {ok : Bool}

theorem pumpStreams_out (hpc : s.pc = .pumpOut)
    (hpump : s.out.pump cap s.forwardedTotal s.discard wrote got = some (stream, total, ok))
    (h : s.step cap (.pump wrote got) = some s') :
    s'.out = stream ∧ s'.err = s.err ∧ s.Pumped total s' := by
  have hpumped : s.Pumped total
      { s with pc := .pumpErr, out := stream, forwardedTotal := total } :=
    ⟨rfl, rfl, id, .inl rfl⟩
  simp only [Supervisor.step, pumpStreams, hpc, hpump, map_some, Option.some.injEq] at h
  subst h
  cases ok with
  | false => exact ⟨rfl, rfl, pumped_failed hpumped⟩
  | true => exact ⟨rfl, rfl, hpumped⟩

theorem pumpStreams_err (hpc : s.pc = .pumpErr)
    (hpump : s.err.pump cap s.forwardedTotal s.discard wrote got = some (stream, total, ok))
    (h : s.step cap (.pump wrote got) = some s') :
    s'.err = stream ∧ s'.out = s.out ∧ s.Pumped total s' := by
  have hpumped : s.Pumped total
      { s with pc := .limit, err := stream, forwardedTotal := total } :=
    ⟨rfl, rfl, id, .inr rfl⟩
  simp only [Supervisor.step, pumpStreams, hpc, hpump, map_some, Option.some.injEq] at h
  subst h
  cases ok with
  | false => exact ⟨rfl, rfl, pumped_failed hpumped⟩
  | true => exact ⟨rfl, rfl, hpumped⟩

end Supervisor

/-! ### The owner with its streams -/

/-- The owner and the two streams it forwards. -/
structure Forwarding where
  owner : Supervisor := {}
  out : OutputStream := {}
  err : OutputStream := {}

/-- A step of the owner: its act, whether a packet was lost (with `true` the control
socket broke), and the bytes that a `pump` read. -/
structure Deed where
  act : Act
  lost : Option Bool := none
  bytes : List UInt8 := []

/-- No packet is lost, and a `pump` has as many bytes as it read. -/
def Deed.regular (deed : Deed) : Bool :=
  deed.lost.isNone && match deed.act with
    | .pump _ got => deed.bytes.length == got.size
    | _ => true

namespace Forwarding

/-- A step beside the streams. -/
def moveOwner (cap : ℕ) (t : Forwarding) (act : Act) : Option Bool → Option Forwarding
  | none => (t.owner.step cap act).map fun owner => { t with owner }
  | some broken => (t.owner.lose cap act broken).map fun owner => { t with owner }

/-- One `pump`, of the stream at which the owner is. -/
def pumpOne (cap : ℕ) (t : Forwarding) (wrote : Wrote) (got : Got) (bytes : List UInt8) :
    Option Forwarding :=
  match t.owner.pc, t.owner.step cap (.pump wrote got) with
  | .pumpOut, some owner =>
    (t.out.pump cap t.owner.forwardedTotal t.owner.discard wrote got bytes).map fun result =>
      { t with owner, out := result.1 }
  | .pumpErr, some owner =>
    (t.err.pump cap t.owner.forwardedTotal t.owner.discard wrote got bytes).map fun result =>
      { t with owner, err := result.1 }
  | _, _ => none

def step (cap : ℕ) (t : Forwarding) (deed : Deed) : Option Forwarding :=
  match deed.act with
  | .pump wrote got => t.pumpOne cap wrote got deed.bytes
  | act => t.moveOwner cap act deed.lost

end Forwarding

/-- The owner and its streams, from the acknowledged start on. -/
def forwarding (cap : ℕ) : LTS Forwarding Deed :=
  .ofFun (fun t => t = {}) (Forwarding.step cap)

/-- **The invariant of the forwarding.** -/
structure Forwarding.Kept (cap : ℕ) (t : Forwarding) : Prop where
  outCounts : t.owner.out = t.out.toStream
  errCounts : t.owner.err = t.err.toStream
  out : t.out.Balanced
  err : t.err.Balanced
  total : t.owner.forwardedTotal = t.out.sent.length + t.err.sent.length
  limit : cap ≠ 0 → t.owner.forwardedTotal ≤ cap
  whole : t.owner.outcome = .exited →
    t.owner.discard = false ∧ t.out.dropped = [] ∧ t.err.dropped = []
  launch : t.owner.pc = .launch → t.owner.outcome = .exited
  ended : t.owner.pc = .result ∨ t.owner.pc = .done → t.owner.outcome = .exited →
    t.out.first = t.out.last ∧ t.err.first = t.err.last

namespace Forwarding

variable {cap : ℕ} {t t' : Forwarding} {owner : Supervisor} {deed : Deed}

theorem kept_init (cap : ℕ) : ({} : Forwarding).Kept cap where
  outCounts := rfl
  errCounts := rfl
  out := OutputStream.balanced_init
  err := OutputStream.balanced_init
  total := rfl
  limit := fun _ => Nat.zero_le _
  whole := fun _ => ⟨rfl, rfl, rfl⟩
  launch := fun _ => rfl
  ended := fun _ _ => ⟨rfl, rfl⟩

/-- **A step beside the streams keeps the invariant.** -/
theorem Kept.aside (h : t.Kept cap) (haside : t.owner.Aside owner) :
    ({ t with owner } : Forwarding).Kept cap where
  outCounts := haside.out.trans h.outCounts
  errCounts := haside.err.trans h.errCounts
  __ := h
  total := haside.total.trans h.total
  limit := by
    intro hcap
    show owner.forwardedTotal ≤ cap
    rw [haside.total]
    exact h.limit hcap
  whole := by
    intro hexited
    have hbefore : t.owner.outcome = .exited := by
      rcases haside.outcome hexited with hsame | hlaunch
      · exact hsame
      · exact h.launch hlaunch
    obtain ⟨hdiscard, hdropped⟩ := h.whole hbefore
    refine ⟨?_, hdropped⟩
    by_contra hset
    rcases haside.discard ((Bool.not_eq_false _).mp hset) with hstill | hother
    · rw [hdiscard] at hstill
      cases hstill
    · exact hother hexited
  launch := by
    intro hlaunch
    obtain ⟨hpc, hsame⟩ := haside.launch hlaunch
    exact hsame.trans (h.launch hpc)
  ended := by
    intro hended hexited
    rcases haside.ended hended hexited with hbefore | hempty
    · have hold : t.owner.outcome = .exited := by
        rcases haside.outcome hexited with hsame | hlaunch
        · exact hsame
        · exact h.launch hlaunch
      exact h.ended hbefore hold
    · rw [h.outCounts, h.errCounts] at hempty
      exact hempty

theorem Kept.moveOwner (h : t.Kept cap) {act : Act} {lost : Option Bool}
    (hact : ∀ wrote got, act ≠ .pump wrote got) (hmove : t.moveOwner cap act lost = some t') :
    t'.Kept cap := by
  cases lost with
  | none =>
    obtain ⟨owner, hstep, rfl⟩ := map_eq_some_iff.mp hmove
    exact h.aside (Supervisor.aside_step hstep hact)
  | some broken =>
    obtain ⟨owner, hlose, rfl⟩ := map_eq_some_iff.mp hmove
    exact h.aside (Supervisor.aside_lose hlose)

theorem Kept.pumped (h : t.Kept cap) {total : ℕ} {out err : OutputStream}
    (hpumped : t.owner.Pumped total owner) (hout : owner.out = out.toStream)
    (herr : owner.err = err.toStream) (hbalanced : out.Balanced) (hbalanced' : err.Balanced)
    (hsum : total = out.sent.length + err.sent.length) (hlimit : cap ≠ 0 → total ≤ cap)
    (hkept : t.owner.discard = false → out.dropped = t.out.dropped ∧ err.dropped = t.err.dropped) :
    Kept cap ⟨owner, out, err⟩ where
  outCounts := hout
  errCounts := herr
  out := hbalanced
  err := hbalanced'
  total := hpumped.total.trans hsum
  limit := by
    intro hcap
    show owner.forwardedTotal ≤ cap
    rw [hpumped.total]
    exact hlimit hcap
  whole := by
    intro hexited
    obtain ⟨hclear, hdropped, hdropped'⟩ := h.whole (hpumped.outcome hexited)
    obtain ⟨hsame, hsame'⟩ := hkept hclear
    exact ⟨hpumped.discard.trans hclear, hsame.trans hdropped, hsame'.trans hdropped'⟩
  launch := by
    intro hlaunch
    rcases hpumped.pc with hpc | hpc
    · cases hpc.symm.trans hlaunch
    · cases hpc.symm.trans hlaunch
  ended := by
    intro hended
    rcases hpumped.pc with hpc | hpc
    · rw [hpc] at hended
      rcases hended with hresult | hdone
      · cases hresult
      · cases hdone
    · rw [hpc] at hended
      rcases hended with hresult | hdone
      · cases hresult
      · cases hdone

/-- **A `pump` keeps the invariant.** -/
theorem Kept.pumpOne (h : t.Kept cap) {wrote : Wrote} {got : Got} {bytes : List UInt8}
    (hpump : t.pumpOne cap wrote got bytes = some t') : t'.Kept cap := by
  unfold Forwarding.pumpOne at hpump
  have htotal := h.total
  split at hpump
  next owner hpc hstep =>
    obtain ⟨⟨out, total, ok⟩, hone, rfl⟩ := map_eq_some_iff.mp hpump
    obtain ⟨hbalanced, hsum, hlimit, hkept⟩ := OutputStream.pump_spec h.out hone
    have hcounts := OutputStream.pump_counts hone
    rw [← h.outCounts] at hcounts
    obtain ⟨hout, herr, hpumped⟩ := Supervisor.pumpStreams_out hpc hcounts hstep
    have hboth : total = out.sent.length + t.err.sent.length := by omega
    exact h.pumped hpumped hout (herr.trans h.errCounts) hbalanced h.err hboth
      (fun hcap => hlimit hcap (h.limit hcap)) (fun hclear => ⟨hkept hclear, rfl⟩)
  next owner hpc hstep =>
    obtain ⟨⟨err, total, ok⟩, hone, rfl⟩ := map_eq_some_iff.mp hpump
    obtain ⟨hbalanced, hsum, hlimit, hkept⟩ := OutputStream.pump_spec h.err hone
    have hcounts := OutputStream.pump_counts hone
    rw [← h.errCounts] at hcounts
    obtain ⟨herr, hout, hpumped⟩ := Supervisor.pumpStreams_err hpc hcounts hstep
    have hboth : total = t.out.sent.length + err.sent.length := by omega
    exact h.pumped hpumped (hout.trans h.outCounts) herr h.out hbalanced hboth
      (fun hcap => hlimit hcap (h.limit hcap)) (fun hclear => ⟨rfl, hkept hclear⟩)
  next => cases hpump

theorem Kept.step (h : t.Kept cap) (hstep : t.step cap deed = some t') : t'.Kept cap := by
  unfold Forwarding.step at hstep
  split at hstep
  · exact h.pumpOne hstep
  next hact => exact h.moveOwner hact hstep

/-! ### The runs -/

theorem kept_of_run {deeds : List Deed} (h : (forwarding cap).Run deeds t) : t.Kept cap := by
  refine h.invariant (I := fun _ t => t.Kept cap) ?_ ?_
  · intro t ht
    obtain rfl : t = {} := ht
    exact kept_init cap
  · intro _ t deed t' _ hkept hstep
    exact hkept.step hstep

end Forwarding

/-- **The output over every run of the owner**, with any partial reads and writes, any
errors, lost packets and cancellations: the forwarded bytes stay within a limit, so
the limit less what is forwarded is never negative; every byte read from a stream was
sent, is buffered or was dropped; those sent stand in the order in which they were
read; and when the loop has ended with the outcome "exited" every byte read was
sent. -/
theorem output_balanced (cap : ℕ) (deeds : List Deed) (t : Forwarding)
    (h : (forwarding cap).Run deeds t) :
    (cap ≠ 0 → t.owner.forwardedTotal ≤ cap) ∧
    (∀ stream, stream = t.out ∨ stream = t.err →
      stream.readBytes = stream.read.length ∧ stream.sentBytes = stream.sent.length ∧
      stream.read.length = stream.sent.length + stream.buffered.length + stream.dropped.length ∧
      stream.sent.Sublist stream.read) ∧
    (t.owner.pc = .result ∨ t.owner.pc = .done → t.owner.outcome = .exited →
      t.out.sent = t.out.read ∧ t.err.sent = t.err.read) := by
  have hkept := Forwarding.kept_of_run h
  refine ⟨hkept.limit, ?_, ?_⟩
  · intro stream hstream
    have hbalanced : stream.Balanced := by
      rcases hstream with rfl | rfl
      · exact hkept.out
      · exact hkept.err
    exact ⟨hbalanced.readBytes, hbalanced.sentBytes, hbalanced.total,
      (sublist_append_left _ _).trans hbalanced.ordered⟩
  · intro hended hexited
    obtain ⟨-, hout, herr⟩ := hkept.whole hexited
    obtain ⟨hempty, hempty'⟩ := hkept.ended hended hexited
    have hall : ∀ stream : OutputStream, stream.Balanced → stream.dropped = [] →
        stream.first = stream.last → stream.sent = stream.read := by
      intro stream hbalanced hdropped hlast
      have hwhole := hbalanced.whole hdropped
      rw [OutputStream.buffered, hlast, Nat.sub_self] at hwhole
      simpa [bytesAt] using hwhole.symm
    exact ⟨hall t.out hkept.out hout hempty, hall t.err hkept.err herr hempty'⟩

/-- One turn of the loop, with what is reaped, the setup pipe and the two pumps. -/
def turn (reaping : List Act) (setup : Got) (pumps : List Deed) : List Deed :=
  [Act.commands {}, .peek false false, .deadline false, .kill 0 none].map (Deed.mk · none []) ++
    reaping.map (Deed.mk · none []) ++
    [Act.setup setup 0 {}, .report {}].map (Deed.mk · none []) ++ pumps ++
    [Act.limit, .retain false {}, .leave].map (Deed.mk · none [])

/-- A command that writes two bytes to standard output and exits; the first is sent in
one turn and the second in the next. -/
def writesTwo (bytes : List UInt8) : List Deed :=
  [.launch 0 true, .event .permit, .event .exec].map (Deed.mk · none []) ++
    turn [.reapNone] .eof
      [⟨.pump (.bytes 0) (.bytes 2), none, bytes⟩, ⟨.pump (.bytes 0) .retry, none, []⟩] ++
    turn [.reapNone] .retry
      [⟨.pump (.bytes 1) .retry, none, []⟩, ⟨.pump .retry .eof, none, []⟩] ++
    [.event (.exit 3), .event .zombie].map (Deed.mk · none []) ++
    turn [.reapLeader, .reapEmpty] .retry
      [⟨.pump (.bytes 1) .eof, none, []⟩, ⟨.pump .retry .eof, none, []⟩] ++
    [⟨.result {}, none, []⟩]

theorem output_balanced_exit : ∃ t, (forwarding 2).Run (writesTwo [97, 98]) t ∧
    (t.owner.pc = .done ∧ t.owner.outcome = .exited ∧ t.out.read = [97, 98]) ∧
    t.owner.forwardedTotal ≤ 2 ∧ t.out.sent = t.out.read ∧ t.err.sent = t.err.read := by
  obtain ⟨t, hrun, hfacts⟩ := LTS.exists_run_of_exec (A := forwarding 2) (fun hstep => hstep) rfl
    (writesTwo [97, 98])
    (fun t => t.owner.pc = .done ∧ t.owner.outcome = .exited ∧ t.out.read = [97, 98])
    (by decide +kernel)
  obtain ⟨hlimit, -, hwhole⟩ := output_balanced 2 _ t hrun
  exact ⟨t, hrun, hfacts, hlimit (by decide), hwhole (.inr hfacts.1) hfacts.2.1⟩

end FoldGPT.Direct
