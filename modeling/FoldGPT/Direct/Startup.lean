import FoldGPT.Direct.Lifecycle
import FoldGPT.Direct.Output

/-!
# The owner and its reader agree

Every run of `supervise` that gets to its end has sent records that `_control`
accepts and that `_clean` finds in order, provided two things do not happen on
the way (`Undisturbed`):

* the end of a setup pipe without a report is read while the outcome is still
  "exited", after the leader was reaped as killed by a signal or in the very turn of
  the loop in which a cancellation came up: the owner then sends a final record with
  that outcome for a process that never started;
* a descendant is reaped under the number of the reaped leader: its status then
  takes the place of the leader's.

A `started` record means that the gate was opened and that the setup pipe was
closed without a report: by the `execve`, or by the end of the child.

Main result: `supervision_accepted`.
-/

namespace FoldGPT.Direct

open FoldGPT.Lib

/-! ### The child -/

/-- The child runs only after its `execve`, and reports only a failure before it. -/
structure World.Sound (w : World) : Prop where
  ran : w.child = .running → w.executed = true
  closed : w.executed = true → w.child.setupClosed = true
  silent : w.executed = true → w.written = 0
  unwritten : w.child = .unborn ∨ w.child = .preparing ∨ w.child = .permitted → w.written = 0
  permitted : w.child = .permitted → w.gateOpened = true

/-- **What a step of the child or a descendant can change**: a closed setup pipe
stays closed with what is in it, and a reaped child stays as it was. -/
structure World.Moved (w w' : World) : Prop where
  sound : w.Sound → w'.Sound
  gate : w'.gateOpened = w.gateOpened
  unborn : w'.child = .unborn ↔ w.child = .unborn
  closed : w.child.setupClosed = true → w'.child.setupClosed = true ∧ w'.written = w.written
  reaped : w.child.isReaped = true → w'.child = w.child
  unreaped : w.child.isReaped = false → w'.child.isReaped = false

theorem World.Moved.refl (w : World) : w.Moved w :=
  ⟨id, rfl, Iff.rfl, fun h => ⟨h, rfl⟩, fun _ => rfl, id⟩

variable {w : World}

theorem World.Sound.close (h : w.Sound) {child : Child}
    (hclosed : child.setupClosed = true) (hstopped : child ≠ .running) :
    ({ w with child } : World).Sound where
  ran := fun hr => absurd hr hstopped
  closed := fun _ => hclosed
  silent := h.silent
  unwritten := by
    rintro (hc | hc | hc)
    all_goals
      rw [show child = _ from hc] at hclosed
      cases hclosed
  permitted := by
    intro hc
    rw [show child = _ from hc] at hclosed
    cases hclosed

theorem World.Sound.not_executed (h : w.Sound) (hopen : w.child.setupClosed = false) :
    w.executed = false := by
  by_contra hexec
  rw [h.closed (by simpa using hexec)] at hopen
  cases hopen

theorem World.move_sound {w' : World} {event : Event} (h : w.move event = some w')
    (hs : w.Sound) : w'.Sound := by
  cases event <;> simp only [World.move, Option.ite_none_right_eq_some, Option.some.injEq] at h
  case permit =>
    obtain ⟨⟨hchild, hgate⟩, rfl⟩ := h
    have hexec := hs.not_executed (by rw [hchild]; rfl)
    exact ⟨nofun, fun he => absurd he (by simp [hexec]), hs.silent,
      fun _ => hs.unwritten (.inr (.inl hchild)), fun _ => hgate⟩
  case fail report =>
    obtain ⟨hchild, rfl⟩ := h
    have hexec : w.executed = false := by
      apply hs.not_executed
      rcases hchild with hc | hc <;> rw [hc] <;> rfl
    exact ⟨nofun, fun he => absurd he (by simp [hexec]), hs.silent, by simp, nofun⟩
  case write n =>
    obtain ⟨⟨hchild, -⟩, rfl⟩ := h
    have hexec := hs.not_executed (by rw [hchild]; rfl)
    exact ⟨hs.ran, hs.closed, fun he => absurd he (by simp [hexec]), by simp [hchild],
      hs.permitted⟩
  case exec =>
    obtain ⟨hchild, rfl⟩ := h
    exact ⟨fun _ => rfl, fun _ => rfl, fun _ => hs.unwritten (.inr (.inr hchild)), by simp, nofun⟩
  case exit | die =>
    obtain ⟨-, rfl⟩ := h
    exact hs.close rfl nofun
  case zombie =>
    split at h
    · cases h
      exact hs.close rfl nofun
    · cases h
  case fork | descendantDies =>
    obtain ⟨-, rfl⟩ := h
    exact { hs with }

theorem World.move_spec {w' : World} {event : Event} (h : w.move event = some w') : w.Moved w' := by
  have hmoved : w'.gateOpened = w.gateOpened ∧ (w'.child = .unborn ↔ w.child = .unborn) ∧
      (w.child.setupClosed = true → w'.child.setupClosed = true ∧ w'.written = w.written) ∧
      (w.child.isReaped = true → w'.child = w.child) ∧
      (w.child.isReaped = false → w'.child.isReaped = false) := by
    cases hchild : w.child <;> cases event <;>
      simp only [World.move, hchild, Option.ite_none_right_eq_some, Option.some.injEq, reduceCtorEq,
        false_and, true_and, false_or, or_false, or_self] at h <;>
      obtain ⟨-, rfl⟩ := h <;> simp [Child.setupClosed, Child.isReaped]
  obtain ⟨hgate, hunborn, hclosed, hreaped, hunreaped⟩ := hmoved
  exact ⟨World.move_sound h, hgate, hunborn, hclosed, hreaped, hunreaped⟩

theorem World.Sound.gone_of_not_executed (hs : w.Sound)
    (hclosed : w.child.setupClosed = true) (hexec : w.executed = false) : w.child.gone = true := by
  have hran := hs.ran
  cases hchild : w.child <;> simp_all [Child.setupClosed, Child.gone]

/-! ### The streams -/

/-- The counters of a stream whose accounting is in order. -/
def Stream.Balanced (stream : Stream) : Prop :=
  ∃ out : OutputStream, out.Balanced ∧ out.toStream = stream

/-- Every byte read was sent or is in the buffer. -/
def Stream.Whole (stream : Stream) : Prop :=
  ∃ out : OutputStream, out.Balanced ∧ out.dropped = [] ∧ out.toStream = stream

variable {stream stream' : Stream} {cap : Nat}

theorem Stream.Balanced.sourced (h : stream.Balanced) : stream.sentBytes ≤ stream.readBytes := by
  obtain ⟨out, hb, rfl⟩ := h
  have hsum := hb.sum
  omega

theorem Stream.Whole.sum (h : stream.Whole) :
    stream.readBytes = stream.sentBytes + (stream.last - stream.first) := by
  obtain ⟨out, hb, hdropped, rfl⟩ := h
  simpa [hdropped] using hb.sum

/-- **Pumping never sends what was not read, and loses nothing unless it discards.** -/
theorem Stream.pump_spec {total total' : Nat} {cancelling ok : Bool} {wrote : Wrote} {got : Got}
    (h : stream.pump cap total cancelling wrote got = some (stream', total', ok))
    (hb : stream.Balanced) :
    stream'.Balanced ∧ (cancelling = false → stream.Whole → stream'.Whole) := by
  have hpumped : ∀ out : OutputStream, out.Balanced → out.toStream = stream →
      ∃ out' : OutputStream, out'.Balanced ∧
        (cancelling = false → out'.dropped = out.dropped) ∧ out'.toStream = stream' := by
    rintro out hout rfl
    obtain ⟨out', hpump, hcounts⟩ :=
      OutputStream.exists_pump h (List.length_replicate (n := got.size) (a := (0 : UInt8)))
    obtain ⟨hout', -, -, hkept⟩ := OutputStream.pump_spec hout hpump
    exact ⟨out', hout', hkept, hcounts⟩
  constructor
  · obtain ⟨out, hout, hsame⟩ := hb
    obtain ⟨out', hout', -, hcounts⟩ := hpumped out hout hsame
    exact ⟨out', hout', hcounts⟩
  · rintro hkeep ⟨out, hout, hdropped, hsame⟩
    obtain ⟨out', hout', hkept, hcounts⟩ := hpumped out hout hsame
    exact ⟨out', hout', (hkept hkeep).trans hdropped, hcounts⟩

/-! ### The invariant -/

theorem startedSent_append (records : List Json) (record : Json) :
    startedSent (records ++ [record]) =
      (startedSent records || record.asObj.map frameType == some .started) := by
  simp [startedSent]

/-- The stages after the exit of the leader was reported. -/
def Pc.informed : Pc → Bool
  | .pumpOut | .pumpErr | .limit | .retain | .leave | .result => true
  | _ => false

/-- The stages of the loop. -/
def Pc.inLoop : Pc → Bool
  | .launch | .result | .done => false
  | _ => true

namespace Supervisor

/-- The exit `_control` has been told of. -/
def exitSeen (s : Supervisor) : Option Int :=
  match s.exitReported, s.world.child with
  | true, .reaped status => some status.waitCode
  | _, _ => none

/-- As long as the outcome is "exited", the launch succeeded, no output is discarded
or lost, and the end of the setup pipe meant a start. -/
def Whole (s : Supervisor) : Prop :=
  s.launchError = 0 ∧ s.discard = false ∧ (s.setupEof = true → s.started = true) ∧ s.out.Whole ∧
    s.err.Whole

/-- The counters of the final record fit their type. -/
def Bounded (s : Supervisor) : Prop :=
  s.reapedCount < 2 ^ 64 ∧ s.out.readBytes < 2 ^ 64 ∧ s.err.readBytes < 2 ^ 64

/-- `_control` accepts the records, whenever terminations are requested, and
`_clean` is then true. -/
def Clean (s : Supervisor) : Prop :=
  ∀ requested, ∃ owner, Owner.control requested (readyRecord :: s.records) = .ok owner ∧
    owner.clean s.ending = .ok true

/-- What holds wherever the owner is. -/
structure Steady (s : Supervisor) : Prop where
  world : s.world.Sound
  leader : s.leaderReaped = true → ∃ status, s.world.child = .reaped status ∧
    s.exitCode = status.exitCode ∧ s.exitSignal = status.exitSignal ∧ 1 ≤ s.reapedCount
  reaped : s.world.child.isReaped = true → s.leaderReaped = true
  gate : s.world.child ≠ .unborn → s.launchError = 0 → s.world.gateOpened = false →
    s.cancellation = true
  start : s.started = true → s.setupEof = true ∧ s.world.gateOpened = true ∧
    s.world.written = 0 ∧ s.world.child.setupClosed = true
  whole : s.outcome = .exited → s.Whole
  empty : s.empty = true → s.leaderReaped = true
  reported : s.exitReported = true → s.leaderReaped = true
  sent : startedSent s.records = s.started
  out : s.out.Balanced
  err : s.err.Balanced

/-- What holds at the stage the owner is at. -/
structure Staged (s : Supervisor) : Prop where
  launching : s.pc = .launch → s = { cancellation := s.cancellation }
  informed : s.pc.informed = true → s.leaderReaped = true → s.setupEof = true →
    s.exitReported = true
  left : s.pc = .result → s.empty = true ∧ s.setupEof = true ∧ s.out.first = s.out.last ∧
    s.err.first = s.err.last
  records : s.pc ≠ .done → Accepts (readyRecord :: s.records) s.started s.exitSeen
  ended : s.pc = .done → s.outcome = .exited → s.setupEof = true
  clean : s.pc = .done → s.Bounded → s.Clean

/-- **The invariant.** -/
structure Sound (s : Supervisor) : Prop where
  steady : s.Steady
  staged : s.Staged

/-- The two kinds of steps that lead the reader astray: see the head of the module. -/
def disturbed (s : Supervisor) : Act → Bool
  | .setup .eof _ _ =>
    decide (s.setupEof = false ∧ s.setupBytes = 0 ∧ s.launchError = 0 ∧ s.outcome = .exited ∧
      (s.leaderReaped = true ∧ s.exitSignal ≠ 0 ∨ s.cancellation = true))
  | .reapOther _ reusedPid => reusedPid
  | _ => false

/-- Nothing of the two kinds happens. -/
def Undisturbed (s : Supervisor) (act : Act) : Prop := s.disturbed act = false

variable {s s' : Supervisor}

theorem sound_init : ({} : Supervisor).Sound where
  steady :=
    { world := ⟨nofun, nofun, nofun, fun _ => rfl, nofun⟩
      leader := nofun
      reaped := nofun
      gate := fun h => absurd rfl h
      start := nofun
      whole := fun _ => ⟨rfl, rfl, nofun, ⟨{}, OutputStream.balanced_init, rfl, rfl⟩,
        ⟨{}, OutputStream.balanced_init, rfl, rfl⟩⟩
      empty := nofun
      reported := nofun
      sent := rfl
      out := ⟨{}, OutputStream.balanced_init, rfl⟩
      err := ⟨{}, OutputStream.balanced_init, rfl⟩ }
  staged :=
    { launching := fun _ => rfl
      informed := nofun
      left := nofun
      records := fun _ => Accepts.ready
      ended := nofun
      clean := nofun }

/-- The owner goes on: the child moves, a cancellation stays, the outcome is still
"exited" only if it was, and what the records tell does not change. -/
structure Onward (s s' : Supervisor) : Prop where
  moved : s.world.Moved s'.world
  leaderReaped : s'.leaderReaped = s.leaderReaped
  exitCode : s'.exitCode = s.exitCode
  exitSignal : s'.exitSignal = s.exitSignal
  launchError : s'.launchError = s.launchError
  setupEof : s'.setupEof = s.setupEof
  started : s'.started = s.started
  exitReported : s'.exitReported = s.exitReported
  sent : startedSent s'.records = startedSent s.records
  reapedCount : s.reapedCount ≤ s'.reapedCount
  empty : s'.empty = true → s.empty = true ∨ s.leaderReaped = true
  cancellation : s.cancellation = true → s'.cancellation = true
  outcome : s'.outcome = .exited → s.outcome = .exited
  kept : s'.outcome = .exited → s.discard = false → s'.discard = false
  out : s.out.Balanced → s'.out.Balanced ∧
    (s.discard = false → s.out.Whole → s'.out.Whole)
  err : s.err.Balanced → s'.err.Balanced ∧
    (s.discard = false → s.err.Whole → s'.err.Whole)

theorem Onward.steady (hon : s.Onward s') (h : s.Steady) : s'.Steady where
  world := hon.moved.sound h.world
  leader := by
    rw [hon.leaderReaped, hon.exitCode, hon.exitSignal]
    intro hr
    obtain ⟨status, hchild, hcode, hsignal, hcount⟩ := h.leader hr
    refine ⟨status, ?_, hcode, hsignal, le_trans hcount hon.reapedCount⟩
    rw [hon.moved.reaped (by rw [hchild]; rfl), hchild]
  reaped := by
    rw [hon.leaderReaped]
    intro hr
    apply h.reaped
    by_contra hn
    rw [hon.moved.unreaped (by simpa using hn)] at hr
    cases hr
  gate := by
    rw [hon.launchError, hon.moved.gate, ne_eq, hon.moved.unborn]
    exact fun h1 h2 h3 => hon.cancellation (h.gate h1 h2 h3)
  start := by
    rw [hon.started, hon.setupEof, hon.moved.gate]
    intro hs
    obtain ⟨heof, hgate, hwritten, hclosed⟩ := h.start hs
    obtain ⟨hclosed', hwritten'⟩ := hon.moved.closed hclosed
    exact ⟨heof, hgate, hwritten'.trans hwritten, hclosed'⟩
  whole := by
    intro he
    obtain ⟨hlaunch, hkept, hack, hout, herr⟩ := h.whole (hon.outcome he)
    refine ⟨hon.launchError ▸ hlaunch, hon.kept he hkept, ?_, (hon.out h.out).2 hkept hout,
      (hon.err h.err).2 hkept herr⟩
    rwa [hon.setupEof, hon.started]
  empty := by
    rw [hon.leaderReaped]
    intro he
    rcases hon.empty he with he | hr
    · exact h.empty he
    · exact hr
  reported := by
    rw [hon.exitReported, hon.leaderReaped]
    exact h.reported
  sent := by
    rw [hon.sent, hon.started]
    exact h.sent
  out := (hon.out h.out).1
  err := (hon.err h.err).1

/-- What the records tell does not change as the owner goes on. -/
theorem Onward.exitSeen (hon : s.Onward s') (h : s.Steady) : s'.exitSeen = s.exitSeen := by
  unfold Supervisor.exitSeen
  rw [hon.exitReported]
  cases hr : s.exitReported with
  | false => rfl
  | true =>
    obtain ⟨status, hchild, -⟩ := h.leader (h.reported hr)
    rw [hon.moved.reaped (by rw [hchild]; rfl)]

/-- **A step onward into the loop keeps the invariant.** -/
theorem Sound.onward (h : s.Sound) (hon : s.Onward s') (hlive : s.pc ≠ .done)
    (hloop : s'.pc.inLoop = true)
    (hrecords : Accepts (readyRecord :: s.records) s.started s.exitSeen →
      Accepts (readyRecord :: s'.records) s.started s.exitSeen)
    (hinformed : s'.pc.informed = true → s.leaderReaped = true → s.setupEof = true →
      s.exitReported = true) : s'.Sound := by
  refine ⟨hon.steady h.steady, ?_⟩
  constructor
  · intro hpc
    rw [hpc] at hloop
    cases hloop
  · rw [hon.leaderReaped, hon.setupEof, hon.exitReported]
    exact hinformed
  · intro hpc
    rw [hpc] at hloop
    cases hloop
  · intro _
    rw [hon.started, hon.exitSeen h.steady]
    exact hrecords (h.staged.records hlive)
  · intro hpc
    rw [hpc] at hloop
    cases hloop
  · intro hpc
    rw [hpc] at hloop
    cases hloop

/-! ### The stages of the loop -/

theorem Onward.refl (s : Supervisor) : s.Onward s where
  moved := World.Moved.refl s.world
  leaderReaped := rfl
  exitCode := rfl
  exitSignal := rfl
  launchError := rfl
  setupEof := rfl
  started := rfl
  exitReported := rfl
  sent := rfl
  reapedCount := le_refl _
  empty := Or.inl
  cancellation := id
  outcome := id
  kept := fun _ h => h
  out := fun h => ⟨h, fun _ => id⟩
  err := fun h => ⟨h, fun _ => id⟩

/-- **A step onward that sends nothing**, to a stage before the report of the exit or
after it from one after it. -/
theorem Sound.quiet (h : s.Sound) (hon : s.Onward s') {pc : Pc} (hpc : s.pc = pc)
    (hlive : pc ≠ .done) (hloop : s'.pc.inLoop = true) (hrecords : s'.records = s.records)
    (hinformed : s'.pc.informed = true → pc.informed = true) : s'.Sound := by
  subst hpc
  exact h.onward hon hlive hloop (by rw [hrecords]; exact id)
    fun hlate => h.staged.informed (hinformed hlate)

theorem exited_of_ite {c : Prop} [Decidable c] {o o' : Outcome} (ho : o' ≠ .exited)
    (h : (if c then o else o') = .exited) : o = .exited := by
  split at h
  · exact h
  · exact absurd h ho

theorem Sound.readCommands (h : s.Sound) (hpc : s.pc = .commands) (seen : Commands) :
    (s.readCommands seen).Sound := by
  unfold Supervisor.readCommands breakBroker
  split
  · refine h.quiet { Onward.refl s with
      cancellation := fun _ => rfl
      outcome := exited_of_ite nofun
      kept := fun _ hd => hd } hpc nofun rfl rfl nofun
  · refine h.quiet { Onward.refl s with
      cancellation := fun hc => by simp [hc] } hpc nofun rfl rfl nofun

theorem Sound.peekControl (h : s.Sound) (hpc : s.pc = .peek) (broken unexpected : Bool) :
    (s.peekControl broken unexpected).Sound := by
  unfold Supervisor.peekControl breakBroker
  split
  · refine h.quiet { Onward.refl s with
      cancellation := fun _ => rfl
      outcome := exited_of_ite nofun
      kept := fun _ hd => hd } hpc nofun rfl rfl nofun
  · exact h.quiet { Onward.refl s with } hpc nofun rfl rfl nofun

theorem stopOutcome_exited (h : s.stopOutcome = .exited) : s.outcome = .exited := by
  by_contra hne
  rw [stopOutcome, if_neg hne] at h
  exact hne h

theorem Sound.checkDeadline (h : s.Sound) (hpc : s.pc = .deadline) (expired : Bool) :
    (s.checkDeadline expired).Sound := by
  unfold Supervisor.checkDeadline
  split
  · exact h.quiet { Onward.refl s with
      outcome := stopOutcome_exited
      kept := fun _ hd => hd } hpc nofun rfl rfl nofun
  · exact h.quiet { Onward.refl s with } hpc nofun rfl rfl nofun

theorem Sound.killChildren (h : s.Sound) (hpc : s.pc = .kill) (signals : Nat)
    (failed : Option Errno) : (s.killChildren signals failed).Sound := by
  unfold Supervisor.killChildren
  split
  · exact h.quiet { Onward.refl s with } hpc nofun rfl rfl nofun
  · exact h.quiet { Onward.refl s with } hpc nofun rfl rfl nofun

theorem Sound.reapOther (h : s.Sound) (hpc : s.pc = .reap) {status : Status}
    (hreap : s.reapOther status false = some s') : s'.Sound := by
  unfold Supervisor.reapOther at hreap
  split at hreap
  · cases hreap
    refine h.quiet { Onward.refl s with
      moved := { World.Moved.refl s.world with sound := fun hs => { hs with } }
      reapedCount := Nat.le_succ _ } hpc nofun (by rw [hpc]; rfl) rfl ?_
    intro hlate
    rwa [show s.pc = _ from hpc] at hlate
  · cases hreap

theorem Sound.reaped (h : s.Sound) (hpc : s.pc = .reap) (observed : Bool)
    (hobserved : observed = true → s.world.child.isReaped = true) : (s.reaped observed).Sound :=
  h.quiet { Onward.refl s with
    empty := fun he => .inr (h.steady.reaped (hobserved he)) } hpc nofun rfl rfl nofun

theorem Sound.reapFailed (h : s.Sound) (hpc : s.pc = .reap) (error : Errno) :
    (s.reapFailed error).Sound :=
  h.quiet { Onward.refl s with
    outcome := exited_of_ite nofun
    kept := fun _ hd => hd } hpc nofun rfl rfl nofun

theorem Sound.checkLimit (h : s.Sound) (hpc : s.pc = .limit) (cap : Nat) :
    (s.checkLimit cap).Sound := by
  unfold Supervisor.checkLimit
  split
  · exact h.quiet { Onward.refl s with
      cancellation := fun _ => rfl
      outcome := nofun
      kept := nofun } hpc nofun rfl rfl fun _ => rfl
  · exact h.quiet { Onward.refl s with } hpc nofun rfl rfl fun _ => rfl

theorem Sound.leave (h : s.Sound) (hpc : s.pc = .leave) : s.leave.Sound := by
  have hlive : s.pc ≠ .done := by rw [hpc]; nofun
  unfold Supervisor.leave
  split
  next hend =>
    obtain ⟨hempty, heof, -, -, hout, herr⟩ := hend
    have hon : s.Onward { s with pc := .result } := { Onward.refl s with }
    refine ⟨hon.steady h.steady, nofun, ?_, fun _ => ⟨hempty, heof, hout, herr⟩, ?_, nofun, nofun⟩
    · exact fun _ => h.staged.informed (by rw [hpc]; rfl)
    · exact fun _ => h.staged.records hlive
  · exact h.quiet { Onward.refl s with } hpc nofun rfl rfl nofun

variable {seen : Commands}

theorem Sound.retain (h : s.Sound) (hpc : s.pc = .retain) {late : Bool}
    (hretain : s.retain late seen = some s') : s'.Sound := by
  have hlive : s.pc ≠ .done := by rw [hpc]; nofun
  have hinformed : s.pc.informed = true := by rw [hpc]; rfl
  unfold Supervisor.retain at hretain
  split at hretain
  · unfold packet at hretain
    split at hretain <;> cases hretain
    refine h.onward { Onward.refl s with
      cancellation := fun hc => by simp [hc]
      sent := ?_ } hlive rfl Accepts.retained fun _ => h.staged.informed hinformed
    show startedSent (s.records ++ [retainedRecord]) = startedSent s.records
    rw [startedSent_append]
    exact Bool.or_false _
  · cases hretain
    exact h.quiet { Onward.refl s with } hpc nofun rfl rfl fun _ => rfl

theorem pumpFailed_exited (h : s.pumpFailed.outcome = .exited) : False := by
  unfold pumpFailed at h
  split at h
  · cases h
  next hkept => exact hkept (.inr h)

theorem Onward.pumpFailed (h : s.Onward s') : s.Onward s'.pumpFailed :=
  { h with
    cancellation := fun _ => rfl
    outcome := fun he => (pumpFailed_exited he).elim
    kept := fun he => (pumpFailed_exited he).elim }

theorem Sound.pumpStreams (h : s.Sound) {cap : Nat} {wrote : Wrote} {got : Got}
    (hpump : s.pumpStreams cap wrote got = some s') : s'.Sound := by
  unfold Supervisor.pumpStreams at hpump
  split at hpump
  next hpc =>
    obtain ⟨⟨stream, total, ok⟩, hstream, rfl⟩ := Option.map_eq_some_iff.mp hpump
    have hon : s.Onward { s with pc := .pumpErr, out := stream, forwardedTotal := total } :=
      { Onward.refl s with out := fun hb => Stream.pump_spec hstream hb }
    cases ok with
    | true => exact h.quiet hon hpc nofun rfl rfl fun _ => rfl
    | false => exact h.quiet hon.pumpFailed hpc nofun rfl rfl fun _ => rfl
  next hpc =>
    obtain ⟨⟨stream, total, ok⟩, hstream, rfl⟩ := Option.map_eq_some_iff.mp hpump
    have hon : s.Onward { s with pc := .limit, err := stream, forwardedTotal := total } :=
      { Onward.refl s with err := fun hb => Stream.pump_spec hstream hb }
    cases ok with
    | true => exact h.quiet hon hpc nofun rfl rfl fun _ => rfl
    | false => exact h.quiet hon.pumpFailed hpc nofun rfl rfl fun _ => rfl
  · cases hpump

theorem Sound.reapLeader (h : s.Sound) (hpc : s.pc = .reap) (hreap : s.reapLeader = some s') :
    s'.Sound := by
  have hrecords := h.staged.records (by rw [hpc]; nofun)
  unfold Supervisor.reapLeader at hreap
  split at hreap
  next status hchild =>
    cases hreap
    -- the leader was not reaped before, so no exit has been reported either
    have hunreaped : s.leaderReaped = false := by
      by_contra hn
      obtain ⟨status', hchild', -⟩ := h.steady.leader (by simpa using hn)
      rw [hchild] at hchild'
      cases hchild'
    have hunreported : s.exitReported = false := by
      by_contra hn
      rw [h.steady.reported (by simpa using hn)] at hunreaped
      cases hunreaped
    refine ⟨{ h.steady with
      world := h.steady.world.close rfl nofun
      leader := fun _ => ⟨status, rfl, rfl, rfl, Nat.le_add_left _ _⟩
      reaped := fun _ => rfl
      gate := fun _ => h.steady.gate (by rw [hchild]; nofun)
      start := fun hs => ?_
      empty := fun _ => rfl
      reported := fun _ => rfl }, ?_⟩
    · obtain ⟨heof, hgate, hwritten, -⟩ := h.steady.start hs
      exact ⟨heof, hgate, hwritten, rfl⟩
    · refine ⟨?_, ?_, ?_, fun _ => ?_, ?_, ?_⟩
      all_goals try
        intro hp
        rw [show s.pc = _ from hpc] at hp
        cases hp
      simp only [Supervisor.exitSeen, hunreported] at hrecords ⊢
      exact hrecords
  · cases hreap

theorem Sound.reportExit (h : s.Sound) (hpc : s.pc = .report)
    (hreport : s.reportExit seen = some s') : s'.Sound := by
  have hrecords := h.staged.records (by rw [hpc]; nofun)
  unfold Supervisor.reportExit at hreport
  dsimp only at hreport
  split at hreport
  next hexit =>
    obtain ⟨hreaped, heof, hunreported⟩ := hexit
    obtain ⟨status, hchild, hcode, hsignal, hcount⟩ := h.steady.leader hreaped
    unfold packet at hreport
    split at hreport <;> cases hreport
    have hon : s.Onward { s with
        pc := .pumpOut
        discard := s.terminating && decide (s.outcome ≠ .exited)
        cancellation := s.cancellation || seen.cancelled } :=
      { Onward.refl s with
        cancellation := fun hc => by simp [hc]
        kept := fun he _ => by simp [show s.outcome = .exited from he] }
    refine ⟨{ hon.steady h.steady with
      reported := fun _ => hreaped
      sent := by
        rw [startedSent_append, h.steady.sent]
        exact Bool.or_false _ }, ?_⟩
    refine ⟨nofun, fun _ _ _ => rfl, nofun, fun _ => ?_, nofun, nofun⟩
    simp only [Supervisor.exitSeen, hunreported] at hrecords
    simp only [Supervisor.exitSeen, hchild]
    rw [hcode, hsignal]
    exact hrecords.exited status
  next hsilent =>
    cases hreport
    refine h.onward { Onward.refl s with
      kept := fun he _ => by simp [show s.outcome = .exited from he] } (by rw [hpc]; nofun) rfl id
      fun _ hreaped heof => ?_
    by_contra hunreported
    exact hsilent ⟨hreaped, heof, by simpa using hunreported⟩

/-! ### The end of the setup pipe -/

theorem Sound.unstarted (h : s.Sound) (heof : s.setupEof = false) : s.started = false := by
  by_contra hn
  rw [(h.steady.start (by simpa using hn)).1] at heof
  cases heof

/-- The end of the setup pipe means no start: a report, or a reason not to trust it
that the outcome shows. -/
theorem Sound.setupEnded (h : s.Sound) (hpc : s.pc = .setup) (heof : s.setupEof = false)
    {outcome : Outcome} (houtcome : outcome ≠ .exited) {cancellation : Bool}
    (hcancel : s.cancellation = true → cancellation = true) (stage : Fin 14) (error : Errno) :
    ({ s with
      pc := .report
      setupEof := true
      outcome
      cancellation
      setupStage := stage
      setupError := error } : Supervisor).Sound := by
  have hunstarted := h.unstarted heof
  have hrecords := h.staged.records (by rw [hpc]; nofun)
  refine ⟨{ h.steady with
    gate := fun h1 h2 h3 => hcancel (h.steady.gate h1 h2 h3)
    start := fun hs => by rw [show s.started = true from hs] at hunstarted; cases hunstarted
    whole := fun he => absurd he houtcome }, ?_⟩
  exact ⟨nofun, nofun, nofun, fun _ => hrecords, nofun, nofun⟩

/-- The command has started: the gate was opened, and no report is in the pipe. -/
theorem Sound.setupStarted (h : s.Sound) (hpc : s.pc = .setup) (heof : s.setupEof = false)
    (hclosed : s.world.child.setupClosed = true) (hwritten : s.world.written = 0)
    (hlaunch : s.launchError = 0) (hcancel : s.cancellation = false) (seen : Commands) :
    ({ s with
      pc := .report
      setupEof := true
      started := true
      records := s.records ++ [startedRecord]
      cancellation := s.cancellation || seen.cancelled
      signalCount := s.signalCount + seen.signals } : Supervisor).Sound := by
  have hunstarted := h.unstarted heof
  have hgate := h.steady.gate
  have hrecords := h.staged.records (by rw [hpc]; nofun)
  have hopened : s.world.gateOpened = true := by
    by_contra hn
    have := hgate (by rintro hc; rw [hc] at hclosed; cases hclosed) hlaunch (by simpa using hn)
    rw [hcancel] at this
    cases this
  refine ⟨{ h.steady with
    gate := fun _ _ h3 => by rw [show s.world.gateOpened = false from h3] at hopened; cases hopened
    start := fun _ => ⟨rfl, hopened, hwritten, hclosed⟩
    sent := by
      rw [startedSent_append]
      exact Bool.or_true _
    whole := fun he => ?_ }, ?_⟩
  · obtain ⟨hlaunch, hkept, -, hout, herr⟩ := h.steady.whole he
    exact ⟨hlaunch, hkept, fun _ => rfl, hout, herr⟩
  · refine ⟨nofun, nofun, nofun, fun _ => ?_, nofun, nofun⟩
    rw [hunstarted] at hrecords
    exact hrecords.started

variable {error : Errno}

theorem Sound.setupEnd (h : s.Sound) (hpc : s.pc = .setup) (heof : s.setupEof = false)
    (hquiet : s.Undisturbed (.setup .eof error seen))
    (hwritten : s.world.written = s.setupBytes) (hclosed : s.world.child.setupClosed = true)
    (hend : ({ s with pc := .report, setupEof := true } : Supervisor).setupEnd seen = some s') :
    s'.Sound := by
  unfold Supervisor.setupEnd at hend
  split at hend
  · -- a report, whole or torn
    have hfailed : Outcome.setupError ≠ .exited := nofun
    split at hend <;> cases hend
    · exact h.setupEnded hpc heof hfailed (fun _ => rfl) _ _
    · exact h.setupEnded hpc heof hfailed (fun _ => rfl) _ _
  next hnone =>
    have hnone : s.setupBytes = 0 := by simpa using hnone
    split at hend
    next hstart =>
      obtain ⟨hlaunch, hcancel, -⟩ := hstart
      unfold packet at hend
      split at hend <;> cases hend
      exact h.setupStarted hpc heof hclosed (hwritten.trans hnone) hlaunch hcancel seen
    next hstart =>
      cases hend
      -- an undisturbed end that is no start has an outcome other than "exited"
      have hquiet' := of_decide_eq_false hquiet
      refine h.setupEnded hpc heof (fun he => ?_) id _ _
      have hlaunch := (h.steady.whole he).1
      refine hquiet' ⟨heof, hnone, hlaunch, he, ?_⟩
      by_cases hcancel : s.cancellation = true
      · exact .inr hcancel
      · refine .inl (by_contra fun hkilled => hstart ⟨hlaunch, ?_, hkilled⟩)
        simpa using hcancel

theorem Sound.readSetup (h : s.Sound) (hpc : s.pc = .setup) {got : Got}
    (hquiet : s.Undisturbed (.setup got error seen))
    (hread : s.readSetup got error seen = some s') : s'.Sound := by
  unfold Supervisor.readSetup at hread
  split at hread
  · cases hread
    exact h.quiet { Onward.refl s with } hpc nofun rfl rfl nofun
  next heof =>
    have heof : s.setupEof = false := by simpa using heof
    cases got with
    | bytes n =>
      dsimp only at hread
      split at hread
      · split at hread <;> cases hread
        · exact h.quiet { Onward.refl s with
            cancellation := fun _ => rfl
            outcome := nofun
            kept := nofun } hpc nofun rfl rfl nofun
        · exact h.quiet { Onward.refl s with } hpc nofun rfl rfl nofun
      · cases hread
    | eof =>
      dsimp only at hread
      split at hread
      next hend => exact h.setupEnd hpc heof hquiet hend.1 hend.2 hread
      · cases hread
    | retry =>
      cases hread
      exact h.quiet { Onward.refl s with } hpc nofun rfl rfl nofun
    | failed =>
      cases hread
      exact h.quiet { Onward.refl s with
        cancellation := fun _ => rfl
        outcome := nofun
        kept := nofun } hpc nofun rfl rfl nofun

/-! ### Launch, result and what happens besides -/

theorem Sound.noWorker (h : s.Sound) (hpc : s.pc = .launch) {stage : Fin 14} {expired : Bool}
    (hresult : s.noWorker stage error expired seen = some s') : s'.Sound := by
  have hrecords := h.staged.records (by rw [hpc]; nofun)
  have houtcome : s.noWorkerOutcome expired ≠ .exited := by
    unfold noWorkerOutcome
    cases s.cancellation <;> cases expired <;> nofun
  have hfresh := h.staged.launching hpc
  unfold Supervisor.noWorker packet at hresult
  split at hresult <;> cases hresult
  refine ⟨{ h.steady with
    gate := fun h1 h2 h3 => by simp [h.steady.gate h1 h2 h3]
    whole := fun he => absurd he houtcome
    sent := by
      rw [startedSent_append, h.steady.sent]
      exact Bool.or_false _ }, ?_⟩
  refine ⟨nofun, nofun, nofun, fun hlive => absurd rfl hlive, fun _ he => absurd he houtcome, ?_⟩
  intro _ _ requested
  have hstarted : s.started = false := by rw [hfresh]
  have hout : s.out = {} := by rw [hfresh]
  have herr : s.err = {} := by rw [hfresh]
  rw [hstarted] at hrecords
  have hhonest : Honest (s.noWorkerOutcome expired) false {} :=
    ⟨nofun, fun he => absurd he houtcome, le_refl _, le_refl _, fun he => absurd he houtcome,
      by decide, by decide, by decide⟩
  have hclean := hrecords.clean hhonest (lt_trans stage.isLt (by decide))
    (lt_trans (if error = 0 then EPROTO else error).isLt (by decide))
    (show checkStatus (-1) ((0 : Nat) : Int) (!false) = .ok (-1) from rfl) nofun requested
  simp only [ending, hstarted, hout, herr]
  exact hclean

theorem Sound.launched (h : s.Sound) (hpc : s.pc = .launch) {opened : Bool}
    (hlaunch : s.launched error opened = some s') : s'.Sound := by
  have hrecords := h.staged.records (by rw [hpc]; nofun)
  have hfresh := h.staged.launching hpc
  unfold Supervisor.launched at hlaunch
  split at hlaunch
  next hgate =>
    cases hlaunch
    have hworld : s.world = {} := by rw [hfresh]
    have hwhole := h.steady.whole (by rw [hfresh])
    have hunstarted : s.started = false := by rw [hfresh]
    have hunreaped : s.leaderReaped = false := by rw [hfresh]
    have hunreported : s.exitReported = false := by rw [hfresh]
    refine ⟨{ h.steady with
      world := ?_
      leader := fun hr => by rw [show s.leaderReaped = true from hr] at hunreaped; cases hunreaped
      reaped := nofun
      gate := fun _ he hg => ?_
      start := fun hs => by rw [show s.started = true from hs] at hunstarted; cases hunstarted
      whole := ?_ }, ?_⟩
    · rw [hworld]
      exact ⟨nofun, nofun, nofun, fun _ => rfl, nofun⟩
    · have hopened := hgate.2 he
      rw [show opened = false from hg] at hopened
      simpa using hopened
    · intro he
      have herror : error = 0 := by
        by_contra hne
        rw [show (if error = 0 then Outcome.exited else .setupError) = _ from if_neg hne] at he
        cases he
      obtain ⟨-, hkept, hack, hout, herr⟩ := hwhole
      exact ⟨herror, hkept, hack, hout, herr⟩
    · refine ⟨nofun, nofun, nofun, fun _ => ?_, nofun, nofun⟩
      simp only [Supervisor.exitSeen, hunreported] at hrecords ⊢
      exact hrecords
  · cases hlaunch

theorem Sound.sendResult (h : s.Sound) (hpc : s.pc = .result)
    (hresult : s.sendResult seen = some s') : s'.Sound := by
  have hrecords := h.staged.records (by rw [hpc]; nofun)
  obtain ⟨hempty, heof, hout, herr⟩ := h.staged.left hpc
  have hreaped := h.steady.empty hempty
  have hreported := h.staged.informed (by rw [hpc]; rfl) hreaped heof
  obtain ⟨status, hchild, hcode, hsignal, hcount⟩ := h.steady.leader hreaped
  unfold Supervisor.sendResult packet at hresult
  split at hresult <;> cases hresult
  refine ⟨{ h.steady with
    gate := fun h1 h2 h3 => by simp [h.steady.gate h1 h2 h3]
    sent := by
      rw [startedSent_append, h.steady.sent]
      exact Bool.or_false _ }, ?_⟩
  refine ⟨nofun, nofun, nofun, fun hlive => absurd rfl hlive, fun _ _ => heof, ?_⟩
  rintro - ⟨hb₁, hb₂, hb₃⟩ requested
  have hseen : s.exitSeen = some status.waitCode := by
    unfold Supervisor.exitSeen
    rw [hreported, hchild]
  have hhonest : Honest s.outcome s.started s.totals := by
    refine ⟨fun _ => hcount, fun he => ?_, ?_, ?_, fun he => ?_, hb₁, hb₂, hb₃⟩
    · exact (h.steady.whole he).2.2.1 heof
    · exact h.steady.out.sourced
    · exact h.steady.err.sourced
    · obtain ⟨-, -, -, hwout, hwerr⟩ := h.steady.whole he
      have hsumOut := hwout.sum
      have hsumErr := hwerr.sum
      simp only [totals]
      omega
  rw [hseen] at hrecords
  have hwait : checkStatus s.exitCode s.exitSignal (!s.started) = .ok status.waitCode := by
    rw [hcode, hsignal, checkStatus_eq]
  exact hrecords.clean hhonest (lt_trans s.setupStage.isLt (by decide))
    (lt_trans s.setupError.isLt (by decide)) hwait (fun _ => rfl) requested

theorem Sound.interrupt (h : s.Sound) : ({ s with cancellation := true } : Supervisor).Sound := by
  refine ⟨{ h.steady with gate := fun _ _ _ => rfl }, { h.staged with launching := fun hpc => ?_ }⟩
  have hfresh := h.staged.launching hpc
  rw [hfresh]

theorem Sound.event (h : s.Sound) {event : Event} {world : World}
    (hmove : s.world.move event = some world) : ({ s with world } : Supervisor).Sound := by
  have hmoved := World.move_spec hmove
  have hon : s.Onward { s with world } := { Onward.refl s with moved := hmoved }
  refine ⟨hon.steady h.steady, { h.staged with
    launching := fun hpc => ?_
    records := fun hlive => ?_ }⟩
  · -- before the fork there is nothing that could move
    have hworld : s.world = {} := by rw [h.staged.launching hpc]
    rw [hworld] at hmove
    cases event <;> cases hmove
  · rw [hon.exitSeen h.steady]
    exact h.staged.records hlive

theorem atStage_eq_some {pc : Pc} {next : Option Supervisor} :
    s.atStage pc next = some s' ↔ s.pc = pc ∧ next = some s' := by
  unfold atStage
  split <;> simp [*]

/-- **Every step keeps the invariant**, unless the reader is led astray. -/
theorem Sound.step {cap : Nat} {act : Act} (h : s.Sound) (hquiet : s.Undisturbed act)
    (hstep : s.step cap act = some s') : s'.Sound := by
  cases act <;> simp only [Supervisor.step, atStage_eq_some, Option.some.injEq] at hstep
  case noWorker stage error expired seen => exact h.noWorker hstep.1 hstep.2
  case launch error opened => exact h.launched hstep.1 hstep.2
  case commands seen => exact hstep.2 ▸ h.readCommands hstep.1 seen
  case peek broken unexpected => exact hstep.2 ▸ h.peekControl hstep.1 broken unexpected
  case deadline expired => exact hstep.2 ▸ h.checkDeadline hstep.1 expired
  case kill signals failed => exact hstep.2 ▸ h.killChildren hstep.1 signals failed
  case reapLeader => exact h.reapLeader hstep.1 hstep.2
  case reapOther status reusedPid =>
    obtain rfl : reusedPid = false := hquiet
    exact h.reapOther hstep.1 hstep.2
  case reapNone =>
    obtain ⟨hpc, hnone⟩ := hstep
    split at hnone <;> cases hnone
    exact h.reaped hpc false nofun
  case reapEmpty =>
    obtain ⟨hpc, hempty⟩ := hstep
    split at hempty <;> cases hempty
    next hnone => exact h.reaped hpc true fun _ => hnone.1
  case reapFailed error => exact hstep.2 ▸ h.reapFailed hstep.1 error
  case setup got error seen => exact h.readSetup hstep.1 hquiet hstep.2
  case report seen => exact h.reportExit hstep.1 hstep.2
  case pump wrote got => exact h.pumpStreams hstep
  case limit => exact hstep.2 ▸ h.checkLimit hstep.1 cap
  case retain late seen => exact h.retain hstep.1 hstep.2
  case leave => exact hstep.2 ▸ h.leave hstep.1
  case result seen => exact h.sendResult hstep.1 hstep.2
  case interrupt => exact hstep ▸ h.interrupt
  case event event =>
    obtain ⟨world, hmove, rfl⟩ := Option.map_eq_some_iff.mp hstep
    exact h.event hmove

end Supervisor

theorem supervision_sound {acts : List Act} {s : Supervisor}
    (h : (supervision cap).RunOf Supervisor.Undisturbed acts s) : s.Sound :=
  h.invariant (I := fun _ s => s.Sound) (fun _ hinit => hinit ▸ Supervisor.sound_init)
    fun _ _ _ _ hsound hquiet hstep => hsound.step hquiet hstep

/-- **Every run that gets to its end undisturbed, with counters that fit, has sent
records that `_control` accepts and `_clean` finds in order.** A `started` record
was sent only if the gate was opened and the setup pipe then closed without a
report, by a successful `execve` or by the end of the child; and it was sent
whenever the `execve` succeeded and the outcome is "exited". -/
theorem supervision_accepted {cap : Nat} {acts : List Act} {s : Supervisor}
    (h : (supervision cap).RunOf Supervisor.Undisturbed acts s) (hdone : s.pc = .done)
    (hbounded : s.Bounded) :
    s.Clean ∧
      (startedSent s.records = true → s.world.gateOpened = true ∧
        (s.world.executed = true ∨ s.world.child.gone = true ∧ s.world.written = 0)) ∧
      (s.world.executed = true → s.outcome = .exited → startedSent s.records = true) := by
  obtain ⟨hsteady, hstaged⟩ := supervision_sound h
  refine ⟨hstaged.clean hdone hbounded, fun hsent => ?_, fun _ he => ?_⟩
  · rw [hsteady.sent] at hsent
    obtain ⟨-, hgate, hwritten, hclosed⟩ := hsteady.start hsent
    refine ⟨hgate, ?_⟩
    cases hexec : s.world.executed with
    | true => exact .inl rfl
    | false => exact .inr ⟨hsteady.world.gone_of_not_executed hclosed hexec, hwritten⟩
  · rw [hsteady.sent]
    exact (hsteady.whole he).2.2.1 (hstaged.ended hdone he)

/-- One turn of the loop in which nothing is read but the ends of pipes. -/
def quietTurn (reaping : List Act) (setup got : Got) : List Act :=
  [.commands {}, .peek false false, .deadline false, .kill 0 none] ++ reaping ++
    [.setup setup 0 {}, .report {}, .pump (.bytes 0) got, .pump (.bytes 0) got, .limit,
      .retain false {}, .leave]

/-- A step that is not disturbed. -/
def Supervisor.quietStep (cap : Nat) (s : Supervisor) (act : Act) : Option Supervisor :=
  if s.disturbed act then none else s.step cap act

theorem Supervisor.quietStep_spec {s s' : Supervisor} {act : Act}
    (h : s.quietStep cap act = some s') : s.Undisturbed act ∧ (supervision cap).Step s act s' := by
  unfold quietStep at h
  split at h
  · cases h
  next hquiet => exact ⟨Bool.eq_false_iff.mpr hquiet, h⟩

/-- A command that runs and exits. -/
theorem supervision_accepted_exit : ∃ s, (supervision 0).RunOf Supervisor.Undisturbed
      ([.launch 0 true, .event .permit, .event .exec] ++ quietTurn [.reapNone] .eof .retry ++
        [.event (.exit 3), .event .zombie] ++
        quietTurn [.reapLeader, .reapEmpty] .retry .eof ++ [.result {}]) s ∧
    s.world.executed = true ∧ s.outcome = .exited ∧ s.Clean ∧ startedSent s.records = true := by
  obtain ⟨s, hrun, hdone, hbounded, hexec, hexited⟩ :=
    LTS.exists_runOf_exec (A := supervision 0) Supervisor.quietStep_spec rfl
      ([.launch 0 true, .event .permit, .event .exec] ++ quietTurn [.reapNone] .eof .retry ++
        [.event (.exit 3), .event .zombie] ++
        quietTurn [.reapLeader, .reapEmpty] .retry .eof ++ [.result {}])
      (fun s => s.pc = .done ∧ (s.reapedCount < 2 ^ 64 ∧ s.out.readBytes < 2 ^ 64 ∧
        s.err.readBytes < 2 ^ 64) ∧ s.world.executed = true ∧ s.outcome = .exited)
      (by decide +kernel)
  obtain ⟨hclean, -, hsent⟩ := supervision_accepted hrun hdone hbounded
  exact ⟨s, hrun, hexec, hexited, hclean, hsent hexec hexited⟩

/-- **The child is killed between the gate and its `execve`**: its setup pipe closes
without a report, and a `started` record is sent for a command that never ran. -/
theorem killed_before_exec_announced : ∃ s, (supervision 0).Run
      ([.launch 0 true, .event .permit, .event (.die ⟨9, by decide⟩)] ++
        quietTurn [.reapNone] .eof .retry ++ [.event .zombie] ++
        quietTurn [.reapLeader, .reapEmpty] .retry .eof ++ [.result {}]) s ∧
    s.pc = .done ∧ startedSent s.records = true ∧ s.world.executed = false :=
  LTS.exists_run_of_exec (A := supervision 0) (fun h => h) rfl _
    (fun s => s.pc = .done ∧ startedSent s.records = true ∧ s.world.executed = false)
    (by decide +kernel)

end FoldGPT.Direct
