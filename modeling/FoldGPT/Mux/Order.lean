import FoldGPT.Mux.Relay
import Mathlib.Data.List.Induction

/-!
# What the client and the servers see

The lines that reach the client come from the two servers, each in its own order, and the two
answers to the first `initialize` are one line of both streams: whoever of the servers is faster,
the published answer stands behind everything either said before its own answer and before
everything it says after it.

Main result: `relay_orderly`.
-/

namespace FoldGPT.Mux

open FoldGPT.Lib List Option

/-! ### What has been read -/

structure Ledger where
  initialization : Option PyKey := none
  answered : Role → Option Line := fun _ => none
  stream : Role → List (Option Line) := fun _ => []
  inbox : List (List Role × Line) := []

namespace Ledger

/-- A line of the client: the first `initialize` request and the notifications `initialized` are for
both servers. -/
def client (loads : Loads) (l : Ledger) (line : Line) : Ledger :=
  match frame loads line with
  | .error _ => l
  | .ok message => { l with
      initialization := if l.initialization.isNone && isInitialize message then
          (message.read "id").key
        else l.initialization
      inbox := l.inbox ++ [(Relay.targets l.initialization message, line)] }

/-- The first response to the `initialize` request. -/
def isAnswer (l : Ledger) (role : Role) (message : Members) : Bool :=
  l.initialization.isSome && (l.answered role).isNone && !hasMethod message &&
    decide ((message.read "id").key = l.initialization)

/-- The client is shown all that main says, and the responses and allowed notifications of the
host. -/
def isShown (role : Role) (message : Members) : Bool :=
  decide (role = .main) || !hasMethod message || !hasId message && isAllowed message

/-- A line of a server. -/
def server (loads : Loads) (l : Ledger) (role : Role) (line : Line) : Ledger :=
  match frame loads line with
  | .error _ => l
  | .ok message =>
    if l.isAnswer role message then { l with
      answered := Function.update l.answered role (some line)
      stream := Function.update l.stream role (l.stream role ++ [none]) }
    else if isShown role message then { l with
      stream := Function.update l.stream role (l.stream role ++ [some line]) }
    else l

def note (loads : Loads) (l : Ledger) : Event → Ledger
  | .client line => l.client loads line
  | .server role line => l.server loads role line
  | _ => l

/-- The lines for a server. -/
def outbox (l : Ledger) (role : Role) : List Line :=
  (l.inbox.filter fun entry => entry.1.contains role).map Prod.snd

end Ledger

/-- What a run has read. -/
def ledger (loads : Loads) (events : List Event) : Ledger := events.foldl (Ledger.note loads) {}

theorem ledger_append (loads : Loads) (events : List Event) (event : Event) :
    ledger loads (events ++ [event]) = (ledger loads events).note loads event := by
  rw [ledger, foldl_append]
  rfl

/-! ### What the client has got -/

/-- A line at the client. -/
inductive Entry
  | said (role : Role) (line : Line)
  | published (line : Line)
  deriving DecidableEq

def Entry.line : Entry → Line
  | .said _ line => line
  | .published line => line

/-- The entry as a line of a server's stream. -/
def Entry.on (role : Role) : Entry → Option (Option Line)
  | .said speaker line => if speaker = role then some (some line) else none
  | .published _ => some none

/-- What the client has got of a stream. -/
def told (role : Role) (log : List Entry) : List (Option Line) := log.filterMap (Entry.on role)

@[simp] theorem told_append (role : Role) (log log' : List Entry) :
    told role (log ++ log') = told role log ++ told role log' := filterMap_append

@[simp] theorem told_published (role : Role) (line : Line) : told role [.published line] = [none] :=
  rfl

@[simp] theorem told_said (role : Role) (line : Line) :
    told role [.said role line] = [some line] := by
  simp [told, Entry.on]

theorem told_said_of_ne {role speaker : Role} (h : speaker ≠ role) (line : Line) :
    told role [.said speaker line] = [] := by
  simp [told, Entry.on, h]

/-- Every published answer is a mark in each stream. -/
theorem count_told (role : Role) (log : List Entry) :
    (told role log).count none = log.countP fun entry => entry matches .published _ := by
  induction log with
  | nil => rfl
  | cons entry rest ih =>
    rw [countP_cons, ← ih]
    cases entry with
    | said speaker line =>
      by_cases h : speaker = role
      · simp [told, Entry.on, h]
      · simp [told, Entry.on, h]
    | published line => simp [told, Entry.on]

/-- The answer has been published. -/
def Published (log : List Entry) : Prop := ∃ line, .published line ∈ log

/-! ### Where the tasks stand -/

/-- What of a stream has been passed on, while its answer is withheld or not. -/
def Speaks (withheld : Prop) (passed stream : List (Option Line)) : Speaker → Prop
  | .reading | .draining => ¬withheld ∧ stream = passed
  | .locking line => ¬withheld ∧ stream = passed ++ [some line]
  | .waiting => (withheld → stream = passed ++ [none]) ∧ (¬withheld → stream = passed)
  | .stopped _ => (withheld → passed ++ [none] <+: stream) ∧ passed <+: stream

/-- What of the lines for a server has been written. -/
def Feeds (written outbox : List Line) (role : Role) : Feeder → Prop
  | .sending line left _ => left.Nodup ∧
      outbox = written ++ (if role ∈ left then [line] else [])
  | .stopped _ => written <+: outbox
  | _ => outbox = written

/-- The answer was chosen from the two answers that arrived. -/
def IsChosen (loads : Loads) (l : Ledger) (line : Line) : Prop :=
  ∃ primary companion, l.answered .main = some primary ∧ l.answered .host = some companion ∧
    line = chosen loads primary companion

/-- How far `to_servers` is with the publication. -/
def Publishes (loads : Loads) (l : Ledger) (log : List Entry) : Feeder → Prop
  | .sending _ _ opening => opening = true → ¬Published log
  | .awaiting => ¬Published log
  | .locking line => ¬Published log ∧ IsChosen loads l line
  | .draining _ => Published log
  | .reading | .stopped _ => True

/-- The answer of a server has arrived and is not published. -/
def Withheld (l : Ledger) (log : List Entry) (role : Role) : Prop :=
  (l.answered role).isSome = true ∧ ¬Published log

/-- **The invariant of the relay.** -/
structure Orderly (loads : Loads) (l : Ledger) (log : List Entry) (s : Relay) : Prop where
  initialization : s.initialization = l.initialization
  answer : ∀ role line, s.answer role = .result line ↔ l.answered role = some line
  pending : ∀ role, s.answer role = .closed → ∃ outcome, s.speaker role = .stopped outcome
  toClient : s.toClient = log.map Entry.line
  speaks : ∀ role, Speaks (Withheld l log role) (told role log) (l.stream role) (s.speaker role)
  feeds : ∀ role, Feeds (s.sent role) (l.outbox role) role s.feeder
  publishes : Publishes loads l log s.feeder
  asked : ∀ role, (l.answered role).isSome = true → l.initialization.isSome = true
  initialized : s.initialized = true →
    Published log ∨ ∀ role, ∃ outcome, s.speaker role = .stopped outcome
  marks : ∀ role, (l.stream role).count none = if (l.answered role).isSome then 1 else 0
  chosen : ∀ line, .published line ∈ log → IsChosen loads l line

variable {loads : Loads} {l : Ledger} {log : List Entry} {s s' : Relay} {role : Role} {line : Line}

theorem orderly_start (loads : Loads) : Orderly loads {} [] {} where
  initialization := rfl
  answer _ _ := ⟨nofun, nofun⟩
  pending _ := nofun
  toClient := rfl
  speaks _ := ⟨fun h => Bool.false_ne_true h.1, rfl⟩
  feeds _ := rfl
  publishes := trivial
  asked _ := nofun
  initialized := nofun
  marks _ := rfl
  chosen _ := nofun

/-! ### Tasks that stop -/

@[simp] theorem Relay.setSpeaker_self (s : Relay) (role : Role) (speaker : Speaker) :
    (s.setSpeaker role speaker).speaker role = speaker := Function.update_self ..

variable {speaker : Speaker}

theorem Relay.setSpeaker_of_ne {other : Role} (h : other ≠ role) :
    (s.setSpeaker role speaker).speaker other = s.speaker other := Function.update_of_ne h ..

theorem Speaks.stopped {withheld : Prop} {passed stream : List (Option Line)}
    (h : Speaks withheld passed stream speaker) (outcome : Outcome) :
    Speaks withheld passed stream (.stopped outcome) := by
  cases speaker with
  | reading | draining =>
    obtain ⟨hnot, rfl⟩ := h
    exact ⟨fun hw => absurd hw hnot, prefix_rfl⟩
  | locking line =>
    obtain ⟨hnot, rfl⟩ := h
    exact ⟨fun hw => absurd hw hnot, prefix_append _ _⟩
  | waiting =>
    by_cases hw : withheld
    · obtain rfl := h.1 hw
      exact ⟨fun _ => prefix_rfl, prefix_append _ _⟩
    · obtain rfl := h.2 hw
      exact ⟨fun hw' => absurd hw' hw, prefix_rfl⟩
  | stopped _ => exact h

theorem Feeds.stopped {written outbox : List Line} {feeder : Feeder}
    (h : Feeds written outbox role feeder) (outcome : Outcome) :
    Feeds written outbox role (.stopped outcome) := by
  cases feeder with
  | sending line left opening =>
    obtain ⟨-, rfl⟩ := h
    exact prefix_append _ _
  | stopped _ => exact h
  | reading | awaiting | locking _ | draining _ =>
    obtain rfl : outbox = written := h
    exact prefix_rfl

theorem outbox_append {l l' : Ledger} {targets : List Role} {line : Line}
    (h : l'.inbox = l.inbox ++ [(targets, line)]) (role : Role) :
    l'.outbox role = l.outbox role ++ (if role ∈ targets then [line] else []) := by
  unfold Ledger.outbox
  rw [h, filter_append, map_append]
  by_cases hmem : role ∈ targets
  · simp [hmem]
  · simp [hmem]

theorem targets_nodup (initialization : Option PyKey) (message : Members) :
    (Relay.targets initialization message).Nodup := by
  unfold Relay.targets
  split
  · decide
  · exact nodup_cons.mpr ⟨not_mem_nil, nodup_nil⟩

theorem live_of_eq {speaker : Speaker} (h : s.speaker role = speaker)
    (hlive : ∀ outcome, speaker ≠ .stopped outcome) (outcome : Outcome) :
    s.speaker role ≠ .stopped outcome := h ▸ hlive outcome

namespace Orderly

variable (h : Orderly loads l log s)

include h

/-- A published answer was chosen, so the first `initialize` was asked. -/
theorem opened (hpublished : Published log) : l.initialization.isSome = true := by
  obtain ⟨line, hline⟩ := hpublished
  obtain ⟨primary, _, hprimary, -⟩ := h.chosen line hline
  exact h.asked .main (by rw [hprimary]; rfl)

theorem feeder_stopped (outcome : Outcome) :
    Orderly loads l log { s with feeder := .stopped outcome } :=
  { h with
    feeds := fun role => (h.feeds role).stopped outcome
    publishes := trivial }

theorem lock (holder : Option Task) : Orderly loads l log { s with lock := holder } :=
  { h with }

/-- A future is given up only by a `from_server` that has ended. -/
theorem pending_live (hlive : ∀ outcome, s.speaker role ≠ .stopped outcome) (speaker : Speaker)
    (other : Role) (hclosed : s.answer other = .closed) :
    ∃ outcome, (s.setSpeaker role speaker).speaker other = .stopped outcome := by
  obtain ⟨outcome, hover⟩ := h.pending other hclosed
  have hne : other ≠ role := fun heq => hlive outcome (heq ▸ hover)
  exact ⟨outcome, by rw [Relay.setSpeaker_of_ne hne, hover]⟩

/-- While a `from_server` goes on, the event is set by the publication alone. -/
theorem published_of_live (hlive : ∀ outcome, s.speaker role ≠ .stopped outcome)
    (hset : s.initialized = true) :
    Published log := by
  rcases h.initialized hset with hpublished | hall
  · exact hpublished
  · obtain ⟨outcome, hover⟩ := hall role
    exact absurd hover (hlive outcome)

theorem setSpeaker {speaker : Speaker} (hlive : ∀ outcome, s.speaker role ≠ .stopped outcome)
    (hspeaks : Speaks (Withheld l log role) (told role log) (l.stream role) speaker) :
    Orderly loads l log (s.setSpeaker role speaker) := by
  refine { h with
    pending := h.pending_live hlive speaker
    speaks := fun other => ?_
    initialized := fun hset => .inl (h.published_of_live hlive hset) }
  by_cases heq : other = role
  · subst heq
    rw [Relay.setSpeaker_self]
    exact hspeaks
  · rw [Relay.setSpeaker_of_ne heq]
    exact h.speaks other

theorem speaker_stopped (role : Role) (outcome : Outcome) :
    Orderly loads l log (s.setSpeaker role (.stopped outcome)) := by
  have hover : ∀ other, (∃ o, s.speaker other = .stopped o) →
      ∃ o, (s.setSpeaker role (.stopped outcome)).speaker other = .stopped o := by
    rintro other ⟨o, ho⟩
    by_cases heq : other = role
    · subst heq
      exact ⟨outcome, by rw [Relay.setSpeaker_self]⟩
    · exact ⟨o, by rw [Relay.setSpeaker_of_ne heq, ho]⟩
  refine { h with
    pending := fun other hclosed => hover other (h.pending other hclosed)
    speaks := fun other => ?_
    initialized := fun hset => (h.initialized hset).imp_right fun hall other =>
      hover other (hall other) }
  by_cases heq : other = role
  · subst heq
    rw [Relay.setSpeaker_self]
    exact (h.speaks other).stopped outcome
  · rw [Relay.setSpeaker_of_ne heq]
    exact h.speaks other

/-! ### The client's lines -/

theorem client (hreading : s.feeder = .reading) (line : Line) :
    Orderly loads (l.client loads line) log (s.client loads line) := by
  unfold Relay.client Ledger.client
  cases hempty : line.isEmpty with
  | true =>
    obtain rfl := List.isEmpty_iff.mp hempty
    exact h.feeder_stopped .ended
  | false =>
    cases hframe : frame loads line with
    | error message => exact h.feeder_stopped _
    | ok message =>
      -- the first `initialize` is read before any answer to it
      have hclosed : (l.initialization.isNone && isInitialize message) = true →
          ¬l.initialization.isSome = true := by
        intro hopening hsome
        rw [isNone_eq_false_iff.mpr hsome] at hopening
        cases hopening
      have hfeeds : l.outbox = s.sent := funext fun role => by
        have hfed := h.feeds role
        rw [hreading] at hfed
        exact hfed
      simp only [h.initialization, Bool.false_eq_true, if_false]
      refine { h with
        initialization := rfl
        feeds := fun role => ⟨targets_nodup _ _, ?_⟩
        publishes := fun hopening hpublished => hclosed hopening (h.opened hpublished)
        asked := fun role hanswered => ?_ }
      · rw [outbox_append rfl, hfeeds]
      · have hsome := h.asked role hanswered
        rw [if_neg fun hopening => hclosed hopening hsome]
        exact hsome

theorem write {left : List Role} {opening : Bool}
    (hsending : s.feeder = .sending line left opening) (hleft : role ∈ left) :
    Orderly loads l log { s with
      feeder := .sending line (left.erase role) opening
      sent := Function.update s.sent role (s.sent role ++ [line]) } := by
  have hfeeds : ∀ other, Feeds (s.sent other) (l.outbox other) other (.sending line left opening) :=
    fun other => hsending ▸ h.feeds other
  have hpublishes := h.publishes
  rw [hsending] at hpublishes
  refine { h with feeds := fun other => ⟨(hfeeds other).1.erase role, ?_⟩, publishes := hpublishes }
  obtain ⟨hnodup, hout⟩ := hfeeds other
  by_cases heq : other = role
  · subst heq
    simp only [Function.update_self, if_neg hnodup.not_mem_erase, append_nil]
    rw [hout, if_pos hleft]
  · simp only [Function.update_of_ne heq, mem_erase_of_ne heq]
    exact hout

theorem sent {opening : Bool} (hsending : s.feeder = .sending line [] opening) :
    Orderly loads l log { s with feeder := if opening then .awaiting else .reading } := by
  have hpublishes := h.publishes
  rw [hsending] at hpublishes
  have hfeeds : ∀ role, l.outbox role = s.sent role := by
    intro role
    have hfed := h.feeds role
    rw [hsending] at hfed
    simpa using hfed.2
  cases opening with
  | true => exact { h with feeds := hfeeds, publishes := hpublishes rfl }
  | false => exact { h with feeds := hfeeds, publishes := trivial }

/-! ### The publication -/

theorem feeds_eq {feeder : Feeder} (hfeeder : s.feeder = feeder)
    (hidle : ∀ role written outbox, Feeds written outbox role feeder → outbox = written)
    (role : Role) : l.outbox role = s.sent role :=
  hidle role _ _ (hfeeder ▸ h.feeds role)

theorem gather (hawaiting : s.feeder = .awaiting)
    (hgather : s.gather loads = some s') : Orderly loads l log s' := by
  have hfeeds := h.feeds_eq hawaiting fun _ _ _ heq => heq
  have hpublishes := h.publishes
  rw [hawaiting] at hpublishes
  unfold Relay.gather at hgather
  split at hgather
  next primary companion hprimary hcompanion =>
    cases hgather
    exact { h with
      feeds := hfeeds
      publishes := ⟨hpublishes, primary, companion, (h.answer .main primary).mp hprimary,
        (h.answer .host companion).mp hcompanion, rfl⟩ }
  next =>
    cases hgather
    exact h.feeder_stopped _
  next =>
    cases hgather
    exact h.feeder_stopped _
  next => cases hgather

/-- **The answer is published**: both streams have it next. -/
theorem publish (hlocking : s.feeder = .locking line) :
    Orderly loads l (log ++ [.published line]) { s with
      lock := some .feeder, feeder := .draining line, toClient := s.toClient ++ [line] } := by
  have hfeeds := h.feeds_eq hlocking fun _ _ _ heq => heq
  have hpublishes := h.publishes
  rw [hlocking] at hpublishes
  obtain ⟨hnot, hchosen⟩ := hpublishes
  have hpublished : Published (log ++ [.published line]) := ⟨line, by simp⟩
  have hwithheld : ∀ role, Withheld l log role := by
    obtain ⟨primary, companion, hprimary, hcompanion, -⟩ := hchosen
    intro role
    cases role with
    | main => exact ⟨by rw [hprimary]; rfl, hnot⟩
    | host => exact ⟨by rw [hcompanion]; rfl, hnot⟩
  have hreleased : ∀ role, ¬Withheld l (log ++ [.published line]) role :=
    fun role hstill => hstill.2 hpublished
  refine { h with
    toClient := ?_
    speaks := fun role => ?_
    feeds := hfeeds
    publishes := hpublished
    initialized := fun _ => .inl hpublished
    chosen := fun other hother => ?_ }
  · rw [h.toClient, map_append]
    rfl
  · rw [told_append, told_published]
    have hspeaks := h.speaks role
    cases hspeaker : s.speaker role with
    | reading | draining | locking _ =>
      rw [hspeaker] at hspeaks
      exact absurd (hwithheld role) hspeaks.1
    | waiting =>
      rw [hspeaker] at hspeaks
      exact ⟨fun hstill => absurd hstill (hreleased role), fun _ => hspeaks.1 (hwithheld role)⟩
    | stopped outcome =>
      rw [hspeaker] at hspeaks
      exact ⟨fun hstill => absurd hstill (hreleased role), hspeaks.1 (hwithheld role)⟩
  · rcases mem_append.mp hother with hold | hnew
    · exact absurd ⟨other, hold⟩ hnot
    · cases mem_singleton.mp hnew
      exact hchosen

theorem published (hdraining : s.feeder = .draining line) : Orderly loads l log { s with
      lock := none
      initialized := true
      feeder := if isFailure loads line then
          .stopped (.failed "An official multiplexed initialization failed")
        else .reading } := by
  have hfeeds := h.feeds_eq hdraining fun _ _ _ heq => heq
  have hpublished := h.publishes
  rw [hdraining] at hpublished
  have hreading : Orderly loads l log
      { s with lock := none, initialized := true, feeder := .reading } :=
    { h with feeds := hfeeds, publishes := trivial, initialized := fun _ => .inl hpublished }
  cases isFailure loads line with
  | true => exact hreading.feeder_stopped _
  | false => exact hreading

/-! ### The servers' lines -/

theorem said (hlocking : s.speaker role = .locking line) :
    Orderly loads l (log ++ [.said role line]) { s.setSpeaker role .draining with
      lock := some (.speaker role), toClient := s.toClient ++ [line] } := by
  have hlive := live_of_eq hlocking fun _ => nofun
  have hpublished : Published (log ++ [.said role line]) ↔ Published log := by simp [Published]
  have hwithheld : ∀ other, Withheld l (log ++ [.said role line]) other = Withheld l log other := by
    intro other
    rw [Withheld, Withheld, hpublished]
  refine { h with
    pending := h.pending_live hlive .draining
    toClient := ?_
    speaks := fun other => ?_
    publishes := ?_
    initialized := fun hset => .inl (hpublished.mpr (h.published_of_live hlive hset))
    chosen := fun other hother => h.chosen other (by simpa using hother) }
  · show s.toClient ++ [line] = _
    rw [h.toClient, map_append]
    rfl
  · show Speaks _ _ _ ((s.setSpeaker role .draining).speaker other)
    rw [hwithheld, told_append]
    by_cases heq : other = role
    · subst heq
      have hspeaks := h.speaks other
      rw [hlocking] at hspeaks
      rw [Relay.setSpeaker_self, told_said]
      exact hspeaks
    · rw [Relay.setSpeaker_of_ne heq, told_said_of_ne (Ne.symm heq), append_nil]
      exact h.speaks other
  · show Publishes loads l _ s.feeder
    have hpublishes := h.publishes
    cases hfeeder : s.feeder with
    | sending other left opening =>
      rw [hfeeder] at hpublishes
      exact fun hopening => hpublished.not.mpr (hpublishes hopening)
    | awaiting =>
      rw [hfeeder] at hpublishes
      exact hpublished.not.mpr hpublishes
    | locking other =>
      rw [hfeeder] at hpublishes
      exact ⟨hpublished.not.mpr hpublishes.1, hpublishes.2⟩
    | draining other =>
      rw [hfeeder] at hpublishes
      exact hpublished.mpr hpublishes
    | reading | stopped _ => trivial

theorem shown (hreading : s.speaker role = .reading) (line : Line) : Orderly loads
      { l with stream := Function.update l.stream role (l.stream role ++ [some line]) } log
      (s.setSpeaker role (.locking line)) := by
  have hlive := live_of_eq hreading fun _ => nofun
  refine { h with
    pending := h.pending_live hlive (.locking line)
    speaks := fun other => ?_
    initialized := fun hset => .inl (h.published_of_live hlive hset)
    marks := fun other => ?_ }
  · by_cases heq : other = role
    · subst heq
      have hspeaks := h.speaks other
      rw [hreading] at hspeaks
      simp only [Relay.setSpeaker_self, Function.update_self, hspeaks.2]
      exact ⟨hspeaks.1, rfl⟩
    · simp only [Relay.setSpeaker_of_ne heq, Function.update_of_ne heq]
      exact h.speaks other
  · by_cases heq : other = role
    · subst heq
      simp only [Function.update_self]
      rw [← h.marks other, count_append]
      rfl
    · simp only [Function.update_of_ne heq]
      exact h.marks other

theorem answers (hreading : s.speaker role = .reading) (line : Line)
    (hasked : l.initialization.isSome = true) (hnone : l.answered role = none) :
    Orderly loads
      { l with
        answered := Function.update l.answered role (some line)
        stream := Function.update l.stream role (l.stream role ++ [none]) } log
      { s.setSpeaker role .waiting with
        answer := Function.update s.answer role (.result line) } := by
  have hlive := live_of_eq hreading fun _ => nofun
  have hunchosen : ∀ line', ¬IsChosen loads l line' := by
    rintro line' ⟨primary, companion, hprimary, hcompanion, -⟩
    cases role with
    | main => exact nomatch hprimary.symm.trans hnone
    | host => exact nomatch hcompanion.symm.trans hnone
  have hnot : ¬Published log := fun ⟨line', hline'⟩ => hunchosen line' (h.chosen line' hline')
  refine { h with
    answer := fun other line' => ?_
    pending := fun other hclosed => ?_
    speaks := fun other => ?_
    publishes := ?_
    asked := fun _ _ => hasked
    initialized := fun hset => .inl (h.published_of_live hlive hset)
    marks := fun other => ?_
    chosen := fun line' hline' => absurd ⟨line', hline'⟩ hnot }
  · by_cases heq : other = role
    · subst heq
      simp
    · simp only [Function.update_of_ne heq]
      exact h.answer other line'
  · by_cases heq : other = role
    · subst heq
      simp only [Function.update_self] at hclosed
      cases hclosed
    · simp only [Function.update_of_ne heq] at hclosed
      exact h.pending_live hlive .waiting other hclosed
  · show Speaks _ _ _ ((s.setSpeaker role .waiting).speaker other)
    by_cases heq : other = role
    · subst heq
      have hspeaks := h.speaks other
      rw [hreading] at hspeaks
      simp only [Relay.setSpeaker_self, Function.update_self, hspeaks.2]
      refine ⟨fun _ => rfl, fun hheld => absurd ⟨?_, hnot⟩ hheld⟩
      simp
    · simp only [Relay.setSpeaker_of_ne heq, Function.update_of_ne heq]
      have hsame : Withheld { l with
          answered := Function.update l.answered role (some line)
          stream := Function.update l.stream role (l.stream role ++ [none]) } log other =
          Withheld l log other := by
        simp only [Withheld, Function.update_of_ne heq]
      rw [hsame]
      exact h.speaks other
  · show Publishes loads _ log s.feeder
    have hpublishes := h.publishes
    cases hfeeder : s.feeder with
    | sending other left opening => exact fun _ => hnot
    | awaiting => exact hnot
    | locking other =>
      rw [hfeeder] at hpublishes
      exact absurd hpublishes.2 (hunchosen other)
    | draining other =>
      rw [hfeeder] at hpublishes
      exact absurd hpublishes hnot
    | reading | stopped _ => trivial
  · by_cases heq : other = role
    · subst heq
      have hmarks := h.marks other
      rw [hnone] at hmarks
      simp only [Function.update_self, count_append, hmarks]
      rfl
    · simp only [Function.update_of_ne heq]
      exact h.marks other

theorem ends (role : Role) : Orderly loads l log { s.setSpeaker role (.stopped .ended) with
      answer := if s.answer role = .pending then Function.update s.answer role .closed
        else s.answer } := by
  have hover := h.speaker_stopped role .ended
  by_cases hpending : s.answer role = .pending
  · rw [if_pos hpending]
    refine { hover with answer := fun other line => ?_, pending := fun other hclosed => ?_ }
    · by_cases heq : other = role
      · subst heq
        have hanswer := h.answer other line
        rw [hpending] at hanswer
        simpa using hanswer
      · simp only [Function.update_of_ne heq]
        exact h.answer other line
    · by_cases heq : other = role
      · subst heq
        exact ⟨.ended, Relay.setSpeaker_self s other _⟩
      · simp only [Function.update_of_ne heq] at hclosed
        exact hover.pending other hclosed
  · rw [if_neg hpending]
    exact hover

/-- While a server's lines are read, the ledger knows whether its answer was seen. -/
theorem isAnswer_eq (hreading : s.speaker role = .reading)
    (message : Members) : s.isAnswer role message = l.isAnswer role message := by
  have hseen : decide (s.answer role = .pending) = (l.answered role).isNone := by
    cases hanswer : s.answer role with
    | pending =>
      cases hanswered : l.answered role with
      | none => rfl
      | some line =>
        rw [(h.answer role line).mpr hanswered] at hanswer
        cases hanswer
    | result line =>
      rw [(h.answer role line).mp hanswer]
      rfl
    | closed =>
      obtain ⟨outcome, hover⟩ := h.pending role hanswer
      rw [hreading] at hover
      cases hover
  rw [Relay.isAnswer, Ledger.isAnswer, hseen, h.initialization]

theorem heard (hreading : s.speaker role = .reading) (line : Line) (message : Members) :
    Orderly loads
      (if l.isAnswer role message then { l with
        answered := Function.update l.answered role (some line)
        stream := Function.update l.stream role (l.stream role ++ [none]) }
      else if Ledger.isShown role message then { l with
        stream := Function.update l.stream role (l.stream role ++ [some line]) }
      else l) log (s.heard role line message) := by
  unfold Relay.heard
  rw [h.isAnswer_eq hreading message]
  cases hanswer : l.isAnswer role message with
  | true =>
    simp only [Ledger.isAnswer, Bool.and_eq_true, isNone_iff_eq_none] at hanswer
    exact h.answers hreading line hanswer.1.1.1 hanswer.1.1.2
  | false =>
    unfold Ledger.isShown
    cases hmain : decide (role = .main) || !hasMethod message with
    | true => exact h.shown hreading line
    | false =>
      cases hasId message with
      | true => exact h.speaker_stopped role _
      | false =>
        cases isAllowed message with
        | true => exact h.shown hreading line
        | false => exact h

theorem server (hreading : s.speaker role = .reading) (line : Line) :
    Orderly loads (l.server loads role line) log (s.server loads role line) := by
  unfold Relay.server Ledger.server
  cases hempty : line.isEmpty with
  | true =>
    obtain rfl := List.isEmpty_iff.mp hempty
    exact h.ends role
  | false =>
    cases frame loads line with
    | error message => exact h.speaker_stopped role _
    | ok message => exact h.heard hreading line message

theorem acquire {task : Task} (hacquire : s.acquire task = some s') :
    ∃ log', Orderly loads l log' s' := by
  unfold Relay.acquire at hacquire
  split at hacquire
  · split at hacquire
    next line hlocking =>
      cases hacquire
      exact ⟨_, h.publish hlocking⟩
    next => cases hacquire
  · split at hacquire
    next line hlocking =>
      cases hacquire
      exact ⟨_, h.said hlocking⟩
    next => cases hacquire

theorem drained {task : Task}
    (hdrained : s.drained loads task = some s') : Orderly loads l log s' := by
  unfold Relay.drained at hdrained
  split at hdrained
  · split at hdrained
    next line hdraining =>
      cases hdrained
      exact h.published hdraining
    next => cases hdrained
  next role =>
    split at hdrained
    next hdraining =>
      cases hdrained
      have hspeaks := h.speaks role
      rw [hdraining] at hspeaks
      have hreading : Orderly loads l log (s.setSpeaker role .reading) :=
        h.setSpeaker (live_of_eq hdraining fun _ => nofun) hspeaks
      exact hreading.lock none
    next => cases hdrained

theorem resume (hwaiting : s.speaker role = .waiting)
    (hset : s.initialized = true) : Orderly loads l log (s.setSpeaker role .reading) := by
  have hlive := live_of_eq hwaiting fun _ => nofun
  have hreleased : ¬Withheld l log role :=
    fun hwithheld => hwithheld.2 (h.published_of_live hlive hset)
  have hspeaks := h.speaks role
  rw [hwaiting] at hspeaks
  exact h.setSpeaker hlive ⟨hreleased, hspeaks.2 hreleased⟩

theorem interrupt (task : Task) : Orderly loads l log (s.interrupt task) := by
  cases task with
  | feeder => exact (h.feeder_stopped .interrupted).lock _
  | speaker role => exact (h.speaker_stopped role .interrupted).lock _

theorem teardown : Orderly loads l log s.teardown :=
  { h with
    pending := fun _ _ => ⟨.interrupted, rfl⟩
    speaks := fun role => (h.speaks role).stopped .interrupted
    feeds := fun role => (h.feeds role).stopped .interrupted
    publishes := trivial
    initialized := fun _ => .inr fun _ => ⟨.interrupted, rfl⟩ }

theorem step {event : Event} (hstep : s.step loads event = some s') :
    ∃ log', Orderly loads (l.note loads event) log' s' := by
  cases event with
  | client line =>
    obtain ⟨hreading, hs⟩ := ite_none_right_eq_some.mp hstep
    cases hs
    exact ⟨log, h.client hreading line⟩
  | server role line =>
    obtain ⟨hreading, hs⟩ := ite_none_right_eq_some.mp hstep
    cases hs
    exact ⟨log, h.server hreading line⟩
  | write role =>
    rw [Relay.step] at hstep
    split at hstep
    next hsending =>
      obtain ⟨hleft, hs⟩ := ite_none_right_eq_some.mp hstep
      cases hs
      exact ⟨log, h.write hsending hleft⟩
    next => cases hstep
  | sent =>
    rw [Relay.step] at hstep
    split at hstep
    next hsending =>
      cases hstep
      exact ⟨log, h.sent hsending⟩
    next => cases hstep
  | gathered =>
    obtain ⟨hawaiting, hs⟩ := ite_none_right_eq_some.mp hstep
    exact ⟨log, h.gather hawaiting hs⟩
  | acquire task => exact h.acquire (ite_none_right_eq_some.mp hstep).2
  | drained task => exact ⟨log, h.drained (ite_none_right_eq_some.mp hstep).2⟩
  | resume role =>
    obtain ⟨⟨hwaiting, hset⟩, hs⟩ := ite_none_right_eq_some.mp hstep
    cases hs
    exact ⟨log, h.resume hwaiting hset⟩
  | interrupt task =>
    cases hstep
    exact ⟨log, h.interrupt task⟩
  | teardown =>
    cases hstep
    exact ⟨log, h.teardown⟩

end Orderly

theorem orderly_of_run {events : List Event} (h : (relaying loads).Run events s) :
    ∃ log, Orderly loads (ledger loads events) log s := by
  refine h.invariant (I := fun events s => ∃ log, Orderly loads (ledger loads events) log s) ?_ ?_
  · rintro _ rfl
    exact ⟨[], orderly_start loads⟩
  · rintro events s event s' - ⟨log, hlog⟩ hstep
    rw [ledger_append]
    exact hlog.step hstep

/-! ### Where the client's lines go -/

/-- The line is an `initialize` request. -/
def isOpening (loads : Loads) (line : Line) : Bool :=
  match frame loads line with
  | .ok message => isInitialize message
  | .error _ => false

/-- The servers that the `initialize` requests are for, in their order. -/
def openings (loads : Loads) (inbox : List (List Role × Line)) : List (List Role) :=
  (inbox.filter fun entry => isOpening loads entry.2).map Prod.fst

/-- A line of the client that is not an `initialize` request is for one server, unless it is the
notification `initialized`; a response is for main. -/
structure Addressed (message : Members) (targets : List Role) : Prop where
  both : isInitialized message = true → targets = [.main, .host]
  one : isInitialize message = false → isInitialized message = false →
    targets = [destination message]
  response : hasMethod message = false → targets = [.main]

theorem asStr_of_hasMethod {message : Members} (h : hasMethod message = false) :
    (message.read "method").asStr = none := by
  rw [Members.read, isSome_eq_false_iff.mp h |> isNone_iff_eq_none.mp]
  rfl

theorem addressed_targets (initialization : Option PyKey) (message : Members) :
    Addressed message (Relay.targets initialization message) where
  both h := by rw [Relay.targets, if_pos (by rw [h, Bool.or_true])]
  one hopening hinitialized := by
    rw [Relay.targets, hopening, hinitialized, Bool.and_false, Bool.or_false]
    rfl
  response h := by
    have hmethod := asStr_of_hasMethod h
    simp [Relay.targets, isInitialize, isInitialized, destination, hmethod]

theorem key_of_initialize {message : Members} (hframe : frame loads line = .ok message)
    (h : isInitialize message = true) : (message.read "id").key.isSome = true := by
  unfold frame at hframe
  split at hframe
  · split at hframe
    next decoded hdecode =>
      cases hframe
      have henvelope := envelope_of_decode hdecode
      obtain ⟨-, hid⟩ := Bool.and_eq_true_iff.mp h
      obtain ⟨id, hid⟩ := isSome_iff_exists.mp hid
      rw [isEnvelope, hid, Bool.and_eq_true] at henvelope
      rw [Members.read, hid]
      exact isNone_eq_false_iff.mp (key_of_isRequestId henvelope.1)
    next => cases hframe
  · cases hframe

theorem targets_of_initialize {initialization : Option PyKey} {message : Members}
    (h : isInitialize message = true) :
    Relay.targets initialization message =
      if initialization.isNone then [.main, .host] else [.main] := by
  obtain ⟨hmethod, -⟩ := Bool.and_eq_true_iff.mp h
  have hname : (message.read "method").asStr = some "initialize" := eq_of_beq hmethod
  have hother : isInitialized message = false := by simp [isInitialized, hname]
  have hmain : destination message = .main := by
    simp [destination, hname, hostMethods]
  rw [Relay.targets, h, hother, hmain, Bool.and_true, Bool.or_false]

/-- Where the lines read so far are for. -/
structure Directed (loads : Loads) (l : Ledger) : Prop where
  addressed : ∀ entry ∈ l.inbox, ∃ message, frame loads entry.2 = .ok message ∧
    Addressed message entry.1
  unopened : l.initialization = none → openings loads l.inbox = []
  opened : l.initialization.isSome = true →
    ∃ n, openings loads l.inbox = [.main, .host] :: List.replicate n [.main]

theorem openings_append {message : Members} (hframe : frame loads line = .ok message)
    (inbox : List (List Role × Line)) (targets : List Role) :
    openings loads (inbox ++ [(targets, line)]) =
      openings loads inbox ++ (if isInitialize message then [targets] else []) := by
  have hline : isOpening loads line = isInitialize message := by rw [isOpening, hframe]
  rw [openings, filter_append, map_append, openings]
  cases hopening : isInitialize message with
  | true | false => simp [hline, hopening]

theorem Directed.message (h : Directed loads l) {message : Members}
    (hframe : frame loads line = .ok message) {l' : Ledger}
    (hinbox : l'.inbox = l.inbox ++ [(Relay.targets l.initialization message, line)])
    (hinitialization : l'.initialization =
      if l.initialization.isNone && isInitialize message then (message.read "id").key
      else l.initialization) : Directed loads l' := by
  have hopenings := openings_append hframe l.inbox (Relay.targets l.initialization message)
  rw [← hinbox] at hopenings
  refine ⟨fun entry hentry => ?_, fun hnone => ?_, fun hsome => ?_⟩
  · rw [hinbox] at hentry
    rcases mem_append.mp hentry with hold | hnew
    · exact h.addressed entry hold
    · cases mem_singleton.mp hnew
      exact ⟨message, hframe, addressed_targets _ _⟩
  · cases hopening : isInitialize message with
    | false =>
      rw [hopening, Bool.and_false, if_neg Bool.false_ne_true] at hinitialization
      rw [hopenings, hopening, h.unopened (hinitialization.symm.trans hnone)]
      rfl
    | true =>
      have hkey := key_of_initialize hframe hopening
      rw [hnone, hopening, Bool.and_true] at hinitialization
      split at hinitialization
      next =>
        rw [← hinitialization] at hkey
        cases hkey
      next hsome => exact absurd (isNone_iff_eq_none.mpr hinitialization.symm) hsome
  · cases hopening : isInitialize message with
    | false =>
      rw [hopening, Bool.and_false, if_neg Bool.false_ne_true] at hinitialization
      obtain ⟨n, hn⟩ := h.opened (hinitialization ▸ hsome)
      exact ⟨n, by rw [hopenings, hopening, hn]; exact append_nil _⟩
    | true =>
      rw [hopening, if_pos rfl, targets_of_initialize hopening] at hopenings
      cases hbefore : l.initialization with
      | none =>
        rw [hbefore, h.unopened hbefore] at hopenings
        exact ⟨0, hopenings⟩
      | some key =>
        obtain ⟨n, hn⟩ := h.opened (by rw [hbefore]; rfl)
        rw [hbefore, hn] at hopenings
        exact ⟨n + 1, by rw [hopenings, replicate_succ']; rfl⟩

theorem Directed.client (h : Directed loads l) (line : Line) :
    Directed loads (l.client loads line) := by
  unfold Ledger.client
  cases hframe : frame loads line with
  | error _ => exact h
  | ok message => exact h.message hframe rfl rfl

theorem directed_ledger (loads : Loads) (events : List Event) :
    Directed loads (ledger loads events) := by
  induction events using List.reverseRecOn with
  | nil => exact ⟨nofun, fun _ => rfl, nofun⟩
  | append_singleton events event ih =>
    rw [ledger_append]
    cases event with
    | client line => exact ih.client line
    | server role line =>
      show Directed loads (Ledger.server loads _ role line)
      unfold Ledger.server
      split
      · exact ih
      · split
        · exact ⟨ih.addressed, ih.unopened, ih.opened⟩
        · split
          · exact ⟨ih.addressed, ih.unopened, ih.opened⟩
          · exact ih
    | write _ | sent | gathered | acquire _ | drained _ | resume _ | interrupt _ | teardown =>
      exact ih

/-! ### The two directions -/

theorem Speaks.told {withheld : Prop} {passed stream : List (Option Line)}
    (h : Speaks withheld passed stream speaker) : passed <+: stream := (h.stopped .ended).2

/-- **The order at the client and at the servers.** At every point of every run, what the client
has got is merged from the two streams: of each it is a first part, in which the answer published
for both stands for that server's own; while a server's next line is awaited it is all of it. At
most one answer is published, chosen from the two that have arrived. The servers have got the
client's lines in their order: the first `initialize` request and the notifications `initialized`
both of them, any other line one of them, responses main. -/
theorem relay_orderly (loads : Loads) (events : List Event) (s : Relay)
    (h : (relaying loads).Run events s) :
    (∃ log : List Entry, s.toClient = log.map Entry.line ∧
      (∀ role, told role log <+: (ledger loads events).stream role) ∧
      (∀ role, s.speaker role = .reading → told role log = (ledger loads events).stream role) ∧
      (log.countP fun entry => entry matches .published _) ≤ 1 ∧
      ∀ line, .published line ∈ log → IsChosen loads (ledger loads events) line) ∧
    (∀ role, s.sent role <+: (ledger loads events).outbox role ∧
      (s.feeder = .reading → s.sent role = (ledger loads events).outbox role)) ∧
    (∀ entry ∈ (ledger loads events).inbox, ∃ message, frame loads entry.2 = .ok message ∧
      Addressed message entry.1) ∧
    (openings loads (ledger loads events).inbox = [] ∨
      ∃ n, openings loads (ledger loads events).inbox =
        [.main, .host] :: List.replicate n [.main]) := by
  obtain ⟨log, hlog⟩ := orderly_of_run h
  have hdirected := directed_ledger loads events
  refine ⟨⟨log, hlog.toClient, fun role => (hlog.speaks role).told, fun role hreading => ?_, ?_,
    hlog.chosen⟩, fun role => ⟨(hlog.feeds role).stopped .ended, fun hreading => ?_⟩,
    hdirected.addressed, ?_⟩
  · have hspeaks := hlog.speaks role
    rw [hreading] at hspeaks
    exact hspeaks.2.symm
  · rw [← count_told .main]
    calc (told .main log).count none
        ≤ ((ledger loads events).stream .main).count none :=
          (hlog.speaks .main).told.sublist.count_le none
      _ ≤ 1 := by
          rw [hlog.marks]
          split
          · exact Nat.le_refl 1
          · exact Nat.zero_le 1
  · exact (hlog.feeds_eq hreading (fun _ _ _ heq => heq) role).symm
  · cases hopened : (ledger loads events).initialization with
    | none => exact .inl (hdirected.unopened hopened)
    | some key => exact .inr (hdirected.opened (by rw [hopened]; rfl))

/-- Lines of one byte: an `initialize` request, the two answers to it, a notification of the host
and one of main. -/
def sampleLoads : Loads := fun line =>
  match line with
  | [1, 10] => some (.obj [("id", .int 7), ("method", .str "initialize")])
  | [2, 10] => some (.obj [("id", .int 7), ("result", .str "main")])
  | [3, 10] => some (.obj [("id", .int 7), ("result", .str "host")])
  | [4, 10] => some (.obj [("method", .str "fs/changed")])
  | [5, 10] => some (.obj [("method", .str "thread/started")])
  | _ => none

/-- Main answers first and waits; the host still says something before its own answer. -/
def sampleEvents : List Event :=
  [.client [1, 10], .write .host, .write .main, .sent, .server .main [2, 10], .server .host [4, 10],
    .acquire (.speaker .host), .drained (.speaker .host), .server .host [3, 10], .gathered,
    .acquire .feeder, .drained .feeder, .resume .main, .server .main [5, 10],
    .acquire (.speaker .main), .drained (.speaker .main)]

theorem relay_orderly_sample :
    ∃ s, (relaying sampleLoads).Run sampleEvents s ∧ s.toClient = [[4, 10], [2, 10], [5, 10]] ∧
      ∃ log : List Entry, s.toClient = log.map Entry.line ∧
        ∀ role, told role log <+: (ledger sampleLoads sampleEvents).stream role := by
  obtain ⟨s, hrun, hclient⟩ :=
    LTS.exists_run_of_exec (A := relaying sampleLoads) (fun h => h) rfl sampleEvents
      (fun s => s.toClient = [[4, 10], [2, 10], [5, 10]]) (by decide +kernel)
  obtain ⟨⟨log, hlog, htold, -⟩, -⟩ := relay_orderly sampleLoads sampleEvents s hrun
  exact ⟨s, hrun, hclient, log, hlog, htold⟩

end FoldGPT.Mux
