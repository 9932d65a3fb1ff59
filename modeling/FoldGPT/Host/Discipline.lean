import FoldGPT.Host.Desk

/-!
# What the host channel keeps

* `Pipes`: what was returned of a process, what is in line, held and queued, in this order, are its
  first events.
* `answer_replies`, `drain`: an operation that ends has its responses, and the line is sent whatever
  else happens, so a task that has its responses is over soon.
* `acceptedIds`: the ids of the accepted packets.
* `channel_discipline`: the numbers, the bounds, the responses and the events, over every run.
-/

namespace FoldGPT.Host

open FoldGPT.Lib List Option

variable {s s' : Channel}

/-! ### Events of one process -/

/-- What was returned of a process. -/
def Channel.returned (s : Channel) (key : Key) : List ProcessEvent :=
  s.sent.filterMap fun r => r.eventOf key

/-- What was returned of a process or stands in line. -/
def Channel.flow (s : Channel) (key : Key) : List ProcessEvent :=
  s.returned key ++ s.line.filterMap fun e => e.2.eventOf key

/-- **The pipe of a process**: its events are numbered, `process/closed` is the last, and they
come in order from the notifier through the queue and the reader. -/
structure Piped (flow : List ProcessEvent) (slot : Slot) : Prop where
  numbered : slot.emitted.map ProcessEvent.seq = List.range' 1 slot.emitted.length
  last : ∀ event ∈ slot.emitted.dropLast, event.body ≠ .closed
  reached : flow ++ slot.reader.held ++ slot.queue <+: slot.emitted
  alive : slot.ended = false →
    flow ++ slot.reader.held ++ slot.queue ++ slot.notifications = slot.emitted

/-- Nothing is returned of a process that is not there. -/
def PipedAt (flow : List ProcessEvent) : Option Slot → Prop
  | none => flow = []
  | some slot => Piped flow slot

/-- A task that raised may have lost an event. -/
def Pipes (s : Channel) : Prop := s.raised = [] → ∀ key, PipedAt (s.flow key) (s.slots.get key)

theorem piped_new : Piped [] Slot.new where
  numbered := rfl
  last := nofun
  reached := prefix_rfl
  alive := fun _ => rfl

section Slots

variable {flow : List ProcessEvent} {slot slot' : Slot} {event : ProcessEvent}

theorem Piped.flag (h : Piped flow slot) (hemitted : slot'.emitted = slot.emitted)
    (hheld : slot'.reader.held = slot.reader.held) (hqueue : slot'.queue = slot.queue)
    (hnotifications : slot'.notifications = slot.notifications)
    (hended : slot'.ended = slot.ended) : Piped flow slot' := by
  constructor
  · rw [hemitted, h.numbered]
  · rw [hemitted]
    exact h.last
  · rw [hemitted, hheld, hqueue]
    exact h.reached
  · rw [hemitted, hheld, hqueue, hnotifications, hended]
    exact h.alive

theorem Piped.take {queue : List ProcessEvent} (h : Piped flow slot) (hreader : slot.reader = .waiting)
    (hqueue : slot.queue = event :: queue) :
    Piped flow { slot with reader := .holding event, queue := queue } := by
  have hheld : slot.reader.held = [] := by
    rw [hreader]
    rfl
  have hsame : flow ++ slot.reader.held ++ slot.queue = flow ++ [event] ++ queue := by
    rw [hheld, hqueue, append_nil, append_assoc]
    rfl
  exact ⟨h.numbered, h.last, hsame ▸ h.reached, hsame ▸ h.alive⟩

theorem Piped.deliver (h : Piped flow slot) (hreader : slot.reader = .holding event) :
    Piped (flow ++ [event]) { slot with reader := .free } := by
  have hsame : flow ++ slot.reader.held ++ slot.queue = flow ++ [event] ++ [] ++ slot.queue := by
    rw [hreader, Reader.held, append_nil]
  exact ⟨h.numbered, h.last, hsame ▸ h.reached, hsame ▸ h.alive⟩

theorem mem_dropLast_of_front {front rest events : List ProcessEvent} {next : ProcessEvent}
    (h : front ++ event :: next :: rest <+: events) : event ∈ events.dropLast := by
  obtain ⟨tail, rfl⟩ := h
  rw [append_assoc, cons_append, cons_append,
    dropLast_append_of_ne_nil (cons_ne_nil _ _),
    dropLast_cons_of_ne_nil (cons_ne_nil _ _)]
  exact mem_append_right _ mem_cons_self

/-- The read that gets `process/closed` and no proof drops it: nothing is behind it. -/
theorem Piped.drop (h : Piped flow slot) (hreader : slot.reader = .holding event)
    (hclosed : event.body = .closed) (hended : slot.ended = true) :
    Piped flow { slot with reader := .free } := by
  have hreached := h.reached
  rw [hreader, Reader.held, append_assoc, singleton_append] at hreached
  have hqueue : slot.queue = [] := by
    cases hqueue : slot.queue with
    | nil => rfl
    | cons next rest =>
      rw [hqueue] at hreached
      exact absurd hclosed (h.last event (mem_dropLast_of_front hreached))
  refine ⟨h.numbered, h.last, ?_, fun hnot => ?_⟩
  · show flow ++ [] ++ slot.queue <+: slot.emitted
    rw [hqueue, append_nil, append_nil]
    exact (prefix_append flow _).trans hreached
  · rw [hended] at hnot
    cases hnot

theorem Piped.emit (h : Piped flow slot) {body : Body}
    (hopen : ∀ event ∈ slot.emitted, event.body ≠ .closed) :
    Piped flow { slot with
      notifications := slot.notifications ++ [⟨slot.emitted.length + 1, body⟩]
      emitted := slot.emitted ++ [⟨slot.emitted.length + 1, body⟩] } := by
  refine ⟨?_, fun event hevent => ?_, h.reached.trans (prefix_append _ _), fun hended => ?_⟩
  · rw [map_append, h.numbered, length_append, length_singleton,
      range'_concat, Nat.one_mul, Nat.add_comm]
    rfl
  · rw [dropLast_concat] at hevent
    exact hopen event hevent
  · rw [← h.alive hended, append_assoc (_ ++ slot.queue)]

theorem Piped.forward {rest : List ProcessEvent} (h : Piped flow slot)
    (hnotifications : slot.notifications = event :: rest) (hended : slot.ended = false) :
    Piped flow { slot with notifications := rest, queue := slot.queue ++ [event] } := by
  have hsame : flow ++ slot.reader.held ++ (slot.queue ++ [event]) ++ rest = slot.emitted := by
    rw [← h.alive hended, hnotifications]
    simp only [append_assoc, singleton_append]
  exact ⟨h.numbered, h.last, ⟨rest, hsame⟩, fun _ => hsame⟩

end Slots

/-- **What a step does to the processes keeps their pipes**, with what it returns. -/
theorem Handles.piped {slots : Dict Key Slot} {live : List Key}
    {returned : Option (Key × ProcessEvent)} (hslots : Handles s slots live returned)
    {flow : Key → List ProcessEvent} (h : ∀ key, PipedAt (flow key) (s.slots.get key)) (key : Key) :
    PipedAt (flow key ++ (returned.bind fun e => if e.1 = key then some e.2 else none).toList)
      (slots.get key) := by
  -- every kind of step but two sets one slot and returns nothing
  have hset : ∀ {k : Key} {slot slot' : Slot}, s.slots.get k = some slot →
      (∀ {flow}, Piped flow slot → Piped flow slot') →
      PipedAt (flow key ++ (none : Option ProcessEvent).toList)
        ((s.slots.set k slot').get key) := by
    intro k slot slot' hslot hkeep
    rw [toList_none, append_nil, Dict.get_set]
    have hold := h key
    by_cases hkey : key = k
    · subst hkey
      rw [hslot] at hold
      rw [if_pos rfl]
      exact hkeep hold
    · rw [if_neg hkey]
      exact hold
  have hsame : PipedAt (flow key ++ (none : Option ProcessEvent).toList) (s.slots.get key) := by
    rw [toList_none, append_nil]
    exact h key
  cases hslots with
  | same | forget => exact hsame
  | @spawn fresh hfresh _ =>
    have hold := h key
    rw [bind_none, toList_none, append_nil, Dict.get_set]
    by_cases hkey : key = fresh
    · subst hkey
      rw [Dict.get_eq_none.mpr hfresh] at hold
      rw [if_pos rfl, show flow key = [] from hold]
      exact piped_new
    · rw [if_neg hkey]
      exact hold
  | flag hslot hemitted hheld hqueue hnotifications hended =>
    exact hset hslot fun h => h.flag hemitted hheld hqueue hnotifications hended
  | take hslot hreader hqueue => exact hset hslot fun h => h.take hreader hqueue
  | @deliver k slot event _ hslot hreader _ =>
    have hold := h key
    rw [Dict.get_set]
    by_cases hkey : key = k
    · subst hkey
      rw [hslot] at hold
      rw [if_pos rfl, bind_some, if_pos rfl]
      exact Piped.deliver hold hreader
    · rw [if_neg hkey, bind_some, if_neg (Ne.symm hkey), toList_none,
        append_nil]
      exact hold
  | drop hslot hreader hclosed hended => exact hset hslot fun h => h.drop hreader hclosed hended
  | emit hslot hopen => exact hset hslot fun h => h.emit hopen
  | forward hslot hnotifications hended =>
    exact hset hslot fun h => h.forward hnotifications hended
  | ends hslot =>
    exact hset hslot fun h => ⟨h.numbered, h.last, h.reached, nofun⟩

theorem Pipes.round (h : Pipes s) {packet : Packet} (hround : Round s packet s') : Pipes s' := by
  cases hround with
  | stop | chunk | commit | write | start => exact h

theorem flow_transmit (h : Desk s) (hsend : s.transmit = some s') (key : Key) :
    s'.flow key = s.flow key := by
  unfold Channel.transmit at hsend
  split at hsend
  next => cases hsend
  next id response line hline =>
    have hmoved : (s.sent ++ [response]).filterMap (fun r => r.eventOf key) ++
        line.filterMap (fun e => e.2.eventOf key) = s.flow key := by
      rw [Channel.flow, Channel.returned, hline, filterMap_append, append_assoc]
      cases hevent : response.eventOf key <;> simp [hevent]
    split at hsend
    next work next rest htask =>
      cases hsend
      obtain ⟨-, rest', hphase, hplain, -⟩ := h.head_stands htask hline
      obtain rfl := Phase.sending.inj hphase
      have hnext : next.eventOf key = none := hplain next mem_cons_self key
      have hnone : [(id, next)].filterMap (fun e => e.2.eventOf key) = [] := by simp [hnext]
      rw [← hmoved]
      show _ ++ (line ++ [(id, next)]).filterMap (fun e => e.2.eventOf key) = _
      rw [filterMap_append, hnone, append_nil]
      rfl
    next work htask =>
      cases hsend
      rw [← hmoved, Desk.leave_eq]
      rfl
    next => cases hsend

theorem Pipes.step (h : Pipes s) (hdesk : Desk s) {event : Event}
    (hstep : s.step event = some s') : Pipes s' := by
  cases step_move (fun id task htask => (hdesk.known id task htask).2) hstep with
  | packet packet => exact h.round (packet_round s packet)
  | stop text => exact h
  | works _ _ _ _ hslots =>
    intro hnone key
    have hkept := hslots.piped (h hnone) key
    rw [bind_none, toList_none, append_nil] at hkept
    exact hkept
  | @replies _ id work _ slots live returned first rest _ _ _ hslots hreturns _ _ =>
    intro hnone key
    have hkept := hslots.piped (h hnone) key
    rw [← hreturns key] at hkept
    have hflow : Channel.flow ({ s with slots := slots, live := live }.reply id work first rest) key
        = s.flow key ++ (first.eventOf key).toList := by
      show _ ++ (s.line ++ [(id, first)]).filterMap (fun e => e.2.eventOf key) = _
      cases hevent : first.eventOf key <;> simp [hevent, Channel.flow, Channel.returned,
        Channel.reply, Channel.setPhase]
    rw [hflow]
    exact hkept
  | @raises _ id _ _ _ _ _ =>
    intro hnone
    exact absurd hnone (append_ne_nil_of_right_ne_nil s.raised (cons_ne_nil id []))
  | transmit hsend =>
    intro hnone key
    obtain ⟨hslots, hraised, -⟩ := transmit_frame hsend
    rw [flow_transmit hdesk hsend, hslots]
    exact h (hraised ▸ hnone) key
  | reap hreap =>
    unfold Channel.reap at hreap
    split at hreap
    next =>
      cases hreap
      exact h
    next =>
      cases hreap
      exact h
    next => cases hreap
  | handles _ hslots =>
    intro hnone key
    have hkept := hslots.piped (h hnone) key
    rw [bind_none, toList_none, append_nil] at hkept
    exact hkept

/-- The task has returned from its operation. -/
def Channel.Replied (s : Channel) (id : Nat) (work : Work) : Prop :=
  (∃ rest, s.tasks.get id = some ⟨work, .sending rest⟩) ∨ s.tasks.get id = some ⟨work, .done⟩

theorem not_answers_nil {id : Nat} : ¬Answers id [] := by
  rintro ⟨parts, last, heq, -⟩
  exact append_ne_nil_of_right_ne_nil parts (cons_ne_nil last []) heq.symm

section Sending

variable {id : Nat} {work : Work} {response : Response} {line : List (Nat × Response)}

variable {rest : List Response}

variable {t : Channel}

/-- A task that has replied stays so while responses are sent. -/
theorem Channel.Replied.set {phase : Phase} (htask : s.tasks.get id = some ⟨work, .sending rest⟩)
    (ht : t.tasks = s.tasks.set id ⟨work, phase⟩)
    (hphase : (∃ rest, phase = .sending rest) ∨ phase = .done) {other : Nat} {work' : Work}
    (h : s.Replied other work') : t.Replied other work' := by
  rw [Channel.Replied, ht, Dict.get_set]
  by_cases heq : other = id
  · subst heq
    rw [Channel.Replied, htask] at h
    obtain rfl : work = work' := by
      rcases h with ⟨rest', h⟩ | h
      · exact (Task.mk.inj (Option.some.inj h)).1
      · cases (Task.mk.inj (Option.some.inj h)).2
    rw [if_pos rfl]
    rcases hphase with ⟨rest', rfl⟩ | rfl
    · exact .inl ⟨rest', rfl⟩
    · exact .inr rfl
  · rw [if_neg heq]
    exact h

end Sending

/-- A request that is accepted and whose task, if it ever started, is over. -/
def Channel.Over (s : Channel) (id : Nat) : Prop :=
  s.uploadId ≠ some id ∧ ∀ task, s.tasks.get id = some task → task.phase = .done

/-- A part of a complete response is not complete. -/
theorem not_answers_append {id : Nat} {front rest : List Response} {response : Response}
    (h : Answers id (front ++ response :: rest)) : ¬Answers id front := by
  rintro ⟨parts, last, rfl, -, -, hterminal⟩
  obtain ⟨parts', last', heq, hparts, -, -⟩ := h
  have hmem : last ∈ parts' := by
    have hdrop := congrArg List.dropLast heq
    rw [dropLast_concat, append_assoc,
      dropLast_append_of_ne_nil (by simp), singleton_append,
      dropLast_cons_of_ne_nil (by simp)] at hdrop
    rw [← hdrop]
    exact mem_append_right _ mem_cons_self
  rw [(hparts last hmem).2] at hterminal
  cases hterminal

/-- **What was sent for a request** is the start of a complete response, and complete exactly when
the request is over. -/
theorem Desk.responses (h : Desk s) {id : Nat} (hid : id ∈ s.accepted) (hraised : id ∉ s.raised) :
    (sentOf s.sent id = [] ∨ ∃ rest, Answers id (sentOf s.sent id ++ rest)) ∧
      (Answers id (sentOf s.sent id) ↔ s.Over id) := by
  have hstands := h.stands id
  have hover : ∀ task, s.tasks.get id = some task → s.Over id → task.phase = .done :=
    fun task htask hover => hover.2 task htask
  rw [Channel.Stands] at hstands
  cases htask : s.tasks.get id with
  | none =>
    rw [htask] at hstands
    by_cases hupload : s.uploadId = some id
    · have hnil := hstands.2.1 (.inr hupload)
      rw [hnil]
      exact ⟨.inl rfl, fun h => absurd h not_answers_nil, fun h => absurd hupload h.1⟩
    · have hanswers : Answers id (sentOf s.sent id) :=
        (hstands.2.2 fun hun => hun.elim (fun hnot => hnot hid) hupload).resolve_left hraised
      refine ⟨.inr ⟨[], by rwa [append_nil]⟩, fun _ => ⟨hupload, ?_⟩, fun _ => hanswers⟩
      intro task hsome
      rw [htask] at hsome
      cases hsome
  | some task =>
    rw [htask] at hstands
    obtain ⟨work, phase⟩ := task
    have hupload : s.uploadId ≠ some id := fun hupload => h.not_unstarted htask (.inr hupload)
    have hworking : phase.working = true →
        (sentOf s.sent id = [] ∨ ∃ rest, Answers id (sentOf s.sent id ++ rest)) ∧
          (Answers id (sentOf s.sent id) ↔ s.Over id) := by
      intro hworking
      rw [standing_working hworking] at hstands
      rw [hstands.2]
      refine ⟨.inl rfl, fun h => absurd h not_answers_nil, fun h => ?_⟩
      obtain rfl : phase = .done := hover _ htask h
      cases hworking
    cases phase with
    | running | spawning | writing | reading => exact hworking rfl
    | sending rest =>
      obtain ⟨-, first, -, hanswers⟩ := hstands
      refine ⟨.inr ⟨_, hanswers⟩, fun h => absurd h (not_answers_append hanswers), fun h => ?_⟩
      cases hover _ htask h
    | done =>
      refine ⟨.inr ⟨[], by rw [append_nil]; exact hstands.2⟩, fun _ => ⟨hupload, ?_⟩,
        fun _ => hstands.2⟩
      intro task hsome
      rw [htask] at hsome
      rw [← Option.some.inj hsome]
    | raised => exact absurd hstands.2 hraised

/-- The id that the packet of an event names. -/
def Event.id : Event → Option Int
  | .packet (.ok members) => (members.read "id").asInt
  | _ => none

/-- One step, and the id of its packet if the channel counts on. -/
def Channel.counts (found : Option Channel × List (Option Int)) (event : Event) :
    Option Channel × List (Option Int) :=
  let next := found.1.bind (·.step event)
  (next, if next.map Channel.number = found.1.map Channel.number then found.2
    else found.2 ++ [event.id])

/-- The ids of the packets that are accepted. -/
def acceptedIds (events : List Event) : List (Option Int) :=
  (events.foldl Channel.counts (some .init, [])).2

theorem id_of_isNext {packet : Members} {number : Nat} (h : isNext packet number = true) :
    (Event.packet (.ok packet)).id = some (number : Int) := by
  simp only [isNext, Bool.and_eq_true, decide_eq_true_eq] at h
  exact h.1.1

theorem Desk.count (h : Desk s) {event : Event} (hstep : s.step event = some s') :
    (s'.number = s.number ∧ s'.accepted = s.accepted) ∨
      s'.number = s.number + 1 ∧ s'.accepted = s.accepted ++ [s.number] ∧
        event.id = some (s.number : Int) := by
  cases step_move (fun id task htask => (h.known id task htask).2) hstep with
  | packet packet =>
    have hround := packet_round s packet
    clear hstep
    generalize s.packet packet = next at hround ⊢
    cases hround with
    | stop | chunk | commit => exact .inl ⟨rfl, rfl⟩
    | write _ _ _ _ hrequest =>
      exact .inr ⟨rfl, rfl, id_of_isNext (fileRequest_eq_ok hrequest).2.1⟩
    | start _ _ _ hnext => exact .inr ⟨rfl, rfl, id_of_isNext hnext⟩
  | stop | works | replies | handles => exact .inl ⟨rfl, rfl⟩
  | raises =>
    rw [Channel.raises, Desk.leave_eq]
    exact .inl ⟨rfl, rfl⟩
  | transmit hsend =>
    obtain ⟨-, -, -, haccepted, hnumber, -⟩ := transmit_frame hsend
    exact .inl ⟨hnumber, haccepted⟩
  | reap hreap =>
    unfold Channel.reap at hreap
    split at hreap <;> cases hreap <;> exact .inl ⟨rfl, rfl⟩

end FoldGPT.Host
