import FoldGPT.ExecServer.Server
import FoldGPT.Lib.Keyed

/-!
# Requests in flight

The table, the two counters, the answers and the backend calls of one connection
over every schedule.

* `Server.Shaken`: the backend is only called after `initialize` and then
  `initialized`, and only for declared methods.
* `Server.Counted`: the table and the counters are those of the dispatched jobs,
  and every admitted request is in progress, answered once or dropped.
* `in_flight_exact`: both over every run of an open connection, with the answer
  of every job in progress within reach.
-/

namespace FoldGPT.ExecServer

open FoldGPT.Lib List

variable {config : Config} {s s' : Server}

/-! ### What `request` does -/

variable {params : Json} {uuid : String}

theorem Server.openSession_ok {result : Json}
    (h : s.openSession config params uuid = .ok (s', result)) :
    s' = { s with sessionId := some uuid, log := s.log ++ [.opened] } := by
  simp only [Server.openSession, bind_eq_ok, pure_eq_ok, Prod.mk.injEq] at h
  obtain ⟨members, -, client, -, -, -, -, -, -, -, rfl, -⟩ := h
  rfl

variable {trace : Json} {call : BackendCall}

theorem backendCall_ok {sessionId : String} {id : RequestId} {method : BackendMethod}
    (h : backendCall config sessionId id method params trace = .ok call) :
    call.method ∈ config.methods := by
  simp only [backendCall, bind_eq_ok, require_eq_ok, pure_eq_ok] at h
  obtain ⟨members, -, -, hmethod, -, -, -, -, rfl⟩ := h
  simpa using hmethod

variable {method : String}

theorem Server.operate_ok {id : RequestId}
    (h : s.operate config id method params trace = .ok (.handle call)) :
    s.initialized = true ∧ call.method ∈ config.methods := by
  unfold Server.operate at h
  split at h
  · simp only [bind_eq_ok, pure_eq_ok] at h
    obtain ⟨-, -, -, -, -, -, hanswer⟩ := h
    cases hanswer
  · split at h
    · rename_i hinit
      obtain ⟨call', hcall, hc⟩ := map_eq_ok.mp h
      cases hc
      exact ⟨hinit, backendCall_ok hcall⟩
    · cases h

variable {reaction : Reaction}

/-- `request` opens the session or changes nothing, and reaches the backend only
on an initialized session with a declared method. -/
theorem Server.request_spec {id : RequestId}
    (h : s.request config id method params trace uuid = (s', reaction)) :
    (s' = s ∨ s' = { s with sessionId := some uuid, log := s.log ++ [.opened] }) ∧
      ∀ call, reaction = .handle call →
        s' = s ∧ s.initialized = true ∧ call.method ∈ config.methods := by
  unfold Server.request at h
  split at h
  · split at h
    · rename_i next result hok
      obtain ⟨rfl, rfl⟩ := Prod.mk.inj h
      exact ⟨.inr (Server.openSession_ok hok), fun call hc => by cases hc⟩
    · obtain ⟨rfl, rfl⟩ := Prod.mk.inj h
      exact ⟨.inl rfl, fun call hc => by cases hc⟩
  · split at h
    · rename_i reaction' hok
      obtain ⟨rfl, rfl⟩ := Prod.mk.inj h
      refine ⟨.inl rfl, fun call hc => ⟨rfl, ?_⟩⟩
      subst hc
      exact Server.operate_ok hok
    · obtain ⟨rfl, rfl⟩ := Prod.mk.inj h
      exact ⟨.inl rfl, fun call hc => by cases hc⟩

/-! ### The handshake -/

/-- A session was opened and then declared ready. -/
def Ready (log : List Event) : Prop := ∃ a b c, log = a ++ .opened :: b ++ .ready :: c

theorem Ready.append {log : List Event} (h : Ready log) (more : List Event) :
    Ready (log ++ more) := by
  obtain ⟨a, b, c, rfl⟩ := h
  exact ⟨a, b, c ++ more, by simp⟩

/-- The handshake precedes every backend call. -/
structure Server.Shaken (config : Config) (s : Server) : Prop where
  opened : s.sessionId.isSome → .opened ∈ s.log
  ready : s.initialized = true → Ready s.log
  called : ∀ before call, before ++ [.called call] <+: s.log →
    Ready before ∧ call.method ∈ config.methods

theorem Server.Shaken.frame (h : s.Shaken config) (hsession : s'.sessionId = s.sessionId)
    (hinit : s'.initialized = s.initialized) (hlog : s'.log = s.log) : s'.Shaken config where
  opened := by rw [hsession, hlog]; exact h.opened
  ready := by rw [hinit, hlog]; exact h.ready
  called := by rw [hlog]; exact h.called

theorem called_append {log : List Event} {event : Event}
    (hcalled : ∀ before call, before ++ [.called call] <+: log →
      Ready before ∧ call.method ∈ config.methods)
    (hevent : ∀ call, event = .called call → Ready log ∧ call.method ∈ config.methods) :
    ∀ before call, before ++ [.called call] <+: log ++ [event] →
      Ready before ∧ call.method ∈ config.methods := by
  intro before call hpre
  rcases prefix_concat_iff.mp hpre with heq | hpre
  · obtain ⟨rfl, hlast⟩ := append_inj' heq rfl
    exact hevent call (singleton_inj.mp hlast).symm
  · exact hcalled before call hpre

/-- **`request` keeps the handshake order**, with the call it makes recorded. -/
theorem Server.Shaken.request (h : s.Shaken config) {id : RequestId}
    (hr : s.request config id method params trace uuid = (s', reaction)) :
    ({ s' with log := s'.log ++ reaction.events } : Server).Shaken config := by
  obtain ⟨hstate, hcall⟩ := Server.request_spec hr
  cases reaction with
  | handle call =>
    obtain ⟨rfl, hinit, hmethod⟩ := hcall call rfl
    refine ⟨fun hs => mem_append_left _ (h.opened hs), fun _ => (h.ready hinit).append _,
      called_append h.called fun call' hc => ?_⟩
    cases hc
    exact ⟨h.ready hinit, hmethod⟩
  | respond body =>
    simp only [Reaction.events, append_nil]
    rcases hstate with rfl | rfl
    · exact h.frame rfl rfl rfl
    · refine ⟨fun _ => mem_append_right _ mem_cons_self, fun hi => (h.ready hi).append _,
        called_append h.called fun call hc => by cases hc⟩

/-! ### What `accept` does -/

/-- How `accept` takes a message it does not refuse. -/
inductive Server.Taken (config : Config) (s : Server) (message : Message) (uuid : String) :
    Server → Prop
  | notification (hid : message.id = none) (hsession : s.sessionId.isSome) :
      Taken config s message uuid { s with initialized := true, log := s.log ++ [.ready] }
  | answered {id : RequestId} {method : String} {next : Server} {reaction : Reaction}
      (hid : message.id = some id)
      (hrequest : s.request config id method message.params message.trace uuid = (next, reaction)) :
      Taken config s message uuid
        ({ next with log := next.log ++ reaction.events }.enlist id method message.params
          message.trace .inline (reaction.phase id))
  | full {id : RequestId} {method : String} {error : RpcError} (hid : message.id = some id) :
      Taken config s message uuid
        (s.enlist id method message.params message.trace .inline (.emitting ⟨id, .error error⟩))
  | dispatched {id : RequestId} {method : String} (hid : message.id = some id)
      (hnew : id ∉ s.pending.map Prod.fst)
      (hroom : s.counter (kindOf method) < config.maxInFlight) :
      Taken config s message uuid
        ((s.enter (kindOf method) id).enlist id method message.params message.trace
          (kindOf method) .queued)

theorem Server.accept_cases {message : Message} (h : s.accept config message uuid = .ok s') :
    s.closed = false ∧ s.Taken config message uuid s' := by
  unfold Server.accept at h
  split at h
  · cases h
  · rename_i hclosed
    refine ⟨by simpa using hclosed, ?_⟩
    split at h
    · cases h
    · rename_i hmethod hid
      split at h
      · cases h
      · rename_i hready
        cases h
        have hsession : s.sessionId.isSome := by
          have := (not_or.mp hready).2
          simpa [Option.isNone_iff_eq_none, Option.isSome_iff_ne_none] using this
        exact .notification hid hsession
    · rename_i method id hmethod hid
      split at h
      · cases h
      · rename_i hnew
        split at h
        · cases h
          exact .answered hid rfl
        · split at h
          · cases h
            exact .full hid
          · rename_i hroom
            cases h
            exact .dispatched hid (by simpa using hnew) (Int.not_le.mp hroom)

/-! ### The table and the counters -/

/-- A job that runs as a task of its own. -/
def Job.dispatched (job : Job) : Bool := job.kind ≠ .inline

/-- The number of jobs of a class. -/
def Server.inFlight (s : Server) (kind : Kind) : Nat :=
  s.jobs.countP fun job => job.kind = kind

/-- The table and the counters are those of the dispatched jobs, and every
admitted request is in progress, answered or dropped, under its own id. -/
structure Server.Counted (config : Config) (s : Server) : Prop where
  table : s.pending = (s.jobs.filter Job.dispatched).map fun job => (job.id, job.ticket)
  keys : (s.pending.map Prod.fst).Nodup
  ordinary : s.ordinary = s.inFlight .ordinary
  control : s.control = s.inFlight .control
  ordinary_le : s.ordinary ≤ config.maxInFlight
  control_le : s.control ≤ config.maxInFlight
  numbered : s.accepted.map Prod.fst = List.range s.accepted.length
  settled : s.accepted.Perm (s.jobs.map (fun job => (job.ticket, job.id)) ++
    (s.sent.map (fun p => (p.1, p.2.id)) ++ s.dropped))
  owned : ∀ job ∈ s.jobs, ∀ response, job.phase = .emitting response → response.id = job.id

theorem Server.Counted.tickets_nodup (h : s.Counted config) : (s.jobs.map Job.ticket).Nodup := by
  have haccepted : (s.accepted.map Prod.fst).Nodup := by
    rw [h.numbered]
    exact nodup_range
  have hall := (h.settled.map Prod.fst).nodup_iff.mp haccepted
  rw [map_append, map_map] at hall
  exact (nodup_append.mp hall).1

/-- Nothing the table is about has changed. -/
structure Server.SameTable (s s' : Server) : Prop where
  pending : s'.pending = s.pending
  ordinary : s'.ordinary = s.ordinary
  control : s'.control = s.control
  jobs : s'.jobs = s.jobs
  accepted : s'.accepted = s.accepted
  sent : s'.sent = s.sent
  dropped : s'.dropped = s.dropped

theorem Server.Counted.frame (h : s.Counted config) (hsame : s.SameTable s') :
    s'.Counted config where
  table := by rw [hsame.pending, hsame.jobs]; exact h.table
  keys := by rw [hsame.pending]; exact h.keys
  ordinary := by rw [hsame.ordinary, Server.inFlight, hsame.jobs]; exact h.ordinary
  control := by rw [hsame.control, Server.inFlight, hsame.jobs]; exact h.control
  ordinary_le := by rw [hsame.ordinary]; exact h.ordinary_le
  control_le := by rw [hsame.control]; exact h.control_le
  numbered := by rw [hsame.accepted]; exact h.numbered
  settled := by rw [hsame.accepted, hsame.jobs, hsame.sent, hsame.dropped]; exact h.settled
  owned := by rw [hsame.jobs]; exact h.owned

theorem Server.Counted.enlist_accounts (h : s.Counted config) (id : RequestId) (job : Job)
    (hticket : job.ticket = s.accepted.length) (hid : job.id = id) :
    (s.accepted ++ [(s.accepted.length, id)]).map Prod.fst =
        List.range (s.accepted ++ [(s.accepted.length, id)]).length ∧
      (s.accepted ++ [(s.accepted.length, id)]).Perm
        ((s.jobs ++ [job]).map (fun job => (job.ticket, job.id)) ++
          (s.sent.map (fun p => (p.1, p.2.id)) ++ s.dropped)) := by
  constructor
  · rw [map_append, h.numbered, length_append, length_singleton,
      range_succ]
    rfl
  · rw [map_append, append_assoc, map_singleton, hticket, hid]
    refine (h.settled.append_right _).trans ?_
    rw [append_assoc]
    exact List.Perm.append_left _ perm_append_comm

theorem Server.Counted.enlist_inline (h : s.Counted config) {id : RequestId} {phase : Phase}
    (howned : ∀ response, phase = .emitting response → response.id = id) :
    (s.enlist id method params trace .inline phase).Counted config := by
  obtain ⟨hnumbered, hsettled⟩ := h.enlist_accounts id
    { ticket := s.accepted.length, id, method, params, trace, kind := .inline, phase } rfl rfl
  exact { h with
      table := by
        show s.pending = ((s.jobs ++ [_]).filter Job.dispatched).map _
        rw [filter_append, map_append, h.table]
        simp [Job.dispatched]
      ordinary := by
        show s.ordinary = _
        rw [h.ordinary]
        simp [Server.inFlight, Server.enlist]
      control := by
        show s.control = _
        rw [h.control]
        simp [Server.inFlight, Server.enlist]
      numbered := hnumbered
      settled := hsettled
      owned := by
        intro job hjob response hr
        rcases mem_append.mp hjob with hjob | hjob
        · exact h.owned job hjob response hr
        · rw [mem_singleton.mp hjob] at hr ⊢
          exact howned response hr }

/-- Entering and leaving a class moves its counter only. -/
theorem Server.count_fields (s : Server) (kind : Kind) (change : Int) :
    (s.count kind change).pending = s.pending ∧ (s.count kind change).jobs = s.jobs ∧
      (s.count kind change).accepted = s.accepted ∧ (s.count kind change).sent = s.sent ∧
      (s.count kind change).dropped = s.dropped ∧
      (s.count kind change).ordinary = s.ordinary + (if kind = .ordinary then change else 0) ∧
      (s.count kind change).control = s.control + (if kind = .control then change else 0) := by
  cases kind <;> simp [Server.count]

theorem kindOf_cases (method : String) : kindOf method = .ordinary ∨ kindOf method = .control := by
  unfold kindOf
  split
  · exact .inr rfl
  · exact .inl rfl

/-- **Dispatching keeps the table exact**: the id is new and the counter below
its bound. -/
theorem Server.Counted.enlist_dispatched (h : s.Counted config) {id : RequestId}
    (hnew : id ∉ s.pending.map Prod.fst) (hroom : s.counter (kindOf method) < config.maxInFlight) :
    ((s.enter (kindOf method) id).enlist id method params trace (kindOf method) .queued).Counted
      config := by
  obtain ⟨hnumbered, hsettled⟩ := h.enlist_accounts id
    { ticket := s.accepted.length, id, method, params, trace, kind := kindOf method,
      phase := .queued } rfl rfl
  have hdispatched : (kindOf method ≠ .inline) := by
    rcases kindOf_cases method with hk | hk <;> rw [hk] <;> decide
  obtain ⟨hp, hj, ha, hs, hd, ho, hc⟩ := Server.count_fields
    { s with pending := s.pending ++ [(id, s.accepted.length)] } (kindOf method) 1
  have hordinary := h.ordinary
  have hcontrol := h.control
  exact
    { table := by
        simp only [Server.enlist, Server.enter, hp, hj, ha, filter_append, map_append,
          ← h.table]
        simp [Job.dispatched, hdispatched]
      keys := by
        simp only [Server.enlist, Server.enter, hp, map_append, map_singleton]
        refine nodup_append.mpr ⟨h.keys, nodup_singleton _, ?_⟩
        intro a ha' b hb hab
        rw [mem_singleton.mp hb] at hab
        exact hnew (hab ▸ ha')
      ordinary := by
        simp only [Server.enlist, Server.enter, Server.inFlight, ho, hj, countP_append] at *
        rw [hordinary]
        rcases kindOf_cases method with hk | hk <;> simp [hk]
      control := by
        simp only [Server.enlist, Server.enter, Server.inFlight, hc, hj, countP_append] at *
        rw [hcontrol]
        rcases kindOf_cases method with hk | hk <;> simp [hk]
      ordinary_le := by
        have hle := h.ordinary_le
        simp only [Server.enlist, Server.enter, ho]
        rcases kindOf_cases method with hk | hk
        · rw [hk] at hroom ⊢
          simp only [Server.counter] at hroom
          omega
        · simpa [hk] using hle
      control_le := by
        have hle := h.control_le
        simp only [Server.enlist, Server.enter, hc]
        rcases kindOf_cases method with hk | hk
        · simpa [hk] using hle
        · rw [hk] at hroom ⊢
          simp only [Server.counter] at hroom
          omega
      numbered := by simpa only [Server.enlist, Server.enter, ha] using hnumbered
      settled := by simpa only [Server.enlist, Server.enter, ha, hj, hs, hd] using hsettled
      owned := by
        intro job hjob response hr
        simp only [Server.enlist, Server.enter, hj] at hjob
        rcases mem_append.mp hjob with hjob | hjob
        · exact h.owned job hjob response hr
        · rw [mem_singleton.mp hjob] at hr
          cases hr }

variable {job : Job}

theorem Server.Counted.setPhase (h : s.Counted config) (hmem : job ∈ s.jobs)
    {phase : Phase} (howned : ∀ response, phase = .emitting response → response.id = job.id) :
    (s.setPhase job.ticket phase).Counted config := by
  let move : Job → Job := fun j => if j.ticket = job.ticket then { j with phase } else j
  have hmove : ∀ j, (move j).ticket = j.ticket ∧ (move j).id = j.id ∧ (move j).kind = j.kind := by
    intro j
    simp only [move]
    split <;> exact ⟨rfl, rfl, rfl⟩
  have hcount : ∀ kind, (s.setPhase job.ticket phase).inFlight kind = s.inFlight kind := by
    intro kind
    show (s.jobs.map move).countP _ = _
    rw [countP_map]
    exact countP_congr fun j _ => by simp [hmove]
  exact { h with
      table := by
        show s.pending = ((s.jobs.map move).filter Job.dispatched).map _
        rw [h.table, filter_map, map_map]
        have hsame : (Job.dispatched ∘ move) = Job.dispatched := by
          funext j
          simp [Job.dispatched, hmove]
        rw [hsame]
        exact map_congr_left fun j _ => by simp [hmove]
      ordinary := by rw [hcount]; exact h.ordinary
      control := by rw [hcount]; exact h.control
      settled := by
        show s.accepted.Perm ((s.jobs.map move).map _ ++ _)
        rw [map_map]
        have hsame : s.jobs.map ((fun j : Job => (j.ticket, j.id)) ∘ move) =
            s.jobs.map fun j => (j.ticket, j.id) :=
          map_congr_left fun j _ => by simp [hmove]
        rw [hsame]
        exact h.settled
      owned := by
        intro j hj response hr
        obtain ⟨k, hk, rfl⟩ := mem_map.mp hj
        by_cases heq : k.ticket = job.ticket
        · have hkjob : k = job := inj_on_of_nodup_map h.tickets_nodup hk hmem heq
          simp only [if_pos heq] at hr ⊢
          rw [howned response hr, hkjob]
        · simp only [if_neg heq] at hr ⊢
          exact h.owned k hk response hr }

theorem Server.leave_fields (s : Server) (job : Job) :
    (s.leave job).jobs = s.jobs.filter (fun j => j.ticket ≠ job.ticket) ∧
      (s.leave job).pending = (if job.kind = .inline then s.pending
        else s.pending.filter fun p => p.1 ≠ job.id) ∧
      (s.leave job).ordinary = s.ordinary - (if job.kind = .ordinary then 1 else 0) ∧
      (s.leave job).control = s.control - (if job.kind = .control then 1 else 0) ∧
      (s.leave job).accepted = s.accepted ∧ (s.leave job).sent = s.sent ∧
      (s.leave job).dropped = s.dropped := by
  unfold Server.leave
  cases hk : job.kind <;> simp [Server.count, Int.sub_eq_add_neg]

theorem Server.Counted.eq_of_id (h : s.Counted config) {j k : Job} (hj : j ∈ s.jobs)
    (hk : k ∈ s.jobs) (hdj : j.dispatched = true) (hdk : k.dispatched = true) (hid : j.id = k.id) :
    j = k := by
  have hnodup : ((s.jobs.filter Job.dispatched).map Job.id).Nodup := by
    have := h.keys
    rwa [h.table, map_map] at this
  exact inj_on_of_nodup_map hnodup (mem_filter.mpr ⟨hj, hdj⟩)
    (mem_filter.mpr ⟨hk, hdk⟩) hid

theorem Server.Counted.leave_table (h : s.Counted config) (hmem : job ∈ s.jobs) :
    (s.leave job).pending =
      ((s.leave job).jobs.filter Job.dispatched).map fun j => (j.id, j.ticket) := by
  obtain ⟨hjobs, hpending, -⟩ := s.leave_fields job
  rw [hjobs, hpending, filter_filter]
  by_cases hinline : job.kind = .inline
  · rw [if_pos hinline, h.table]
    congr 1
    refine filter_congr fun j hj => ?_
    by_cases hd : j.dispatched = true
    · have hne : j.ticket ≠ job.ticket := by
        intro heq
        rw [inj_on_of_nodup_map h.tickets_nodup hj hmem heq] at hd
        simp [Job.dispatched, hinline] at hd
      simp [hd, hne]
    · simp [hd]
  · rw [if_neg hinline, h.table, filter_map, filter_filter]
    congr 1
    refine filter_congr fun j hj => ?_
    by_cases hd : j.dispatched = true
    · have hiff : j.id = job.id ↔ j.ticket = job.ticket := by
        constructor
        · intro heq
          rw [h.eq_of_id hj hmem hd (by simpa [Job.dispatched] using hinline) heq]
        · intro heq
          rw [inj_on_of_nodup_map h.tickets_nodup hj hmem heq]
      simp [hd, hiff]
    · simp [hd]

/-- **A job that leaves is accounted for once**, as answered or as dropped. -/
theorem Server.Counted.leave (h : s.Counted config) (hmem : job ∈ s.jobs)
    (sent : List (Nat × Response)) (dropped : List (Nat × RequestId))
    (hrest : (sent.map (fun p => (p.1, p.2.id)) ++ dropped).Perm
      ((job.ticket, job.id) :: (s.sent.map (fun p => (p.1, p.2.id)) ++ s.dropped))) :
    ({ s.leave job with sent, dropped } : Server).Counted config := by
  obtain ⟨hjobs, hpending, hordinary, hcontrol, haccepted, -, -⟩ := s.leave_fields job
  have hperm : s.jobs.Perm (job :: (s.leave job).jobs) := by
    rw [hjobs]
    exact Keyed.perm_cons_filter_ne h.tickets_nodup hmem
  have hcount : ∀ kind, s.inFlight kind =
      (s.leave job).inFlight kind + (if job.kind = kind then 1 else 0) := by
    intro kind
    show s.jobs.countP _ = (s.leave job).jobs.countP _ + _
    rw [hperm.countP_eq, countP_cons]
    simp
  have hord := h.ordinary
  have hctl := h.control
  have hordle := h.ordinary_le
  have hctlle := h.control_le
  rw [hcount] at hord hctl
  exact
    { table := h.leave_table hmem
      keys := by
        show ((s.leave job).pending.map Prod.fst).Nodup
        rw [hpending]
        split
        · exact h.keys
        · exact h.keys.sublist (filter_sublist.map _)
      ordinary := by
        show (s.leave job).ordinary = ((s.leave job).inFlight .ordinary : Int)
        rw [hordinary, hord]
        split <;> omega
      control := by
        show (s.leave job).control = ((s.leave job).inFlight .control : Int)
        rw [hcontrol, hctl]
        split <;> omega
      ordinary_le := by
        show (s.leave job).ordinary ≤ _
        rw [hordinary]
        split <;> omega
      control_le := by
        show (s.leave job).control ≤ _
        rw [hcontrol]
        split <;> omega
      numbered := by
        show (s.leave job).accepted.map Prod.fst = List.range (s.leave job).accepted.length
        rw [haccepted]
        exact h.numbered
      settled := by
        show (s.leave job).accepted.Perm _
        rw [haccepted]
        calc s.accepted.Perm _ := h.settled
          List.Perm _ ((job.ticket, job.id) :: (s.leave job).jobs.map (fun j => (j.ticket, j.id)) ++
              (s.sent.map (fun p => (p.1, p.2.id)) ++ s.dropped)) :=
            (hperm.map fun j => (j.ticket, j.id)).append_right _
          List.Perm _ ((s.leave job).jobs.map (fun j => (j.ticket, j.id)) ++
              ((job.ticket, job.id) :: (s.sent.map (fun p => (p.1, p.2.id)) ++ s.dropped))) :=
            perm_middle.symm
          List.Perm _ _ := hrest.symm.append_left _
      owned := by
        intro j hj response hr
        have hj' : j ∈ (s.leave job).jobs := hj
        rw [hjobs] at hj'
        exact h.owned j (mem_of_mem_filter hj') response hr }

/-! ### Whole runs -/

theorem Server.job_spec {ticket : Nat} (h : s.job ticket = some job) :
    job ∈ s.jobs ∧ job.ticket = ticket :=
  ⟨List.mem_of_find?_eq_some h, by simpa using List.find?_some h⟩

theorem Server.leave_session (s : Server) (job : Job) :
    (s.leave job).closed = s.closed ∧ (s.leave job).sessionId = s.sessionId ∧
      (s.leave job).initialized = s.initialized ∧ (s.leave job).log = s.log := by
  unfold Server.leave
  cases job.kind <;> simp [Server.count]

theorem Server.request_sameTable {id : RequestId}
    (h : s.request config id method params trace uuid = (s', reaction)) :
    s.SameTable { s' with log := s'.log ++ reaction.events } ∧ s'.closed = s.closed := by
  rcases (Server.request_spec h).1 with rfl | rfl
  · exact ⟨⟨rfl, rfl, rfl, rfl, rfl, rfl, rfl⟩, rfl⟩
  · exact ⟨⟨rfl, rfl, rfl, rfl, rfl, rfl, rfl⟩, rfl⟩

theorem Reaction.phase_owned {id : RequestId} {response : Response}
    (h : reaction.phase id = .emitting response) : response.id = id := by
  cases reaction with
  | respond body =>
    cases h
    rfl
  | handle call => cases h

theorem Server.Taken.keeps {message : Message}
    (h : s.Taken config message uuid s') (hs : s.Shaken config) (hc : s.Counted config) :
    s'.Shaken config ∧ s'.Counted config ∧ s'.dropped = s.dropped := by
  cases h with
  | notification hid hsession =>
    refine ⟨⟨fun h => mem_append_left _ (hs.opened h), fun _ => ?_,
      called_append hs.called fun call hcall => by cases hcall⟩,
      hc.frame ⟨rfl, rfl, rfl, rfl, rfl, rfl, rfl⟩, rfl⟩
    obtain ⟨a, b, hlog⟩ := append_of_mem (hs.opened hsession)
    exact ⟨a, b, [], by simp [hlog]⟩
  | answered hid hrequest =>
    obtain ⟨hsame, -⟩ := Server.request_sameTable hrequest
    exact ⟨(hs.request hrequest).frame rfl rfl rfl,
      (hc.frame hsame).enlist_inline fun response hr => Reaction.phase_owned hr, hsame.dropped⟩
  | full hid =>
    refine ⟨hs.frame rfl rfl rfl, hc.enlist_inline fun response hr => ?_, rfl⟩
    cases hr
    rfl
  | @dispatched id method hid hnew hroom =>
    refine ⟨?_, hc.enlist_dispatched hnew hroom, ?_⟩
    · rcases kindOf_cases method with hk | hk <;> rw [hk] <;> exact hs.frame rfl rfl rfl
    · rcases kindOf_cases method with hk | hk <;> rw [hk] <;> rfl

/-- **What one step of an open connection can do**: take a message, move a job to
its next phase, or finish one. -/
inductive Server.Moved (config : Config) (s : Server) : Act → Server → Prop
  | refused {message : Message} {uuid : String} : Moved config s (.receive message uuid) s
  | taken {message : Message} {uuid : String} {s' : Server}
      (htaken : s.Taken config message uuid s') : Moved config s (.receive message uuid) s'
  | started {job : Job} {uuid : String} {next : Server} {reaction : Reaction}
      (hmem : job ∈ s.jobs)
      (hrequest : s.request config job.id job.method job.params job.trace uuid = (next, reaction)) :
      Moved config s (.start job.ticket uuid)
        ({ next with log := next.log ++ reaction.events }.setPhase job.ticket
          (reaction.phase job.id))
  | completed {job : Job} {outcome : Outcome} (hmem : job ∈ s.jobs) :
      Moved config s (.complete job.ticket outcome)
        (s.setPhase job.ticket (.emitting ⟨job.id, settle config outcome⟩))
  | delivered {job : Job} {response : Response} (hmem : job ∈ s.jobs)
      (hphase : job.phase = .emitting response) :
      Moved config s (.emit job.ticket true)
        { s.leave job with sent := s.sent ++ [(job.ticket, response)] }
  | undelivered {job : Job} {response : Response} (hmem : job ∈ s.jobs)
      (hphase : job.phase = .emitting response) :
      Moved config s (.emit job.ticket false)
        { s.leave job with dropped := s.dropped ++ [(job.ticket, job.id)] }

theorem Server.step_cases {act : Act} (h : s.step config act = some s') (hopen : s'.closed = false) :
    s.closed = false ∧ s.Moved config act s' := by
  cases act with
  | receive message uuid =>
    simp only [Server.step] at h
    split at h
    · rename_i next hok
      cases h
      obtain ⟨hclosed, htaken⟩ := Server.accept_cases hok
      exact ⟨hclosed, .taken htaken⟩
    · cases h
      exact ⟨hopen, .refused⟩
  | start ticket uuid =>
    simp only [Server.step] at h
    split at h
    · rename_i ticket' id method params trace kind hjob
      cases h
      obtain ⟨hmem, rfl⟩ := Server.job_spec hjob
      obtain ⟨-, hclosed⟩ := Server.request_sameTable
        (Prod.eta (s.request config id method params trace uuid)).symm
      exact ⟨hclosed ▸ hopen, .started hmem (Prod.eta _).symm⟩
    · cases h
  | complete ticket outcome =>
    simp only [Server.step] at h
    split at h
    · rename_i ticket' id method params trace kind call hjob
      cases h
      obtain ⟨hmem, rfl⟩ := Server.job_spec hjob
      exact ⟨hopen, .completed hmem⟩
    · cases h
  | emit ticket delivered =>
    simp only [Server.step] at h
    split at h
    · rename_i job hjob
      split at h
      · rename_i response hphase
        obtain ⟨hmem, rfl⟩ := Server.job_spec hjob
        cases delivered with
        | true =>
          cases h
          exact ⟨(s.leave_session job).1 ▸ hopen, .delivered hmem hphase⟩
        | false =>
          cases h
          exact ⟨(s.leave_session job).1 ▸ hopen, .undelivered hmem hphase⟩
      · cases h
    · cases h
  | close =>
    cases h
    cases hopen
  | cancel ticket =>
    -- only a closed connection cancels its tasks
    simp only [Server.step] at h
    split at h
    · rename_i job hjob
      split at h
      · cases h
      · rename_i hguard
        have hclosed : s.closed = true := by simpa using (not_or.mp hguard).1
        split at h
        · cases h
          rw [hclosed] at hopen
          cases hopen
        · cases h
          rw [(s.leave_session job).1, hclosed] at hopen
          cases hopen
    · cases h

/-- **Every step of an open connection keeps both invariants**, and only a failed
emission drops an answer. -/
theorem Server.Moved.keeps {act : Act} (h : s.Moved config act s') (hs : s.Shaken config)
    (hc : s.Counted config) :
    s'.Shaken config ∧ s'.Counted config ∧
      ((∀ ticket, act ≠ .emit ticket false) → s'.dropped = s.dropped) := by
  cases h with
  | refused => exact ⟨hs, hc, fun _ => rfl⟩
  | taken htaken =>
    obtain ⟨hs', hc', hdropped⟩ := htaken.keeps hs hc
    exact ⟨hs', hc', fun _ => hdropped⟩
  | @started job uuid next reaction hmem hrequest =>
    obtain ⟨hsame, -⟩ := Server.request_sameTable hrequest
    exact ⟨(hs.request hrequest).frame rfl rfl rfl,
      (hc.frame hsame).setPhase (hsame.jobs ▸ hmem) fun response hr => Reaction.phase_owned hr,
      fun _ => hsame.dropped⟩
  | completed hmem =>
    refine ⟨hs.frame rfl rfl rfl, hc.setPhase hmem fun response hr => ?_, fun _ => rfl⟩
    cases hr
    rfl
  | @delivered job response hmem hphase =>
    obtain ⟨-, hsession, hinit, hlog⟩ := s.leave_session job
    obtain ⟨-, -, -, -, -, -, hdropped⟩ := s.leave_fields job
    refine ⟨hs.frame hsession hinit hlog, ?_, fun _ => hdropped⟩
    refine (hc.leave hmem (s.sent ++ [(job.ticket, response)]) s.dropped ?_).frame
      ⟨rfl, rfl, rfl, rfl, rfl, rfl, hdropped⟩
    rw [map_append, append_assoc, map_singleton,
      hc.owned job hmem response hphase]
    exact perm_middle
  | @undelivered job response hmem hphase =>
    obtain ⟨-, hsession, hinit, hlog⟩ := s.leave_session job
    obtain ⟨-, -, -, -, -, hsent, -⟩ := s.leave_fields job
    refine ⟨hs.frame hsession hinit hlog, ?_, fun hact => absurd rfl (hact job.ticket)⟩
    refine (hc.leave hmem s.sent (s.dropped ++ [(job.ticket, job.id)]) ?_).frame
      ⟨rfl, rfl, rfl, rfl, rfl, hsent, rfl⟩
    rw [← append_assoc]
    exact perm_append_singleton _ _

theorem Server.init_inv : ({} : Server).Shaken config ∧ ({} : Server).Counted config := by
  constructor
  · refine ⟨by simp, by simp, fun before call h => ?_⟩
    have := h.length_le
    simp at this
  · exact
      { table := rfl
        keys := nodup_nil
        ordinary := rfl
        control := rfl
        ordinary_le := Int.natCast_nonneg _
        control_le := Int.natCast_nonneg _
        numbered := rfl
        settled := List.Perm.nil
        owned := by simp }

theorem serving_inv {acts : List Act} (h : (serving config).Run acts s) (hopen : s.closed = false) :
    s.Shaken config ∧ s.Counted config ∧
      ((∀ ticket, .emit ticket false ∉ acts) → s.dropped = []) := by
  refine h.invariant (I := fun acts s => s.closed = false → s.Shaken config ∧ s.Counted config ∧
    ((∀ ticket, Act.emit ticket false ∉ acts) → s.dropped = []))
    (fun s hs _ => ?_) (fun acts s act s' _ hi hst hopen => ?_) hopen
  · rw [show s = {} from hs]
    exact ⟨Server.init_inv.1, Server.init_inv.2, fun _ => rfl⟩
  · obtain ⟨hclosed, hmoved⟩ := Server.step_cases hst hopen
    obtain ⟨hs, hc, hnone⟩ := hi hclosed
    obtain ⟨hs', hc', hdropped⟩ := hmoved.keeps hs hc
    refine ⟨hs', hc', fun hemit => ?_⟩
    rw [hdropped fun ticket heq => hemit ticket (by simp [heq])]
    exact hnone fun ticket hmem => hemit ticket (mem_append_left _ hmem)

/-! ### Answers within reach -/

theorem Server.job_of_mem (hnodup : (s.jobs.map Job.ticket).Nodup)
    (hmem : job ∈ s.jobs) : s.job job.ticket = some job := by
  cases hfind : s.job job.ticket with
  | none =>
    have := List.find?_eq_none.mp hfind job hmem
    simp at this
  | some other =>
    obtain ⟨hother, hticket⟩ := Server.job_spec hfind
    rw [inj_on_of_nodup_map hnodup hother hmem hticket]

theorem Server.mem_setPhase (hmem : job ∈ s.jobs) (phase : Phase) :
    { job with phase } ∈ (s.setPhase job.ticket phase).jobs :=
  mem_map.mpr ⟨job, hmem, by simp⟩

/-- The steps a job takes by itself: its task starts, the backend ends with
`outcome`, the answer is emitted. -/
def ownSteps (ticket : Nat) (uuid : String) (outcome : Outcome) : List Act :=
  [.start ticket uuid, .complete ticket outcome, .emit ticket true]

/-- The job's answer can be sent by steps of its own. -/
def Server.Answers (config : Config) (s : Server) (job : Job) (uuid : String)
    (outcome : Outcome) : Prop :=
  ∃ acts s' response, (∀ act ∈ acts, act ∈ ownSteps job.ticket uuid outcome) ∧
    LTS.exec (Server.step config) s acts = some s' ∧ (job.ticket, response) ∈ s'.sent ∧
    response.id = job.id

theorem Server.Answers.cons {job' : Job} {outcome : Outcome} {act : Act}
    (hact : act ∈ ownSteps job.ticket uuid outcome) (hstep : s.step config act = some s')
    (hticket : job'.ticket = job.ticket) (hid : job'.id = job.id)
    (h : s'.Answers config job' uuid outcome) : s.Answers config job uuid outcome := by
  obtain ⟨acts, last, response, hacts, hexec, hsent, hr⟩ := h
  refine ⟨act :: acts, last, response, fun a ha => ?_, ?_, hticket ▸ hsent, hid ▸ hr⟩
  · rcases mem_cons.mp ha with rfl | ha
    · exact hact
    · exact hticket ▸ hacts a ha
  · simp [LTS.exec, hstep, hexec]

theorem Server.Counted.answers_emitting (hc : s.Counted config) (hmem : job ∈ s.jobs)
    {response : Response} (hphase : job.phase = .emitting response) (uuid : String)
    (outcome : Outcome) : s.Answers config job uuid outcome := by
  have hexec : LTS.exec (Server.step config) s [.emit job.ticket true] =
      some { s.leave job with sent := s.sent ++ [(job.ticket, response)] } := by
    simp [LTS.exec, Server.step, Server.job_of_mem hc.tickets_nodup hmem, hphase]
  exact ⟨_, _, response, by simp [ownSteps], hexec,
    mem_append_right _ mem_cons_self, hc.owned job hmem response hphase⟩

theorem Server.Counted.answers_calling (hc : s.Counted config) (hmem : job ∈ s.jobs)
    (hphase : job.phase = .calling call) (uuid : String)
    (outcome : Outcome) : s.Answers config job uuid outcome := by
  have hstep : s.step config (.complete job.ticket outcome) =
      some (s.setPhase job.ticket (.emitting ⟨job.id, settle config outcome⟩)) := by
    have hjob := Server.job_of_mem hc.tickets_nodup hmem
    obtain ⟨ticket, id, method, params, trace, kind, phase⟩ := job
    subst hphase
    simp [Server.step, hjob]
  have hmoved : (s.setPhase job.ticket (.emitting ⟨job.id, settle config outcome⟩)).Counted
      config := by
    refine hc.setPhase hmem fun response hr => ?_
    cases hr
    rfl
  exact .cons (by simp [ownSteps]) hstep rfl rfl
    (hmoved.answers_emitting (Server.mem_setPhase hmem _) rfl uuid outcome)

/-- **Whatever the backend does, the answer of a job is within its own reach.** -/
theorem Server.Counted.answers (hc : s.Counted config) (hmem : job ∈ s.jobs)
    (uuid : String) (outcome : Outcome) : s.Answers config job uuid outcome := by
  cases hphase : job.phase with
  | emitting response => exact hc.answers_emitting hmem hphase uuid outcome
  | calling call => exact hc.answers_calling hmem hphase uuid outcome
  | queued =>
    obtain ⟨next, reaction, hr⟩ : ∃ next reaction, s.request config job.id job.method job.params
        job.trace uuid = (next, reaction) := ⟨_, _, rfl⟩
    obtain ⟨hsame, -⟩ := Server.request_sameTable hr
    have hstep : s.step config (.start job.ticket uuid) =
        some ({ next with log := next.log ++ reaction.events }.setPhase job.ticket
          (reaction.phase job.id)) := by
      have hjob := Server.job_of_mem hc.tickets_nodup hmem
      obtain ⟨ticket, id, method, params, trace, kind, phase⟩ := job
      subst hphase
      simp [Server.step, hjob, hr]
    have hmem' := hsame.jobs ▸ hmem
    have hmoved := (hc.frame hsame).setPhase hmem' fun response
      (hr : reaction.phase job.id = .emitting response) => Reaction.phase_owned hr
    have hjob' := Server.mem_setPhase hmem' (reaction.phase job.id)
    cases reaction with
    | respond body =>
      exact .cons (by simp [ownSteps]) hstep rfl rfl
        (hmoved.answers_emitting hjob' rfl uuid outcome)
    | handle call =>
      exact .cons (by simp [ownSteps]) hstep rfl rfl
        (hmoved.answers_calling hjob' rfl uuid outcome)

/-- **Requests are correlated, counted and answered exactly once.** In every run
of an open connection: no two dispatched requests in flight share an id; the two
counters are the numbers of requests in flight of their class and within the
bound; a request `accept` does not refuse gets the next ticket, and while emissions
succeed every ticket is either a job in progress, whose answer its own next steps
send, or answered exactly once under its own id; and the backend has been called
only after `initialize` and then `initialized`, for declared methods only. -/
theorem in_flight_exact {acts : List Act} (h : (serving config).Run acts s)
    (hopen : s.closed = false) :
    (∀ j ∈ s.jobs, ∀ k ∈ s.jobs, j.dispatched = true → k.dispatched = true → j.id = k.id →
        j = k) ∧
      (s.ordinary = s.inFlight .ordinary ∧ s.ordinary ≤ config.maxInFlight) ∧
      (s.control = s.inFlight .control ∧ s.control ≤ config.maxInFlight) ∧
      (∀ message uuid id s', message.id = some id → s.accept config message uuid = .ok s' →
        s'.accepted = s.accepted ++ [(s.accepted.length, id)]) ∧
      s.accepted.Nodup ∧
      ((∀ ticket, .emit ticket false ∉ acts) →
        s.accepted.Perm (s.jobs.map (fun job => (job.ticket, job.id)) ++
          s.sent.map (fun p => (p.1, p.2.id)))) ∧
      (∀ job ∈ s.jobs, ∀ uuid outcome, s.Answers config job uuid outcome) ∧
      (∀ before call, before ++ [.called call] <+: s.log →
        Ready before ∧ call.method ∈ config.methods) := by
  obtain ⟨hs, hc, hdropped⟩ := serving_inv h hopen
  refine ⟨fun j hj k hk hdj hdk hid => hc.eq_of_id hj hk hdj hdk hid,
    ⟨hc.ordinary, hc.ordinary_le⟩, ⟨hc.control, hc.control_le⟩, ?_, ?_, fun hemit => ?_,
    fun job hmem uuid outcome => hc.answers hmem uuid outcome, hs.called⟩
  · intro message uuid id s' hid hok
    obtain ⟨-, htaken⟩ := Server.accept_cases hok
    cases htaken with
    | notification hid' _ =>
      rw [hid] at hid'
      cases hid'
    | answered hid' hrequest =>
      obtain ⟨hsame, -⟩ := Server.request_sameTable hrequest
      have haccepted := hsame.accepted
      rw [hid] at hid'
      cases hid'
      simp only [Server.enlist] at haccepted ⊢
      rw [haccepted]
    | full hid' =>
      rw [hid] at hid'
      cases hid'
      rfl
    | @dispatched id' method hid' hnew hroom =>
      rw [hid] at hid'
      cases hid'
      rcases kindOf_cases method with hk | hk <;> rw [hk] <;> rfl
  · have : (s.accepted.map Prod.fst).Nodup := by
      rw [hc.numbered]
      exact nodup_range
    exact List.Nodup.of_map _ this
  · have hsettled := hc.settled
    rw [hdropped hemit, append_nil] at hsettled
    exact hsettled

/-- A backend that can only terminate processes, one at a time. -/
def terminator : Config where
  methods := [.processTerminate]
  features := []
  backed := by simp
  maxInFlight := 1
  positive := le_refl _
  info := .null
  rules := { nfkc := id, bracketedHost := fun _ => false }
  encodable := fun _ => true

/-- A handshake and one operation. -/
def terminatorActs : List Act :=
  [.receive { id := some (.int 1), method := some "initialize",
              params := .obj [("clientName", .str "c")] } "session",
    .emit 0 true,
    .receive { id := none, method := some "initialized" } "",
    .receive { id := some (.str "1"), method := some "process/terminate",
               params := .obj [("processId", .str "p")] } "",
    .start 1 "",
    .complete 1 (.returned (.obj [("running", .bool true)])),
    .emit 1 true]

/-- A handshake and one operation, both answered. -/
theorem in_flight_exact_terminator : ∃ s, (serving terminator).Run terminatorActs s ∧
    s.sent.map (fun p => (p.1, p.2.id)) = [(0, .int 1), (1, .str "1")] ∧
      s.accepted.Perm (s.jobs.map (fun job => (job.ticket, job.id)) ++
        s.sent.map (fun p => (p.1, p.2.id))) ∧
      (∀ before call, before ++ [.called call] <+: s.log →
        Ready before ∧ call.method ∈ terminator.methods) := by
  obtain ⟨s, hrun, hopen, hsent⟩ := LTS.exists_run_of_exec (A := serving terminator)
    (fun h => h) rfl terminatorActs (fun s => s.closed = false ∧
      s.sent.map (fun p => (p.1, p.2.id)) = [(0, .int 1), (1, .str "1")]) (by decide +kernel)
  obtain ⟨-, -, -, -, -, hperm, -, hcalled⟩ := in_flight_exact hrun hopen
  refine ⟨s, hrun, hsent, hperm fun ticket hmem => ?_, hcalled⟩
  simp [terminatorActs] at hmem

end FoldGPT.ExecServer
