import FoldGPT.Profiles.Handle

/-!
# One backend for every process and handle

The books of the profiles stay sound: every identifier that enters a registry was reserved for it,
and the reservation is held over every await of the call.

Main result: `profiles_exclusive`.
-/

namespace FoldGPT.Profiles

open FoldGPT.Lib FoldGPT.ExecServer List

variable {rules : Url.NetlocRules} {hasPty : Bool} {s s' : ModelProfiles}

theorem nodup_processBackends (hasPty : Bool) : (processBackends hasPty).Nodup := by
  cases hasPty <;> decide

theorem mem_fileBackends (backend : FileBackend) : backend ∈ fileBackends := by
  cases backend <;> decide

/-- The identifier an open in flight has reserved. -/
def Flight.reserves : Flight → Option String
  | .opening identifier _ | .opened identifier _ | .failing identifier => some identifier
  | .start _ | .handle _ _ | .other => none

/-- **The books are sound**, and every open in flight has a reservation of its own. -/
structure Owned (hasPty : Bool) (s : ModelProfiles) : Prop where
  processes : s.processes.Sound (processBackends hasPty) 128
  files : s.files.Sound fileBackends 128
  short : ∀ identifier backend, identifier ∈ s.files.kept backend → identifier.utf8ByteSize ≤ 32
  reserved : ∀ ticket identifier backend, s.calls.get ticket = some (.opening identifier backend) →
    (identifier, backend) ∈ s.files.pending
  named : ∀ ticket flight identifier, s.calls.get ticket = some flight →
    flight.reserves = some identifier → identifier ∈ s.files.names
  distinct : ∀ ticket ticket' flight flight' identifier, s.calls.get ticket = some flight →
    s.calls.get ticket' = some flight' → flight.reserves = some identifier →
    flight'.reserves = some identifier → ticket = ticket'

theorem owned_init : Owned hasPty ModelProfiles.init where
  processes := .empty
  files := .empty
  short := nofun
  reserved := nofun
  named := nofun
  distinct := nofun

/-! ### What `handle` has checked -/

variable {method : BackendMethod} {key : ProcessKey} {params : Members} {backend : ProcessBackend}

theorem handleProcess_start {key' : ProcessKey}
    (h : s.handleProcess hasPty method key params = .ok (.start key' backend)) :
    key' ∉ s.processes.names ∧
      (∀ owner ∈ processBackends hasPty, key' ∉ s.processes.kept owner) ∧
      (s.processes.occupied (processBackends hasPty)).length < 128 ∧
      backend ∈ processBackends hasPty := by
  unfold ModelProfiles.handleProcess at h
  split at h
  next =>
    obtain ⟨found, -, h⟩ := bind_eq_ok.mp h
    split at h
    next => cases h
    next => split at h <;> cases h
  next =>
    split at h
    next => cases h
    next hfree =>
      rw [not_or, any_eq_true, not_exists] at hfree
      split at h
      next => cases h
      next hroom =>
        have hkept : ∀ owner ∈ processBackends hasPty, key ∉ s.processes.kept owner :=
          fun owner howner hmem => hfree.2 owner ⟨howner, decide_eq_true hmem⟩
        have hless : (s.processes.occupied (processBackends hasPty)).length < 128 :=
          Nat.lt_of_not_le hroom
        split at h
        next =>
          obtain ⟨rfl, rfl⟩ := Route.start.inj (Except.ok.inj h)
          exact ⟨hfree.1, hkept, hless, by simp [processBackends]⟩
        next =>
          split at h
          next hpty =>
            obtain ⟨rfl, rfl⟩ := Route.start.inj (Except.ok.inj h)
            exact ⟨hfree.1, hkept, hless, by simp [processBackends, hpty.2]⟩
          next =>
            obtain ⟨rfl, rfl⟩ := Route.start.inj (Except.ok.inj h)
            exact ⟨hfree.1, hkept, hless, by simp [processBackends]⟩

variable {identifier : String}

theorem fileBackend_eq_none (h : s.fileBackend identifier = .ok none) :
    ∀ owner ∈ fileBackends, identifier ∉ s.files.kept owner := by
  unfold ModelProfiles.fileBackend at h
  split at h
  next hnone =>
    intro owner howner hmem
    have hin : owner ∈ s.files.owners fileBackends identifier :=
      mem_filter.mpr ⟨howner, decide_eq_true hmem⟩
    rw [hnone] at hin
    cases hin
  next => cases h
  next => cases h

theorem handleOpen_eq_ok {backend : FileBackend} {route : Route}
    (h : s.handleOpen identifier backend = .ok route) :
    route = .opening identifier backend ∧ identifier ∉ s.files.names ∧
      (∀ owner ∈ fileBackends, identifier ∉ s.files.kept owner) ∧
      (s.files.occupied fileBackends).length < 128 := by
  unfold ModelProfiles.handleOpen at h
  split at h
  next => cases h
  next hnames =>
    obtain ⟨found, hfound, h⟩ := bind_eq_ok.mp h
    split at h
    next => cases h
    next =>
      split at h
      next => cases h
      next hroom =>
        exact ⟨(Except.ok.inj h).symm, hnames, fileBackend_eq_none hfound, Nat.lt_of_not_le hroom⟩

theorem handleStream_eq_ok {route : Route} (h : s.handleStream method identifier = .ok route) :
    (∃ value, route = .answer value) ∨ ∃ backend, route = .handle identifier backend := by
  unfold ModelProfiles.handleStream at h
  split at h
  next => cases h
  next =>
    split at h
    next => cases h
    next =>
      obtain ⟨found, -, h⟩ := bind_eq_ok.mp h
      split at h
      next backend => exact .inr ⟨backend, (Except.ok.inj h).symm⟩
      next =>
        split at h
        next => exact .inl ⟨_, (Except.ok.inj h).symm⟩
        next => cases h

theorem handleProcess_eq_ok
    {route : Route} (h : s.handleProcess hasPty method key params = .ok route) :
    (∃ value, route = .answer value) ∨ (∃ backend, route = .process backend) ∨
      ∃ backend, route = .start key backend := by
  unfold ModelProfiles.handleProcess at h
  split at h
  next =>
    obtain ⟨found, -, h⟩ := bind_eq_ok.mp h
    split at h
    next backend => exact .inr (.inl ⟨backend, (Except.ok.inj h).symm⟩)
    next =>
      split at h
      next => exact .inl ⟨_, (Except.ok.inj h).symm⟩
      next => exact .inl ⟨_, (Except.ok.inj h).symm⟩
      next => cases h
  next =>
    split at h
    next => cases h
    next =>
      split at h
      next => cases h
      next =>
        split at h
        next => exact .inr (.inr ⟨_, (Except.ok.inj h).symm⟩)
        next =>
          split at h
          next => exact .inr (.inr ⟨_, (Except.ok.inj h).symm⟩)
          next => exact .inr (.inr ⟨_, (Except.ok.inj h).symm⟩)

/-- **What a route says of the books** it was chosen by. -/
def Admits (hasPty : Bool) (s : ModelProfiles) : Route → Prop
  | .start key backend => key ∉ s.processes.names ∧
      (∀ owner ∈ processBackends hasPty, key ∉ s.processes.kept owner) ∧
      (s.processes.occupied (processBackends hasPty)).length < 128 ∧
      backend ∈ processBackends hasPty
  | .opening identifier _ => identifier ∉ s.files.names ∧
      (∀ owner ∈ fileBackends, identifier ∉ s.files.kept owner) ∧
      (s.files.occupied fileBackends).length < 128
  | _ => True

variable {call : BackendCall}

theorem handle_admits {route : Route}
    (h : s.handle rules hasPty call = .ok route) : Admits hasPty s route := by
  obtain ⟨params, -, h⟩ := bind_eq_ok.mp h
  split at h
  next =>
    rcases handleProcess_eq_ok h with ⟨value, rfl⟩ | ⟨backend, rfl⟩ | ⟨backend, rfl⟩
    · trivial
    · trivial
    · exact handleProcess_start h
  next =>
    split at h
    next =>
      rcases handleStream_eq_ok h with ⟨value, rfl⟩ | ⟨backend, rfl⟩
      · trivial
      · trivial
    next =>
      simp only at h
      split at h
      next =>
        obtain ⟨rfl, hfree⟩ := handleOpen_eq_ok h
        exact hfree
      next =>
        cases h
        trivial

/-! ### Steps -/

namespace Owned

theorem withProcesses (h : Owned hasPty s) {processes : Book ProcessKey ProcessBackend}
    (hsound : processes.Sound (processBackends hasPty) 128) :
    Owned hasPty { s with processes := processes } :=
  ⟨hsound, h.files, h.short, h.reserved, h.named, h.distinct⟩

variable {ticket : Nat} {flight : Flight}

theorem fly (h : Owned hasPty s)
    (hnone : flight.reserves = none) : Owned hasPty (s.fly ticket flight) := by
  have hold : ∀ {other found identifier}, (s.calls.set ticket flight).get other = some found →
      found.reserves = some identifier → s.calls.get other = some found := by
    intro other found identifier hget hreserves
    rw [Dict.get_set] at hget
    split at hget
    next =>
      cases hget
      rw [hnone] at hreserves
      cases hreserves
    next => exact hget
  refine ⟨h.processes, h.files, h.short, fun other identifier backend hget => ?_,
    fun other found identifier hget hreserves => h.named _ _ _ (hold hget hreserves) hreserves,
    fun t t' f f' identifier hget hget' hreserves hreserves' => ?_⟩
  · exact h.reserved _ _ _ (hold hget rfl)
  · exact h.distinct t t' f f' identifier (hold hget hreserves) (hold hget' hreserves') hreserves
      hreserves'

variable {identifier : String}

theorem opening (h : Owned hasPty s) {backend : FileBackend}
    (hadmits : Admits hasPty s (.opening identifier backend)) :
    Owned hasPty ({ s with files := s.files.reserve identifier backend }.fly ticket
      (.opening identifier backend)) := by
  obtain ⟨hnames, hkept, hroom⟩ := hadmits
  have hcases : ∀ {other found}, (s.calls.set ticket (.opening identifier backend)).get other =
      some found → other = ticket ∧ found = .opening identifier backend ∨
        s.calls.get other = some found := by
    intro other found hget
    rw [Dict.get_set] at hget
    split at hget
    next heq => exact .inl ⟨heq, (Option.some.inj hget).symm⟩
    next => exact .inr hget
  refine ⟨h.processes, h.files.reserve backend hnames hkept hroom, h.short,
    fun other id b hget => ?_, fun other found id hget hreserves => ?_,
    fun t t' f f' id hget hget' hreserves hreserves' => ?_⟩
  · rcases hcases hget with ⟨-, heq⟩ | hget
    · obtain ⟨rfl, rfl⟩ := Flight.opening.inj heq
      exact mem_cons_self
    · exact mem_cons_of_mem _ (h.reserved other id b hget)
  · rcases hcases hget with ⟨-, rfl⟩ | hget
    · cases hreserves
      exact mem_cons_self
    · exact mem_cons_of_mem _ (h.named other found id hget hreserves)
  · rcases hcases hget with ⟨rfl, rfl⟩ | hold
    · rcases hcases hget' with ⟨rfl, -⟩ | hold'
      · rfl
      · cases hreserves
        exact absurd (h.named t' f' _ hold' hreserves') hnames
    · rcases hcases hget' with ⟨rfl, rfl⟩ | hold'
      · cases hreserves'
        exact absurd (h.named t f _ hold hreserves) hnames
      · exact h.distinct t t' f f' id hold hold' hreserves hreserves'

theorem refly (h : Owned hasPty s) {flight' : Flight}
    (hget : s.calls.get ticket = some flight) (hsame : flight'.reserves = flight.reserves)
    (hover : ∀ identifier backend, flight' ≠ .opening identifier backend) :
    Owned hasPty (s.fly ticket flight') := by
  have hold : ∀ {other found}, (s.calls.set ticket flight').get other = some found →
      ∃ before, s.calls.get other = some before ∧ before.reserves = found.reserves := by
    intro other found hother
    rw [Dict.get_set] at hother
    split at hother
    next heq =>
      cases hother
      exact ⟨flight, heq ▸ hget, hsame.symm⟩
    next => exact ⟨found, hother, rfl⟩
  refine ⟨h.processes, h.files, h.short, fun other identifier backend hother => ?_,
    fun other found identifier hother hreserves => ?_,
    fun t t' f f' identifier ht ht' hreserves hreserves' => ?_⟩
  · change (s.calls.set ticket flight').get other = _ at hother
    rw [Dict.get_set] at hother
    split at hother
    next => exact absurd (Option.some.inj hother) (hover identifier backend)
    next => exact h.reserved other identifier backend hother
  · obtain ⟨before, hbefore, heq⟩ := hold hother
    exact h.named other before identifier hbefore (heq.trans hreserves)
  · obtain ⟨b, hb, heq⟩ := hold ht
    obtain ⟨b', hb', heq'⟩ := hold ht'
    exact h.distinct t t' b b' identifier hb hb' (heq.trans hreserves) (heq'.trans hreserves')

theorem withFiles (h : Owned hasPty s) {files : Book String FileBackend}
    (hsound : files.Sound fileBackends 128)
    (hshort : ∀ identifier backend, identifier ∈ files.kept backend → identifier.utf8ByteSize ≤ 32)
    (hpending : files.pending = s.files.pending) : Owned hasPty { s with files := files } := by
  refine ⟨h.processes, hsound, hshort, fun ticket identifier backend hget => ?_,
    fun ticket flight identifier hget hreserves => ?_, h.distinct⟩
  · show (identifier, backend) ∈ files.pending
    rw [hpending]
    exact h.reserved ticket identifier backend hget
  · show identifier ∈ files.names
    rw [Book.names, hpending]
    exact h.named ticket flight identifier hget hreserves

theorem drop (h : Owned hasPty s) (backend : FileBackend) (identifier : String) :
    Owned hasPty { s with files := s.files.drop backend identifier } :=
  h.withFiles (h.files.drop backend identifier)
    (fun id owner hmem => h.short id owner (Book.mem_drop.mp hmem).1) rfl

theorem erase (h : Owned hasPty s) (ticket : Nat) :
    Owned hasPty { s with calls := s.calls.erase ticket } := by
  have hold : ∀ {other found}, (s.calls.erase ticket).get other = some found →
      s.calls.get other = some found := by
    intro other found hget
    rw [Dict.get_erase] at hget
    split at hget
    next => cases hget
    next => exact hget
  exact ⟨h.processes, h.files, h.short,
    fun other identifier backend hget => h.reserved _ _ _ (hold hget),
    fun other found identifier hget => h.named _ _ _ (hold hget),
    fun t t' f f' identifier hget hget' => h.distinct _ _ _ _ _ (hold hget) (hold hget')⟩

/-- An open is over and gives its reservation up. -/
theorem release (h : Owned hasPty s)
    (hget : s.calls.get ticket = some flight) (hreserves : flight.reserves = some identifier) :
    Owned hasPty
      { s with files := s.files.release identifier, calls := s.calls.erase ticket } := by
  -- no other open has this identifier
  have hold : ∀ {other found id}, (s.calls.erase ticket).get other = some found →
      found.reserves = some id → s.calls.get other = some found ∧ id ≠ identifier := by
    intro other found id hother hfound
    rw [Dict.get_erase] at hother
    split at hother
    next => cases hother
    next hne =>
      refine ⟨hother, ?_⟩
      rintro rfl
      exact hne (h.distinct other ticket found flight id hother hget hfound hreserves)
  refine ⟨h.processes, h.files.release identifier, h.short, fun other id backend hother => ?_,
    fun other found id hother hfound => ?_, fun t t' f f' id ht ht' hf hf' => ?_⟩
  · obtain ⟨hother, hne⟩ := hold hother rfl
    exact mem_filter.mpr ⟨h.reserved other id backend hother, decide_eq_true hne⟩
  · obtain ⟨hother, hne⟩ := hold hother hfound
    obtain ⟨owner, hmem⟩ := Book.mem_names.mp (h.named other found id hother hfound)
    exact Book.mem_names.mpr ⟨owner, mem_filter.mpr ⟨hmem, decide_eq_true hne⟩⟩
  · exact h.distinct t t' f f' id (hold ht hf).1 (hold ht' hf').1 hf hf'

theorem route (h : Owned hasPty s) {refused : Option RpcError} {route : Route}
    (hadmits : Admits hasPty s route) : Owned hasPty (s.route ticket refused route) := by
  cases route with
  | answer value => exact h
  | process backend => exact h.fly rfl
  | file backend => exact h.fly rfl
  | handle identifier backend => exact h.fly rfl
  | opening identifier backend => exact h.opening hadmits
  | start key backend =>
    obtain ⟨hnames, hkept, hroom, hmem⟩ := hadmits
    have hreserved := h.processes.reserve backend hnames hkept hroom
    unfold ModelProfiles.route
    simp only
    split
    next => exact h.withProcesses (hreserved.release key)
    next =>
      have hentered := hreserved.enter mem_cons_self hmem
      exact (h.withProcesses hentered).fly rfl

theorem finish (h : Owned hasPty s) {cancelled : Bool} (hget : s.calls.get ticket = some flight)
    (hfinish : s.finish ticket cancelled flight = some s') : Owned hasPty s' := by
  cases flight with
  | start key =>
    cases hfinish
    exact (h.withProcesses (h.processes.release key)).erase ticket
  | opening identifier backend | failing identifier =>
    cases hfinish
    exact h.release hget rfl
  | opened identifier backend =>
    simp only [ModelProfiles.finish] at hfinish
    split at hfinish
    next =>
      cases hfinish
      exact h.release hget rfl
    next =>
      split at hfinish
      next =>
        cases hfinish
        exact (h.drop backend identifier).release hget rfl
      next => cases hfinish
  | handle identifier backend | other =>
    cases hfinish
    exact h.erase ticket

theorem backendOpen_eq_ok {backend : FileBackend} {registry : List String}
    {refused : Option RpcError} (h : backendOpen backend registry identifier refused = .ok ()) :
    identifier.utf8ByteSize ≤ 32 := by
  simp only [backendOpen] at h
  split at h
  next => cases h
  next hshort => exact Nat.le_of_not_lt hshort

/-- **Every step keeps the books sound.** -/
theorem step (h : Owned hasPty s) {event : Event}
    (hstep : s.step rules hasPty event = some s') : Owned hasPty s' := by
  cases event with
  | request ticket call refused =>
    simp only [ModelProfiles.step] at hstep
    split at hstep
    next => cases hstep
    next =>
      split at hstep
      next =>
        cases hstep
        exact h
      next route hroute =>
        cases hstep
        exact h.route (handle_admits hroute)
  | acquire ticket refused =>
    simp only [ModelProfiles.step] at hstep
    split at hstep
    next identifier backend hget =>
      split at hstep
      next =>
        cases hstep
        exact h.refly hget rfl nofun
      next hopen =>
        cases hstep
        have hentered := h.files.enter (h.reserved _ _ _ hget) (mem_fileBackends backend)
        have hwith := h.withFiles hentered (fun id owner hmem => ?_) rfl
        · exact hwith.refly hget rfl nofun
        · rcases Book.mem_enter.mp hmem with hmem | ⟨-, rfl⟩
          · exact h.short id owner hmem
          · exact backendOpen_eq_ok hopen
    next => cases hstep
  | drops ticket =>
    simp only [ModelProfiles.step] at hstep
    split at hstep
    next identifier backend _ =>
      cases hstep
      exact h.drop backend identifier
    next => cases hstep
  | retire backend key =>
    cases hstep
    exact h.withProcesses (h.processes.drop backend key)
  | finish ticket cancelled =>
    obtain ⟨flight, hget, hfinish⟩ := Option.bind_eq_some_iff.mp hstep
    exact h.finish hget hfinish

end Owned

theorem owned_of_run {events : List Event} (h : (serving rules hasPty).Run events s) :
    Owned hasPty s := by
  refine h.invariant (I := fun _ s => Owned hasPty s) ?_ ?_
  · rintro s rfl
    exact owned_init
  · intro events s event s' _ howned hstep
    exact howned.step hstep

/-! ### Where requests go -/

theorem Owned.processBackend_of_mem (h : Owned hasPty s) (hmem : key ∈ s.processes.kept backend) :
    s.processBackend hasPty key = .ok (some backend) := by
  rw [ModelProfiles.processBackend,
    h.processes.owners_of_mem (nodup_processBackends hasPty) hmem]

theorem Owned.fileBackend_of_mem (h : Owned hasPty s) {backend : FileBackend}
    (hmem : identifier ∈ s.files.kept backend) : s.fileBackend identifier = .ok (some backend) := by
  rw [ModelProfiles.fileBackend, h.files.owners_of_mem (by decide) hmem]

theorem Owned.processBackend_isOk (h : Owned hasPty s) (key : ProcessKey) :
    ∃ owner, s.processBackend hasPty key = .ok owner := by
  rcases h.processes.owners_cases (nodup_processBackends hasPty) key with hnone | ⟨o, hmem, -⟩
  · exact ⟨none, by rw [ModelProfiles.processBackend, hnone]⟩
  · exact ⟨some o, h.processBackend_of_mem hmem⟩

theorem Owned.fileBackend_isOk (h : Owned hasPty s) (identifier : String) :
    ∃ owner, s.fileBackend identifier = .ok owner := by
  rcases h.files.owners_cases (by decide) identifier with hnone | ⟨o, hmem, -⟩
  · exact ⟨none, by rw [ModelProfiles.fileBackend, hnone]⟩
  · exact ⟨some o, h.fileBackend_of_mem hmem⟩

theorem Owned.handle_process (h : Owned hasPty s)
    (hvalid : validateOperation rules call.method call.params = .ok params)
    (hmethod : isProcessMethod call.method = true) (hstart : call.method ≠ .processStart)
    (hmem : (call.sessionId, processId params) ∈ s.processes.kept backend) :
    s.handle rules hasPty call = .ok (.process backend) := by
  rw [ModelProfiles.handle, hvalid, ok_bind, if_pos hmethod]
  unfold ModelProfiles.handleProcess
  rw [if_pos hstart, h.processBackend_of_mem hmem, ok_bind]
  rfl

theorem Owned.handle_stream (h : Owned hasPty s)
    (hvalid : validateOperation rules call.method call.params = .ok params)
    (hmethod : call.method = .readBlock ∨ call.method = .close) {backend : FileBackend}
    (hmem : handleId params ∈ s.files.kept backend) :
    s.handle rules hasPty call =
      if handleId params ∈ s.files.names then
        .error ⟨-32600, "File handle acquisition is still pending", none⟩
      else .ok (.handle (handleId params) backend) := by
  have hnot : isProcessMethod call.method = false := by
    rcases hmethod with hmethod | hmethod <;> rw [hmethod] <;> rfl
  have hshort : ¬32 < (handleId params).utf8ByteSize := Nat.not_lt.mpr (h.short _ _ hmem)
  rw [ModelProfiles.handle, hvalid, ok_bind, hnot, if_neg Bool.false_ne_true, if_pos hmethod,
    ModelProfiles.handleStream, if_neg hshort, h.fileBackend_of_mem hmem, ok_bind]
  rfl

/-- **One owner for every process and handle**, in every interleaving: no identifier is in two
registries, so no lookup is ambiguous; those pending or registered are at most 128; and a later call
for a registered identifier goes to the backend that created it, or is refused while its open is
pending. -/
theorem profiles_exclusive {rules : Url.NetlocRules} {hasPty : Bool} {events : List Event}
    {s : ModelProfiles} (h : (serving rules hasPty).Run events s) :
    (∀ key b b', key ∈ s.processes.kept b → key ∈ s.processes.kept b' → b = b') ∧
    (∀ identifier b b', identifier ∈ s.files.kept b → identifier ∈ s.files.kept b' → b = b') ∧
    (∀ key, ∃ owner, s.processBackend hasPty key = .ok owner) ∧
    (∀ identifier, ∃ owner, s.fileBackend identifier = .ok owner) ∧
    (s.processes.occupied (processBackends hasPty)).length ≤ 128 ∧
    (s.files.occupied fileBackends).length ≤ 128 ∧
    (∀ call params b, validateOperation rules call.method call.params = .ok params →
      isProcessMethod call.method = true → call.method ≠ .processStart →
      (call.sessionId, processId params) ∈ s.processes.kept b →
      s.processes.creator (call.sessionId, processId params) = some b ∧
        s.handle rules hasPty call = .ok (.process b)) ∧
    (∀ call params b, validateOperation rules call.method call.params = .ok params →
      call.method = .readBlock ∨ call.method = .close → handleId params ∈ s.files.kept b →
      s.files.creator (handleId params) = some b ∧
        s.handle rules hasPty call =
          if handleId params ∈ s.files.names then
            .error ⟨-32600, "File handle acquisition is still pending", none⟩
          else .ok (.handle (handleId params) b)) := by
  have howned := owned_of_run h
  refine ⟨howned.processes.exclusive, howned.files.exclusive, howned.processBackend_isOk,
    howned.fileBackend_isOk, howned.processes.bounded, howned.files.bounded, ?_, ?_⟩
  · intro call params b hvalid hmethod hstart hmem
    exact ⟨howned.processes.author _ _ hmem, howned.handle_process hvalid hmethod hstart hmem⟩
  · intro call params b hvalid hmethod hmem
    exact ⟨howned.files.author _ _ hmem, howned.handle_stream hvalid hmethod hmem⟩

/-- Closing a handle. -/
def closeCall : BackendCall where
  sessionId := "session"
  requestId := .int 2
  method := .close
  params := .obj [("handleId", .str "a")]
  trace := none

/-- A file is opened without a sandbox, and closed while the open is pending and afterwards. -/
def closingEvents : List Event :=
  [.request 1 { closeCall with
      method := .open, params := .obj [("handleId", .str "a"), ("path", .str "file:///a")] } none,
    .acquire 1 none, .request 2 closeCall none, .finish 1 false, .request 3 closeCall none]

theorem profiles_exclusive_closing :
    ∃ s, (serving ⟨id, fun _ => false⟩ true).Run closingEvents s ∧ "a" ∈ s.files.kept .direct ∧
      s.files.creator "a" = some .direct ∧
      s.handle ⟨id, fun _ => false⟩ true closeCall = .ok (.handle "a" .direct) := by
  obtain ⟨s, hrun, hkept, hfree⟩ :=
    LTS.exists_run_of_exec (A := serving ⟨id, fun _ => false⟩ true) (fun h => h) rfl closingEvents
      (fun s => "a" ∈ s.files.kept .direct ∧ "a" ∉ s.files.names) (by decide +kernel)
  obtain ⟨-, -, -, -, -, -, -, hstream⟩ := profiles_exclusive hrun
  obtain ⟨hcreator, hhandle⟩ :=
    hstream closeCall [("handleId", .str "a")] .direct rfl (.inr rfl) hkept
  rw [show handleId [("handleId", .str "a")] = "a" from rfl, if_neg hfree] at hhandle
  exact ⟨s, hrun, hkept, hcreator, hhandle⟩

end FoldGPT.Profiles
