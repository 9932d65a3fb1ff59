import FoldGPT.Streams.Backend
import Mathlib.Data.List.Perm.Basic
import Mathlib.Data.List.Nodup

/-!
# Every descriptor is somewhere

The descriptors acquired so far are those of the handles, those in the socket of an open, and those
closed, each once: this one permutation says that none is closed twice and none is lost.

Main results: `streams_owned`, `unbegun_read_keeps_handle`.
-/

namespace FoldGPT.Streams

open FoldGPT.Lib List

variable {kind : Kind} {s s' : Backend}

/-- The descriptors that are in the socket of an open. -/
def Phase.queue : Phase → List Nat
  | .acquiring queue => queue
  | _ => []

namespace Backend

/-- The descriptors of the handles. -/
def handleFds (s : Backend) : List Nat := s.handles.map fun e => e.2.fd

/-- The descriptors that are in the socket of the running open. -/
def queue (s : Backend) : List Nat :=
  match s.running with
  | some running => running.phase.queue
  | none => []

end Backend

/-- **The vault**: where the descriptors are, whose they are, how they were used, and that a call
that was cancelled or failed has left none it touched open. -/
structure Vault (s : Backend) (queue : List Nat) : Prop where
  custody : (s.handleFds ++ queue ++ s.closes).Perm (List.range s.next)
  keys : s.handles.keys.Nodup
  bounded : s.handles.length ≤ maxHandles
  mine : ∀ id handle, s.handles.get id = some handle →
    s.openers.get handle.fd = some handle.session ∧ s.session = some handle.session
  uses : ∀ use ∈ s.uses, use.live = true ∧ use.fd < s.next ∧
    s.openers.get use.fd = some use.session
  ended : ∀ e ∈ s.ended, e.outcome = .failed ∨ e.outcome = .cancelled →
    ∀ fd ∈ e.touched, fd ∈ s.closes
  closed : s.closed = true → s.handles = []
  shut : ∀ e ∈ s.ended, ∀ session, e.call = .closing session → e.outcome = .returned →
    s.closed = true

namespace Vault

variable {queue : List Nat} {request : Request}

theorem init : Vault Backend.init [] where
  custody := List.Perm.refl _
  keys := nodup_nil
  bounded := Nat.zero_le _
  mine := nofun
  uses := nofun
  ended := nofun
  closed := fun _ => rfl
  shut := nofun

theorem nodup (h : Vault s queue) : (s.handleFds ++ queue ++ s.closes).Nodup :=
  h.custody.nodup_iff.mpr (nodup_range)

theorem mem_iff (h : Vault s queue) {fd : Nat} :
    fd < s.next ↔ fd ∈ s.handleFds ∨ fd ∈ queue ∨ fd ∈ s.closes := by
  rw [← mem_range, ← h.custody.mem_iff, mem_append, mem_append, or_assoc]

variable {handle : Handle}

theorem mem_handleFds {id : String} (hget : s.handles.get id = some handle) :
    handle.fd ∈ s.handleFds := mem_map.mpr ⟨(id, handle), Dict.mem_of_get hget, rfl⟩

theorem isOpen (h : Vault s queue) {id : String}
    (hget : s.handles.get id = some handle) : s.isOpen handle.fd = true := by
  have hmem := mem_handleFds hget
  have hless : handle.fd < s.next := h.mem_iff.mpr (.inl hmem)
  have hnot : handle.fd ∉ s.closes := fun hclosed =>
    (nodup_append.mp h.nodup).2.2 _ (mem_append_left _ hmem) _ hclosed rfl
  simp [Backend.isOpen, hless, hnot]

theorem conclude (h : Vault s queue) {ticket : Nat} {call : Call} {outcome : Outcome}
    {touched : List Nat}
    (htouched : outcome = .failed ∨ outcome = .cancelled → ∀ fd ∈ touched, fd ∈ s.closes)
    (hshut : ∀ session, call = .closing session → outcome = .returned → s.closed = true) :
    Vault (s.conclude ticket call outcome touched) queue := by
  refine ⟨h.custody, h.keys, h.bounded, h.mine, h.uses, fun e he => ?_, h.closed, fun e he => ?_⟩
  all_goals
    rcases mem_append.mp he with he | he
  · exact h.ended e he
  · obtain rfl := mem_singleton.mp he
    exact htouched
  · exact h.shut e he
  · obtain rfl := mem_singleton.mp he
    exact hshut

theorem leave (h : Vault s queue) {ticket : Nat} {outcome : Outcome} {touched : List Nat}
    (htouched : outcome = .failed ∨ outcome = .cancelled → ∀ fd ∈ touched, fd ∈ s.closes) :
    Vault (s.leave ticket request outcome touched) queue := by
  have hidle : Vault { s with running := none } queue := { h with }
  exact hidle.conclude htouched nofun

theorem ended_mono (h : Vault s queue) {closes : List Nat} (hmono : s.closes ⊆ closes) :
    ∀ e ∈ s.ended, e.outcome = .failed ∨ e.outcome = .cancelled →
      ∀ fd ∈ e.touched, fd ∈ closes :=
  fun e he houtcome fd hfd => hmono (h.ended e he houtcome fd hfd)

theorem closeAll (h : Vault s queue) : Vault (s.closeAll queue) [] := by
  refine ⟨?_, h.keys, h.bounded, h.mine, h.uses, h.ended_mono (subset_append_left _ _),
    h.closed, h.shut⟩
  have hperm : (s.handleFds ++ [] ++ (s.closes ++ queue)).Perm
      (s.handleFds ++ queue ++ s.closes) := by
    rw [append_nil, append_assoc]
    exact List.Perm.append_left _ perm_append_comm
  exact hperm.trans h.custody

theorem drop (h : Vault s queue) (id : String) : Vault (s.drop id) queue := by
  unfold Backend.drop
  split
  next => exact h
  next handle hget =>
    have herase := Dict.perm_erase h.keys hget
    have hold : ∀ {other found}, (s.handles.erase id).get other = some found →
        s.handles.get other = some found := by
      intro other found hother
      rw [Dict.get_erase] at hother
      split at hother
      next => cases hother
      next => exact hother
    refine ⟨?_, Dict.nodup_keys_erase h.keys id, ?_, fun other found hother =>
      h.mine other found (hold hother), h.uses, h.ended_mono (subset_append_left _ _),
      fun hclosed => ?_, h.shut⟩
    · -- the descriptor goes from the handles to the closed ones
      refine List.Perm.trans ?_ h.custody
      have hfds : s.handleFds.Perm (handle.fd :: (s.handles.erase id).map fun e => e.2.fd) :=
        List.Perm.map (fun e : String × Handle => e.2.fd) herase
      have hmove : ((s.handles.erase id).map (fun e => e.2.fd) ++ queue ++
          (s.closes ++ [handle.fd])).Perm
          (handle.fd :: (s.handles.erase id).map (fun e => e.2.fd) ++ queue ++ s.closes) := by
        rw [← append_assoc]
        exact perm_append_comm
      exact hmove.trans ((hfds.symm.append_right queue).append_right s.closes)
    · exact Nat.le_trans (Dict.erase_sublist s.handles id).length_le h.bounded
    · have hnil := h.closed hclosed
      rw [hnil] at hget
      cases hget

theorem drop_closes (id : String) (hget : s.handles.get id = some handle) :
    handle.fd ∈ (s.drop id).closes := by
  rw [Backend.drop, hget]
  exact mem_append_right _ (mem_singleton_self _)

theorem subset_drop (s : Backend) (id : String) : s.closes ⊆ (s.drop id).closes := by
  unfold Backend.drop
  split
  next => exact List.Subset.refl _
  next => exact subset_append_left _ _

theorem use (h : Vault s queue) {id : String}
    (hget : s.handles.get id = some handle) {session : String} (hsession : handle.session = session) :
    Vault (s.use handle.fd session) queue := by
  refine ⟨h.custody, h.keys, h.bounded, h.mine, fun use huse => ?_, h.ended, h.closed,
    h.shut⟩
  rcases mem_append.mp huse with huse | huse
  · exact h.uses use huse
  · obtain rfl := mem_singleton.mp huse
    exact ⟨h.isOpen hget, h.mem_iff.mpr (.inl (mem_handleFds hget)),
      hsession ▸ (h.mine id handle hget).1⟩

theorem openers_acquire {fd : Nat} (hless : fd < s.next) (session : String) :
    (s.acquire session).openers.get fd = s.openers.get fd :=
  Dict.get_set_of_ne _ _ (Nat.ne_of_lt hless)

theorem acquire (h : Vault s queue) (session : String) :
    Vault (s.acquire session) (queue ++ [s.next]) := by
  refine ⟨?_, h.keys, h.bounded, fun id handle hget => ?_, fun use huse => ?_, h.ended, h.closed,
    h.shut⟩
  · have hnext : (s.acquire session).next = s.next + 1 := rfl
    rw [hnext, range_succ]
    have hmove : (s.handleFds ++ (queue ++ [s.next]) ++ s.closes).Perm
        (s.handleFds ++ queue ++ s.closes ++ [s.next]) := by
      simp only [append_assoc]
      exact (perm_append_comm.append_left _).append_left _
    exact hmove.trans (h.custody.append_right _)
  · have hless : handle.fd < s.next := h.mem_iff.mpr (.inl (mem_handleFds hget))
    rw [openers_acquire hless]
    exact h.mine id handle hget
  · obtain ⟨hlive, hless, hopener⟩ := h.uses use huse
    refine ⟨hlive, Nat.lt_succ_of_lt hless, ?_⟩
    rw [openers_acquire hless]
    exact hopener

/-- **The descriptor in the socket becomes a handle.** -/
theorem register {fd : Nat} (h : Vault s [fd]) (hmay : s.mayOpen request = true)
    (hopener : s.openers.get fd = some request.session)
    (hsession : s.session = some request.session) (hopen : s.closed = false) :
    Vault (s.register request fd) [] := by
  rw [Backend.mayOpen, Bool.and_eq_true, decide_eq_true_iff, decide_eq_true_iff] at hmay
  obtain ⟨hfree, hroom⟩ := hmay
  have hset : s.handles.set request.identifier ⟨fd, request.session⟩ =
      s.handles ++ [(request.identifier, ⟨fd, request.session⟩)] := Dict.set_of_not_mem _ hfree
  refine ⟨?_, Dict.nodup_keys_set h.keys _ _, ?_, fun id handle hget => ?_, h.uses, h.ended,
    fun hclosed => ?_, h.shut⟩
  · have hfds : (s.register request fd).handleFds = s.handleFds ++ [fd] := by
      rw [Backend.handleFds, Backend.register, hset, map_append]
      rfl
    rw [hfds, append_nil]
    exact h.custody
  · rw [Backend.register, Dict.length_set, if_neg hfree]
    exact hroom
  · rw [Backend.register, Dict.get_set] at hget
    split at hget
    next =>
      cases hget
      exact ⟨hopener, hsession⟩
    next => exact h.mine id handle hget
  · have hfalse : s.closed = true := hclosed
    rw [hopen] at hfalse
    cases hfalse

theorem closeHandle (h : Vault s queue) (hsession : s.session = some request.session) :
    Vault (s.closeHandle request) queue := by
  unfold Backend.closeHandle
  split
  next => exact h
  next handle hget =>
    have hmine : handle.session = request.session :=
      Option.some.inj ((h.mine _ handle hget).2.symm.trans hsession)
    exact (h.use hget hmine).drop request.identifier

theorem get_drop (s : Backend) (id other : String) :
    (s.drop id).handles.get other = if other = id then none else s.handles.get other := by
  unfold Backend.drop
  split
  next hget =>
    by_cases hid : other = id
    · rw [if_pos hid, hid, hget]
    · rw [if_neg hid]
  next => exact Dict.get_erase _ _ _

theorem running_drop (s : Backend) (id : String) : (s.drop id).running = s.running := by
  unfold Backend.drop
  split <;> rfl

theorem foldl_drop (ids : List String) (h : Vault s queue) :
    Vault (ids.foldl Backend.drop s) queue ∧
      (ids.foldl Backend.drop s).running = s.running ∧
      ∀ id, (ids.foldl Backend.drop s).handles.get id =
        if id ∈ ids then none else s.handles.get id := by
  induction ids generalizing s with
  | nil => exact ⟨h, rfl, fun id => (if_neg not_mem_nil).symm⟩
  | cons first rest ih =>
    obtain ⟨hvault, hrunning, hget⟩ := ih (h.drop first)
    refine ⟨hvault, hrunning.trans (running_drop s first), fun id => ?_⟩
    rw [foldl_cons, hget, get_drop]
    by_cases hfirst : id = first
    · rw [if_pos hfirst, ite_self, if_pos (hfirst ▸ mem_cons_self)]
    · simp only [mem_cons, hfirst, false_or, if_false]

theorem dropAll (h : Vault s queue) :
    Vault s.dropAll queue ∧ s.dropAll.running = s.running ∧ s.dropAll.handles = [] := by
  obtain ⟨hvault, hrunning, hget⟩ := foldl_drop s.handles.keys h
  refine ⟨hvault, hrunning, ?_⟩
  have hnone : ∀ id, s.dropAll.handles.get id = none := by
    intro id
    refine (hget id).trans ?_
    split
    next => rfl
    next hfree => exact Dict.get_eq_none.mpr hfree
  cases hall : s.dropAll.handles with
  | nil => rfl
  | cons e rest =>
    have hfirst := hnone e.1
    rw [hall, Dict.get, if_pos rfl] at hfirst
    cases hfirst

end Vault

/-! ### The running call -/

/-- What the running call may rely on. -/
def Phased (s : Backend) (request : Request) : Phase → Prop
  | .acquiring queue =>
    s.mayOpen request = true ∧ ∀ fd ∈ queue, s.openers.get fd = some request.session
  | .reading fd | .workerReading fd _ =>
    s.handles.get request.identifier = some ⟨fd, request.session⟩
  | .working _ => True
  | .worked touched acquired outcome _ =>
    outcome ≠ .cancelled ∧ (outcome = .failed → ∀ fd ∈ touched, fd ∈ s.closes) ∧
      ∀ fd ∈ touched, fd ∈ s.closes ∨
        ∃ id handle, acquired = some id ∧ s.handles.get id = some handle ∧ handle.fd = fd

/-- **Custody**: the vault, and a running call that relies on what holds. -/
structure Custody (s : Backend) : Prop where
  vault : Vault s s.queue
  runs : ∀ running, s.running = some running → s.closed = false ∧
    s.session = some running.request.session ∧ Phased s running.request running.phase

namespace Custody

variable {request : Request} {ticket : Nat} {phase : Phase}

/-- Nothing runs. -/
theorem idle (h : Vault s []) (hidle : s.running = none) : Custody s := by
  refine ⟨?_, fun running hrunning => ?_⟩
  · rw [Backend.queue, hidle]
    exact h
  · rw [hidle] at hrunning
    cases hrunning

theorem left (h : Vault s []) {outcome : Outcome} {touched : List Nat}
    (htouched : outcome = .failed ∨ outcome = .cancelled → ∀ fd ∈ touched, fd ∈ s.closes) :
    Custody (s.leave ticket request outcome touched) := idle (h.leave htouched) rfl

theorem refused (h : Vault s []) : Custody (s.leave ticket request .refused []) :=
  left h fun _ => nofun

theorem awaits (h : Vault s phase.queue) (hopen : s.closed = false)
    (hsession : s.session = some request.session) (hphase : Phased s request phase) :
    Custody (s.await ticket request phase) := by
  refine ⟨{ h with }, fun running hrunning => ?_⟩
  cases hrunning
  exact ⟨hopen, hsession, hphase⟩

end Custody

/-! ### Entering -/

namespace Vault

variable {queue : List Nat} {request : Request} {ticket : Nat}

theorem bound (h : Vault s queue) {session : String} (hfit : s.session.any (· ≠ session) = false) :
    Vault { s with session := some session } queue := by
  refine ⟨h.custody, h.keys, h.bounded, fun id handle hget => ?_, h.uses, h.ended, h.closed,
    h.shut⟩
  obtain ⟨hopener, hmine⟩ := h.mine id handle hget
  refine ⟨hopener, congrArg some ?_⟩
  rw [hmine] at hfit
  by_contra hne
  exact absurd hfit (by simpa using Ne.symm hne)

theorem bind (h : Vault s queue) {session : String} (hbind : s.bind session = some s') :
    Vault s' queue ∧ s'.session = some session ∧ s'.running = s.running := by
  unfold Backend.bind at hbind
  split at hbind
  next => cases hbind
  next =>
    split at hbind
    next => cases hbind
    next hfit =>
      cases hbind
      exact ⟨h.bound (Bool.eq_false_iff.mpr hfit), rfl, rfl⟩

end Vault

theorem Backend.readable_eq_some {request : Request} {len : Nat} {handle : Handle}
    (h : s.readable request len = some handle) :
    s.handles.get request.identifier = some ⟨handle.fd, request.session⟩ := by
  unfold Backend.readable at h
  split at h
  next =>
    obtain ⟨hget, hsession⟩ := Option.filter_eq_some_iff.mp h
    rw [hget]
    have hmine : handle.session = request.session := of_decide_eq_true hsession
    rw [← hmine]
  next => cases h

namespace Custody

variable {request : Request} {ticket : Nat} {phase : Phase} {admitted : Bool}

theorem enterNative (h : Vault s []) : Custody (s.enterNative ticket request admitted) := by
  unfold Backend.enterNative
  split
  next => exact refused h
  next hopen =>
    split
    next => exact refused h
    next hfit =>
      have hbound := h.bound (Bool.eq_false_iff.mpr hfit)
      have hopened : s.closed = false := Bool.eq_false_iff.mpr hopen
      dsimp only
      split
      next => exact refused hbound
      next =>
        split
        next =>
          split
          next hmay => exact awaits hbound hopened rfl ⟨hmay, nofun⟩
          next => exact refused hbound
        next => exact left (hbound.closeHandle rfl) nofun
        next =>
          split
          next => exact refused hbound
          next handle hread =>
            exact awaits hbound hopened rfl (Backend.readable_eq_some hread)

theorem enterOrdinary (h : Vault s []) : Custody (s.enterOrdinary ticket request admitted) := by
  unfold Backend.enterOrdinary
  split
  next => exact refused h
  next =>
    split
    next => exact refused h
    next bound hbind =>
      obtain ⟨hbound, hsession, hrunning⟩ := h.bind hbind
      split
      next => exact refused hbound
      next hopen => exact awaits hbound (Bool.eq_false_iff.mpr hopen) hsession trivial

theorem closable {kind : Kind} {session : Option String} (h : Vault s [])
    (hclosable : s.closable kind session = some s') : Vault s' [] ∧ s'.running = s.running := by
  unfold Backend.closable at hclosable
  split at hclosable
  next =>
    split at hclosable
    next => cases hclosable
    next =>
      cases hclosable
      exact ⟨h, rfl⟩
  next =>
    split at hclosable
    next => cases hclosable
    next =>
      cases hclosable
      exact ⟨h, rfl⟩
  next =>
    obtain ⟨hbound, -, hrunning⟩ := h.bind hclosable
    exact ⟨hbound, hrunning⟩

/-- **The session is closed**: every handle is dropped. -/
theorem enterClosing {kind : Kind} {session : Option String} (h : Vault s [])
    (hidle : s.running = none) : Custody (s.enterClosing kind ticket session) := by
  unfold Backend.enterClosing
  split
  next => exact idle (h.conclude (fun _ => nofun) (fun _ _ => nofun)) hidle
  next bound hclosable =>
    obtain ⟨hbound, hrunning⟩ := closable h hclosable
    have hquiet : bound.running = none := hrunning.trans hidle
    split
    next hclosed => exact idle (hbound.conclude (fun _ => nofun) fun _ _ _ => hclosed) hquiet
    next hopen =>
      obtain ⟨hdropped, hkept, hnil⟩ := hbound.dropAll
      have hshut : Vault { bound.dropAll with closed := true } [] :=
        ⟨hdropped.custody, hdropped.keys, hdropped.bounded, hdropped.mine, hdropped.uses,
          hdropped.ended, fun _ => hnil, fun _ _ _ _ _ => rfl⟩
      exact idle (hshut.conclude (fun _ => nofun) fun _ _ _ => rfl) (hkept.trans hquiet)

theorem enter {kind : Kind} {call : Call} (h : Vault s []) (hidle : s.running = none) :
    Custody (s.enter kind ticket admitted call) := by
  cases call with
  | closing session => exact enterClosing h hidle
  | stream request =>
    cases kind with
    | native => exact enterNative h
    | ordinary => exact enterOrdinary h

/-! ### Going on -/

theorem helpedOpen {queue : List Nat} {ok : Bool} (h : Vault s queue) (hopen : s.closed = false)
    (hsession : s.session = some request.session) (hphase : Phased s request (.acquiring queue)) :
    Custody (s.helpedOpen ticket request queue ok) := by
  unfold Backend.helpedOpen
  split
  next fd =>
    have hopener := hphase.2 fd (mem_singleton_self _)
    exact left (h.register hphase.1 hopener hsession hopen) nofun
  next => exact left h.closeAll fun _ fd hfd => mem_append_right _ hfd

theorem spoiled {fd : Nat} {outcome : Outcome} (h : Vault s [])
    (hget : s.handles.get request.identifier = some ⟨fd, request.session⟩) :
    Custody ((s.drop request.identifier).leave ticket request outcome [fd]) := by
  refine left (h.drop _) fun _ found hfound => ?_
  obtain rfl := mem_singleton.mp hfound
  exact Vault.drop_closes _ hget

theorem closed_drop (s : Backend) (id : String) : (s.drop id).closed = s.closed := by
  unfold Backend.drop
  split <;> rfl

theorem session_drop (s : Backend) (id : String) : (s.drop id).session = s.session := by
  unfold Backend.drop
  split <;> rfl

theorem closeHandle_frame (s : Backend) (request : Request) :
    (s.closeHandle request).closed = s.closed ∧ (s.closeHandle request).session = s.session := by
  unfold Backend.closeHandle
  split
  next => exact ⟨rfl, rfl⟩
  next => exact ⟨closed_drop _ _, session_drop _ _⟩

variable {cancelled : Bool}

/-- **The worker**: it has refused, closed or opened, or it begins to read. -/
theorem work {opens : Bool} (h : Vault s []) (hopen : s.closed = false)
    (hsession : s.session = some request.session) :
    Custody (s.work ticket request cancelled opens) := by
  have hrefused : Custody (s.await ticket request (.worked [] none .refused cancelled)) :=
    awaits h hopen hsession ⟨nofun, nofun, nofun⟩
  unfold Backend.work
  split
  next => exact hrefused
  next =>
    split
    next =>
      obtain ⟨hclosed, hbound⟩ := closeHandle_frame s request
      exact awaits (h.closeHandle hsession) (hclosed.trans hopen) (hbound.trans hsession)
        ⟨nofun, nofun, nofun⟩
    next =>
      split
      next hmay =>
        have hvault := (h.acquire request.session).register hmay.1
          (Dict.get_set_self _ _ _) hsession hopen
        refine awaits hvault hopen hsession ⟨nofun, nofun, fun fd hfd => .inr ?_⟩
        obtain rfl := mem_singleton.mp hfd
        exact ⟨request.identifier, ⟨s.next, request.session⟩, rfl, Dict.get_set_self _ _ _, rfl⟩
      next => exact hrefused
    next =>
      split
      next => exact hrefused
      next handle hread => exact awaits h hopen hsession (Backend.readable_eq_some hread)

/-- **The call goes on behind its worker**: a cancelled one drops what it acquired. -/
theorem resume {touched : List Nat} {acquired : Option String} {outcome : Outcome} (h : Vault s [])
    (hphase : Phased s request (.worked touched acquired outcome cancelled)) :
    Custody (s.resume ticket request touched acquired outcome cancelled) := by
  obtain ⟨hnot, hfailed, htouched⟩ := hphase
  unfold Backend.resume
  split
  next =>
    cases acquired with
    | none =>
      refine left h fun _ fd hfd => ?_
      rcases htouched fd hfd with hclosed | ⟨id, handle, hid, -⟩
      · exact hclosed
      · cases hid
    | some id =>
      refine left (h.drop id) fun _ fd hfd => ?_
      rcases htouched fd hfd with hclosed | ⟨other, handle, hother, hget, rfl⟩
      · exact Vault.subset_drop s id hclosed
      · cases hother
        exact Vault.drop_closes _ hget
  next => exact left h fun houtcome => houtcome.elim hfailed fun hcancelled => absurd hcancelled hnot

theorem reads (h : Custody s) {id session : String} {fd : Nat}
    (hget : s.handles.get id = some ⟨fd, session⟩) : Custody (s.use fd session) := by
  refine ⟨h.vault.use hget rfl, fun running hrunning => ?_⟩
  obtain ⟨hopen, hsession, hphase⟩ := h.runs running hrunning
  exact ⟨hopen, hsession, hphase⟩

theorem read {fd : Nat} {ok : Bool} (h : Vault s []) (hopen : s.closed = false)
    (hsession : s.session = some request.session)
    (hget : s.handles.get request.identifier = some ⟨fd, request.session⟩) :
    Custody (if ok then
        s.await ticket request (.worked [fd] (some request.identifier) .returned cancelled)
      else
        (s.drop request.identifier).await ticket request
          (.worked [fd] (some request.identifier) .failed cancelled)) := by
  split
  next =>
    refine awaits h hopen hsession ⟨nofun, nofun, fun found hfound => .inr ?_⟩
    obtain rfl := mem_singleton.mp hfound
    exact ⟨_, _, rfl, hget, rfl⟩
  next =>
    have hclosed : ∀ found ∈ [fd], found ∈ (s.drop request.identifier).closes := by
      intro found hfound
      obtain rfl := mem_singleton.mp hfound
      exact Vault.drop_closes _ hget
    exact awaits (h.drop _) ((closed_drop _ _).trans hopen) ((session_drop _ _).trans hsession)
      ⟨nofun, fun _ => hclosed, fun found hfound => .inl (hclosed found hfound)⟩

variable {running : Running}

theorem vault_of_running (h : Custody s) (hrunning : s.running = some running) :
    Vault s running.phase.queue := by
  have hqueue := h.vault
  rw [Backend.queue, hrunning] at hqueue
  exact hqueue

/-- **The running call goes on.** -/
theorem proceed (h : Custody s) {event : Backend.Event} (hrunning : s.running = some running)
    (hstep : s.proceed running event = some s') : Custody s' := by
  obtain ⟨hopen, hsession, hphase⟩ := h.runs running hrunning
  have hvault := h.vault_of_running hrunning
  unfold Backend.proceed at hstep
  split at hstep
  next ticket request queue =>
    -- the helper sends one more descriptor
    cases hstep
    refine awaits (hvault.acquire request.session) hopen hsession ⟨hphase.1, fun fd hfd => ?_⟩
    rcases mem_append.mp hfd with hfd | hfd
    · rw [Vault.openers_acquire (hvault.mem_iff.mpr (.inr (.inl hfd)))]
      exact hphase.2 fd hfd
    · obtain rfl := mem_singleton.mp hfd
      exact Dict.get_set_self _ _ _
  next =>
    cases hstep
    exact helpedOpen hvault hopen hsession hphase
  next =>
    split at hstep
    · cases hstep
      exact left hvault nofun
    · cases hstep
      exact spoiled hvault hphase
  next =>
    cases hstep
    exact work hvault hopen hsession
  next =>
    cases hstep
    exact h.reads hphase
  next =>
    cases hstep
    exact h.reads hphase
  next =>
    rw [← apply_ite some] at hstep
    cases hstep
    exact read hvault hopen hsession hphase
  next =>
    cases hstep
    exact resume hvault hphase
  next => cases hstep

/-- **The running call is cancelled**: it is over with nothing of its own open, or its worker is
told. -/
theorem cancel (h : Custody s) (hrunning : s.running = some running) :
    Custody (s.cancel running.ticket running.request running.phase) := by
  obtain ⟨hopen, hsession, hphase⟩ := h.runs running hrunning
  have hvault := h.vault_of_running hrunning
  obtain ⟨ticket, request, phase⟩ := running
  cases phase with
  | acquiring queue => exact left hvault.closeAll fun _ fd hfd => mem_append_right _ hfd
  | reading fd => exact spoiled hvault hphase
  | working cancelled => exact awaits hvault hopen hsession trivial
  | workerReading fd cancelled => exact awaits hvault hopen hsession hphase
  | worked touched acquired outcome cancelled => exact awaits hvault hopen hsession hphase

theorem step (h : Custody s) {event : Backend.Event} (hstep : s.step kind event = some s') :
    Custody s' := by
  have hproceed : ∀ event, (s.running.bind fun running => s.proceed running event) = some s' →
      Custody s' := by
    intro event hbind
    obtain ⟨running, hrunning, hnext⟩ := Option.bind_eq_some_iff.mp hbind
    exact h.proceed hrunning hnext
  cases event with
  | call ticket call =>
    simp only [Backend.step] at hstep
    split at hstep
    next => cases hstep
    next =>
      cases hstep
      exact ⟨{ h.vault with }, h.runs⟩
  | enter ticket admitted =>
    simp only [Backend.step] at hstep
    split at hstep
    next call hcall hidle =>
      cases hstep
      have hvault := h.vault
      rw [Backend.queue, hidle] at hvault
      exact enter { hvault with } hidle
    next => cases hstep
  | cancel ticket =>
    simp only [Backend.step] at hstep
    split at hstep
    next call hcall =>
      cases hstep
      have hwaiting : Custody { s with waiting := s.waiting.erase ticket } :=
        ⟨{ h.vault with }, h.runs⟩
      refine ⟨hwaiting.vault.conclude (fun _ => nofun) (fun _ _ => nofun),
        fun running hrunning => ?_⟩
      obtain ⟨hopen, hsession, hphase⟩ := hwaiting.runs running hrunning
      exact ⟨hopen, hsession, hphase⟩
    next running hcall hrunning =>
      split at hstep
      next hticket =>
        cases hstep
        rw [← hticket]
        exact h.cancel hrunning
      next => cases hstep
    next => cases hstep
  | sends => exact hproceed _ hstep
  | helped ok => exact hproceed _ hstep
  | work opens => exact hproceed _ hstep
  | reads => exact hproceed _ hstep
  | worked ok => exact hproceed _ hstep
  | resume => exact hproceed _ hstep

end Custody

theorem custody_of_run {events : List Backend.Event} (hrun : (streaming kind).Run events s) :
    Custody s :=
  hrun.invariant (I := fun _ s => Custody s)
    (fun _ hinit => hinit ▸ Custody.idle Vault.init rfl)
    fun _ _ _ _ _ hcustody hstep => hcustody.step hstep

/-! ### What it means -/

/-- **The descriptors of the read handles**, in either backend and along every run. A descriptor
is used open and by the session that opened it; at most `maxHandles` handles are open; no
descriptor is closed twice; one that a call acquired, or had begun to read, is closed when that call
has failed or is cancelled; one that is not closed has a handle of its opener's session, or is on
its way to the open that has the lock; and when a `close` has returned, all are closed. -/
theorem streams_owned (kind : Kind) (s : Backend) (events : List Backend.Event)
    (hrun : (streaming kind).Run events s) :
    (∀ use ∈ s.uses, use.live = true ∧ s.openers.get use.fd = some use.session) ∧
    s.handles.length ≤ maxHandles ∧
    s.closes.Nodup ∧
    (∀ e ∈ s.ended, e.outcome = .failed ∨ e.outcome = .cancelled →
      ∀ fd ∈ e.touched, fd ∈ s.closes) ∧
    (∀ fd < s.next, fd ∈ s.closes ∨
      (∃ id handle, s.handles.get id = some handle ∧ handle.fd = fd ∧
        s.openers.get fd = some handle.session) ∨ fd ∈ s.queue) ∧
    ((∃ e ∈ s.ended, (∃ session, e.call = .closing session) ∧ e.outcome = .returned) →
      ∀ fd < s.next, fd ∈ s.closes) := by
  have hcustody := custody_of_run hrun
  have hvault := hcustody.vault
  have hheld : ∀ fd < s.next, fd ∈ s.closes ∨
      (∃ id handle, s.handles.get id = some handle ∧ handle.fd = fd ∧
        s.openers.get fd = some handle.session) ∨ fd ∈ s.queue := by
    intro fd hfd
    rcases hvault.mem_iff.mp hfd with hhandle | hqueue | hclosed
    · obtain ⟨⟨id, handle⟩, hmem, rfl⟩ := mem_map.mp hhandle
      have hget := (Dict.get_eq_some hvault.keys).mpr hmem
      exact .inr (.inl ⟨id, handle, hget, rfl, (hvault.mine id handle hget).1⟩)
    · exact .inr (.inr hqueue)
    · exact .inl hclosed
  refine ⟨fun use huse => ?_, hvault.bounded, (nodup_append.mp hvault.nodup).2.1,
    hvault.ended, hheld, ?_⟩
  · obtain ⟨hlive, -, hopener⟩ := hvault.uses use huse
    exact ⟨hlive, hopener⟩
  · rintro ⟨e, he, ⟨session, hcall⟩, hreturned⟩ fd hfd
    have hclosed : s.closed = true := hvault.shut e he session hcall hreturned
    have hidle : s.running = none := by
      cases hrunning : s.running with
      | none => rfl
      | some running =>
        have hopen := (hcustody.runs running hrunning).1
        rw [hopen] at hclosed
        cases hclosed
    rcases hheld fd hfd with hdone | ⟨id, handle, hget, -⟩ | hqueue
    · exact hdone
    · rw [hvault.closed hclosed] at hget
      cases hget
    · rw [Backend.queue, hidle] at hqueue
      cases hqueue

/-- A call of the session. -/
def sessionCall (op : Op) : Call := .stream ⟨"session", "a", op⟩

/-- A file is opened, a read of it fails in the helper, and the session is closed. -/
def failingEvents : List Backend.Event :=
  [.call 0 (sessionCall .opening), .enter 0 true, .sends, .helped true,
    .call 1 (sessionCall (.readBlock 1)), .enter 1 true, .reads, .helped false,
    .call 2 (.closing (some "session")), .enter 2 true]

theorem streams_owned_failing :
    ∃ s, (streaming .native).Run failingEvents s ∧ 0 < s.next ∧ s.uses ≠ [] ∧
      (∀ use ∈ s.uses, use.live = true ∧ s.openers.get use.fd = some use.session) ∧
      s.closes.Nodup ∧ ∀ fd < s.next, fd ∈ s.closes := by
  obtain ⟨s, hrun, hnext, huses, hreturned⟩ :=
    LTS.exists_run_of_exec (A := streaming .native) (fun h => h) rfl failingEvents
      (fun s => 0 < s.next ∧ s.uses ≠ [] ∧
        ⟨2, .closing (some "session"), .returned, []⟩ ∈ s.ended) (by decide +kernel)
  obtain ⟨hlive, -, hnodup, -, -, hclosed⟩ := streams_owned .native s failingEvents hrun
  exact ⟨s, hrun, hnext, huses, hlive, hnodup,
    hclosed ⟨_, hreturned, ⟨_, rfl⟩, rfl⟩⟩

/-- A read is cancelled while it waits for the lock. -/
def waitingEvents : List Backend.Event :=
  [.call 0 (sessionCall .opening), .enter 0 true, .sends, .helped true,
    .call 1 (sessionCall (.readBlock 1)), .cancel 1]

/-- A read is cancelled before its worker looks the handle up. -/
def unbegunEvents : List Backend.Event :=
  [.call 0 (sessionCall .opening), .enter 0 true, .work true, .resume,
    .call 1 (sessionCall (.readBlock 1)), .enter 1 true, .cancel 1, .work true, .resume]

/-- **A read that is cancelled before it begins closes nothing**: the handle stays, and its
descriptor is open. -/
theorem unbegun_read_keeps_handle :
    (∃ s, (streaming .native).Run waitingEvents s ∧
      ⟨1, sessionCall (.readBlock 1), .cancelled, []⟩ ∈ s.ended ∧ s.running = none ∧
      s.handles.get "a" = some ⟨0, "session"⟩ ∧ s.isOpen 0 = true) ∧
    ∃ s, (streaming .ordinary).Run unbegunEvents s ∧
      ⟨1, sessionCall (.readBlock 1), .cancelled, []⟩ ∈ s.ended ∧ s.running = none ∧
      s.handles.get "a" = some ⟨0, "session"⟩ ∧ s.isOpen 0 = true :=
  ⟨LTS.exists_run_of_exec (A := streaming .native) (fun h => h) rfl waitingEvents
      (fun s => ⟨1, sessionCall (.readBlock 1), .cancelled, []⟩ ∈ s.ended ∧ s.running = none ∧
        s.handles.get "a" = some ⟨0, "session"⟩ ∧ s.isOpen 0 = true) (by decide +kernel),
    LTS.exists_run_of_exec (A := streaming .ordinary) (fun h => h) rfl unbegunEvents
      (fun s => ⟨1, sessionCall (.readBlock 1), .cancelled, []⟩ ∈ s.ended ∧ s.running = none ∧
        s.handles.get "a" = some ⟨0, "session"⟩ ∧ s.isOpen 0 = true) (by decide +kernel)⟩

end FoldGPT.Streams
