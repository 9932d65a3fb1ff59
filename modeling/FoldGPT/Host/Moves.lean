import FoldGPT.Host.Channel

/-!
# The kinds of steps of the host channel

Every step is of one of a few kinds (`Move`): the loop takes a packet or stops, a task goes on,
stands in line with a response or raises, the head of the line is sent, a callback runs, or only a
process changes. `Handles` says what happens to the processes meanwhile.
-/

namespace FoldGPT.Host

open FoldGPT.Lib List Option

variable {s s' : Channel}

/-! ### Responses of one request -/

def Work.id : Work → Nat
  | .file request _ => request.id
  | .process request => request.id

/-- **A complete response**: chunks, and behind them one response that ends the request. -/
def Answers (id : Nat) (responses : List Response) : Prop :=
  ∃ parts last, responses = parts ++ [last] ∧
    (∀ part ∈ parts, part.id = id ∧ part.terminal = false) ∧ last.id = id ∧ last.terminal = true

/-- A response that returns no event. -/
def Response.Plain (response : Response) : Prop := ∀ key, response.eventOf key = none

theorem answers_single {id : Nat} {response : Response} (hid : response.id = id)
    (hterminal : response.terminal = true) : Answers id [response] :=
  ⟨[], response, rfl, nofun, hid, hterminal⟩

theorem plain_refusal (id : Nat) (error : RpcError) : (refusal id error).Plain := fun _ => rfl

theorem answers_respond {request : FileRequest} {answer : Answer} {responses : List Response}
    (h : respond request answer = some responses) :
    Answers request.id responses ∧ ∀ response ∈ responses, response.Plain := by
  have hsingle : ∀ response : Response, response.id = request.id → response.terminal = true →
      response.Plain → responses = [response] →
      Answers request.id responses ∧ ∀ response ∈ responses, response.Plain := by
    rintro response hid hterminal hplain rfl
    exact ⟨answers_single hid hterminal, fun r hr => mem_singleton.mp hr ▸ hplain⟩
  unfold respond at h
  split at h
  next error => exact hsingle _ rfl rfl (plain_refusal _ _) (Option.some.inj h).symm
  next bytes =>
    have hread : (if maxDataBytes < bytes.length then
        some [Response.error request.id (-32000) "Host result exceeds admitted data bound"]
      else some (dataChunks request.id bytes ++
        [.result request.id (.transfer bytes.length (chunkCount bytes.length))])) =
          some responses →
        Answers request.id responses ∧ ∀ response ∈ responses, response.Plain := by
      intro h
      split at h
      next => exact hsingle _ rfl rfl (fun _ => rfl) (Option.some.inj h).symm
      next =>
        cases h
        refine ⟨⟨_, _, rfl, fun part hpart => ?_, rfl, rfl⟩, fun response hresponse => ?_⟩
        · obtain ⟨index, -, rfl⟩ := List.mem_map.mp hpart
          exact ⟨rfl, rfl⟩
        · rcases mem_append.mp hresponse with hchunk | hlast
          · obtain ⟨index, -, rfl⟩ := List.mem_map.mp hchunk
            exact fun _ => rfl
          · rw [mem_singleton.mp hlast]
            exact fun _ => rfl
    split at h
    next => exact hread h
    next => exact hread h
    next => cases h
  next =>
    split at h
    next => exact hsingle _ rfl rfl (fun _ => rfl) (Option.some.inj h).symm
    next => cases h
  next =>
    split at h
    next => exact hsingle _ rfl rfl (fun _ => rfl) (Option.some.inj h).symm
    next => cases h
  next =>
    split at h
    next => exact hsingle _ rfl rfl (fun _ => rfl) (Option.some.inj h).symm
    next => exact hsingle _ rfl rfl (fun _ => rfl) (Option.some.inj h).symm
    next => cases h

/-! ### The kinds of steps -/

/-- What a step may do to the processes, and the event it returns of one. -/
inductive Handles (s : Channel) : Dict Key Slot → List Key → Option (Key × ProcessEvent) → Prop
  | same : Handles s s.slots s.live none
  | forget (key : Key) : Handles s s.slots (s.live.erase key) none
  | spawn {fresh : Key} : fresh ∉ s.slots.keys → s.live.length < maxPending →
      Handles s (s.slots.set fresh .new) (s.live ++ [fresh]) none
  | flag {key : Key} {slot slot' : Slot} : s.slots.get key = some slot →
      slot'.emitted = slot.emitted → slot'.reader.held = slot.reader.held →
      slot'.queue = slot.queue → slot'.notifications = slot.notifications →
      slot'.ended = slot.ended → Handles s (s.slots.set key slot') s.live none
  | take {key : Key} {slot : Slot} {event : ProcessEvent} {queue : List ProcessEvent} :
      s.slots.get key = some slot → slot.reader = .waiting → slot.queue = event :: queue →
      Handles s (s.slots.set key { slot with reader := .holding event, queue := queue }) s.live none
  | deliver {key : Key} {slot : Slot} {event : ProcessEvent} {live : List Key} :
      s.slots.get key = some slot → slot.reader = .holding event →
      (live = s.live ∨ live = s.live.erase key) →
      Handles s (s.slots.set key { slot with reader := .free }) live (some (key, event))
  | drop {key : Key} {slot : Slot} {event : ProcessEvent} :
      s.slots.get key = some slot → slot.reader = .holding event → event.body = .closed →
      slot.ended = true → Handles s (s.slots.set key { slot with reader := .free }) s.live none
  | emit {key : Key} {slot : Slot} {body : Body} : s.slots.get key = some slot →
      (∀ event ∈ slot.emitted, event.body ≠ .closed) →
      Handles s (s.slots.set key { slot with
        notifications := slot.notifications ++ [⟨slot.emitted.length + 1, body⟩]
        emitted := slot.emitted ++ [⟨slot.emitted.length + 1, body⟩] }) s.live none
  | forward {key : Key} {slot : Slot} {event : ProcessEvent} {rest : List ProcessEvent} :
      s.slots.get key = some slot → slot.notifications = event :: rest → slot.ended = false →
      Handles s (s.slots.set key { slot with
        notifications := rest, queue := slot.queue ++ [event] }) s.live none
  | ends {key : Key} {slot : Slot} : s.slots.get key = some slot →
      Handles s (s.slots.set key { slot with ended := true }) s.live none

/-- The event a response returns is the one taken from the process. -/
def Returns (returned : Option (Key × ProcessEvent)) (response : Response) : Prop :=
  ∀ key, response.eventOf key = returned.bind fun e => if e.1 = key then some e.2 else none

theorem returns_none {response : Response} (h : response.Plain) : Returns none response := h

/-- **The kinds of steps.** -/
inductive Move (s : Channel) : Event → Channel → Prop
  | packet (packet : Packet) : Move s (.packet packet) (s.packet packet)
  | stop {event : Event} (text : String) : Move s event (s.stop text)
  | works {event : Event} {id : Nat} {work : Work} {phase phase' : Phase} {slots : Dict Key Slot}
      {live : List Key} : (∀ p, event ≠ .packet p) → s.tasks.get id = some ⟨work, phase⟩ →
      phase.working = true → phase'.working = true → Handles s slots live none →
      Move s event ({ s with slots := slots, live := live }.setPhase id work phase')
  | replies {event : Event} {id : Nat} {work : Work} {phase : Phase} {slots : Dict Key Slot}
      {live : List Key} {returned : Option (Key × ProcessEvent)} {first : Response}
      {rest : List Response} : (∀ p, event ≠ .packet p) → s.tasks.get id = some ⟨work, phase⟩ →
      phase.working = true → Handles s slots live returned → Returns returned first →
      Answers work.id (first :: rest) → (∀ response ∈ rest, response.Plain) →
      Move s event ({ s with slots := slots, live := live }.reply id work first rest)
  | raises {event : Event} {id : Nat} {work : Work} {phase : Phase} {slots : Dict Key Slot}
      {live : List Key} {line : List (Nat × Response)} : (∀ p, event ≠ .packet p) →
      s.tasks.get id = some ⟨work, phase⟩ → phase.active = true →
      (phase.working = true ∧ line = s.line ∨ ∃ response, s.line = (id, response) :: line) →
      live.length ≤ s.live.length →
      Move s event ({ s with slots := slots, live := live, line := line }.raises id work)
  | transmit {s' : Channel} : s.transmit = some s' → Move s .transmit s'
  | reap {id : Nat} {s' : Channel} : s.reap id = some s' → Move s (.reap id) s'
  | handles {event : Event} {slots : Dict Key Slot} : (∀ p, event ≠ .packet p) →
      Handles s slots s.live none → Move s event { s with slots := slots }

/-- A read returns the event it took as it was. -/
theorem shownEvent_eq_ok {event shown : ProcessEvent} (h : shownEvent event = .ok shown) :
    shown = event := by
  obtain ⟨seq, body⟩ := event
  cases body with
  | output stream chunk =>
    obtain ⟨data, hdata, rfl⟩ := map_eq_ok.mp h
    obtain ⟨text, heq, htext, -⟩ := decodeBytes_eq_ok.mp hdata
    obtain rfl := Json.str.inj heq
    rw [← htext, String.ofList_toList]
  | exited code => exact (Except.ok.inj h).symm
  | closed => exact (Except.ok.inj h).symm

theorem returns_event (id : Nat) (key : Key) (event : ProcessEvent) (failure : Option String) :
    Returns (some (key, event)) (.result id (.event key event failure)) := fun _ => rfl

section Steps

variable {event : Event} {id : Nat} {work : Work} {phase : Phase} {key : Key} {slot : Slot}

theorem Move.answered {slots : Dict Key Slot} {live : List Key} {response : Response}
    (hs' : s' = { s with slots := slots, live := live }.reply id work response [])
    (hpacket : ∀ p, event ≠ .packet p) (hid : work.id = id)
    (htask : s.tasks.get id = some ⟨work, phase⟩) (hworking : phase.working = true)
    {returned : Option (Key × ProcessEvent)} (hslots : Handles s slots live returned)
    (hreturns : Returns returned response) (hresponse : response.id = id)
    (hterminal : response.terminal = true) : Move s event s' := by
  rw [hs']
  exact .replies hpacket htask hworking hslots hreturns
    (answers_single (hresponse.trans hid.symm) hterminal) nofun

theorem process_eq_some (h : s.process key = some slot) : s.slots.get key = some slot := by
  unfold Channel.process at h
  split at h
  next => exact (filter_eq_some_iff.mp h).1
  next => cases h

theorem begin_move {fresh : Key} {op : ProcessOp} (hid : work.id = id)
    (htask : s.tasks.get id = some ⟨work, .running⟩) (h : s.begin id work fresh op = some s') :
    Move s (.begin id fresh) s' := by
  have hrefused : ∀ error, s' = s.reply id work (refusal id error) [] →
      Move s (.begin id fresh) s' := by
    rintro error rfl
    exact .answered rfl nofun hid htask rfl .same (returns_none (plain_refusal _ _)) rfl rfl
  have hraises : s' = s.raises id work → Move s (.begin id fresh) s' := by
    rintro rfl
    exact .raises nofun htask rfl (.inl ⟨rfl, rfl⟩) (Nat.le_refl _)
  unfold Channel.begin at h
  split at h
  next =>
    split at h
    next => exact hrefused _ (Option.some.inj h).symm
    next hroom =>
      split at h
      next => cases h
      next hfresh =>
        cases h
        exact .works nofun htask rfl rfl (.spawn hfresh (Nat.lt_of_not_le hroom))
  next =>
    split at h
    next => exact hrefused _ (Option.some.inj h).symm
    next =>
      cases h
      exact .answered rfl nofun hid htask rfl .same (returns_none fun _ => rfl) rfl rfl
  next =>
    split at h
    next => exact hrefused _ (Option.some.inj h).symm
    next slot hslot =>
      split at h
      next => exact hraises (Option.some.inj h).symm
      next =>
        cases h
        exact .works nofun htask rfl rfl (.flag (process_eq_some hslot) rfl rfl rfl rfl rfl)
  next =>
    split at h
    next => exact hrefused _ (Option.some.inj h).symm
    next slot hslot =>
      split at h
      next hfree =>
        cases h
        refine .works nofun htask rfl rfl (.flag (process_eq_some hslot) rfl ?_ rfl rfl rfl)
        rw [hfree]
        rfl
      next => exact hraises (Option.some.inj h).symm

theorem spawned_move {outcome : Outcome} (hid : work.id = id)
    (htask : s.tasks.get id = some ⟨work, .spawning key⟩) (hslot : s.slots.get key = some slot) :
    Move s (.spawned id outcome) (s.spawned id work key slot outcome) := by
  cases outcome with
  | returned =>
    exact .answered rfl nofun hid htask rfl (.flag hslot rfl rfl rfl rfl rfl)
      (returns_none fun _ => rfl) rfl rfl
  | refused error =>
    exact .answered rfl nofun hid htask rfl (.forget key) (returns_none (plain_refusal _ _)) rfl rfl
  | raised =>
    exact .raises nofun htask rfl (.inl ⟨rfl, rfl⟩) (length_erase_le)

theorem wrote_move {outcome : Outcome} (hid : work.id = id)
    (htask : s.tasks.get id = some ⟨work, .writing key⟩) (hslot : s.slots.get key = some slot) :
    Move s (.wrote id outcome) (s.wrote id work key slot outcome) := by
  cases outcome with
  | returned =>
    exact .answered rfl nofun hid htask rfl (.flag hslot rfl rfl rfl rfl rfl)
      (returns_none fun _ => rfl) rfl rfl
  | refused error =>
    exact .answered rfl nofun hid htask rfl (.flag hslot rfl rfl rfl rfl rfl)
      (returns_none (plain_refusal _ _)) rfl rfl
  | raised => exact .raises nofun htask rfl (.inl ⟨rfl, rfl⟩) (Nat.le_refl _)

theorem take_move (hslot : s.slots.get key = some slot) (h : s.take key slot = some s') :
    Move s (.take id) s' := by
  unfold Channel.take at h
  split at h
  next hreader hqueue =>
    cases h
    exact .handles nofun (.take hslot hreader hqueue)
  next => cases h

theorem giveUp_move {failure : Option String} (hid : work.id = id)
    (htask : s.tasks.get id = some ⟨work, .reading key⟩) (hslot : s.slots.get key = some slot)
    (h : s.giveUp id work key slot failure = some s') : Move s (.giveUp id failure) s' := by
  unfold Channel.giveUp at h
  split at h
  next hidle =>
    cases h
    refine .answered rfl nofun hid htask rfl (.flag hslot rfl ?_ rfl rfl rfl)
      (returns_none (plain_refusal _ _)) rfl rfl
    rw [hidle.1]
    rfl
  next => cases h

theorem deliver_move {proof : Bool} {failure : Option String} (hid : work.id = id)
    (htask : s.tasks.get id = some ⟨work, .reading key⟩) (hslot : s.slots.get key = some slot)
    (h : s.deliver id work key slot proof failure = some s') :
    Move s (.deliver id proof failure) s' := by
  unfold Channel.deliver at h
  split at h
  next event hreader =>
    split at h
    next hclosed =>
      split at h
      next => cases h
      next hended =>
        split at h
        next =>
          cases h
          exact .answered rfl nofun hid htask rfl (.deliver hslot hreader (.inr rfl))
            (returns_event _ _ _ _) rfl rfl
        next =>
          cases h
          exact .answered rfl nofun hid htask rfl (.drop hslot hreader hclosed (by simpa using hended))
            (returns_none (plain_refusal _ _)) rfl rfl
    next =>
      split at h
      next =>
        cases h
        exact .raises nofun htask rfl (.inl ⟨rfl, rfl⟩) (Nat.le_refl _)
      next shown hshown =>
        cases h
        rw [shownEvent_eq_ok hshown]
        exact .answered rfl nofun hid htask rfl (.deliver hslot hreader (.inl rfl))
          (returns_event _ _ _ _) rfl rfl
  next => cases h

theorem emit_move {body : Body} (hslot : s.slots.get key = some slot)
    (h : s.emit key slot body = some s') : Move s (.emit key body) s' := by
  unfold Channel.emit at h
  split at h
  next => cases h
  next hopen =>
    cases h
    refine .handles nofun (.emit hslot fun event hevent hclosed => hopen ?_)
    exact List.any_eq_true.mpr ⟨event, hevent, decide_eq_true hclosed⟩

theorem forward_move (hslot : s.slots.get key = some slot) (h : s.forward key slot = some s') :
    Move s (.forward key) s' := by
  unfold Channel.forward at h
  split at h
  next event rest hnotifications =>
    split at h
    next => cases h
    next hroom =>
      cases h
      simp only [Bool.or_eq_true, not_or, Bool.not_eq_true] at hroom
      exact .handles nofun (.forward hslot hnotifications hroom.1)
  next => cases h

theorem unsent_move (h : s.unsent = some s') : Move s .unsent s' := by
  unfold Channel.unsent at h
  split at h
  next => cases h
  next id response line hline =>
    split at h
    next htask =>
      cases h
      exact .raises nofun htask rfl (.inr ⟨response, hline⟩) (Nat.le_refl _)
    next => cases h

end Steps

/-- **Every step is of one of the kinds.** -/
theorem step_move (hnamed : ∀ id task, s.tasks.get id = some task → task.work.id = id)
    {event : Event} (h : s.step event = some s') : Move s event s' := by
  unfold Channel.step at h
  split at h
  next => cases h
  next =>
    cases event with
    | packet packet =>
      cases h
      exact .packet packet
    | eof =>
      cases h
      exact .stop _
    | notice =>
      simp only at h
      split at h
      next =>
        cases h
        exact .stop _
      next => cases h
    | answer id answer =>
      simp only at h
      split at h
      next request data htask =>
        split at h
        next first rest hrespond =>
          cases h
          obtain ⟨hanswers, hplain⟩ := answers_respond hrespond
          exact .replies (by rintro _ ⟨⟩) htask rfl .same (hplain first mem_cons_self) hanswers
            fun response hr => hplain response (mem_cons_of_mem _ hr)
        next => cases h
      next => cases h
    | fault id =>
      simp only at h
      split at h
      next htask =>
        cases h
        exact .raises (by rintro _ ⟨⟩) htask rfl (.inl ⟨rfl, rfl⟩) (Nat.le_refl _)
      next => cases h
    | «begin» id fresh =>
      simp only at h
      split at h
      next htask => exact begin_move (hnamed _ _ htask) htask h
      next => cases h
    | spawned id outcome =>
      simp only at h
      split at h
      next htask =>
        obtain ⟨slot, hslot, rfl⟩ := map_eq_some_iff.mp h
        exact spawned_move (hnamed _ _ htask) htask hslot
      next => cases h
    | wrote id outcome =>
      simp only at h
      split at h
      next htask =>
        obtain ⟨slot, hslot, rfl⟩ := map_eq_some_iff.mp h
        exact wrote_move (hnamed _ _ htask) htask hslot
      next => cases h
    | take id =>
      simp only at h
      split at h
      next htask =>
        obtain ⟨slot, hslot, h⟩ := bind_eq_some_iff.mp h
        exact take_move hslot h
      next => cases h
    | giveUp id failure =>
      simp only at h
      split at h
      next htask =>
        obtain ⟨slot, hslot, h⟩ := bind_eq_some_iff.mp h
        exact giveUp_move (hnamed _ _ htask) htask hslot h
      next => cases h
    | deliver id proof failure =>
      simp only at h
      split at h
      next htask =>
        obtain ⟨slot, hslot, h⟩ := bind_eq_some_iff.mp h
        exact deliver_move (hnamed _ _ htask) htask hslot h
      next => cases h
    | transmit => exact .transmit h
    | unsent => exact unsent_move h
    | reap id => exact .reap h
    | emit key body =>
      obtain ⟨slot, hslot, h⟩ := bind_eq_some_iff.mp h
      exact emit_move hslot h
    | forward key =>
      obtain ⟨slot, hslot, h⟩ := bind_eq_some_iff.mp h
      exact forward_move hslot h
    | ends key =>
      obtain ⟨slot, hslot, rfl⟩ := map_eq_some_iff.mp h
      exact .handles (by rintro _ ⟨⟩) (.ends hslot)

/-! ### The rounds of the loop -/

/-- **What a packet may do**: stop the channel, bring the next chunk or the commit of the upload, or
be the next request. -/
inductive Round (s : Channel) : Packet → Channel → Prop
  | stop (packet : Packet) (text : String) : Round s packet (s.stop text)
  | chunk {packet : Members} {upload : Upload} {decoded : Bytes} : isUploadFrame packet = true →
      s.upload = some upload →
      frameOf (.ok packet) =
        some (.chunk upload.request.id upload.received (Base64.encode decoded)) →
      decoded.length = min chunkBytes (upload.request.bytes - upload.data.length) → decoded ≠ [] →
      Round s (.ok packet) { s with upload := some { upload with
        data := upload.data ++ decoded, received := upload.received + 1 } }
  | commit {packet : Members} {upload : Upload} : isUploadFrame packet = true →
      s.upload = some upload → frameOf (.ok packet) = some (.commit upload.request.id) →
      upload.data.length = upload.request.bytes → upload.received = upload.request.chunks →
      Round s (.ok packet) (s.startWrite upload.request upload.data)
  | write {packet : Members} {request : WriteRequest} : isUploadFrame packet = false →
      s.pending < maxPending → s.fileRequest = none → request.id = s.number →
      fileRequest packet s.number =
        .ok ⟨request.id, .writeFile request.bytes request.chunks, request.path⟩ →
      Round s (.ok packet)
        { s.accept with fileRequest := some s.number, upload := some ⟨request, [], 0⟩ }
  | start {packet : Members} {work : Work} {fileRequest : Option Nat} :
      isUploadFrame packet = false → s.pending < maxPending → work.id = s.number →
      isNext packet s.number = true → (∀ request data, work ≠ WriteRequest.work request data) →
      (s.fileRequest = none ∧ fileRequest = some s.number ∨
        work.isFile = false ∧ fileRequest = s.fileRequest) →
      Round s (.ok packet) ({ s.accept with fileRequest := fileRequest }.startTask s.number work)

theorem acceptFile_round {packet : Members} {request : FileRequest}
    (hkind : isUploadFrame packet = false) (hroom : s.pending < maxPending)
    (hfile : s.fileRequest = none) (hrequest : fileRequest packet s.number = .ok request) :
    Round s (.ok packet) (s.acceptFile request) := by
  obtain ⟨hid, hnext, -⟩ := fileRequest_eq_ok hrequest
  unfold Channel.acceptFile
  split
  next bytes chunks hop =>
    refine .write hkind hroom hfile hid ?_
    rw [hrequest, ← hop]
  next hop =>
    rw [hid]
    refine .start hkind hroom hid hnext (fun write data heq => ?_) (.inl ⟨hfile, rfl⟩)
    exact hop _ _ (congrArg FileRequest.op (Work.file.inj heq).1)

/-- **Every packet makes one of these rounds.** -/
theorem packet_round (s : Channel) (packet : Packet) : Round s packet (s.packet packet) := by
  unfold Channel.packet
  split
  next => exact .stop _ _
  next packet =>
    split
    next hkind =>
      split
      next => exact .stop _ _
      next upload hframe =>
        obtain ⟨u, hu, ⟨decoded, hchunk, hlength, hne, heq⟩ | ⟨-, -, -, heq⟩⟩ :=
          (uploadFrame_eq_ok hkind).mp hframe
        · obtain rfl := Progress.more.inj heq
          exact .chunk hkind hu hchunk hlength hne
        · cases heq
      next request data hframe =>
        obtain ⟨u, hu, ⟨decoded, -, -, -, heq⟩ | ⟨hcommit, hlength, hcount, heq⟩⟩ :=
          (uploadFrame_eq_ok hkind).mp hframe
        · cases heq
        · obtain ⟨rfl, rfl⟩ := Progress.complete.inj heq
          exact .commit hkind hu hcommit hlength hcount
    next hkind =>
      have hkind := Bool.eq_false_iff.mpr hkind
      split
      next => exact .stop _ _
      next hroom =>
        have hroom := Nat.lt_of_not_le hroom
        split
        next =>
          split
          next => exact .stop _ _
          next request hrequest =>
            split
            next => exact .stop _ _
            next hfile =>
              exact acceptFile_round hkind hroom (not_isSome_iff_eq_none.mp hfile) hrequest
        next =>
          split
          next => exact .stop _ _
          next request hrequest =>
            obtain ⟨hid, hnext⟩ := processRequest_id hrequest
            rw [hid]
            exact .start hkind hroom hid hnext nofun (.inr ⟨rfl, rfl⟩)

end FoldGPT.Host
