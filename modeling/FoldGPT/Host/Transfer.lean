import FoldGPT.Host.Desk

/-!
# Writes over the host channel

Both versions start a write when its frames are complete. `takeRequest` is a round of version 1:
it takes a request and, behind a write, its frames, and nothing comes between. In version 2 the
frames come among other packets, so `framesTo` picks those of one request out of the history.

Main result: `transfers_agree`.
-/

namespace FoldGPT.Host

open FoldGPT.Lib List Option

/-! ### The bytes of frames -/

/-- What a chunk carries. -/
def Frame.bytes : Frame → Bytes
  | .chunk _ _ text => (Base64.decode text).getD []
  | .commit _ => []

/-- The concatenation of what the packets carry. -/
def payload (packets : List Packet) : Bytes :=
  (packets.map frameOf).flatMap fun frame => frame.elim [] Frame.bytes

theorem flatMap_piece (data : Bytes) (count : Nat) :
    (List.range count).flatMap (piece data) = data.take (count * chunkBytes) := by
  induction count with
  | zero => rw [Nat.zero_mul, take_zero, range_zero, flatMap_nil]
  | succ count ih =>
    rw [range_succ, flatMap_append, ih, flatMap_singleton, piece, Nat.succ_mul,
      take_add]

variable {data : Bytes} {packets : List Packet}

theorem payload_frames {id : Nat}
    (h : packets.map frameOf = (uploadFrames id data).map some) : payload packets = data := by
  have hall : data.length ≤ chunkCount data.length * chunkBytes := by
    simp only [chunkCount, chunkBytes]
    omega
  have hbytes : ∀ index, (chunkFrame id data index).bytes = piece data index := fun index => by
    rw [chunkFrame, Frame.bytes, Base64.decode_encode, getD_some]
  rw [payload, h, flatMap_map]
  show (uploadFrames id data).flatMap Frame.bytes = data
  rw [uploadFrames, flatMap_append, flatMap_map]
  simp only [hbytes]
  rw [flatMap_piece, take_of_length_le hall]
  exact append_nil data

/-! ### Version 1 -/

/-- A round of `run` of version 1, up to where the response starts: the request, what was collected
for a write, and the packets not read. -/
def takeRequest (number : Nat) (packets : List Packet) :
    Except Stop (FileRequest × Option Bytes × List Packet) := do
  let (value, packets) ← receive packets
  let request ← (fileRequest value number).mapError .violation
  match request.op with
  | .writeFile bytes chunks => do
    let (data, packets) ← collectWrite ⟨request.id, request.path, bytes, chunks⟩ packets
    pure (request, some data, packets)
  | _ => pure (request, none, packets)

/-- **Version 1 starts a write** when it has read the request and exactly its frames. -/
theorem takeRequest_write {number : Nat} {rest : List Packet} {request : FileRequest}
    (h : takeRequest number packets = .ok (request, some data, rest)) :
    ∃ value used, packets = .ok value :: (used ++ rest) ∧
      fileRequest value number = .ok request ∧
      request.op = .writeFile data.length (chunkCount data.length) ∧
      used.map frameOf = (uploadFrames request.id data).map some := by
  simp only [takeRequest, bind_eq_ok, Prod.exists, receive_eq_ok, mapError_eq_ok] at h
  obtain ⟨value, others, rfl, found, hrequest, h⟩ := h
  split at h
  next bytes chunks hop =>
    obtain ⟨⟨collected, left⟩, hcollect, h⟩ := bind_eq_ok.mp h
    obtain ⟨rfl, rfl, rfl⟩ := h
    obtain ⟨-, hcount⟩ := fileRequest_write hrequest hop
    obtain ⟨used, rfl, hlength, hframes⟩ := (collectWrite_iff hcount).mp hcollect
    refine ⟨value, used, rfl, hrequest, ?_, hframes⟩
    rw [hop, hcount, hlength]
  next =>
    simp only [pure_eq_ok, Prod.mk.injEq] at h
    cases h.2.1

theorem takeRequest_of_collect {number bytes chunks : Nat} {value : Members} {rest : List Packet}
    {request : FileRequest} (hrequest : fileRequest value number = .ok request)
    (hop : request.op = .writeFile bytes chunks)
    (hcollect : collectWrite ⟨request.id, request.path, bytes, chunks⟩ packets = .ok (data, rest)) :
    takeRequest number (.ok value :: packets) = .ok (request, some data, rest) := by
  simp only [takeRequest, receive, ok_bind, hrequest, Except.mapError, hop, hcollect]
  rfl

/-! ### Version 2 -/

variable {s s' : Channel}

/-- The packet is a frame that names this request. -/
def isFrameFor (id : Nat) : Packet → Bool
  | .error _ => false
  | .ok packet => isUploadFrame packet && decide ((packet.read "id").asInt = some (id : Int))

/-- The frames received for a request. -/
def framesTo (id : Nat) (events : List Event) : List Packet :=
  events.filterMap fun
    | .packet packet => if isFrameFor id packet then some packet else none
    | _ => none

theorem framesTo_append (id : Nat) (events : List Event) (event : Event) :
    framesTo id (events ++ [event]) = framesTo id events ++ framesTo id [event] :=
  filterMap_append

theorem framesTo_self {id : Nat} {packet : Packet} (h : isFrameFor id packet = true) :
    framesTo id [.packet packet] = [packet] := by
  simp [framesTo, h]

theorem framesTo_other {id : Nat} {packet : Packet} (h : isFrameFor id packet = false) :
    framesTo id [.packet packet] = [] := by
  simp [framesTo, h]

theorem framesTo_event {id : Nat} {event : Event} (h : ∀ p, event ≠ .packet p) :
    framesTo id [event] = [] := by
  cases event with
  | packet p => exact absurd rfl (h p)
  | _ => rfl

/-- The id a frame names. -/
def Frame.id : Frame → Int
  | .chunk id _ _ | .commit id => id

variable {packet : Members}

theorem isFrameFor_iff (hkind : isUploadFrame packet = true) {frame : Frame}
    (hframe : frameOf (.ok packet) = some frame) (id : Nat) :
    isFrameFor id (.ok packet) = decide (frame.id = (id : Int)) := by
  have hid : (packet.read "id").asInt = some frame.id := by
    cases frame with
    | chunk other index text => exact (frameOf_eq_chunk.mp hframe).2.2.1
    | commit other => exact (frameOf_eq_commit.mp hframe).2.2
  simp only [isFrameFor, hkind, hid, Bool.true_and, Option.some.injEq]

theorem isFrameFor_request (hkind : isUploadFrame packet = false) (id : Nat) :
    isFrameFor id (.ok packet) = false := by
  rw [isFrameFor, hkind, Bool.false_and]

theorem framesTo_request (events : List Event) (hkind : isUploadFrame packet = false) (id : Nat) :
    framesTo id (events ++ [.packet (.ok packet)]) = framesTo id events := by
  rw [framesTo_append, framesTo_other (isFrameFor_request hkind id), append_nil]

/-- The request was accepted in this history. -/
def Announced (request : WriteRequest) (events : List Event) : Prop :=
  ∃ value, Event.packet (.ok value) ∈ events ∧ fileRequest value request.id =
    .ok ⟨request.id, .writeFile request.bytes request.chunks, request.path⟩

theorem work_injective {request request' : WriteRequest} {data data' : Bytes}
    (h : request.work data = request'.work data') : request = request' ∧ data = data' := by
  obtain ⟨id, path, bytes, chunks⟩ := request
  obtain ⟨id', path', bytes', chunks'⟩ := request'
  cases h
  exact ⟨rfl, rfl⟩

variable {request : WriteRequest}

theorem Announced.count {events : List Event}
    (h : Announced request events) : request.chunks = chunkCount request.bytes := by
  obtain ⟨value, -, hrequest⟩ := h
  exact (fileRequest_write hrequest rfl).2

theorem Announced.mono {events : List Event} (h : Announced request events)
    (event : Event) : Announced request (events ++ [event]) := by
  obtain ⟨value, hmem, hrequest⟩ := h
  exact ⟨value, mem_append_left _ hmem, hrequest⟩

/-- **The upload is what was received for it.** -/
structure Received (events : List Event) (upload : Upload) : Prop where
  announced : Announced upload.request events
  taken : Taken upload.request upload.data upload.received
  frames : (framesTo upload.request.id events).map frameOf =
    ((List.range upload.received).map (chunkFrame upload.request.id upload.data)).map some

/-- **The write was started by these frames**, at the end of some part of the history. -/
def StartedBy (events : List Event) (request : WriteRequest) (data : Bytes) : Prop :=
  ∃ before after s, events = before ++ after ∧ machine.Run before s ∧
    s.tasks.get request.id = some ⟨request.work data, .running⟩ ∧ Announced request before ∧
    data.length = request.bytes ∧
    (framesTo request.id before).map frameOf = (uploadFrames request.id data).map some

theorem StartedBy.mono {events : List Event} (h : StartedBy events request data) (event : Event) :
    StartedBy (events ++ [event]) request data := by
  obtain ⟨before, after, s, rfl, hrest⟩ := h
  exact ⟨before, after ++ [event], s, append_assoc _ _ _, hrest⟩

/-- What a history says of the uploads: of the pending one, of those to come, of the tasks that
write. -/
structure Uploading (events : List Event) (s : Channel) : Prop where
  pending : s.stopped = none → ∀ upload, s.upload = some upload → Received events upload
  fresh : s.stopped = none → ∀ id, id ∉ s.accepted → framesTo id events = []
  started : ∀ id request data phase, s.tasks.get id = some ⟨WriteRequest.work request data, phase⟩ →
    StartedBy events request data

/-- The chunks of what is there already stay, when it ends with a full chunk. -/
theorem chunkFrame_append {count index : Nat} (hfull : data.length = count * chunkBytes)
    (hindex : index < count) (id : Nat) (decoded : Bytes) :
    chunkFrame id (data ++ decoded) index = chunkFrame id data index := by
  have hroom : index * chunkBytes + chunkBytes ≤ data.length := by
    rw [hfull, ← Nat.succ_mul]
    exact Nat.mul_le_mul_right _ hindex
  have hdrop : chunkBytes ≤ (data.drop (index * chunkBytes)).length := by
    rw [length_drop]
    omega
  rw [chunkFrame, chunkFrame, piece, piece, drop_append_of_le_length (by omega),
    take_append_of_le_length hdrop]

variable {upload : Upload}

/-- **The next chunk** extends the upload and its frames. -/
theorem Received.chunk {events : List Event} (h : Received events upload) {decoded : Bytes}
    (hkind : isUploadFrame packet = true) (hframe : frameOf (.ok packet) =
      some (.chunk upload.request.id upload.received (Base64.encode decoded)))
    (hlength : decoded.length = min chunkBytes (upload.request.bytes - upload.data.length))
    (hne : decoded ≠ []) :
    Received (events ++ [.packet (.ok packet)])
      { upload with data := upload.data ++ decoded, received := upload.received + 1 } := by
  obtain ⟨hfull, -⟩ := h.taken.full hlength hne
  refine ⟨h.announced.mono _, h.taken.next hlength hne, ?_⟩
  have hself : isFrameFor upload.request.id (.ok packet) = true := by
    rw [isFrameFor_iff hkind hframe]
    exact decide_eq_true rfl
  have hnew : chunkFrame upload.request.id (upload.data ++ decoded) upload.received =
      .chunk upload.request.id upload.received (Base64.encode decoded) := by
    have hpiece : piece (upload.data ++ decoded ++ []) upload.received = decoded :=
      piece_append hfull (.inr ⟨by omega, rfl⟩)
    rw [append_nil] at hpiece
    rw [chunkFrame, hpiece]
  have hold : (List.range upload.received).map
        (chunkFrame upload.request.id (upload.data ++ decoded)) =
      (List.range upload.received).map (chunkFrame upload.request.id upload.data) :=
    map_congr_left fun index hindex =>
      chunkFrame_append hfull (mem_range.mp hindex) _ _
  show (framesTo upload.request.id _).map frameOf = _
  rw [framesTo_append, framesTo_self hself, map_append, h.frames, range_succ,
    map_append, map_append, hold, map_singleton, map_singleton,
    map_singleton, hnew, hframe]

theorem Received.commit {events : List Event} (h : Received events upload)
    (hkind : isUploadFrame packet = true)
    (hframe : frameOf (.ok packet) = some (.commit upload.request.id))
    (hlength : upload.data.length = upload.request.bytes)
    (hcount : upload.received = upload.request.chunks) :
    (framesTo upload.request.id (events ++ [.packet (.ok packet)])).map frameOf =
      (uploadFrames upload.request.id upload.data).map some := by
  have hself : isFrameFor upload.request.id (.ok packet) = true := by
    rw [isFrameFor_iff hkind hframe]
    exact decide_eq_true rfl
  rw [framesTo_append, framesTo_self hself, map_append, h.frames, uploadFrames, hlength,
    ← h.announced.count, ← hcount, map_append, map_singleton, map_singleton, hframe]

namespace Uploading

variable {events : List Event}

theorem init : Uploading [] Channel.init where
  pending := nofun
  fresh := fun _ _ _ => rfl
  started := nofun

theorem frame (h : Uploading events s) {event : Event} (hother : ∀ id, framesTo id [event] = [])
    (hstopped : s'.stopped = none → s.stopped = none) (hupload : s'.upload = s.upload)
    (haccepted : s.accepted ⊆ s'.accepted) (hkeeps : s.Keeps s') :
    Uploading (events ++ [event]) s' := by
  have hframes : ∀ id, framesTo id (events ++ [event]) = framesTo id events := fun id => by
    rw [framesTo_append, hother, append_nil]
  refine ⟨fun hnone upload hsome => ?_, fun hnone id hid => ?_,
    fun id request data phase htask => ?_⟩
  · have hold := h.pending (hstopped hnone) upload (hupload ▸ hsome)
    exact ⟨hold.announced.mono _, hold.taken, by rw [hframes, hold.frames]⟩
  · rw [hframes]
    exact h.fresh (hstopped hnone) id fun hmem => hid (haccepted hmem)
  · obtain ⟨phase', htask'⟩ := hkeeps id _ _ htask
    exact (h.started id request data phase' htask').mono _

theorem stop (h : Uploading events s) (event : Event) (text : String) :
    Uploading (events ++ [event]) (s.stop text) where
  pending := nofun
  fresh := nofun
  started := fun id request data phase htask => (h.started id request data phase htask).mono _

theorem fresh_frame (h : Uploading events s) (hdesk : Desk s) (hrunning : s.stopped = none)
    {upload : Upload} (hupload : s.upload = some upload) {packet : Members}
    (hkind : isUploadFrame packet = true) {frame : Frame} (hframe : frameOf (.ok packet) = some frame)
    (hself : frame.id = upload.request.id) {id : Nat} (hid : id ∉ s.accepted) :
    framesTo id (events ++ [.packet (.ok packet)]) = [] := by
  have hother : isFrameFor id (.ok packet) = false := by
    rw [isFrameFor_iff hkind hframe, hself]
    refine decide_eq_false fun heq => hid ?_
    rw [← Int.ofNat_inj.mp heq]
    exact (hdesk.uploading _ (by rw [Channel.uploadId, hupload]; rfl)).1
  rw [framesTo_append, framesTo_other hother, append_nil]
  exact h.fresh hrunning id hid

/-- **One round of the loop.** -/
theorem round (h : Uploading events s) (hdesk : Desk s) {packet : Packet}
    (hround : Round s packet s') (hrunning : s.stopped = none)
    (hrun : machine.Run (events ++ [.packet packet]) s') :
    Uploading (events ++ [.packet packet]) s' := by
  cases hround with
  | stop _ text => exact h.stop _ text
  | @chunk packet upload decoded hkind hupload hframe hlength hne =>
    have hreceived := (h.pending hrunning upload hupload).chunk hkind hframe hlength hne
    refine ⟨fun _ next hnext => ?_, fun _ id hid => ?_, fun id request data phase htask =>
      (h.started id request data phase htask).mono _⟩
    · cases hnext
      exact hreceived
    · exact h.fresh_frame hdesk hrunning hupload hkind hframe rfl hid
  | @commit packet upload hkind hupload hframe hlength hcount =>
    have hreceived := h.pending hrunning upload hupload
    refine ⟨fun _ => nofun, fun _ id hid => ?_, fun id request data phase htask => ?_⟩
    · exact h.fresh_frame hdesk hrunning hupload hkind hframe rfl hid
    · change (s.tasks.set _ _).get id = some _ at htask
      rw [Dict.get_set] at htask
      split at htask
      next =>
        obtain ⟨hwork, -⟩ := Task.mk.inj (Option.some.inj htask)
        obtain ⟨rfl, rfl⟩ := work_injective hwork
        exact ⟨_, [], _, (append_nil _).symm, hrun, Dict.get_set_self _ _ _,
          hreceived.announced.mono _, hlength, hreceived.commit hkind hframe hlength hcount⟩
      next => exact (h.started id request data phase htask).mono _
  | @write packet request hkind _ _ hid hrequest =>
    have hframes := framesTo_request events hkind
    refine ⟨fun _ upload hupload => ?_, fun _ id hmem => ?_, fun id request data phase htask =>
      (h.started id request data phase htask).mono _⟩
    · cases hupload
      refine ⟨⟨packet, mem_append_right _ (mem_singleton_self _), ?_⟩, ?_, ?_⟩
      · rw [hid]
        rw [hid] at hrequest
        exact hrequest
      · simp [Taken]
      · rw [hframes, hid, h.fresh hrunning _ hdesk.not_mem_number]
        rfl
    · rw [hframes]
      exact h.fresh hrunning id fun hold => hmem (mem_append_left _ hold)
  | @start packet work _ hkind _ _ _ hother =>
    have hframes := framesTo_request events hkind
    refine ⟨fun _ upload hupload => ?_, fun _ id hmem => ?_, fun id request data phase htask => ?_⟩
    · have hold := h.pending hrunning upload hupload
      exact ⟨hold.announced.mono _, hold.taken, by rw [hframes, hold.frames]⟩
    · rw [hframes]
      exact h.fresh hrunning id fun hold => hmem (mem_append_left _ hold)
    · change (s.tasks.set _ _).get id = some _ at htask
      rw [Dict.get_set] at htask
      split at htask
      next => exact absurd (Task.mk.inj (Option.some.inj htask)).1 (hother request data)
      next => exact (h.started id request data phase htask).mono _

/-- **Every step keeps it.** -/
theorem step (h : Uploading events s) (hdesk : Desk s) {event : Event}
    (hstep : s.step event = some s') (hrun : machine.Run (events ++ [event]) s') :
    Uploading (events ++ [event]) s' := by
  have hrunning : s.stopped = none := by
    unfold Channel.step at hstep
    split at hstep
    next => cases hstep
    next hnot => exact not_isSome_iff_eq_none.mp hnot
  cases step_move (fun id task htask => (hdesk.known id task htask).2) hstep with
  | packet packet => exact h.round hdesk (packet_round s packet) hrunning hrun
  | stop text => exact h.stop event text
  | works hevent htask | replies hevent htask =>
    exact h.frame (fun _ => framesTo_event hevent) (fun _ => hrunning) rfl (List.Subset.refl _)
      (.set htask rfl)
  | handles hevent =>
    exact h.frame (fun _ => framesTo_event hevent) (fun _ => hrunning) rfl (List.Subset.refl _)
      fun _ _ phase htask => ⟨phase, htask⟩
  | raises hevent htask =>
    rw [Channel.raises, Desk.leave_eq]
    exact h.frame (fun _ => framesTo_event hevent) (fun _ => hrunning) rfl (List.Subset.refl _)
      (.set htask rfl)
  | transmit hsend =>
    obtain ⟨-, -, hupload, haccepted, -, hkeeps⟩ := transmit_frame hsend
    exact h.frame (fun _ => framesTo_event (by rintro _ ⟨⟩)) (fun _ => hrunning) hupload
      (haccepted ▸ List.Subset.refl _) hkeeps
  | @reap id _ hreap =>
    have herased : ∀ {s' : Channel}, s'.tasks = s.tasks.erase id → s.Keeps s' := by
      intro s' htasks other work phase htask
      rw [htasks, Dict.get_erase] at htask
      split at htask
      next => cases htask
      next => exact ⟨phase, htask⟩
    unfold Channel.reap at hreap
    split at hreap
    next =>
      cases hreap
      exact h.frame (fun _ => framesTo_event (by rintro _ ⟨⟩)) (fun _ => hrunning) rfl
        (List.Subset.refl _) (herased rfl)
    next =>
      cases hreap
      exact h.frame (fun _ => framesTo_event (by rintro _ ⟨⟩)) (fun _ => hrunning) rfl
        (List.Subset.refl _) (herased rfl)
    next => cases hreap

end Uploading

theorem uploading_of_run {events : List Event} (h : machine.Run events s) : Uploading events s := by
  induction h with
  | start hinit =>
    obtain rfl := hinit
    exact .init
  | next hrun hstep ih => exact ih.step (desk_of_run hrun) hstep (.next hrun hstep)

/-! ### Frames back to back -/

/-- Every packet is a frame of an upload, or none at all. -/
def BackToBack (packets : List Packet) : Prop := ∀ packet, .ok packet ∈ packets → isUploadFrame packet

/-- Version 2 has started the write of these data and nothing else. -/
def Starts (s t : Channel) (request : WriteRequest) (data : Bytes) : Prop :=
  t.stopped = none ∧ t.upload = none ∧
    t.tasks = s.tasks.set request.id ⟨request.work data, .running⟩

theorem step_packet (hrunning : s.stopped = none) (packet : Packet) :
    s.step (.packet packet) = some (s.packet packet) := by
  rw [Channel.step, hrunning]
  rfl

theorem exec_stopped {t : Channel} (hstopped : s.stopped ≠ none)
    (h : LTS.exec Channel.step s (packets.map .packet) = some t) : t.stopped ≠ none := by
  cases packets with
  | nil =>
    cases h
    exact hstopped
  | cons packet packets =>
    have hstep : s.step (.packet packet) = none := by
      rw [Channel.step, if_pos (isSome_iff_ne_none.mpr hstopped)]
    rw [map_cons, LTS.exec, hstep] at h
    cases h

theorem packet_more (hkind : isUploadFrame packet = true)
    (h : uploadFrame s.upload packet = .ok (.more upload)) :
    s.packet (.ok packet) = { s with upload := some upload } := by
  simp only [Channel.packet, hkind, if_true, h]

theorem packet_complete (hkind : isUploadFrame packet = true)
    (h : uploadFrame s.upload packet = .ok (.complete request data)) :
    s.packet (.ok packet) = s.startWrite request data := by
  simp only [Channel.packet, hkind, if_true, h]

theorem packet_unowned (hkind : isUploadFrame packet = true)
    (hupload : s.upload = none) : (s.packet (.ok packet)).stopped ≠ none := by
  simp [Channel.packet, hkind, hupload, uploadFrame, Channel.stop]

/-- **Version 2 takes frames that come back to back** as `Feeds` does. -/
theorem exec_iff_feeds (hrunning : s.stopped = none) (hupload : s.upload = some upload)
    (hpackets : BackToBack packets) :
    (∃ t, LTS.exec Channel.step s (packets.map .packet) = some t ∧
        Starts s t upload.request data) ↔
      Feeds upload.request upload.data upload.received packets data := by
  induction packets generalizing s upload with
  | nil =>
    constructor
    · rintro ⟨t, hexec, -, hnone, -⟩
      cases hexec
      rw [hupload] at hnone
      cases hnone
    · intro hfeeds
      generalize upload.received = index at hfeeds
      cases hfeeds
  | cons packet packets ih =>
    have hrest : BackToBack packets := fun p hp => hpackets p (mem_cons_of_mem _ hp)
    have hexec : LTS.exec Channel.step s ((packet :: packets).map .packet) =
        LTS.exec Channel.step (s.packet packet) (packets.map .packet) := by
      rw [map_cons, LTS.exec, step_packet hrunning, bind_some]
    rw [hexec]
    constructor
    · rintro ⟨t, hexec, hstarts⟩
      have hround := packet_round s packet
      generalize s.packet packet = next at hround hexec
      cases hround with
      | stop => exact absurd hstarts.1 (exec_stopped (some_ne_none _) hexec)
      | @chunk packet u decoded _ hu hframe hlength hne =>
        obtain rfl : upload = u := Option.some.inj (hupload.symm.trans hu)
        refine .chunk hframe hlength hne ?_
        exact (ih (s := { s with upload := some _ }) hrunning rfl hrest).mp ⟨t, hexec, hstarts⟩
      | @commit packet u _ hu hframe hlength hcount =>
        obtain rfl : upload = u := Option.some.inj (hupload.symm.trans hu)
        -- nothing may come behind the commit
        cases packets with
        | nil =>
          cases hexec
          have htask := congrArg (fun tasks => tasks.get upload.request.id) hstarts.2.2
          change (s.tasks.set _ _).get _ = _ at htask
          rw [Dict.get_set_self, Dict.get_set_self] at htask
          obtain rfl := (work_injective (Task.mk.inj (Option.some.inj htask)).1).2
          rw [hcount]
          exact .commit hframe hlength
        | cons second packets =>
          have hrunning' : (s.startWrite upload.request upload.data).stopped = none := hrunning
          rw [map_cons, LTS.exec, step_packet hrunning', bind_some] at hexec
          refine absurd hstarts.1 (exec_stopped ?_ hexec)
          cases second with
          | error text => exact some_ne_none text
          | ok second => exact packet_unowned (hrest second mem_cons_self) rfl
      | write hkind | start hkind =>
        rw [hpackets _ mem_cons_self] at hkind
        cases hkind
    · intro hfeeds
      cases packet with
      | error text =>
        generalize upload.received = index at hfeeds
        cases hfeeds with
        | commit hframe => cases hframe
        | chunk hframe => cases hframe
      | ok packet =>
        have hkind := hpackets packet mem_cons_self
        generalize hindex : upload.received = index at hfeeds
        cases hfeeds with
        | commit hframe hlength =>
          have hstart := packet_complete (s := s) hkind ((uploadFrame_eq_ok hkind).mpr
            ⟨upload, hupload, .inr ⟨hframe, hlength, hindex, rfl⟩⟩)
          rw [hstart]
          exact ⟨_, rfl, hrunning, rfl, rfl⟩
        | chunk hframe hlength hne hfeeds =>
          subst hindex
          have hmore := packet_more (s := s) hkind ((uploadFrame_eq_ok hkind).mpr
            ⟨upload, hupload, .inl ⟨_, hframe, hlength, hne, rfl⟩⟩)
          rw [hmore]
          exact (ih (s := { s with upload := some _ }) hrunning rfl hrest).mpr hfeeds

/-! ### Both versions -/

/-- **Writes over the channel.** In both versions a write starts when the frames received for its
request are those of the data: the announced bytes in full chunks and a shorter last one, numbered
from 0, in canonical base64, and one commit behind them; the data are what the frames carry. In
version 2 this is so of every task that writes, in every run, whatever comes between the frames. Of
frames that come back to back both versions take the same. -/
theorem transfers_agree :
    (∀ number packets request data rest,
      takeRequest number packets = .ok (request, some data, rest) →
      ∃ value used, packets = .ok value :: (used ++ rest) ∧
        fileRequest value number = .ok request ∧
        request.op = .writeFile data.length (chunkCount data.length) ∧
        used.map frameOf = (uploadFrames request.id data).map some ∧ payload used = data) ∧
    (∀ events s id request data phase, machine.Run events s →
      s.tasks.get id = some ⟨.file ⟨request.id, .writeFile request.bytes request.chunks,
        request.path⟩ data, phase⟩ →
      ∃ before after s', events = before ++ after ∧ machine.Run before s' ∧
        s'.tasks.get request.id = some ⟨request.work data, .running⟩ ∧ Announced request before ∧
        data.length = request.bytes ∧
        (framesTo request.id before).map frameOf = (uploadFrames request.id data).map some ∧
        payload (framesTo request.id before) = data) ∧
    (∀ (value : Members) (request : WriteRequest) (s : Channel) (packets : List Packet)
        (data : Bytes),
      fileRequest value request.id =
        .ok ⟨request.id, .writeFile request.bytes request.chunks, request.path⟩ →
      s.stopped = none → s.upload = some ⟨request, [], 0⟩ → BackToBack packets →
      (collectWrite request packets = .ok (data, []) ↔
        ∃ t, LTS.exec Channel.step s (packets.map .packet) = some t ∧
          Starts s t request data)) := by
  refine ⟨?_, ?_, ?_⟩
  · intro number packets request data rest h
    obtain ⟨value, used, hpackets, hrequest, hop, hframes⟩ := takeRequest_write h
    exact ⟨value, used, hpackets, hrequest, hop, hframes, payload_frames hframes⟩
  · intro events s id request data phase hrun htask
    obtain ⟨before, after, s', hevents, hbefore, hrunning, hannounced, hlength, hframes⟩ :=
      (uploading_of_run hrun).started id request data phase htask
    exact ⟨before, after, s', hevents, hbefore, hrunning, hannounced, hlength, hframes,
      payload_frames hframes⟩
  · intro value request s packets data hrequest hrunning hupload hpackets
    obtain ⟨-, hcount⟩ := fileRequest_write hrequest rfl
    have hstart : Taken request [] 0 := by simp [Taken]
    have hfeeds : _ ↔ Feeds request [] 0 packets data :=
      exec_iff_feeds hrunning hupload hpackets
    rw [hfeeds, collectWrite]
    constructor
    · intro h
      obtain ⟨used, hused, hfeeds⟩ := (collect_iff_feeds hcount (Nat.zero_add _) hstart).mp h
      rw [append_nil] at hused
      rw [hused]
      exact hfeeds
    · intro h
      exact (collect_iff_feeds hcount (Nat.zero_add _) hstart).mpr
        ⟨packets, (append_nil _).symm, h⟩

/-! A write of a full chunk and a shorter one. -/

def writeRequest : WriteRequest := ⟨1, "/workspace/a", 32769, 2⟩

def writeAnnounced : Members :=
  [("id", .int 1), ("op", .str "writeFile"), ("path", .str "/workspace/a"),
    ("bytes", .int 32769), ("chunks", .int 2)]

@[irreducible] def writtenData : Bytes := replicate 32769 65

def framePacket : Frame → Packet
  | .chunk id index text => .ok [("type", .str "chunk"), ("id", .int id), ("index", .int index),
      ("dataBase64", .str (String.ofList text))]
  | .commit id => .ok [("type", .str "commit"), ("id", .int id)]

def writeFrames : List Packet := (uploadFrames 1 writtenData).map framePacket

theorem frameOf_framePacket (frame : Frame) : frameOf (framePacket frame) = some frame := by
  cases frame with
  | chunk id index text =>
    exact frameOf_eq_chunk.mpr ⟨rfl, rfl, rfl, rfl, _, rfl, String.toList_ofList⟩
  | commit id => exact frameOf_eq_commit.mpr ⟨rfl, rfl, rfl⟩

theorem length_writtenData : writtenData.length = 32769 := by
  rw [writtenData, length_replicate]

theorem writeFrames_frames : writeFrames.map frameOf = (uploadFrames 1 writtenData).map some := by
  rw [writeFrames, List.map_map]
  exact map_congr_left fun frame _ => frameOf_framePacket frame

theorem backToBack_writeFrames : BackToBack writeFrames := by
  intro packet hpacket
  obtain ⟨frame, -, hframe⟩ := List.mem_map.mp hpacket
  cases frame <;> cases hframe <;> rfl

theorem collectWrite_writeFrames : collectWrite writeRequest writeFrames = .ok (writtenData, []) :=
  (collectWrite_iff rfl).mpr
    ⟨writeFrames, (append_nil _).symm, length_writtenData, writeFrames_frames⟩

theorem transfers_agree_two :
    (piece writtenData 0).length = 32768 ∧ (piece writtenData 1).length = 1 ∧
    payload writeFrames = writtenData ∧
    takeRequest 1 (.ok writeAnnounced :: writeFrames) =
      .ok (⟨1, .writeFile 32769 2, "/workspace/a"⟩, some writtenData, []) ∧
    ∃ s, machine.Run ((.ok writeAnnounced :: writeFrames).map .packet) s ∧
      s.tasks.get 1 = some ⟨writeRequest.work writtenData, .running⟩ ∧
      ∃ before after, (.ok writeAnnounced :: writeFrames).map .packet = before ++ after ∧
        payload (framesTo 1 before) = writtenData := by
  have hrequest : fileRequest writeAnnounced 1 =
      .ok ⟨1, .writeFile 32769 2, "/workspace/a"⟩ := rfl
  have htaken : takeRequest 1 (.ok writeAnnounced :: writeFrames) =
      .ok (⟨1, .writeFile 32769 2, "/workspace/a"⟩, some writtenData, []) :=
    takeRequest_of_collect hrequest rfl collectWrite_writeFrames
  obtain ⟨value, used, hpackets, -, -, -, hpayload⟩ := transfers_agree.1 1 _ _ _ _ htaken
  have hused : used = writeFrames := by
    rw [append_nil] at hpackets
    exact (cons.inj hpackets).2.symm
  rw [hused] at hpayload
  -- version 2 takes what version 1 collects
  obtain ⟨s, hexec, -, -, htasks⟩ := (transfers_agree.2.2 writeAnnounced writeRequest
    (Channel.init.packet (.ok writeAnnounced)) writeFrames writtenData hrequest rfl rfl
    backToBack_writeFrames).mp collectWrite_writeFrames
  have hexec' : LTS.exec Channel.step Channel.init
      ((.ok writeAnnounced :: writeFrames).map .packet) = some s := by
    rw [map_cons, LTS.exec, step_packet rfl, bind_some, hexec]
  have hrun : machine.Run ((.ok writeAnnounced :: writeFrames).map .packet) s :=
    ((LTS.RunOf.start (A := machine) rfl).exec (C := fun _ _ => True)
      (fun hstep => ⟨trivial, hstep⟩) hexec').run
  have htask : s.tasks.get 1 = some ⟨writeRequest.work writtenData, .running⟩ := by
    rw [htasks]
    rfl
  obtain ⟨before, after, -, hevents, -, -, -, -, -, hdata⟩ :=
    transfers_agree.2.1 _ s 1 writeRequest writtenData .running hrun htask
  refine ⟨?_, ?_, hpayload, htaken, s, hrun, htask, before, after, hevents, hdata⟩
  · rw [length_piece, length_writtenData]
    rfl
  · rw [length_piece, length_writtenData]
    rfl

end FoldGPT.Host
