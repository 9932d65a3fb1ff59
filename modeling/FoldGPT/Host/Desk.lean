import FoldGPT.Host.Moves

/-!
# The desk of the host channel

Numbers, the table of tasks, the one filesystem exchange and the responses of every request.

* `Standing`: what was sent for a request, is in line and is still to come is one complete
  response.
* `Desk.step`: every kind of step keeps the desk.
* `desk_of_run`: so it holds in every run.
-/

namespace FoldGPT.Host

open FoldGPT.Lib List

variable {s s' : Channel}

/-! ### Where a request stands -/

/-- What of the line is from this task. -/
def lineOf (line : List (Nat × Response)) (id : Nat) : List Response :=
  (line.filter fun e => e.1 = id).map Prod.snd

/-- What was sent for this request. -/
def sentOf (sent : List Response) (id : Nat) : List Response := sent.filter fun r => r.id = id

theorem lineOf_append (line line' : List (Nat × Response)) (id : Nat) :
    lineOf (line ++ line') id = lineOf line id ++ lineOf line' id := by
  simp [lineOf]

theorem lineOf_self (id : Nat) (response : Response) : lineOf [(id, response)] id = [response] := by
  simp [lineOf]

theorem lineOf_other {id other : Nat} (h : other ≠ id) (response : Response) :
    lineOf [(id, response)] other = [] := by
  simp [lineOf, Ne.symm h]

theorem sentOf_append (sent sent' : List Response) (id : Nat) :
    sentOf (sent ++ sent') id = sentOf sent id ++ sentOf sent' id := filter_append _ _

theorem sentOf_self {id : Nat} {response : Response} (h : response.id = id) :
    sentOf [response] id = [response] := by
  simp [sentOf, h]

theorem sentOf_other {id : Nat} {response : Response} (h : response.id ≠ id) :
    sentOf [response] id = [] := by
  simp [sentOf, h]

/-- The request whose upload is pending. -/
def Channel.uploadId (s : Channel) : Option Nat := s.upload.map fun u => u.request.id

/-- The request is not accepted yet, or its upload is not complete. -/
def Channel.Unstarted (s : Channel) (id : Nat) : Prop := id ∉ s.accepted ∨ s.uploadId = some id

/-- **Where a request stands**: nothing was sent before its operation returned; what was sent, is
in line and is still to come is then one complete response; and it stays complete. -/
def Standing (id : Nat) (task : Option Task) (unstarted raised : Prop)
    (line sent : List Response) : Prop :=
  match task with
  | some ⟨_, .sending rest⟩ =>
    (∀ r ∈ rest, r.Plain) ∧ ∃ first, line = [first] ∧ Answers id (sent ++ first :: rest)
  | some ⟨_, .done⟩ => line = [] ∧ Answers id sent
  | some ⟨_, .raised⟩ => line = [] ∧ raised
  | some _ => line = [] ∧ sent = []
  | none => line = [] ∧ (unstarted → sent = []) ∧ (¬unstarted → raised ∨ Answers id sent)

def Channel.Stands (s : Channel) (id : Nat) : Prop :=
  Standing id (s.tasks.get id) (s.Unstarted id) (id ∈ s.raised) (lineOf s.line id)
    (sentOf s.sent id)

theorem standing_working {id : Nat} {work : Work} {phase : Phase} (h : phase.working = true)
    {unstarted raised : Prop} {line sent : List Response} :
    Standing id (some ⟨work, phase⟩) unstarted raised line sent ↔ line = [] ∧ sent = [] := by
  cases phase with
  | running | spawning | writing | reading => rfl
  | sending | done | raised => cases h

theorem Standing.imp {id : Nat} {task : Option Task} {unstarted raised raised' : Prop}
    {line sent : List Response} (h : Standing id task unstarted raised line sent)
    (hraised : raised → raised') : Standing id task unstarted raised' line sent := by
  cases task with
  | none => exact ⟨h.1, h.2.1, fun hstarted => (h.2.2 hstarted).imp_left hraised⟩
  | some task =>
    obtain ⟨work, phase⟩ := task
    cases phase with
    | raised => exact ⟨h.1, hraised h.2⟩
    | running | spawning | writing | reading | sending | done => exact h

/-- A request another step does not touch stays where it is. -/
theorem Channel.Stands.other {id : Nat} (h : s.Stands id) (htask : s'.tasks.get id = s.tasks.get id)
    (hunstarted : s'.Unstarted id ↔ s.Unstarted id) (hraised : id ∈ s.raised → id ∈ s'.raised)
    (hline : lineOf s'.line id = lineOf s.line id) (hsent : sentOf s'.sent id = sentOf s.sent id) :
    s'.Stands id := by
  rw [Channel.Stands, htask, hline, hsent, propext hunstarted]
  exact Standing.imp h hraised

/-! ### The desk -/

/-- The request holds the filesystem exchange: its upload is pending or its file task is active. -/
def Channel.Exchanges (s : Channel) (id : Nat) : Prop :=
  s.uploadId = some id ∨
    ∃ task, s.tasks.get id = some task ∧ task.work.isFile ∧ task.phase.active

/-- **The desk**: numbers, the table of tasks with its bound, the exchange and the responses. -/
structure Desk (s : Channel) : Prop where
  positive : 1 ≤ s.number
  accepted : s.accepted = List.range' 1 (s.number - 1)
  keys : s.tasks.keys.Nodup
  known : ∀ id task, s.tasks.get id = some task → id ∈ s.accepted ∧ task.work.id = id
  uploading : ∀ id, s.uploadId = some id → id ∈ s.accepted ∧ s.tasks.get id = none
  bounded : s.pending ≤ maxPending
  exchange : ∀ id, s.Exchanges id → s.fileRequest = some id
  live : s.live.length ≤ maxPending
  stands : ∀ id, s.Stands id

theorem desk_init : Desk Channel.init where
  positive := Nat.le_refl 1
  accepted := rfl
  keys := nodup_nil
  known := nofun
  uploading := nofun
  bounded := Nat.zero_le _
  exchange := by
    rintro id (hupload | ⟨task, htask, -⟩)
    · cases hupload
    · cases htask
  live := Nat.zero_le _
  stands := fun id => ⟨rfl, fun _ => rfl, fun h => absurd (.inl not_mem_nil) h⟩

namespace Desk

theorem not_mem_number (h : Desk s) : s.number ∉ s.accepted := by
  rw [h.accepted, mem_range'_1]
  omega

theorem get_number (h : Desk s) : s.tasks.get s.number = none := by
  cases htask : s.tasks.get s.number with
  | none => rfl
  | some task => exact absurd (h.known _ _ htask).1 h.not_mem_number

theorem mem_keys {id : Nat} {task : Task} (htask : s.tasks.get id = some task) :
    id ∈ s.tasks.keys := by
  by_contra hnot
  rw [Dict.get_eq_none.mpr hnot] at htask
  cases htask

theorem not_unstarted (h : Desk s) {id : Nat} {task : Task} (htask : s.tasks.get id = some task) :
    ¬s.Unstarted id := by
  rintro (hnot | hupload)
  · exact hnot (h.known id task htask).1
  · rw [(h.uploading id hupload).2] at htask
    cases htask

/-- **A task goes on**, or ends: nothing but its phase, its responses and the processes change. -/
theorem rephase (h : Desk s) {id : Nat} {work : Work} {phase phase' : Phase}
    (htask : s.tasks.get id = some ⟨work, phase⟩)
    (htasks : s'.tasks = s.tasks.set id ⟨work, phase'⟩) (hactive : phase.active = true)
    (hnumber : s'.number = s.number) (haccepted : s'.accepted = s.accepted)
    (hupload : s'.upload = s.upload)
    (hfile : s'.fileRequest = s.fileRequest ∨ work.isFile = true ∧ phase'.active = false)
    (hlive : s'.live.length ≤ maxPending) (hraised : s.raised ⊆ s'.raised)
    (hline : ∀ other, other ≠ id → lineOf s'.line other = lineOf s.line other)
    (hsent : ∀ other, other ≠ id → sentOf s'.sent other = sentOf s.sent other)
    (hself : Standing id (some ⟨work, phase'⟩) (s'.Unstarted id) (id ∈ s'.raised)
      (lineOf s'.line id) (sentOf s'.sent id)) : Desk s' := by
  have hmem := mem_keys htask
  have huploadId : s'.uploadId = s.uploadId := by rw [Channel.uploadId, hupload, Channel.uploadId]
  have hget : ∀ other, s'.tasks.get other =
      if other = id then some ⟨work, phase'⟩ else s.tasks.get other := fun other => by
    rw [htasks, Dict.get_set]
  have hexchange : ∀ other, s'.Exchanges other → s.Exchanges other := by
    rintro other (hup | ⟨task, hother, hisFile, hother'⟩)
    · exact .inl (huploadId ▸ hup)
    · rw [hget] at hother
      split at hother
      next heq =>
        cases hother
        exact .inr ⟨⟨work, phase⟩, heq ▸ htask, hisFile, hactive⟩
      next => exact .inr ⟨task, hother, hisFile, hother'⟩
  refine ⟨hnumber ▸ h.positive, ?_, ?_, ?_, ?_, ?_, ?_, hlive, ?_⟩
  · rw [haccepted, hnumber, h.accepted]
  · rw [htasks]
    exact Dict.nodup_keys_set h.keys _ _
  · intro other task hother
    rw [haccepted]
    rw [hget] at hother
    split at hother
    next heq =>
      cases hother
      exact heq ▸ h.known id ⟨work, phase⟩ htask
    next => exact h.known other task hother
  · intro other hother
    obtain ⟨hknown, hnone⟩ := h.uploading other (huploadId ▸ hother)
    refine ⟨haccepted ▸ hknown, ?_⟩
    rw [hget, if_neg fun heq => ?_]
    · exact hnone
    · rw [heq, htask] at hnone
      cases hnone
  · have hbounded := h.bounded
    rw [Channel.pending, hupload, htasks, Dict.length_set, if_pos hmem]
    exact hbounded
  · intro other hother
    have hold := h.exchange other (hexchange other hother)
    rcases hfile with hfile | ⟨hisFile, hover⟩
    · rw [hfile, hold]
    · -- the exchange was the task's own, and is over
      have hown := h.exchange id (.inr ⟨_, htask, hisFile, hactive⟩)
      obtain rfl : other = id := by
        rw [hown] at hold
        exact (Option.some.inj hold).symm
      rcases hother with hup | ⟨task, hself, -, hself'⟩
      · rw [(h.uploading other (huploadId ▸ hup)).2] at htask
        cases htask
      · rw [hget, if_pos rfl] at hself
        cases hself
        rw [hover] at hself'
        cases hself'
  · intro other
    by_cases heq : other = id
    · subst heq
      rw [Channel.Stands, hget, if_pos rfl]
      exact hself
    · refine (h.stands other).other ?_ ?_ (fun hmem => hraised hmem) (hline other heq)
        (hsent other heq)
      · rw [hget, if_neg heq]
      · rw [Channel.Unstarted, haccepted, huploadId, Channel.Unstarted]

theorem live_le (h : Desk s) {slots : Dict Key Slot} {live : List Key}
    {returned : Option (Key × ProcessEvent)} (hslots : Handles s slots live returned) :
    live.length ≤ maxPending := by
  cases hslots with
  | forget => exact Nat.le_trans length_erase_le h.live
  | spawn _ hroom =>
    rw [length_append]
    exact hroom
  | deliver _ _ hlive =>
    rcases hlive with rfl | rfl
    · exact h.live
    · exact Nat.le_trans length_erase_le h.live
  | same | flag | take | drop | emit | forward | ends => exact h.live

theorem active_of_working {phase : Phase} (h : phase.working = true) : phase.active = true := by
  cases phase with
  | running | spawning | writing | reading | sending => rfl
  | done | raised => cases h

section Moves

variable {id : Nat} {work : Work} {phase phase' : Phase} {slots : Dict Key Slot} {live : List Key}
  {returned : Option (Key × ProcessEvent)}

theorem works (h : Desk s) (htask : s.tasks.get id = some ⟨work, phase⟩)
    (hworking : phase.working = true) (hworking' : phase'.working = true)
    (hslots : Handles s slots live none) :
    Desk ({ s with slots := slots, live := live }.setPhase id work phase') := by
  refine h.rephase htask rfl (active_of_working hworking) rfl rfl rfl (.inl rfl) (h.live_le hslots)
    (List.Subset.refl _) (fun _ _ => rfl) (fun _ _ => rfl) ?_
  have hstands := h.stands id
  rw [Channel.Stands, htask, standing_working hworking] at hstands
  exact (standing_working hworking').mpr hstands

theorem replies (h : Desk s) (htask : s.tasks.get id = some ⟨work, phase⟩)
    (hworking : phase.working = true) (hslots : Handles s slots live returned)
    {first : Response} {rest : List Response} (hanswers : Answers work.id (first :: rest))
    (hplain : ∀ response ∈ rest, response.Plain) :
    Desk ({ s with slots := slots, live := live }.reply id work first rest) := by
  refine h.rephase htask rfl (active_of_working hworking) rfl rfl rfl (.inl rfl) (h.live_le hslots)
    (List.Subset.refl _) (fun other hother => ?_) (fun _ _ => rfl) ?_
  · show lineOf (s.line ++ [(id, first)]) other = lineOf s.line other
    rw [lineOf_append, lineOf_other hother, append_nil]
  · have hstands := h.stands id
    rw [Channel.Stands, htask, standing_working hworking] at hstands
    have hline : lineOf (s.line ++ [(id, first)]) id = [first] := by
      rw [lineOf_append, hstands.1, lineOf_self]
      rfl
    have hall : Answers id (sentOf s.sent id ++ first :: rest) := by
      rw [hstands.2, ← (h.known id _ htask).2]
      exact hanswers
    exact ⟨hplain, first, hline, hall⟩

variable {line : List (Nat × Response)}

theorem head_stands (h : Desk s) (htask : s.tasks.get id = some ⟨work, phase⟩)
    {response : Response} (hline : s.line = (id, response) :: line) :
    lineOf line id = [] ∧ ∃ rest, phase = .sending rest ∧ (∀ r ∈ rest, r.Plain) ∧
      Answers id (sentOf s.sent id ++ response :: rest) := by
  have hstands := h.stands id
  have hhead : lineOf s.line id = response :: lineOf line id := by
    rw [hline, ← singleton_append, lineOf_append, lineOf_self]
    rfl
  rw [Channel.Stands, htask, hhead] at hstands
  cases phase with
  | sending rest =>
    obtain ⟨hplain, first, hfirst, hanswers⟩ := hstands
    obtain ⟨rfl, hnil⟩ := List.cons.inj hfirst
    exact ⟨hnil, rest, rfl, hplain, hanswers⟩
  | running | spawning | writing | reading | done | raised => cases hstands.1

theorem lineOf_tail {response : Response} (hline : s.line = (id, response) :: line) {other : Nat}
    (hother : other ≠ id) : lineOf line other = lineOf s.line other := by
  rw [hline, ← singleton_append, lineOf_append, lineOf_other hother]
  rfl

theorem leave_eq (t : Channel) : t.leave work =
    { t with fileRequest := if work.isFile then none else t.fileRequest } := by
  unfold Channel.leave
  split <;> rfl

theorem raises (h : Desk s)
    (htask : s.tasks.get id = some ⟨work, phase⟩) (hactive : phase.active = true)
    (hline : phase.working = true ∧ line = s.line ∨ ∃ response, s.line = (id, response) :: line)
    (hlive : live.length ≤ s.live.length) :
    Desk ({ s with slots := slots, live := live, line := line }.raises id work) := by
  rw [Channel.raises, leave_eq]
  have hnil : lineOf line id = [] := by
    rcases hline with ⟨hworking, rfl⟩ | ⟨response, hline⟩
    · have hstands := h.stands id
      rw [Channel.Stands, htask, standing_working hworking] at hstands
      exact hstands.1
    · exact (h.head_stands htask hline).1
  refine h.rephase htask rfl hactive rfl rfl rfl ?_ (Nat.le_trans hlive h.live)
    (subset_append_left _ _) (fun other hother => ?_) (fun _ _ => rfl)
    ⟨hnil, mem_append_right _ (mem_singleton_self id)⟩
  · show (if work.isFile then none else s.fileRequest) = s.fileRequest ∨ _
    cases hisFile : work.isFile with
    | true => exact .inr ⟨rfl, rfl⟩
    | false => exact .inl rfl
  · show lineOf line other = lineOf s.line other
    rcases hline with ⟨-, rfl⟩ | ⟨response, hline⟩
    · rfl
    · exact lineOf_tail hline hother

theorem transmit (h : Desk s) (hsend : s.transmit = some s') : Desk s' := by
  unfold Channel.transmit at hsend
  split at hsend
  next => cases hsend
  next id response line hline =>
    have hsent : ∀ {rest}, Answers id (sentOf s.sent id ++ response :: rest) →
        sentOf (s.sent ++ [response]) id = sentOf s.sent id ++ [response] ∧
          ∀ other, other ≠ id → sentOf (s.sent ++ [response]) other = sentOf s.sent other := by
      rintro rest ⟨parts, last, heq, hparts, hlast, -⟩
      have hmem : response ∈ parts ++ [last] := by
        rw [← heq]
        exact mem_append_right _ mem_cons_self
      have hid : response.id = id := by
        rcases mem_append.mp hmem with hmem | hmem
        · exact (hparts response hmem).1
        · rw [mem_singleton.mp hmem]
          exact hlast
      refine ⟨by rw [sentOf_append, sentOf_self hid], fun other hother => ?_⟩
      rw [sentOf_append, sentOf_other fun heq => hother (heq.symm.trans hid), append_nil]
    split at hsend
    next work next rest htask =>
      cases hsend
      obtain ⟨hnil, rest', hphase, hplain, hanswers⟩ := h.head_stands htask hline
      obtain rfl := Phase.sending.inj hphase
      obtain ⟨hself, hothers⟩ := hsent hanswers
      refine h.rephase htask rfl rfl rfl rfl rfl (.inl rfl) h.live (List.Subset.refl _)
        (fun other hother => ?_) hothers
        ⟨fun r hr => hplain r (mem_cons_of_mem _ hr), next, ?_, ?_⟩
      · show lineOf (line ++ [(id, next)]) other = lineOf s.line other
        rw [lineOf_append, lineOf_other hother, append_nil, lineOf_tail hline hother]
      · show lineOf (line ++ [(id, next)]) id = [next]
        rw [lineOf_append, hnil, lineOf_self]
        rfl
      · show Answers id (sentOf (s.sent ++ [response]) id ++ next :: rest)
        rw [hself, append_assoc, singleton_append]
        exact hanswers
    next work htask =>
      cases hsend
      obtain ⟨hnil, rest', hphase, -, hanswers⟩ := h.head_stands htask hline
      obtain rfl := Phase.sending.inj hphase
      obtain ⟨hself, hothers⟩ := hsent hanswers
      rw [leave_eq]
      refine h.rephase htask rfl rfl rfl rfl rfl ?_ h.live (List.Subset.refl _)
        (fun other hother => lineOf_tail hline hother) hothers ⟨hnil, ?_⟩
      · show (if work.isFile then none else s.fileRequest) = s.fileRequest ∨ _
        cases hisFile : work.isFile with
        | true => exact .inr ⟨rfl, rfl⟩
        | false => exact .inl rfl
      · show Answers id (sentOf (s.sent ++ [response]) id)
        rw [hself]
        exact hanswers
    next => cases hsend

theorem erase (h : Desk s) (htask : s.tasks.get id = some ⟨work, phase⟩)
    (hover : phase = .done ∨ phase = .raised) {failed : Bool} :
    Desk { s with tasks := s.tasks.erase id, failed := failed } := by
  have hget : ∀ other, (s.tasks.erase id).get other =
      if other = id then none else s.tasks.get other := fun other => Dict.get_erase _ _ _
  have hkept : ∀ {other task}, (s.tasks.erase id).get other = some task →
      s.tasks.get other = some task := by
    intro other task hother
    rw [hget] at hother
    split at hother
    next => cases hother
    next => exact hother
  refine ⟨h.positive, h.accepted, Dict.nodup_keys_erase h.keys _,
    fun other task hother => h.known other task (hkept hother), fun other hother => ?_, ?_, ?_,
    h.live, fun other => ?_⟩
  · obtain ⟨hknown, hnone⟩ := h.uploading other hother
    refine ⟨hknown, ?_⟩
    show (s.tasks.erase id).get other = none
    rw [hget, hnone, ite_self]
  · have hbounded := h.bounded
    have hlength := (Dict.erase_sublist s.tasks id).length_le
    simp only [Channel.pending] at hbounded ⊢
    omega
  · rintro other (hupload | ⟨task, hother, hfile⟩)
    · exact h.exchange other (.inl hupload)
    · exact h.exchange other (.inr ⟨task, hkept hother, hfile⟩)
  · by_cases heq : other = id
    · subst heq
      have hstands := h.stands other
      rw [Channel.Stands, htask] at hstands
      have hstarted := h.not_unstarted htask
      show Standing other ((s.tasks.erase other).get other) _ _ _ _
      rw [hget, if_pos rfl]
      rcases hover with rfl | rfl
      · exact ⟨hstands.1, fun hun => absurd hun hstarted, fun _ => .inr hstands.2⟩
      · exact ⟨hstands.1, fun hun => absurd hun hstarted, fun _ => .inl hstands.2⟩
    · refine (h.stands other).other ?_ Iff.rfl (fun hmem => hmem) rfl rfl
      show (s.tasks.erase id).get other = s.tasks.get other
      rw [hget, if_neg heq]

theorem reap (h : Desk s) (hreap : s.reap id = some s') : Desk s' := by
  unfold Channel.reap at hreap
  split at hreap
  next htask =>
    cases hreap
    exact h.erase htask (.inl rfl)
  next htask =>
    cases hreap
    exact h.erase htask (.inr rfl)
  next => cases hreap

end Moves

section Accepting

theorem range_accept (h : Desk s) : s.accept.accepted = List.range' 1 (s.accept.number - 1) := by
  have hpositive := h.positive
  have hnumber : s.number - 1 + 1 = s.number := by omega
  show s.accepted ++ [s.number] = List.range' 1 (s.number + 1 - 1)
  rw [h.accepted, Nat.add_sub_cancel, ← hnumber, range'_concat, hnumber]
  congr 2
  omega

theorem mem_accept {id : Nat} (hother : id ≠ s.number) :
    id ∈ s.accept.accepted ↔ id ∈ s.accepted := by
  simp [Channel.accept, hother]

theorem number_fresh (h : Desk s) : lineOf s.line s.number = [] ∧ sentOf s.sent s.number = [] ∧
    s.uploadId ≠ some s.number := by
  have hstands := h.stands s.number
  rw [Channel.Stands, h.get_number] at hstands
  exact ⟨hstands.1, hstands.2.1 (.inl h.not_mem_number),
    fun hupload => h.not_mem_number (h.uploading _ hupload).1⟩

theorem uploadId_eq_none (h : Desk s) (hfile : s.fileRequest = none) : s.uploadId = none := by
  cases hupload : s.uploadId with
  | none => rfl
  | some id =>
    have hid := h.exchange id (.inl hupload)
    rw [hfile] at hid
    cases hid

theorem accept_task (h : Desk s) {work : Work} {fileRequest : Option Nat}
    (hroom : s.pending < maxPending) (hid : work.id = s.number)
    (hfile : s.fileRequest = none ∧ fileRequest = some s.number ∨
      work.isFile = false ∧ fileRequest = s.fileRequest) :
    Desk ({ s.accept with fileRequest := fileRequest }.startTask s.number work) := by
  obtain ⟨hline, hsent, hupload⟩ := h.number_fresh
  have hget : ∀ id, (s.tasks.set s.number ⟨work, .running⟩).get id =
      if id = s.number then some ⟨work, .running⟩ else s.tasks.get id := fun id => Dict.get_set _ _ _ _
  have hmem : s.number ∈ s.accept.accepted :=
    mem_append_right _ (mem_singleton_self _)
  refine ⟨Nat.le_succ_of_le h.positive, h.range_accept, Dict.nodup_keys_set h.keys _ _,
    fun id task htask => ?_, fun id hid => ?_, ?_, fun id hexchange => ?_, h.live, fun id => ?_⟩
  · change (s.tasks.set s.number ⟨work, .running⟩).get id = some task at htask
    show id ∈ s.accept.accepted ∧ _
    rw [hget] at htask
    split at htask
    next heq =>
      cases htask
      rw [heq]
      exact ⟨hmem, hid⟩
    next hother =>
      rw [mem_accept hother]
      exact h.known id task htask
  · obtain ⟨hknown, hnone⟩ := h.uploading id hid
    have hother : id ≠ s.number := fun heq => hupload (heq ▸ hid)
    refine ⟨(mem_accept hother).mpr hknown, ?_⟩
    show (s.tasks.set s.number ⟨work, .running⟩).get id = none
    rw [hget, if_neg hother, hnone]
  · have hlength : (s.tasks.set s.number ⟨work, .running⟩).length ≤ s.tasks.length + 1 := by
      rw [Dict.length_set]
      split <;> omega
    simp only [Channel.pending] at hroom
    show (s.tasks.set s.number ⟨work, .running⟩).length + (if s.upload.isSome then 1 else 0) ≤ _
    omega
  · show fileRequest = some id
    have hcases : id = s.number ∧ work.isFile = true ∨ s.Exchanges id := by
      rcases hexchange with hid | ⟨task, htask, hisFile, hactive⟩
      · exact .inr (.inl hid)
      · change (s.tasks.set s.number ⟨work, .running⟩).get id = some task at htask
        rw [hget] at htask
        split at htask
        next heq =>
          cases htask
          exact .inl ⟨heq, hisFile⟩
        next => exact .inr (.inr ⟨task, htask, hisFile, hactive⟩)
    rcases hcases with ⟨rfl, hisFile⟩ | hold
    · rcases hfile with ⟨-, hfile⟩ | ⟨hnot, -⟩
      · exact hfile
      · rw [hisFile] at hnot
        cases hnot
    · have hold := h.exchange id hold
      rcases hfile with ⟨hnone, -⟩ | ⟨-, rfl⟩
      · rw [hnone] at hold
        cases hold
      · exact hold
  · by_cases heq : id = s.number
    · subst heq
      show Standing s.number ((s.tasks.set s.number ⟨work, .running⟩).get s.number) _ _ _ _
      rw [hget, if_pos rfl]
      exact ⟨hline, hsent⟩
    · refine (h.stands id).other ?_ ?_ (fun hmem => hmem) rfl rfl
      · show (s.tasks.set s.number ⟨work, .running⟩).get id = s.tasks.get id
        rw [hget, if_neg heq]
      · show (id ∉ s.accept.accepted ∨ s.uploadId = some id) ↔ s.Unstarted id
        rw [mem_accept heq, Channel.Unstarted]

theorem accept_write (h : Desk s) {upload : Upload} (hroom : s.pending < maxPending)
    (hid : upload.request.id = s.number) (hfile : s.fileRequest = none) :
    Desk { s.accept with fileRequest := some s.number, upload := some upload } := by
  obtain ⟨hline, hsent, -⟩ := h.number_fresh
  have hnone := h.uploadId_eq_none hfile
  have huploadId : ∀ id, (some upload.request.id = some id) ↔ id = s.number := fun id => by
    rw [hid, Option.some.injEq, eq_comm]
  refine ⟨Nat.le_succ_of_le h.positive, h.range_accept, h.keys, fun id task htask => ?_,
    fun id hupload => ?_, ?_, fun id hexchange => ?_, h.live, fun id => ?_⟩
  · obtain ⟨hknown, hwork⟩ := h.known id task htask
    exact ⟨mem_append_left _ hknown, hwork⟩
  · obtain rfl := (huploadId id).mp hupload
    exact ⟨mem_append_right _ (mem_singleton_self _), h.get_number⟩
  · simp only [Channel.pending] at hroom
    show s.tasks.length + 1 ≤ maxPending
    omega
  · rcases hexchange with hupload | htask
    · rw [(huploadId id).mp hupload]
    · have hold := h.exchange id (.inr htask)
      rw [hfile] at hold
      cases hold
  · by_cases heq : id = s.number
    · subst heq
      show Standing s.number (s.tasks.get s.number) _ _ _ _
      rw [h.get_number]
      exact ⟨hline, fun _ => hsent, fun hstarted => absurd (.inr ((huploadId _).mpr rfl)) hstarted⟩
    · refine (h.stands id).other rfl ?_ (fun hmem => hmem) rfl rfl
      show (id ∉ s.accept.accepted ∨ some upload.request.id = some id) ↔ s.Unstarted id
      rw [mem_accept heq, Channel.Unstarted, huploadId, hnone]
      simp [heq]

theorem start_write (h : Desk s) {upload : Upload} (hupload : s.upload = some upload)
    (data : Bytes) : Desk (s.startWrite upload.request data) := by
  have huploadId : s.uploadId = some upload.request.id := by
    rw [Channel.uploadId, hupload]
    rfl
  obtain ⟨hknown, hnone⟩ := h.uploading _ huploadId
  have hstands := h.stands upload.request.id
  rw [Channel.Stands, hnone] at hstands
  have hsent := hstands.2.1 (.inr huploadId)
  generalize htask : (⟨upload.request.work data, .running⟩ : Task) = task
  have hget : ∀ id, (s.tasks.set upload.request.id task).get id =
      if id = upload.request.id then some task else s.tasks.get id := fun id => Dict.get_set _ _ _ _
  have hs' : s.startWrite upload.request data =
      { s with
        upload := none
        tasks := s.tasks.set upload.request.id task } := by
    rw [← htask]
    rfl
  rw [hs']
  refine ⟨h.positive, h.accepted, Dict.nodup_keys_set h.keys _ _, fun id found hfound => ?_, nofun,
    ?_, fun id hexchange => ?_, h.live, fun id => ?_⟩
  · change (s.tasks.set upload.request.id task).get id = some found at hfound
    rw [hget] at hfound
    split at hfound
    next heq =>
      cases hfound
      rw [heq, ← htask]
      exact ⟨hknown, rfl⟩
    next => exact h.known id found hfound
  · have hbounded := h.bounded
    rw [Channel.pending, hupload] at hbounded
    show (s.tasks.set upload.request.id task).length + 0 ≤ maxPending
    rw [Dict.length_set]
    simp only [Option.isSome_some, if_true] at hbounded
    split <;> omega
  · have hown := h.exchange _ (.inl huploadId)
    rcases hexchange with hid | ⟨found, hfound, hfile⟩
    · cases hid
    · change (s.tasks.set upload.request.id task).get id = some found at hfound
      rw [hget] at hfound
      split at hfound
      next heq => rw [heq, ← hown]
      next => exact h.exchange id (.inr ⟨found, hfound, hfile⟩)
  · by_cases heq : id = upload.request.id
    · subst heq
      show Standing _ ((s.tasks.set upload.request.id task).get upload.request.id) _ _ _ _
      rw [hget, if_pos rfl, ← htask]
      exact ⟨hstands.1, hsent⟩
    · refine (h.stands id).other ?_ ?_ (fun hmem => hmem) rfl rfl
      · show (s.tasks.set upload.request.id task).get id = s.tasks.get id
        rw [hget, if_neg heq]
      · show (id ∉ s.accepted ∨ none = some id) ↔ s.Unstarted id
        rw [Channel.Unstarted, huploadId, Option.some.injEq]
        simp [Ne.symm heq]

theorem stop (h : Desk s) (text : String) : Desk (s.stop text) := { h with }

/-- **One round of the loop.** -/
theorem round (h : Desk s) {packet : Packet} (hround : Round s packet s') : Desk s' := by
  cases hround with
  | stop _ text => exact h.stop text
  | chunk _ hupload =>
    cases s
    cases hupload
    exact { h with }
  | commit _ hupload => exact h.start_write hupload _
  | write _ hroom hfile hid _ => exact h.accept_write hroom hid hfile
  | start _ hroom hid _ _ hfile => exact h.accept_task hroom hid hfile

end Accepting

theorem step (h : Desk s) {event : Event} (hstep : s.step event = some s') : Desk s' := by
  cases step_move (fun id task htask => (h.known id task htask).2) hstep with
  | packet packet => exact h.round (packet_round s packet)
  | stop text => exact h.stop text
  | works _ htask hworking hworking' hslots => exact h.works htask hworking hworking' hslots
  | replies _ htask hworking hslots _ hanswers hplain =>
    exact h.replies htask hworking hslots hanswers hplain
  | raises _ htask hactive hline hlive => exact h.raises htask hactive hline hlive
  | transmit hsend => exact h.transmit hsend
  | reap hreap => exact h.reap hreap
  | handles _ hslots => exact { h with live := h.live_le hslots }

end Desk

/-- The tasks do the work they did. -/
def Channel.Keeps (s s' : Channel) : Prop :=
  ∀ id work phase', s'.tasks.get id = some ⟨work, phase'⟩ →
    ∃ phase, s.tasks.get id = some ⟨work, phase⟩

theorem Channel.Keeps.set {id : Nat} {work : Work} {phase phase' : Phase}
    (htask : s.tasks.get id = some ⟨work, phase⟩) (h : s'.tasks = s.tasks.set id ⟨work, phase'⟩) :
    s.Keeps s' := by
  intro other found phase'' hfound
  rw [h, Dict.get_set] at hfound
  split at hfound
  next heq =>
    cases hfound
    exact ⟨phase, heq ▸ htask⟩
  next => exact ⟨phase'', hfound⟩

theorem transmit_frame (hsend : s.transmit = some s') : s'.slots = s.slots ∧
    s'.raised = s.raised ∧ s'.upload = s.upload ∧ s'.accepted = s.accepted ∧
      s'.number = s.number ∧ s.Keeps s' := by
  unfold Channel.transmit at hsend
  split at hsend
  next => cases hsend
  next =>
    split at hsend
    next htask =>
      cases hsend
      exact ⟨rfl, rfl, rfl, rfl, rfl, .set htask rfl⟩
    next htask =>
      cases hsend
      rw [Desk.leave_eq]
      exact ⟨rfl, rfl, rfl, rfl, rfl, .set htask rfl⟩
    next => cases hsend

theorem desk_of_run {events : List Event} (h : machine.Run events s) : Desk s := by
  refine h.invariant (I := fun _ s => Desk s) ?_ ?_
  · rintro s rfl
    exact desk_init
  · intro events s event s' _ hdesk hstep
    exact hdesk.step hstep

end FoldGPT.Host
