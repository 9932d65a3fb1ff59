import FoldGPT.Lib.Keyed
import FoldGPT.Lib.Transition
import FoldGPT.Process.Record

/-!
# Reading the retained output

`NativeProcessesBackend._read` answers a `process/read` with the retained chunks
past the caller's cursor, as many as `maxBytes` lets through and at least one,
and the sequence number to go on from. With nothing to say it waits for
`record.changed` and looks again; when the wait times out it returns the answer
it had computed before waiting.

`Session` puts a process and one client together: the owner's events (with the
notification queue of either backend), and a client whose every call passes
`afterSeq = (previous nextSeq) - 1`. Three fields are history and not program
state: the chunks ever produced, the chunks ever returned, and the chunks that
were evicted while the cursor had not passed them.

Main result: `reads_exact`.
-/

namespace FoldGPT.Process

open FoldGPT.Lib List Option

structure Response where
  chunks : List Chunk
  nextSeq : Nat
  exited : Bool
  exitCode : Option Int
  closed : Bool
  failure : Option String
  sandboxDenied : Bool
  deriving DecidableEq, Repr

/-- The loop `for chunk, size in record.output`, with what was collected so far,
its size and the next sequence number. -/
def scan (after : Nat) (maximum : Option Nat) :
    List (Chunk × Nat) → List Chunk → Nat → Nat → List Chunk × Nat
  | [], chunks, _, nextSeq => (chunks, nextSeq)
  | (chunk, size) :: rest, chunks, total, nextSeq =>
    if chunk.seq ≤ after then scan after maximum rest chunks total nextSeq
    else if chunks ≠ [] ∧ maximum.any (fun m => decide (m < total + size)) then (chunks, nextSeq)
    else if maximum.any (fun m => decide (m ≤ total + size)) then
      (chunks ++ [chunk], chunk.seq + 1)
    else scan after maximum rest (chunks ++ [chunk]) (total + size) (chunk.seq + 1)

/-- One look of `_read` at the record. -/
def Record.answer (record : Record) (after : Nat) (maximum : Option Nat) : Response :=
  let (chunks, nextSeq) := scan after maximum record.output [] 0 record.nextSeq
  { chunks
    nextSeq := if maximum.isNone then record.nextSeq else nextSeq
    exited := record.exitCode.isSome
    exitCode := record.exitCode
    closed := record.closed
    failure := record.failure
    sandboxDenied := record.sandboxDenied }

/-- Whether `_read` returns this answer at once: `expired` is `remaining <= 0`. -/
def Response.final (response : Response) (after : Nat) (expired : Bool) : Bool :=
  !response.chunks.isEmpty || response.closed ||
    (response.exited && decide (after < response.nextSeq - 1)) || expired

/-! ### One look -/

/-- The scan takes a prefix of what lies past the cursor, and takes nothing only
if it had something before or nothing lies there. -/
theorem scan_spec (after : Nat) (maximum : Option Nat) :
    ∀ (l : List (Chunk × Nat)) (chunks : List Chunk) (total nextSeq : Nat), ∃ taken left,
      (l.map Prod.fst).filter (fun c => decide (after < c.seq)) = taken ++ left ∧
        scan after maximum l chunks total nextSeq =
          (chunks ++ taken, (taken.getLast?.map (fun c => c.seq + 1)).getD nextSeq) ∧
        (taken = [] → chunks ≠ [] ∨ left = []) ∧ (maximum = none → left = []) := by
  intro l
  induction l with
  | nil =>
    intro chunks total nextSeq
    exact ⟨[], [], rfl, by simp [scan], fun _ => .inr rfl, fun _ => rfl⟩
  | cons e rest ih =>
    intro chunks total nextSeq
    obtain ⟨chunk, size⟩ := e
    by_cases hskip : chunk.seq ≤ after
    · obtain ⟨taken, left, hf, hs, he, hn⟩ := ih chunks total nextSeq
      refine ⟨taken, left, ?_, ?_, he, hn⟩
      · simpa [filter_cons, Nat.not_lt.mpr hskip] using hf
      · rw [scan, if_pos hskip, hs]
    · have hpast : after < chunk.seq := Nat.not_le.mp hskip
      have hcons :
          (((chunk, size) :: rest).map Prod.fst).filter (fun c => decide (after < c.seq)) =
            chunk :: (rest.map Prod.fst).filter (fun c => decide (after < c.seq)) := by
        simp [hpast]
      by_cases hfull : chunks ≠ [] ∧ maximum.any (fun m => decide (m < total + size))
      · refine ⟨[], _, hcons, ?_, fun _ => .inl hfull.1, fun hn => ?_⟩
        · rw [scan, if_neg hskip, if_pos hfull]
          simp
        · rw [hn] at hfull
          simp at hfull
      · by_cases hlast : maximum.any (fun m => decide (m ≤ total + size))
        · refine ⟨[chunk], _, hcons, ?_, by simp, fun hn => ?_⟩
          · rw [scan, if_neg hskip, if_neg hfull, if_pos hlast]
            simp
          · rw [hn] at hlast
            simp at hlast
        · obtain ⟨taken, left, hf, hs, -, hn⟩ :=
            ih (chunks ++ [chunk]) (total + size) (chunk.seq + 1)
          refine ⟨chunk :: taken, left, ?_, ?_, by simp, hn⟩
          · rw [hcons, hf]
            rfl
          · rw [scan, if_neg hskip, if_neg hfull, if_neg hlast, hs]
            cases taken with
            | nil => simp
            | cons c t => simp [List.getLast?_eq_some_getLast]

variable {record : Record} {after : Nat}

/-- **One look returns exactly the retained chunks between the two cursors**, in
order, and moves the cursor past them but not past the next number to be used. -/
theorem Record.answer_spec (hs : record.Sound)
    (hafter : after < record.nextSeq) (maximum : Option Nat) :
    (∀ c, c ∈ (record.answer after maximum).chunks ↔
        c ∈ record.output.map Prod.fst ∧ after < c.seq ∧
          c.seq < (record.answer after maximum).nextSeq) ∧
      Keyed.Increasing Chunk.seq (record.answer after maximum).chunks ∧
      after < (record.answer after maximum).nextSeq ∧
      (record.answer after maximum).nextSeq ≤ record.nextSeq := by
  obtain ⟨taken, left, hf, hscan, hempty, hall⟩ :=
    scan_spec after maximum record.output [] 0 record.nextSeq
  have hchunks : (record.answer after maximum).chunks = taken := by
    simp [Record.answer, hscan]
  have hissued : ∀ c ∈ taken ++ left, after < c.seq ∧ c.seq < record.nextSeq ∧
      c ∈ record.output.map Prod.fst := by
    intro c hc
    rw [← hf, mem_filter] at hc
    obtain ⟨⟨d, n⟩, he, rfl⟩ := List.mem_map.mp hc.1
    exact ⟨by simpa using hc.2, hs.issued _ he, hc.1⟩
  have hsorted : Keyed.Increasing Chunk.seq (taken ++ left) := by
    rw [← hf]
    exact List.Pairwise.filter _ (pairwise_map.mpr hs.increasing)
  have hbefore : ∀ c ∈ taken, ∀ d ∈ left, c.seq < d.seq :=
    (pairwise_append.mp hsorted).2.2
  have hnext : (record.answer after maximum).nextSeq =
      if maximum.isNone then record.nextSeq
      else (taken.getLast?.map (fun c => c.seq + 1)).getD record.nextSeq := by
    simp [Record.answer, hscan]
  -- the new cursor separates what was taken from what was left
  have hcut : (∀ c ∈ taken, c.seq < (record.answer after maximum).nextSeq) ∧
      (∀ d ∈ left, (record.answer after maximum).nextSeq ≤ d.seq) ∧
      after < (record.answer after maximum).nextSeq ∧
      (record.answer after maximum).nextSeq ≤ record.nextSeq := by
    rw [hnext]
    cases maximum with
    | none =>
      rw [hall rfl] at hissued ⊢
      exact ⟨fun c hc => (hissued c (by simpa using hc)).2.1, by simp, hafter, le_refl _⟩
    | some m =>
      simp only [isNone_some, Bool.false_eq_true, if_false]
      rcases eq_nil_or_concat taken with rfl | ⟨init, last, rfl⟩
      · have hleft : left = [] := by
          rcases hempty rfl with h | h
          · exact absurd rfl h
          · exact h
        rw [hleft]
        exact ⟨by simp, by simp, hafter, le_refl _⟩
      · simp only [concat_eq_append] at *
        have hlast := hissued last (by simp)
        simp only [List.getLast?_append, List.getLast?_singleton, some_or, map_some,
          getD_some]
        refine ⟨fun c hc => ?_, fun d hd => ?_, by omega, by omega⟩
        · rcases mem_append.mp hc with hc | hc
          · have := (pairwise_append.mp
              (pairwise_append.mp hsorted).1).2.2 c hc last (by simp)
            omega
          · rw [mem_singleton.mp hc]
            exact Nat.lt_succ_self _
        · exact hbefore last (by simp) d hd
  refine ⟨fun c => ?_, ?_, hcut.2.2.1, hcut.2.2.2⟩
  · rw [hchunks]
    constructor
    · intro hc
      have := hissued c (mem_append_left _ hc)
      exact ⟨this.2.2, this.1, hcut.1 c hc⟩
    · rintro ⟨hmem, hpast, hbelow⟩
      have : c ∈ taken ++ left := by
        rw [← hf, mem_filter]
        exact ⟨hmem, by simpa using hpast⟩
      rcases mem_append.mp this with hc | hc
      · exact hc
      · exact absurd hbelow (Nat.not_lt.mpr (hcut.2.1 c hc))
  · rw [hchunks]
    exact (pairwise_append.mp hsorted).1

/-! ### A process and its client -/

/-- What happens to a process between reads, in the order the backend does it.
The payload of an output event is the base64 text of the bytes read. -/
inductive Event
  | output (stream : StreamName) (data : List UInt8)
  | exited
  | closed
  deriving DecidableEq, Repr

/-- The payload published for an event; an exit is published with its code set. -/
def Event.payload (record : Record) : Event → Option Payload
  | .output stream data => some (.output stream (Base64.encode data))
  | .exited => record.exitCode.map (fun code => .exited code false)
  | .closed => if record.closed then some .closed else none

inductive Backend
  | native
  | direct
  deriving DecidableEq, Repr

inductive Reader
  | idle
  | waiting (after : Nat) (maximum : Option Nat) (response : Response)
  deriving DecidableEq, Repr

structure Session where
  record : Record := {}
  /-- The event that holds `event_lock` while the queue is full. -/
  blocked : Option Notification := none
  transportClosed : Bool := false
  changed : Bool := false
  reader : Reader := .idle
  /-- The `nextSeq` of the client's last answer. -/
  cursor : Nat := 1
  produced : List Chunk := []
  returned : List Chunk := []
  missed : List Chunk := []

inductive Act
  | started
  | leaderExit (code : Int)
  | failed (message : String)
  | complete (closed : Bool)
  | publish (event : Event)
  | deliver
  | put
  | giveUp
  | transportLost (error : Bool)
  | terminate
  | read (maximum : Option Nat) (expired : Bool)
  | wake (expired : Bool)
  | timeout
  deriving DecidableEq, Repr

/-- The chunks of `before` at or past the cursor that `after` no longer has. -/
def lost (cursor : Nat) (before after : List Chunk) : List Chunk :=
  before.filter fun c => decide (cursor ≤ c.seq) && !after.contains c

/-- The session after an event left `record` behind. -/
def Session.published (s : Session) (payload : Payload) (record : Record)
    (blocked : Option Notification) : Session :=
  let chunks := newChunks s.record.nextSeq payload
  { s with
    record, blocked, changed := true
    produced := s.produced ++ chunks
    missed := s.missed ++
      lost s.cursor (s.record.output.map Prod.fst ++ chunks) (record.output.map Prod.fst) }

/-- The call returns `response` to the client. -/
def Session.finish (s : Session) (response : Response) : Session :=
  { s with
    reader := .idle
    cursor := response.nextSeq
    returned := s.returned ++ response.chunks }

/-- One turn of the loop in `_read`, up to its return or its wait. -/
def Session.look (s : Session) (after : Nat) (maximum : Option Nat) (expired : Bool) : Session :=
  let response := s.record.answer after maximum
  let s := { s with changed := false }
  if response.final after expired then s.finish response
  else { s with reader := .waiting after maximum response }

def Session.step (backend : Backend) (s : Session) : Act → Option Session
  | .started => some { s with record := { s.record with state := .running } }
  | .leaderExit code =>
    if s.record.exitCode.isNone then
      some { s with record := { s.record with exitCode := some code } }
    else none
  | .failed message => some { s with record := { s.record with failure := some message } }
  | .complete closed =>
    some { s with record := { s.record with state := .complete, closed }, changed := true }
  | .publish event => do
    let payload ← event.payload s.record
    match backend with
    | .native => do
      let record ← s.record.event payload
      some (s.published payload record none)
    | .direct =>
      if s.blocked.isSome then none
      else do
        let (record, blocked) ← s.record.eventAsync s.transportClosed payload
        some (s.published payload record blocked)
  | .deliver =>
    match s.record.notifications with
    | [] => none
    | _ :: rest => some { s with record := { s.record with notifications := rest } }
  | .put =>
    match s.blocked with
    | none => none
    | some params =>
      if s.record.notifications.length < NOTIFICATION_CAPACITY then
        some { s with
          record := { s.record with notifications := s.record.notifications ++ [params] }
          blocked := none }
      else none
  | .giveUp =>
    if s.blocked.isSome ∧ (s.transportClosed ∨ s.record.terminationRequested) then
      some { s with blocked := none }
    else none
  | .transportLost error =>
    let failed : Record :=
      if error then { s.record with failure := some "Process notification transport failed" }.terminate
      else s.record
    match backend with
    | .native => some { s with record := failed }
    | .direct =>
      some { s with
        record := if failed.closed then failed else failed.terminate
        transportClosed := true }
  | .terminate => some { s with record := s.record.terminate }
  | .read maximum expired =>
    if s.reader ≠ .idle then none
    -- "Process is starting"
    else if s.record.state = .starting then some s
    else some (s.look (s.cursor - 1) maximum expired)
  | .wake expired =>
    match s.reader with
    | .idle => none
    | .waiting after maximum _ => if s.changed then some (s.look after maximum expired) else none
  | .timeout =>
    match s.reader with
    | .idle => none
    | .waiting _ _ response => some (s.finish response)

/-- A process with one client that always passes its previous `nextSeq - 1`. -/
def reading (backend : Backend) : LTS Session Act :=
  .ofFun (fun s => s = {}) (Session.step backend)

/-! ### What one step keeps -/

/-- The two records keep the same output under the same accounting. -/
structure Record.SameOutput (record record' : Record) : Prop where
  output : record'.output = record.output
  retainedBytes : record'.retainedBytes = record.retainedBytes
  nextSeq : record'.nextSeq = record.nextSeq

variable {record' : Record}

theorem Record.Sound.congr (hs : record.Sound) (h : record.SameOutput record') : record'.Sound where
  total := by rw [h.retainedBytes, h.output]; exact hs.total
  bytes := by rw [h.retainedBytes]; exact hs.bytes
  count := by rw [h.output]; exact hs.count
  sized := by rw [h.output]; exact hs.sized
  increasing := by rw [h.output]; exact hs.increasing
  issued := by rw [h.output, h.nextSeq]; exact hs.issued

variable {payload : Payload}

theorem Record.event_spec (h : record.event payload = some record') :
    ∃ kept params, record.retain payload = some (kept, params) ∧ kept.SameOutput record' := by
  simp only [Record.event, bind_eq_bind, bind_eq_some_iff, Prod.exists] at h
  obtain ⟨kept, params, hkept, h⟩ := h
  refine ⟨kept, params, hkept, ?_⟩
  split at h
  · cases h
    exact ⟨rfl, rfl, rfl⟩
  · cases h
    exact ⟨rfl, rfl, rfl⟩

theorem Record.eventAsync_spec {transportClosed : Bool} {blocked : Option Notification}
    (h : record.eventAsync transportClosed payload = some (record', blocked)) :
    ∃ kept params, record.retain payload = some (kept, params) ∧ kept.SameOutput record' := by
  simp only [Record.eventAsync, bind_eq_bind, bind_eq_some_iff, Prod.exists] at h
  obtain ⟨kept, params, hkept, h⟩ := h
  refine ⟨kept, params, hkept, ?_⟩
  split at h
  · obtain ⟨rfl, -⟩ := Prod.mk.inj (Option.some.inj h)
    exact ⟨rfl, rfl, rfl⟩
  · split at h
    · obtain ⟨rfl, -⟩ := Prod.mk.inj (Option.some.inj h)
      exact ⟨rfl, rfl, rfl⟩
    · split at h
      · obtain ⟨rfl, -⟩ := Prod.mk.inj (Option.some.inj h)
        exact ⟨rfl, rfl, rfl⟩
      · obtain ⟨rfl, -⟩ := Prod.mk.inj (Option.some.inj h)
        exact ⟨rfl, rfl, rfl⟩

/-- `response` is what a client at the cursor is owed up to the response's own
`nextSeq`: the chunks in between, less those already missed. -/
structure Session.Owes (s : Session) (response : Response) : Prop where
  mem : ∀ c, c ∈ response.chunks ↔
    c ∈ s.produced ∧ s.cursor ≤ c.seq ∧ c.seq < response.nextSeq ∧ c ∉ s.missed
  increasing : Keyed.Increasing Chunk.seq response.chunks
  from_cursor : s.cursor ≤ response.nextSeq
  issued : response.nextSeq ≤ s.record.nextSeq

/-- The invariant of a session. -/
structure Session.Inv (s : Session) : Prop where
  sound : s.record.Sound
  increasing : Keyed.Increasing Chunk.seq s.produced
  issued : ∀ c ∈ s.produced, c.seq < s.record.nextSeq
  retained : ∀ c ∈ s.record.output.map Prod.fst, c ∈ s.produced
  gone : ∀ c ∈ s.produced, c ∉ s.record.output.map Prod.fst → s.cursor ≤ c.seq → c ∈ s.missed
  missed : ∀ c ∈ s.missed, c ∉ s.record.output.map Prod.fst ∧ c ∈ s.produced
  started : 1 ≤ s.cursor
  reached : s.cursor ≤ s.record.nextSeq
  returned : s.returned =
    s.produced.filter fun c => decide (c.seq < s.cursor) && decide (c ∉ s.missed)
  waiting : ∀ after maximum response, s.reader = .waiting after maximum response →
    after + 1 = s.cursor ∧ response.chunks = [] ∧ s.Owes response

variable {s : Session}

/-- A step that touches neither the retained output, the client nor the history. -/
theorem Session.Inv.frame {s' : Session} (hi : s.Inv) (hrec : s.record.SameOutput s'.record)
    (hreader : s'.reader = s.reader) (hcursor : s'.cursor = s.cursor)
    (hproduced : s'.produced = s.produced) (hreturned : s'.returned = s.returned)
    (hmissed : s'.missed = s.missed) : s'.Inv where
  sound := hi.sound.congr hrec
  increasing := by rw [hproduced]; exact hi.increasing
  issued := by rw [hproduced, hrec.nextSeq]; exact hi.issued
  retained := by rw [hproduced, hrec.output]; exact hi.retained
  gone := by rw [hproduced, hrec.output, hcursor, hmissed]; exact hi.gone
  missed := by rw [hproduced, hrec.output, hmissed]; exact hi.missed
  started := by rw [hcursor]; exact hi.started
  reached := by rw [hcursor, hrec.nextSeq]; exact hi.reached
  returned := by rw [hreturned, hproduced, hcursor, hmissed]; exact hi.returned
  waiting := by
    intro after maximum response hw
    rw [hreader] at hw
    obtain ⟨hafter, hnil, howes⟩ := hi.waiting after maximum response hw
    refine ⟨by rw [hcursor]; exact hafter, hnil, ?_⟩
    exact
      { mem := by rw [hproduced, hcursor, hmissed]; exact howes.mem
        increasing := howes.increasing
        from_cursor := by rw [hcursor]; exact howes.from_cursor
        issued := by rw [hrec.nextSeq]; exact howes.issued }

/-- **Returning what is owed keeps the invariant.** -/
theorem Session.Inv.finish (hi : s.Inv) {response : Response}
    (howes : s.Owes response) : (s.finish response).Inv where
  __ := hi
  gone := fun c hc hgone hle => hi.gone c hc hgone (le_trans howes.from_cursor hle)
  started := le_trans hi.started howes.from_cursor
  reached := howes.issued
  returned := by
    have hbetween : response.chunks = s.produced.filter fun c =>
        decide (s.cursor ≤ c.seq) && (decide (c.seq < response.nextSeq) &&
          decide (c ∉ s.missed)) := by
      refine Keyed.eq_of_mem_iff howes.increasing (hi.increasing.filter _) fun c => ?_
      rw [howes.mem, mem_filter]
      simp
    show s.returned ++ response.chunks = s.produced.filter fun c =>
      decide (c.seq < response.nextSeq) && decide (c ∉ s.missed)
    rw [Keyed.filter_lt_split hi.increasing _ howes.from_cursor, ← hi.returned, ← hbetween]
  waiting := by
    intro after maximum answer hw
    cases hw

theorem Session.Inv.owes_answer (hi : s.Inv)
    (hafter : after + 1 = s.cursor) (maximum : Option Nat) :
    s.Owes (s.record.answer after maximum) := by
  have hlt : after < s.record.nextSeq := by
    have := hi.reached
    omega
  obtain ⟨hmem, hinc, hfrom, hissued⟩ := Record.answer_spec hi.sound hlt maximum
  refine ⟨fun c => ?_, hinc, by omega, hissued⟩
  rw [hmem]
  constructor
  · rintro ⟨hc, hpast, hbelow⟩
    exact ⟨hi.retained c hc, by omega, hbelow, fun hm => (hi.missed c hm).1 hc⟩
  · rintro ⟨hc, hpast, hbelow, hm⟩
    refine ⟨?_, by omega, hbelow⟩
    by_contra hgone
    exact hm (hi.gone c hc hgone hpast)

theorem Session.Inv.look (hi : s.Inv) (hafter : after + 1 = s.cursor) (maximum : Option Nat)
    (expired : Bool) : (s.look after maximum expired).Inv := by
  have howes := hi.owes_answer hafter maximum
  have hclear : ({ s with changed := false } : Session).Inv :=
    hi.frame ⟨rfl, rfl, rfl⟩ rfl rfl rfl rfl rfl
  unfold Session.look
  by_cases hfinal : (s.record.answer after maximum).final after expired = true
  · rw [if_pos hfinal]
    exact hclear.finish ⟨howes.mem, howes.increasing, howes.from_cursor, howes.issued⟩
  · rw [if_neg hfinal]
    have hnil : (s.record.answer after maximum).chunks = [] := by
      simp only [Response.final, Bool.or_eq_true, not_or, Bool.not_eq_true] at hfinal
      simpa using hfinal.1.1.1
    refine ⟨hi.sound, hi.increasing, hi.issued, hi.retained, hi.gone, hi.missed, hi.started,
      hi.reached, hi.returned, ?_⟩
    intro after' maximum' response' hw
    cases hw
    exact ⟨hafter, hnil, howes.mem, howes.increasing, howes.from_cursor, howes.issued⟩

theorem mem_lost {cursor : Nat} {before after : List Chunk} {c : Chunk} :
    c ∈ lost cursor before after ↔ c ∈ before ∧ cursor ≤ c.seq ∧ c ∉ after := by
  simp [lost]

theorem seq_of_mem_newChunks {seq : Nat} {c : Chunk}
    (h : c ∈ newChunks seq payload) : c.seq = seq := by
  cases payload with
  | output stream chunk => rw [mem_singleton.mp h]
  | exited code denied => cases h
  | closed => cases h

theorem increasing_newChunks (seq : Nat) (payload : Payload) :
    Keyed.Increasing Chunk.seq (newChunks seq payload) := by
  cases payload with
  | output stream chunk => exact pairwise_singleton _ _
  | exited code denied => exact List.Pairwise.nil
  | closed => exact List.Pairwise.nil

/-- **An event keeps the invariant**: its chunk lies past every cursor, and what
it evicts unread becomes missed. -/
theorem Session.Inv.published (hi : s.Inv) {kept : Record} {params : Notification}
    {blocked : Option Notification} (hkept : s.record.retain payload = some (kept, params))
    (hsame : kept.SameOutput record) : (s.published payload record blocked).Inv := by
  obtain ⟨hsound, hnext, dropped, hdropped⟩ := Record.retain_spec hi.sound hkept
  rw [← hsame.output] at hdropped
  have hnext' : record.nextSeq = s.record.nextSeq + 1 := by rw [hsame.nextSeq, hnext]
  have hnew : ∀ c ∈ newChunks s.record.nextSeq payload, c.seq = s.record.nextSeq :=
    fun c hc => seq_of_mem_newChunks hc
  have hold : ∀ c ∈ record.output.map Prod.fst, c ∈ s.record.output.map Prod.fst ∨
      c ∈ newChunks s.record.nextSeq payload := by
    intro c hc
    rw [← mem_append, hdropped]
    exact mem_append_right _ hc
  -- a chunk already produced and not retained before is not retained now
  have hstay : ∀ c ∈ s.produced, c ∉ s.record.output.map Prod.fst →
      c ∉ record.output.map Prod.fst := by
    intro c hc hnot hmem
    rcases hold c hmem with h | h
    · exact hnot h
    · have := hi.issued c hc
      rw [hnew c h] at this
      exact Nat.lt_irrefl _ this
  have hunseen : ∀ c ∈ newChunks s.record.nextSeq payload, ¬ c.seq < s.cursor := by
    intro c hc
    have := hi.reached
    rw [hnew c hc]
    omega
  have hmissed : ∀ c ∈ (s.published payload record blocked).missed,
      c.seq < s.cursor → c ∈ s.missed := by
    intro c hm hlt
    rcases mem_append.mp hm with h | h
    · exact h
    · have := (mem_lost.mp h).2.1
      omega
  exact
    { sound := hsound.congr hsame
      increasing := by
        refine pairwise_append.mpr ⟨hi.increasing, increasing_newChunks _ _, ?_⟩
        intro a ha b hb
        rw [hnew b hb]
        exact hi.issued a ha
      issued := by
        intro c hc
        rcases mem_append.mp hc with h | h
        · have := hi.issued c h
          show c.seq < record.nextSeq
          omega
        · show c.seq < record.nextSeq
          rw [hnew c h]
          omega
      retained := by
        intro c hc
        rcases hold c hc with h | h
        · exact mem_append_left _ (hi.retained c h)
        · exact mem_append_right _ h
      gone := by
        intro c hc hnot hle
        by_cases hbefore : c ∈ s.record.output.map Prod.fst ++
            newChunks s.record.nextSeq payload
        · exact mem_append_right _ (mem_lost.mpr ⟨hbefore, hle, hnot⟩)
        · rw [mem_append, not_or] at hbefore
          have hprod : c ∈ s.produced := by
            rcases mem_append.mp hc with h | h
            · exact h
            · exact absurd h hbefore.2
          exact mem_append_left _ (hi.gone c hprod hbefore.1 hle)
      missed := by
        intro c hc
        rcases mem_append.mp hc with h | h
        · have := hi.missed c h
          exact ⟨hstay c this.2 this.1, mem_append_left _ this.2⟩
        · obtain ⟨hbefore, -, hnot⟩ := mem_lost.mp h
          refine ⟨hnot, ?_⟩
          rcases mem_append.mp hbefore with h | h
          · exact mem_append_left _ (hi.retained c h)
          · exact mem_append_right _ h
      started := hi.started
      reached := by
        have := hi.reached
        show s.cursor ≤ record.nextSeq
        omega
      returned := by
        have hnone : (newChunks s.record.nextSeq payload).filter (fun c =>
            decide (c.seq < s.cursor) && decide (c ∉ (s.published payload record blocked).missed))
              = [] := by
          rw [filter_eq_nil_iff]
          intro c hc
          simp [hunseen c hc]
        have hkeep : s.produced.filter
              (fun c => decide (c.seq < s.cursor) && decide (c ∉ s.missed)) =
            s.produced.filter (fun c => decide (c.seq < s.cursor) &&
              decide (c ∉ (s.published payload record blocked).missed)) := by
          refine filter_congr fun c hc => ?_
          by_cases hlt : c.seq < s.cursor
          · have : c ∈ s.missed ↔ c ∈ (s.published payload record blocked).missed :=
              ⟨mem_append_left _, fun h => hmissed c h hlt⟩
            simp only [this]
          · simp [hlt]
        calc s.returned = _ := hi.returned
          _ = _ := hkeep
          _ = _ ++ [] := (append_nil _).symm
          _ = _ := by rw [← hnone]; exact (filter_append ..).symm
      waiting := by
        intro after maximum response hw
        obtain ⟨hafter, hnil, howes⟩ := hi.waiting after maximum response hw
        refine ⟨hafter, hnil, fun c => ?_, howes.increasing, howes.from_cursor, ?_⟩
        · rw [howes.mem]
          constructor
          · intro h
            have := (howes.mem c).mpr h
            rw [hnil] at this
            cases this
          · rintro ⟨hc, hle, hlt, hm⟩
            have hprod : c ∈ s.produced := by
              rcases mem_append.mp hc with h | h
              · exact h
              · have := howes.issued
                rw [hnew c h] at hlt
                omega
            exact ⟨hprod, hle, hlt, fun h => hm (mem_append_left _ h)⟩
        · have := howes.issued
          show response.nextSeq ≤ record.nextSeq
          omega }

/-- **Every step keeps the invariant.** -/
theorem Session.step_inv {backend : Backend} {s' : Session} {act : Act} (hi : s.Inv)
    (h : s.step backend act = some s') : s'.Inv := by
  cases act with
  | started | failed | complete | terminate =>
    cases h
    exact hi.frame ⟨rfl, rfl, rfl⟩ rfl rfl rfl rfl rfl
  | leaderExit | giveUp =>
    obtain ⟨-, heq⟩ := ite_none_right_eq_some.mp h
    cases heq
    exact hi.frame ⟨rfl, rfl, rfl⟩ rfl rfl rfl rfl rfl
  | publish event =>
    simp only [Session.step, bind_eq_bind, bind_eq_some_iff] at h
    obtain ⟨payload, -, h⟩ := h
    cases backend with
    | native =>
      simp only [bind_eq_some_iff] at h
      obtain ⟨record, hev, h⟩ := h
      cases h
      obtain ⟨kept, params, hkept, hsame⟩ := Record.event_spec hev
      exact hi.published hkept hsame
    | direct =>
      simp only at h
      split at h
      · cases h
      · simp only [bind_eq_some_iff, Prod.exists] at h
        obtain ⟨record, blocked, hev, h⟩ := h
        cases h
        obtain ⟨kept, params, hkept, hsame⟩ := Record.eventAsync_spec hev
        exact hi.published hkept hsame
  | deliver =>
    simp only [Session.step] at h
    split at h
    · cases h
    · cases h
      exact hi.frame ⟨rfl, rfl, rfl⟩ rfl rfl rfl rfl rfl
  | put =>
    simp only [Session.step] at h
    split at h
    · cases h
    · obtain ⟨-, heq⟩ := ite_none_right_eq_some.mp h
      cases heq
      exact hi.frame ⟨rfl, rfl, rfl⟩ rfl rfl rfl rfl rfl
  | transportLost error =>
    cases backend with
    | native =>
      cases h
      refine hi.frame ?_ rfl rfl rfl rfl rfl
      cases error <;> exact ⟨rfl, rfl, rfl⟩
    | direct =>
      cases h
      refine hi.frame ?_ rfl rfl rfl rfl rfl
      cases error <;> simp only [Bool.false_eq_true, if_false, if_true] <;> split <;>
        exact ⟨rfl, rfl, rfl⟩
  | read maximum expired =>
    simp only [Session.step] at h
    split at h
    · cases h
    · split at h
      · cases h
        exact hi
      · cases h
        exact hi.look (Nat.sub_add_cancel hi.started) maximum expired
  | wake expired =>
    simp only [Session.step] at h
    split at h
    · cases h
    · rename_i after maximum response hw
      split at h
      · cases h
        exact hi.look (hi.waiting after maximum response hw).1 maximum expired
      · cases h
  | timeout =>
    simp only [Session.step] at h
    split at h
    · cases h
    · rename_i after maximum response hw
      cases h
      exact hi.finish (hi.waiting after maximum response hw).2.2

theorem Session.init_inv : ({} : Session).Inv where
  sound := ⟨rfl, by decide, by decide, by simp, List.Pairwise.nil, by simp⟩
  increasing := List.Pairwise.nil
  issued := by simp
  retained := by simp
  gone := by simp
  missed := by simp
  started := le_refl _
  reached := le_refl _
  returned := rfl
  waiting := by simp

theorem reading_inv {backend : Backend} {acts : List Act}
    (h : (reading backend).Run acts s) : s.Inv :=
  h.invariant (I := fun _ s => s.Inv) (fun _ hs => hs ▸ Session.init_inv)
    fun _ _ _ _ _ hi hst => Session.step_inv hi hst

theorem Record.answer_nil {maximum : Option Nat} (h : (record.answer after maximum).chunks = []) :
    ∀ e ∈ record.output, e.1.seq ≤ after := by
  obtain ⟨taken, left, hf, hscan, hempty, -⟩ :=
    scan_spec after maximum record.output [] 0 record.nextSeq
  have htaken : taken = [] := by simpa [Record.answer, hscan] using h
  have hleft : left = [] := by
    rcases hempty htaken with h | h
    · exact absurd rfl h
    · exact h
  rw [htaken, hleft, append_nil, filter_eq_nil_iff] at hf
  intro e he
  simpa using hf e.1 (List.mem_map_of_mem he)

/-- The bytes of a pipe are always retained: neither the decoding nor an eviction
from an empty deque can fail. -/
theorem Record.retain_output (hs : record.Sound) (stream : StreamName)
    (data : List UInt8) : (record.retain (.output stream (Base64.encode data))).isSome := by
  obtain ⟨dropped, kept, -, hev, -⟩ := evict_spec
    (record.output ++ [(⟨record.nextSeq, stream, Base64.encode data⟩, data.length)])
  rw [totalSize_append, ← hs.total, totalSize_cons, totalSize_nil, Int.add_zero] at hev
  simp [Record.retain, Base64.decode_encode, hev]

/-- **Reading is exact.** In every run of a process of either backend with a
client that always goes on from its last `nextSeq`, the accounting holds and every
output event is retained; the client has been given exactly the chunks below its
cursor, in the order they were produced and once each, except those evicted while
still ahead of it; a retained chunk below the cursor is never among the
exceptions, and one past the cursor makes the next read return a chunk. -/
theorem reads_exact {backend : Backend} {acts : List Act} {s : Session}
    (h : (reading backend).Run acts s) :
    s.record.retainedBytes = totalSize s.record.output ∧
      s.record.retainedBytes ≤ RETAINED_BYTES ∧
      s.record.output.length ≤ RETAINED_CHUNKS ∧
      (∀ e ∈ s.record.output, (Base64.decode e.1.chunk).map List.length = some e.2) ∧
      s.record.output.Pairwise (fun a b => a.1.seq < b.1.seq) ∧
      (∀ stream data, (s.record.retain (.output stream (Base64.encode data))).isSome) ∧
      s.returned.Nodup ∧
      s.returned = s.produced.filter
        (fun c => decide (c.seq < s.cursor) && decide (c ∉ s.missed)) ∧
      (∀ e ∈ s.record.output, e.1.seq < s.cursor → e.1 ∈ s.returned) ∧
      (∀ maximum, (s.record.answer (s.cursor - 1) maximum).chunks = [] →
        ∀ e ∈ s.record.output, e.1.seq < s.cursor) := by
  have hi := reading_inv h
  refine ⟨hi.sound.total, hi.sound.bytes, hi.sound.count, hi.sound.sized, hi.sound.increasing,
    Record.retain_output hi.sound, ?_, hi.returned, fun e he hlt => ?_, fun maximum hnil e he => ?_⟩
  · rw [hi.returned]
    exact (hi.increasing.filter _).nodup
  · have hmem : e.1 ∈ s.record.output.map Prod.fst := List.mem_map_of_mem he
    rw [hi.returned, mem_filter]
    refine ⟨hi.retained _ hmem, ?_⟩
    simp only [Bool.and_eq_true, decide_eq_true_eq]
    exact ⟨hlt, fun hm => (hi.missed _ hm).1 hmem⟩
  · have hle := Record.answer_nil hnil e he
    have := hi.started
    omega

/-- A chunk that is read, one that is not, and bytes that evict both before the next read. -/
def evicting (data : List UInt8) : List Act :=
  [.started, .publish (.output .stdout [104, 105]), .read (some 1) false,
    .publish (.output .stderr [33]), .publish (.output .stdout data), .read none false]

theorem evicting_exec {data : List UInt8} (h : data.length = RETAINED_BYTES) :
    (LTS.exec (Session.step .direct) {} (evicting data)).any fun s =>
      s.returned = [⟨1, .stdout, Base64.encode [104, 105]⟩, ⟨3, .stdout, Base64.encode data⟩] ∧
        s.missed = [⟨2, .stderr, Base64.encode [33]⟩] := by
  -- the steps before `data` are evaluated one by one
  rw [evicting, LTS.exec, show Session.step .direct {} .started = some _ from rfl, Option.bind_some]
  iterate 3 rw [LTS.exec, show Session.step .direct _ _ = some _ from rfl, Option.bind_some]
  simp [LTS.exec, Session.step, Event.payload, Record.eventAsync, Record.retain,
    Base64.decode_encode, evict, h, RETAINED_BYTES, RETAINED_CHUNKS, Session.published,
    Session.look, Session.finish, Record.answer, scan, Response.final, NOTIFICATION_CAPACITY, lost,
    newChunks]

/-- Two reads, with a chunk evicted unread between them. -/
theorem reads_exact_evicting : ∃ s, (reading .direct).Run
    (evicting (List.replicate RETAINED_BYTES 0)) s ∧ s.returned.map Chunk.seq = [1, 3] ∧
      s.missed.map Chunk.seq = [2] ∧ s.returned = s.produced.filter
        (fun c => decide (c.seq < s.cursor) && decide (c ∉ s.missed)) := by
  obtain ⟨s, hs, hreturned, hmissed⟩ := LTS.exists_run_of_exec (A := reading .direct) (fun h => h)
    rfl _ _ (evicting_exec List.length_replicate)
  exact ⟨s, hs, by rw [hreturned]; rfl, by rw [hmissed]; rfl, (reads_exact hs).2.2.2.2.2.2.2.1⟩

end FoldGPT.Process
