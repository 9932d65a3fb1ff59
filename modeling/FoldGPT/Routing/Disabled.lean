import FoldGPT.Routing.Environments
import Mathlib.Data.List.Nodup

/-!
# A thread without environment access

A turn with `environments: []` that succeeds switches a thread off until an
explicit selection succeeds. The router computes the location a request leaves
when the request is sent, from what is recorded then, so a plain turn or a change
of directory sent while such a turn is still unanswered is computed from the
location before it.

`Link` is the router between a client and a server that answers a thread's
requests in the order they were sent, gives fresh ids to new threads and answers
a resume with the id it was asked for. It remembers every request in `history`
under its serial number, and every answer in `answers`.

Main results: `overtaken_reenables`, `disabled_holds`.
-/

namespace FoldGPT.Routing

open FoldGPT.Lib List Option

/-- A forwarded request, with the number of answers received before it was sent. -/
structure Request where
  identifier : PyKey
  pending : Pending
  params : Members
  environments : Json
  answered : Nat

/-- The thread whose requests this one belongs to. -/
def Request.thread (request : Request) : Option PyKey :=
  match request.pending.method with
  | .turnStart | .resume | .fork | .settingsUpdate => request.pending.threadId.key
  | .initializing | .threadStart => none

/-- A turn of the thread that asks for no environment. -/
def Request.Empties (request : Request) (thread : PyKey) : Prop :=
  request.pending.method = .turnStart ∧ request.thread = some thread ∧
    isEmptyArr (request.params.read "environments") = true

/-- A turn of the thread that leaves the selection open. -/
def Request.Plain (request : Request) (thread : PyKey) : Prop :=
  request.pending.method = .turnStart ∧ request.thread = some thread ∧
    (request.params.read "environments").isNull = true

/-- A turn of the thread with an explicit non-empty selection. -/
def Request.Selects (request : Request) (thread : PyKey) : Prop :=
  request.pending.method = .turnStart ∧ request.thread = some thread ∧
    isImplicit request.params = false

instance (request : Request) (thread : PyKey) : Decidable (request.Empties thread) :=
  inferInstanceAs (Decidable (_ ∧ _))

instance (request : Request) (thread : PyKey) : Decidable (request.Plain thread) :=
  inferInstanceAs (Decidable (_ ∧ _))

instance (request : Request) (thread : PyKey) : Decidable (request.Selects thread) :=
  inferInstanceAs (Decidable (_ ∧ _))

structure Link where
  router : Router := {}
  history : List (Nat × Request) := []
  inFlight : List (Nat × Request) := []
  answers : List (Nat × Bool) := []
  /-- The thread ids that a request has named or an answer has given. -/
  known : List PyKey := []

/-- The `environments` of a forwarded message. -/
def environmentsOf (message : Members) : Json :=
  match Dict.get message "params" with
  | some (.obj params) => Members.read params "environments"
  | _ => .null

/-- The link after `outgoing` forwarded `message` as `result`. -/
def Link.sent (link : Link) (router : Router) (message result : Members) : Link :=
  match Method.ofJson (message.read "method"), requestParts message with
  | some _, .ok (params, id) =>
    match id.key with
    | none => { link with router }
    | some identifier =>
      match router.pending.get identifier with
      | none => { link with router }
      | some pending =>
        let request : Request :=
          { identifier, pending, params, environments := environmentsOf result,
            answered := link.answers.length }
        { link with
          router
          history := link.history ++ [(link.history.length, request)]
          inFlight := link.inFlight ++ [(link.history.length, request)]
          known := link.known ++ request.thread.toList }
  | _, _ => { link with router }

/-- The request in flight that a server message answers. -/
def Link.answeredBy (link : Link) (message : Members) : Option (Nat × Request) :=
  match Dict.get message "method", Dict.get message "id" with
  | none, some id =>
    match id.key with
    | none => none
    | some identifier => link.inFlight.find? fun entry => entry.2.identifier = identifier
  | _, _ => none

/-- The thread an answer describes. -/
def threadGiven (message : Members) : Option PyKey :=
  match message.read "result" with
  | .obj result =>
    match threadIdentity result with
    | .ok id => some (.str id)
    | .error _ => none
  | _ => none

/-- What the server is assumed to do: it answers a thread's requests in order, a
new thread gets a fresh id and a resumed one keeps its id. -/
def Link.allowed (link : Link) (serial : Nat) (request : Request) (message : Members)
    (success : Bool) : Bool :=
  (request.thread.isNone || link.inFlight.all fun entry =>
      !(decide (entry.1 < serial) && decide (entry.2.thread = request.thread))) &&
    (!success ||
      match request.pending.method with
      | .threadStart | .fork => (threadGiven message).all fun id => !link.known.contains id
      | .resume => decide (threadGiven message = request.thread)
      | _ => true)

/-- Whether the message is a success that `incoming` could record. -/
def Router.succeeds (router : Router) (message : Members) : Bool :=
  (router.incoming message).2.toBool && (Dict.get message "error").isNone

def Link.step (config : Config) (link : Link) : Act → Option Link
  | .client message =>
    match link.router.outgoing config message with
    | .error _ => some link
    | .ok (router, result) => some (link.sent router message result)
  | .server message =>
    match link.answeredBy message with
    | none => some { link with router := (link.router.incoming message).1 }
    | some (serial, request) =>
      if link.allowed serial request message (link.router.succeeds message) then
        some { link with
          router := (link.router.incoming message).1
          inFlight := link.inFlight.filter fun entry => entry.1 ≠ serial
          answers := link.answers ++ [(serial, link.router.succeeds message)]
          known := link.known ++ (threadGiven message).toList }
      else none

/-- The router between a client and such a server. -/
def linked (config : Config) : LTS Link Act := .ofFun (fun link => link = {}) (Link.step config)

/-- The recorded location of the thread has no environment access. -/
def Router.Disabled (router : Router) (thread : PyKey) : Prop :=
  ∃ location, router.locations.get thread = some location ∧ location.enabled = false

/-- `serial` emptied the thread's selection and no explicit selection sent after it
is among the `answers` as a success. -/
def Link.EmptiedBy (link : Link) (thread : PyKey) (entry : Nat × Request)
    (answers : List (Nat × Bool)) : Prop :=
  entry ∈ link.history ∧ entry.2.Empties thread ∧
    ∀ later ∈ link.history, entry.1 < later.1 → later.2.Selects thread →
      (later.1, true) ∉ answers

/-! ### Bookkeeping -/

variable {config : Config} {link link' : Link}

theorem hashed_eq_ok {value : Json} {key : PyKey} :
    hashed value = .ok key ↔ value.key = some key := by
  unfold hashed
  cases value.key with
  | none => simp
  | some k => simp

/-- What ties the history, the requests in flight, the answers and the table of
the router together. -/
structure Link.Booked (link : Link) : Prop where
  numbered : link.history.map Prod.fst = List.range link.history.length
  flying : ∀ e ∈ link.inFlight, e ∈ link.history
  identifiers : (link.inFlight.map fun e => e.2.identifier).Nodup
  remembered : ∀ e ∈ link.inFlight,
    link.router.pending.get e.2.identifier = some e.2.pending
  tracked : ∀ identifier pending, link.router.pending.get identifier = some pending →
    ∃ e ∈ link.inFlight, e.2.identifier = identifier
  unanswered : ∀ e ∈ link.inFlight, ∀ ok, (e.1, ok) ∉ link.answers
  settled : ∀ e ∈ link.history, e ∈ link.inFlight ∨ ∃ ok, (e.1, ok) ∈ link.answers
  once : (link.answers.map Prod.fst).Nodup
  answered : ∀ a ∈ link.answers, a.1 < link.history.length
  earlier : ∀ e ∈ link.history, e.2.answered ≤ link.answers.length
  named : ∀ e ∈ link.history, ∀ thread, e.2.thread = some thread → thread ∈ link.known
  emptied : ∀ e ∈ link.history, ∀ thread, e.2.Empties thread →
    ∃ location, e.2.pending.location = some location ∧ location.enabled = false

theorem Link.Booked.serial_lt (h : link.Booked) {e : Nat × Request} (he : e ∈ link.history) :
    e.1 < link.history.length := by
  have : e.1 ∈ link.history.map Prod.fst := List.mem_map_of_mem he
  rw [h.numbered] at this
  exact mem_range.mp this

theorem Link.Booked.eq_of_serial (h : link.Booked) {e f : Nat × Request} (he : e ∈ link.history)
    (hf : f ∈ link.history) (heq : e.1 = f.1) : e = f := by
  have hnodup : (link.history.map Prod.fst).Nodup := by
    rw [h.numbered]
    exact nodup_range
  exact inj_on_of_nodup_map hnodup he hf heq

/-- The request that a routed message adds. -/
def newRequest (link : Link) (result : Members) (method : Method) (params : Members)
    (identifier : PyKey) (location : Option Location) : Request :=
  { identifier, pending := { method, threadId := params.read "threadId", location }, params,
    environments := environmentsOf result, answered := link.answers.length }

/-- The link with one more request. -/
def Link.append (link : Link) (router : Router) (request : Request) : Link :=
  { link with
    router
    history := link.history ++ [(link.history.length, request)]
    inFlight := link.inFlight ++ [(link.history.length, request)]
    known := link.known ++ request.thread.toList }

variable {message : Members}

theorem Link.sent_untouched (hmethod : Method.ofJson (message.read "method") = none)
    (result : Members) : link.sent link.router message result = link := by
  unfold Link.sent
  rw [hmethod]

variable {method : Method} {params : Members} {identifier : PyKey} {location : Option Location}

theorem Link.sent_routed {id : Json} (hmethod : Method.ofJson (message.read "method") = some method)
    (hparams : Dict.get message "params" = some (.obj params))
    (hid : Dict.get message "id" = some id) (hkey : hashed id = .ok identifier) (result : Members) :
    link.sent (link.router.remember identifier
        { method, threadId := params.read "threadId", location }) message result =
      link.append (link.router.remember identifier
          { method, threadId := params.read "threadId", location })
        (newRequest link result method params identifier location) := by
  unfold Link.sent
  rw [hmethod, show requestParts message = .ok (params, id) by simp [requestParts, hparams, hid]]
  simp only [hashed_eq_ok.mp hkey, Router.remember, Dict.get_set_self]
  rfl

theorem Link.Booked.append (h : link.Booked) (request : Request)
    (hnew : link.router.pending.get request.identifier = none)
    (hanswered : request.answered = link.answers.length)
    (hempties : ∀ thread, request.Empties thread →
      ∃ location, request.pending.location = some location ∧ location.enabled = false) :
    (link.append (link.router.remember request.identifier request.pending) request).Booked where
  numbered := by
    simp only [Link.append, map_append, h.numbered, length_append, length_singleton,
      range_succ, map_singleton]
  flying := by
    intro e he
    rcases mem_append.mp he with he | he
    · exact mem_append_left _ (h.flying e he)
    · exact mem_append_right _ he
  identifiers := by
    simp only [Link.append, map_append, map_singleton]
    refine nodup_append.mpr ⟨h.identifiers, nodup_singleton _, ?_⟩
    intro a ha b hb hab
    obtain ⟨e, he, rfl⟩ := List.mem_map.mp ha
    rw [mem_singleton.mp hb] at hab
    have := h.remembered e he
    rw [hab, hnew] at this
    cases this
  remembered := by
    intro e he
    simp only [Link.append, Router.remember, Dict.get_set]
    rcases mem_append.mp he with he | he
    · have hold := h.remembered e he
      have hne : e.2.identifier ≠ request.identifier := by
        intro heq
        rw [heq, hnew] at hold
        cases hold
      rw [if_neg hne]
      exact hold
    · rw [mem_singleton.mp he, if_pos rfl]
  tracked := by
    intro identifier pending hp
    simp only [Link.append, Router.remember, Dict.get_set] at hp
    split at hp
    · rename_i heq
      exact ⟨_, mem_append_right _ (mem_singleton_self _), heq.symm⟩
    · obtain ⟨e, he, hid⟩ := h.tracked identifier pending hp
      exact ⟨e, mem_append_left _ he, hid⟩
  unanswered := by
    intro e he ok hmem
    rcases mem_append.mp he with he | he
    · exact h.unanswered e he ok hmem
    · rw [mem_singleton.mp he] at hmem
      exact Nat.lt_irrefl _ (h.answered _ hmem)
  settled := by
    intro e he
    rcases mem_append.mp he with he | he
    · rcases h.settled e he with hfly | hans
      · exact .inl (mem_append_left _ hfly)
      · exact .inr hans
    · exact .inl (mem_append_right _ he)
  once := h.once
  answered := by
    intro a ha
    simp only [Link.append, length_append, length_singleton]
    exact Nat.lt_succ_of_lt (h.answered a ha)
  earlier := by
    intro e he
    rcases mem_append.mp he with he | he
    · exact h.earlier e he
    · rw [mem_singleton.mp he]
      exact le_of_eq hanswered
  named := by
    intro e he thread hthread
    rcases mem_append.mp he with he | he
    · exact mem_append_left _ (h.named e he thread hthread)
    · rw [mem_singleton.mp he] at hthread
      exact mem_append_right _ (by simp [hthread])
  emptied := by
    intro e he thread hthread
    rcases mem_append.mp he with he | he
    · exact h.emptied e he thread hthread
    · rw [mem_singleton.mp he] at hthread ⊢
      exact hempties thread hthread

/-- The link after the request in flight under `serial` was answered. -/
def Link.close (link : Link) (router : Router) (serial : Nat) (success : Bool)
    (given : Option PyKey) : Link :=
  { link with
    router
    inFlight := link.inFlight.filter fun entry => entry.1 ≠ serial
    answers := link.answers ++ [(serial, success)]
    known := link.known ++ given.toList }

variable {router : Router}

theorem Link.Booked.close (h : link.Booked) {entry : Nat × Request} (hmem : entry ∈ link.inFlight)
    (hrouter : router.pending = link.router.pending.erase entry.2.identifier) (success : Bool)
    (given : Option PyKey) :
    (link.close router entry.1 success given).Booked where
  numbered := h.numbered
  flying := fun e he => h.flying e (mem_of_mem_filter he)
  identifiers := h.identifiers.sublist (filter_sublist.map _)
  remembered := by
    intro e he
    obtain ⟨hfly, hne⟩ := mem_filter.mp he
    have hid : e.2.identifier ≠ entry.2.identifier := by
      intro heq
      rw [inj_on_of_nodup_map h.identifiers hfly hmem heq] at hne
      simp at hne
    simp only [Link.close, hrouter, Dict.get_erase, if_neg hid]
    exact h.remembered e hfly
  tracked := by
    intro identifier pending hp
    simp only [Link.close, hrouter, Dict.get_erase] at hp
    split at hp
    · cases hp
    · rename_i hne
      obtain ⟨e, he, hid⟩ := h.tracked identifier pending hp
      refine ⟨e, mem_filter.mpr ⟨he, ?_⟩, hid⟩
      refine decide_eq_true fun heq => hne ?_
      rw [← hid, h.eq_of_serial (h.flying e he) (h.flying entry hmem) heq]
  unanswered := by
    intro e he ok hans
    obtain ⟨hfly, hne⟩ := mem_filter.mp he
    rcases mem_append.mp hans with hans | hans
    · exact h.unanswered e hfly ok hans
    · have := (Prod.mk.inj (mem_singleton.mp hans)).1
      simp [this] at hne
  settled := by
    intro e he
    by_cases heq : e.1 = entry.1
    · exact .inr ⟨success, mem_append_right _ (by simp [heq])⟩
    · rcases h.settled e he with hfly | ⟨ok, hans⟩
      · exact .inl (mem_filter.mpr ⟨hfly, decide_eq_true heq⟩)
      · exact .inr ⟨ok, mem_append_left _ hans⟩
  once := by
    simp only [Link.close, map_append, map_singleton]
    refine nodup_append.mpr ⟨h.once, nodup_singleton _, ?_⟩
    intro a ha b hb hab
    obtain ⟨⟨n, ok⟩, hans, rfl⟩ := List.mem_map.mp ha
    rw [mem_singleton.mp hb] at hab
    exact h.unanswered entry hmem ok (hab ▸ hans)
  answered := by
    intro a ha
    rcases mem_append.mp ha with ha | ha
    · exact h.answered a ha
    · rw [mem_singleton.mp ha]
      exact h.serial_lt (h.flying entry hmem)
  earlier := by
    intro e he
    have := h.earlier e he
    simp only [Link.close, length_append, length_singleton]
    omega
  named := fun e he thread hthread => mem_append_left _ (h.named e he thread hthread)
  emptied := h.emptied

theorem Link.Booked.reroute (h : link.Booked)
    (hrouter : router.pending = link.router.pending) : ({ link with router } : Link).Booked :=
  { h with
    remembered := by rw [hrouter]; exact h.remembered
    tracked := by rw [hrouter]; exact h.tracked }

/-! ### Staying off -/

/-- The location the request would leave is disabled, unless the request is an
explicit selection sent after `serial`. -/
def Harmless (thread : PyKey) (serial : Nat) (entry : Nat × Request) : Prop :=
  ∀ location, entry.2.pending.location = some location →
    location.enabled = false ∨ entry.2.Selects thread ∧ serial < entry.1

/-- What keeps a thread off: its location, and the requests in flight. -/
structure Link.Held (link : Link) : Prop where
  off : ∀ thread e, link.EmptiedBy thread e link.answers → (e.1, true) ∈ link.answers →
    link.router.Disabled thread ∧
      ∀ p ∈ link.inFlight, p.2.thread = some thread → Harmless thread e.1 p
  hold : ∀ thread, ∀ e ∈ link.inFlight, e.2.Empties thread → ∀ p ∈ link.inFlight,
    p.2.thread = some thread → e.1 < p.1 → Harmless thread e.1 p
  turned : ∀ thread e, ∀ turn ∈ link.history, turn.2.Plain thread → e.1 < turn.1 →
    link.EmptiedBy thread e (link.answers.take turn.2.answered) →
    (e.1, false) ∉ link.answers.take turn.2.answered → turn.2.environments = .arr []

/-- **The condition on a step**: no plain turn and no change of directory is sent
for a thread while an empty selection of that thread is unanswered, unless the
recorded location is disabled already. -/
def Link.Safe (link : Link) : Act → Prop
  | .client message => ∀ params thread, Dict.get message "params" = some (.obj params) →
      hashed (Members.read params "threadId") = .ok thread →
      (Method.ofJson (message.read "method") = some .turnStart ∧
          (Members.read params "environments").isNull = true ∨
        Method.ofJson (message.read "method") = some .settingsUpdate ∧
          (Members.read params "cwd").isNull = false) →
      (∃ e ∈ link.inFlight, e.2.Empties thread) → link.router.Disabled thread
  | .server _ => True

theorem isImplicit_of_null (h : (params.read "environments").isNull = true) :
    isImplicit params = true := by
  simp [isImplicit, h]

theorem isImplicit_of_empty (h : isEmptyArr (params.read "environments") = true) :
    isImplicit params = true := by
  simp [isImplicit, h]

variable {thread : PyKey}

theorem disabled_any (h : router.Disabled thread) :
    (router.locations.get thread).any (fun l => !l.enabled) = true := by
  obtain ⟨location, hget, hoff⟩ := h
  simp [hget, hoff]

theorem Selection.off {prior : Option Location} {environments : Json}
    {location : Location} (h : Selection config params prior environments location)
    (himplicit : isImplicit params = true)
    (hoff : isEmptyArr (params.read "environments") = true ∨
      prior.any (fun l => !l.enabled) = true) :
    location.enabled = false ∧ environments = .arr [] := by
  have hdisabled : location.enabled = false := by
    rw [h.implicit himplicit]
    rcases hoff with hoff | hoff <;> simp [hoff]
  exact ⟨hdisabled, h.disabled hdisabled⟩

variable {forwarded : Members}

theorem Router.Leaves.off {location : Location}
    (h : router.Leaves config method params forwarded (some location))
    (hthread : hashed (params.read "threadId") = .ok thread)
    (hmethod : method = .turnStart ∨ method = .settingsUpdate)
    (hoff : router.Disabled thread ∨
      method = .turnStart ∧ (params.read "environments").isNull = false) :
    location.enabled = false ∨ method = .turnStart ∧ isImplicit params = false := by
  rcases hmethod with rfl | rfl
  · obtain ⟨environments, selected, thread', hthread', -, hselection, -, hsel⟩ := h
    cases hsel
    obtain rfl := Except.ok.inj (hthread.symm.trans hthread')
    cases himp : isImplicit params with
    | false => exact .inr ⟨rfl, rfl⟩
    | true =>
      refine .inl (hselection.off himp ?_).1
      rcases hoff with hdisabled | ⟨-, hnull⟩
      · exact .inr (disabled_any hdisabled)
      · simp only [isImplicit, hnull, Bool.false_or] at himp
        exact .inl himp
  · rcases hoff with ⟨prior, hprior, hdisabled⟩ | ⟨hcontra, -⟩
    · have hupdated := h.2
      simp only [Router.updated] at hupdated
      split at hupdated
      · cases hupdated
      · simp only [bind_eq_ok, pure_eq_ok, Option.some.injEq] at hupdated
        obtain ⟨cwd, -, thread', hthread', rfl⟩ := hupdated
        obtain rfl := Except.ok.inj (hthread.symm.trans hthread')
        simp [hprior, hdisabled]
    · cases hcontra

/-- A change of directory names one. -/
theorem Router.Leaves.cwd_of_settings {location : Location}
    (h : router.Leaves config .settingsUpdate params forwarded (some location)) :
    (params.read "cwd").isNull = false := by
  have hupdated := h.2
  simp only [Router.updated] at hupdated
  split at hupdated
  · cases hupdated
  · rename_i hnull
    simpa using hnull

variable {serial : Nat}

theorem Router.Leaves.harmless {result : Members}
    (h : link.router.Leaves config method params forwarded location)
    (hthread : (newRequest link result method params identifier location).thread = some thread)
    (hoff : method = .turnStart ∧ (params.read "environments").isNull = true ∨
        method = .settingsUpdate ∧ (params.read "cwd").isNull = false →
      link.router.Disabled thread) (hserial : serial < link.history.length) :
    Harmless thread serial
      (link.history.length, newRequest link result method params identifier location) := by
  intro l hl
  obtain rfl : location = some l := hl
  have hkeyed : ∀ {key : Option PyKey}, key = some thread → key = (params.read "threadId").key →
      hashed (params.read "threadId") = .ok thread :=
    fun hk he => hashed_eq_ok.mpr (he ▸ hk)
  cases method with
  | initializing | threadStart => cases hthread
  | resume | fork => exact absurd h.2 (by simp)
  | turnStart =>
    have hkey := hkeyed hthread rfl
    have hoff' : link.router.Disabled thread ∨
        Method.turnStart = .turnStart ∧ (params.read "environments").isNull = false := by
      cases hnull : (params.read "environments").isNull with
      | false => exact .inr ⟨rfl, rfl⟩
      | true => exact .inl (hoff (.inl ⟨rfl, hnull⟩))
    rcases h.off hkey (.inl rfl) hoff' with hd | ⟨-, hexplicit⟩
    · exact .inl hd
    · exact .inr ⟨⟨rfl, hthread, hexplicit⟩, hserial⟩
  | settingsUpdate =>
    have hkey := hkeyed hthread rfl
    rcases h.off hkey (.inr rfl) (.inl (hoff (.inr ⟨rfl, h.cwd_of_settings⟩))) with hd | hc
    · exact .inl hd
    · cases hc.1

theorem Router.Leaves.plain_off (h : router.Leaves config .turnStart params forwarded location)
    (hthread : hashed (params.read "threadId") = .ok thread)
    (hplain : (params.read "environments").isNull = true) (hoff : router.Disabled thread) :
    environmentsOf (Dict.set message "params" (.obj forwarded)) = .arr [] := by
  obtain ⟨environments, selected, thread', hthread', -, hselection, hforwarded, -⟩ := h
  obtain rfl := Except.ok.inj (hthread.symm.trans hthread')
  have hempty := (hselection.off (isImplicit_of_null hplain) (.inr (disabled_any hoff))).2
  simp only [environmentsOf, Dict.get_set_self, hforwarded, Members.read, getD_some, hempty]

/-- **Sending keeps a thread that is off.** -/
theorem Link.Held.append (h : link.Held) (hb : link.Booked)
    (hmethod : Method.ofJson (message.read "method") = some method)
    (hparams : Dict.get message "params" = some (.obj params))
    (hleaves : link.router.Leaves config method params forwarded location)
    (hsafe : link.Safe (.client message)) :
    (link.append (link.router.remember identifier
        { method, threadId := params.read "threadId", location })
      (newRequest link (Dict.set message "params" (.obj forwarded)) method params identifier
        location)).Held := by
  have hold : ∀ {thread e answers}, (link.append (link.router.remember identifier
        { method, threadId := params.read "threadId", location })
      (newRequest link (Dict.set message "params" (.obj forwarded)) method params identifier
        location)).EmptiedBy thread e answers → e.1 < link.history.length →
      link.EmptiedBy thread e answers := by
    rintro thread e answers ⟨hmem, hempties, hlater⟩ hlt
    refine ⟨?_, hempties, fun g hg => hlater g (mem_append_left _ hg)⟩
    rcases mem_append.mp hmem with hmem | hmem
    · exact hmem
    · rw [mem_singleton.mp hmem] at hlt
      exact absurd hlt (Nat.lt_irrefl _)
  -- the thread of the new request, when the condition speaks of it
  have hkeyed : ∀ thread, (newRequest link (Dict.set message "params" (.obj forwarded)) method
      params identifier location).thread = some thread →
      hashed (params.read "threadId") = .ok thread := by
    intro thread hthread
    cases method with
    | initializing | threadStart => cases hthread
    | turnStart | resume | fork | settingsUpdate => exact hashed_eq_ok.mpr hthread
  refine ⟨?_, ?_, ?_⟩
  · intro thread e hemptied hans
    have hlt := hb.answered _ hans
    obtain ⟨hdisabled, hharmless⟩ := h.off thread e (hold hemptied hlt) hans
    refine ⟨hdisabled, fun p hp hthread => ?_⟩
    rcases mem_append.mp hp with hp | hp
    · exact hharmless p hp hthread
    · rw [mem_singleton.mp hp] at hthread ⊢
      exact hleaves.harmless hthread (fun _ => hdisabled) hlt
  · intro thread e he hempties p hp hthread hlt
    rcases mem_append.mp he with he | he
    · rcases mem_append.mp hp with hp | hp
      · exact h.hold thread e he hempties p hp hthread hlt
      · rw [mem_singleton.mp hp] at hthread hlt ⊢
        refine hleaves.harmless hthread (fun hrisky => ?_) hlt
        refine hsafe params thread hparams (hkeyed thread hthread) ?_ ⟨e, he, hempties⟩
        rcases hrisky with ⟨rfl, hnull⟩ | ⟨rfl, hcwd⟩
        · exact .inl ⟨hmethod, hnull⟩
        · exact .inr ⟨hmethod, hcwd⟩
    · rw [mem_singleton.mp he] at hlt
      rcases mem_append.mp hp with hp | hp
      · have := hb.serial_lt (hb.flying p hp)
        omega
      · rw [mem_singleton.mp hp] at hlt
        exact absurd hlt (Nat.lt_irrefl _)
  · intro thread e turn hturn hplain hlt hemptied hfalse
    rcases mem_append.mp hturn with hturn | hturn
    · have hlt' : e.1 < link.history.length := lt_trans hlt (hb.serial_lt hturn)
      exact h.turned thread e turn hturn hplain hlt (hold hemptied hlt') hfalse
    · obtain rfl := mem_singleton.mp hturn
      obtain ⟨hturnStart, hthread, hnull⟩ := hplain
      have hkey := hkeyed thread hthread
      obtain rfl : method = .turnStart := hturnStart
      have hemptied' : link.EmptiedBy thread e (link.answers.take link.answers.length) :=
        hold hemptied hlt
      have hfalse' : (e.1, false) ∉ link.answers.take link.answers.length := hfalse
      rw [take_length] at hemptied' hfalse'
      have hdisabled : link.router.Disabled thread := by
        rcases hb.settled e hemptied'.1 with hfly | ⟨ok, hans⟩
        · exact hsafe params thread hparams hkey (.inl ⟨hmethod, hnull⟩)
            ⟨e, hfly, hemptied'.2.1⟩
        · cases ok with
          | false => exact absurd hans hfalse'
          | true => exact (h.off thread e hemptied' hans).1
      exact hleaves.plain_off hkey hnull hdisabled

theorem Router.Disabled.locate {other : PyKey} {location : Location}
    (h : router.Disabled thread) (hoff : other = thread → location.enabled = false) :
    (router.locate other location).Disabled thread := by
  by_cases heq : thread = other
  · exact ⟨location, by simp [Router.locate, heq], hoff heq.symm⟩
  · obtain ⟨prior, hprior, hdisabled⟩ := h
    exact ⟨prior, by simp [Router.locate, Dict.get_set_of_ne _ _ heq, hprior], hdisabled⟩

variable {next : Router} {request : Request}

theorem Router.Disabled.recorded (h : router.Disabled thread)
    (hrecorded : router.Recorded request.pending (message.read "result") next)
    (hallowed : link.allowed serial request message true = true) (hknown : thread ∈ link.known)
    (hharmless : request.thread = some thread → ∀ location,
      request.pending.location = some location → location.enabled = false) :
    next.Disabled thread := by
  cases hrecorded with
  | nothing _ => exact h
  | @learned members id cwd paths source hresult hid _ hsource hmethod =>
    refine h.locate fun heq => ?_
    have hgiven : threadGiven message = some thread := by
      simp [threadGiven, hresult, hid, heq]
    simp only [Link.allowed, Bool.and_eq_true, Bool.not_true, Bool.false_or] at hallowed
    rcases hmethod with hm | hm | hm
    · rw [hm] at hallowed
      simp [hgiven, hknown] at hallowed
    · -- a resume keeps its id and what was recorded for it
      rw [hm] at hallowed
      have hthread : request.thread = some thread := by
        rw [← hgiven]
        exact (of_decide_eq_true hallowed.2).symm
      have hkey : hashed request.pending.threadId = .ok thread := by
        rw [Request.thread, hm] at hthread
        exact hashed_eq_ok.mpr hthread
      obtain rfl := Except.ok.inj (hsource.symm.trans hkey)
      obtain ⟨prior, hprior, hdisabled⟩ := h
      cases hloc : request.pending.location with
      | none => simp [Routing.learned, hprior, hdisabled]
      | some location =>
        have := hharmless hthread location hloc
        simp [Routing.learned, this]
    · rw [hm] at hallowed
      simp [hgiven, hknown] at hallowed
  | applied hthread hlocation hmethod =>
    refine h.locate fun heq => hharmless ?_ _ hlocation
    subst heq
    unfold Request.thread
    rcases hmethod with hm | hm <;> rw [hm] <;> exact hashed_eq_ok.mp hthread

theorem Request.Empties.recorded {result : Json} (h : request.Empties thread)
    (hoff : ∃ location, request.pending.location = some location ∧ location.enabled = false)
    (hrecorded : router.Recorded request.pending result next) : next.Disabled thread := by
  obtain ⟨hturn, hthread, -⟩ := h
  obtain ⟨location, hlocation, hdisabled⟩ := hoff
  have hkey : request.pending.threadId.key = some thread := by
    rw [Request.thread, hturn] at hthread
    exact hthread
  cases hrecorded with
  | nothing hnone =>
    rcases hnone with hm | hm
    · rw [hturn] at hm
      cases hm
    · rw [hlocation] at hm
      cases hm
  | learned _ _ _ _ hmethod => rcases hmethod with hm | hm | hm <;> rw [hturn] at hm <;> cases hm
  | applied hthread' hlocation' _ =>
    obtain rfl := Option.some.inj (hlocation.symm.trans hlocation')
    obtain rfl := Option.some.inj (hkey.symm.trans (hashed_eq_ok.mp hthread'))
    exact ⟨location, by simp [Router.locate], hdisabled⟩

theorem Link.allowed_order {success : Bool} (h : link.allowed serial request message success = true)
    (hthread : request.thread = some thread) {p : Nat × Request} (hp : p ∈ link.inFlight)
    (hsame : p.2.thread = some thread) : serial ≤ p.1 := by
  simp only [Link.allowed, Bool.and_eq_true, hthread, isNone_some, Bool.false_or,
    List.all_eq_true] at h
  have := h.1 p hp
  simp only [hsame, decide_true, Bool.and_true, Bool.not_eq_true', decide_eq_false_iff_not] at this
  omega

theorem Router.Disabled.congr (h : router.Disabled thread)
    (hsame : next.locations = router.locations) : next.Disabled thread := by
  obtain ⟨location, hget, hdisabled⟩ := h
  exact ⟨location, hsame ▸ hget, hdisabled⟩

/-- **An answer keeps a thread that is off**, and the answer of an empty selection
switches its thread off. -/
theorem Link.Held.close (h : link.Held) (hb : link.Booked) {q : Nat × Request}
    (hmem : q ∈ link.inFlight) {success : Bool}
    (hallowed : link.allowed q.1 q.2 message success = true)
    (hfail : success = false → router.locations = link.router.locations)
    (hok : success = true → (link.router.forget q.2.identifier).Recorded q.2.pending
      (message.read "result") router) :
    (link.close router q.1 success (threadGiven message)).Held := by
  have hq := hb.flying q hmem
  refine ⟨?_, ?_, ?_⟩
  · rintro thread e ⟨he, hempties, hlater⟩ hans
    have hlater' : link.EmptiedBy thread e link.answers :=
      ⟨he, hempties, fun g hg hlt hsel hgans => hlater g hg hlt hsel (mem_append_left _ hgans)⟩
    rcases mem_append.mp hans with hbefore | hnow
    · -- the thread was off before this answer
      obtain ⟨hdisabled, hharmless⟩ := h.off thread e hlater' hbefore
      refine ⟨?_, fun p hp hthread => hharmless p (mem_of_mem_filter hp) hthread⟩
      cases success with
      | false => exact hdisabled.congr (hfail rfl)
      | true =>
        have hoff : (link.router.forget q.2.identifier).Disabled thread := hdisabled.congr rfl
        refine hoff.recorded (hok rfl) hallowed
          (hb.named e he thread hempties.2.1) fun hthread location hlocation => ?_
        rcases hharmless q hmem hthread location hlocation with hd | ⟨hselects, hlt⟩
        · exact hd
        · exact absurd (mem_append_right _ (mem_singleton_self _))
            (hlater q hq hlt hselects)
    · obtain ⟨hserial, rfl⟩ := Prod.mk.inj (mem_singleton.mp hnow)
      obtain rfl := hb.eq_of_serial he hq hserial
      refine ⟨hempties.recorded (hb.emptied e he thread hempties) (hok rfl),
        fun p hp hthread => ?_⟩
      obtain ⟨hfly, hne⟩ := mem_filter.mp hp
      have hle := Link.allowed_order hallowed hempties.2.1 hfly hthread
      have hlt : e.1 < p.1 := by
        have : p.1 ≠ e.1 := of_decide_eq_true hne
        omega
      exact h.hold thread e hmem hempties p hfly hthread hlt
  · intro thread e he hempties p hp hthread hlt
    exact h.hold thread e (mem_of_mem_filter he) hempties p (mem_of_mem_filter hp)
      hthread hlt
  · intro thread e turn hturn hplain hlt hemptied hfalse
    have htake : (link.answers ++ [(q.1, success)]).take turn.2.answered =
        link.answers.take turn.2.answered := take_append_of_le_length (hb.earlier turn hturn)
    simp only [Link.close, htake] at hemptied hfalse
    exact h.turned thread e turn hturn hplain hlt hemptied hfalse

theorem Link.Held.reroute (h : link.Held)
    (hkeep : ∀ thread, link.router.Disabled thread → router.Disabled thread) :
    ({ link with router } : Link).Held where
  __ := h
  off := fun thread e hemptied hans =>
    ⟨hkeep thread (h.off thread e hemptied hans).1, (h.off thread e hemptied hans).2⟩

theorem Link.answeredBy_some {q : Nat × Request} (h : link.answeredBy message = some q) :
    q ∈ link.inFlight ∧ ∃ id, Dict.get message "method" = none ∧ Dict.get message "id" = some id ∧
      hashed id = .ok q.2.identifier := by
  unfold Link.answeredBy at h
  split at h
  · rename_i id hmethod hid
    split at h
    · cases h
    · rename_i identifier hkey
      have hidentifier : q.2.identifier = identifier := by simpa using List.find?_some h
      exact ⟨List.mem_of_find?_eq_some h, id, hmethod, hid, hashed_eq_ok.mpr (hidentifier ▸ hkey)⟩
  · cases h

theorem Link.answeredBy_none (hb : link.Booked)
    (h : link.answeredBy message = none) : link.router.Idle message := by
  intro id identifier hmethod hid hkey
  simp only [Link.answeredBy, hmethod, hid, hashed_eq_ok.mp hkey, List.find?_eq_none] at h
  cases hp : link.router.pending.get identifier with
  | none => rfl
  | some pending =>
    obtain ⟨e, he, heq⟩ := hb.tracked identifier pending hp
    exact absurd (by simpa using heq) (h e he)

theorem Router.answer_spec {id : Json} {pending : Pending}
    (hmethod : Dict.get message "method" = none) (hid : Dict.get message "id" = some id)
    (hkey : hashed id = .ok identifier) (hpending : router.pending.get identifier = some pending) :
    (router.incoming message).1.pending = router.pending.erase identifier ∧
      (router.succeeds message = false →
        (router.incoming message).1.locations = router.locations) ∧
      (router.succeeds message = true → (router.forget identifier).Recorded pending
        (message.read "result") (router.incoming message).1) := by
  have hreceived := router.incoming_received message
  have hbusy : ¬ router.Idle message := by
    intro hidle
    rw [hidle id identifier hmethod hid hkey] at hpending
    cases hpending
  revert hreceived
  unfold Router.succeeds
  generalize (router.incoming message).1 = next
  generalize (router.incoming message).2 = outcome
  intro hreceived
  cases hreceived with
  | ignored hidle => exact absurd hidle hbusy
  | rejected hidle => exact absurd hidle hbusy
  | noticed hnotice _ _ => exact absurd hmethod hnotice
  | unsuccessful _ hid' hkey' _ houtcome =>
    obtain rfl := Option.some.inj (hid.symm.trans hid')
    obtain rfl := Except.ok.inj (hkey.symm.trans hkey')
    refine ⟨rfl, fun _ => rfl, fun hsuccess => ?_⟩
    rw [Bool.and_eq_true] at hsuccess
    rcases houtcome with herror | ⟨raised, rfl⟩
    · simp [isNone_iff_eq_none, isSome_iff_ne_none] at herror hsuccess
      exact absurd hsuccess.2 herror
    · cases hsuccess.1
  | successful _ hid' hkey' hpending' herror hrecorded =>
    obtain rfl := Option.some.inj (hid.symm.trans hid')
    obtain rfl := Except.ok.inj (hkey.symm.trans hkey')
    obtain rfl := Option.some.inj (hpending.symm.trans hpending')
    refine ⟨?_, fun hfailure => ?_, fun _ => hrecorded⟩
    · cases hrecorded with
      | nothing _ | learned _ _ _ _ _ | applied _ _ _ => rfl
    · simp [herror, Except.toBool] at hfailure

/-- **Every step that meets the condition keeps both invariants.** -/
theorem Link.step_inv {act : Act} (hb : link.Booked) (h : link.Held) (hsafe : link.Safe act)
    (hstep : link.step config act = some link') : link'.Booked ∧ link'.Held := by
  cases act with
  | client message =>
    simp only [Link.step] at hstep
    split at hstep
    · cases hstep
      exact ⟨hb, h⟩
    · rename_i router result hok
      cases hstep
      cases Router.outgoing_ok hok with
      | untouched hmethod =>
        rw [Link.sent_untouched hmethod]
        exact ⟨hb, h⟩
      | @routed method params forwarded id identifier location hmethod hparams hid hkey hnew hleaves =>
        rw [Link.sent_routed hmethod hparams hid hkey]
        refine ⟨hb.append (newRequest link (Dict.set message "params" (.obj forwarded)) method params
          identifier location) hnew rfl ?_, h.append hb hmethod hparams hleaves hsafe⟩
        rintro thread ⟨hturn, -, hempty⟩
        obtain rfl : method = .turnStart := hturn
        obtain ⟨environments, selected, thread', -, -, hselection, -, rfl⟩ := hleaves
        exact ⟨selected, rfl,
          (hselection.off (isImplicit_of_empty hempty) (.inl hempty)).1⟩
  | server message =>
    simp only [Link.step] at hstep
    have hreceived := link.router.incoming_received message
    split at hstep
    · rename_i hnone
      cases hstep
      have hidle := Link.answeredBy_none hb hnone
      revert hreceived
      generalize (link.router.incoming message).1 = next
      generalize (link.router.incoming message).2 = outcome
      intro hreceived
      cases hreceived with
      | ignored _ | rejected _ => exact ⟨hb.reroute rfl, h.reroute fun _ hd => hd⟩
      | @noticed thread prior cwd _ hprior _ =>
        refine ⟨hb.reroute rfl, h.reroute fun other hd => hd.locate ?_⟩
        rintro rfl
        obtain ⟨location, hget, hdisabled⟩ := hd
        obtain rfl := Option.some.inj (hprior.symm.trans hget)
        exact hdisabled
      | unsuccessful hmethod hid hkey hpending _ | successful hmethod hid hkey hpending _ _ =>
        rw [hidle _ _ hmethod hid hkey] at hpending
        cases hpending
    · rename_i serial request hsome
      split at hstep
      · rename_i hallowed
        cases hstep
        obtain ⟨hmem, id, hmethod, hid, hkey⟩ := Link.answeredBy_some hsome
        have hremembered := hb.remembered _ hmem
        obtain ⟨hpending, hfail, hok⟩ := Router.answer_spec hmethod hid hkey hremembered
        exact ⟨hb.close hmem hpending _ _, h.close hb hmem hallowed hfail hok⟩
      · cases hstep

theorem Link.init_inv : ({} : Link).Booked ∧ ({} : Link).Held := by
  refine ⟨⟨rfl, by simp, nodup_nil, by simp, by simp [Dict.get], by simp, by simp,
    nodup_nil, by simp, by simp, by simp, by simp⟩, ⟨?_, by simp, by simp⟩⟩
  rintro thread e - hans
  cases hans

theorem linked_inv {acts : List Act} (h : (linked config).RunOf Link.Safe acts link) :
    link.Booked ∧ link.Held := by
  refine h.invariant (I := fun _ link => link.Booked ∧ link.Held) (fun s hs => ?_)
    fun _ _ _ _ hi hsafe hstep => Link.step_inv hi.1 hi.2 hsafe hstep
  rw [show s = {} from hs]
  exact Link.init_inv

/-- **A thread that is switched off stays off**, in every run in which no plain turn
and no change of directory overtakes an unanswered empty selection: once a turn
with an empty selection has succeeded and until an explicit selection sent after it
succeeds, the recorded location is disabled; and every plain turn sent after it,
before or after its answer, is forwarded with no environment. -/
theorem disabled_holds {acts : List Act} (h : (linked config).RunOf Link.Safe acts link) :
    (∀ thread e, link.EmptiedBy thread e link.answers → (e.1, true) ∈ link.answers →
        link.router.Disabled thread) ∧
      (∀ thread e, ∀ turn ∈ link.history, turn.2.Plain thread → e.1 < turn.1 →
        (e.1, true) ∈ link.answers → link.EmptiedBy thread e (link.answers.take turn.2.answered) →
        turn.2.environments = .arr []) := by
  obtain ⟨hb, hheld⟩ := linked_inv h
  refine ⟨fun thread e hemptied hans => (hheld.off thread e hemptied hans).1,
    fun thread e turn hturn hplain hlt hans hemptied => ?_⟩
  refine hheld.turned thread e turn hturn hplain hlt hemptied fun hfalse => ?_
  have := inj_on_of_nodup_map hb.once hans (mem_of_mem_take hfalse) rfl
  cases this

/-- A turn that asks for no environment. -/
def emptyTurn : Members :=
  [("id", .int 2), ("method", .str "turn/start"),
    ("params", .obj [("threadId", .str "t"), ("environments", .arr [])])]

def laterTurn : Members :=
  [("id", .int 3), ("method", .str "turn/start"), ("params", .obj [("threadId", .str "t")])]

def turnAnswer (id : Int) : Members := [("id", .int id), ("result", .obj [])]

/-- Requests sent one at a time. -/
def Link.stepAlone (config : Config) (link : Link) : Act → Option Link
  | .client message => if link.inFlight.isEmpty then link.step config (.client message) else none
  | .server message => link.step config (.server message)

theorem Link.safe_of_stepAlone {act : Act} (h : link.stepAlone config act = some link') :
    link.Safe act ∧ (linked config).Step link act link' := by
  cases act with
  | server message => exact ⟨trivial, h⟩
  | client message =>
    simp only [Link.stepAlone] at h
    split at h
    · rename_i halone
      refine ⟨?_, h⟩
      rintro params thread - - - ⟨e, he, -⟩
      rw [List.isEmpty_iff.mp halone] at he
      cases he
    · cases h

/-- A plain turn after an answered empty selection. -/
theorem disabled_holds_alone : ∃ link, (linked launcher).RunOf Link.Safe
    [.client resumeRequest, .server resumeAnswer, .client emptyTurn, .server (turnAnswer 2),
      .client laterTurn] link ∧
    link.router.Disabled (.str "t") ∧
      ∃ turn ∈ link.history, turn.2.Plain (.str "t") ∧ turn.2.environments = .arr [] := by
  obtain ⟨link, hrun, e, he, turn, hturn, hempties, hlater, hans, hplain, hlt⟩ :=
    LTS.exists_runOf_exec (A := linked launcher) Link.safe_of_stepAlone rfl
      [.client resumeRequest, .server resumeAnswer, .client emptyTurn, .server (turnAnswer 2),
        .client laterTurn]
      (fun link => ∃ e ∈ link.history, ∃ turn ∈ link.history, e.2.Empties (.str "t") ∧
        (∀ later ∈ link.history, ¬ later.2.Selects (.str "t")) ∧ (e.1, true) ∈ link.answers ∧
        turn.2.Plain (.str "t") ∧ e.1 < turn.1)
      (by decide +kernel)
  have hemptied : ∀ answers, link.EmptiedBy (.str "t") e answers := fun answers =>
    ⟨he, hempties, fun g hg _ hselects => absurd hselects (hlater g hg)⟩
  obtain ⟨hoff, hsent⟩ := disabled_holds hrun
  exact ⟨link, hrun, hoff _ e (hemptied _) hans, turn, hturn, hplain,
    hsent _ e turn hturn hplain hlt hans (hemptied _)⟩

/-- **A turn that overtakes an empty selection is sent with an environment and
switches the thread on again.** -/
theorem overtaken_reenables : ∃ link, (linked launcher).Run
    [.client resumeRequest, .server resumeAnswer, .client emptyTurn, .client laterTurn,
      .server (turnAnswer 2), .server (turnAnswer 3)] link ∧
    ∃ e ∈ link.history, ∃ turn ∈ link.history,
      link.EmptiedBy (.str "t") e link.answers ∧ (e.1, true) ∈ link.answers ∧
      ¬ link.router.Disabled (.str "t") ∧
      turn.2.Plain (.str "t") ∧ e.1 < turn.1 ∧
      link.EmptiedBy (.str "t") e (link.answers.take turn.2.answered) ∧
      turn.2.environments ≠ .arr [] := by
  obtain ⟨link, hrun, e, he, turn, hturn, hempties, hlater, hans, hon, hplain, hlt, hsent⟩ :=
    LTS.exists_run_of_exec (A := linked launcher) (fun h => h) rfl
      [.client resumeRequest, .server resumeAnswer, .client emptyTurn, .client laterTurn,
        .server (turnAnswer 2), .server (turnAnswer 3)]
      (fun link => ∃ e ∈ link.history, ∃ turn ∈ link.history, e.2.Empties (.str "t") ∧
        (∀ later ∈ link.history, ¬ later.2.Selects (.str "t")) ∧ (e.1, true) ∈ link.answers ∧
        (link.router.locations.get (.str "t")).any (fun l => !l.enabled) = false ∧
        turn.2.Plain (.str "t") ∧ e.1 < turn.1 ∧ isEmptyArr turn.2.environments = false)
      (by decide +kernel)
  refine ⟨link, hrun, e, he, turn, hturn,
    ⟨he, hempties, fun g hg _ hselects => absurd hselects (hlater g hg)⟩, hans, fun hoff => ?_,
    hplain, hlt, ⟨he, hempties, fun g hg _ hselects => absurd hselects (hlater g hg)⟩, fun heq => ?_⟩
  · rw [disabled_any hoff] at hon
    cases hon
  · rw [heq] at hsent
    cases hsent

end FoldGPT.Routing
