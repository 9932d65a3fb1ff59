import FoldGPT.Lib.Transition
import FoldGPT.Routing.Router

/-!
# Where a forwarded directory can come from

Over every sequence of client and server messages the router sends a
`thread/start` or `turn/start` with no environment or with exactly the
configured one at an absolute directory, and touches nothing else.

Main result: `routing_sound`.
-/

namespace FoldGPT.Routing

open FoldGPT.Lib

variable {config : Config} {router router' : Router}

/-! ### Selections -/

theorem absolutePath_ok {value : Json} {path : String} (h : absolutePath value = .ok path) :
    value = .str path ∧ isAbsolute path = true := by
  cases value with
  | str s =>
    simp only [absolutePath] at h
    split at h
    · rename_i habs
      cases h
      exact ⟨rfl, habs⟩
    · cases h
  | _ => cases h

/-- The one entry of the configured environment at a directory. -/
def Config.Selects (config : Config) (environments : Json) (cwd : String) : Prop :=
  ∃ extra : Members, environments =
      .arr [.obj ([("environmentId", .str config.environmentId), ("cwd", .str cwd)] ++ extra)] ∧
    (extra = [] ∨ ∃ paths : List String,
      extra = [("runtimeWorkspaceRoots", .arr (paths.map Json.str))])

theorem Config.entry_selects (config : Config) (cwd : String) (selected : Option (List String)) :
    config.Selects (config.entry false cwd selected).1 cwd := by
  cases selected with
  | none => exact ⟨[], rfl, .inl rfl⟩
  | some paths => exact ⟨_, rfl, .inr ⟨paths, rfl⟩⟩

/-- What `_selection` answers. -/
structure Selection (config : Config) (params : Members) (prior : Option Location)
    (environments : Json) (location : Location) : Prop where
  disabled : location.enabled = false → environments = .arr []
  selects : location.enabled = true → config.Selects environments location.cwd
  implicit : isImplicit params = true → location.enabled =
    !(isEmptyArr (params.read "environments") || prior.any fun l => !l.enabled)
  explicit : isImplicit params = false → location.enabled = true ∧
    ∃ item : Members, params.read "environments" = .arr [.obj item] ∧
      item.read "cwd" = .str location.cwd ∧ isAbsolute location.cwd = true
  given : isImplicit params = true → params.read "cwd" = .str location.cwd ∧
      isAbsolute location.cwd = true ∨
    (params.read "cwd").isNull = true ∧
      location.cwd = (prior.map Location.cwd).getD config.defaultCwd

theorem entry_implicit (config : Config) (disabled : Bool) (cwd : String)
    (selected : Option (List String)) :
    ((config.entry disabled cwd selected).2.enabled = false →
        (config.entry disabled cwd selected).1 = .arr []) ∧
      ((config.entry disabled cwd selected).2.enabled = true →
        config.Selects (config.entry disabled cwd selected).1 cwd) := by
  cases disabled with
  | true => exact ⟨fun _ => rfl, fun h => absurd h (by simp [Config.entry])⟩
  | false => exact ⟨fun h => absurd h (by simp [Config.entry]),
      fun _ => config.entry_selects cwd selected⟩

variable {environments : Json} {location : Location}

theorem explicitSelection_ok {supplied : Json}
    (h : config.explicitSelection supplied = .ok (environments, location)) :
    ∃ (item : Members) (selected : Option (List String)), supplied = .arr [.obj item] ∧
      item.read "cwd" = .str location.cwd ∧ isAbsolute location.cwd = true ∧
      (environments, location) = config.entry false location.cwd selected := by
  unfold Config.explicitSelection at h
  split at h
  · rename_i item
    split at h
    · cases h
    · simp only [bind_eq_ok, pure_eq_ok] at h
      obtain ⟨id, -, -, -, cwd, hcwd, selected, -, hentry⟩ := h
      obtain ⟨hread, habs⟩ := absolutePath_ok hcwd
      have hloc : location.cwd = cwd := by
        rw [← (Prod.mk.inj hentry).2]
      exact ⟨item, selected, rfl, hloc ▸ hread, hloc ▸ habs, hloc ▸ hentry.symm⟩
  · cases h
  · cases h

variable {params : Members}

/-- **What `_selection` answers.** -/
theorem selection_spec {prior : Option Location}
    (h : config.selection params prior = .ok (environments, location)) :
    Selection config params prior environments location := by
  unfold Config.selection at h
  split at h
  · rename_i himplicit
    simp only [bind_eq_ok, pure_eq_ok] at h
    obtain ⟨cwd, hcwd, selected, -, hentry⟩ := h
    obtain ⟨rfl, rfl⟩ := Prod.mk.inj hentry
    obtain ⟨hdisabled, hselects⟩ := entry_implicit config
      (isEmptyArr (params.read "environments") || prior.any fun l => !l.enabled) cwd selected
    refine ⟨hdisabled, hselects, fun _ => rfl, fun hexp => ?_, fun _ => ?_⟩
    · rw [himplicit] at hexp
      cases hexp
    · unfold Config.implicitCwd at hcwd
      split at hcwd
      · rename_i hnull
        cases hcwd
        exact .inr ⟨hnull, rfl⟩
      · exact .inl (absolutePath_ok hcwd)
  · rename_i hexplicit
    have hexp : isImplicit params = false := by simpa using hexplicit
    obtain ⟨item, selected, hitem, hread, habs, hentry⟩ := explicitSelection_ok h
    have henabled : location.enabled = true := by
      rw [(Prod.mk.inj hentry).2]
      rfl
    refine ⟨fun hd => ?_, fun _ => ?_, fun himp => ?_, fun _ => ⟨henabled, item, hitem, hread, habs⟩,
      fun himp => ?_⟩
    · rw [henabled] at hd
      cases hd
    · rw [(Prod.mk.inj hentry).1]
      exact config.entry_selects _ selected
    · rw [hexp] at himp
      cases himp
    · rw [hexp] at himp
      cases himp

theorem Selection.absolute {prior : Option Location}
    (h : Selection config params prior environments location)
    (hprior : ∀ l, prior = some l → isAbsolute l.cwd = true) :
    isAbsolute location.cwd = true := by
  cases himp : isImplicit params with
  | false => exact (h.explicit himp).2.elim fun item hitem => hitem.2.2
  | true =>
    rcases h.given himp with ⟨-, habs⟩ | ⟨-, hcwd⟩
    · exact habs
    · rw [hcwd]
      cases prior with
      | none => exact config.absolute
      | some l => exact hprior l rfl

/-! ### What `outgoing` does -/

/-- A location that a request leaves, given what is recorded. -/
def Router.Leaves (config : Config) (router : Router) (method : Method) (params : Members)
    (forwarded : Members) (location : Option Location) : Prop :=
  match method with
  | .threadStart | .turnStart => ∃ environments selected thread,
      hashed (params.read "threadId") = .ok thread ∧
      isUnlocated method params (router.locations.get thread) = false ∧
      Selection config params (router.locations.get thread) environments selected ∧
      forwarded = Dict.set params "environments" environments ∧ location = some selected
  | .settingsUpdate => forwarded = params ∧ router.updated params = .ok location
  | .resume | .fork => forwarded = params ∧ location = none
  | .initializing => location = none

theorem Router.rewrite_ok {method : Method} {forwarded : Members} {location : Option Location}
    (h : router.rewrite config method params = .ok (forwarded, location)) :
    router.Leaves config method params forwarded location := by
  have hselected : ∀ m, (router.selected config m params).map (fun p =>
      (Dict.set params "environments" p.1, some p.2)) = .ok (forwarded, location) →
      ∃ environments selected thread, hashed (params.read "threadId") = .ok thread ∧
        isUnlocated m params (router.locations.get thread) = false ∧
        Selection config params (router.locations.get thread) environments selected ∧
        forwarded = Dict.set params "environments" environments ∧ location = some selected := by
    intro m hm
    obtain ⟨⟨environments, selected⟩, hsel, hpair⟩ := map_eq_ok.mp hm
    simp only [Router.selected, bind_eq_ok, require_eq_ok] at hsel
    obtain ⟨thread, hthread, -, hlocated, hselection⟩ := hsel
    obtain ⟨hf, hl⟩ := Prod.mk.inj hpair
    exact ⟨environments, selected, thread, hthread, by simpa using hlocated,
      selection_spec hselection, hf.symm, hl.symm⟩
  cases method with
  | initializing =>
    obtain ⟨params', -, hpair⟩ := map_eq_ok.mp h
    exact (Prod.mk.inj hpair).2.symm
  | threadStart | turnStart => exact hselected _ h
  | settingsUpdate =>
    obtain ⟨location', hupdated, hpair⟩ := map_eq_ok.mp h
    obtain ⟨rfl, rfl⟩ := Prod.mk.inj hpair
    exact ⟨rfl, hupdated⟩
  | resume | fork =>
    obtain ⟨rfl, rfl⟩ := Prod.mk.inj (Except.ok.inj h)
    exact ⟨rfl, rfl⟩

/-- **What `outgoing` does with a message it forwards**: nothing, or it rewrites
the params and remembers the request under a new id. -/
inductive Router.Forwarded (config : Config) (router : Router) (message : Members) :
    Router → Members → Prop
  | untouched (hmethod : Method.ofJson (message.read "method") = none) :
      Forwarded config router message router message
  | routed {method : Method} {params forwarded : Members} {id : Json} {identifier : PyKey}
      {location : Option Location} (hmethod : Method.ofJson (message.read "method") = some method)
      (hparams : Dict.get message "params" = some (.obj params))
      (hid : Dict.get message "id" = some id) (hkey : hashed id = .ok identifier)
      (hnew : Dict.get router.pending identifier = none)
      (hleaves : router.Leaves config method params forwarded location) :
      Forwarded config router message
        (router.remember identifier { method, threadId := params.read "threadId", location })
        (Dict.set message "params" (.obj forwarded))

variable {message : Members}

theorem Router.outgoing_ok {result : Members}
    (h : router.outgoing config message = .ok (router', result)) :
    router.Forwarded config message router' result := by
  simp only [Router.outgoing] at h
  split at h
  · cases h
  · split at h
    · rename_i hmethod
      obtain ⟨rfl, rfl⟩ := Prod.mk.inj (Except.ok.inj h)
      exact .untouched hmethod
    · rename_i method hmethod
      simp only [Router.route, bind_eq_ok, require_eq_ok, pure_eq_ok, Prod.exists] at h
      obtain ⟨params, id, hparts, identifier, hkey, -, hnew, forwarded, location, hrewrite, hpair⟩ :=
        h
      obtain ⟨rfl, rfl⟩ := Prod.mk.inj hpair
      unfold requestParts at hparts
      split at hparts
      · rename_i params' id' hparams hid
        obtain ⟨rfl, rfl⟩ := Prod.mk.inj (Except.ok.inj hparts)
        exact .routed hmethod hparams hid hkey (by simpa using hnew) (Router.rewrite_ok hrewrite)
      · cases hparts

/-! ### What `incoming` does -/

/-- **What recording an answer does**: it assigns at most one location. -/
inductive Router.Recorded (router : Router) (pending : Pending) (result : Json) : Router → Prop
  | nothing (hlocation : pending.method = .initializing ∨ pending.location = none) :
      Recorded router pending result router
  | learned {members : Members} {id cwd : String} {paths : Option (List String)} {thread : PyKey}
      (hresult : result = .obj members) (hid : threadIdentity members = .ok id)
      (habs : isAbsolute cwd = true) (hthread : hashed pending.threadId = .ok thread)
      (hmethod : pending.method = .threadStart ∨ pending.method = .resume ∨
        pending.method = .fork) :
      Recorded router pending result (router.locate (.str id)
        (Routing.learned pending.location (router.locations.get thread) cwd paths))
  | applied {thread : PyKey} {location : Location} (hthread : hashed pending.threadId = .ok thread)
      (hlocation : pending.location = some location)
      (hmethod : pending.method = .turnStart ∨ pending.method = .settingsUpdate) :
      Recorded router pending result (router.locate thread location)

variable {pending : Pending}

theorem Router.record_ok {result : Json} (h : router.record pending result = .ok router') :
    router.Recorded pending result router' := by
  have happlied : (pending.method = .turnStart ∨ pending.method = .settingsUpdate) →
      router.applied pending = .ok router' → router.Recorded pending result router' := by
    intro hmethod h
    unfold Router.applied at h
    split at h
    · rename_i hnone
      cases h
      exact .nothing (.inr hnone)
    · rename_i location hlocation
      simp only [bind_eq_ok, pure_eq_ok] at h
      obtain ⟨thread, hthread, rfl⟩ := h
      exact .applied hthread hlocation hmethod
  unfold Router.record at h
  split at h
  · rename_i members
    split at h
    all_goals rename_i hmethod
    · simp only [bind_eq_ok, pure_eq_ok] at h
      obtain ⟨id, hid, cwd, hcwd, paths, -, thread, hthread, rfl⟩ := h
      exact .learned rfl hid (absolutePath_ok hcwd).2 hthread (.inl hmethod)
    · simp only [bind_eq_ok, pure_eq_ok] at h
      obtain ⟨id, hid, cwd, hcwd, paths, -, thread, hthread, rfl⟩ := h
      exact .learned rfl hid (absolutePath_ok hcwd).2 hthread (.inr (.inl hmethod))
    · simp only [bind_eq_ok, pure_eq_ok] at h
      obtain ⟨id, hid, cwd, hcwd, paths, -, thread, hthread, rfl⟩ := h
      exact .learned rfl hid (absolutePath_ok hcwd).2 hthread (.inr (.inr hmethod))
    · exact happlied (.inl hmethod) h
    · exact happlied (.inr hmethod) h
    · cases h
      exact .nothing (.inl hmethod)
  · cases h

/-- The message answers no pending request. -/
def Router.Idle (router : Router) (message : Members) : Prop :=
  ∀ id identifier, Dict.get message "method" = none → Dict.get message "id" = some id →
    hashed id = .ok identifier → router.pending.get identifier = none

/-- **What `incoming` does with a message**, and how it ends. -/
inductive Router.Received (router : Router) (message : Members) :
    Router → Except Raised Unit → Prop
  | ignored (hidle : router.Idle message) : Received router message router (.ok ())
  | rejected {raised : Raised} (hidle : router.Idle message) :
      Received router message router (.error raised)
  | noticed {thread : PyKey} {prior : Location} {cwd : String}
      (hmethod : Dict.get message "method" ≠ none)
      (hprior : router.locations.get thread = some prior) (habs : isAbsolute cwd = true) :
      Received router message (router.locate thread
        { cwd, workspaceRoots := retarget (some prior) cwd, enabled := prior.enabled }) (.ok ())
  | unsuccessful {id : Json} {identifier : PyKey} {pending : Pending}
      {outcome : Except Raised Unit} (hmethod : Dict.get message "method" = none)
      (hid : Dict.get message "id" = some id) (hkey : hashed id = .ok identifier)
      (hpending : router.pending.get identifier = some pending)
      (houtcome : (Dict.get message "error").isSome ∨ ∃ raised, outcome = .error raised) :
      Received router message (router.forget identifier) outcome
  | successful {id : Json} {identifier : PyKey} {pending : Pending} {next : Router}
      (hmethod : Dict.get message "method" = none)
      (hid : Dict.get message "id" = some id) (hkey : hashed id = .ok identifier)
      (hpending : router.pending.get identifier = some pending)
      (herror : Dict.get message "error" = none)
      (hrecorded : (router.forget identifier).Recorded pending (message.read "result") next) :
      Received router message next (.ok ())

theorem Router.settingsUpdated_ok (h : router.settingsUpdated message = .ok router') :
    router' = router ∨ ∃ thread prior cwd, router.locations.get thread = some prior ∧
      isAbsolute cwd = true ∧ router' = router.locate thread
        { cwd, workspaceRoots := retarget (some prior) cwd, enabled := prior.enabled } := by
  unfold Router.settingsUpdated at h
  split at h
  · simp only [bind_eq_ok] at h
    obtain ⟨thread, -, h⟩ := h
    split at h
    · rename_i prior settings hprior hsettings
      split at h
      · exact .inl (pure_eq_ok.mp h).symm
      · simp only [bind_eq_ok, pure_eq_ok] at h
        obtain ⟨cwd, hcwd, rfl⟩ := h
        exact .inr ⟨thread, prior, cwd, hprior, (absolutePath_ok hcwd).2, rfl⟩
    · exact .inl (pure_eq_ok.mp h).symm
  · cases h

theorem Router.incoming_received (router : Router) (message : Members) :
    router.Received message (router.incoming message).1 (router.incoming message).2 := by
  unfold Router.incoming
  split
  · rename_i hmethod
    have hidle : router.Idle message := by
      intro id identifier hnone
      rw [hmethod] at hnone
      cases hnone
    cases hsettings : router.settingsUpdated message with
    | error raised => exact .rejected hidle
    | ok next =>
      rcases Router.settingsUpdated_ok hsettings with rfl | ⟨thread, prior, cwd, hprior, habs, rfl⟩
      · exact .ignored hidle
      · exact .noticed (by simp [hmethod]) hprior habs
  · rename_i id hmethod hid
    cases hkey : hashed id with
    | error raised =>
      have hidle : router.Idle message := fun id' identifier _ hid' hkey' => by
        obtain rfl := Option.some.inj (hid.symm.trans hid')
        rw [hkey] at hkey'
        cases hkey'
      show router.Received message router (if router.pending.isEmpty then .ok () else _)
      split
      · exact .ignored hidle
      · exact .rejected hidle
    | ok identifier =>
      simp only [Router.answered]
      split
      · rename_i hnone
        refine .ignored fun id' identifier' _ hid' hkey' => ?_
        obtain rfl := Option.some.inj (hid.symm.trans hid')
        obtain rfl := Except.ok.inj (hkey.symm.trans hkey')
        exact hnone
      · rename_i pending hpending
        split
        · rename_i herror
          exact .unsuccessful hmethod hid hkey hpending (.inl herror)
        · rename_i herror
          split
          · rename_i next hrecord
            exact .successful hmethod hid hkey hpending (by simpa using herror)
              (Router.record_ok hrecord)
          · rename_i raised hrecord
            exact .unsuccessful hmethod hid hkey hpending (.inr ⟨raised, rfl⟩)
  · rename_i hother
    exact .ignored fun id identifier hmethod hid => absurd hid (hother id hmethod)

/-! ### Every message history -/

inductive Act
  | client (message : Members)
  | server (message : Members)

/-- A refused request leaves the router as it was. -/
def Router.step (config : Config) (router : Router) : Act → Option Router
  | .client message =>
    match router.outgoing config message with
    | .ok (next, _) => some next
    | .error _ => some router
  | .server message => some (router.incoming message).1

/-- Every sequence of client and server messages. -/
def routing (config : Config) : LTS Router Act :=
  .ofFun (fun router => router = {}) (Router.step config)

/-- Every recorded or pending directory is absolute. -/
structure Router.Grounded (router : Router) : Prop where
  locations : ∀ thread location, router.locations.get thread = some location →
    isAbsolute location.cwd = true
  pending : ∀ identifier pending location, router.pending.get identifier = some pending →
    pending.location = some location → isAbsolute location.cwd = true

theorem Router.Grounded.locate (h : router.Grounded) {thread : PyKey}
    (habs : isAbsolute location.cwd = true) : (router.locate thread location).Grounded where
  locations := by
    intro other l hl
    simp only [Router.locate, Dict.get_set] at hl
    split at hl
    · cases hl
      exact habs
    · exact h.locations other l hl
  pending := h.pending

theorem Router.Grounded.forget (h : router.Grounded) (identifier : PyKey) :
    (router.forget identifier).Grounded where
  locations := h.locations
  pending := by
    intro other p location hp hlocation
    simp only [Router.forget, Dict.get_erase] at hp
    split at hp
    · cases hp
    · exact h.pending other p location hp hlocation

theorem Router.Grounded.remember (h : router.Grounded) {identifier : PyKey}
    (habs : ∀ location, pending.location = some location → isAbsolute location.cwd = true) :
    (router.remember identifier pending).Grounded where
  locations := h.locations
  pending := by
    intro other p location hp hlocation
    simp only [Router.remember, Dict.get_set] at hp
    split at hp
    · cases hp
      exact habs location hlocation
    · exact h.pending other p location hp hlocation

theorem Router.Grounded.leaves (h : router.Grounded) {method : Method} {forwarded : Members}
    {location : Option Location} (hleaves : router.Leaves config method params forwarded location) :
    ∀ l, location = some l → isAbsolute l.cwd = true := by
  intro l hl
  subst hl
  have hselected : (∃ environments selected thread, hashed (params.read "threadId") = .ok thread ∧
      isUnlocated method params (router.locations.get thread) = false ∧
      Selection config params (router.locations.get thread) environments selected ∧
      forwarded = Dict.set params "environments" environments ∧ some l = some selected) →
      isAbsolute l.cwd = true := by
    rintro ⟨environments, selected, thread, -, -, hselection, -, hsel⟩
    cases hsel
    exact hselection.absolute fun prior hprior => h.locations thread prior hprior
  cases method with
  | initializing => cases hleaves
  | threadStart | turnStart => exact hselected hleaves
  | settingsUpdate =>
    have hupdated := hleaves.2
    simp only [Router.updated] at hupdated
    split at hupdated
    · cases hupdated
    · simp only [bind_eq_ok, pure_eq_ok, Option.some.injEq] at hupdated
      obtain ⟨cwd, hcwd, thread, -, rfl⟩ := hupdated
      exact (absolutePath_ok hcwd).2
  | resume | fork => exact absurd hleaves.2 (by simp)

theorem Router.Grounded.recorded (h : router.Grounded) {result : Json}
    (habs : ∀ location, pending.location = some location → isAbsolute location.cwd = true)
    (hrecorded : router.Recorded pending result router') : router'.Grounded := by
  cases hrecorded with
  | nothing _ => exact h
  | learned hresult hid hcwd hthread hmethod =>
    refine h.locate ?_
    unfold Routing.learned
    split
    · rename_i location hlocation
      split
      · exact habs location hlocation
      · exact hcwd
    · exact hcwd
  | applied hthread hlocation hmethod => exact h.locate (habs _ hlocation)

/-- **Every message keeps the directories absolute.** -/
theorem Router.step_grounded {act : Act} (h : router.Grounded)
    (hstep : router.step config act = some router') : router'.Grounded := by
  cases act with
  | client message =>
    simp only [Router.step] at hstep
    split at hstep
    · rename_i next result hok
      cases hstep
      cases Router.outgoing_ok hok with
      | untouched _ => exact h
      | routed hmethod hparams hid hkey hnew hleaves => exact h.remember (h.leaves hleaves)
    · cases hstep
      exact h
  | server message =>
    cases hstep
    have hreceived := router.incoming_received message
    revert hreceived
    generalize (router.incoming message).1 = next
    generalize (router.incoming message).2 = outcome
    intro hreceived
    cases hreceived with
    | ignored _ | rejected _ => exact h
    | noticed hmethod hprior habs => exact h.locate habs
    | unsuccessful hmethod hid hkey hpending houtcome => exact h.forget _
    | @successful id identifier pending next hmethod hid hkey hpending herror hrecorded =>
      exact (h.forget identifier).recorded (h.pending identifier pending · hpending) hrecorded

theorem routing_grounded {acts : List Act} (h : (routing config).Run acts router) :
    router.Grounded := by
  refine h.invariant (I := fun _ router => router.Grounded) (fun r hr => ?_)
    fun _ _ _ _ _ hi hstep => Router.step_grounded hi hstep
  rw [show r = {} from hr]
  exact ⟨by simp [Dict.get], by simp [Dict.get]⟩

/-- The request is a `thread/start` or a `turn/start`. -/
def isStart (message : Members) : Prop :=
  Method.ofJson (message.read "method") = some .threadStart ∨
    Method.ofJson (message.read "method") = some .turnStart

/-- `result` is `message` with only the `environments` of its params replaced. -/
def Replaces (message result : Members) (environments : Json) : Prop :=
  ∃ params params' : Members, Dict.get message "params" = some (.obj params) ∧
    Dict.get result "params" = some (.obj params') ∧
    Dict.get params' "environments" = some environments ∧
    (∀ key, key ≠ "params" → Dict.get result key = Dict.get message key) ∧
    (∀ key, key ≠ "environments" → Dict.get params' key = Dict.get params key)

/-- The client itself named the directory, at the top level or in its selection. -/
def ClientGave (message : Members) (cwd : String) : Prop :=
  ∃ params : Members, Dict.get message "params" = some (.obj params) ∧
    (params.read "cwd" = .str cwd ∨
      ∃ item : Members, params.read "environments" = .arr [.obj item] ∧ item.read "cwd" = .str cwd)

/-- The thread a request names. -/
def threadOf (message : Members) : Json :=
  match Dict.get message "params" with
  | some (.obj params) => Members.read params "threadId"
  | _ => .null

/-- A start that is forwarded: what replaces its environments, by the location
recorded for its thread. -/
theorem Router.forwarded_start {result : Members} (hstart : isStart message)
    (h : router.Forwarded config message router' result) :
    ∃ (environments : Json) (location : Location) (params : Members) (method : Method)
      (thread : PyKey),
      Replaces message result environments ∧
      Method.ofJson (message.read "method") = some method ∧
      Dict.get message "params" = some (.obj params) ∧
      hashed (threadOf message) = .ok thread ∧
      isUnlocated method params (router.locations.get thread) = false ∧
      Selection config params (router.locations.get thread) environments location := by
  cases h with
  | untouched hmethod => rcases hstart with hs | hs <;> rw [hmethod] at hs <;> cases hs
  | @routed method params forwarded id identifier location hmethod hparams hid hkey hnew hleaves =>
    have hselected : ∃ environments selected thread,
        hashed (params.read "threadId") = .ok thread ∧
        isUnlocated method params (router.locations.get thread) = false ∧
        Selection config params (router.locations.get thread) environments selected ∧
        forwarded = Dict.set params "environments" environments ∧ location = some selected := by
      rcases hstart with hs | hs
      · obtain rfl := Option.some.inj (hmethod.symm.trans hs)
        exact hleaves
      · obtain rfl := Option.some.inj (hmethod.symm.trans hs)
        exact hleaves
    obtain ⟨environments, selected, thread, hthread, hlocated, hselection, hforwarded, -⟩ :=
      hselected
    refine ⟨environments, selected, params, method, thread, ?_, hmethod, hparams, ?_, hlocated,
      hselection⟩
    · refine ⟨params, forwarded, hparams, Dict.get_set_self _ _ _, ?_,
        fun key hkey => Dict.get_set_of_ne _ _ hkey, fun key hkey => ?_⟩
      · rw [hforwarded]
        exact Dict.get_set_self _ _ _
      · rw [hforwarded]
        exact Dict.get_set_of_ne _ _ hkey
    · rw [threadOf, hparams]
      exact hthread

theorem clientGave_of_selection (hparams : Dict.get message "params" = some (.obj params))
    (hlocated : isUnlocated .turnStart params none = false)
    (h : Selection config params none environments location)
    (henabled : location.enabled = true) : ClientGave message location.cwd := by
  cases himp : isImplicit params with
  | false =>
    obtain ⟨-, item, hitem, hread, -⟩ := h.explicit himp
    exact ⟨params, hparams, .inr ⟨item, hitem, hread⟩⟩
  | true =>
    rcases h.given himp with ⟨hread, -⟩ | ⟨hnull, -⟩
    · exact ⟨params, hparams, .inl hread⟩
    · -- nothing supplied and no directory: refused, unless the list is empty
      exfalso
      have hempty : isEmptyArr (params.read "environments") = false := by
        have := h.implicit himp
        rw [henabled] at this
        simpa using this
      have hfalsy : isFalsy (params.read "environments") = true := by
        simp only [isImplicit, hempty, Bool.or_false] at himp
        cases hread : params.read "environments" with
        | null => rfl
        | _ => simp [hread, Json.isNull] at himp
      simp [isUnlocated, hnull, hempty, hfalsy] at hlocated

/-- **Routing is sound over every message history.** A forwarded `thread/start` or
`turn/start` differs from the client's message in its `environments` only, and
carries none or exactly the configured environment at an absolute directory;
every other method but `initialize` passes unchanged; no request, error answer,
answer to an unknown id or message that raises changes a recorded location; and
a turn on a thread without a recorded location goes nowhere the client did not
name. -/
theorem routing_sound {acts : List Act} (h : (routing config).Run acts router) :
    (∀ message router' result, router.outgoing config message = .ok (router', result) →
        isStart message → ∃ environments, Replaces message result environments ∧
          (environments = .arr [] ∨
            ∃ cwd, config.Selects environments cwd ∧ isAbsolute cwd = true)) ∧
      (∀ message router' result, router.outgoing config message = .ok (router', result) →
        ¬ isStart message → Method.ofJson (message.read "method") ≠ some .initializing →
        result = message) ∧
      (∀ message router', router.step config (.client message) = some router' →
        router'.locations = router.locations) ∧
      (∀ message, (∃ raised, (router.incoming message).2 = .error raised) ∨
          Dict.get message "method" = none ∧ ((Dict.get message "error").isSome ∨
            ∀ id identifier, Dict.get message "id" = some id → hashed id = .ok identifier →
              router.pending.get identifier = none) →
        (router.incoming message).1.locations = router.locations) ∧
      (∀ message router' result, router.outgoing config message = .ok (router', result) →
        Method.ofJson (message.read "method") = some .turnStart →
        (∀ thread, hashed (threadOf message) = .ok thread →
          router.locations.get thread = none) →
        ∃ environments, Replaces message result environments ∧
          (environments = .arr [] ∨
            ∃ cwd, config.Selects environments cwd ∧ ClientGave message cwd)) := by
  have hg := routing_grounded h
  refine ⟨fun message router' result hok hstart => ?_, fun message router' result hok hstart hinit =>
    ?_, fun message router' hstep => ?_, fun message hwhy => ?_,
    fun message router' result hok hturn hnone => ?_⟩
  · obtain ⟨environments, location, params, method, thread, hreplaces, -, -, -, -, hselection⟩ :=
      Router.forwarded_start hstart (Router.outgoing_ok hok)
    refine ⟨environments, hreplaces, ?_⟩
    cases henabled : location.enabled with
    | false => exact .inl (hselection.disabled henabled)
    | true => exact .inr ⟨location.cwd, hselection.selects henabled,
        hselection.absolute fun prior hprior => hg.locations thread prior hprior⟩
  · cases Router.outgoing_ok hok with
    | untouched _ => rfl
    | @routed method params forwarded id identifier location hmethod hparams _ _ _ hleaves =>
      have hsame : forwarded = params := by
        cases method with
        | initializing => exact absurd hmethod hinit
        | threadStart => exact absurd (.inl hmethod) hstart
        | turnStart => exact absurd (.inr hmethod) hstart
        | settingsUpdate | resume | fork => exact hleaves.1
      rw [hsame]
      exact Dict.set_of_get hparams
  · simp only [Router.step] at hstep
    split at hstep
    · rename_i next result hok
      cases hstep
      cases Router.outgoing_ok hok with
      | untouched _ | routed _ _ _ _ _ _ => rfl
    · cases hstep
      rfl
  · have hreceived := router.incoming_received message
    revert hreceived hwhy
    generalize (router.incoming message).1 = next
    generalize (router.incoming message).2 = outcome
    intro hwhy hreceived
    cases hreceived with
    | ignored _ | rejected _ => rfl
    | noticed hmethod _ _ =>
      rcases hwhy with ⟨raised, hraised⟩ | ⟨hnone, -⟩
      · cases hraised
      · exact absurd hnone hmethod
    | unsuccessful _ _ _ _ _ => rfl
    | successful _ hid hkey hpending herror _ =>
      rcases hwhy with ⟨raised, hraised⟩ | ⟨-, herr | hunknown⟩
      · cases hraised
      · rw [herror] at herr
        cases herr
      · rw [hunknown _ _ hid hkey] at hpending
        cases hpending
  · obtain ⟨environments, location, params, method, thread, hreplaces, hmethod, hparams, hthread,
      hlocated, hselection⟩ := Router.forwarded_start (.inr hturn) (Router.outgoing_ok hok)
    refine ⟨environments, hreplaces, ?_⟩
    obtain rfl := Option.some.inj (hmethod.symm.trans hturn)
    rw [hnone thread hthread] at hlocated hselection
    cases henabled : location.enabled with
    | false => exact .inl (hselection.disabled henabled)
    | true => exact .inr ⟨location.cwd, hselection.selects henabled,
        clientGave_of_selection hparams hlocated hselection henabled⟩

def launcher : Config where
  environmentId := "foldgpt"
  defaultCwd := "/launcher"
  named := rfl
  absolute := rfl

def resumeRequest : Members :=
  [("id", .int 1), ("method", .str "thread/resume"), ("params", .obj [("threadId", .str "t")])]

def resumeAnswer : Members :=
  [("id", .int 1), ("result", .obj [("thread", .obj [("id", .str "t")]), ("cwd", .str "/project")])]

def plainTurn : Members :=
  [("id", .int 2), ("method", .str "turn/start"), ("params", .obj [("threadId", .str "t")])]

/-- A turn after a resume. -/
theorem routing_sound_resumed : ∃ router router' result environments,
    (routing launcher).Run [.client resumeRequest, .server resumeAnswer] router ∧
      router.outgoing launcher plainTurn = .ok (router', result) ∧
      Replaces plainTurn result environments ∧ (environments = .arr [] ∨
        ∃ cwd, launcher.Selects environments cwd ∧ isAbsolute cwd = true) := by
  obtain ⟨router, hrun, hok⟩ := LTS.exists_run_of_exec (A := routing launcher) (fun h => h) rfl
    [.client resumeRequest, .server resumeAnswer]
    (fun router => (router.outgoing launcher plainTurn).toBool = true) (by decide +kernel)
  cases hout : router.outgoing launcher plainTurn with
  | error raised =>
    rw [hout] at hok
    cases hok
  | ok sent =>
    obtain ⟨router', result⟩ := sent
    obtain ⟨environments, hreplaces, hshape⟩ := (routing_sound hrun).1 plainTurn router' result hout
      (.inr rfl)
    exact ⟨router, router', result, environments, hrun, hout, hreplaces, hshape⟩

end FoldGPT.Routing
