import FoldGPT.Decode
import FoldGPT.Routing.Router

/-!
# The client's half of the adapter

`to_server` reads the client's lines, lets `EnvironmentRouter.outgoing` rewrite them and writes them
to the official server; an `RpcError` becomes an answer to the client, any other exception ends the
relay. Here `outgoing` is the method as it runs, with the router as the state it changes; the deep
copy it makes of the message may meet the recursion limit.

Main results: `request_keeps_relay`, `unhashable_thread_ends_relay`.
-/

namespace FoldGPT.Routing

open FoldGPT.Lib Option

/-- What the standard library does with a line and with a message. -/
structure Library where
  /-- `json.loads`. -/
  loads : Loads
  /-- `encode_message`. -/
  dumps : Json → List UInt8
  /-- `deepcopy` of the message ends within the recursion limit. -/
  copies : Members → Bool

/-! ### The method as it runs -/

inductive Failure
  | raised (raised : Raised)
  | recursionError

/-- A method of the router: it may change the router before it raises. -/
abbrev Handler (α : Type) := ExceptT Failure (StateM Router) α

/-- A computation that leaves the router alone. -/
def Handler.check {α : Type} (result : Except Raised α) : Handler α :=
  match result with
  | .ok a => pure a
  | .error raised => throw (.raised raised)

/-- `deepcopy(message)`. -/
def Handler.deepcopy (library : Library) (message : Members) : Handler Members :=
  if library.copies message then pure message else throw .recursionError

/-- What `outgoing` returns: the message itself, or a rewritten copy. -/
inductive Routed
  | same
  | copy (message : Members)

/-- `outgoing` for the methods it looks at. -/
def Handler.route (library : Library) (config : Config) (method : Method) (message : Members) :
    Handler Routed := do
  let (params, id) ← Handler.check (requestParts message)
  let identifier ← Handler.check (hashed id)
  let router ← get
  Handler.check (require (Dict.get router.pending identifier).isNone
    (.rpc { code := -32600, message := "Duplicate pending routing request ID" }))
  let result ← Handler.deepcopy library message
  let (forwarded, location) ← Handler.check (router.rewrite config method params)
  modify fun router => router.remember identifier
    { method, threadId := params.read "threadId", location }
  return .copy (Dict.set result "params" (.obj forwarded))

/-- `EnvironmentRouter.outgoing`. -/
def Handler.outgoing (library : Library) (config : Config) (message : Members) : Handler Routed :=
  if (message.read "method").key.isNone then throw (.raised .typeError)
  else
    match Method.ofJson (message.read "method") with
    | none => return .same
    | some method => Handler.route library config method message

/-- What the call returns or raises, and the router behind it. -/
def callOutgoing (library : Library) (config : Config) (message : Members) (router : Router) :
    Except Failure Routed × Router :=
  (Handler.outgoing library config message).run.run router

/-! ### The relay -/

inductive Ending
  | eof
  | framing
  | decoding
  | failed (failure : Failure)

/-- `to_server`: the lines it wrote to the official server and to the client. -/
structure ToServer where
  router : Router
  forwarded : List (List UInt8) := []
  answered : List (List UInt8) := []
  ended : Option Ending := none

/-- `error.response(request_id)`. -/
def RpcError.response (error : RpcError) (id : Json) : Json :=
  .obj [("id", id), ("error", .obj ([("code", .int error.code), ("message", .str error.message)] ++
    (match error.data with
      | none => []
      | some data => [("data", data)])))]

/-- `except RpcError`: requests are answered, the rest is raised again. -/
def ToServer.refuse (library : Library) (relay : ToServer) (message : Members) (error : RpcError) :
    ToServer :=
  match Dict.get message "id", Dict.get message "method" with
  | some id, some _ => { relay with
      answered := relay.answered ++ [library.dumps (RpcError.response error id) ++ [newline]] }
  | _, _ => { relay with ended := some (.failed (.raised (.rpc error))) }

/-- A decoded message is routed. -/
def ToServer.message (library : Library) (config : Config) (relay : ToServer) (line : List UInt8)
    (message : Members) : ToServer :=
  match callOutgoing library config message relay.router with
  | (.ok .same, router) => { relay with router, forwarded := relay.forwarded ++ [line] }
  | (.ok (.copy routed), router) => { relay with
      router, forwarded := relay.forwarded ++ [library.dumps (.obj routed) ++ [newline]] }
  | (.error (.raised (.rpc error)), router) =>
    ToServer.refuse library { relay with router } message error
  | (.error failure, router) => { relay with router, ended := some (.failed failure) }

/-- One turn of the loop in `to_server`. -/
def ToServer.line (library : Library) (config : Config) (relay : ToServer) (line : List UInt8) :
    ToServer :=
  if relay.ended.isSome then relay
  else if line.isEmpty then { relay with ended := some .eof }
  else if !isFrame line then { relay with ended := some .framing }
  else
    match decodeMessage library.loads line with
    | none => { relay with ended := some .decoding }
    | some message => relay.message library config line message

/-! ### Running the method -/

section Run

variable {α β : Type} {library : Library} {config : Config} {router : Router} {message : Members}

@[simp] theorem run_check_ok (a : α) (f : α → Handler β) :
    (Handler.check (.ok a) >>= f).run.run router = (f a).run.run router := rfl

@[simp] theorem run_check_error (raised : Raised) (f : α → Handler β) :
    (Handler.check (.error raised) >>= f).run.run router = (.error (.raised raised), router) := rfl

@[simp] theorem run_get (f : Router → Handler β) :
    (get >>= f : Handler β).run.run router = (f router).run.run router := rfl

theorem run_deepcopy (h : library.copies message = true) (f : Members → Handler β) :
    (Handler.deepcopy library message >>= f).run.run router = (f message).run.run router := by
  unfold Handler.deepcopy
  rw [if_pos h]
  rfl

theorem run_deepcopy_error (h : ¬library.copies message = true) (f : Members → Handler β) :
    (Handler.deepcopy library message >>= f).run.run router = (.error .recursionError, router) := by
  unfold Handler.deepcopy
  rw [if_neg h]
  rfl

/-- The request is not refused before the copy is made. -/
def isFresh (router : Router) (message : Members) : Bool :=
  match requestParts message with
  | .ok (_, id) => id.key.any fun identifier => (Dict.get router.pending identifier).isNone
  | .error _ => false

theorem key_of_method {method : Method} (h : Method.ofJson (message.read "method") = some method) :
    ¬(message.read "method").key.isNone = true := by
  intro hnone
  cases hvalue : message.read "method" with
  | arr items | obj members =>
    rw [hvalue] at h
    cases h
  | null | bool _ | int _ | float _ | str _ =>
    rw [hvalue] at hnone
    cases hnone

/-- **Behind its checks the method does what `Router.outgoing` says**, and it raises without having
changed the router. -/
theorem outgoing_run :
    callOutgoing library config message router =
      if (Method.ofJson (message.read "method")).isSome && isFresh router message &&
          !library.copies message then (.error .recursionError, router)
      else
        match router.outgoing config message with
        | .error raised => (.error (.raised raised), router)
        | .ok (next, routed) => (.ok (if (Method.ofJson (message.read "method")).isSome then
            .copy routed else .same), next) := by
  unfold callOutgoing Handler.outgoing Router.outgoing
  cases hmethod : Method.ofJson (message.read "method") with
  | none =>
    by_cases hkey : (message.read "method").key.isNone = true
    · simp only [if_pos hkey]
      rfl
    · simp only [if_neg hkey, hmethod]
      rfl
  | some method =>
    simp only [if_neg (key_of_method hmethod), hmethod, isSome_some, Bool.true_and, if_true]
    unfold Handler.route Router.route isFresh
    cases requestParts message with
    | error raised => rfl
    | ok parts =>
      obtain ⟨params, id⟩ := parts
      unfold hashed
      cases hid : id.key with
      | none =>
        simp only [hid, ok_bind, error_bind, run_check_ok, run_check_error, any_none,
          Bool.false_and, Bool.false_eq_true, if_false]
      | some identifier =>
        simp only [hid, ok_bind, run_check_ok, run_get, any_some]
        by_cases hfresh : (Dict.get router.pending identifier).isNone = true
        · simp only [hfresh, require, if_true, run_check_ok, ok_bind, Bool.true_and]
          by_cases hcopies : library.copies message = true
          · rw [run_deepcopy hcopies, if_neg (by simp [hcopies])]
            cases router.rewrite config method params with
            | error raised => rfl
            | ok rewritten => rfl
          · rw [run_deepcopy_error hcopies, if_pos (by simp [hcopies])]
        · simp only [hfresh, require, Bool.false_eq_true, if_false, run_check_error, error_bind,
            Bool.false_and]

end Run

/-! ### What the checks raise -/

section Polite

variable {α β : Type}

/-- The computation returns, or it raises an `RpcError`. -/
def Polite : Except Raised α → Prop
  | .ok _ => True
  | .error (.rpc _) => True
  | .error _ => False

theorem polite_bind {x : Except Raised α} {f : α → Except Raised β} :
    Polite (x >>= f) ↔ Polite x ∧ ∀ a, x = .ok a → Polite (f a) := by
  cases x with
  | ok a =>
    constructor
    · rintro h
      refine ⟨trivial, ?_⟩
      rintro _ ⟨⟩
      exact h
    · rintro ⟨-, h⟩
      exact h a rfl
  | error raised =>
    cases raised with
    | rpc error => exact iff_of_true trivial ⟨trivial, nofun⟩
    | typeError | attributeError => exact ⟨False.elim, fun h => h.1⟩

theorem polite_map {x : Except Raised α} {f : α → β} : Polite (x.map f) ↔ Polite x := by
  cases x with
  | ok a => exact Iff.rfl
  | error raised => cases raised <;> exact Iff.rfl

theorem polite_require (condition : Bool) (error : RpcError) :
    Polite (require condition (.rpc error)) := by
  cases condition <;> trivial

theorem polite_absolutePath (value : Json) : Polite (absolutePath value) := by
  cases value with
  | str path =>
    rw [absolutePath]
    split
    · trivial
    · trivial
  | null | bool _ | int _ | float _ | arr _ | obj _ => trivial

theorem polite_mapM {f : α → Except Raised β} (h : ∀ a, Polite (f a)) (items : List α) :
    Polite (items.mapM f) := by
  induction items with
  | nil => trivial
  | cons a rest ih =>
    rw [List.mapM_cons, polite_bind]
    refine ⟨h a, fun b _ => ?_⟩
    rw [polite_bind]
    exact ⟨ih, fun _ _ => trivial⟩

theorem polite_roots (value : Json) : Polite (roots value) := by
  cases value with
  | arr paths => exact polite_mapM polite_absolutePath paths
  | null | bool _ | int _ | float _ | str _ | obj _ => trivial

theorem polite_optionalRoots (value : Json) : Polite (optionalRoots value) := by
  unfold optionalRoots
  split
  · trivial
  · exact polite_map.mpr (polite_roots value)

theorem polite_hashed {value : Json} : Polite (hashed value) ↔ value.key.isNone = false := by
  unfold hashed
  cases value.key with
  | none => exact ⟨False.elim, nofun⟩
  | some key => exact ⟨fun _ => rfl, fun _ => trivial⟩

theorem polite_experimental (params : Members) : Polite (experimental params) := by
  unfold experimental
  split
  · trivial
  · trivial
  · trivial

/-- A selection of one entry, without unknown members, whose environment id is an array or an
object. -/
def isUnhashableEntry : Json → Bool
  | .arr [.obj item] =>
    (Dict.keys item).all isKnown && (Members.read item "environmentId").key.isNone
  | _ => false

/-- The request gives an array or an object where a thread or an environment is looked up. -/
def isUnhashable (method : Method) (params : Members) : Bool :=
  match method with
  | .threadStart | .turnStart =>
    (params.read "threadId").key.isNone || isUnhashableEntry (params.read "environments")
  | .settingsUpdate => (absolutePath (params.read "cwd")).isOk && (params.read "threadId").key.isNone
  | .initializing | .resume | .fork => false

variable {config : Config} {router : Router} {params : Members} {prior : Option Location}

theorem explicitSelection_entry (item : Members) :
    Polite (config.explicitSelection (.arr [.obj item])) ↔
      isUnhashableEntry (.arr [.obj item]) = false := by
  rw [Config.explicitSelection, isUnhashableEntry]
  cases (Dict.keys item).all isKnown with
  | false => exact iff_of_true trivial rfl
  | true =>
    rw [if_neg (by decide), Bool.true_and, polite_bind, polite_hashed]
    refine and_iff_left fun id _ => polite_bind.mpr ⟨polite_require _ _, fun _ _ => ?_⟩
    refine polite_bind.mpr ⟨polite_absolutePath _, fun cwd _ => ?_⟩
    exact polite_bind.mpr ⟨polite_optionalRoots _, fun _ _ => trivial⟩

theorem explicitSelection_polite_iff (supplied : Json) :
    Polite (config.explicitSelection supplied) ↔ isUnhashableEntry supplied = false := by
  cases supplied with
  | arr items =>
    match items with
    | [.obj item] => exact explicitSelection_entry item
    | [] => exact iff_of_true trivial rfl
    | [.null] | [.bool _] | [.int _] | [.float _] | [.str _] | [.arr _] =>
      exact iff_of_true trivial rfl
    | first :: second :: rest => cases first <;> exact iff_of_true trivial rfl
  | null | bool _ | int _ | float _ | str _ | obj _ => exact iff_of_true trivial rfl

/-- Without an explicit selection no environment is looked up. -/
theorem isUnhashableEntry_of_implicit (h : isImplicit params = true) :
    isUnhashableEntry (params.read "environments") = false := by
  unfold isImplicit at h
  cases hvalue : params.read "environments" with
  | arr items =>
    cases items with
    | nil => rfl
    | cons item rest =>
      rw [hvalue] at h
      cases h
  | null | bool _ | int _ | float _ | str _ | obj _ => rfl

theorem selection_polite_iff :
    Polite (config.selection params prior) ↔
      isUnhashableEntry (params.read "environments") = false := by
  unfold Config.selection
  by_cases h : isImplicit params = true
  · rw [if_pos h, isUnhashableEntry_of_implicit h]
    refine iff_of_true (polite_bind.mpr ⟨?_, fun cwd _ => polite_bind.mpr ⟨?_, fun _ _ => ?_⟩⟩) rfl
    · unfold Config.implicitCwd
      split
      · trivial
      · exact polite_absolutePath _
    · unfold implicitRoots
      split
      · trivial
      · exact polite_map.mpr (polite_roots _)
    · trivial
  · rw [if_neg h]
    exact explicitSelection_polite_iff _

/-- A turn without a location names no environment that could be looked up. -/
theorem isUnhashableEntry_of_unlocated {method : Method}
    (h : isUnlocated method params prior = true) :
    isUnhashableEntry (params.read "environments") = false := by
  unfold isUnlocated at h
  cases hvalue : params.read "environments" with
  | arr items =>
    cases items with
    | nil => rfl
    | cons item rest => simp [hvalue, isFalsy] at h
  | null | bool _ | int _ | float _ | str _ | obj _ => rfl

theorem selected_polite_iff {method : Method} :
    Polite (router.selected config method params) ↔
      ((params.read "threadId").key.isNone ||
        isUnhashableEntry (params.read "environments")) = false := by
  unfold Router.selected
  rw [polite_bind, polite_hashed, Bool.or_eq_false_iff]
  refine and_congr_right fun hthread => ?_
  obtain ⟨thread, hkey⟩ := isSome_iff_exists.mp (isNone_eq_false_iff.mp hthread)
  have hhashed : hashed (params.read "threadId") = .ok thread := by rw [hashed, hkey]
  constructor
  · intro h
    obtain ⟨-, hselection⟩ := polite_bind.mp (h thread hhashed)
    cases hunlocated : isUnlocated method params (router.locations.get thread) with
    | true => exact isUnhashableEntry_of_unlocated hunlocated
    | false => exact selection_polite_iff.mp (hselection () (by rw [hunlocated]; rfl))
  · intro h _ _
    exact polite_bind.mpr ⟨polite_require _ _, fun _ _ => selection_polite_iff.mpr h⟩

theorem updated_polite_iff :
    Polite (router.updated params) ↔
      ((absolutePath (params.read "cwd")).isOk && (params.read "threadId").key.isNone) = false := by
  unfold Router.updated
  cases hvalue : params.read "cwd" with
  | null => exact iff_of_true trivial rfl
  | str path =>
    have hnamed : ¬(Json.str path).isNull = true := Bool.false_ne_true
    rw [if_neg hnamed, polite_bind]
    cases habsolute : absolutePath (.str path) with
    | error raised =>
      have hpolite := polite_absolutePath (.str path)
      rw [habsolute] at hpolite
      exact iff_of_true ⟨hpolite, nofun⟩ rfl
    | ok cwd =>
      have hok : (Except.ok cwd : Except Raised String).isOk = true := rfl
      rw [hok, Bool.true_and, ← polite_hashed]
      constructor
      · rintro ⟨-, h⟩
        exact (polite_bind.mp (h cwd rfl)).1
      · exact fun h => ⟨trivial, fun _ _ => polite_bind.mpr ⟨h, fun _ _ => trivial⟩⟩
  | bool _ | int _ | float _ | arr _ | obj _ => exact iff_of_true trivial rfl

/-- **What makes the rewriting raise something else than an `RpcError`.** -/
theorem rewrite_polite_iff (config : Config) (router : Router) (method : Method) :
    Polite (router.rewrite config method params) ↔ isUnhashable method params = false := by
  cases method with
  | initializing => exact iff_of_true (polite_map.mpr (polite_experimental params)) rfl
  | resume | fork => exact iff_of_true trivial rfl
  | threadStart | turnStart => exact polite_map.trans selected_polite_iff
  | settingsUpdate => exact polite_map.trans updated_polite_iff

end Polite

/-! ### Requests -/

section Requests

variable {library : Library} {config : Config} {router : Router} {message : Members}

/-- The call returns, or it raises an `RpcError`. -/
def Settles : Except Failure Routed → Prop
  | .ok _ => True
  | .error (.raised (.rpc _)) => True
  | .error _ => False

/-- The request is not refused for its form or its id, and then it is nested too deep to be copied
or names what cannot be looked up. -/
def stumbles (library : Library) (router : Router) (message : Members) : Bool :=
  match Method.ofJson (message.read "method"), requestParts message with
  | some method, .ok (params, _) =>
    isFresh router message && (!library.copies message || isUnhashable method params)
  | _, _ => false

theorem hashed_of_envelope (h : isEnvelope message = true) {params : Members} {id : Json}
    (hparts : requestParts message = .ok (params, id)) :
    ∃ identifier, id.key = some identifier := by
  unfold requestParts at hparts
  split at hparts
  next hid =>
    cases hparts
    unfold isEnvelope at h
    rw [hid, Bool.and_eq_true] at h
    exact isSome_iff_exists.mp (isNone_eq_false_iff.mp (key_of_isRequestId h.1))
  next => cases hparts

theorem polite_requestParts : Polite (requestParts message) := by
  unfold requestParts
  split
  · trivial
  · trivial

theorem settles_of_polite {α : Type} {x : Except Raised α} (h : Polite x) {raised : Raised}
    (hx : x = .error raised) : Settles (.error (.raised raised)) := by
  subst hx
  cases raised with
  | rpc error => trivial
  | typeError | attributeError => exact h

theorem outgoing_settles_iff (h : isEnvelope message = true) :
    Settles (callOutgoing library config message router).1 ↔
      stumbles library router message = false := by
  rw [outgoing_run]
  unfold stumbles Router.outgoing
  simp only [method_key_of_envelope h, Bool.false_eq_true, if_false]
  cases Method.ofJson (message.read "method") with
  | none => exact iff_of_true trivial rfl
  | some method =>
    unfold Router.route isFresh
    cases hparts : requestParts message with
    | error raised => exact iff_of_true (settles_of_polite polite_requestParts hparts) rfl
    | ok parts =>
      obtain ⟨params, id⟩ := parts
      obtain ⟨identifier, hid⟩ := hashed_of_envelope h hparts
      simp only [ok_bind, hashed, hid, any_some]
      cases (Dict.get router.pending identifier).isNone with
      | false => exact iff_of_true trivial rfl
      | true =>
        cases library.copies message with
        | false => exact ⟨False.elim, nofun⟩
        | true =>
          simp only [Bool.not_true, Bool.and_false, Bool.false_eq_true, if_false, Bool.true_and,
            Bool.false_or]
          rw [← rewrite_polite_iff config router method]
          cases router.rewrite config method params with
          | ok rewritten => exact iff_of_true trivial trivial
          | error raised => cases raised <;> exact Iff.rfl

/-- **A method that raises has not changed the router.** -/
theorem outgoing_error_keeps {failure : Failure}
    (h : (callOutgoing library config message router).1 = .error failure) :
    (callOutgoing library config message router).2 = router := by
  rw [outgoing_run] at h ⊢
  split at h
  next hdeep => rw [if_pos hdeep]
  next hdeep =>
    rw [if_neg hdeep]
    cases hout : router.outgoing config message with
    | error raised => rfl
    | ok result =>
      rw [hout] at h
      cases h

/-- A message with an id and a method. -/
def isRequest (message : Members) : Bool :=
  (Dict.get message "id").isSome && (Dict.get message "method").isSome

variable {relay : ToServer}

theorem line_eq_message {line : List UInt8} (hrunning : relay.ended = none)
    (hframe : isFrame line = true) (hdecode : decodeMessage library.loads line = some message) :
    relay.line library config line = relay.message library config line message := by
  have hnonempty : line.isEmpty = false := isEmpty_of_isFrame hframe
  unfold ToServer.line
  simp [hrunning, hnonempty, hframe, hdecode]

theorem refuse_ended (h : isRequest message = true) (error : RpcError) :
    (relay.refuse library message error).ended = relay.ended := by
  obtain ⟨hid, hmethod⟩ := Bool.and_eq_true_iff.mp h
  obtain ⟨id, hid⟩ := isSome_iff_exists.mp hid
  obtain ⟨method, hmethod⟩ := isSome_iff_exists.mp hmethod
  rw [ToServer.refuse, hid, hmethod]

theorem message_ended_iff {line : List UInt8} (hrunning : relay.ended = none)
    (hrequest : isRequest message = true) :
    (relay.message library config line message).ended = none ↔
      Settles (callOutgoing library config message relay.router).1 := by
  unfold ToServer.message
  rcases callOutgoing library config message relay.router with ⟨result, router⟩
  match result with
  | .ok .same => exact iff_of_true hrunning trivial
  | .ok (.copy _) => exact iff_of_true hrunning trivial
  | .error (.raised (.rpc error)) =>
    exact iff_of_true ((refuse_ended hrequest error).trans hrunning) trivial
  | .error (.raised .typeError) => exact ⟨nofun, False.elim⟩
  | .error (.raised .attributeError) => exact ⟨nofun, False.elim⟩
  | .error .recursionError => exact ⟨nofun, False.elim⟩

/-- **Requests keep the relay running.** For every decoded message and every router the method
returns or raises an `RpcError` exactly if the message does not stumble; if it raises, the router is
as before; and a request that is framed and decoded leaves the relay running exactly then. -/
theorem request_keeps_relay (library : Library) (config : Config) (router : Router)
    (line : List UInt8) (message : Members)
    (hdecode : decodeMessage library.loads line = some message) :
    (Settles (callOutgoing library config message router).1 ↔
      stumbles library router message = false) ∧
    (∀ failure, (callOutgoing library config message router).1 = .error failure →
      (callOutgoing library config message router).2 = router) ∧
    ∀ relay : ToServer, relay.router = router → relay.ended = none → isFrame line = true →
      isRequest message = true →
      ((relay.line library config line).ended = none ↔
        stumbles library router message = false) := by
  have hsettles : Settles (callOutgoing library config message router).1 ↔
      stumbles library router message = false :=
    outgoing_settles_iff (envelope_of_decode hdecode)
  refine ⟨hsettles, fun failure => outgoing_error_keeps, ?_⟩
  rintro relay rfl hrunning hframe hrequest
  rw [line_eq_message hrunning hframe hdecode]
  exact (message_ended_iff hrunning hrequest).trans hsettles

end Requests

/-- An ASCII text and its newline. -/
def textLine (text : String) : List UInt8 :=
  text.toList.map (fun c => UInt8.ofNat c.toNat) ++ [newline]

/-- A library that reads one line and has room for every copy. -/
def reading (text : String) (message : Members) : Library where
  loads line := if line = textLine text then some (.obj message) else none
  dumps _ := []
  copies _ := true

def stdioConfig : Config where
  environmentId := "foldgpt"
  defaultCwd := "/launcher"
  named := by decide
  absolute := by decide

def startText : String := "\x7b\"id\":1,\"method\":\"thread/start\",\"params\":\x7b\x7d\x7d"

def startMessage : Members :=
  [("id", .int 1), ("method", .str "thread/start"), ("params", .obj [])]

theorem request_keeps_relay_start :
    (({ router := {} } : ToServer).line (reading startText startMessage) stdioConfig
      (textLine startText)).ended = none := by
  have hdecode : decodeMessage (reading startText startMessage).loads (textLine startText) =
      some startMessage := rfl
  obtain ⟨-, -, hrelay⟩ := request_keeps_relay (reading startText startMessage) stdioConfig {}
    (textLine startText) startMessage hdecode
  exact (hrelay { router := {} } rfl rfl (by decide +kernel) (by decide)).mpr (by decide +kernel)

def turnText : String :=
  "\x7b\"id\":1,\"method\":\"turn/start\",\"params\":\x7b\"threadId\":[]\x7d\x7d"

def turnMessage : Members :=
  [("id", .int 1), ("method", .str "turn/start"), ("params", .obj [("threadId", .arr [])])]

/-- **A request that ends the relay**: the thread id is an array, so its lookup raises a
`TypeError`. -/
theorem unhashable_thread_ends_relay :
    decodeMessage (reading turnText turnMessage).loads (textLine turnText) = some turnMessage ∧
      isFrame (textLine turnText) = true ∧ isRequest turnMessage = true ∧
      (callOutgoing (reading turnText turnMessage) stdioConfig turnMessage {}).1 =
        .error (.raised .typeError) ∧
      (({ router := {} } : ToServer).line (reading turnText turnMessage) stdioConfig
        (textLine turnText)).ended = some (.failed (.raised .typeError)) := by
  have hdecode : decodeMessage (reading turnText turnMessage).loads (textLine turnText) =
      some turnMessage := rfl
  refine ⟨hdecode, by decide +kernel, by decide, rfl, ?_⟩
  rw [line_eq_message rfl (by decide +kernel) hdecode]
  rfl

end FoldGPT.Routing
