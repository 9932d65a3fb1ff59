import FoldGPT.Json
import FoldGPT.Lib.Checks

/-!
# The environment router

`EnvironmentRouter` rewrites the `environments` of `thread/start` and
`turn/start` on their way to the official server and keeps, per thread, the
location learned from successful answers. `outgoing` computes the location a
request would leave when it is sent; `incoming` records it when the answer
arrives.

A thread id and a request id are arbitrary JSON values used as dictionary keys,
so an unhashable one raises; `Raised` tells the exceptions apart.
-/

namespace FoldGPT.Routing

open FoldGPT.Lib

inductive Raised
  | rpc (error : RpcError)
  | typeError
  | attributeError

def invalid {α : Type} (message : String) : Except Raised α :=
  .error (.rpc { code := -32602, message })

def unexpected {α : Type} (message : String) : Except Raised α :=
  .error (.rpc { code := -32603, message })

/-- A path the client and the environment both read as an absolute GNU path. -/
def isAbsolute (path : String) : Bool :=
  path.toList.head? = some '/' && !path.toList.contains (Char.ofNat 0)

/-- `absolute_path`. -/
def absolutePath : Json → Except Raised String
  | .str path =>
    if isAbsolute path then .ok path
    else invalid "FoldGPT routing requires an absolute GNU path"
  | _ => invalid "FoldGPT routing requires an absolute GNU path"

/-- `roots`. -/
def roots : Json → Except Raised (List String)
  | .arr paths => paths.mapM absolutePath
  | _ => invalid "FoldGPT workspace roots must be an array"

/-- The dictionary key of a value; lists and objects have none. -/
def hashed (value : Json) : Except Raised PyKey :=
  match value.key with
  | some key => .ok key
  | none => .error .typeError

structure Location where
  cwd : String
  workspaceRoots : Option (List String)
  enabled : Bool := true
  deriving DecidableEq, Repr

/-- `retarget`: the former directory among the roots follows the new one. -/
def retarget (prior : Option Location) (cwd : String) : Option (List String) := do
  let location ← prior
  let paths ← location.workspaceRoots
  return (paths.map fun root => if root = location.cwd then cwd else root).eraseDups

/-- What `__init__` accepts for an environment id. -/
def isEnvironmentId (id : String) : Bool :=
  id ≠ "local" && id.toList.map Char.toLower ≠ "none".toList && decide (id.length ≤ 64) &&
    id ≠ "" && id.toList.all fun c => c.isAlphanum || c = '_' || c = '-'

structure Config where
  environmentId : String
  defaultCwd : String
  named : isEnvironmentId environmentId = true
  absolute : isAbsolute defaultCwd = true

/-- The methods `outgoing` looks at. -/
inductive Method
  | initializing
  | threadStart
  | turnStart
  | resume
  | fork
  | settingsUpdate
  deriving DecidableEq, Repr

def Method.ofJson : Json → Option Method
  | .str "initialize" => some .initializing
  | .str "thread/start" => some .threadStart
  | .str "turn/start" => some .turnStart
  | .str "thread/resume" => some .resume
  | .str "thread/fork" => some .fork
  | .str "thread/settings/update" => some .settingsUpdate
  | _ => none

/-- What is remembered of a forwarded request. -/
structure Pending where
  method : Method
  threadId : Json
  location : Option Location

structure Router where
  locations : Dict PyKey Location := []
  pending : Dict PyKey Pending := []

/-- `self.pending[identifier] = pending`. -/
def Router.remember (router : Router) (identifier : PyKey) (pending : Pending) : Router :=
  { router with pending := router.pending.set identifier pending }

/-- `self.pending.pop(identifier, None)`. -/
def Router.forget (router : Router) (identifier : PyKey) : Router :=
  { router with pending := router.pending.erase identifier }

/-- `self.locations[thread] = location`. -/
def Router.locate (router : Router) (thread : PyKey) (location : Location) : Router :=
  { router with locations := router.locations.set thread location }

/-! ### Outgoing requests -/

/-- The entry sent for an environment and the location it stands for. -/
def Config.entry (config : Config) (disabled : Bool) (cwd : String)
    (selected : Option (List String)) : Json × Location :=
  let item : Members := [("environmentId", .str config.environmentId), ("cwd", .str cwd)] ++
    (match selected with
      | none => []
      | some paths => [("runtimeWorkspaceRoots", .arr (paths.map Json.str))])
  (if disabled then .arr [] else .arr [.obj item],
    { cwd, workspaceRoots := some (selected.getD [cwd]), enabled := !disabled })

def isEmptyArr : Json → Bool
  | .arr [] => true
  | _ => false

/-- `None`, or the paths of an array. -/
def optionalRoots (value : Json) : Except Raised (Option (List String)) :=
  if value.isNull then .ok none else (roots value).map some

/-- The members an environment entry may have. -/
def isKnown (key : String) : Bool :=
  ["environmentId", "cwd", "runtimeWorkspaceRoots"].contains key

/-- The branch of `_selection` for an explicit non-empty selection. -/
def Config.explicitSelection (config : Config) (supplied : Json) :
    Except Raised (Json × Location) :=
  match supplied with
  | .arr [.obj item] =>
    if !(Dict.keys item).all isKnown then invalid "Unrecognized FoldGPT environment selection"
    else do
      let id ← hashed (Members.read item "environmentId")
      require (id = .str "local" || id = .str config.environmentId)
        (.rpc { code := -32602, message := "Unrecognized FoldGPT environment selection" })
      let cwd ← absolutePath (Members.read item "cwd")
      let selected ← optionalRoots (Members.read item "runtimeWorkspaceRoots")
      return config.entry false cwd selected
  | .arr [_] => invalid "Unrecognized FoldGPT environment selection"
  | _ => invalid "FoldGPT routing requires one explicit environment"

/-- The client left the selection open, or asked for no environment. -/
def isImplicit (params : Members) : Bool :=
  (params.read "environments").isNull || isEmptyArr (params.read "environments")

/-- The directory without an explicit selection. -/
def Config.implicitCwd (config : Config) (params : Members) (prior : Option Location) :
    Except Raised String :=
  if (params.read "cwd").isNull then .ok ((prior.map Location.cwd).getD config.defaultCwd)
  else absolutePath (params.read "cwd")

/-- The roots without an explicit selection. -/
def implicitRoots (params : Members) (prior : Option Location) (cwd : String) :
    Except Raised (Option (List String)) :=
  if (params.read "runtimeWorkspaceRoots").isNull then .ok (retarget prior cwd)
  else (roots (params.read "runtimeWorkspaceRoots")).map some

/-- `_selection`. -/
def Config.selection (config : Config) (params : Members) (prior : Option Location) :
    Except Raised (Json × Location) :=
  if isImplicit params then do
    let cwd ← config.implicitCwd params prior
    let selected ← implicitRoots params prior cwd
    return config.entry (isEmptyArr (params.read "environments") ||
      prior.any fun location => !location.enabled) cwd selected
  else config.explicitSelection (params.read "environments")

/-- What Python takes for false. -/
def isFalsy : Json → Bool
  | .null => true
  | .bool b => !b
  | .int i => i = 0
  | .float q => q = 0
  | .str s => s = ""
  | .arr items => items.isEmpty
  | .obj members => members.isEmpty

/-- The `capabilities` that `initialize` is sent with. -/
def experimental (params : Members) : Except Raised Members :=
  match params.read "capabilities" with
  | .null => .ok (Dict.set params "capabilities" (.obj [("experimentalApi", .bool true)]))
  | .obj capabilities =>
    .ok (Dict.set params "capabilities" (.obj (Dict.set capabilities "experimentalApi" (.bool true))))
  | _ => invalid "Invalid initialize capabilities"

/-- The location of a `thread/settings/update`, when it names a directory. -/
def Router.updated (router : Router) (params : Members) : Except Raised (Option Location) :=
  if (params.read "cwd").isNull then .ok none
  else do
    let cwd ← absolutePath (params.read "cwd")
    let thread ← hashed (params.read "threadId")
    return some { cwd, workspaceRoots := retarget (router.locations.get thread) cwd,
                  enabled := ((router.locations.get thread).map Location.enabled).getD true }

/-- The case that `outgoing` refuses: a turn on a thread without a location that
names no directory and asks for nothing. -/
def isUnlocated (method : Method) (params : Members) (prior : Option Location) : Bool :=
  decide (method = .turnStart) && prior.isNone && (params.read "cwd").isNull &&
    isFalsy (params.read "environments") && !isEmptyArr (params.read "environments")

/-- The `environments` and the location of a `thread/start` or `turn/start`. -/
def Router.selected (config : Config) (router : Router) (method : Method) (params : Members) :
    Except Raised (Json × Location) := do
  let thread ← hashed (params.read "threadId")
  -- a pipelined resume has not returned its real directory yet
  require (!isUnlocated method params (router.locations.get thread))
    (.rpc { code := -32602,
            message := "Thread location is not known before its successful start or resume" })
  config.selection params (router.locations.get thread)

/-- The params a request is forwarded with and the location it would leave. -/
def Router.rewrite (config : Config) (router : Router) (method : Method) (params : Members) :
    Except Raised (Members × Option Location) :=
  match method with
  | .initializing => (experimental params).map fun params => (params, none)
  | .threadStart | .turnStart =>
    (router.selected config method params).map fun (selected, location) =>
      (Dict.set params "environments" selected, some location)
  | .settingsUpdate => (router.updated params).map fun location => (params, location)
  | .resume | .fork => .ok (params, none)

/-- The members of a request with object params. -/
def requestParts (message : Members) : Except Raised (Members × Json) :=
  match Dict.get message "params", Dict.get message "id" with
  | some (.obj params), some id => .ok (params, id)
  | _, _ => invalid "Routing requires a request with object params"

/-- `outgoing` for the methods it looks at. -/
def Router.route (config : Config) (router : Router) (method : Method) (message : Members) :
    Except Raised (Router × Members) := do
  let (params, id) ← requestParts message
  let identifier ← hashed id
  require (Dict.get router.pending identifier).isNone
    (.rpc { code := -32600, message := "Duplicate pending routing request ID" })
  let (forwarded, location) ← router.rewrite config method params
  return (router.remember identifier { method, threadId := params.read "threadId", location },
    Dict.set message "params" (.obj forwarded))

/-- `outgoing`: the router after it and the message to forward. -/
def Router.outgoing (config : Config) (router : Router) (message : Members) :
    Except Raised (Router × Members) :=
  let method := message.read "method"
  if method.key.isNone then .error .typeError
  else
    match Method.ofJson method with
    | none => .ok (router, message)
    | some method => router.route config method message

/-! ### Incoming messages -/

/-- `d.get(key, {})`. -/
def memberOrEmpty (members : Members) (key : String) : Json :=
  (Dict.get members key).getD (.obj [])

/-- The `thread/settings/updated` notification. -/
def Router.settingsUpdated (router : Router) (message : Members) : Except Raised Router :=
  match memberOrEmpty message "params" with
  | .obj params => do
    let thread ← hashed (Members.read params "threadId")
    match router.locations.get thread, memberOrEmpty params "threadSettings" with
    | some prior, .obj settings =>
      match Dict.get settings "cwd" with
      | none => return router
      | some value => do
        let cwd ← absolutePath value
        return router.locate thread
          { cwd, workspaceRoots := retarget (some prior) cwd, enabled := prior.enabled }
    | _, _ => return router
  | _ => .error .attributeError

/-- The id of the thread an answer describes. -/
def threadIdentity (result : Members) : Except Raised String :=
  match result.read "thread" with
  | .obj thread =>
    match Members.read thread "id" with
    | .str id => .ok id
    | _ => unexpected "Official thread response lacks its identity"
  | _ => unexpected "Official thread response lacks its identity"

/-- The location a start, resume or fork leaves: the one sent if it is enabled,
otherwise the directory of the answer. -/
def learned (sent prior : Option Location) (cwd : String) (paths : Option (List String)) :
    Location :=
  match sent with
  | some location => if location.enabled then location else { cwd, workspaceRoots := paths,
                                                              enabled := false }
  | none => { cwd, workspaceRoots := paths, enabled := (prior.map Location.enabled).getD true }

/-- What the answer of a request that may carry a location records. -/
def Router.applied (router : Router) (pending : Pending) : Except Raised Router :=
  match pending.location with
  | none => .ok router
  | some location => do
    let thread ← hashed pending.threadId
    return router.locate thread location

/-- What a successful answer to `pending` does. -/
def Router.record (router : Router) (pending : Pending) (result : Json) : Except Raised Router :=
  match result with
  | .obj result =>
    match pending.method with
    | .threadStart | .resume | .fork => do
      let id ← threadIdentity result
      let cwd ← absolutePath (Members.read result "cwd")
      let paths ← optionalRoots (Members.read result "runtimeWorkspaceRoots")
      let thread ← hashed pending.threadId
      return router.locate (.str id)
        (learned pending.location (router.locations.get thread) cwd paths)
    | .turnStart | .settingsUpdate => router.applied pending
    | .initializing => .ok router
  | _ => unexpected "Official routing response has an unexpected shape"

/-- An answer: the request is no longer pending even if recording it raises. -/
def Router.answered (router : Router) (message : Members) (identifier : PyKey) :
    Router × Except Raised Unit :=
  match router.pending.get identifier with
  | none => (router, .ok ())
  | some pending =>
    if (Dict.get message "error").isSome then (router.forget identifier, .ok ())
    else
      match (router.forget identifier).record pending (message.read "result") with
      | .ok next => (next, .ok ())
      | .error raised => (router.forget identifier, .error raised)

/-- `incoming`: the router after it, and whether it raised. -/
def Router.incoming (router : Router) (message : Members) : Router × Except Raised Unit :=
  match Dict.get message "method", Dict.get message "id" with
  | some (.str "thread/settings/updated"), _ =>
    match router.settingsUpdated message with
    | .ok next => (next, .ok ())
    | .error raised => (router, .error raised)
  | none, some id =>
    match hashed id with
    | .ok identifier => router.answered message identifier
    -- `pop` of an empty table does not hash its key
    | .error raised => (router, if router.pending.isEmpty then .ok () else .error raised)
  | _, _ => (router, .ok ())

end FoldGPT.Routing
