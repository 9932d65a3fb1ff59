import Mathlib.Algebra.GroupWithZero.Nat
import Mathlib.Algebra.Ring.Int.Defs
import FoldGPT.Json
import FoldGPT.Lib.Base64
import FoldGPT.Lib.Url

/-!
# Operations and their wire fields

The methods of the exec server and `validate_operation`: which members each
operation must and may have and what type each member has. The checks run in
the order of the source, so the first failing one names the error.
-/

namespace FoldGPT.ExecServer

open FoldGPT.Lib

/-- `BACKEND_METHODS`. -/
inductive BackendMethod
  | processStart
  | processRead
  | processWrite
  | processSignal
  | processTerminate
  | readFile
  | open
  | readBlock
  | close
  | writeFile
  | createDirectory
  | getMetadata
  | canonicalize
  | readDirectory
  | walk
  | remove
  | copy
  | discover
  | configRead
  | httpRequest
  deriving DecidableEq, Repr

namespace BackendMethod

def name : BackendMethod → String
  | processStart => "process/start"
  | processRead => "process/read"
  | processWrite => "process/write"
  | processSignal => "process/signal"
  | processTerminate => "process/terminate"
  | readFile => "fs/readFile"
  | .open => "fs/open"
  | readBlock => "fs/readBlock"
  | close => "fs/close"
  | writeFile => "fs/writeFile"
  | createDirectory => "fs/createDirectory"
  | getMetadata => "fs/getMetadata"
  | canonicalize => "fs/canonicalize"
  | readDirectory => "fs/readDirectory"
  | walk => "fs/walk"
  | remove => "fs/remove"
  | copy => "fs/copy"
  | discover => "capabilityRoots/discoverV1"
  | configRead => "environmentConfig/read"
  | httpRequest => "http/request"

def all : List BackendMethod :=
  [processStart, processRead, processWrite, processSignal, processTerminate, readFile, .open,
    readBlock, close, writeFile, createDirectory, getMetadata, canonicalize, readDirectory, walk,
    remove, copy, discover, configRead, httpRequest]

/-- The backend method of that name. -/
def ofName (s : String) : Option BackendMethod := all.find? fun m => m.name = s

end BackendMethod

/-- `CONTROL_METHODS`, admitted apart from the ordinary requests. -/
def isControl (method : String) : Bool :=
  ["environment/info", "environment/status", "process/signal", "process/terminate",
    "fs/close"].contains method

/-- The required and the optional members of an operation; `none` leaves the
schema to the backend. -/
def schema : BackendMethod → Option (List String × List String)
  | .processStart => some (["processId", "argv", "cwd", "env", "tty"],
      ["envPolicy", "shellSnapshot", "pipeStdin", "arg0", "sandbox", "enforceManagedNetwork",
        "managedNetwork", "networkProxy"])
  | .processRead => some (["processId"], ["afterSeq", "maxBytes", "waitMs"])
  | .processWrite => some (["processId", "chunk", "writeId"], [])
  | .processSignal => some (["processId", "signal"], [])
  | .processTerminate => some (["processId"], [])
  | .readFile => some (["path"], ["sandbox", "followSymlinks"])
  | .open => some (["path", "handleId"], ["sandbox"])
  | .readBlock => some (["handleId", "offset", "len"], [])
  | .close => some (["handleId"], [])
  | .writeFile => some (["path", "dataBase64"], ["sandbox", "followSymlinks"])
  | .createDirectory => some (["path"], ["sandbox", "recursive", "followSymlinks"])
  | .getMetadata => some (["path"], ["sandbox", "followSymlinks"])
  | .canonicalize => some (["path"], ["sandbox"])
  | .readDirectory => some (["path"], ["sandbox"])
  | .walk => some (["path", "options"], ["sandbox"])
  | .remove => some (["path"], ["sandbox", "recursive", "force", "followSymlinks"])
  | .copy => some (["sourcePath", "destinationPath", "recursive"], ["sandbox"])
  | .discover => some (["roots"], [])
  | .configRead => none
  | .httpRequest => none

def invalidParams {α : Type} (message : String) : Except RpcError α :=
  .error { code := -32602, message }

/-- `", ".join(sorted(names))`. -/
def joinSorted (names : List String) : String :=
  ", ".intercalate (names.mergeSort (fun a b => decide (a ≤ b)))

/-- `_fields`. -/
def fields (params : Json) (required optional : List String) : Except RpcError Members :=
  match params with
  | .obj members =>
    let missing := required.filter fun k => !(Dict.keys members).contains k
    let unknown := (Dict.keys members).filter fun k => !(required.contains k || optional.contains k)
    if missing ≠ [] then invalidParams ("Missing required parameters: " ++ joinSorted missing)
    else if unknown ≠ [] then invalidParams ("Unsupported parameters: " ++ joinSorted unknown)
    else .ok members
  | _ => invalidParams "params must be an object"

/-- `_type(value, kind, name)` for the kind that `cast` recognises. -/
def typed {α : Type} (cast : Option α) (name : String) : Except RpcError α :=
  match cast with
  | some a => .ok a
  | none => invalidParams (name ++ " has an invalid type")

/-- `_uri`. -/
def uri (rules : Url.NetlocRules) (value : Json) (name : String) : Except RpcError Unit := do
  let text ← typed value.asStr name
  let wrong : Except RpcError Unit := invalidParams (name ++ " must be an absolute file URI")
  match Url.urlsplit rules text.toList with
  | none => wrong
  | some parsed =>
    if parsed.scheme ≠ "file".toList ∨ parsed.path.head? ≠ some '/' ∨ parsed.query ≠ [] ∨
        parsed.fragment ≠ [] ∨ text.toList.contains (Char.ofNat 0) then wrong
    else .ok ()

/-- `_base64`: canonical base64 only. -/
def base64 (value : Json) (name : String) : Except RpcError Unit := do
  let text ← typed value.asStr name
  if (Base64.decode text.toList).map Base64.encode = some text.toList then .ok ()
  else invalidParams (name ++ " must contain canonical base64")

/-- The check of one member, by its key. -/
def checkMember (rules : Url.NetlocRules) (key : String) (value : Json) : Except RpcError Unit :=
  if ["processId", "handleId", "writeId", "arg0", "signal"].contains key then do
    let _ ← typed value.asStr key
  else if ["path", "cwd", "sourcePath", "destinationPath"].contains key then uri rules value key
  else if ["tty", "pipeStdin", "recursive", "force", "followSymlinks",
      "enforceManagedNetwork"].contains key then
    typed (if value.isBool then some () else none) key
  else if ["offset", "len", "afterSeq", "maxBytes", "waitMs"].contains key then
    match value with
    | .int i =>
      if 0 ≤ i ∧ i < 2 ^ 64 then .ok ()
      else invalidParams (key ++ " must be an unsigned 64-bit integer")
    | _ => invalidParams (key ++ " must be an unsigned 64-bit integer")
  else if ["sandbox", "managedNetwork", "networkProxy", "envPolicy", "shellSnapshot",
      "options"].contains key then do
    let _ ← typed value.asObj key
  else if ["chunk", "dataBase64"].contains key then base64 value key
  else if key = "argv" then do
    let items ← typed value.asArr key
    items.forM fun item => do
      let _ ← typed item.asStr "argv item"
  else if key = "env" then do
    let members ← typed value.asObj key
    members.forM fun entry => do
      let _ ← typed entry.2.asStr "env value"
  else if key = "roots" then do
    let items ← typed value.asArr key
    items.forM fun root => do
      let members ← fields root ["id", "path"] ["sandbox"]
      let _ ← typed (members.read "id").asStr "root id"
      uri rules (members.read "path") "root path"
      match members.read "sandbox" with
      | .null => .ok ()
      | sandbox => do let _ ← typed sandbox.asObj "root sandbox"
  else .ok ()

/-- `validate_operation`; the members are those of the validated params. -/
def validateOperation (rules : Url.NetlocRules) (method : BackendMethod) (params : Json) :
    Except RpcError Members :=
  match schema method with
  | none => typed params.asObj "params"
  | some (required, optional) => do
    let members ← fields params required optional
    members.forM fun (key, value) =>
      match value, optional.contains key with
      | .null, true =>
        if key = "pipeStdin" ∨ key = "enforceManagedNetwork" then
          invalidParams (key ++ " cannot be null")
        else .ok ()
      | _, _ => checkMember rules key value
    match method, members.read "signal" with
    | .processSignal, .str "interrupt" => .ok members
    | .processSignal, _ => invalidParams "Unsupported process signal"
    | _, _ => .ok members

end FoldGPT.ExecServer
