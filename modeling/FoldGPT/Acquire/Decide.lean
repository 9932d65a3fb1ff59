import Mathlib.Algebra.GroupWithZero.Nat
import Mathlib.Algebra.Ring.Int.Defs
import FoldGPT.Files.CreateDirectory

/-!
# The acquisition policies

A confined worker's file system calls are stopped and put to Python one by one:
`Policy.decide` answers the requests of the Bionic supervisor (`runner.c`),
`NativeProcessPolicy.decide` those of the managed native runner. Both decode
the copied path, inspect the workspace and judge the path; the first turns
permission and decoding errors into a refusal and lets every other exception
out, the second lets all of them out. An exception ends the control channel,
and with it every process of the session.
-/

namespace FoldGPT.Acquire

open FoldGPT.Lib FoldGPT.Lib.Encoding FoldGPT.Files

/-! ### Open flags, as Linux on arm64 numbers them -/

def O_ACCMODE : Nat := 0o3
def O_RDONLY : Nat := 0o0
def O_WRONLY : Nat := 0o1
def O_CREAT : Nat := 0o100
def O_EXCL : Nat := 0o200
def O_NOCTTY : Nat := 0o400
def O_TRUNC : Nat := 0o1000
def O_APPEND : Nat := 0o2000
def O_NONBLOCK : Nat := 0o4000
def O_DIRECTORY : Nat := 0o40000
def O_NOFOLLOW : Nat := 0o100000
def O_LARGEFILE : Nat := 0o400000
def O_CLOEXEC : Nat := 0o2000000

def EACCES : Nat := 13

/-- The access mode of an open: `flags & O_ACCMODE`. -/
def accessMode (flags : Nat) : Nat := flags &&& O_ACCMODE

def creates (flags : Nat) : Bool := flags &&& O_CREAT != 0
def truncates (flags : Nat) : Bool := flags &&& O_TRUNC != 0

/-! ### The policy of a Bionic process -/

/-- What stays fixed of `Policy`: the file backend, the managed policy and the working
directory, which `__init__` read from a URI and found inside the mount. -/
structure Policy where
  files : Backend
  policy : ManagedPolicy
  executionCwd : GuestPath
  clean : executionCwd.Clean
  inside : files.mount.guest.contains executionCwd = true

/-- `operation`. -/
inductive Operation
  | opening
  | metadata
  | mkdir
  | list
  deriving DecidableEq, Repr

/-- An `acquire` request. -/
structure Request where
  id : Nat
  operation : Operation
  flags : Nat
  pathHex : List Char

/-- A decision record. -/
structure Record where
  id : Nat
  error : Nat
  relative : List Char
  device : UInt64
  inode : UInt64
  parentDevice : UInt64
  parentInode : UInt64
  deriving DecidableEq, Repr

/-- The loop body of `parts` over the components. -/
def resolveStep (output : Path) (component : Name) : Path :=
  if component = [] ∨ component = dot then output
  else if component = dotDot then output.dropLast
  else output ++ [component]

/-- Lexical resolution of a copied path. -/
def Policy.resolve (p : Policy) (value : List Char) : Path :=
  (value.splitOn '/').foldl resolveStep
    (if value.head? = some '/' then [] else p.executionCwd.parts)

/-- `Policy.parts`. -/
def Policy.parts (p : Policy) (value : List Char) : Except Failure Path := do
  require (value != [] && !value.contains '\x00') (.value "Invalid copied pathname")
  require (p.files.mount.guest.contains ⟨p.resolve value⟩)
    (.permission "Path is outside the explicitly mapped workspace")
  pure ((p.resolve value).drop p.files.mount.guest.parts.length)

/-- Whether the request reads. -/
def reads (operation : Operation) (flags : Nat) : Bool :=
  operation != .mkdir && (operation != .opening || accessMode flags != O_WRONLY)

/-- Whether the request writes, `missing` being whether nothing is at its path. -/
def writes (operation : Operation) (flags : Nat) (missing : Bool) : Bool :=
  operation = .mkdir || (operation = .opening &&
    (accessMode flags != O_RDONLY || truncates flags || creates flags && missing))

/-- The checks and the answer of `decide` once the path is resolved and the tree
inspected. -/
def Policy.judge (p : Policy) (found : Found) (parts : Path) (request : Request) :
    Except Failure Record := do
  let node := found.nodes.get parts
  let parent := found.directories.get parts.dropLast
  whenever (reads request.operation request.flags) (requireRead p.files p.policy parts)
  whenever (request.operation = .list)
    ((listing p.files p.policy parts found.nodes).map fun _ => ())
  whenever (writes request.operation request.flags node.isNone) do
    requireWrite p.files p.policy (p.files.guest parts) found.metadata
    require (!(parts.getLastD [] = dotGit && request.operation = .opening && node.isNone))
      (.permission "Creating gitdir aliases is not implemented")
  require (node.all fun info => info.isReg || info.isDir)
    (.permission "Unsupported filesystem object")
  pure {
    id := request.id, error := 0, relative := relative parts
    device := (node.map Info.dev).getD 0, inode := (node.map Info.ino).getD 0
    parentDevice := (parent.map Info.dev).getD 0, parentInode := (parent.map Info.ino).getD 0 }

/-- The body of the `try` of `decide`. -/
def Policy.attempt (p : Policy) (w : Workspace) (request : Request) : Except Failure Record :=
  match fromHex request.pathHex with
  | none => .error (.value "non-hexadecimal number found in fromhex() arg")
  | some raw => do
    require (raw != [] && raw.length < 4096 && toHex raw = request.pathHex)
      (.value "Invalid copied pathname encoding")
    match utf8Decode raw with
    | none => .error .unicode
    | some value => do
      let parts ← p.parts value
      let found ← inspect p.files w
      p.judge found parts request

/-- The refusal with `EACCES`. -/
def refusal (id : Nat) : Record := ⟨id, EACCES, [], 0, 0, 0, 0⟩

/-- The `except` clause of `decide`. -/
def refuse (id : Nat) : Except Failure Record → Except Failure Record
  | .error (.permission _) => .ok (refusal id)
  | .error .unicode => .ok (refusal id)
  | result => result

/-- `Policy.decide`. -/
def Policy.decide (p : Policy) (w : Workspace) (request : Request) : Except Failure Record := do
  require (request.id < 2 ^ 64) (.value "Invalid notification identity")
  require (request.flags < 2 ^ 64) (.value "Invalid operation flags")
  refuse request.id (p.attempt w request)

/-! ### The request and the answer on the C side -/

def MAX_PATH : Nat := 4096

/-- The request `authorize` writes for a copied path. -/
def acquire (id : Nat) (path : List UInt8) (operation : Operation) (flags : Nat) : Request :=
  ⟨id, operation, flags, toHex path⟩

/-- The checks of `authorize` on the decision it received. -/
def accepted (id : Nat) (record : Record) : Bool :=
  let bytes := utf8Encode record.relative
  record.id = id && record.error ≤ 4095 && bytes.length < MAX_PATH && !bytes.contains 0 &&
    (record.error != 0 || (bytes != [] && bytes.head? != some 47))

/-! ### The managed native runner -/

/-- `NativeProcessPolicy`: the working directory is the mount. -/
structure NativeProcessPolicy where
  backend : Backend
  policy : ManagedPolicy

/-- An `open` request of `mg_decide`. -/
structure OpenRequest where
  id : Nat
  syscall : Nat
  flags : Nat
  mode : Nat
  pathHex : List Char
  pid : Nat
  pathAddress : Nat
  howAddress : Nat

/-- The answer of `NativeProcessPolicy.decide`. -/
structure OpenRecord where
  id : Nat
  allow : Bool
  device : UInt64
  inode : UInt64
  parentDevice : UInt64
  parentInode : UInt64
  deriving DecidableEq, Repr

/-- The answer once the path is split, the tree inspected and the policy asked. -/
def NativeProcessPolicy.judge (p : NativeProcessPolicy) (found : Found) (parts : Path)
    (decision : Decision) (request : OpenRequest) : Except Failure OpenRecord :=
  let target := found.nodes.get parts
  let parent := found.directories.get parts.dropLast
  let reading := accessMode request.flags != O_WRONLY
  let writing := accessMode request.flags != O_RDONLY || truncates request.flags ||
    creates request.flags && target.isNone
  let allowed := (!reading || decision.canRead) && target.all Info.isReg
  let answer (allow : Bool) : OpenRecord := {
    id := request.id, allow := allow
    device := (target.map Info.dev).getD 0, inode := (target.map Info.ino).getD 0
    parentDevice := (parent.map Info.dev).getD 0, parentInode := (parent.map Info.ino).getD 0 }
  if writing then
    match requireWrite p.backend p.policy (p.backend.guest parts) found.metadata with
    | .ok () => .ok (answer (allowed && parts.getLastD [] != dotGit))
    | .error (.permission _) => .ok (answer false)
    | .error error => .error error
  else .ok (answer allowed)

/-- `NativeProcessPolicy.decide`. -/
def NativeProcessPolicy.decide (p : NativeProcessPolicy) (w : Workspace) (request : OpenRequest) :
    Except Failure OpenRecord := do
  require ([request.id, request.syscall, request.flags, request.mode, request.pid,
    request.pathAddress, request.howAddress].all (· < 2 ^ 64))
    (.value "Invalid native acquisition integer")
  match fromHex request.pathHex with
  | none => .error (.value "non-hexadecimal number found in fromhex() arg")
  | some raw => do
    require (raw != [] && raw.length < 4096 && toHex raw = request.pathHex)
      (.value "Invalid copied native pathname")
    match utf8Decode raw with
    | none => .error .unicode
    | some path => do
      let parts := path.splitOn '/'
      require (!parts.any fun part => part = [] || part = dot || part = dotDot ||
        part.contains '\x00') (.value "Invalid native relative pathname")
      let found ← inspect p.backend w
      let decision ← p.backend.decideUri p.policy (p.backend.guest parts)
      p.judge found parts decision request

/-- Every component of a path is a name. -/
def mgComponents (path : List UInt8) : Bool :=
  (path.splitOn 47).all fun part => part != [] && part != [46] && part != [46, 46]

/-- `mg_relative`: the path below the root, or nothing. -/
def mgRelative (rootPath path : List UInt8) : Option (List UInt8) :=
  if path.head? = some 47 then
    if rootPath.isPrefixOf path && (path.drop rootPath.length).head? = some 47 &&
        mgComponents (path.drop (rootPath.length + 1)) then
      some (path.drop (rootPath.length + 1))
    else none
  else if mgComponents path then some path else none

end FoldGPT.Acquire
