import Mathlib.Algebra.GroupWithZero.Nat
import Mathlib.Algebra.Ring.Int.Defs
import FoldGPT.Json
import FoldGPT.Lib.Base64
import FoldGPT.Lib.Checks

/-!
# Packets of the host channels

What the two versions of the host channel read: `_request` for the file operations of both,
`_process_request` for the process operations of version 2, and the frames of an upload.
-/

namespace FoldGPT.Host

open FoldGPT.Lib

abbrev Bytes := List UInt8

def chunkBytes : Nat := 32768

def maxDataBytes : Nat := 16 * 1024 * 1024

/-- What `_json` makes of a packet: the text of the violation it raises, or the members. -/
abbrev Packet := Except String Members

/-- `set(members) == set(keys)`. -/
def hasKeys (members : Members) (keys : List String) : Bool :=
  keys.all (fun key => decide (key ∈ members.keys)) &&
    members.keys.all (fun key => decide (key ∈ keys))

/-- The number of chunks of so many bytes: `(size + CHUNK_BYTES - 1) // CHUNK_BYTES`. -/
def chunkCount (size : Nat) : Nat := (size + chunkBytes - 1) / chunkBytes

/-! ### File requests -/

inductive FileOp
  | readFile
  | writeFile (bytes chunks : Nat)
  | getMetadata (followSymlinks : Bool)
  | canonicalize
  | readDirectory
  | createDirectory (recursive : Bool)
  deriving DecidableEq

structure FileRequest where
  id : Nat
  op : FileOp
  path : String
  deriving DecidableEq

def operations : List String :=
  ["readFile", "writeFile", "getMetadata", "canonicalize", "readDirectory", "createDirectory"]

/-- The checks of one operation, with the keys it adds; another operation adds none. -/
def fileOp (value : Members) : Except String (Option FileOp × List String) :=
  match (value.read "op").asStr with
  | some "getMetadata" =>
    match (value.read "followSymlinks").asBool with
    | some follow => .ok (some (.getMetadata follow), ["followSymlinks"])
    | none => .error "Explicit metadata followSymlinks required"
  | some "createDirectory" =>
    match (value.read "recursive").asBool with
    | some recursive => .ok (some (.createDirectory recursive), ["recursive"])
    | none => .error "Explicit directory recursive flag required"
  | some "writeFile" =>
    match (value.read "bytes").asInt, (value.read "chunks").asInt with
    | some size, some chunks =>
      if 0 ≤ size ∧ size ≤ maxDataBytes ∧ chunks = chunkCount size.toNat then
        .ok (some (.writeFile size.toNat chunks.toNat), ["bytes", "chunks"])
      else .error "Write requires exact bounded byte and chunk counts"
    | _, _ => .error "Write requires exact bounded byte and chunk counts"
  | some "readFile" => .ok (some .readFile, [])
  | some "canonicalize" => .ok (some .canonicalize, [])
  | some "readDirectory" => .ok (some .readDirectory, [])
  | _ => .ok (none, [])

/-- The check of the number, which both kinds of request begin with. -/
def isNext (value : Members) (expected : Nat) : Bool :=
  decide ((value.read "id").asInt = some (expected : Int)) && decide (1 ≤ expected) &&
    decide (expected < 2 ^ 53)

/-- `_request`, on what `_json` made of the packet. -/
def fileRequest (value : Members) (expected : Nat) : Except String FileRequest := do
  require (isNext value expected) "Request ID is not the next exact integer"
  let (op, keys) ← fileOp value
  match op, (value.read "path").asStr with
  | some op, some path =>
    require (hasKeys value (["id", "op", "path"] ++ keys)) "Unexpected host request shape"
    pure ⟨expected, op, path⟩
  | _, _ => .error "Unexpected host request shape"

variable {value : Members}

theorem fileRequest_eq_ok {expected : Nat} {request : FileRequest}
    (h : fileRequest value expected = .ok request) :
    request.id = expected ∧ isNext value expected ∧
      ∃ keys, fileOp value = .ok (some request.op, keys) := by
  simp only [fileRequest, bind_eq_ok, require_eq_ok, exists_unit] at h
  obtain ⟨hnext, ⟨op, keys⟩, hop, h⟩ := h
  simp only at h
  split at h
  next =>
    simp only [bind_eq_ok, require_eq_ok, exists_unit, pure_eq_ok] at h
    obtain ⟨-, rfl⟩ := h
    exact ⟨rfl, hnext, keys, hop⟩
  next => cases h

/-- **What a write announces**: a bounded number of bytes, in as many chunks as they fill. -/
theorem fileRequest_write {expected : Nat} {request : FileRequest}
    (h : fileRequest value expected = .ok request) {bytes chunks : Nat}
    (hop : request.op = .writeFile bytes chunks) :
    bytes ≤ maxDataBytes ∧ chunks = chunkCount bytes := by
  obtain ⟨-, -, keys, hfile⟩ := fileRequest_eq_ok h
  rw [hop, fileOp] at hfile
  split at hfile
  next => split at hfile <;> cases hfile
  next => split at hfile <;> cases hfile
  next =>
    split at hfile
    next size announced _ _ =>
      split at hfile
      next hbounds =>
        obtain ⟨⟨rfl, rfl⟩, -⟩ := hfile
        exact ⟨by omega, by omega⟩
      next => cases hfile
    next => cases hfile
  all_goals cases hfile

/-! ### Process requests -/

/-- `_bytes`. -/
def decodeBytes (value : Json) : Except String Bytes :=
  match value.asStr with
  | none => .error "Host process input exceeds its packet bound"
  | some text => do
    require (decide (text.toList.length ≤ (chunkBytes + 2) / 3 * 4))
      "Host process input exceeds its packet bound"
    match Base64.decode text.toList with
    | none => .error "Invalid host process base64"
    | some data =>
      require (decide (data.length ≤ chunkBytes) && decide (Base64.encode data = text.toList))
        "Host process input is not canonical bounded base64"
      pure data

theorem asStr_eq_some {value : Json} {text : String} : value.asStr = some text ↔ value = .str text := by
  cases value <;> simp [Json.asStr]

/-- **`_bytes`** accepts the canonical text of at most one chunk. -/
theorem decodeBytes_eq_ok {value : Json} {data : Bytes} :
    decodeBytes value = .ok data ↔ ∃ text, value = .str text ∧
      text.toList = Base64.encode data ∧ data.length ≤ chunkBytes := by
  cases hvalue : value.asStr with
  | none =>
    have hnot : ∀ text, value ≠ .str text := fun text heq => by
      rw [asStr_eq_some.mpr heq] at hvalue
      cases hvalue
    simp [decodeBytes, hvalue, hnot]
  | some text =>
    obtain rfl := asStr_eq_some.mp hvalue
    simp only [decodeBytes, Json.asStr, bind_eq_ok, require_eq_ok, exists_unit, decide_eq_true_eq,
      Json.str.injEq, exists_eq_left']
    constructor
    · rintro ⟨-, h⟩
      split at h
      next => cases h
      next found _ =>
        simp only [bind_eq_ok, require_eq_ok, exists_unit, Bool.and_eq_true, decide_eq_true_eq,
          pure_eq_ok] at h
        obtain ⟨⟨hlength, hcanonical⟩, rfl⟩ := h
        exact ⟨hcanonical.symm, hlength⟩
    · rintro ⟨htext, hlength⟩
      have hbound : (data.length + 2) / 3 * 4 ≤ (chunkBytes + 2) / 3 * 4 := by
        omega
      rw [htext, Base64.length_encode]
      refine ⟨hbound, ?_⟩
      rw [Base64.decode_encode]
      simp only [hlength, decide_true, Bool.and_self, require, if_true, ok_bind]
      rfl

/-- The identifier of a started process. -/
abbrev Key := String

inductive ProcessOp
  | start (command : List String) (cwd : String) (environment : Members) (pipeStdin : Bool)
  | read (process : Key)
  | write (process : Key) (data : Bytes) (closeStdin : Bool)
  | terminate (process : Key)

structure ProcessRequest where
  id : Nat
  op : ProcessOp

/-- A list of one to 256 strings without NUL. -/
def commandOf (value : Json) : Option (List String) :=
  match value.asArr with
  | some items =>
    if items.isEmpty || 256 < items.length then none
    else items.mapM fun item => item.asStr.filter fun text => !text.toList.contains '\x00'
  | none => none

/-- 32 lowercase hexadecimal digits. -/
def isKey (text : String) : Bool :=
  text.toList.length = 32 && text.toList.all fun c => "0123456789abcdef".toList.contains c

/-- The last check of `_process_request` and the identifier it lets through. -/
def processKey (request : Members) (keys : List String) : Except String Key :=
  match (request.read "processId").asStr with
  | some key =>
    if hasKeys request (["id", "op", "processId"] ++ keys) && isKey key then .ok key
    else .error "Unexpected native host process request shape"
  | none => .error "Unexpected native host process request shape"

def processOp (request : Members) : Except String ProcessOp :=
  match (request.read "op").asStr with
  | some "processStart" =>
    match commandOf (request.read "command"), (request.read "cwd").asStr,
        (request.read "environment").asObj, (request.read "pipeStdin").asBool with
    | some command, some cwd, some environment, some pipeStdin => do
      require (hasKeys request ["id", "op", "command", "cwd", "environment", "pipeStdin"])
        "Unexpected native host process start shape"
      pure (.start command cwd environment pipeStdin)
    | _, _, _, _ => .error "Unexpected native host process start shape"
  | some "processWrite" =>
    match (request.read "closeStdin").asBool with
    | some close => do
      let data ← decodeBytes (request.read "dataBase64")
      let key ← processKey request ["dataBase64", "closeStdin"]
      pure (.write key data close)
    | none => .error "Explicit host stdin close flag required"
  | some "processRead" => (processKey request []).map .read
  | some "processTerminate" => (processKey request []).map .terminate
  | _ => .error "Unexpected native host process request shape"

/-- `_process_request`. -/
def processRequest (request : Members) (number : Nat) : Except String ProcessRequest := do
  require (isNext request number) "Host request ID differs from the next exact integer"
  let op ← processOp request
  pure ⟨number, op⟩

theorem processRequest_id {number : Nat} {request : ProcessRequest}
    (h : processRequest value number = .ok request) :
    request.id = number ∧ isNext value number = true := by
  simp only [processRequest, bind_eq_ok, require_eq_ok, exists_unit, pure_eq_ok] at h
  obtain ⟨hnext, op, -, rfl⟩ := h
  exact ⟨rfl, hnext⟩

/-! ### Frames of an upload -/

inductive Frame
  | chunk (id index : Int) (text : List Char)
  | commit (id : Int)
  deriving DecidableEq

/-- A packet as a frame of an upload. -/
def frameOf : Packet → Option Frame
  | .error _ => none
  | .ok packet =>
    match (packet.read "type").asStr, (packet.read "id").asInt with
    | some "chunk", some id =>
      match (packet.read "index").asInt, (packet.read "dataBase64").asStr with
      | some index, some text =>
        if hasKeys packet ["type", "id", "index", "dataBase64"] then
          some (.chunk id index text.toList)
        else none
      | _, _ => none
    | some "commit", some id => if hasKeys packet ["type", "id"] then some (.commit id) else none
    | _, _ => none

theorem frameOf_eq_chunk {packet : Members} {id index : Int} {text : List Char} :
    frameOf (.ok packet) = some (.chunk id index text) ↔
      hasKeys packet ["type", "id", "index", "dataBase64"] ∧
        (packet.read "type").asStr = some "chunk" ∧ (packet.read "id").asInt = some id ∧
        (packet.read "index").asInt = some index ∧
        ∃ encoded, (packet.read "dataBase64").asStr = some encoded ∧ encoded.toList = text := by
  simp only [frameOf]
  constructor
  · intro h
    split at h
    next htype hid =>
      split at h
      next hindex hdata =>
        split at h
        next hkeys =>
          obtain ⟨rfl, rfl, rfl⟩ := h
          exact ⟨hkeys, htype, hid, hindex, _, hdata, rfl⟩
        next => cases h
      next => cases h
    next => split at h <;> cases h
    next => cases h
  · rintro ⟨hkeys, htype, hid, hindex, encoded, hdata, rfl⟩
    simp only [htype, hid, hindex, hdata, hkeys, if_true]

theorem frameOf_eq_commit {packet : Members} {id : Int} :
    frameOf (.ok packet) = some (.commit id) ↔ hasKeys packet ["type", "id"] ∧
      (packet.read "type").asStr = some "commit" ∧ (packet.read "id").asInt = some id := by
  simp only [frameOf]
  constructor
  · intro h
    split at h
    next =>
      split at h
      next => split at h <;> cases h
      next => cases h
    next htype hid =>
      split at h
      next hkeys =>
        simp only [Option.some.injEq, Frame.commit.injEq] at h
        exact ⟨hkeys, htype, h ▸ hid⟩
      next => cases h
    next => cases h
  · rintro ⟨hkeys, htype, hid⟩
    simp [htype, hid, hkeys]

/-- The piece of the data a chunk carries: `data[index * CHUNK_BYTES:][:CHUNK_BYTES]`. -/
def piece (data : Bytes) (index : Nat) : Bytes := (data.drop (index * chunkBytes)).take chunkBytes

/-- The chunk of this index. -/
def chunkFrame (id : Nat) (data : Bytes) (index : Nat) : Frame :=
  .chunk id index (Base64.encode (piece data index))

/-- **The frames of an upload**: all full chunks in order, a shorter last one, the commit. -/
def uploadFrames (id : Nat) (data : Bytes) : List Frame :=
  (List.range (chunkCount data.length)).map (chunkFrame id data) ++ [.commit id]

end FoldGPT.Host
