import Mathlib.Algebra.GroupWithZero.Nat
import Mathlib.Algebra.Ring.Int.Defs
import FoldGPT.Json

/-!
# Lines and messages

`decode_message` of `exec_server.py`, and the check of the framing that the two relays make before
they call it. The JSON parser of the standard library is a parameter.
-/

namespace FoldGPT

open FoldGPT.Lib

/-- `json.loads` with the hooks of `decode_message`; `none` if it raises. -/
abbrev Loads := List UInt8 → Option Json

mutual

/-- How many values `decode_message` counts. -/
def nodes : Json → Nat
  | .arr items => 1 + nodesOfItems items
  | .obj members => 1 + nodesOfMembers members
  | _ => 1

def nodesOfItems : List Json → Nat
  | [] => 0
  | value :: rest => nodes value + nodesOfItems rest

def nodesOfMembers : List (String × Json) → Nat
  | [] => 0
  | (_, value) :: rest => nodes value + nodesOfMembers rest

end

def maxMessageBytes : Nat := 64 * 1024 * 1024

def maxValueNodes : Nat := 256 * 1024

def newline : UInt8 := 10

/-- A line that the relays decode. -/
def isFrame (line : List UInt8) : Bool :=
  decide (line.length ≤ maxMessageBytes) && line.getLast? == some newline

theorem isEmpty_of_isFrame {line : List UInt8} (h : isFrame line = true) :
    line.isEmpty = false := by
  cases line with
  | nil => simp [isFrame] at h
  | cons byte rest => rfl

/-- A string or a signed 64-bit integer. -/
def isRequestId : Json → Bool
  | .str _ => true
  | .int i => decide (-(2 ^ 63) ≤ i) && decide (i < 2 ^ 63)
  | _ => false

/-- A request, a notification, a response or an error. -/
def isEnvelope (message : Members) : Bool :=
  (Dict.get message "id").all isRequestId &&
    match Dict.get message "method" with
    | some method => method.asStr.isSome
    | none => (Dict.get message "id").isSome &&
        ((Dict.get message "result").isSome || (Dict.get message "error").isSome)

/-- `decode_message`; `none` stands for its `RpcError`. -/
def decodeMessage (loads : Loads) (line : List UInt8) : Option Members :=
  match loads line with
  | some (.obj message) =>
    if nodes (.obj message) ≤ maxValueNodes && isEnvelope message then some message else none
  | _ => none

variable {loads : Loads} {message : Members}

theorem envelope_of_decode {line : List UInt8} (h : decodeMessage loads line = some message) :
    isEnvelope message = true := by
  unfold decodeMessage at h
  split at h
  · split at h
    next hboth =>
      cases h
      exact (Bool.and_eq_true_iff.mp hboth).2
    next => cases h
  · cases h

theorem key_of_isRequestId {id : Json} (h : isRequestId id = true) : id.key.isNone = false := by
  cases id with
  | null | bool _ | int _ | float _ | str _ => rfl
  | arr _ | obj _ => cases h

theorem method_key_of_envelope (h : isEnvelope message = true) :
    (message.read "method").key.isNone = false := by
  unfold isEnvelope at h
  unfold Members.read
  cases hmethod : Dict.get message "method" with
  | none => rfl
  | some method =>
    rw [hmethod] at h
    cases method with
    | null | bool _ | int _ | float _ | str _ => rfl
    | arr _ | obj _ => simp [Json.asStr] at h

end FoldGPT
