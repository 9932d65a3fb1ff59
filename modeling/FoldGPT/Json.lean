import FoldGPT.Lib.Dict
import Mathlib.Data.Rat.Defs

/-!
# Decoded messages

The JSON values the two protocol components see after `decode_message`: strings
without lone surrogates, finite numbers, objects without a repeated key.
-/

namespace FoldGPT

open FoldGPT.Lib

inductive Json
  | null
  | bool (b : Bool)
  | int (i : Int)
  | float (q : ℚ)
  | str (s : String)
  | arr (items : List Json)
  | obj (members : List (String × Json))

/-- The members of an object. -/
abbrev Members := Dict String Json

/-- A hashable value as a dictionary key: numbers of all types compare by value. -/
inductive PyKey
  | none
  | num (q : ℚ)
  | str (s : String)
  deriving DecidableEq

/-- The key a value is, unless it is unhashable. -/
def Json.key : Json → Option PyKey
  | .null => some .none
  | .bool b => some (.num (if b then 1 else 0))
  | .int i => some (.num i)
  | .float q => some (.num q)
  | .str s => some (.str s)
  | .arr _ => none
  | .obj _ => none

/-- `d.get(key)` with an absent member read as `None`, as the source does throughout. -/
def Members.read (members : Members) (key : String) : Json := (Dict.get members key).getD .null

/-! The types the source asks about. -/

def Json.asStr : Json → Option String
  | .str s => some s
  | _ => none

/-- `type(value) is int`. -/
def Json.asInt : Json → Option Int
  | .int i => some i
  | _ => none

def Json.asBool : Json → Option Bool
  | .bool b => some b
  | _ => none

def Json.isNull : Json → Bool
  | .null => true
  | _ => false

def Json.isTrue : Json → Bool
  | .bool b => b
  | _ => false

def Json.isBool : Json → Bool
  | .bool _ => true
  | _ => false

def Json.asObj : Json → Option Members
  | .obj members => some members
  | _ => none

def Json.asArr : Json → Option (List Json)
  | .arr items => some items
  | _ => none

structure RpcError where
  code : Int
  message : String
  data : Option Json := none

/-! ### Sorted members -/

mutual

/-- All objects of the value with their members in the order of the keys. -/
def Json.sorted : Json → Json
  | .arr items => .arr (sortedItems items)
  | .obj members => .obj ((sortedMembers members).mergeSort fun a b => decide (a.1 ≤ b.1))
  | value => value

def sortedItems : List Json → List Json
  | [] => []
  | value :: rest => value.sorted :: sortedItems rest

def sortedMembers : List (String × Json) → List (String × Json)
  | [] => []
  | (key, value) :: rest => (key, value.sorted) :: sortedMembers rest

end

theorem sortedItems_eq (items : List Json) : sortedItems items = items.map Json.sorted := by
  induction items with
  | nil => rfl
  | cons value rest ih => rw [sortedItems, ih, List.map_cons]

theorem sortedMembers_eq (members : Members) :
    sortedMembers members = members.map fun e => (e.1, e.2.sorted) := by
  induction members with
  | nil => rfl
  | cons e rest ih =>
    rw [sortedMembers, ih, List.map_cons]

theorem get_sorted {members : Members} (h : (Dict.keys members).Nodup) (key : String) :
    Dict.get ((sortedMembers members).mergeSort fun a b => decide (a.1 ≤ b.1)) key =
      (Dict.get members key).map Json.sorted := by
  rw [Dict.get_of_perm (List.mergeSort_perm _ _), sortedMembers_eq]
  · exact Dict.get_map (fun _ value => value.sorted) members key
  · have hkeys : Dict.keys (sortedMembers members) = Dict.keys members := by
      rw [sortedMembers_eq, Dict.keys, List.map_map]
      rfl
    rw [hkeys]
    exact h

end FoldGPT
