import FoldGPT.Lib.Lines
import Mathlib.Data.Char
import Mathlib.Data.List.Lex

/-!
# Texts of the installers

The classes of the `java.lang.String` patterns that several installers share, over characters.
-/

namespace FoldGPT.Install

abbrev Text := List Char

def hexChar (c : Char) : Bool := c.isDigit || (decide ('a' ≤ c) && decide (c ≤ 'f'))

/-- `[0-9a-f]{64}`. -/
def digest (value : Text) : Bool := decide (value.length = 64) && value.all hexChar

/-- What `sha256` and `hex` of 32 bytes return. -/
abbrev Digest := { value : Text // digest value = true }

/-- Two sets given by their members are equal. -/
def sameKeys (keys others : List Text) : Bool :=
  keys.all others.contains && others.all keys.contains

theorem sameKeys_iff {keys others : List Text} :
    sameKeys keys others = true ↔ ∀ key, key ∈ keys ↔ key ∈ others := by
  unfold sameKeys
  simp only [Bool.and_eq_true, List.all_eq_true, List.contains_iff_mem]
  exact ⟨fun h key => ⟨h.1 key, h.2 key⟩, fun h => ⟨fun key => (h key).mp, fun key => (h key).mpr⟩⟩

end FoldGPT.Install
