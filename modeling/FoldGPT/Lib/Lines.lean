import FoldGPT.Lib.Encoding
import Mathlib.Data.List.DropRight

/-!
# ASCII text

ASCII as bytes, and decimal numbers in it.

* `toDigits_ofDigitChars`: decimal digits without a leading zero.
-/

namespace FoldGPT.Lib

open Encoding

/-! ### Bytes -/

/-- `getBytes(US_ASCII)`: another character becomes a question mark. -/
def asciiEncode (text : List Char) : List UInt8 :=
  text.map fun c => if c.toNat < 128 then UInt8.ofNat c.toNat else 63

/-! ### Numbers -/

theorem digitChar_of_isDigit {c : Char} (h : c.isDigit = true) :
    Nat.digitChar (c.toNat - '0'.toNat) = c ∧ c.toNat - '0'.toNat < 10 := by
  have hcode : 48 ≤ c.toNat ∧ c.toNat ≤ 57 := by
    simp only [Char.isDigit, Bool.and_eq_true, decide_eq_true_eq, UInt32.le_iff_toNat_le,
      ge_iff_le] at h
    exact h
  have hall : ∀ n < 10, Nat.digitChar n = Char.ofNat (n + 48) := by decide
  have hzero : '0'.toNat = 48 := rfl
  refine ⟨?_, by omega⟩
  rw [hzero, hall _ (by omega), Nat.sub_add_cancel hcode.1, Char.ofNat_toNat]

/-- **Decimal digits without a leading zero** are the digits of their number. -/
theorem toDigits_ofDigitChars {text : List Char} (hne : text ≠ [])
    (hdigits : ∀ c ∈ text, c.isDigit = true) (hfirst : text.head? = some '0' → text.length = 1) :
    Nat.toDigits 10 (Nat.ofDigitChars 10 text 0) = text := by
  induction text using List.reverseRecOn with
  | nil => exact absurd rfl hne
  | append_singleton front d ih =>
    obtain ⟨hd, hsmall⟩ := digitChar_of_isDigit (hdigits d (by simp))
    rw [Nat.ofDigitChars_append, Nat.ofDigitChars_cons, Nat.ofDigitChars_nil,
      Nat.toDigits_eq_if (by decide)]
    by_cases hfront : front = []
    · subst hfront
      rw [Nat.ofDigitChars_nil, Nat.mul_zero, Nat.zero_add, if_pos hsmall, hd]
      rfl
    · have hhead : front.head? ≠ some '0' := by
        intro hzero
        have hone := hfirst (by rw [List.head?_append, hzero]; rfl)
        rw [List.length_append, List.length_singleton] at hone
        exact hfront (List.length_eq_zero_iff.mp (by omega))
      have hrest := ih hfront (fun c hc => hdigits c (List.mem_append_left _ hc))
        fun hzero => absurd hzero hhead
      have hpos : Nat.ofDigitChars 10 front 0 ≠ 0 := by
        intro hzero
        rw [hzero] at hrest
        exact hhead (hrest ▸ rfl)
      rw [if_neg (by omega), show (10 * Nat.ofDigitChars 10 front 0 + (d.toNat - '0'.toNat)) / 10 =
        Nat.ofDigitChars 10 front 0 by omega, hrest,
        show (10 * Nat.ofDigitChars 10 front 0 + (d.toNat - '0'.toNat)) % 10 =
        d.toNat - '0'.toNat by omega, hd]

end FoldGPT.Lib
