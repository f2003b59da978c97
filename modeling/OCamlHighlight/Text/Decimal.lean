/-
# Decimal numbers

Natural numbers are written in decimal digits without leading zeros, and read
from one or more digits, with or without leading zeros.  Reading undoes writing
(`readDecimal_decimal`).
-/

namespace OCamlHighlight.Text

/-- A number in decimal digits. -/
def decimal (n : Nat) : String := String.ofList (Nat.toDigits 10 n)

/-- The number that digits are, if they are digits and at least one. -/
def readDecimal (cs : List Char) : Option Nat :=
  if cs ≠ [] ∧ cs.all Char.isDigit then some (Nat.ofDigitChars 10 cs 0) else none

/-- Every digit that is written is a decimal digit. -/
theorem isDigit_of_mem_decimal {n : Nat} {c : Char} (h : c ∈ (decimal n).toList) :
    c.isDigit := by
  rw [decimal, String.toList_ofList] at h
  exact Nat.isDigit_of_mem_toDigits (by decide) (by decide) h

/-- Reading a number that was written gives the number. -/
theorem readDecimal_decimal (n : Nat) : readDecimal (decimal n).toList = some n := by
  have hdigits : (decimal n).toList.all Char.isDigit :=
    List.all_eq_true.2 fun c hc => isDigit_of_mem_decimal hc
  have hne : (decimal n).toList ≠ [] := by
    rw [decimal, String.toList_ofList]
    exact Nat.toDigits_ne_nil
  rw [readDecimal, if_pos ⟨hne, hdigits⟩, decimal, String.toList_ofList,
    Nat.ofDigitChars_ten_toDigits]

end OCamlHighlight.Text
