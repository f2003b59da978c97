/-
# Ranges of code points

A property of characters is given by the ranges of the code points that have
it.
-/

namespace OCamlHighlight.Text

/-- Whether the code point of a character lies in one of the ranges, whose ends
are included. -/
def inRanges (ranges : List (Nat × Nat)) (c : Char) : Bool :=
  ranges.any fun (first, last) => first ≤ c.toNat && c.toNat ≤ last

theorem inRanges_iff (ranges : List (Nat × Nat)) (c : Char) :
    inRanges ranges c = true ↔ ∃ r ∈ ranges, r.1 ≤ c.toNat ∧ c.toNat ≤ r.2 := by
  simp [inRanges]

end OCamlHighlight.Text
