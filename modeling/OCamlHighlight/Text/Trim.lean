/-
# White space around a text

The characters with the property `White_Space`, and `trim`, which takes them off
both ends of a text.
-/
import OCamlHighlight.Text.Ranges

namespace OCamlHighlight.Text

/-- The code points of white space, as ranges in ascending order. -/
def whiteSpace : List (Nat × Nat) :=
  [(0x09, 0x0D), (0x20, 0x20), (0x85, 0x85), (0xA0, 0xA0), (0x1680, 0x1680), (0x2000, 0x200A),
    (0x2028, 0x2029), (0x202F, 0x202F), (0x205F, 0x205F), (0x3000, 0x3000)]

/-- Whether a character is white space. -/
def isWhiteSpace (c : Char) : Bool := inRanges whiteSpace c

/-- Characters without the white space in front. -/
def trimFront (cs : List Char) : List Char := cs.dropWhile isWhiteSpace

/-- Characters without the white space on both ends. -/
def trimChars (cs : List Char) : List Char := (trimFront (trimFront cs).reverse).reverse

/-- A text without the white space on both ends. -/
def trim (text : String) : String := String.ofList (trimChars text.toList)

/-- The ASCII letters of a text in lower case. -/
def toLower (text : String) : String := String.ofList (text.toList.map Char.toLower)

/-- Whether two texts differ at most in the case of ASCII letters. -/
def eqIgnoringCase (a b : String) : Bool := toLower a == toLower b

end OCamlHighlight.Text
