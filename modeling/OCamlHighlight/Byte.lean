/-
# The bytes of a line

A line of source text is scanned as the list of its UTF-8 bytes.  This file
holds that list (`bytes`) and the byte classes in which the lexical rules are
written.

Main facts:

* `bytes_append` and `length_bytes` describe the bytes of a text by its parts
  and by its size;
* the classes hold ASCII bytes only (`not_isHigh`), so a byte of a multi-byte
  character belongs to none of them, and a class test never needs to know where
  a character starts.
-/

namespace OCamlHighlight

/-- A byte of UTF-8 text. -/
abbrev Byte := UInt8

/-- The UTF-8 bytes of a line. -/
def bytes (line : String) : List Byte := line.toByteArray.data.toList

@[simp] theorem bytes_empty : bytes "" = [] := rfl

/-- The bytes of a text are those of its parts, one after the other. -/
theorem bytes_append (a b : String) : bytes (a ++ b) = bytes a ++ bytes b := by
  simp [bytes, String.toByteArray_append]

/-- A line has as many bytes as its size in UTF-8 says. -/
@[simp] theorem length_bytes (line : String) : (bytes line).length = line.utf8ByteSize := rfl

namespace Byte

/-! ## Bytes with a name of their own -/

/-- The byte `"`. -/
def quote : Byte := 0x22

/-- The byte `#`. -/
def hash : Byte := 0x23

/-- The byte `(`. -/
def openParen : Byte := 0x28

/-- The byte `)`. -/
def closeParen : Byte := 0x29

/-- The byte `*`. -/
def star : Byte := 0x2A

/-- The byte `.`. -/
def dot : Byte := 0x2E

/-- The byte `:`. -/
def colon : Byte := 0x3A

/-- The byte `;`. -/
def semicolon : Byte := 0x3B

/-- The byte `\`. -/
def backslash : Byte := 0x5C

/-- The byte `_`. -/
def underscore : Byte := 0x5F

/-- The back quote, which begins a polymorphic variant tag. -/
def backquote : Byte := 0x60

/-- The opening brace. -/
def openBrace : Byte := 0x7B

/-- The byte `|`. -/
def pipe : Byte := 0x7C

/-- The closing brace. -/
def closeBrace : Byte := 0x7D

/-! ## Classes -/

/-- The bytes that separate tokens: space, tab, carriage return, vertical tab
and form feed. -/
def isBlank (b : Byte) : Bool :=
  [0x20, 0x09, 0x0D, 0x0B, 0x0C].contains b

/-- The decimal digits. -/
def isDigit (b : Byte) : Bool := 0x30 ≤ b && b ≤ 0x39

/-- The letters `A` to `Z`. -/
def isUpper (b : Byte) : Bool := 0x41 ≤ b && b ≤ 0x5A

/-- The letters `a` to `z`. -/
def isLower (b : Byte) : Bool := 0x61 ≤ b && b ≤ 0x7A

/-- The ASCII letters. -/
def isLetter (b : Byte) : Bool := isUpper b || isLower b

/-- The body of numbers and directives: ASCII letters, digits and `_`. -/
def isWord (b : Byte) : Bool := isLetter b || isDigit b || b == underscore

/-- What may follow the first byte of an identifier: word bytes and the
apostrophe. -/
def isIdentifier (b : Byte) : Bool := isWord b || b == 0x27

/-- The digits that may follow the sign of an exponent. -/
def isExponentDigit (b : Byte) : Bool := isDigit b || b == underscore

/-- The bytes that begin a symbolic operator:
`! # $ % & * + - / < = > ? @ ^ | ~`. -/
def isOperatorStart (b : Byte) : Bool :=
  [0x21, 0x23, 0x24, 0x25, 0x26, 0x2A, 0x2B, 0x2D, 0x2F, 0x3C, 0x3D, 0x3E, 0x3F, 0x40, 0x5E,
    0x7C, 0x7E].contains b

/-- What may follow the first byte of a symbolic operator: the same bytes,
`:` and `.`. -/
def isOperator (b : Byte) : Bool := isOperatorStart b || b == colon || b == dot

/-! ## Beyond ASCII -/

/-- The bytes of no ASCII character. -/
def isHigh (b : Byte) : Bool := 0x80 ≤ b

/-- A property that is checked for the 256 bytes holds for every byte. -/
theorem forall_of_forall_lt {p : Byte → Prop} (h : ∀ n : Nat, n < 256 → p (UInt8.ofNat n))
    (b : Byte) : p b := by
  have hb := h b.toNat b.toNat_lt
  rwa [UInt8.ofNat_toNat] at hb

/-- Every class holds ASCII bytes only. -/
theorem not_isHigh :
    ∀ b : Byte, isBlank b ∨ isIdentifier b ∨ isOperator b → isHigh b = false :=
  forall_of_forall_lt (by decide +kernel)

/-! ## Width of a character -/

/-- The number of bytes in the UTF-8 sequence that `b` leads.  A byte that
leads no multi-byte sequence counts as one. -/
def charWidth (b : Byte) : Nat :=
  if 0xC0 ≤ b && b ≤ 0xDF then 2
  else if 0xE0 ≤ b && b ≤ 0xEF then 3
  else if 0xF0 ≤ b && b ≤ 0xF7 then 4
  else 1

/-- Every character has at least one byte. -/
theorem charWidth_pos (b : Byte) : 0 < charWidth b := by
  unfold charWidth
  split
  · decide
  · split
    · decide
    · split <;> decide

end Byte

end OCamlHighlight
