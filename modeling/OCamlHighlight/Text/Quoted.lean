/-
# Quoted text

A text is quoted by double quotes around it.  Inside, a backslash stands before
a quote and before a backslash, and the zero byte, tab, line feed and carriage
return are written by their letters.  Characters that cannot be seen, or that
would be drawn onto the quote, are written by their code points.

Main facts: `quoteChars_nil` and `quoteChars_cons` unfold the quotation by one
character.
-/
import OCamlHighlight.Text.GraphemeExtend
import OCamlHighlight.Text.Unprintable

namespace OCamlHighlight.Text

/-- The backslash. -/
def backslash : Char := '\\'

/-- The double quote. -/
def doubleQuote : Char := Char.ofNat 0x22

/-- The hexadecimal digits of a number, without leading zeros. -/
def hexDigits (n : Nat) : List Char := Nat.toDigits 16 n

/-- A character by its code point. -/
def escapeCode (c : Char) : List Char :=
  [backslash, 'u', '\x7b'] ++ hexDigits c.toNat ++ ['\x7d']

/-- The quoted form of one character. -/
def quoteChar (c : Char) : List Char :=
  if c = '\x00' then [backslash, '0']
  else if c = '\t' then [backslash, 't']
  else if c = '\n' then [backslash, 'n']
  else if c = '\r' then [backslash, 'r']
  else if c = doubleQuote ∨ c = backslash then [backslash, c]
  else if isGraphemeExtend c || isUnprintable c then escapeCode c
  else [c]

/-- The quoted forms of characters, one after the other. -/
def quoteChars (cs : List Char) : List Char := cs.flatMap quoteChar

@[simp] theorem quoteChars_nil : quoteChars [] = [] := rfl

theorem quoteChars_cons (c : Char) (cs : List Char) :
    quoteChars (c :: cs) = quoteChar c ++ quoteChars cs := rfl

/-- A text in quotes. -/
def quote (text : String) : String :=
  String.ofList (doubleQuote :: quoteChars text.toList ++ [doubleQuote])

end OCamlHighlight.Text
