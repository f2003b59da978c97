/-
# Which rule takes a token of code

In code, the first byte of a token and the byte after it decide which lexical
rule applies.  The rules are listed in the order in which they are tried, and
the last one takes every byte, so each token of code has exactly one rule.
-/
import OCamlHighlight.Byte

namespace OCamlHighlight

open Byte

/-- The rules for tokens of code. -/
inductive Rule where
  /-- The separator `;;`. -/
  | separator
  /-- A double quote opens a string. -/
  | string
  /-- An opening brace and a pipe open a quoted string. -/
  | rawString
  /-- An opening parenthesis and a star open a comment. -/
  | comment
  /-- A capital letter or a back quote begins a constructor. -/
  | constructor
  /-- A small letter or `_` begins a word. -/
  | word
  /-- A digit begins a number. -/
  | number
  /-- `#` before a word byte begins a directive, where one may start. -/
  | directive
  /-- A symbol begins an operator. -/
  | operator
  /-- Any other character stands alone. -/
  | other
  deriving DecidableEq, Repr

/-- The rule for a token that begins with `first`, where `second` is the byte
after it, if the line goes on. -/
def Rule.select (atLineStart : Bool) (first : Byte) (second : Option Byte) : Rule :=
  if first = semicolon ∧ second = some semicolon then .separator
  else if first = quote then .string
  else if first = openBrace ∧ second = some pipe then .rawString
  else if first = openParen ∧ second = some star then .comment
  else if first = backquote ∨ isUpper first then .constructor
  else if isLower first ∨ first = underscore then .word
  else if isDigit first then .number
  else if first = hash ∧ atLineStart ∧ second.any isWord then .directive
  else if isOperatorStart first then .operator
  else .other

end OCamlHighlight
