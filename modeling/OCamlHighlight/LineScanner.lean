/-
# Scanning a line through a cursor

A `LineScanner` takes the tokens of a line one at a time off a cursor, and
carries the scan state along.  It reads bytes through checked operations only,
so every call either gives a token or ends in a fault.  At the end of the line
it gives `Token.eol`, and goes on giving it.
-/
import OCamlHighlight.Cursor
import OCamlHighlight.Lexeme.Extent
import OCamlHighlight.Lexeme.Rule
import OCamlHighlight.Token
import OCamlHighlight.Word

namespace OCamlHighlight

open Byte

/-- One comment less, where one is open. -/
def Depth.shallower (depth : Depth) : Except Fault Depth :=
  if depth = 0 then .error .depthUnderflow else .ok (depth - 1)

namespace Cursor

/-! ## Bodies of literals

Each of these loops looks whether it has come closer to the end of the line
before it goes on. -/

/-- Goes behind the quote that closes a string, and says whether there is one. -/
def skipString (c : Cursor) : Except Fault (Bool × Cursor) := do
  let (b, c₁) ← c.skipToStringDelimiter
  if b = quote then
    return (true, ← c₁.advance)
  else if b = backslash then
    let c₂ ← c₁.advance
    let c₃ ← if ← c₂.isAtEnd then pure c₂ else c₂.advance
    if c₃.remaining < c.remaining then skipString c₃ else throw .stuck
  else
    return (false, c₁)
termination_by c.remaining

/-- Goes behind the delimiter that closes a quoted string, and says whether
there is one. -/
def skipRawString (c : Cursor) : Except Fault (Bool × Cursor) := do
  let (b, c₁) ← c.skipToPipe
  if b = pipe then
    let c₂ ← c₁.advance
    if (← c₂.current) = closeBrace then
      return (true, ← c₂.advance)
    else
      if c₂.remaining < c.remaining then skipRawString c₂ else throw .stuck
  else
    return (false, c₁)
termination_by c.remaining

/-- Goes to where the depth of a comment comes down to zero, or to the end of
the line, and returns the depth there. -/
def skipComment (depth : Depth) (c : Cursor) : Except Fault (Depth × Cursor) := do
  if depth = 0 then
    return (depth, c)
  let (b, c₁) ← c.skipToCommentDelimiter
  if b = openParen then
    let c₂ ← c₁.advance
    let depth' := if (← c₂.current) = star then depth.deeper else depth
    if c₂.remaining < c.remaining then skipComment depth' c₂ else throw .stuck
  else if b = star then
    let c₂ ← c₁.advance
    if (← c₂.current) = closeParen then
      let c₃ ← c₂.advance
      let depth' ← depth.shallower
      if c₃.remaining < c.remaining then skipComment depth' c₃ else throw .stuck
    else
      if c₂.remaining < c.remaining then skipComment depth c₂ else throw .stuck
  else
    return (depth, c₁)
termination_by c.remaining

/-- Goes behind a number whose first digit `first` is behind the cursor. -/
def skipNumber (first : Byte) (c : Cursor) : Except Fault Cursor := do
  let mark ← c.current
  let hexadecimal := first == 0x30 && (mark == 0x78 || mark == 0x58)
  let c₁ ← c.eatWhile isWord
  let c₂ ← if (← c₁.current) = dot then (← c₁.advance).eatWhile isWord else pure c₁
  let last ← c₂.previous
  let sign ← c₂.current
  if !hexadecimal && Extent.isExponentLetter last && Extent.isSign sign then
    (← c₂.advance).eatWhile isExponentDigit
  else
    return c₂

end Cursor

/-! ## The scanner -/

/-- A cursor over a line, and the state of the scan. -/
structure LineScanner where
  cursor : Cursor
  state : ScanState
  deriving DecidableEq, Repr

namespace LineScanner

/-- The scanner at the start of a line. -/
def ofBuffer (buffer : LineBuffer) (state : ScanState) : Except Fault LineScanner := do
  return ⟨← buffer.cursor, state⟩

/-- The scanner at the start of a line. -/
def ofLine (line : String) (state : ScanState) : Except Fault LineScanner :=
  ofBuffer (LineBuffer.ofLine line) state

/-- The token from the scanner's position to that of `cursor`, and the scanner
there. -/
def emit (scanner : LineScanner) (tag : Tag) (cursor : Cursor) (state : ScanState) :
    Except Fault (Token × LineScanner) :=
  if scanner.cursor.pos ≤ cursor.pos then
    .ok (⟨tag, cursor.pos - scanner.cursor.pos⟩, ⟨cursor, state⟩)
  else
    .error .reversedToken

/-- The rest of a string from `cursor` on. -/
def string (scanner : LineScanner) (cursor : Cursor) (state : ScanState) :
    Except Fault (Token × LineScanner) := do
  let (closed, cursor) ← cursor.skipString
  scanner.emit .string cursor (if closed then state.toBase else state)

/-- The rest of a quoted string from `cursor` on. -/
def rawString (scanner : LineScanner) (cursor : Cursor) (state : ScanState) :
    Except Fault (Token × LineScanner) := do
  let (closed, cursor) ← cursor.skipRawString
  scanner.emit .string cursor (if closed then state.toBase else state)

/-- The rest of a comment from `cursor` on. -/
def comment (scanner : LineScanner) (cursor : Cursor) (state : ScanState) :
    Except Fault (Token × LineScanner) := do
  let (depth, cursor) ← cursor.skipComment state.depth
  scanner.emit .comment cursor (state.withDepth depth)

/-- A token of code. -/
def code (scanner : LineScanner) : Except Fault (Token × LineScanner) := do
  let state := scanner.state
  let first ← scanner.cursor.current
  let cursor ← scanner.cursor.advanceChar
  let second ← cursor.current
  match Rule.select state.atLineStart first (some second) with
  | .separator =>
    scanner.emit .plain (← cursor.advance) { state with atLineStart := true }
  | .string => scanner.string cursor (state.openLiteral .string)
  | .rawString => scanner.rawString (← cursor.advance) (state.openLiteral .rawString)
  | .comment => scanner.comment (← cursor.advance) state.openComment
  | .constructor =>
    scanner.emit .constructor (← cursor.eatWhile isIdentifier) state.passCode
  | .word =>
    let cursor ← cursor.eatWhile isIdentifier
    let word ← cursor.sliceFrom scanner.cursor.pos
    scanner.emit (Word.tag word) cursor state.passCode
  | .number => scanner.emit .number (← cursor.skipNumber first) state.passCode
  | .directive => scanner.emit .atom (← cursor.eatWhile isWord) state.passCode
  | .operator => scanner.emit .operator (← cursor.eatWhile isOperator) state.passCode
  | .other => scanner.emit .plain cursor state

/-- The next token, and the scanner behind it. -/
def next (scanner : LineScanner) : Except Fault (Token × LineScanner) := do
  let cursor := scanner.cursor
  let state := scanner.state
  let b ← cursor.current
  if ← cursor.isAtEnd then
    return (Token.eol, scanner)
  else if isBlank b then
    scanner.emit .whitespace (← cursor.eatBlanks) state
  else
    match state.mode with
    | .base => scanner.code
    | .string => scanner.string cursor state
    | .rawString => scanner.rawString cursor state
    | .comment => scanner.comment cursor state

/-- The results of `n` calls of `next`. -/
def nextCalls : Nat → LineScanner → Except Fault (List (Token × LineScanner))
  | 0, _ => .ok []
  | n + 1, scanner => do
    let (token, scanner) ← scanner.next
    return (token, scanner) :: (← nextCalls n scanner)

/-! ## All tokens of a line -/

/-- Bounds the number of calls that are left before the end of the line. -/
def weight (scanner : LineScanner) : Nat :=
  2 * scanner.cursor.remaining + scanner.state.mode.slack

/-- The tokens up to the end of the line, behind those in `acc`, and the state
there. -/
def collect (acc : Array Token) (scanner : LineScanner) :
    Except Fault (Array Token × ScanState) := do
  let (token, scanner') ← scanner.next
  if token.tag = .eol then
    return (acc, scanner'.state)
  else if scanner'.weight < scanner.weight then
    collect (acc.push token) scanner'
  else
    throw .stuck
termination_by scanner.weight

end LineScanner

/-- The tokens of a line that is entered in the given state, and the state in
which it leaves the next line. -/
def tokenizeLine (state : ScanState) (line : String) : Except Fault (List Token × ScanState) := do
  let scanner ← LineScanner.ofLine line state
  let (acc, final) ← scanner.collect #[]
  return (acc.toList, final)

/-- The tokens of several lines, each with the state after its line. -/
def tokenizeLines (state : ScanState) :
    List String → Except Fault (List (List Token × ScanState))
  | [] => .ok []
  | line :: lines => do
    let (tokens, state) ← tokenizeLine state line
    return (tokens, state) :: (← tokenizeLines state lines)

end OCamlHighlight
