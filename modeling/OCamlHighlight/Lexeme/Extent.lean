/-
# How far a lexeme reaches

Each function here measures, in bytes, how far one kind of lexeme reaches from
the start of the bytes it is given.

* `run` is the longest run of a byte class.
* `number` adds the fraction and the signed exponent of a number to its run of
  digits.
* `string` and `rawString` end a literal behind its closing delimiter, and
  `comment` ends a comment where its depth comes down to zero; each of them
  reaches the end of the line when nothing closes it.
-/
import OCamlHighlight.Byte
import OCamlHighlight.ScanState

namespace OCamlHighlight.Extent

open Byte

/-! ## Runs and numbers -/

/-- The length of the longest run of a class. -/
def run (p : Byte → Bool) (bs : List Byte) : Nat := (bs.takeWhile p).length

@[simp] theorem run_nil (p : Byte → Bool) : run p [] = 0 := rfl

theorem run_cons (p : Byte → Bool) (b : Byte) (bs : List Byte) :
    run p (b :: bs) = if p b then 1 + run p bs else 0 := by
  cases h : p b <;> simp [run, h, Nat.add_comm]

/-- A run stays within its bytes. -/
theorem run_le (p : Byte → Bool) (bs : List Byte) : run p bs ≤ bs.length :=
  (List.takeWhile_sublist p).length_le

/-- The bytes of a run. -/
theorem take_run (p : Byte → Bool) (bs : List Byte) : bs.take (run p bs) = bs.takeWhile p :=
  (List.prefix_iff_eq_take.mp (List.takeWhile_prefix p)).symm

/-- A byte and a run behind it stay within their bytes. -/
theorem one_add_run_le (p : Byte → Bool) (b : Byte) (rest : List Byte) :
    1 + run p rest ≤ (b :: rest).length := by
  rw [List.length_cons, Nat.add_comm]
  exact Nat.succ_le_succ (run_le p rest)

/-- Whether the bytes begin with the mark of a hexadecimal literal. -/
def isHexadecimal : List Byte → Bool
  | zero :: mark :: _ => zero == 0x30 && (mark == 0x78 || mark == 0x58)
  | _ => false

/-- The first digit of a number and the word bytes after it, with a fraction
after a dot, if there is one. -/
def mantissa (bs : List Byte) : Nat :=
  let whole := 1 + run isWord bs.tail
  if bs[whole]? = some dot then whole + 1 + run isWord (bs.drop (whole + 1)) else whole

/-- Whether a byte is the letter of an exponent. -/
def isExponentLetter (b : Byte) : Bool := b == 0x65 || b == 0x45

/-- Whether a byte is a sign. -/
def isSign (b : Byte) : Bool := b == 0x2B || b == 0x2D

/-- A number: its mantissa and, if the text so far ends in the letter of
an exponent and a sign follows, the digits of the exponent.  In a hexadecimal
literal that letter is a digit, and the sign after it is an operator. -/
def number (bs : List Byte) : Nat :=
  let length := mantissa bs
  if !isHexadecimal bs && (bs[length - 1]?).any isExponentLetter && (bs[length]?).any isSign then
    length + 1 + run isExponentDigit (bs.drop (length + 1))
  else
    length

theorem mantissa_pos (bs : List Byte) : 0 < mantissa bs := by
  unfold mantissa
  dsimp only
  split <;> omega

/-- The first digit of a number is part of it. -/
theorem number_pos (bs : List Byte) : 0 < number bs := by
  have h := mantissa_pos bs
  unfold number
  dsimp only
  split <;> omega

/-! ## Literals -/

/-- The end of a string body, `n` bytes of the literal being behind: the number
of bytes to the closing quote and whether there is one.  A backslash takes the
byte after it along. -/
def stringFrom (n : Nat) : List Byte → Nat × Bool
  | [] => (n, false)
  | b :: bs =>
    if b = quote then (n + 1, true)
    else if b = backslash then
      match bs with
      | [] => (n + 1, false)
      | _ :: bs => stringFrom (n + 2) bs
    else stringFrom (n + 1) bs

/-- The end of the body of a quoted string: the first pipe before a closing
brace closes it. -/
def rawStringFrom (n : Nat) : List Byte → Nat × Bool
  | [] => (n, false)
  | b :: bs =>
    if b = pipe ∧ bs.head? = some closeBrace then (n + 2, true)
    else rawStringFrom (n + 1) bs

/-- The end of the body of a comment, and the depth there.  The star of an
opening pair may also begin a closing one. -/
def commentFrom (n : Nat) (depth : Depth) : List Byte → Nat × Depth
  | [] => (n, depth)
  | b :: bs =>
    if depth = 0 then (n, depth)
    else if b = openParen ∧ bs.head? = some star then commentFrom (n + 1) depth.deeper bs
    else if b = star then
      match bs with
      | [] => (n + 1, depth)
      | c :: bs =>
        if c = closeParen then commentFrom (n + 2) (depth - 1) bs
        else commentFrom (n + 1) depth (c :: bs)
    else commentFrom (n + 1) depth bs

/-- A comment of depth zero is closed. -/
theorem commentFrom_zero (n : Nat) (bs : List Byte) : commentFrom n 0 bs = (n, 0) := by
  cases bs with
  | nil => rfl
  | cons b bs => unfold commentFrom; exact if_pos rfl

theorem le_stringFrom (n : Nat) (bs : List Byte) : n ≤ (stringFrom n bs).1 := by
  fun_induction stringFrom n bs <;> grind

/-- A string body that has a byte takes at least that one. -/
theorem lt_stringFrom (n : Nat) (b : Byte) (bs : List Byte) : n < (stringFrom n (b :: bs)).1 := by
  unfold stringFrom
  split
  · exact Nat.lt_succ_self n
  · split
    · split
      · exact Nat.lt_succ_self n
      · exact Nat.lt_of_lt_of_le (by omega) (le_stringFrom (n + 2) _)
    · exact le_stringFrom (n + 1) bs

theorem le_rawStringFrom (n : Nat) (bs : List Byte) : n ≤ (rawStringFrom n bs).1 := by
  fun_induction rawStringFrom n bs <;> grind

/-- The body of a quoted string that has a byte takes at least that one. -/
theorem lt_rawStringFrom (n : Nat) (b : Byte) (bs : List Byte) :
    n < (rawStringFrom n (b :: bs)).1 := by
  unfold rawStringFrom
  split
  · show n < n + 2
    omega
  · exact le_rawStringFrom (n + 1) bs

theorem le_commentFrom (n : Nat) (depth : Depth) (bs : List Byte) :
    n ≤ (commentFrom n depth bs).1 := by
  fun_induction commentFrom n depth bs <;> grind

/-- The body of an open comment that has a byte takes at least that one. -/
theorem lt_commentFrom (n : Nat) (depth : Depth) (h : depth ≠ 0) (b : Byte) (bs : List Byte) :
    n < (commentFrom n depth (b :: bs)).1 := by
  unfold commentFrom
  rw [if_neg h]
  split
  · exact le_commentFrom (n + 1) _ bs
  · split
    · split
      · exact Nat.lt_succ_self n
      · split
        · exact Nat.lt_of_lt_of_le (by omega) (le_commentFrom (n + 2) _ _)
        · exact le_commentFrom (n + 1) _ _
    · exact le_commentFrom (n + 1) _ bs

end OCamlHighlight.Extent
