/-
# Token dumps are read back

A dump is a text of entries, one on each line.  A reader cuts an entry at its marks: a
colon behind the number of the line, and then either an arrow in front of a mode and a
depth, or offsets, a tag and quoted text.

* `read_chars`: what is printed for an entry is read as this entry, so that no entry
  looks like another one.
* `readDump_render`: from the dump of a text its entries are read.
-/
import OCamlHighlight.Proofs.QuotedText
import OCamlHighlight.Proofs.TextLines
import OCamlHighlight.Report.TokenDump

namespace OCamlHighlight.TokenDump

open Text (decimal readDecimal readDecimal_decimal isDigit_of_mem_decimal)

/-! ## Entries -/

/-- What an entry of a dump says. -/
inductive Entry where
  /-- There is a token on the line with this number, and this is its text. -/
  | token (number : Nat) (span : Span) (text : String)
  /-- The line with this number leaves this mode and this depth behind. -/
  | state (number : Nat) (mode : Mode) (depth : Nat)
  deriving DecidableEq, Repr

/-- The number of the line that an entry is about. -/
def Entry.number : Entry → Nat
  | token number _ _ => number
  | state number _ _ => number

/-- The characters of an entry, without the line feed behind it. -/
def Entry.chars : Entry → List Char
  | token number span text =>
    (decimal number).toList ++ ':' :: ((decimal span.start).toList ++ '-' ::
      ((decimal span.stop).toList ++ ' ' :: (span.tag.name.toList ++ ' ' ::
        (Text.quote text).toList)))
  | state number mode depth =>
    (decimal number).toList ++ ':' :: (" -> ".toList ++ (mode.name.toList ++ '(' ::
      ((decimal depth).toList ++ [')'])))

/-- The entries of one line. -/
def entriesOfLine (whitespace : Bool) (number : Nat) (before : ScanState) (line : String) :
    List Entry :=
  (((spansOf before line).1.filter fun span => whitespace || span.tag != .whitespace).map
      fun span => .token number span (span.text line)) ++
    if showsState before (before.after line) then
      [.state number (before.after line).mode (before.after line).depth.toNat]
    else []

/-- The entries of lines, of which the first has the given number and is entered in the
given state. -/
def entriesOf (whitespace : Bool) (number : Nat) (state : ScanState) : List String → List Entry
  | [] => []
  | line :: lines =>
    entriesOfLine whitespace number state line
      ++ entriesOf whitespace (number + 1) (state.after line) lines

/-- The characters of a dump. -/
def printed (es : List Entry) : List Char := es.flatMap fun e => e.chars ++ ['\n']

theorem printed_cons (e : Entry) (es : List Entry) :
    printed (e :: es) = e.chars ++ '\n' :: printed es := by
  rw [printed, List.flatMap_cons, List.append_assoc]
  rfl

theorem toList_spanEntry (number : Nat) (line : String) (span : Span) :
    (spanEntry number line span).toList
      = (Entry.token number span (span.text line)).chars ++ ['\n'] := by
  simp [spanEntry, Entry.chars]

theorem toList_stateEntry (number : Nat) (state : ScanState) :
    (stateEntry number state).toList
      = (Entry.state number state.mode state.depth.toNat).chars ++ ['\n'] := by
  simp [stateEntry, Entry.chars]

/-- The entries of a line are printed. -/
theorem flatMap_lineEntries (whitespace : Bool) (number : Nat) (before : ScanState)
    (line : String) :
    (lineEntries whitespace number before line).flatMap String.toList
      = printed (entriesOfLine whitespace number before line) := by
  have hspans : ∀ spans : List Span, (spans.map (spanEntry number line)).flatMap String.toList
      = printed (spans.map fun span => .token number span (span.text line)) := by
    intro spans
    rw [printed, List.flatMap_map, List.flatMap_map]
    simp only [toList_spanEntry]
  have hstate : ∀ shows : Bool,
      (if shows then [stateEntry number (before.after line)] else []).flatMap String.toList
        = printed (if shows then
          [.state number (before.after line).mode (before.after line).depth.toNat] else []) := by
    intro shows
    cases shows with
    | false => rfl
    | true =>
      show (stateEntry number (before.after line)).toList ++ [] = _
      rw [toList_stateEntry, List.append_nil]
      exact (List.append_nil _).symm
  rw [entriesOfLine, printed, List.flatMap_append, ← printed, ← printed, ← hspans, ← hstate,
    ← List.flatMap_append]
  rfl

/-- The entries of lines are printed. -/
theorem flatMap_entries (whitespace : Bool) (number : Nat) (state : ScanState)
    (lines : List String) :
    (entries whitespace number state lines).flatMap String.toList
      = printed (entriesOf whitespace number state lines) := by
  induction lines generalizing number state with
  | nil => rfl
  | cons line lines ih =>
    rw [entries, List.flatMap_append, flatMap_lineEntries, ih, entriesOf, printed, printed,
      ← List.flatMap_append]
    rfl

/-- **A dump is its printed entries.** -/
theorem render_eq (whitespace : Bool) (text : String) :
    render whitespace text
      = String.ofList (printed (entriesOf whitespace 1 .start (linesOf text))) := by
  rw [← String.toList_inj, String.toList_ofList, render, String.toList_join, flatMap_entries]

/-! ## The reader -/

/-- What is in front of a mark, and what is behind it. -/
def cut (mark : Char) (cs : List Char) : List Char × List Char :=
  (cs.takeWhile (· != mark), (cs.dropWhile (· != mark)).tail)

/-- Characters are cut at the first mark. -/
theorem cut_append {mark : Char} {front : List Char} (h : mark ∉ front) (back : List Char) :
    cut mark (front ++ mark :: back) = (front, back) := by
  have hall : ∀ c ∈ front, (c != mark) = true := by
    intro c hc
    rw [bne_iff_ne]
    rintro rfl
    exact h hc
  rw [cut, List.takeWhile_append_of_pos hall, List.dropWhile_append_of_pos hall,
    List.takeWhile_cons_of_neg (by simp), List.dropWhile_cons_of_neg (by simp), List.append_nil,
    List.tail_cons]

/-- The entry that characters are. -/
def Entry.read (cs : List Char) : Option Entry := do
  let (number, rest) := cut ':' cs
  let number ← readDecimal number
  if " -> ".toList <+: rest then
    let (mode, rest) := cut '(' (rest.drop 4)
    let (depth, _) := cut ')' rest
    return .state number (← Mode.ofName? (String.ofList mode)) (← readDecimal depth)
  else
    let (start, rest) := cut '-' rest
    let (stop, rest) := cut ' ' rest
    let (tag, text) := cut ' ' rest
    return .token number
      ⟨← readDecimal start, ← readDecimal stop, ← Tag.ofName? (String.ofList tag)⟩
      (String.ofList (Text.unquote text))

/-- The entries that a dump consists of. -/
def readDump (dump : String) : List Entry :=
  (linesOf dump).filterMap fun line => Entry.read line.toList

/-- A mark that is no digit is not in a number. -/
theorem not_mem_decimal (mark : Char) (h : mark.isDigit = false) (n : Nat) :
    mark ∉ (decimal n).toList := by
  intro hmem
  rw [isDigit_of_mem_decimal hmem] at h
  cases h

/-- A number does not begin with an arrow. -/
theorem not_arrow_decimal (n : Nat) (rest : List Char) :
    ¬ " -> ".toList <+: (decimal n).toList ++ rest := by
  obtain ⟨c, cs, hcs⟩ := List.exists_cons_of_ne_nil (l := (decimal n).toList) (by
    rw [decimal, String.toList_ofList]
    exact Nat.toDigits_ne_nil)
  have hdigit : c.isDigit := isDigit_of_mem_decimal (hcs ▸ List.mem_cons_self)
  rw [hcs]
  intro h
  obtain ⟨rfl, -⟩ := List.cons_prefix_cons.mp h
  cases hdigit

/-- **What is printed is read.** -/
theorem read_chars (e : Entry) : Entry.read e.chars = some e := by
  cases e with
  | state number mode depth =>
    have hmode : '(' ∉ mode.name.toList := by cases mode <;> decide
    have hdrop : ∀ rest, (" -> ".toList ++ rest).drop 4 = rest := fun rest => rfl
    rw [Entry.read, Entry.chars, cut_append (not_mem_decimal ':' rfl number)]
    simp only [readDecimal_decimal, Option.bind_eq_bind, Option.bind_some,
      if_pos (List.prefix_append _ _), hdrop, cut_append hmode,
      cut_append (not_mem_decimal ')' rfl depth), String.ofList_toList,
      Mode.ofName?_name]
    rfl
  | token number span text =>
    have htag : ' ' ∉ span.tag.name.toList := by cases span.tag <;> decide
    rw [Entry.read, Entry.chars, cut_append (not_mem_decimal ':' rfl number)]
    simp only [readDecimal_decimal, Option.bind_eq_bind, Option.bind_some,
      if_neg (not_arrow_decimal _ _), cut_append (not_mem_decimal '-' rfl span.start),
      cut_append (not_mem_decimal ' ' rfl span.stop), cut_append htag,
      String.ofList_toList, Tag.ofName?_name, Text.unquote_quote]
    rfl

/-- An entry is on one line. -/
theorem newline_not_mem_chars (e : Entry) : '\n' ∉ e.chars := by
  have hdecimal := not_mem_decimal '\n' rfl
  cases e with
  | state number mode depth =>
    have hmode : '\n' ∉ mode.name.toList := by cases mode <;> decide
    simp [Entry.chars, hdecimal, hmode]
  | token number span text =>
    have htag : '\n' ∉ span.tag.name.toList := by cases span.tag <;> decide
    simp [Entry.chars, hdecimal, htag, Text.newline_not_mem_quote]

/-- A dump is read entry by entry. -/
theorem readDump_printed (es : List Entry) : readDump (String.ofList (printed es)) = es := by
  induction es with
  | nil => rfl
  | cons e es ih =>
    rw [printed_cons, readDump, linesOf_cons (newline_not_mem_chars e), List.filterMap_cons_some
      (by rw [String.toList_ofList]; exact read_chars e)]
    exact congrArg (e :: ·) ih

/-- **From a dump its entries are read.** -/
theorem readDump_render (whitespace : Bool) (text : String) :
    readDump (render whitespace text) = entriesOf whitespace 1 .start (linesOf text) := by
  rw [render_eq, readDump_printed]

end OCamlHighlight.TokenDump
