/-
# The lexical grammar of code

The rules for tokens of code, written on characters.  A rule says whether it applies to
the text that is left of a line, and which characters it takes; the rules are tried in
their order, and the first one that applies takes the token (`Grammar.first`).  Runs of
a class of characters are the longest ones.

The scanner reads bytes.  What its byte classes and the classes of the grammar have in
common is `SameClass`: a character is in the one if its first byte is in the other, and
no byte of a longer character is.  Therefore a run of bytes is a run of characters
(`SameClass.takeWhile_bytes`).
-/
import OCamlHighlight.Proofs.LinePieces

namespace OCamlHighlight

namespace Grammar

/-! ## Classes of characters -/

/-- The ASCII letters and digits, and `_`. -/
def isWord (c : Char) : Bool := c.isAlphanum || c == '_'

/-- Word characters and the apostrophe. -/
def isName (c : Char) : Bool := isWord c || c == '\''

/-- The ASCII digits and `_`. -/
def isExponentDigit (c : Char) : Bool := c.isDigit || c == '_'

/-- What begins a constructor: a back quote or a capital letter. -/
def isConstructorStart (c : Char) : Bool := c == Char.ofNat 0x60 || c.isUpper

/-- What begins a word: a small letter or `_`. -/
def isWordStart (c : Char) : Bool := c.isLower || c == '_'

/-- What begins an operator. -/
def isSymbol (c : Char) : Bool :=
  ['!', '#', '$', '%', '&', '*', '+', '-', '/', '<', '=', '>', '?', '@', '^', '|', '~'].contains c

/-- What an operator goes on with. -/
def isOperator (c : Char) : Bool := isSymbol c || c == ':' || c == '.'

/-- The signs of an exponent. -/
def isSign (c : Char) : Bool := c == '+' || c == '-'

/-- The letters of an exponent. -/
def isExponentLetter (c : Char) : Bool := c == 'e' || c == 'E'

/-- What separates tokens: space, tab, carriage return, vertical tab and form feed. -/
def isBlank (c : Char) : Bool := [' ', '\t', '\r', '\x0b', '\x0c'].contains c

/-! ## Rules -/

/-- What a rule says of its token. -/
inductive Lexeme where
  /-- The token has these characters. -/
  | whole (tag : Tag) (chars : List Char)
  /-- The token is a literal that begins with these characters. -/
  | opening (tag : Tag) (chars : List Char)
  deriving DecidableEq, Repr

/-- A rule: what it takes off the front of a text, if it applies. -/
abbrev LexicalRule := List Char → Option Lexeme

/-- Characters that are a lexeme of their own, or open one. -/
def delimiter (lexeme : List Char → Lexeme) (chars : List Char) : LexicalRule := fun text =>
  if chars <+: text then some (lexeme chars) else none

/-- A character of one class and the longest run of another one behind it. -/
def run (start others : Char → Bool) (tag : List Char → Tag) : LexicalRule
  | [] => none
  | c :: cs =>
    if start c then
      some (.whole (tag (c :: cs.takeWhile others)) (c :: cs.takeWhile others))
    else none

/-- A directive: `#` and a word behind it. -/
def directive (atLineStart : Bool) : LexicalRule
  | [] => none
  | c :: cs =>
    if c = '#' ∧ atLineStart ∧ cs.head?.any isWord then
      some (.whole .atom (c :: cs.takeWhile isWord))
    else none

/-- Any character. -/
def single : LexicalRule
  | [] => none
  | c :: _ => some (.whole .plain [c])

/-- The tag of a word: that of the word table, and otherwise that of a variable. -/
def wordTag (chars : List Char) : Tag :=
  (Word.lookup (bytes (String.ofList chars))).getD .identifier

/-! ## Numbers -/

/-- A dot and the longest run of word characters behind it, if there is a dot. -/
def fraction : List Char → List Char
  | [] => []
  | c :: cs => if c = '.' then c :: cs.takeWhile isWord else []

/-- The first digit of a number, the longest run of word characters behind it, and a
fraction. -/
def mantissa (c : Char) (cs : List Char) : List Char :=
  c :: cs.takeWhile isWord ++ fraction (cs.dropWhile isWord)

/-- A sign and the longest run of digits behind it, if the number so far ends in the
letter of an exponent. -/
def exponent (front : List Char) : List Char → List Char
  | [] => []
  | c :: cs =>
    if front.getLast?.any isExponentLetter ∧ isSign c then c :: cs.takeWhile isExponentDigit
    else []

/-- Whether a number begins with `0x` or `0X`. -/
def isHexadecimal (c : Char) (cs : List Char) : Bool :=
  ['0', 'x'] <+: c :: cs || ['0', 'X'] <+: c :: cs

/-- The characters of a number. -/
def numberText (c : Char) (cs : List Char) : List Char :=
  if isHexadecimal c cs then mantissa c cs
  else mantissa c cs ++ exponent (mantissa c cs) ((c :: cs).drop (mantissa c cs).length)

/-- A number. -/
def number : LexicalRule
  | [] => none
  | c :: cs => if c.isDigit then some (.whole .number (numberText c cs)) else none

/-! ## The grammar -/

/-- The rules in the order in which they are tried. -/
def rules (atLineStart : Bool) : List LexicalRule :=
  [delimiter (.whole .plain) [';', ';'],
    delimiter (.opening .string) ['"'],
    delimiter (.opening .string) ['\x7b', '|'],
    delimiter (.opening .comment) ['(', '*'],
    run isConstructorStart isName fun _ => .constructor,
    run isWordStart isName wordTag,
    number,
    directive atLineStart,
    run isSymbol isOperator fun _ => .operator,
    single]

/-- What the first rule that applies takes. -/
def first (atLineStart : Bool) (text : List Char) : Option Lexeme :=
  (rules atLineStart).findSome? fun rule => rule text

/-! ## Characters and their first bytes -/

/-- The first byte of a character. -/
def lead (c : Char) : Byte := (String.utf8EncodeChar c).headD 0

/-- A character is its first byte and others. -/
theorem exists_encode_eq (c : Char) : ∃ others, String.utf8EncodeChar c = lead c :: others := by
  obtain ⟨b, others, h⟩ := List.exists_cons_of_ne_nil (String.utf8EncodeChar_ne_nil (c := c))
  refine ⟨others, ?_⟩
  rw [lead, h, List.headD_cons]

/-- A character with an ASCII byte in front has no other byte. -/
theorem encode_of_ascii {c : Char} (h : Byte.isHigh (lead c) = false) :
    String.utf8EncodeChar c = [lead c] := by
  obtain ⟨others, hothers⟩ := exists_encode_eq c
  rw [hothers, length_of_ascii_cons hothers h]

/-- The first byte of an ASCII character is its code. -/
theorem lead_of_lt {c : Char} (h : c.toNat < 128) : lead c = UInt8.ofNat c.toNat := by
  have hle : c.val ≤ 127 := UInt32.le_iff_toNat_le.mpr (Nat.le_of_lt_succ h)
  rw [lead, String.utf8EncodeChar_eq_singleton (Char.utf8Size_eq_one_iff.mpr hle)]
  rfl

/-- The bytes beyond ASCII come behind the others. -/
theorem isHigh_iff (b : Byte) : Byte.isHigh b = true ↔ 128 ≤ b.toNat := by
  rw [Byte.isHigh, decide_eq_true_iff]
  rfl

/-- The other characters begin with a byte beyond ASCII. -/
theorem isHigh_lead {c : Char} (h : 128 ≤ c.toNat) : Byte.isHigh (lead c) = true := by
  by_contra hlead
  rw [Bool.not_eq_true] at hlead
  have hsize : c.utf8Size = 1 := by
    rw [← String.length_utf8EncodeChar, encode_of_ascii hlead, List.length_singleton]
  have hle := UInt32.le_iff_toNat_le.mp (Char.utf8Size_eq_one_iff.mp hsize)
  exact absurd (Nat.lt_succ_of_le hle) (Nat.not_lt.mpr h)

/-- A class of characters and a class of bytes are the same. -/
structure SameClass (q : Char → Bool) (p : Byte → Bool) : Prop where
  /-- A character is in its class if its first byte is. -/
  eq_lead : ∀ c, q c = p (lead c)
  /-- No byte of a longer character is in the class. -/
  ascii : ∀ b, p b = true → Byte.isHigh b = false

/-- ASCII characters one after the other, and their bytes. -/
theorem sameClass_range {q : Char → Bool} {p : Byte → Bool} (lo hi : Nat) (hhi : hi < 128)
    (hq : ∀ c, q c = true ↔ lo ≤ c.toNat ∧ c.toNat ≤ hi)
    (hp : ∀ b, p b = true ↔ lo ≤ b.toNat ∧ b.toNat ≤ hi) : SameClass q p where
  eq_lead := by
    intro c
    rw [Bool.eq_iff_iff, hq, hp]
    by_cases hc : c.toNat < 128
    · rw [lead_of_lt hc, UInt8.toNat_ofNat_of_lt' (Nat.lt_trans hc (by decide))]
    · have hhigh := isHigh_lead (Nat.not_lt.mp hc)
      rw [isHigh_iff] at hhigh
      omega
  ascii := by
    intro b hb
    rw [← Bool.not_eq_true, isHigh_iff]
    have hle := ((hp b).mp hb).2
    omega

/-- One ASCII character and its byte. -/
theorem sameClass_eq (d : Char) (hd : Byte.isHigh (lead d) = false) :
    SameClass (· == d) (· == lead d) where
  eq_lead := by
    intro c
    rw [Bool.eq_iff_iff, beq_iff_eq, beq_iff_eq]
    refine ⟨fun h => h ▸ rfl, fun h => ?_⟩
    have hbytes : bytes (String.ofList [c]) = bytes (String.ofList [d]) := by
      rw [bytes_ofList, bytes_ofList, List.flatMap_singleton, List.flatMap_singleton,
        encode_of_ascii hd, encode_of_ascii (h ▸ hd), h]
    have hchars := String.ofList_injective (eq_of_bytes_eq hbytes)
    exact (List.cons.inj hchars).1
  ascii := by
    intro b hb
    rw [beq_iff_eq] at hb
    exact hb ▸ hd

/-- Some ASCII characters and their bytes. -/
theorem sameClass_contains {ds : List Char} (h : ds.all (fun d => !Byte.isHigh (lead d)) = true) :
    SameClass (ds.contains ·) ((ds.map lead).contains ·) where
  eq_lead := by
    intro c
    induction ds with
    | nil => rfl
    | cons d ds ih =>
      rw [List.all_cons, Bool.and_eq_true, Bool.not_eq_true'] at h
      obtain ⟨hd, hds⟩ := h
      rw [List.map_cons, List.contains_cons, List.contains_cons, ih hds]
      exact congrArg (· || _) ((sameClass_eq d hd).eq_lead c)
  ascii := by
    intro b hb
    obtain ⟨d, hd, rfl⟩ := List.mem_map.mp (List.contains_iff_mem.mp hb)
    exact Bool.not_eq_true' _ ▸ List.all_eq_true.mp h d hd

/-- Classes are joined like their bytes. -/
theorem SameClass.or {q q' : Char → Bool} {p p' : Byte → Bool} (h : SameClass q p)
    (h' : SameClass q' p') : SameClass (fun c => q c || q' c) (fun b => p b || p' b) where
  eq_lead := fun c => by rw [h.eq_lead, h'.eq_lead]
  ascii := by
    intro b hb
    rcases Bool.or_eq_true_iff.mp hb with hp | hp
    · exact h.ascii b hp
    · exact h'.ascii b hp

/-! ## The classes of the scanner

Each of them is one of the classes of the grammar. -/

theorem sameClass_isUpper : SameClass Char.isUpper Byte.isUpper := by
  refine sameClass_range 65 90 (by decide) (fun c => ?_) fun b => ?_
  · rw [Char.isUpper, decide_eq_true_iff]
    rfl
  · rw [Byte.isUpper, Bool.and_eq_true, decide_eq_true_iff, decide_eq_true_iff]
    rfl

theorem sameClass_isLower : SameClass Char.isLower Byte.isLower := by
  refine sameClass_range 97 122 (by decide) (fun c => ?_) fun b => ?_
  · rw [Char.isLower, Bool.and_eq_true, decide_eq_true_iff, decide_eq_true_iff]
    rfl
  · rw [Byte.isLower, Bool.and_eq_true, decide_eq_true_iff, decide_eq_true_iff]
    rfl

theorem sameClass_isDigit : SameClass Char.isDigit Byte.isDigit := by
  refine sameClass_range 48 57 (by decide) (fun c => ?_) fun b => ?_
  · rw [Char.isDigit, Bool.and_eq_true, decide_eq_true_iff, decide_eq_true_iff]
    rfl
  · rw [Byte.isDigit, Bool.and_eq_true, decide_eq_true_iff, decide_eq_true_iff]
    rfl

theorem sameClass_isSymbol : SameClass isSymbol Byte.isOperatorStart :=
  sameClass_contains rfl

theorem sameClass_isBlank : SameClass isBlank Byte.isBlank :=
  sameClass_contains rfl

theorem sameClass_isWord : SameClass isWord Byte.isWord :=
  ((sameClass_isUpper.or sameClass_isLower).or sameClass_isDigit).or (sameClass_eq '_' rfl)

theorem sameClass_isName : SameClass isName Byte.isIdentifier :=
  sameClass_isWord.or (sameClass_eq '\'' rfl)

theorem sameClass_isExponentDigit : SameClass isExponentDigit Byte.isExponentDigit :=
  sameClass_isDigit.or (sameClass_eq '_' rfl)

theorem sameClass_isOperator : SameClass isOperator Byte.isOperator :=
  (sameClass_isSymbol.or (sameClass_eq ':' rfl)).or (sameClass_eq '.' rfl)

theorem sameClass_isSign : SameClass isSign Extent.isSign :=
  (sameClass_eq '+' rfl).or (sameClass_eq '-' rfl)

theorem sameClass_isExponentLetter : SameClass isExponentLetter Extent.isExponentLetter :=
  (sameClass_eq 'e' rfl).or (sameClass_eq 'E' rfl)

/-! ## Runs -/

section Runs

variable {q : Char → Bool} {p : Byte → Bool}

/-- A character of a class is one byte. -/
theorem SameClass.encode_eq (h : SameClass q p) {c : Char} (hc : q c = true) :
    String.utf8EncodeChar c = [lead c] := by
  rw [h.eq_lead] at hc
  exact encode_of_ascii (h.ascii _ hc)

/-- **A run of bytes is a run of characters.** -/
theorem SameClass.takeWhile_bytes (h : SameClass q p) (cs : List Char) :
    (cs.flatMap String.utf8EncodeChar).takeWhile p
      = (cs.takeWhile q).flatMap String.utf8EncodeChar := by
  induction cs with
  | nil => rfl
  | cons c cs ih =>
    rw [List.flatMap_cons, List.takeWhile_cons]
    by_cases hc : q c = true
    · have hp : p (lead c) = true := by rwa [← h.eq_lead]
      rw [if_pos hc, List.flatMap_cons, h.encode_eq hc, List.singleton_append,
        List.takeWhile_cons_of_pos hp, ih]
      rfl
    · have hp : ¬ p (lead c) = true := by rwa [← h.eq_lead]
      obtain ⟨others, hothers⟩ := exists_encode_eq c
      rw [if_neg hc, hothers, List.cons_append, List.takeWhile_cons_of_neg hp]
      rfl

/-- A run is as long as its characters. -/
theorem SameClass.run_bytes (h : SameClass q p) (cs : List Char) :
    Extent.run p (cs.flatMap String.utf8EncodeChar) = String.utf8Len (cs.takeWhile q) := by
  rw [Extent.run, h.takeWhile_bytes, length_flatMap_utf8EncodeChar]

/-- The next byte is the first one of the next character. -/
theorem head?_flatMap (cs : List Char) :
    (cs.flatMap String.utf8EncodeChar).head? = cs.head?.map lead := by
  cases cs with
  | nil => rfl
  | cons c cs =>
    obtain ⟨others, hothers⟩ := exists_encode_eq c
    rw [List.flatMap_cons, hothers]
    rfl

/-- The next byte is in a class if the next character is. -/
theorem SameClass.any_head? (h : SameClass q p) (cs : List Char) :
    (cs.flatMap String.utf8EncodeChar).head?.any p = cs.head?.any q := by
  rw [head?_flatMap]
  cases cs with
  | nil => rfl
  | cons c cs => exact (h.eq_lead c).symm

/-- A character has the first byte of an ASCII character only if it is this one. -/
theorem lead_eq_iff {c d : Char} (hd : Byte.isHigh (lead d) = false) :
    lead c = lead d ↔ c = d := by
  have h := (sameClass_eq d hd).eq_lead c
  rw [Bool.eq_iff_iff, beq_iff_eq, beq_iff_eq] at h
  exact h.symm

/-- So has the next character. -/
theorem head?_eq_lead_iff {d : Char} (hd : Byte.isHigh (lead d) = false) (cs : List Char) :
    (cs.flatMap String.utf8EncodeChar).head? = some (lead d) ↔ cs.head? = some d := by
  rw [head?_flatMap]
  cases cs with
  | nil =>
    constructor
    · intro h
      cases h
    · intro h
      cases h
  | cons c cs =>
    rw [List.head?_cons, Option.map_some, Option.some_inj, Option.some_inj, lead_eq_iff hd]

end Runs

/-! ## Rules on characters and on bytes -/

/-- The bytes behind the first one of a text that begins with `c`. -/
def tailBytes (c : Char) (cs : List Char) : List Byte :=
  (String.utf8EncodeChar c).tail ++ cs.flatMap String.utf8EncodeChar

theorem flatMap_eq_lead_cons (c : Char) (cs : List Char) :
    (c :: cs).flatMap String.utf8EncodeChar = lead c :: tailBytes c cs := by
  obtain ⟨others, hothers⟩ := exists_encode_eq c
  rw [List.flatMap_cons, tailBytes, hothers]
  rfl

/-- Behind an ASCII character the next one begins. -/
theorem tailBytes_of_ascii {c : Char} (hc : Byte.isHigh (lead c) = false) (cs : List Char) :
    tailBytes c cs = cs.flatMap String.utf8EncodeChar := by
  rw [tailBytes, encode_of_ascii hc]
  rfl

/-- A text begins with two ASCII characters if its bytes do. -/
theorem pair_iff {c d e : Char} (hd : Byte.isHigh (lead d) = false)
    (he : Byte.isHigh (lead e) = false) (cs : List Char) :
    (lead c = lead d ∧ (tailBytes c cs).head? = some (lead e)) ↔ [d, e] <+: c :: cs := by
  have hhead : [e] <+: cs ↔ cs.head? = some e := by
    cases cs with
    | nil => simp
    | cons x cs => simp [List.cons_prefix_cons, eq_comm]
  rw [lead_eq_iff hd, List.cons_prefix_cons, hhead, eq_comm]
  refine and_congr_right ?_
  rintro rfl
  rw [tailBytes_of_ascii hd, head?_eq_lead_iff he]

/-- A text begins with an ASCII character if its bytes do. -/
theorem single_iff {c d : Char} (hd : Byte.isHigh (lead d) = false) (cs : List Char) :
    lead c = lead d ↔ [d] <+: c :: cs := by
  rw [lead_eq_iff hd, List.cons_prefix_cons, eq_comm]
  simp

/-- A directive begins with `#` and a word character. -/
theorem directive_iff (atLineStart : Bool) (c : Char) (cs : List Char) :
    (lead c = lead '#' ∧ atLineStart = true ∧ (tailBytes c cs).head?.any Byte.isWord = true) ↔
      c = '#' ∧ atLineStart = true ∧ cs.head?.any isWord = true := by
  rw [lead_eq_iff rfl]
  refine and_congr_right ?_
  rintro rfl
  rw [tailBytes_of_ascii rfl, sameClass_isWord.any_head?]

/-- What the grammar says where the scanner has chosen a rule. -/
def Lexeme.ofRule (c : Char) (cs : List Char) : Rule → Lexeme
  | .separator => .whole .plain [';', ';']
  | .string => .opening .string ['"']
  | .rawString => .opening .string ['\x7b', '|']
  | .comment => .opening .comment ['(', '*']
  | .constructor => .whole .constructor (c :: cs.takeWhile isName)
  | .word => .whole (wordTag (c :: cs.takeWhile isName)) (c :: cs.takeWhile isName)
  | .number => .whole .number (numberText c cs)
  | .directive => .whole .atom (c :: cs.takeWhile isWord)
  | .operator => .whole .operator (c :: cs.takeWhile isOperator)
  | .other => .whole .plain [c]

/-- The choice of the scanner, by characters. -/
theorem select_lead (atLineStart : Bool) (c : Char) (cs : List Char) :
    Rule.select atLineStart (lead c) (tailBytes c cs).head? =
      if [';', ';'] <+: c :: cs then .separator
      else if ['"'] <+: c :: cs then .string
      else if ['\x7b', '|'] <+: c :: cs then .rawString
      else if ['(', '*'] <+: c :: cs then .comment
      else if isConstructorStart c then .constructor
      else if isWordStart c then .word
      else if c.isDigit then .number
      else if c = '#' ∧ atLineStart ∧ cs.head?.any isWord then .directive
      else if isSymbol c then .operator
      else .other := by
  have hseparator : (lead c = Byte.semicolon ∧ (tailBytes c cs).head? = some Byte.semicolon) ↔
      [';', ';'] <+: c :: cs := pair_iff (d := ';') (e := ';') rfl rfl cs
  have hstring : lead c = Byte.quote ↔ ['"'] <+: c :: cs := single_iff (d := '"') rfl cs
  have hrawString : (lead c = Byte.openBrace ∧ (tailBytes c cs).head? = some Byte.pipe) ↔
      ['\x7b', '|'] <+: c :: cs := pair_iff (d := '\x7b') (e := '|') rfl rfl cs
  have hcomment : (lead c = Byte.openParen ∧ (tailBytes c cs).head? = some Byte.star) ↔
      ['(', '*'] <+: c :: cs := pair_iff (d := '(') (e := '*') rfl rfl cs
  have hconstructor : (lead c = Byte.backquote ∨ Byte.isUpper (lead c) = true) ↔
      isConstructorStart c = true := by
    rw [← sameClass_isUpper.eq_lead, isConstructorStart, Bool.or_eq_true, beq_iff_eq]
    exact or_congr_left (lead_eq_iff (d := Char.ofNat 0x60) rfl)
  have hword : (Byte.isLower (lead c) = true ∨ lead c = Byte.underscore) ↔
      isWordStart c = true := by
    rw [← sameClass_isLower.eq_lead, isWordStart, Bool.or_eq_true, beq_iff_eq]
    exact or_congr_right (lead_eq_iff (d := '_') rfl)
  have hdirective := directive_iff atLineStart c cs
  rw [show lead '#' = Byte.hash from rfl] at hdirective
  unfold Rule.select
  simp only [hseparator, hstring, hrawString, hcomment, hconstructor, hword,
    ← sameClass_isDigit.eq_lead, hdirective, ← sameClass_isSymbol.eq_lead]

/-- A rule that applies comes before the others. -/
theorem findSome?_rule {p : Prop} [Decidable p] {rule : LexicalRule} {text : List Char}
    {lexeme : Lexeme} (h : rule text = if p then some lexeme else none)
    (others : List LexicalRule) :
    (rule :: others).findSome? (fun rule => rule text)
      = if p then some lexeme else others.findSome? fun rule => rule text := by
  rw [List.findSome?_cons, h]
  by_cases hp : p
  · simp only [if_pos hp]
  · simp only [if_neg hp]

/-- **The first rule of the grammar that applies is the one that the scanner chooses.** -/
theorem first_cons (atLineStart : Bool) (c : Char) (cs : List Char) :
    first atLineStart (c :: cs) =
      some (.ofRule c cs (Rule.select atLineStart (lead c) (tailBytes c cs).head?)) := by
  have hdelimiter := fun lexeme chars =>
    @findSome?_rule _ _ (delimiter lexeme chars) (c :: cs) _ rfl
  have hrun := fun start others tag => @findSome?_rule _ _ (run start others tag) (c :: cs) _ rfl
  have hnumber := @findSome?_rule _ _ number (c :: cs) _ rfl
  have hdirective := @findSome?_rule _ _ (directive atLineStart) (c :: cs) _ rfl
  rw [select_lead, first, rules, hdelimiter, hdelimiter, hdelimiter, hdelimiter, hrun, hrun,
    hnumber, hdirective, hrun]
  simp only [apply_ite (Lexeme.ofRule c cs), apply_ite some]
  rfl

end Grammar

end OCamlHighlight
