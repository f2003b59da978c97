/-
# Where a string ends

The scanner goes through a string in jumps: to the next quote or backslash, and over a
backslash together with the byte behind it, which may be the first of several bytes of
one character.  What this comes to can be said without the scanner.

* `IsUnescaped`: a quote closes a string if the number of backslashes right in front of
  it is even.  `Ends` is the place behind the first such quote, or the end of the line.
* `closedText` reads a string by characters, and a backslash escapes exactly the next
  one.
* `ends_stringFrom` and `stringFrom_characters` compare the scan with the one and with
  the other; `strings_end_at_quotes` says it of the scanner.
-/
import OCamlHighlight.Proofs.LexicalGrammar

namespace OCamlHighlight

open Byte Extent

namespace StringBody

/-! ## Unescaped quotes -/

/-- The number of backslashes right in front of a place. -/
def backslashesBefore (body : List Byte) (i : Nat) : Nat :=
  ((body.take i).rtakeWhile (· == backslash)).length

/-- There is a quote at a place, behind an even number of backslashes. -/
def IsUnescaped (body : List Byte) (i : Nat) : Prop :=
  body[i]? = some quote ∧ Even (backslashesBefore body i)

/-- The first quote that is not escaped is at this place. -/
def ClosesAt (body : List Byte) (i : Nat) : Prop :=
  IsUnescaped body i ∧ ∀ j < i, ¬ IsUnescaped body j

/-- How many bytes of a body belong to the string, and whether it is closed there: those
up to the first quote that is not escaped, or all of them if there is none. -/
inductive Ends (body : List Byte) : Nat → Bool → Prop
  | closed {i : Nat} (closes : ClosesAt body i) : Ends body (i + 1) true
  | stays (never : ∀ i, ¬ IsUnescaped body i) : Ends body body.length false

section Unescaped

variable {b : Byte} {bs : List Byte} {i : Nat}

theorem lt_length_of_isUnescaped (h : IsUnescaped bs i) : i < bs.length :=
  (List.getElem?_eq_some_iff.mp h.1).1

/-- There are no more backslashes in front of a place than bytes. -/
theorem backslashesBefore_le (bs : List Byte) (i : Nat) : backslashesBefore bs i ≤ i :=
  ((bs.take i).rtakeWhile_suffix _).length_le.trans (List.length_take_le i bs)

/-- A byte in front of the body counts only if it is a backslash and all bytes in between
are backslashes too. -/
theorem backslashesBefore_cons (b : Byte) (hi : i ≤ bs.length) :
    backslashesBefore (b :: bs) (i + 1) =
      if b = backslash ∧ backslashesBefore bs i = i then i + 1 else backslashesBefore bs i := by
  have hlen : (bs.take i).reverse.length = i := by
    rw [List.length_reverse, List.length_take, Nat.min_eq_left hi]
  simp only [backslashesBefore, List.rtakeWhile, List.take_succ_cons, List.reverse_cons,
    List.length_reverse, List.takeWhile_append, hlen]
  by_cases hall : ((bs.take i).reverse.takeWhile (· == backslash)).length = i
  · by_cases hb : b = backslash
    · rw [if_pos hall, if_pos ⟨hb, hall⟩, hb, List.length_append, hlen]
      rfl
    · rw [if_pos hall, if_neg fun h => hb h.1, List.takeWhile_cons_of_neg (by simpa using hb),
        List.append_nil, hlen, hall]
  · rw [if_neg hall, if_neg fun h => hall h.2]

/-- Behind a byte that is no delimiter nothing changes. -/
theorem isUnescaped_cons_other (hq : b ≠ quote) (hb : b ≠ backslash) :
    IsUnescaped (b :: bs) i ↔ ∃ j, i = j + 1 ∧ IsUnescaped bs j := by
  cases i with
  | zero =>
    constructor
    · rintro ⟨hget, -⟩
      exact absurd (Option.some.inj hget) hq
    · rintro ⟨j, hj, -⟩
      omega
  | succ i =>
    have hsame : IsUnescaped (b :: bs) (i + 1) ↔ IsUnescaped bs i := by
      unfold IsUnescaped
      rw [List.getElem?_cons_succ]
      refine and_congr_right fun hget => ?_
      rw [backslashesBefore_cons b (List.getElem?_eq_some_iff.mp hget).1.le,
        if_neg fun h => hb h.1]
    rw [hsame]
    constructor
    · intro h
      exact ⟨i, rfl, h⟩
    · rintro ⟨j, hj, h⟩
      obtain rfl : i = j := Nat.succ.inj hj
      exact h

/-- Behind a backslash and the byte that it escapes nothing changes. -/
theorem isUnescaped_escape :
    IsUnescaped (backslash :: b :: bs) i ↔ ∃ j, i = j + 2 ∧ IsUnescaped bs j := by
  rcases i with _ | _ | i
  · constructor
    · rintro ⟨hget, -⟩
      exact absurd (Option.some.inj hget) (by decide)
    · rintro ⟨j, hj, -⟩
      omega
  · -- One backslash is in front of the escaped byte.
    have hone : backslashesBefore (backslash :: b :: bs) 1 = 1 := rfl
    constructor
    · rintro ⟨-, heven⟩
      rw [hone] at heven
      exact absurd heven (by decide)
    · rintro ⟨j, hj, -⟩
      omega
  · have hsame : IsUnescaped (backslash :: b :: bs) (i + 2) ↔ IsUnescaped bs i := by
      unfold IsUnescaped
      rw [List.getElem?_cons_succ, List.getElem?_cons_succ]
      refine and_congr_right fun hget => ?_
      have hi := (List.getElem?_eq_some_iff.mp hget).1.le
      have hle := backslashesBefore_le bs i
      rw [backslashesBefore_cons backslash (Nat.succ_le_succ hi), backslashesBefore_cons b hi]
      -- The two bytes count both or not at all.
      by_cases hall : b = backslash ∧ backslashesBefore bs i = i
      · rw [if_pos hall, if_pos ⟨rfl, rfl⟩, hall.2, Nat.even_iff, Nat.even_iff]
        omega
      · rw [if_neg hall, if_neg fun h => absurd h.2 (by omega)]
    rw [hsame]
    constructor
    · intro h
      exact ⟨i, rfl, h⟩
    · rintro ⟨j, hj, h⟩
      obtain rfl : i = j := by omega
      exact h

/-! ## The scan -/

/-- A body that begins with bytes that close nothing and escape nothing behind them. -/
theorem Ends.behind {body : List Byte} {k n : Nat} {closed : Bool} (h : Ends bs n closed)
    (hlen : body.length = bs.length + k)
    (hsame : ∀ i, IsUnescaped body i ↔ ∃ j, i = j + k ∧ IsUnescaped bs j) :
    Ends body (n + k) closed := by
  cases h with
  | @closed i closes =>
    rw [Nat.add_right_comm]
    refine .closed ⟨(hsame _).mpr ⟨i, rfl, closes.1⟩, fun j hj hquote => ?_⟩
    obtain ⟨m, rfl, hm⟩ := (hsame j).mp hquote
    exact closes.2 m (by omega) hm
  | stays never =>
    rw [← hlen]
    refine .stays fun i hquote => ?_
    obtain ⟨j, -, hj⟩ := (hsame i).mp hquote
    exact never j hj

/-- **The scan of a string stops behind the first quote that is not escaped.** -/
theorem ends_stringFrom (n : Nat) (bs : List Byte) :
    ∃ m, (stringFrom n bs).1 = n + m ∧ Ends bs m (stringFrom n bs).2 := by
  fun_induction stringFrom n bs with
  | case1 n => exact ⟨0, rfl, .stays fun i h => Nat.not_lt_zero i (lt_length_of_isUnescaped h)⟩
  | case2 n bs =>
    refine ⟨1, rfl, .closed ⟨⟨rfl, ?_⟩, fun j hj => absurd hj (Nat.not_lt_zero j)⟩⟩
    show Even 0
    exact Even.zero
  | case3 n =>
    refine ⟨1, rfl, .stays fun i h => ?_⟩
    obtain rfl : i = 0 := Nat.lt_one_iff.mp (lt_length_of_isUnescaped h)
    exact absurd (Option.some.inj h.1) (by decide)
  | case4 n b bs _ ih =>
    obtain ⟨m, hm, hends⟩ := ih
    exact ⟨m + 2, by omega, hends.behind rfl fun i => isUnescaped_escape⟩
  | case5 n b bs hq hb ih =>
    obtain ⟨m, hm, hends⟩ := ih
    exact ⟨m + 1, by omega, hends.behind rfl fun i => isUnescaped_cons_other hq hb⟩

/-- A string is closed where its first unescaped quote is. -/
theorem Ends.closed_iff {n m : Nat} {closed : Bool} (h : Ends bs n closed) :
    closed = true ∧ n = m ↔ ∃ i, m = i + 1 ∧ ClosesAt bs i := by
  cases h with
  | @closed i closes =>
    constructor
    · rintro ⟨-, rfl⟩
      exact ⟨i, rfl, closes⟩
    · rintro ⟨j, rfl, hj⟩
      -- Of two first places none comes before the other.
      have h1 : ¬ i < j := fun hlt => hj.2 i hlt closes.1
      have h2 : ¬ j < i := fun hlt => closes.2 j hlt hj.1
      exact ⟨rfl, by omega⟩
  | stays never =>
    constructor
    · rintro ⟨h, -⟩
      cases h
    · rintro ⟨i, -, hi⟩
      exact absurd hi.1 (never i)

/-- Bytes that are cut off behind a place do not matter to it. -/
theorem isUnescaped_take {k : Nat} : IsUnescaped (bs.take k) i ↔ i < k ∧ IsUnescaped bs i := by
  unfold IsUnescaped backslashesBefore
  rw [List.getElem?_take, List.take_take]
  by_cases hi : i < k
  · rw [if_pos hi, Nat.min_eq_left hi.le]
    exact (and_iff_right hi).symm
  · rw [if_neg hi]
    constructor
    · rintro ⟨h, -⟩
      cases h
    · rintro ⟨h, -⟩
      exact absurd h hi

theorem closesAt_take {k : Nat} : ClosesAt (bs.take k) i ↔ i < k ∧ ClosesAt bs i := by
  unfold ClosesAt
  simp only [isUnescaped_take]
  constructor
  · rintro ⟨⟨hi, hquote⟩, hfirst⟩
    exact ⟨hi, hquote, fun j hj h => hfirst j hj ⟨by omega, h⟩⟩
  · rintro ⟨hi, hquote, hfirst⟩
    exact ⟨⟨hi, hquote⟩, fun j hj h => hfirst j hj h.2⟩

end Unescaped

/-! ## By characters -/

/-- The characters of a string up to its closing quote, if it is closed.  A backslash
escapes exactly the character behind it. -/
def closedText : List Char → Option (List Char)
  | [] => none
  | c :: cs =>
    if c = '"' then some [c]
    else if c = '\\' then
      match cs with
      | [] => none
      | d :: cs => (closedText cs).map (c :: d :: ·)
    else (closedText cs).map (c :: ·)

/-- Behind the first byte of a character no byte is a delimiter. -/
theorem isStringDelimiter_tail {c : Char} {b x : Byte} {others : List Byte}
    (h : String.utf8EncodeChar c = b :: others) (hx : x ∈ others) :
    Cursor.isStringDelimiter x = false := by
  obtain ⟨front, back, rfl⟩ := List.append_of_mem hx
  rw [← Bool.not_eq_true]
  intro hdelimiter
  have hascii : isHigh x = false := by
    rw [Cursor.isStringDelimiter, Bool.or_eq_true, beq_iff_eq, beq_iff_eq] at hdelimiter
    rcases hdelimiter with rfl | rfl <;> rfl
  rw [← List.cons_append] at h
  exact absurd (nil_of_ascii_append h hascii).1 (List.cons_ne_nil b front)

/-- A character that is neither a quote nor a backslash has no byte that is one. -/
theorem stringFrom_character {c : Char} (hq : c ≠ '"') (hb : c ≠ '\\') (n : Nat)
    (bs : List Byte) :
    stringFrom n (String.utf8EncodeChar c ++ bs)
      = stringFrom (n + (String.utf8EncodeChar c).length) bs := by
  refine stringFrom_skip bs (fun x hx => ?_) n
  obtain ⟨others, hothers⟩ := Grammar.exists_encode_eq c
  rw [hothers] at hx
  rcases List.mem_cons.mp hx with rfl | hx
  · have hquote : Grammar.lead c ≠ quote := fun h => hq ((Grammar.lead_eq_iff rfl).mp h)
    have hslash : Grammar.lead c ≠ backslash := fun h => hb ((Grammar.lead_eq_iff rfl).mp h)
    simp [Cursor.isStringDelimiter, hquote, hslash]
  · exact isStringDelimiter_tail hothers hx

/-- A backslash takes the first byte of the character behind it, and the others mean
nothing. -/
theorem stringFrom_escaped (d : Char) (n : Nat) (bs : List Byte) :
    stringFrom n (backslash :: (String.utf8EncodeChar d ++ bs))
      = stringFrom (n + 1 + (String.utf8EncodeChar d).length) bs := by
  obtain ⟨others, hothers⟩ := Grammar.exists_encode_eq d
  rw [hothers, List.cons_append, stringFrom_escape,
    stringFrom_skip bs (fun x hx => isStringDelimiter_tail hothers hx), List.length_cons]
  congr 1
  omega

/-- The end of a string in characters, `n` bytes being behind: that of its text if it is
closed, and that of all characters if it is not. -/
def endOf (n : Nat) (cs : List Char) : Option (List Char) → Nat × Bool
  | some text => (n + String.utf8Len text, true)
  | none => (n + String.utf8Len cs, false)

/-- Characters in front of both come behind. -/
theorem endOf_map (n : Nat) (front cs : List Char) (text : Option (List Char)) :
    endOf n (front ++ cs) (text.map (front ++ ·)) = endOf (n + String.utf8Len front) cs text := by
  cases text with
  | none => rw [Option.map_none, endOf, endOf, String.utf8Len_append, Nat.add_assoc]
  | some text => rw [Option.map_some, endOf, endOf, String.utf8Len_append, Nat.add_assoc]

/-- **A scan by bytes is a scan by characters.** -/
theorem stringFrom_characters (n : Nat) (cs : List Char) :
    stringFrom n (cs.flatMap String.utf8EncodeChar) = endOf n cs (closedText cs) := by
  fun_induction closedText cs generalizing n with
  | case1 => rfl
  | case2 cs => exact stringFrom_quote n _
  | case3 => rfl
  | case4 d cs _ ih =>
    show stringFrom n (backslash :: (d :: cs).flatMap String.utf8EncodeChar) = _
    have hlen : String.utf8Len ['\\', d] = 1 + d.utf8Size := by
      rw [String.utf8Len_cons, String.utf8Len_cons, String.utf8Len_nil, Nat.zero_add, Nat.add_comm]
      rfl
    rw [List.flatMap_cons, stringFrom_escaped, ih, String.length_utf8EncodeChar, Nat.add_assoc,
      ← hlen]
    exact (endOf_map n ['\\', d] cs _).symm
  | case5 c cs hq hb ih =>
    have hlen : String.utf8Len [c] = c.utf8Size := by
      rw [String.utf8Len_cons, String.utf8Len_nil, Nat.zero_add]
    rw [List.flatMap_cons, stringFrom_character hq hb, ih, String.length_utf8EncodeChar, ← hlen]
    exact (endOf_map n [c] cs _).symm

/-- A string is closed in its characters where it is closed in its bytes. -/
theorem closedText_iff (cs : List Char) (m : Nat) :
    (closedText cs).map String.utf8Len = some m ↔
      ∃ i, m = i + 1 ∧ ClosesAt (cs.flatMap String.utf8EncodeChar) i := by
  obtain ⟨k, hk, hends⟩ := ends_stringFrom 0 (cs.flatMap String.utf8EncodeChar)
  rw [← hends.closed_iff]
  rw [stringFrom_characters, Nat.zero_add] at hk
  rw [stringFrom_characters]
  cases h : closedText cs with
  | none => simp [endOf]
  | some text =>
    rw [h] at hk
    have hlen : String.utf8Len text = k := by
      simpa only [endOf, Nat.zero_add] using hk
    simp [endOf, hlen]

/-- **The end of a string, by characters.**  Bytes that are cut off behind it do not
matter. -/
theorem Ends.characters {cs : List Char} {limit n : Nat} {closed : Bool}
    (h : Ends ((cs.flatMap String.utf8EncodeChar).take limit) n closed) (m : Nat) :
    closed = true ∧ n = m ↔ (closedText cs).map String.utf8Len = some m ∧ m ≤ limit := by
  rw [h.closed_iff, closedText_iff]
  simp only [closesAt_take]
  constructor
  · rintro ⟨i, rfl, hi, hcloses⟩
    exact ⟨⟨i, rfl, hcloses⟩, hi⟩
  · rintro ⟨⟨i, rfl, hcloses⟩, hi⟩
    exact ⟨i, rfl, hi, hcloses⟩

/-! ## The scanner -/

/-- Where the body of a string begins that is scanned from a position on, and the state
in it: behind the quote that opens it, or, if the line was entered in a string, at a byte
that is not blank. -/
inductive Begins (content : List Byte) (pos : Nat) (state : ScanState) : Nat → ScanState → Prop
  | opened (code : state.mode = .base) (opens : content[pos]? = some quote) :
    Begins content pos state (pos + 1) (state.openLiteral .string)
  | entered (inString : state.mode = .string) {b : Byte} (here : content[pos]? = some b)
      (notBlank : isBlank b = false) : Begins content pos state pos state

end StringBody

/-- A literal of one line is closed, or goes on in its mode. -/
theorem ScanState.close_eq (state : ScanState) {mode : Mode} (inside : state.mode = mode)
    (closed : Bool) :
    (if closed then state.toBase else state)
      = ⟨if closed then .base else mode, state.depth, state.atLineStart⟩ := by
  cases closed with
  | true => rfl
  | false =>
    rw [← inside]
    rfl

open StringBody

namespace LineScanner

/-- The cursor stands at any position of the line in front of what comes there. -/
theorem before_drop (line : String) {p : Nat}
    (within : p ≤ (LineBuffer.ofLine line).content.length) :
    (⟨LineBuffer.ofLine line, p⟩ : Cursor).Before ((LineBuffer.ofLine line).content.drop p) := by
  have hat := before_take line
  rw [← content_ofLine] at hat
  have hbehind := hat.behind within
  rwa [Cursor.behind, Nat.zero_add] at hbehind

/-- The cursor stands in front of the byte at its position. -/
theorem before_byte {line : String} {q : Nat} {b : Byte}
    (here : (LineBuffer.ofLine line).content[q]? = some b) :
    (⟨LineBuffer.ofLine line, q⟩ : Cursor).Before
      (b :: (LineBuffer.ofLine line).content.drop (q + 1)) := by
  obtain ⟨hlt, hget⟩ := List.getElem?_eq_some_iff.mp here
  have hat := before_drop line hlt.le
  rwa [List.drop_eq_getElem_cons hlt, hget] at hat

/-- At a byte that is not blank the mode says what a call does. -/
theorem next_of_notBlank {line : String} {q : Nat} {b : Byte}
    (here : (LineBuffer.ofLine line).content[q]? = some b) (notBlank : isBlank b = false)
    (state : ScanState) :
    next ⟨⟨LineBuffer.ofLine line, q⟩, state⟩ =
      match state.mode with
      | .base => code ⟨⟨LineBuffer.ofLine line, q⟩, state⟩
      | .string => string ⟨⟨LineBuffer.ofLine line, q⟩, state⟩ ⟨LineBuffer.ofLine line, q⟩ state
      | .rawString =>
        rawString ⟨⟨LineBuffer.ofLine line, q⟩, state⟩ ⟨LineBuffer.ofLine line, q⟩ state
      | .comment =>
        comment ⟨⟨LineBuffer.ofLine line, q⟩, state⟩ ⟨LineBuffer.ofLine line, q⟩ state := by
  have hat := before_byte here
  unfold next
  dsimp only
  rw [hat.current, ok_bind, hat.isAtEnd, ok_bind, List.isEmpty_cons, if_neg Bool.false_ne_true,
    List.headD_cons, notBlank]
  exact if_neg Bool.false_ne_true

/-- The scanner reads the body of a string from any position of its line. -/
theorem string_of_within (line : String) {p : Nat}
    (within : p ≤ (LineBuffer.ofLine line).content.length) (scanner : LineScanner)
    (begun : scanner.cursor.pos ≤ p) {state : ScanState} (inside : state.mode = .string) :
    ∃ n closed, Ends ((LineBuffer.ofLine line).content.drop p) n closed ∧
      scanner.string ⟨LineBuffer.ofLine line, p⟩ state =
        .ok (⟨.string, p + n - scanner.cursor.pos⟩, ⟨⟨LineBuffer.ofLine line, p + n⟩,
          ⟨if closed then .base else .string, state.depth, state.atLineStart⟩⟩) := by
  obtain ⟨n, hn, hends⟩ := ends_stringFrom 0 ((LineBuffer.ofLine line).content.drop p)
  rw [Nat.zero_add] at hn
  refine ⟨n, _, hends, ?_⟩
  unfold string
  rw [(before_drop line within).skipString, ok_bind, hn]
  dsimp only
  rw [state.close_eq inside]
  exact if_pos (Nat.le_add_right_of_le begun)

/-- **A call that comes to a string** reads its body from where it begins. -/
theorem next_of_begins {line : String} {q p : Nat} {state inside : ScanState}
    (h : Begins (LineBuffer.ofLine line).content q state p inside) :
    next ⟨⟨LineBuffer.ofLine line, q⟩, state⟩
      = string ⟨⟨LineBuffer.ofLine line, q⟩, state⟩ ⟨LineBuffer.ofLine line, p⟩ inside := by
  cases h with
  | opened code opens =>
    have hat := before_byte opens
    rw [next_of_notBlank opens rfl, code]
    unfold LineScanner.code
    dsimp only
    rw [hat.current, ok_bind, hat.advanceChar (Nat.le_add_left 1 _), ok_bind, List.headD_cons,
      charWidth_of_ascii quote rfl, hat.behind_one.current, ok_bind]
    rfl
  | entered inString here notBlank => rw [next_of_notBlank here notBlank, inString]

end LineScanner

/-- **Strings end at the first quote that is not escaped.**  From any position of its
line the scanner goes behind the first quote there that has an even number of backslashes
right in front of it, none of them before the position, and code follows; if there is no
such quote, it goes to the end of the line, and the string goes on behind it.  Where the
position is one between two characters, this is the quote that a reader of characters
comes to for whom a backslash escapes exactly the next one; what a line has beyond the
largest position is not in the buffer.  A call scans in this way behind a quote that opens
a string, and in a string at any byte that is not blank. -/
theorem strings_end_at_quotes (line : String) :
    (∀ (p : Nat) (scanner : LineScanner) (state : ScanState),
      p ≤ (LineBuffer.ofLine line).content.length → scanner.cursor.pos ≤ p →
      state.mode = .string →
      ∃ n closed, Ends ((LineBuffer.ofLine line).content.drop p) n closed ∧
        scanner.string ⟨LineBuffer.ofLine line, p⟩ state =
          .ok (⟨.string, p + n - scanner.cursor.pos⟩, ⟨⟨LineBuffer.ofLine line, p + n⟩,
            ⟨if closed then .base else .string, state.depth, state.atLineStart⟩⟩) ∧
        ∀ front body : String, line = front ++ body → front.utf8ByteSize = p →
          ∀ m, closed = true ∧ n = m ↔
            (closedText body.toList).map String.utf8Len = some m ∧
              p + m ≤ LineBuffer.maxLength) ∧
    ∀ {q p : Nat} {state inside : ScanState},
      Begins (LineBuffer.ofLine line).content q state p inside →
      q ≤ p ∧ p ≤ (LineBuffer.ofLine line).content.length ∧ inside.mode = .string ∧
        LineScanner.next ⟨⟨LineBuffer.ofLine line, q⟩, state⟩
          = LineScanner.string ⟨⟨LineBuffer.ofLine line, q⟩, state⟩
              ⟨LineBuffer.ofLine line, p⟩ inside := by
  constructor
  · intro p scanner state within begun inside
    obtain ⟨n, closed, hends, hstring⟩ := scanner.string_of_within line within begun inside
    refine ⟨n, closed, hends, hstring, ?_⟩
    rintro front body hline rfl m
    have hle : front.utf8ByteSize ≤ LineBuffer.maxLength := by
      rw [content_ofLine] at within
      exact within.trans (List.length_take_le _ _)
    have hbody : (LineBuffer.ofLine line).content.drop front.utf8ByteSize
        = (body.toList.flatMap String.utf8EncodeChar).take
            (LineBuffer.maxLength - front.utf8ByteSize) := by
      rw [content_ofLine, hline, bytes_append, List.drop_take, ← length_bytes front,
        List.drop_left, bytes_eq_flatMap body]
    rw [hbody] at hends
    rw [hends.characters m]
    refine and_congr_right fun _ => ?_
    omega
  · intro q p state inside h
    refine ⟨?_, ?_, ?_, LineScanner.next_of_begins h⟩
    · cases h with
      | opened => exact Nat.le_succ q
      | entered => exact Nat.le_refl q
    · cases h with
      | opened _ opens => exact (List.getElem?_eq_some_iff.mp opens).1
      | entered _ here _ => exact (List.getElem?_eq_some_iff.mp here).1.le
    · cases h with
      | opened => rfl
      | entered inString _ _ => exact inString

/-- A character of two bytes is escaped and a backslash is, so that the quote behind them
closes; and a quote is escaped on a line that ends in a backslash. -/
theorem strings_end_at_quotes_escaped :
    (Ends ((LineBuffer.ofLine "\"\\λ\\\\\" x").content.drop 1) 6 true ∧
      (closedText "\\λ\\\\\" x".toList).map String.utf8Len = some 6 ∧
      LineScanner.next ⟨⟨LineBuffer.ofLine "\"\\λ\\\\\" x", 0⟩, .start⟩
        = .ok (⟨.string, 7⟩, ⟨⟨LineBuffer.ofLine "\"\\λ\\\\\" x", 7⟩, ⟨.base, 0, false⟩⟩)) ∧
      Ends (LineBuffer.ofLine "\\\"a\\").content 4 false ∧
      LineScanner.next ⟨⟨LineBuffer.ofLine "\\\"a\\", 0⟩, ⟨.string, 0, false⟩⟩
        = .ok (⟨.string, 4⟩, ⟨⟨LineBuffer.ofLine "\\\"a\\", 4⟩, ⟨.string, 0, false⟩⟩) := by
  have hclosed : LineScanner.next ⟨⟨LineBuffer.ofLine "\"\\λ\\\\\" x", 0⟩, .start⟩
      = .ok (⟨.string, 7⟩, ⟨⟨LineBuffer.ofLine "\"\\λ\\\\\" x", 7⟩, ⟨.base, 0, false⟩⟩) := by
    decide +kernel
  have hopen : LineScanner.next ⟨⟨LineBuffer.ofLine "\\\"a\\", 0⟩, ⟨.string, 0, false⟩⟩
      = .ok (⟨.string, 4⟩, ⟨⟨LineBuffer.ofLine "\\\"a\\", 4⟩, ⟨.string, 0, false⟩⟩) := by
    decide +kernel
  have hbegins : Begins (LineBuffer.ofLine "\"\\λ\\\\\" x").content 0 .start 1 _ :=
    .opened rfl (by decide +kernel)
  have hgoes : Begins (LineBuffer.ofLine "\\\"a\\").content 0 ⟨.string, 0, false⟩ 0 _ :=
    .entered rfl (show _ = some backslash by decide +kernel) rfl
  obtain ⟨hle, hin, hmode, hnext⟩ := (strings_end_at_quotes "\"\\λ\\\\\" x").2 hbegins
  obtain ⟨n, closed, hends, hstring, hcharacters⟩ :=
    (strings_end_at_quotes "\"\\λ\\\\\" x").1 1 ⟨⟨LineBuffer.ofLine _, 0⟩, .start⟩ _ hin hle hmode
  rw [← hnext, hclosed] at hstring
  obtain ⟨hle', hin', hmode', hnext'⟩ := (strings_end_at_quotes "\\\"a\\").2 hgoes
  obtain ⟨m, open', hends', hstring', -⟩ :=
    (strings_end_at_quotes "\\\"a\\").1 0 ⟨⟨LineBuffer.ofLine _, 0⟩, ⟨.string, 0, false⟩⟩ _
      hin' hle' hmode'
  rw [← hnext', hopen] at hstring'
  simp only [Except.ok.injEq, Prod.mk.injEq, LineScanner.mk.injEq, Cursor.mk.injEq,
    ScanState.mk.injEq, true_and] at hstring hstring'
  obtain ⟨-, hn, hbase, -, -⟩ := hstring
  obtain ⟨-, hm, hstays, -, -⟩ := hstring'
  obtain rfl : n = 6 := by omega
  obtain rfl : m = 4 := by omega
  obtain rfl : closed = true := by
    cases closed with
    | true => rfl
    | false => cases hbase
  obtain rfl : open' = false := by
    cases open' with
    | true => cases hstays
    | false => rfl
  have htext := (hcharacters "\"" "\\λ\\\\\" x" rfl rfl 6).mp ⟨rfl, rfl⟩
  exact ⟨⟨hends, htext.1, hclosed⟩, hends', hopen⟩

end OCamlHighlight
