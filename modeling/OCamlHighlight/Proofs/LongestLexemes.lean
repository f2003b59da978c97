/-
# Tokens of code are the longest lexemes

The first token of code is what the first rule of the grammar that applies takes: its tag
and its characters, and for a literal its tag and the characters that open it.  Blanks
are one token, as many as there are, and no token in front of them ends in a blank.

* `number_bytes` compares the two descriptions of a number, which both look back at its
  last character; `lexeme_describes` goes through the rules.
* `not_between_blanks`: between two tokens there are never two blanks.
-/
import OCamlHighlight.Proofs.LexicalGrammar
import OCamlHighlight.Proofs.LexemeCuts
import OCamlHighlight.Proofs.Resumption

namespace OCamlHighlight

open Byte

namespace Grammar

/-- The bytes behind some characters in front. -/
theorem drop_bytes {front text : List Char} (h : front <+: text) :
    (text.flatMap String.utf8EncodeChar).drop (String.utf8Len front)
      = (text.drop front.length).flatMap String.utf8EncodeChar := by
  obtain ⟨back, rfl⟩ := h
  rw [List.flatMap_append, ← length_flatMap_utf8EncodeChar, List.drop_left, List.drop_left]

/-- The bytes of some characters in front. -/
theorem take_bytes {front text : List Char} (h : front <+: text) :
    (text.flatMap String.utf8EncodeChar).take (String.utf8Len front)
      = front.flatMap String.utf8EncodeChar := by
  obtain ⟨back, rfl⟩ := h
  rw [List.flatMap_append, ← length_flatMap_utf8EncodeChar, List.take_left]

/-- The last byte of some characters in front. -/
theorem getElem?_bytes {front text : List Char} (h : front <+: text)
    (hpos : 0 < String.utf8Len front) :
    (text.flatMap String.utf8EncodeChar)[String.utf8Len front - 1]?
      = (front.flatMap String.utf8EncodeChar).getLast? := by
  obtain ⟨back, rfl⟩ := h
  rw [← length_flatMap_utf8EncodeChar] at hpos ⊢
  rw [List.flatMap_append, List.getElem?_append_left (Nat.sub_one_lt_of_lt hpos),
    List.getLast?_eq_getElem?]

/-- An ASCII character is one byte. -/
theorem utf8Len_cons_of_ascii {c : Char} (hc : isHigh (lead c) = false) (cs : List Char) :
    String.utf8Len (c :: cs) = 1 + String.utf8Len cs := by
  rw [← length_flatMap_utf8EncodeChar, ← length_flatMap_utf8EncodeChar, List.flatMap_cons,
    encode_of_ascii hc, List.length_append, List.length_singleton]

/-- A character and a run behind it are what the text begins with. -/
theorem cons_takeWhile_isPrefix (c : Char) (cs : List Char) (q : Char → Bool) :
    c :: cs.takeWhile q <+: c :: cs :=
  (List.prefix_cons_inj c).mpr (List.takeWhile_prefix q)

/-- An ASCII character and a run behind it are as long as their bytes. -/
theorem SameClass.cons_run_bytes {q : Char → Bool} {p : Byte → Bool} (h : SameClass q p)
    {c : Char} (hc : isHigh (lead c) = false) (cs : List Char) :
    1 + Extent.run p (tailBytes c cs) = String.utf8Len (c :: cs.takeWhile q) := by
  rw [tailBytes_of_ascii hc, h.run_bytes, utf8Len_cons_of_ascii hc]

/-- The last byte is in a class if the last character is. -/
theorem SameClass.any_getLast? {q : Char → Bool} {p : Byte → Bool} (h : SameClass q p)
    (cs : List Char) :
    (cs.flatMap String.utf8EncodeChar).getLast?.any p = cs.getLast?.any q := by
  rcases List.eq_nil_or_concat cs with rfl | ⟨front, c, rfl⟩
  · rfl
  obtain ⟨others, b, hb⟩ :=
    (List.eq_nil_or_concat (String.utf8EncodeChar c)).resolve_left String.utf8EncodeChar_ne_nil
  rw [List.concat_eq_append] at hb
  rw [List.concat_eq_append, List.flatMap_append, List.flatMap_singleton, hb,
    ← List.append_assoc, List.getLast?_concat, List.getLast?_concat, Option.any_some,
    Option.any_some, Bool.eq_iff_iff]
  constructor
  · -- The last byte of a longer character is in no class.
    intro hp
    obtain ⟨rfl, -⟩ := nil_of_ascii_append hb (h.ascii b hp)
    rwa [h.eq_lead, lead, hb]
  · intro hq
    have hb : [] ++ [lead c] = others ++ [b] := (h.encode_eq hq).symm.trans hb
    obtain ⟨-, hb⟩ := List.append_inj' hb rfl
    rwa [← (List.cons.inj hb).1, ← h.eq_lead]

/-! ## Numbers -/

theorem fraction_isPrefix (cs : List Char) : fraction cs <+: cs := by
  cases cs with
  | nil => exact List.prefix_rfl
  | cons c cs =>
    rw [fraction]
    by_cases hc : c = '.'
    · rw [if_pos hc]
      exact cons_takeWhile_isPrefix c cs isWord
    · rw [if_neg hc]
      exact List.nil_prefix

theorem exponent_isPrefix (front cs : List Char) : exponent front cs <+: cs := by
  cases cs with
  | nil => exact List.prefix_rfl
  | cons c cs =>
    rw [exponent]
    by_cases hc : front.getLast?.any isExponentLetter ∧ isSign c
    · rw [if_pos hc]
      exact cons_takeWhile_isPrefix c cs isExponentDigit
    · rw [if_neg hc]
      exact List.nil_prefix

theorem mantissa_isPrefix (c : Char) (cs : List Char) : mantissa c cs <+: c :: cs := by
  have h : mantissa c cs <+: (c :: cs.takeWhile isWord) ++ cs.dropWhile isWord :=
    (List.prefix_append_right_inj (c :: cs.takeWhile isWord)).mpr (fraction_isPrefix _)
  rwa [List.cons_append, List.takeWhile_append_dropWhile] at h

/-- A number is what the text begins with. -/
theorem numberText_isPrefix (c : Char) (cs : List Char) : numberText c cs <+: c :: cs := by
  have hmantissa := mantissa_isPrefix c cs
  rw [numberText]
  by_cases hhex : isHexadecimal c cs = true
  · rw [if_pos hhex]
    exact hmantissa
  · obtain ⟨back, hback⟩ := hmantissa
    rw [if_neg hhex, ← hback, List.drop_left]
    exact (List.prefix_append_right_inj _).mpr (exponent_isPrefix _ _)

section Numbers

variable {c : Char} (hc : isHigh (lead c) = false) (cs : List Char)

/-- A dot and the word behind it are as long as their bytes. -/
theorem utf8Len_fraction :
    String.utf8Len (fraction cs) =
      if (cs.flatMap String.utf8EncodeChar).head? = some Byte.dot then
        1 + Extent.run Byte.isWord ((cs.flatMap String.utf8EncodeChar).drop 1)
      else 0 := by
  have hhead : (cs.flatMap String.utf8EncodeChar).head? = some Byte.dot ↔ cs.head? = some '.' :=
    head?_eq_lead_iff (d := '.') rfl cs
  cases cs with
  | nil => rfl
  | cons c cs =>
    rw [fraction]
    by_cases hdot : c = '.'
    · rw [if_pos hdot, if_pos (hhead.mpr (congrArg some hdot)), hdot, flatMap_eq_lead_cons,
        List.drop_one, List.tail_cons]
      exact (sameClass_isWord.cons_run_bytes rfl cs).symm
    · rw [if_neg hdot, if_neg fun h => hdot (Option.some.inj (hhead.mp h))]
      rfl

/-- The sign and the digits of an exponent are as long as their bytes. -/
theorem utf8Len_exponent (front : List Char) :
    String.utf8Len (exponent front cs) =
      if front.getLast?.any isExponentLetter ∧
          (cs.flatMap String.utf8EncodeChar).head?.any Extent.isSign then
        1 + Extent.run Byte.isExponentDigit ((cs.flatMap String.utf8EncodeChar).drop 1)
      else 0 := by
  rw [sameClass_isSign.any_head?]
  cases cs with
  | nil =>
    rw [if_neg fun h => Bool.false_ne_true h.2]
    rfl
  | cons c cs =>
    rw [exponent, List.head?_cons, Option.any_some]
    by_cases h : front.getLast?.any isExponentLetter ∧ isSign c
    · have hascii : isHigh (lead c) = false :=
        sameClass_isSign.ascii _ (sameClass_isSign.eq_lead c ▸ h.2)
      rw [if_pos h, if_pos h, flatMap_eq_lead_cons, List.drop_one, List.tail_cons]
      exact (sameClass_isExponentDigit.cons_run_bytes hascii cs).symm
    · rw [if_neg h, if_neg h]
      rfl

include hc in
/-- **The two mantissas** are the same. -/
theorem mantissa_bytes :
    Extent.mantissa ((c :: cs).flatMap String.utf8EncodeChar) = String.utf8Len (mantissa c cs) := by
  have hwhole := sameClass_isWord.cons_run_bytes hc cs
  have hdrop := drop_bytes (cons_takeWhile_isPrefix c cs isWord)
  have hrest : (c :: cs).drop (c :: cs.takeWhile isWord).length = cs.dropWhile isWord := by
    have hsplit := List.takeWhile_append_dropWhile (p := isWord) (l := cs)
    rw [List.length_cons, List.drop_succ_cons]
    nth_rewrite 2 [← hsplit]
    exact List.drop_left
  rw [hrest] at hdrop
  unfold Extent.mantissa
  dsimp only
  rw [mantissa, String.utf8Len_append, utf8Len_fraction, ← hdrop, List.head?_drop, List.drop_drop,
    flatMap_eq_lead_cons, List.tail_cons, hwhole]
  by_cases hdot : (lead c :: tailBytes c cs)[String.utf8Len (c :: cs.takeWhile isWord)]?
      = some Byte.dot
  · rw [if_pos hdot, if_pos hdot, Nat.add_assoc]
  · rw [if_neg hdot, if_neg hdot]
    rfl

/-- The two marks of a hexadecimal literal are the same. -/
theorem isHexadecimal_bytes :
    Extent.isHexadecimal ((c :: cs).flatMap String.utf8EncodeChar) = isHexadecimal c cs := by
  have hsmall := pair_iff (c := c) (d := '0') (e := 'x') rfl rfl cs
  have hlarge := pair_iff (c := c) (d := '0') (e := 'X') rfl rfl cs
  rw [isHexadecimal, Bool.eq_iff_iff, Bool.or_eq_true, decide_eq_true_iff, decide_eq_true_iff,
    ← hsmall, ← hlarge, flatMap_eq_lead_cons]
  cases tailBytes c cs with
  | nil => simp [Extent.isHexadecimal]
  | cons b rest =>
    have hzero : lead '0' = 0x30 := rfl
    have hx : lead 'x' = 0x78 := rfl
    have hX : lead 'X' = 0x58 := rfl
    simp [Extent.isHexadecimal, hzero, hx, hX, and_or_left]

include hc in
/-- **The two descriptions of a number** are the same. -/
theorem number_bytes :
    Extent.number ((c :: cs).flatMap String.utf8EncodeChar)
      = String.utf8Len (numberText c cs) := by
  have hbegin := mantissa_isPrefix c cs
  have hdrop := drop_bytes hbegin
  have hpos := Extent.mantissa_pos ((c :: cs).flatMap String.utf8EncodeChar)
  rw [mantissa_bytes hc] at hpos
  unfold Extent.number
  dsimp only
  rw [mantissa_bytes hc, isHexadecimal_bytes, getElem?_bytes hbegin hpos,
    sameClass_isExponentLetter.any_getLast?, numberText]
  by_cases hhex : isHexadecimal c cs = true
  · rw [hhex, if_pos rfl]
    rfl
  rw [Bool.not_eq_true] at hhex
  rw [hhex, if_neg Bool.false_ne_true, String.utf8Len_append, utf8Len_exponent, ← hdrop,
    List.head?_drop, List.drop_drop]
  by_cases hsign : (mantissa c cs).getLast?.any isExponentLetter = true ∧
      ((c :: cs).flatMap String.utf8EncodeChar)[String.utf8Len (mantissa c cs)]?.any
        Extent.isSign = true
  · rw [if_pos hsign, if_pos (by rw [hsign.1, hsign.2]; rfl), Nat.add_assoc]
  · rw [if_neg hsign, if_neg]
    · rfl
    · rwa [Bool.not_false, Bool.true_and, Bool.and_eq_true]

end Numbers

/-! ## What the grammar says of a token -/

/-- The characters that a rule names. -/
def Lexeme.chars : Lexeme → List Char
  | whole _ chars => chars
  | opening _ chars => chars

/-- A token is what a rule says: it has the tag, and it has the bytes of the characters or
at least those of the opening delimiter. -/
def Lexeme.Describes (token : Token) : Lexeme → Prop
  | whole tag chars => token = ⟨tag, String.utf8Len chars⟩
  | opening tag chars => token.tag = tag ∧ String.utf8Len chars ≤ token.length

section Prefix

variable {text : List Char} {lexeme : Lexeme}

theorem delimiter_isPrefix {make : List Char → Lexeme} {chars : List Char}
    (hmake : (make chars).chars = chars) (h : delimiter make chars text = some lexeme) :
    lexeme.chars <+: text := by
  obtain ⟨hbegin, heq⟩ := Option.ite_none_right_eq_some.mp h
  rw [← Option.some.inj heq, hmake]
  exact hbegin

theorem run_isPrefix {start others : Char → Bool} {tag : List Char → Tag}
    (h : run start others tag text = some lexeme) : lexeme.chars <+: text := by
  cases text with
  | nil => cases h
  | cons c cs =>
    obtain ⟨-, heq⟩ := Option.ite_none_right_eq_some.mp h
    rw [← Option.some.inj heq]
    exact cons_takeWhile_isPrefix c cs others

theorem number_isPrefix (h : number text = some lexeme) : lexeme.chars <+: text := by
  cases text with
  | nil => cases h
  | cons c cs =>
    obtain ⟨-, heq⟩ := Option.ite_none_right_eq_some.mp h
    rw [← Option.some.inj heq]
    exact numberText_isPrefix c cs

theorem directive_isPrefix {atLineStart : Bool} (h : directive atLineStart text = some lexeme) :
    lexeme.chars <+: text := by
  cases text with
  | nil => cases h
  | cons c cs =>
    obtain ⟨-, heq⟩ := Option.ite_none_right_eq_some.mp h
    rw [← Option.some.inj heq]
    exact cons_takeWhile_isPrefix c cs isWord

theorem single_isPrefix (h : single text = some lexeme) : lexeme.chars <+: text := by
  cases text with
  | nil => cases h
  | cons c cs =>
    rw [← Option.some.inj h]
    exact (List.prefix_cons_inj c).mpr List.nil_prefix

/-- **The grammar takes what the text begins with.** -/
theorem first_isPrefix {atLineStart : Bool} (h : first atLineStart text = some lexeme) :
    lexeme.chars <+: text := by
  obtain ⟨rule, hrule, htake⟩ := List.exists_of_findSome?_eq_some h
  simp only [rules, List.mem_cons, List.not_mem_nil, or_false] at hrule
  rcases hrule with rfl | rfl | rfl | rfl | rfl | rfl | rfl | rfl | rfl | rfl
  · exact delimiter_isPrefix rfl htake
  · exact delimiter_isPrefix rfl htake
  · exact delimiter_isPrefix rfl htake
  · exact delimiter_isPrefix rfl htake
  · exact run_isPrefix htake
  · exact run_isPrefix htake
  · exact number_isPrefix htake
  · exact directive_isPrefix htake
  · exact run_isPrefix htake
  · exact single_isPrefix htake

end Prefix

section Token

variable {state : ScanState} {c : Char} {cs : List Char}

/-- **A lexeme of code** is what the rule says that the scanner has chosen. -/
theorem lexeme_describes
    (hlexeme : (Rule.select state.atLineStart (lead c) (tailBytes c cs).head?).opening state
      = none) :
    let rule := Rule.select state.atLineStart (lead c) (tailBytes c cs).head?
    (Lexeme.ofRule c cs rule).Describes (rule.lexeme state (lead c) (tailBytes c cs)).token := by
  have hascii := @Rule.isHigh_of_select state.atLineStart (lead c) (tailBytes c cs).head?
  cases hrule : Rule.select state.atLineStart (lead c) (tailBytes c cs).head? with
  | string | rawString | comment =>
    rw [hrule] at hlexeme
    cases hlexeme
  | separator => exact rfl
  | constructor =>
    rw [hrule] at hascii
    exact congrArg (Token.mk _) (sameClass_isName.cons_run_bytes (hascii (by decide)) cs)
  | directive =>
    rw [hrule] at hascii
    exact congrArg (Token.mk _) (sameClass_isWord.cons_run_bytes (hascii (by decide)) cs)
  | operator =>
    rw [hrule] at hascii
    exact congrArg (Token.mk _) (sameClass_isOperator.cons_run_bytes (hascii (by decide)) cs)
  | number =>
    rw [hrule] at hascii
    have hlength := number_bytes (hascii (by decide)) cs
    rw [flatMap_eq_lead_cons] at hlength
    exact congrArg (Token.mk _) hlength
  | word =>
    rw [hrule] at hascii
    have hlength := sameClass_isName.cons_run_bytes (hascii (by decide)) cs
    have htake := take_bytes (cons_takeWhile_isPrefix c cs isName)
    rw [flatMap_eq_lead_cons] at htake
    show (⟨_, _⟩ : Token) = ⟨_, _⟩
    rw [hlength, htake, wordTag, bytes_ofList]
    rfl
  | other =>
    obtain ⟨others, hothers⟩ := exists_encode_eq c
    refine congrArg (Token.mk _) ?_
    rw [length_character hothers, ← length_flatMap_utf8EncodeChar, List.flatMap_singleton, hothers,
      List.length_cons]

/-- **A literal that opens** has at least its opening delimiter. -/
theorem literal_describes {opening : Nat} {inside : ScanState}
    (hliteral : (Rule.select state.atLineStart (lead c) (tailBytes c cs).head?).opening state
      = some (opening, inside)) :
    (Lexeme.ofRule c cs (Rule.select state.atLineStart (lead c) (tailBytes c cs).head?)).Describes
      (Step.literal opening inside (lead c :: tailBytes c cs)).token := by
  obtain ⟨m, hlength, -⟩ := @endsClean_bodyFrom inside opening
    ((lead c :: tailBytes c cs).drop opening)
  have hle : opening ≤ (bodyFrom opening inside ((lead c :: tailBytes c cs).drop opening)).1 := by
    rw [hlength]
    exact Nat.le_add_right opening m
  cases hrule : Rule.select state.atLineStart (lead c) (tailBytes c cs).head? with
  | string | rawString | comment =>
    rw [hrule] at hliteral
    obtain ⟨rfl, rfl⟩ := Prod.mk.inj (Option.some.inj hliteral)
    exact ⟨rfl, hle⟩
  | _ =>
    rw [hrule] at hliteral
    cases hliteral

end Token

end Grammar

open Grammar

/-- A token is the longest lexeme that a text begins with, in a given state: all the blanks
that are there, and in code what the first rule takes that applies. -/
structure IsLongest (state : ScanState) (text : List Char) (token : Token) : Prop where
  blanks : text.head?.any Grammar.isBlank = true →
    token = ⟨.whitespace, String.utf8Len (text.takeWhile Grammar.isBlank)⟩
  code : state.mode = .base → text.head?.any Grammar.isBlank = false →
    ∃ lexeme, first state.atLineStart text = some lexeme ∧ lexeme.chars <+: text ∧
      lexeme.Describes token

/-- **A step takes the longest lexeme.** -/
theorem isLongest_of_step? {state : ScanState} {rest : String} {step : Step}
    (h : step? state (bytes rest) = some step) : IsLongest state rest.toList step.token := by
  rw [bytes_eq_flatMap] at h
  cases htext : rest.toList with
  | nil =>
    rw [htext] at h
    cases h
  | cons c cs =>
    rw [htext, flatMap_eq_lead_cons] at h
    have hblank := sameClass_isBlank.eq_lead c
    refine ⟨fun hb => ?_, fun hbase hb => ?_⟩
    · rw [step?_of_isBlank state _ (hblank ▸ hb)] at h
      rw [← Option.some.inj h, ← sameClass_isBlank.run_bytes, flatMap_eq_lead_cons]
      rfl
    · have hfirst := first_cons state.atLineStart c cs
      refine ⟨_, hfirst, first_isPrefix hfirst, ?_⟩
      cases shape_of_step? h with
      | blanks hb' =>
        rw [← hblank] at hb'
        exact absurd hb' (Bool.eq_false_iff.mp hb)
      | literal opening inside _ hat => exact literal_describes ((if_pos hbase).symm.trans hat)
      | lexeme _ hat => exact lexeme_describes ((if_pos hbase).symm.trans hat)

/-! ## Between two tokens -/

/-- A run goes on where there is another byte of its class. -/
theorem Extent.run_ne_length {p : Byte → Bool} {b : Byte} (hb : p b = true) (front rest : List Byte) :
    run p (front ++ b :: rest) ≠ front.length := by
  induction front with
  | nil =>
    rw [List.nil_append, run_cons, if_pos hb, Nat.add_comm]
    exact Nat.succ_ne_zero _
  | cons a front ih =>
    rw [List.cons_append, run_cons, List.length_cons]
    by_cases ha : p a = true
    · rw [if_pos ha, Nat.add_comm]
      exact fun h => ih (Nat.succ.inj h)
    · rw [if_neg ha]
      exact (Nat.succ_ne_zero _).symm

/-- A blank ends no literal, as long as the line goes on. -/
theorem bodyFrom_ne_length {inside : ScanState} (hin : inside.InLiteral) (opening : Nat)
    (front : List Byte) {x : Byte} (hx : isBlank x = true) (y : Byte) (back : List Byte) :
    (bodyFrom opening inside (front ++ x :: y :: back)).1 ≠ opening + front.length + 1 := by
  obtain ⟨m, hlength, hends, -, hopen⟩ := @endsClean_bodyFrom inside opening front
  have hm := (hends hin).le
  rw [bodyFrom_append opening inside front ⟨x, _, rfl, hx⟩]
  rcases @base_or_inLiteral_bodyFrom inside opening front with hbase | hopened
  · rw [bodyFrom_base _ _ hbase, hlength]
    omega
  · have hlt := lt_bodyFrom ((bodyFrom opening inside front).1 + 1) back hopened y
    rw [bodyFrom_blank _ _ hopened hx]
    have := hopen hopened
    omega

/-- **No step ends between two blanks.** -/
theorem length_ne_of_blanks {state : ScanState} {front back : List Byte} {x y : Byte}
    (ht : IsText (front ++ x :: y :: back)) (hx : isBlank x = true) (hy : isBlank y = true)
    {step : Step} (h : step? state (front ++ x :: y :: back) = some step) :
    step.token.length ≠ front.length + 1 := by
  have hback : StartsBlank (x :: y :: back) := ⟨x, _, rfl, hx⟩
  have hrun := Extent.run_ne_length hy (front ++ [x]) back
  rw [List.append_assoc, List.length_append] at hrun
  cases front with
  | nil =>
    rw [List.nil_append, step?_of_isBlank state _ hx] at h
    rw [← Option.some.inj h]
    exact hrun
  | cons b rest =>
    rw [List.cons_append] at h
    cases shape_of_step? h with
    | blanks hb => exact hrun
    | literal opening inside hb hat =>
      rw [literalAt_append hback] at hat
      have hopening : opening ≤ (b :: rest).length := by
        rcases literalAt_eq_some hat with ⟨-, rfl, -⟩ | ⟨-, -, hends⟩
        · exact Nat.zero_le _
        · exact hends.le
      show (bodyFrom opening inside ((b :: rest ++ x :: y :: back).drop opening)).1 ≠ _
      by_cases hin : inside.InLiteral
      · have hne := bodyFrom_ne_length hin opening ((b :: rest).drop opening) hx y back
        rwa [List.length_drop, Nat.add_sub_cancel' hopening,
          ← List.drop_append_of_le_length hopening] at hne
      · -- A comment of depth zero takes nothing.
        rcases literalAt_eq_some hat with ⟨-, rfl, rfl⟩ | ⟨-, hin', -⟩
        · obtain ⟨m, hlength, -, hzero, -⟩ :=
            @endsClean_bodyFrom inside 0 ((b :: rest ++ x :: y :: back).drop 0)
          rw [hlength, hzero hin]
          exact (Nat.succ_ne_zero _).symm
        · exact absurd hin' hin
    | lexeme hb hat =>
      have htext := (ht.of_ascii (not_isHigh x (Or.inl hx))).1
      rw [Rule.select_append hback, (lexeme_append hback state b rest).1]
      exact Nat.ne_of_lt (Nat.lt_succ_of_le (isCut_lexeme htext).2.1)

/-- **No token of a line ends between two blanks.** -/
theorem sum_length_ne_of_blanks {bs : List Byte} (ht : IsText bs) (state : ScanState)
    {before : List Token} (hbefore : before <+: (tokens state bs).1) {front back : List Byte}
    {x y : Byte} (hbs : bs = front ++ x :: y :: back) (hx : isBlank x = true)
    (hy : isBlank y = true) : (before.map Token.length).sum ≠ front.length + 1 := by
  induction state, bs, ht using scan_induction generalizing before front with
  | nil state => simp at hbs
  | cons state bs step ht h ih =>
    rw [tokens_of_step? h, List.prefix_cons_iff] at hbefore
    rcases hbefore with rfl | ⟨before, rfl, hbefore⟩
    · exact (Nat.succ_ne_zero _).symm
    rw [List.map_cons, List.sum_cons]
    subst hbs
    have hne := length_ne_of_blanks ht hx hy h
    by_cases hle : step.token.length ≤ front.length
    · have hrest := rest_of_step? h
      rw [List.drop_append_of_le_length hle] at hrest
      have hsum := ih hbefore hrest
      rw [List.length_drop] at hsum
      omega
    · omega

/-! ## The scanner -/

namespace LineScanner

/-- A line that fits can be left behind any number of calls, and never between two
blanks. -/
theorem exists_midline_apart {line : String} (fits : line.utf8ByteSize < 2 ^ 32)
    (state : ScanState) (n : Nat) :
    ∃ calls scanner front rest, Midline state line n calls scanner rest ∧
      scanner.InFrontOf (bytes rest) ∧ line = front ++ rest ∧
      ¬ (front.toList.getLast?.any Grammar.isBlank = true ∧
        rest.toList.head?.any Grammar.isBlank = true) := by
  obtain ⟨calls, scanner, rest, hmid, hat, htokens⟩ := exists_midline fits state n
  have ⟨_, front, _, _, _, hline, _⟩ := hmid
  refine ⟨calls, scanner, front, rest, hmid, hat, hline, ?_⟩
  rintro ⟨hfront, hrest⟩
  rw [← sameClass_isBlank.any_getLast?, ← bytes_eq_flatMap] at hfront
  rw [← sameClass_isBlank.any_head?, ← bytes_eq_flatMap] at hrest
  obtain ⟨x, hlast, hx⟩ := (Option.any_eq_true _ _).mp hfront
  obtain ⟨y, hhead, hy⟩ := (Option.any_eq_true _ _).mp hrest
  obtain ⟨before, hbefore⟩ := List.getLast?_eq_some_iff.mp hlast
  obtain ⟨behind, hbehind⟩ := List.head?_eq_some_iff.mp hhead
  have hbytes : bytes line = before ++ x :: y :: behind := by
    rw [hline, bytes_append, hbefore, hbehind, List.append_assoc, List.singleton_append]
  -- The tokens that the calls have given are as long as what is in front.
  have hsum := sum_length_tokens (isText_bytes line) state
  have hlength : (bytes line).length = (before.length + 1) + (bytes rest).length := by
    rw [hline, bytes_append, List.length_append, hbefore, List.length_append,
      List.length_singleton]
  rw [htokens, List.map_append, List.sum_append, sum_length_tokens hat.isText, hlength,
    Nat.add_right_cancel_iff] at hsum
  have hbegin := List.prefix_append ((calls.map Prod.fst).filter (·.tag ≠ .eol))
    (tokens scanner.state (bytes rest)).1
  rw [show _ ++ _ = _ from (congrArg Prod.fst htokens).symm] at hbegin
  exact sum_length_ne_of_blanks (isText_bytes line) state hbegin hbytes hx hy hsum

end LineScanner

open LineScanner

/-- **Tokens are the longest lexemes of the grammar.**  So it is for every step, and for
every call of the scanner: behind any number of calls on a line, the next one gives
the end of the line if nothing is left, and otherwise the longest lexeme that the rest
begins with, which does not begin in the middle of blanks.  For the calls the line has to
fit into a buffer: a longer one is cut off at the largest position, and a lexeme that goes
on behind it is cut off as well. -/
theorem tokens_are_longest_lexemes :
    (∀ (state : ScanState) (rest : String) (step : Step),
      step? state (bytes rest) = some step → IsLongest state rest.toList step.token) ∧
    ∀ (state : ScanState) (line : String) (n : Nat), line.utf8ByteSize < 2 ^ 32 →
      ∃ calls scanner front rest, Midline state line n calls scanner rest ∧
        line = front ++ rest ∧
        ¬ (front.toList.getLast?.any Grammar.isBlank = true ∧
          rest.toList.head?.any Grammar.isBlank = true) ∧
        ∃ token next, scanner.next = .ok (token, next) ∧
          if rest = "" then token = Token.eol else IsLongest scanner.state rest.toList token := by
  refine ⟨fun state rest step => isLongest_of_step?, fun state line n fits => ?_⟩
  obtain ⟨calls, scanner, front, rest, hmid, hat, hline, hapart⟩ :=
    exists_midline_apart fits state n
  refine ⟨calls, scanner, front, rest, hmid, hline, hapart, _, _, hat.next, ?_⟩
  cases hs : step? scanner.state (bytes rest) with
  | none =>
    have hempty : rest = "" := eq_of_bytes_eq (eq_nil_of_step?_eq_none hs)
    rw [if_pos hempty, nextToken, hs]
  | some step =>
    have hne : rest ≠ "" := by
      rintro rfl
      cases hs
    rw [if_neg hne, nextToken_of_step? hs]
    exact isLongest_of_step? hs

/-- The sign of an exponent is part of a number, but not in a hexadecimal literal. -/
theorem tokens_are_longest_lexemes_sign :
    (∃ step, step? .start (bytes "1.e-5;;") = some step ∧ step.token = ⟨.number, 5⟩ ∧
      IsLongest .start "1.e-5;;".toList step.token) ∧
    (∃ step, step? .start (bytes "0x1.e-5") = some step ∧ step.token = ⟨.number, 5⟩ ∧
      IsLongest .start "0x1.e-5".toList step.token) ∧
    "λ  0x1e-5".utf8ByteSize < 2 ^ 32 ∧
      ∃ calls scanner front rest, Midline .start "λ  0x1e-5" 2 calls scanner rest ∧
        "λ  0x1e-5" = front ++ rest ∧
        ∃ token next, scanner.next = .ok (token, next) ∧
          if rest = "" then token = Token.eol else IsLongest scanner.state rest.toList token := by
  have fits : "λ  0x1e-5".utf8ByteSize < 2 ^ 32 := by decide
  refine ⟨⟨_, rfl, by decide, tokens_are_longest_lexemes.1 _ "1.e-5;;" _ rfl⟩,
    ⟨_, rfl, by decide, tokens_are_longest_lexemes.1 _ "0x1.e-5" _ rfl⟩, fits, ?_⟩
  obtain ⟨calls, scanner, front, rest, hmid, hline, -, hnext⟩ :=
    tokens_are_longest_lexemes.2 .start "λ  0x1e-5" 2 fits
  exact ⟨calls, scanner, front, rest, hmid, hline, hnext⟩

end OCamlHighlight
