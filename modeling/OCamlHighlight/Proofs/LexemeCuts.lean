/-
# No lexeme reaches over a blank

Bytes `back` that begin with a blank are put behind some bytes.  Every class and
every delimiter of code is without blanks, so each lexeme in front is what it was
before: its rule (`Rule.select_append`), its length and its tag (`lexeme_append`),
and also the literal that begins there (`literalAt_append`).
-/
import OCamlHighlight.Proofs.TokenSteps

namespace OCamlHighlight

open Byte Extent

/-- A class of bytes in which there is no blank. -/
def Byte.WithoutBlanks (p : Byte → Bool) : Prop := ∀ b, isBlank b = true → p b = false

theorem withoutBlanks_isIdentifier : WithoutBlanks isIdentifier :=
  forall_of_forall_lt (by decide +kernel)

theorem withoutBlanks_isWord : WithoutBlanks isWord :=
  forall_of_forall_lt (by decide +kernel)

theorem withoutBlanks_isOperator : WithoutBlanks isOperator :=
  forall_of_forall_lt (by decide +kernel)

theorem withoutBlanks_isExponentDigit : WithoutBlanks isExponentDigit :=
  forall_of_forall_lt (by decide +kernel)

theorem withoutBlanks_isSign : WithoutBlanks isSign :=
  forall_of_forall_lt (by decide +kernel)

section Append

variable {back : List Byte} (hback : StartsBlank back)

include hback

/-- A run ends in front of a blank. -/
theorem Extent.run_append {p : Byte → Bool} (hp : WithoutBlanks p)
    (front : List Byte) : run p (front ++ back) = run p front := by
  induction front with
  | nil =>
    obtain ⟨c, rest, rfl, hc⟩ := hback
    rw [List.nil_append, run_cons, hp c hc, if_neg Bool.false_ne_true]
    rfl
  | cons b front ih => rw [List.cons_append, run_cons, run_cons, ih]

/-- Up to the blank there are no other bytes than before. -/
theorem getElem?_append_eq_some {bs : List Byte} {n : Nat} (hn : n ≤ bs.length) {x : Byte}
    (hx : isBlank x = false) : (bs ++ back)[n]? = some x ↔ bs[n]? = some x := by
  rcases Nat.lt_or_eq_of_le hn with hlt | rfl
  · rw [List.getElem?_append_left hlt]
  · obtain ⟨c, rest, rfl, hc⟩ := hback
    rw [List.getElem?_append_right (Nat.le_refl _), Nat.sub_self, List.getElem?_cons_zero,
      List.getElem?_eq_none (Nat.le_refl _)]
    constructor
    · intro heq
      rw [Option.some.inj heq, hx] at hc
      cases hc
    · intro heq
      cases heq

/-- The same for a class without blanks. -/
theorem any_getElem?_append {bs : List Byte} {n : Nat} (hn : n ≤ bs.length) {p : Byte → Bool}
    (hp : WithoutBlanks p) :
    ((bs ++ back)[n]?).any p = (bs[n]?).any p := by
  rcases Nat.lt_or_eq_of_le hn with hlt | rfl
  · rw [List.getElem?_append_left hlt]
  · obtain ⟨c, rest, rfl, hc⟩ := hback
    rw [List.getElem?_append_right (Nat.le_refl _), Nat.sub_self, List.getElem?_cons_zero,
      List.getElem?_eq_none (Nat.le_refl _)]
    exact hp c hc

/-! ## Numbers -/

theorem isHexadecimal_append (b : Byte) (rest : List Byte) :
    isHexadecimal (b :: rest ++ back) = isHexadecimal (b :: rest) := by
  cases rest with
  | nil =>
    obtain ⟨c, tail, rfl, hc⟩ := hback
    have hx : c ≠ 0x78 := ne_of_isBlank hc rfl
    have hX : c ≠ 0x58 := ne_of_isBlank hc rfl
    simp [isHexadecimal, hx, hX]
  | cons d rest => rfl

theorem mantissa_append (b : Byte) (rest : List Byte) :
    mantissa (b :: rest ++ back) = mantissa (b :: rest) := by
  have hrun := run_append hback withoutBlanks_isWord
  have hget : (b :: (rest ++ back))[1 + run isWord rest]? = some dot ↔
      (b :: rest)[1 + run isWord rest]? = some dot :=
    getElem?_append_eq_some hback (one_add_run_le isWord b rest) (by decide)
  unfold mantissa
  dsimp only [List.cons_append, List.tail_cons]
  rw [hrun]
  by_cases hdot : (b :: rest)[1 + run isWord rest]? = some dot
  · have hdrop : (b :: (rest ++ back)).drop (1 + run isWord rest + 1)
        = (b :: rest).drop (1 + run isWord rest + 1) ++ back :=
      @List.drop_append_of_le_length _ (b :: rest) back _ (List.getElem?_eq_some_iff.mp hdot).1
    rw [if_pos (hget.mpr hdot), if_pos hdot, hdrop, hrun]
  · rw [if_neg fun hc => hdot (hget.mp hc), if_neg hdot]

/-- **A number ends in front of a blank**, also where an exponent may follow. -/
theorem number_append {b : Byte} (hb : isHigh b = false) (rest : List Byte) :
    number (b :: rest ++ back) = number (b :: rest) := by
  have hle := (endsClean_mantissa hb rest).le
  have hpos := mantissa_pos (b :: rest)
  unfold number
  dsimp only
  rw [mantissa_append hback, isHexadecimal_append hback,
    List.getElem?_append_left (show mantissa (b :: rest) - 1 < (b :: rest).length by omega),
    any_getElem?_append hback hle withoutBlanks_isSign]
  split
  case isTrue h =>
    rw [Bool.and_eq_true] at h
    obtain ⟨sign, hget, -⟩ := (Option.any_eq_true _ _).mp h.2
    have hlt := (List.getElem?_eq_some_iff.mp hget).1
    rw [List.drop_append_of_le_length hlt,
      run_append hback withoutBlanks_isExponentDigit]
  case isFalse => rfl

/-! ## Rules -/

/-- A blank behind the first byte decides like the end of the line. -/
theorem Rule.select_append (atLineStart : Bool) (b : Byte) (rest : List Byte) :
    select atLineStart b (rest ++ back).head? = select atLineStart b rest.head? := by
  cases rest with
  | nil =>
    obtain ⟨c, tail, rfl, hc⟩ := hback
    exact select_some atLineStart b
      ⟨ne_of_isBlank hc rfl, ne_of_isBlank hc rfl, ne_of_isBlank hc rfl, withoutBlanks_isWord c hc⟩
  | cons d rest => rfl

/-- The literal that a byte belongs to is the same. -/
theorem literalAt_append (state : ScanState) (b : Byte) (rest : List Byte) :
    literalAt state b (rest ++ back) = literalAt state b rest := by
  unfold literalAt
  rw [Rule.select_append hback]

/-- **A lexeme ends in front of a blank.** -/
theorem lexeme_append (state : ScanState) (b : Byte) (rest : List Byte) :
    let rule := Rule.select state.atLineStart b rest.head?
    (rule.lexeme state b (rest ++ back)).token = (rule.lexeme state b rest).token ∧
      (rule.lexeme state b (rest ++ back)).state = (rule.lexeme state b rest).state := by
  have hhigh := @Rule.isHigh_of_select state.atLineStart b rest.head?
  have hidentifier := run_append hback withoutBlanks_isIdentifier rest
  have hword := run_append hback withoutBlanks_isWord rest
  have hoperator := run_append hback withoutBlanks_isOperator rest
  cases hrule : Rule.select state.atLineStart b rest.head? with
  | constructor =>
    refine ⟨?_, rfl⟩
    show (⟨.constructor, 1 + run isIdentifier (rest ++ back)⟩ : Token) = _
    rw [hidentifier]
    rfl
  | word =>
    refine ⟨?_, rfl⟩
    have hle := one_add_run_le isIdentifier b rest
    show (⟨Word.tag ((b :: (rest ++ back)).take (1 + run isIdentifier (rest ++ back))),
      1 + run isIdentifier (rest ++ back)⟩ : Token) = _
    rw [hidentifier, ← List.cons_append, List.take_append_of_le_length hle]
    rfl
  | number =>
    rw [hrule] at hhigh
    refine ⟨?_, rfl⟩
    show (⟨.number, number (b :: rest ++ back)⟩ : Token) = _
    rw [number_append hback (hhigh (by decide))]
    rfl
  | directive =>
    refine ⟨?_, rfl⟩
    show (⟨.atom, 1 + run isWord (rest ++ back)⟩ : Token) = _
    rw [hword]
    rfl
  | operator =>
    refine ⟨?_, rfl⟩
    show (⟨.operator, 1 + run isOperator (rest ++ back)⟩ : Token) = _
    rw [hoperator]
    rfl
  | separator | string | rawString | comment | other => exact ⟨rfl, rfl⟩

end Append

end OCamlHighlight
