/-
# The lists of words

The word table keeps its words by length, behind a check of the length and of the first
byte.  Here is the table as the language has it: four lists, for the four classes of words.
A word in the wrong bucket, or one that the check keeps out, would never be found.

* `lookup_eq_some_iff`: what the table finds are the entries of the lists, for any bytes.
* `step?_of_beginsWord`: in code a small letter or `_` begins a token that reaches as far
  as the bytes of identifiers do, and this is the text that is looked up.
* `exists_step?_of_collect`: each token of a line is what some step takes, on lines of any
  length.  Therefore `words_follow_lists` holds of all tokens.
-/
import OCamlHighlight.Proofs.DirectiveHistory
import OCamlHighlight.Proofs.StringEnd

namespace OCamlHighlight

open Byte Extent

namespace Word

/-! ## Four lists -/

/-- The reserved words. -/
def keywords : List String :=
  ["as", "assert", "begin", "class", "constraint", "do", "done", "downto", "else", "end",
    "exception", "external", "for", "fun", "function", "functor", "if", "in", "include",
    "inherit", "initializer", "lazy", "let", "match", "method", "module", "mutable", "new",
    "nonrec", "object", "of", "open", "private", "rec", "sig", "struct", "then", "to", "try",
    "type", "val", "virtual", "when", "while", "with"]

/-- The operators that are written as words. -/
def operators : List String := ["lor", "lxor", "land", "lsl", "lsr", "asr", "or", "and"]

/-- The functions of the standard library that are set apart. -/
def builtins : List String :=
  ["raise", "exit", "succ", "pred", "ignore", "failwith", "invalid_arg"]

/-- The truth values. -/
def atoms : List String := ["false", "true"]

/-- The words of some classes, each with its class. -/
def entriesOf (classes : List (Tag × List String)) : List (List Byte × Tag) :=
  classes.flatMap fun (tag, words) => words.map fun word => (bytes word, tag)

/-- All words, each with its class. -/
def entries : List (List Byte × Tag) :=
  entriesOf [(.keyword, keywords), (.operator, operators), (.builtin, builtins), (.atom, atoms)]

/-- There are 62 words, and each of them has one class. -/
theorem nodup_entries : entries.length = 62 ∧ (entries.map Prod.fst).Nodup := by
  decide +kernel

/-- No word is listed as an ordinary identifier. -/
theorem identifier_notMem_entries : ∀ entry ∈ entries, entry.2 ≠ .identifier := by
  decide +kernel

/-! ## The table and the lists -/

/-- A class that has been found for a word has it. -/
theorem mem_entriesOf_of_findSome? {classes : List (Tag × List String)} {word : List Byte}
    {tag : Tag}
    (h : (classes.findSome? fun (tag, words) =>
      if words.any (bytes · == word) then some tag else none) = some tag) :
    (word, tag) ∈ entriesOf classes := by
  obtain ⟨⟨found, words⟩, hmem, hfound⟩ := List.exists_of_findSome?_eq_some h
  rw [Option.ite_none_right_eq_some, List.any_eq_true] at hfound
  obtain ⟨⟨text, htext, heq⟩, htag⟩ := hfound
  obtain rfl := eq_of_beq heq
  obtain rfl := Option.some.inj htag
  exact List.mem_flatMap.mpr ⟨_, hmem, List.mem_map_of_mem htext⟩

/-- Every bucket of the table holds listed words. -/
theorem entriesOf_ofLength_subset (n : Nat) : entriesOf (ofLength n) ⊆ entries := by
  unfold ofLength
  split <;> decide +kernel

/-- Every listed word is found, in its bucket and behind the check. -/
theorem lookup_of_mem_entries : ∀ entry ∈ entries, lookup entry.1 = some entry.2 := by
  decide +kernel

variable {word : List Byte} {tag : Tag}

/-- **The table holds the lists.** -/
theorem lookup_eq_some_iff : lookup word = some tag ↔ (word, tag) ∈ entries := by
  constructor
  · intro h
    unfold lookup at h
    split at h
    · exact entriesOf_ofLength_subset _ (mem_entriesOf_of_findSome? h)
    · cases h
  · exact lookup_of_mem_entries _

/-- A word that is in no list is not found. -/
theorem lookup_eq_none_iff : lookup word = none ↔ ∀ tag, (word, tag) ∉ entries := by
  rw [Option.eq_none_iff_forall_ne_some]
  exact forall_congr' fun tag => not_congr lookup_eq_some_iff

/-- A listed word has the tag of its list. -/
theorem tag_of_mem_entries (h : (word, tag) ∈ entries) : Word.tag word = tag := by
  rw [Word.tag, lookup_eq_some_iff.mpr h, Option.getD_some]

/-- The words of no list are the ordinary identifiers. -/
theorem tag_eq_identifier_iff : Word.tag word = .identifier ↔ ∀ tag, (word, tag) ∉ entries := by
  constructor
  · intro h tag hmem
    exact identifier_notMem_entries _ hmem ((tag_of_mem_entries hmem).symm.trans h)
  · intro h
    rw [Word.tag, lookup_eq_none_iff.mpr h, Option.getD_none]

end Word

/-! ## Lowercase identifiers -/

/-- What begins a lowercase identifier: a small letter or `_`. -/
def Byte.beginsWord (b : Byte) : Bool := isLower b || b == underscore

/-- Such a byte is an identifier byte of ASCII, and no blank. -/
theorem Byte.of_beginsWord : ∀ b : Byte, beginsWord b = true →
    isIdentifier b = true ∧ isHigh b = false ∧ isBlank b = false :=
  forall_of_forall_lt (by decide +kernel)

/-- The rule for words is that of small letters and `_`. -/
theorem Rule.select_eq_word_iff {atLineStart : Bool} {b : Byte} {second : Option Byte} :
    select atLineStart b second = .word ↔ beginsWord b = true := by
  constructor
  · intro h
    unfold select at h
    unfold beginsWord
    grind
  · intro hb
    -- No rule that is tried before begins with such a byte.
    have hothers : ∀ x : Byte, beginsWord x = true → x ≠ semicolon ∧ x ≠ quote ∧
        x ≠ openBrace ∧ x ≠ openParen ∧ x ≠ backquote ∧ isUpper x = false :=
      forall_of_forall_lt (by decide +kernel)
    have hword : isLower b = true ∨ b = underscore := by
      simpa [beginsWord] using hb
    simp [select, hothers b hb, hword]

/-- A token is a lowercase identifier: it begins with a small letter or `_`, and is part of
no literal. -/
structure Taken.IsWord (taken : Taken) : Prop where
  begins : ∃ b, taken.text.head? = some b ∧ beginsWord b = true
  notString : taken.tag ≠ .string
  notComment : taken.tag ≠ .comment

section Steps

variable {state : ScanState} {b : Byte} {rest bs : List Byte} {step : Step}

/-- **A lowercase identifier** reaches as far as identifier bytes do, and is looked up. -/
theorem step?_of_beginsWord (base : state.mode = .base) (hb : beginsWord b = true)
    (rest : List Byte) :
    step? state (b :: rest) = some
      (Step.take (Word.tag ((b :: rest).takeWhile isIdentifier)) (run isIdentifier (b :: rest))
        state.passCode (b :: rest)) := by
  obtain ⟨hidentifier, -, hblank⟩ := of_beginsWord b hb
  have hrule : Rule.select state.atLineStart b rest.head? = .word := Rule.select_eq_word_iff.mpr hb
  have hat : literalAt state b rest = none := by
    rw [literalAt, if_pos base, hrule]
    rfl
  have hrun : 1 + run isIdentifier rest = run isIdentifier (b :: rest) := by
    rw [run_cons, if_pos hidentifier]
  rw [step?_cons, if_neg (by rw [hblank]; decide), hat, hrule]
  dsimp only [Rule.lexeme]
  rw [hrun, take_run]

/-- A token that is neither blank nor part of a literal is one of code. -/
theorem base_of_step? (hs : step? state (b :: rest) = some step) (notBlank : isBlank b = false)
    (notString : step.token.tag ≠ .string) (notComment : step.token.tag ≠ .comment) :
    state.mode = .base := by
  cases shape_of_step? hs with
  | blanks hb =>
    rw [notBlank] at hb
    cases hb
  | literal opening inside => exact absurd rfl (inside.mode.bodyTag_ne notString notComment)
  | lexeme _ hat => exact base_of_literalAt_eq_none hat

/-- **The tag of a lowercase identifier** is that of its text. -/
theorem Taken.IsWord.tag_eq (hs : step? state bs = some step)
    (h : (Taken.of bs step.token).IsWord) :
    step.token.tag = Word.tag (Taken.of bs step.token).text := by
  obtain ⟨⟨b, hhead, hb⟩, notString, notComment⟩ := h
  cases bs with
  | nil => cases hs
  | cons c rest =>
    -- The token begins with the first byte of what is left.
    obtain rfl : c = b := by
      rw [Taken.of, List.head?_take] at hhead
      split at hhead
      · cases hhead
      · exact Option.some.inj hhead
    have base := base_of_step? hs (of_beginsWord c hb).2.2 notString notComment
    rw [step?_of_beginsWord base hb] at hs
    obtain rfl := Option.some.inj hs
    show Word.tag _ = Word.tag ((c :: rest).take (run isIdentifier (c :: rest)))
    rw [take_run]

/-- Nothing but a lowercase identifier has the tag of a variable. -/
theorem isWord_of_tag_eq (hs : step? state bs = some step)
    (htag : step.token.tag = .identifier) : (Taken.of bs step.token).IsWord := by
  refine ⟨?_, ?_, ?_⟩
  · cases bs with
    | nil => cases hs
    | cons b rest =>
      cases shape_of_step? hs with
      | blanks => cases htag
      | literal opening inside =>
        exact absurd htag (inside.mode.bodyTag_ne (by decide) (by decide))
      | lexeme =>
        cases hrule : Rule.select state.atLineStart b rest.head? with
        | word =>
          refine ⟨b, ?_, Rule.select_eq_word_iff.mp hrule⟩
          show ((b :: rest).take (1 + run isIdentifier rest)).head? = some b
          rw [Nat.add_comm]
          rfl
        | _ =>
          rw [hrule] at htag
          cases htag
  · show step.token.tag ≠ .string
    rw [htag]
    decide
  · show step.token.tag ≠ .comment
    rw [htag]
    decide

end Steps

/-! ## Every token of a line -/

namespace LineScanner

/-- A lowercase identifier may begin at any position of a line, and a call that comes to it
takes all of it. -/
theorem next_of_beginsWord {line : String} {q : Nat} {b : Byte}
    (here : (LineBuffer.ofLine line).content[q]? = some b) (hb : beginsWord b = true)
    {state : ScanState} (base : state.mode = .base) :
    let text := ((LineBuffer.ofLine line).content.drop q).takeWhile isIdentifier
    next ⟨⟨LineBuffer.ofLine line, q⟩, state⟩ =
      .ok (⟨Word.tag text, text.length⟩,
        ⟨⟨LineBuffer.ofLine line, q + text.length⟩, state.passCode⟩) := by
  obtain ⟨hlt, hget⟩ := List.getElem?_eq_some_iff.mp here
  have hdrop : (LineBuffer.ofLine line).content.drop q
      = b :: (LineBuffer.ofLine line).content.drop (q + 1) := by
    rw [List.drop_eq_getElem_cons hlt, hget]
  have hwhole : charWidth b ≤ (b :: (LineBuffer.ofLine line).content.drop (q + 1)).length := by
    rw [charWidth_of_ascii b (of_beginsWord b hb).2.1]
    exact Nat.le_add_left 1 _
  rw [hdrop]
  exact next_of_whole (before_byte here) (fun _ => hwhole) (step?_of_beginsWord base hb _)

/-- **Every token is taken by a step**, also where the line is cut off at the largest
position. -/
theorem exists_step?_of_collect {c : Cursor} {bs : List Byte} (h : c.OnLine bs)
    {state final : ScanState} {acc acc' : Array Token}
    (collected : collect acc ⟨c, state⟩ = .ok (acc', final)) :
    ∃ tokens, acc'.toList = acc.toList ++ tokens ∧
      ∀ taken ∈ takenFrom tokens bs, ∃ state left step,
        step? state left = some step ∧ taken = .of left step.token := by
  induction hw : weight ⟨c, state⟩ using Nat.strongRecOn generalizing c bs state acc with
  | ind w ih =>
    subst hw
    rw [collect] at collected
    obtain ⟨call, hnext, collected⟩ := bind_eq_ok.mp collected
    rcases onLine_of_next h hnext with ⟨rfl, rfl⟩ | ⟨step, hs, rfl, hrest⟩
    · cases collected
      exact ⟨[], (List.append_nil _).symm, by simp [takenFrom]⟩
    · dsimp only [took] at collected
      rw [if_neg (tag_of_step? hs)] at collected
      split at collected
      case isTrue hlt =>
        obtain ⟨tokens, htokens, htaken⟩ := ih _ hlt hrest collected rfl
        refine ⟨step.token :: tokens, ?_, ?_⟩
        · rw [htokens, Array.toList_push, List.append_assoc]
          rfl
        · rw [takenFrom, ← rest_of_step? hs]
          exact List.forall_mem_cons.mpr ⟨⟨state, bs, step, hs, rfl⟩, htaken⟩
      case isFalse => cases collected

/-- So it is with the tokens of a line of any length. -/
theorem exists_step?_of_tokenizeLine {line : String} {state final : ScanState}
    {tokens : List Token} (h : tokenizeLine state line = .ok (tokens, final)) :
    ∀ taken ∈ takenFrom tokens (LineBuffer.ofLine line).content, ∃ state left step,
      step? state left = some step ∧ taken = .of left step.token := by
  obtain ⟨⟨c, state'⟩, hopened, hscan⟩ := bind_eq_ok.mp h
  obtain ⟨⟨acc, final'⟩, hcollect, hret⟩ := bind_eq_ok.mp hscan
  cases hret
  obtain ⟨-, honline⟩ := onLine_of_ofLine hopened
  obtain ⟨tokens, htokens, htaken⟩ := exists_step?_of_collect honline hcollect
  rw [content_ofLine, htokens]
  exact htaken

end LineScanner

open LineScanner

/-- **Words follow the lists.**  Whatever the bytes of a word are, the table finds a class for
it just if the word is one of the 62 entries of the four lists, with this class.  In code, a
small letter or `_` at any position of a line begins a lowercase identifier, which takes all
identifier bytes from there on; it has the tag of a variable just if its text is in none of
the lists.  Of all tokens of a line these are the only ones with this tag, and a lowercase
identifier whose text is in a list has the tag of that list.  A line that fits into a buffer
has its tokens; what a longer one has beyond the largest position is not in the buffer. -/
theorem words_follow_lists :
    (∀ (word : List Byte) (tag : Tag),
      Word.lookup word = some tag ↔ (word, tag) ∈ Word.entries) ∧
    (∀ word : List Byte, Word.lookup word = none ↔ ∀ tag, (word, tag) ∉ Word.entries) ∧
    (Word.entries.length = 62 ∧ (Word.entries.map Prod.fst).Nodup) ∧
    (∀ (line : String) (q : Nat) (b : Byte) (state : ScanState),
      (LineBuffer.ofLine line).content[q]? = some b → beginsWord b = true →
      state.mode = .base →
      ∃ token text, text = ((LineBuffer.ofLine line).content.drop q).takeWhile isIdentifier ∧
        next ⟨⟨LineBuffer.ofLine line, q⟩, state⟩ =
          .ok (token, ⟨⟨LineBuffer.ofLine line, q + text.length⟩, state.passCode⟩) ∧
        token.length = text.length ∧
        (token.tag = .identifier ↔ ∀ tag, (text, tag) ∉ Word.entries) ∧
        ∀ tag, (text, tag) ∈ Word.entries → token.tag = tag) ∧
    ∀ (line : String) (state : ScanState),
      (∀ tokens final, tokenizeLine state line = .ok (tokens, final) →
        ∀ taken ∈ takenFrom tokens (LineBuffer.ofLine line).content,
          (taken.tag = .identifier ↔
            taken.IsWord ∧ ∀ tag, (taken.text, tag) ∉ Word.entries) ∧
          (taken.IsWord → ∀ tag, (taken.text, tag) ∈ Word.entries → taken.tag = tag)) ∧
      (line.utf8ByteSize < 2 ^ 32 → (LineBuffer.ofLine line).content = bytes line ∧
        ∃ tokens final, tokenizeLine state line = .ok (tokens, final)) := by
  refine ⟨fun _ _ => Word.lookup_eq_some_iff, fun _ => Word.lookup_eq_none_iff,
    Word.nodup_entries, fun line q b state here hb base => ?_, fun line state => ⟨?_, ?_⟩⟩
  · exact ⟨_, _, rfl, next_of_beginsWord here hb base, rfl, Word.tag_eq_identifier_iff,
      fun _ => Word.tag_of_mem_entries⟩
  · intro tokens final htokens taken hmem
    obtain ⟨state, left, step, hs, rfl⟩ := exists_step?_of_tokenizeLine htokens taken hmem
    refine ⟨⟨fun htag => ?_, fun ⟨hword, hunlisted⟩ => ?_⟩, fun hword tag hlisted => ?_⟩
    · have hword := isWord_of_tag_eq hs htag
      exact ⟨hword, Word.tag_eq_identifier_iff.mp ((hword.tag_eq hs).symm.trans htag)⟩
    · exact (hword.tag_eq hs).trans (Word.tag_eq_identifier_iff.mpr hunlisted)
    · exact (hword.tag_eq hs).trans (Word.tag_of_mem_entries hlisted)
  · intro fits
    rw [content_ofLine, take_maxLength fits]
    exact ⟨rfl, _, _, tokenizeLine_eq fits state⟩

/-- Behind the end of a string there are an operator, a longer word that begins with it, and a
comment with another operator in it. -/
theorem words_follow_lists_longer :
    let line := "x\" land lands_ (*or*)"
    let tokens : List Token := [⟨.string, 2⟩, ⟨.whitespace, 1⟩, ⟨.operator, 4⟩, ⟨.whitespace, 1⟩,
      ⟨.identifier, 6⟩, ⟨.whitespace, 1⟩, ⟨.comment, 6⟩]
    line.utf8ByteSize < 2 ^ 32 ∧ (LineBuffer.ofLine line).content = bytes line ∧
      tokenizeLine ⟨.string, 0, false⟩ line = .ok (tokens, ⟨.base, 0, false⟩) ∧
      ⟨.operator, bytes "land"⟩ ∈ takenFrom tokens (LineBuffer.ofLine line).content ∧
      ⟨.identifier, bytes "lands_"⟩ ∈ takenFrom tokens (LineBuffer.ofLine line).content ∧
      (bytes "land", .operator) ∈ Word.entries ∧ (∀ tag, (bytes "lands_", tag) ∉ Word.entries) ∧
      next ⟨⟨LineBuffer.ofLine line, 8⟩, .start⟩
        = .ok (⟨.identifier, 6⟩, ⟨⟨LineBuffer.ofLine line, 14⟩, ⟨.base, 0, false⟩⟩) := by
  intro line tokens
  have hscan : tokenizeLine ⟨.string, 0, false⟩ line = .ok (tokens, ⟨.base, 0, false⟩) := by
    decide +kernel
  have hland : ⟨.operator, bytes "land"⟩ ∈ takenFrom tokens (LineBuffer.ofLine line).content := by
    decide +kernel
  have hlands :
      ⟨.identifier, bytes "lands_"⟩ ∈ takenFrom tokens (LineBuffer.ofLine line).content := by
    decide +kernel
  have htext : ((LineBuffer.ofLine line).content.drop 8).takeWhile isIdentifier
      = bytes "lands_" := by
    decide +kernel
  obtain ⟨hfound, -, -, hcall, hline⟩ := words_follow_lists
  obtain ⟨htaken, hfits⟩ := hline line ⟨.string, 0, false⟩
  obtain ⟨hcontent, -⟩ := hfits (by decide)
  -- The longer word has the tag of a variable, and so it is in no list.
  obtain ⟨-, hunlisted⟩ := (htaken _ _ hscan _ hlands).1.mp rfl
  obtain ⟨token, text, rfl, hnext, hlength, hiff, -⟩ :=
    hcall line 8 _ .start (show _ = some (0x6C : Byte) by decide +kernel) rfl rfl
  rw [htext] at hnext hlength hiff
  obtain rfl : token = ⟨.identifier, 6⟩ := congrArg₂ Token.mk (hiff.mpr hunlisted) hlength
  exact ⟨by decide, hcontent, hscan, hland, hlands, (hfound _ _).mp (by decide +kernel), hunlisted,
    hnext⟩

end OCamlHighlight
