/-
# Quoted text is read back

A reader goes over quoted text character by character, and remembers which part of an
escape it has seen.  It ends at the quote that closes the text.

Main facts: `unquote_quote`, and that quoted text has no line feed
(`newline_not_mem_quote`).
-/
import OCamlHighlight.Text.Quoted

namespace OCamlHighlight.Text

/-! ## The reader -/

/-- What a reader has seen of an escape. -/
inductive Escape where
  /-- Nothing: the next character stands for itself, or begins an escape. -/
  | none
  /-- A backslash. -/
  | begun
  /-- A backslash and the letter in front of a code point. -/
  | marked
  /-- The digits of a code point, and what they are so far. -/
  | code (n : Nat)

/-- The value of a hexadecimal digit. -/
def hexValue (c : Char) : Nat := if c.isDigit then c.toNat - 48 else c.toNat - 87

/-- The character that is written by a letter behind a backslash. -/
def letterValue (c : Char) : Char :=
  if c = '0' then '\x00'
  else if c = 't' then '\t'
  else if c = 'n' then '\n'
  else if c = 'r' then '\r'
  else c

/-- What is read up to the closing quote. -/
def unquoteFrom : Escape → List Char → List Char
  | _, [] => []
  | .none, c :: cs =>
    if c = doubleQuote then []
    else if c = backslash then unquoteFrom .begun cs
    else c :: unquoteFrom .none cs
  | .begun, c :: cs =>
    if c = 'u' then unquoteFrom .marked cs else letterValue c :: unquoteFrom .none cs
  | .marked, _ :: cs => unquoteFrom (.code 0) cs
  | .code n, c :: cs =>
    if c = '\x7d' then Char.ofNat n :: unquoteFrom .none cs
    else unquoteFrom (.code (16 * n + hexValue c)) cs

/-- The characters of quoted text, which begins with its opening quote. -/
def unquote (cs : List Char) : List Char := unquoteFrom .none cs.tail

/-! ## Code points -/

/-- The digits that are written: their values, and what they are not. -/
theorem digitChar_spec : ∀ d < 16, hexValue (Nat.digitChar d) = d ∧
    Nat.digitChar d ≠ '\x7d' ∧ Nat.digitChar d ≠ '\n' := by
  decide

/-- A number is its last digit behind the others. -/
theorem hexDigits_of_le {n : Nat} (h : 16 ≤ n) :
    hexDigits n = hexDigits (n / 16) ++ [Nat.digitChar (n % 16)] :=
  Nat.toDigits_of_base_le (by decide) h

/-- A digit is read. -/
theorem unquoteFrom_digit (n : Nat) {d : Nat} (hd : d < 16) (rest : List Char) :
    unquoteFrom (.code n) (Nat.digitChar d :: rest) = unquoteFrom (.code (16 * n + d)) rest := by
  obtain ⟨hvalue, hne, -⟩ := digitChar_spec d hd
  rw [unquoteFrom, if_neg hne, hvalue]

/-- **A number is read** digit by digit. -/
theorem unquoteFrom_hexDigits (n : Nat) (rest : List Char) :
    unquoteFrom (.code 0) (hexDigits n ++ rest) = unquoteFrom (.code n) rest := by
  induction n using Nat.strongRecOn generalizing rest with
  | ind n ih =>
    rcases Nat.lt_or_ge n 16 with hlt | hge
    · rw [hexDigits, Nat.toDigits_of_lt_base hlt, List.singleton_append, unquoteFrom_digit 0 hlt,
        Nat.mul_zero, Nat.zero_add]
    · rw [hexDigits_of_le hge, List.append_assoc, List.singleton_append,
        ih _ (Nat.div_lt_self (by omega) (by decide)),
        unquoteFrom_digit _ (Nat.mod_lt n (by decide)), Nat.div_add_mod]

/-- No digit is a line feed. -/
theorem newline_not_mem_hexDigits (n : Nat) : '\n' ∉ hexDigits n := by
  induction n using Nat.strongRecOn with
  | ind n ih =>
    rcases Nat.lt_or_ge n 16 with hlt | hge
    · rw [hexDigits, Nat.toDigits_of_lt_base hlt, List.mem_singleton]
      exact (digitChar_spec n hlt).2.2.symm
    · rw [hexDigits_of_le hge, List.mem_append, List.mem_singleton, not_or]
      exact ⟨ih _ (Nat.div_lt_self (by omega) (by decide)),
        (digitChar_spec _ (Nat.mod_lt n (by decide))).2.2.symm⟩

/-! ## Characters -/

/-- **What a character is quoted as**: a letter behind a backslash, its code point, or the
character. -/
theorem quoteChar_cases (c : Char) :
    (∃ l, quoteChar c = [backslash, l] ∧ letterValue l = c ∧ l ≠ 'u' ∧ l ≠ '\n') ∨
      quoteChar c = escapeCode c ∨
      (quoteChar c = [c] ∧ c ≠ doubleQuote ∧ c ≠ backslash ∧ c ≠ '\n') := by
  unfold quoteChar
  by_cases h0 : c = '\x00'
  · rw [if_pos h0, h0]
    exact Or.inl ⟨'0', rfl, by decide⟩
  rw [if_neg h0]
  by_cases ht : c = '\t'
  · rw [if_pos ht, ht]
    exact Or.inl ⟨'t', rfl, by decide⟩
  rw [if_neg ht]
  by_cases hn : c = '\n'
  · rw [if_pos hn, hn]
    exact Or.inl ⟨'n', rfl, by decide⟩
  rw [if_neg hn]
  by_cases hr : c = '\r'
  · rw [if_pos hr, hr]
    exact Or.inl ⟨'r', rfl, by decide⟩
  rw [if_neg hr]
  by_cases hq : c = doubleQuote ∨ c = backslash
  · rw [if_pos hq]
    rcases hq with rfl | rfl
    · exact Or.inl ⟨doubleQuote, rfl, by decide⟩
    · exact Or.inl ⟨backslash, rfl, by decide⟩
  rw [if_neg hq]
  rw [not_or] at hq
  by_cases he : (isGraphemeExtend c || isUnprintable c) = true
  · rw [if_pos he]
    exact Or.inr (Or.inl rfl)
  · rw [if_neg he]
    exact Or.inr (Or.inr ⟨rfl, hq.1, hq.2, hn⟩)

/-- A code point is read. -/
theorem unquoteFrom_escapeCode (c : Char) (rest : List Char) :
    unquoteFrom .none (escapeCode c ++ rest) = c :: unquoteFrom .none rest := by
  have hdigits := unquoteFrom_hexDigits c.toNat ('\x7d' :: rest)
  rw [unquoteFrom.eq_def (.code c.toNat)] at hdigits
  simp only [if_true, Char.ofNat_toNat] at hdigits
  rw [escapeCode, List.append_assoc, List.append_assoc, ← hdigits]
  rfl

/-- **The quoted form of a character** is read as this character. -/
theorem unquoteFrom_quoteChar (c : Char) (rest : List Char) :
    unquoteFrom .none (quoteChar c ++ rest) = c :: unquoteFrom .none rest := by
  rcases quoteChar_cases c with ⟨l, hquote, hvalue, hl, -⟩ | hquote | ⟨hquote, hq, hb, -⟩
  · rw [hquote]
    show (if l = 'u' then _ else letterValue l :: unquoteFrom .none rest) = _
    rw [if_neg hl, hvalue]
  · rw [hquote, unquoteFrom_escapeCode]
  · rw [hquote, List.singleton_append, unquoteFrom, if_neg hq, if_neg hb]

/-- The quoted form of a character has no line feed. -/
theorem newline_not_mem_quoteChar (c : Char) : '\n' ∉ quoteChar c := by
  rcases quoteChar_cases c with ⟨l, hquote, -, -, hl⟩ | hquote | ⟨hquote, -, -, hn⟩
  · rw [hquote, List.mem_cons, List.mem_singleton, not_or]
    exact ⟨by decide, hl.symm⟩
  · rw [hquote, escapeCode, List.mem_append, List.mem_append, not_or, not_or]
    exact ⟨⟨by decide, newline_not_mem_hexDigits _⟩, by decide⟩
  · rw [hquote, List.mem_singleton]
    exact hn.symm

/-! ## Texts -/

theorem unquoteFrom_quoteChars (cs rest : List Char) :
    unquoteFrom .none (quoteChars cs ++ rest) = cs ++ unquoteFrom .none rest := by
  induction cs with
  | nil => rfl
  | cons c cs ih =>
    rw [quoteChars_cons, List.append_assoc, unquoteFrom_quoteChar, ih]
    rfl

/-- **Reading undoes quoting.** -/
theorem unquote_quote (text : String) : unquote (quote text).toList = text.toList := by
  have hread := unquoteFrom_quoteChars text.toList [doubleQuote]
  rw [quote, String.toList_ofList, unquote, List.cons_append, List.tail_cons, hread]
  exact List.append_nil _

/-- **Quoted text is on one line.** -/
theorem newline_not_mem_quote (text : String) : '\n' ∉ (quote text).toList := by
  have hchars : '\n' ∉ quoteChars text.toList := by
    rw [quoteChars, List.mem_flatMap]
    rintro ⟨c, -, hc⟩
    exact newline_not_mem_quoteChar c hc
  rw [quote, String.toList_ofList, List.mem_append, List.mem_cons, not_or, not_or]
  exact ⟨⟨by decide, hchars⟩, by decide⟩

end OCamlHighlight.Text
