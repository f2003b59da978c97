/-
# The cursor reads the bytes that are left

A cursor checks every access to its buffer.  `Before c bs` says that the bytes of
the line from the cursor on are `bs` and that a zero byte comes behind them.  From
there no check fails as long as the cursor stays within the line, and each
operation does to the cursor what its counterpart of `Extent` does to the bytes
that are left.

Main facts: `Before.skipString`, `Before.skipRawString`, `Before.skipComment` and
`Before.skipNumber`.  The loops of the cursor go on only if they have come closer
to the end of the line, and here they always have.
-/
import OCamlHighlight.LineScanner
import OCamlHighlight.Proofs.LiteralBody

namespace OCamlHighlight

open Byte Extent

/-- An operation that has a result hands it on. -/
theorem ok_bind {α β : Type} (x : α) (f : α → Except Fault β) : Except.ok x >>= f = f x := rfl

/-- What comes to a result has had one before. -/
theorem bind_eq_ok {α β : Type} {x : Except Fault α} {f : α → Except Fault β} {result : β} :
    x >>= f = .ok result ↔ ∃ value, x = .ok value ∧ f value = .ok result := by
  cases x with
  | ok value =>
    refine ⟨fun h => ⟨value, rfl, h⟩, ?_⟩
    rintro ⟨_, hvalue, h⟩
    cases hvalue
    exact h
  | error fault =>
    constructor
    · intro h
      cases h
    · rintro ⟨_, h, -⟩
      cases h

/-- What ends in a fault has done so at once, or has had a result before. -/
theorem bind_eq_error {α β : Type} {x : Except Fault α} {f : α → Except Fault β} {fault : Fault} :
    x >>= f = .error fault ↔
      x = .error fault ∨ ∃ value, x = .ok value ∧ f value = .error fault := by
  cases x with
  | ok value =>
    refine ⟨fun h => .inr ⟨value, rfl, h⟩, ?_⟩
    rintro (h | ⟨_, hvalue, h⟩)
    · cases h
    · cases hvalue
      exact h
  | error other =>
    constructor
    · intro h
      cases h
      exact .inl rfl
    · rintro (h | ⟨_, h, -⟩)
      · cases h
        rfl
      · cases h

/-- Nothing goes wrong with a result that is only put into another form. -/
theorem bind_pure_eq_error {α β : Type} {x : Except Fault α} {f : α → β} {fault : Fault} :
    (do
      let value ← x
      return f value) = .error fault ↔ x = .error fault := by
  rw [bind_eq_error, or_iff_left]
  rintro ⟨value, -, h⟩
  cases h

namespace Cursor

/-- The cursor `n` bytes further on. -/
def behind (c : Cursor) (n : Nat) : Cursor := ⟨c.buffer, c.pos + n⟩

theorem behind_behind (c : Cursor) (n m : Nat) : (c.behind n).behind m = c.behind (n + m) := by
  unfold behind
  rw [Nat.add_assoc]

/-- The cursor stands in front of `bs`, which are the bytes that are left of its
line. -/
structure Before (c : Cursor) (bs : List Byte) : Prop where
  length_eq : c.buffer.length = c.pos + bs.length
  fits : c.buffer.length ≤ maxPos
  storage_eq : ∃ tail, c.buffer.storage.toList.drop c.pos = bs ++ 0 :: tail

namespace Before

variable {c : Cursor} {bs : List Byte} {b : Byte}

/-- The number of bytes that are left. -/
theorem remaining (h : c.Before bs) : c.remaining = bs.length := by
  have hlen := h.length_eq
  unfold Cursor.remaining
  omega

/-- Within the line the cursor can stand anywhere. -/
theorem behind (h : c.Before bs) {n : Nat} (hn : n ≤ bs.length) :
    (c.behind n).Before (bs.drop n) where
  length_eq := by
    have hlen := h.length_eq
    rw [List.length_drop]
    show c.buffer.length = c.pos + n + (bs.length - n)
    omega
  fits := h.fits
  storage_eq := by
    obtain ⟨tail, htail⟩ := h.storage_eq
    refine ⟨tail, ?_⟩
    show c.buffer.storage.toList.drop (c.pos + n) = _
    rw [← List.drop_drop, htail, List.drop_append_of_le_length hn]

theorem behind_one (h : c.Before (b :: bs)) : (c.behind 1).Before bs :=
  h.behind (Nat.le_add_left 1 bs.length)

/-- The byte at the cursor is the first one that is left, or the sentinel. -/
theorem getElem?_storage (h : c.Before bs) : c.buffer.storage[c.pos]? = some (bs.headD 0) := by
  obtain ⟨tail, htail⟩ := h.storage_eq
  have hget := congrArg (·[0]?) htail
  simp only [List.getElem?_drop, Array.getElem?_toList, Nat.add_zero] at hget
  rw [hget]
  cases bs <;> rfl

/-! ## Reading -/

theorem current (h : c.Before bs) : c.current = .ok (bs.headD 0) := by
  unfold Cursor.current read
  rw [h.getElem?_storage]

/-- A zero byte is not taken for the sentinel. -/
theorem isAtEnd (h : c.Before bs) : c.isAtEnd = .ok bs.isEmpty := by
  have hlen := h.length_eq
  unfold Cursor.isAtEnd
  rw [h.current, ok_bind]
  cases bs with
  | nil =>
    rw [List.length_nil, Nat.add_zero] at hlen
    simp [hlen]
    rfl
  | cons b bs =>
    have hlt : ¬ c.buffer.length ≤ c.pos := by
      rw [hlen, List.length_cons]
      omega
    simp [hlt]
    rfl

/-- The byte in front of the cursor. -/
theorem previous (h : c.Before bs) {n : Nat} (hn : n < bs.length) :
    (c.behind (n + 1)).previous = .ok bs[n] := by
  have hread := (h.behind (Nat.le_of_lt hn)).current
  rw [List.drop_eq_getElem_cons hn] at hread
  have hpos : (c.behind (n + 1)).pos ≠ 0 := Nat.succ_ne_zero _
  unfold Cursor.previous
  rw [if_neg hpos]
  exact hread

/-- The bytes from where the cursor was. -/
theorem sliceFrom (h : c.Before bs) {n : Nat} (hn : n ≤ bs.length) :
    (c.behind n).sliceFrom c.pos = .ok (bs.take n) := by
  have hlen := h.length_eq
  obtain ⟨tail, htail⟩ := h.storage_eq
  show slice (c.behind n) c.pos (c.pos + n) = _
  unfold slice
  rw [if_pos ⟨by show c.pos + n ≤ c.buffer.length; omega, Nat.le_add_right _ _⟩]
  show Except.ok (c.buffer.storage.extract c.pos (c.pos + n)).toList = _
  rw [Array.toList_extract, List.extract_eq_take_drop, Nat.add_sub_cancel_left, htail,
    List.take_append_of_le_length hn]

/-! ## Moving -/

/-- Within the line the cursor can go anywhere. -/
theorem advanceBy (h : c.Before bs) {n : Nat} (hn : n ≤ bs.length) :
    c.advanceBy n = .ok (c.behind n) := by
  have hlen := h.length_eq
  have hfits := h.fits
  exact if_pos (by omega)

theorem advance (h : c.Before (b :: bs)) : c.advance = .ok (c.behind 1) :=
  h.advanceBy (Nat.le_add_left 1 bs.length)

theorem advanceChar (h : c.Before (b :: bs)) (hb : charWidth b ≤ (b :: bs).length) :
    c.advanceChar = .ok (c.behind (charWidth b)) := by
  unfold Cursor.advanceChar
  rw [h.current, ok_bind]
  exact h.advanceBy hb

/-- The cursor stops behind a run, at the latest in front of the sentinel. -/
theorem eatWhile (h : c.Before bs) {p : Byte → Bool} (hp : p 0 = false) :
    c.eatWhile p = .ok (c.behind (run p bs)) := by
  obtain ⟨hinside, hget⟩ := Array.getElem?_eq_some_iff.mp h.getElem?_storage
  induction bs generalizing c with
  | nil =>
    rw [Cursor.eatWhile, dif_pos hinside, hget, List.headD_nil, hp, if_neg Bool.false_ne_true]
    rfl
  | cons b bs ih =>
    rw [Cursor.eatWhile, dif_pos hinside, hget, List.headD_cons, run_cons]
    by_cases hb : p b = true
    · have hlen := h.length_eq
      have hfits := h.fits
      rw [List.length_cons] at hlen
      rw [if_pos hb, if_pos hb, if_pos (by omega), ← behind_behind]
      obtain ⟨hinside, hget⟩ := Array.getElem?_eq_some_iff.mp h.behind_one.getElem?_storage
      exact ih h.behind_one hinside hget
    · rw [if_neg hb, if_neg hb]
      rfl

/-- The cursor stops in front of the next byte of a class, or behind the line. -/
theorem skipTo (h : c.Before bs) (p : Byte → Bool) :
    (∃ front d back, bs = front ++ d :: back ∧ (∀ x ∈ front, p x = false) ∧ p d = true ∧
      c.skipTo p = .ok (d, c.behind front.length) ∧
      (c.behind front.length).Before (d :: back)) ∨
    (∀ x ∈ bs, p x = false) ∧ c.skipTo p = .ok (0, c.behind bs.length) := by
  have hlen := h.length_eq
  induction bs generalizing c with
  | nil =>
    rw [List.length_nil, Nat.add_zero] at hlen
    rw [Cursor.skipTo, if_neg (by omega), if_pos hlen.symm]
    exact Or.inr ⟨by simp, rfl⟩
  | cons b bs ih =>
    rw [List.length_cons] at hlen
    rw [Cursor.skipTo, if_pos (by omega), h.getElem?_storage, List.headD_cons]
    by_cases hb : p b = true
    · refine Or.inl ⟨[], b, bs, rfl, by simp, hb, ?_, h⟩
      simp only [if_pos hb]
      rfl
    · simp only [if_neg hb]
      rw [Bool.not_eq_true] at hb
      have hcons : ∀ {l}, (∀ x ∈ l, p x = false) → ∀ x ∈ b :: l, p x = false :=
        fun hl => List.forall_mem_cons.mpr ⟨hb, hl⟩
      rcases ih h.behind_one h.behind_one.length_eq with
        ⟨front, d, back, rfl, hfront, hd, hskip, hat⟩ | ⟨hall, hskip⟩
      · rw [behind_behind, Nat.add_comm 1] at hskip hat
        exact Or.inl ⟨b :: front, d, back, rfl, hcons hfront, hd, hskip, hat⟩
      · rw [behind_behind, Nat.add_comm 1] at hskip
        exact Or.inr ⟨hcons hall, hskip⟩

end Before

end Cursor

/-! ## Bytes that mean nothing in a literal -/

section Skipped

open Cursor

variable {front : List Byte} (bs : List Byte)

theorem Extent.stringFrom_skip (hfront : ∀ x ∈ front, isStringDelimiter x = false) (n : Nat) :
    stringFrom n (front ++ bs) = stringFrom (n + front.length) bs := by
  induction front generalizing n with
  | nil => rfl
  | cons b front ih =>
    obtain ⟨hb, hfront⟩ := List.forall_mem_cons.mp hfront
    obtain ⟨hquote, hslash⟩ : b ≠ quote ∧ b ≠ backslash := by simpa [isStringDelimiter] using hb
    rw [List.cons_append, stringFrom_other n _ hquote hslash, ih hfront, List.length_cons,
      Nat.add_right_comm, Nat.add_assoc]

theorem Extent.rawStringFrom_skip (hfront : ∀ x ∈ front, isRawStringDelimiter x = false)
    (n : Nat) : rawStringFrom n (front ++ bs) = rawStringFrom (n + front.length) bs := by
  induction front generalizing n with
  | nil => rfl
  | cons b front ih =>
    obtain ⟨hb, hfront⟩ := List.forall_mem_cons.mp hfront
    have hpipe : b ≠ pipe := by simpa [isRawStringDelimiter] using hb
    rw [List.cons_append, rawStringFrom_other n fun hc => hpipe hc.1, ih hfront, List.length_cons,
      Nat.add_right_comm, Nat.add_assoc]

theorem Extent.commentFrom_skip (hfront : ∀ x ∈ front, isCommentDelimiter x = false) (n : Nat)
    {depth : Depth} (hd : depth ≠ 0) :
    commentFrom n depth (front ++ bs) = commentFrom (n + front.length) depth bs := by
  induction front generalizing n with
  | nil => rfl
  | cons b front ih =>
    obtain ⟨hb, hfront⟩ := List.forall_mem_cons.mp hfront
    obtain ⟨hparen, hstar⟩ : b ≠ openParen ∧ b ≠ star := by simpa [isCommentDelimiter] using hb
    rw [List.cons_append, commentFrom_other n hd (fun hc => hparen hc.1) fun hc => hstar hc.1,
      ih hfront, List.length_cons, Nat.add_right_comm, Nat.add_assoc]

end Skipped

/-! ## Bodies of literals -/

namespace Cursor.Before

variable {c : Cursor} {bs : List Byte}

/-- A byte other than zero is no sentinel. -/
theorem eq_cons_of_headD {d : Byte} (hd : d ≠ 0) (h : bs.headD 0 = d) : ∃ rest, bs = d :: rest := by
  cases bs with
  | nil => exact absurd h.symm hd
  | cons b rest => exact ⟨rest, congrArg (· :: rest) h⟩

theorem headD_of_head? {d : Byte} (h : bs.head? = some d) : bs.headD 0 = d := by
  rw [List.headD_eq_head?_getD, h, Option.getD_some]

/-- A loop that has come `m` bytes further goes on. -/
theorem remaining_lt (h : c.Before bs) {m : Nat} {rest : List Byte}
    (hnext : (c.behind m).Before rest) (hlt : rest.length < bs.length) :
    (c.behind m).remaining < c.remaining := by
  rwa [hnext.remaining, h.remaining]

/-- **The cursor reads a string.** -/
theorem skipString (h : c.Before bs) :
    c.skipString = .ok ((stringFrom 0 bs).2, c.behind (stringFrom 0 bs).1) := by
  induction hsize : bs.length using Nat.strongRecOn generalizing c bs with
  | ind size ih =>
    subst hsize
    -- Behind `m` bytes the loop goes on, closer to the end of the line.
    have hgo : ∀ m rest, (c.behind m).Before rest → rest.length < bs.length →
        stringFrom 0 bs = stringFrom m rest →
        (if (c.behind m).remaining < c.remaining then (c.behind m).skipString
          else throw .stuck) = .ok ((stringFrom 0 bs).2, c.behind (stringFrom 0 bs).1) := by
      intro m rest hnext hlt heq
      have hadd := stringFrom_add m 0 rest
      rw [Nat.add_zero] at hadd
      rw [if_pos (h.remaining_lt hnext hlt), ih _ hlt hnext rfl, heq, hadd, behind_behind]
    rw [Cursor.skipString, skipToStringDelimiter]
    rcases h.skipTo isStringDelimiter with
      ⟨front, d, back, rfl, hfront, hd, hskip, hat⟩ | ⟨hall, hskip⟩
    · have hd : d = quote ∨ d = backslash := by
        simpa [isStringDelimiter] using hd
      have hbody := stringFrom_skip (d :: back) hfront 0
      rw [Nat.zero_add] at hbody
      rw [hskip, ok_bind]
      dsimp only
      rcases hd with rfl | rfl
      · rw [if_pos rfl, hat.advance, hbody, stringFrom_quote, behind_behind]
        rfl
      · rw [if_neg (by decide), if_pos rfl, hat.advance, ok_bind, hat.behind_one.isAtEnd, ok_bind]
        have hnext := hat.behind_one
        cases back with
        | nil =>
          -- The backslash ends the line, and there is nothing for it to escape.
          rw [behind_behind] at hnext ⊢
          exact hgo _ [] hnext (by simp) hbody
        | cons e back =>
          rw [hnext.advance, ok_bind]
          have hnext := hnext.behind_one
          rw [behind_behind, behind_behind] at hnext ⊢
          refine hgo _ back hnext (by simp; omega) ?_
          rw [hbody, stringFrom_escape]
    · have hbody := stringFrom_skip [] hall 0
      rw [List.append_nil, Nat.zero_add] at hbody
      rw [hskip, ok_bind, hbody]
      rfl

/-- **The cursor reads a quoted string.** -/
theorem skipRawString (h : c.Before bs) :
    c.skipRawString = .ok ((rawStringFrom 0 bs).2, c.behind (rawStringFrom 0 bs).1) := by
  induction hsize : bs.length using Nat.strongRecOn generalizing c bs with
  | ind size ih =>
    subst hsize
    -- Behind a pipe that closes nothing the loop goes on.
    have hgo : ∀ m rest, (c.behind m).Before rest → rest.length < bs.length →
        rawStringFrom 0 bs = rawStringFrom m rest →
        (if (c.behind m).remaining < c.remaining then (c.behind m).skipRawString
          else throw .stuck) =
            .ok ((rawStringFrom 0 bs).2, c.behind (rawStringFrom 0 bs).1) := by
      intro m rest hnext hlt heq
      have hadd := rawStringFrom_add m 0 rest
      rw [Nat.add_zero] at hadd
      rw [if_pos (h.remaining_lt hnext hlt), ih _ hlt hnext rfl, heq, hadd, behind_behind]
    rw [Cursor.skipRawString, skipToPipe]
    rcases h.skipTo isRawStringDelimiter with
      ⟨front, d, back, rfl, hfront, hd, hskip, hat⟩ | ⟨hall, hskip⟩
    · obtain rfl : d = pipe := by
        simpa [isRawStringDelimiter] using hd
      have hbody := rawStringFrom_skip (pipe :: back) hfront 0
      rw [Nat.zero_add] at hbody
      have hnext := hat.behind_one
      rw [hskip, ok_bind]
      dsimp only
      rw [if_pos rfl, hat.advance, ok_bind, hnext.current, ok_bind]
      by_cases hclose : back.headD 0 = closeBrace
      · obtain ⟨rest, rfl⟩ := eq_cons_of_headD (by decide) hclose
        rw [if_pos hclose, hnext.advance, hbody, rawStringFrom_close, behind_behind, behind_behind]
        rfl
      · rw [if_neg hclose]
        rw [behind_behind] at hnext ⊢
        refine hgo _ back hnext (by simp; omega) ?_
        rw [hbody, rawStringFrom_other]
        exact fun hc => hclose (headD_of_head? hc.2)
    · have hbody := rawStringFrom_skip [] hall 0
      rw [List.append_nil, Nat.zero_add] at hbody
      rw [hskip, ok_bind, hbody]
      rfl

/-- **The cursor reads a comment.** -/
theorem skipComment (h : c.Before bs) (depth : Depth) :
    c.skipComment depth
      = .ok ((commentFrom 0 depth bs).2, c.behind (commentFrom 0 depth bs).1) := by
  induction hsize : bs.length using Nat.strongRecOn generalizing c bs depth with
  | ind size ih =>
    subst hsize
    -- Behind a pair, or one byte of none, the loop goes on with the depth there.
    have hgo : ∀ m rest depth', (c.behind m).Before rest → rest.length < bs.length →
        commentFrom 0 depth bs = commentFrom m depth' rest →
        (if (c.behind m).remaining < c.remaining then (c.behind m).skipComment depth'
          else throw .stuck) =
            .ok ((commentFrom 0 depth bs).2, c.behind (commentFrom 0 depth bs).1) := by
      intro m rest depth' hnext hlt heq
      have hadd := commentFrom_add m 0 depth' rest
      rw [Nat.add_zero] at hadd
      rw [if_pos (h.remaining_lt hnext hlt), ih _ hlt hnext depth' rfl, heq, hadd, behind_behind]
    rw [Cursor.skipComment, skipToCommentDelimiter]
    by_cases hzero : depth = 0
    · rw [if_pos hzero, hzero, commentFrom_zero]
      rfl
    rw [if_neg hzero]
    rcases h.skipTo isCommentDelimiter with
      ⟨front, d, back, rfl, hfront, hd, hskip, hat⟩ | ⟨hall, hskip⟩
    · have hd : d = openParen ∨ d = star := by
        simpa [isCommentDelimiter] using hd
      have hbody := commentFrom_skip (d :: back) hfront 0 hzero
      rw [Nat.zero_add] at hbody
      have hnext := hat.behind_one
      have hlt : back.length < (front ++ d :: back).length := by simp; omega
      rw [hskip, ok_bind]
      dsimp only
      rcases hd with rfl | rfl
      · rw [if_pos rfl, hat.advance, ok_bind, hnext.current, ok_bind]
        rw [behind_behind] at hnext ⊢
        apply hgo _ back _ hnext hlt
        rw [hbody]
        -- Only the parenthesis is taken, so that the star can begin a closing pair.
        by_cases hopen : back.headD 0 = star
        · obtain ⟨rest, rfl⟩ := eq_cons_of_headD (by decide) hopen
          rw [if_pos hopen, commentFrom_open _ hzero]
        · rw [if_neg hopen]
          exact commentFrom_other _ hzero (fun hc => hopen (headD_of_head? hc.2)) fun hc => by
            cases hc.1
      · rw [if_neg (by decide), if_pos rfl, hat.advance, ok_bind, hnext.current, ok_bind]
        by_cases hclose : back.headD 0 = closeParen
        · obtain ⟨rest, rfl⟩ := eq_cons_of_headD (by decide) hclose
          rw [if_pos hclose, hnext.advance, ok_bind, Depth.shallower, if_neg hzero, ok_bind]
          have hlast := hnext.behind_one
          rw [behind_behind, behind_behind] at hlast ⊢
          refine hgo _ rest _ hlast (Nat.lt_of_succ_lt hlt) ?_
          rw [hbody, commentFrom_close _ hzero]
        · rw [if_neg hclose]
          rw [behind_behind] at hnext ⊢
          refine hgo _ back _ hnext hlt ?_
          rw [hbody]
          exact commentFrom_other _ hzero (fun hc => by cases hc.1) fun hc =>
            hclose (headD_of_head? hc.2)
    · have hbody := commentFrom_skip [] hall 0 hzero
      rw [List.append_nil, Nat.zero_add] at hbody
      rw [hskip, ok_bind, hbody]
      rfl

/-! ## Numbers -/

/-- The mark of a hexadecimal literal is the byte behind its zero. -/
theorem isHexadecimal_cons (first : Byte) (bs : List Byte) :
    isHexadecimal (first :: bs)
      = (first == 0x30 && (bs.headD 0 == 0x78 || bs.headD 0 == 0x58)) := by
  cases bs with
  | nil =>
    rw [isHexadecimal]
    · simp
    · simp
  | cons mark rest => rfl

/-- A class without the zero byte tells the sentinel from the bytes of the line. -/
theorem any_getElem? {p : Byte → Bool} (hp : p 0 = false) (bs : List Byte) (n : Nat) :
    (bs[n]?).any p = p ((bs.drop n).headD 0) := by
  rw [List.headD_eq_head?_getD, List.head?_drop]
  cases bs[n]? with
  | none => exact hp.symm
  | some b => rfl

theorem mantissa_le (b : Byte) (rest : List Byte) :
    mantissa (b :: rest) ≤ (b :: rest).length := by
  have hwhole := run_le isWord rest
  unfold mantissa
  dsimp only
  split
  case isTrue hdot =>
    have hlt := (List.getElem?_eq_some_iff.mp hdot).1
    have hrun := run_le isWord ((b :: rest).drop (1 + run isWord (b :: rest).tail + 1))
    rw [List.length_drop] at hrun
    omega
  case isFalse =>
    rw [List.tail_cons, List.length_cons]
    omega

/-- The cursor reads an exponent behind a mantissa of `m + 1` bytes, if there is
one. -/
theorem exponent {first : Byte} (h : c.Before (first :: bs)) {m : Nat}
    (hm : mantissa (first :: bs) = m + 1) :
    (do
      let last ← (c.behind (m + 1)).previous
      let sign ← (c.behind (m + 1)).current
      if !isHexadecimal (first :: bs) && isExponentLetter last && isSign sign then
        (← (c.behind (m + 1)).advance).eatWhile isExponentDigit
      else
        return c.behind (m + 1)) = .ok (c.behind (number (first :: bs))) := by
  have hle := mantissa_le first bs
  rw [hm] at hle
  have hat := h.behind hle
  have hlast : (first :: bs)[m]? = some (first :: bs)[m] := List.getElem?_eq_getElem hle
  rw [h.previous hle, ok_bind, hat.current, ok_bind]
  unfold number
  rw [hm]
  dsimp only
  rw [Nat.add_sub_cancel, hlast, Option.any_some, any_getElem? rfl]
  split
  case isTrue hsign =>
    rw [Bool.and_eq_true] at hsign
    cases hback : (first :: bs).drop (m + 1) with
    | nil =>
      rw [hback] at hsign
      exact absurd hsign.2 (by decide)
    | cons sign back =>
      rw [hback] at hat
      rw [hat.advance, ok_bind, hat.behind_one.eatWhile rfl, behind_behind, behind_behind,
        ← List.drop_drop, hback, ← Nat.add_assoc]
      rfl
  case isFalse => rfl

/-- **The cursor reads a number.** -/
theorem skipNumber {first : Byte} (h : c.Before (first :: bs)) :
    (c.behind 1).skipNumber first = .ok (c.behind (number (first :: bs))) := by
  have hnext := h.behind_one
  have hat := h.behind (one_add_run_le isWord first bs)
  -- The mantissa has a byte, and the cursor looks back at its last one.
  obtain ⟨m, hm⟩ := Nat.exists_eq_add_one.mpr (mantissa_pos (first :: bs))
  rw [Cursor.skipNumber, hnext.current, ok_bind, hnext.eatWhile (p := isWord) rfl, ok_bind,
    behind_behind, hat.current, ok_bind, ← isHexadecimal_cons]
  by_cases hdot : ((first :: bs).drop (1 + run isWord bs)).headD 0 = dot
  · obtain ⟨back, hback⟩ := eq_cons_of_headD (by decide) hdot
    rw [hback] at hat
    have hm' : mantissa (first :: bs) = 1 + run isWord bs + (1 + run isWord back) := by
      have hget : (first :: bs)[1 + run isWord bs]? = some dot := by
        rw [← List.head?_drop, hback]
        rfl
      unfold mantissa
      dsimp only [List.tail_cons]
      rw [if_pos hget, ← List.drop_drop, hback, Nat.add_assoc]
      rfl
    rw [if_pos hdot, hat.advance, ok_bind, hat.behind_one.eatWhile rfl, ok_bind, behind_behind,
      behind_behind, ← hm', hm]
    exact h.exponent hm
  · have hm' : mantissa (first :: bs) = 1 + run isWord bs := by
      unfold mantissa
      dsimp only [List.tail_cons]
      rw [if_neg]
      intro hget
      rw [← List.head?_drop] at hget
      exact hdot (headD_of_head? hget)
    rw [if_neg hdot, ← hm', hm]
    exact h.exponent hm

end Cursor.Before

end OCamlHighlight
