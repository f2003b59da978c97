/-
# The bytes inside strings, quoted strings and comments

`stringFrom`, `rawStringFrom` and `commentFrom` scan the inside of a literal from
some byte on.  For each of them this file has the equations by which it takes its
next byte, and three facts about a whole scan:

* what is behind only adds to the length (`stringFrom_add` and its likes);
* a literal that is closed ends behind an ASCII byte, and one that stays open
  takes all bytes (`endsClean_stringFrom` and its likes), so text is cut into text;
* a scan over `front ++ back`, where `back` begins with a blank, ends in `front`
  or goes on in `back` as if it began there (`stringFrom_append` and its likes).
  No delimiter and no escape reaches over the blank.
-/
import OCamlHighlight.Lexeme.Extent
import OCamlHighlight.Proofs.Utf8Text

namespace OCamlHighlight

open Byte

/-- Bytes that begin with a blank one. -/
def StartsBlank (bs : List Byte) : Prop := ∃ b rest, bs = b :: rest ∧ isBlank b = true

/-- A blank byte is no other one. -/
theorem Byte.ne_of_isBlank {b d : Byte} (hb : isBlank b = true) (hd : isBlank d = false) :
    b ≠ d := by
  rintro rfl
  rw [hb] at hd
  cases hd

namespace Extent

/-! ## Strings -/

theorem stringFrom_quote (n : Nat) (bs : List Byte) :
    stringFrom n (quote :: bs) = (n + 1, true) := by
  rw [stringFrom.eq_def]
  exact if_pos rfl

theorem stringFrom_escape (n : Nat) (b : Byte) (bs : List Byte) :
    stringFrom n (backslash :: b :: bs) = stringFrom (n + 2) bs := by
  rw [stringFrom]
  exact if_neg (by decide)

theorem stringFrom_other (n : Nat) {b : Byte} (bs : List Byte) (hq : b ≠ quote)
    (hb : b ≠ backslash) : stringFrom n (b :: bs) = stringFrom (n + 1) bs := by
  rw [stringFrom.eq_def]
  simp only [if_neg hq, if_neg hb]

/-- What is behind adds to the length of a string only. -/
theorem stringFrom_add (n k : Nat) (bs : List Byte) :
    stringFrom (n + k) bs = (n + (stringFrom k bs).1, (stringFrom k bs).2) := by
  fun_induction stringFrom k bs with
  | case1 k => rfl
  | case2 k bs => rw [stringFrom_quote, Nat.add_assoc]
  | case3 k => rfl
  | case4 k b bs _ ih => rw [stringFrom_escape, Nat.add_assoc, ih]
  | case5 k b bs hq hb ih => rw [stringFrom_other _ _ hq hb, Nat.add_assoc, ih]

/-- A string ends behind its closing quote or takes all bytes. -/
theorem endsClean_stringFrom (n : Nat) (bs : List Byte) :
    ∃ m, (stringFrom n bs).1 = n + m ∧ EndsClean bs m ∧
      ((stringFrom n bs).2 = false → m = bs.length) := by
  fun_induction stringFrom n bs with
  | case1 n => exact ⟨0, rfl, Or.inl rfl, fun _ => rfl⟩
  | case2 n bs => exact ⟨1, rfl, EndsClean.one rfl bs, fun h => by cases h⟩
  | case3 n => exact ⟨1, rfl, Or.inl rfl, fun _ => rfl⟩
  | case4 n b bs _ ih =>
    obtain ⟨m, hm, hends, hopen⟩ := ih
    exact ⟨m + 2, by omega, (hends.cons b).cons _, fun h => by simp [hopen h]⟩
  | case5 n b bs _ _ ih =>
    obtain ⟨m, hm, hends, hopen⟩ := ih
    exact ⟨m + 1, by omega, hends.cons b, fun h => by simp [hopen h]⟩

/-- **A string over a blank.**  A backslash at the end of `front` escapes the
blank, and so nothing of what follows. -/
theorem stringFrom_append (n : Nat) (front : List Byte) {back : List Byte}
    (hback : StartsBlank back) :
    stringFrom n (front ++ back) =
      if (stringFrom n front).2 then stringFrom n front
      else stringFrom (stringFrom n front).1 back := by
  fun_induction stringFrom n front with
  | case1 n => rfl
  | case2 n bs => exact stringFrom_quote n (bs ++ back)
  | case3 n =>
    -- The backslash ends `front` and takes the blank along.
    obtain ⟨b, rest, rfl, hb⟩ := hback
    have hother := stringFrom_other (n + 1) rest (ne_of_isBlank hb rfl) (ne_of_isBlank hb rfl)
    exact (stringFrom_escape n b rest).trans hother.symm
  | case4 n b bs _ ih => exact (stringFrom_escape n b (bs ++ back)).trans ih
  | case5 n b bs hq hb ih => exact (stringFrom_other n (bs ++ back) hq hb).trans ih

/-! ## Quoted strings -/

theorem rawStringFrom_close (n : Nat) (bs : List Byte) :
    rawStringFrom n (pipe :: closeBrace :: bs) = (n + 2, true) := by
  rw [rawStringFrom]
  exact if_pos ⟨rfl, rfl⟩

theorem rawStringFrom_other (n : Nat) {b : Byte} {bs : List Byte}
    (h : ¬ (b = pipe ∧ bs.head? = some closeBrace)) :
    rawStringFrom n (b :: bs) = rawStringFrom (n + 1) bs := by
  rw [rawStringFrom]
  exact if_neg h

/-- What is behind adds to the length of a quoted string only. -/
theorem rawStringFrom_add (n k : Nat) (bs : List Byte) :
    rawStringFrom (n + k) bs = (n + (rawStringFrom k bs).1, (rawStringFrom k bs).2) := by
  fun_induction rawStringFrom k bs with
  | case1 k => rfl
  | case2 k b bs h =>
    rw [rawStringFrom, if_pos h, Nat.add_assoc]
  | case3 k b bs h ih => rw [rawStringFrom_other _ h, Nat.add_assoc, ih]

/-- A quoted string ends behind its closing delimiter or takes all bytes. -/
theorem endsClean_rawStringFrom (n : Nat) (bs : List Byte) :
    ∃ m, (rawStringFrom n bs).1 = n + m ∧ EndsClean bs m ∧
      ((rawStringFrom n bs).2 = false → m = bs.length) := by
  fun_induction rawStringFrom n bs with
  | case1 n => exact ⟨0, rfl, Or.inl rfl, fun _ => rfl⟩
  | case2 n b bs h =>
    obtain ⟨rest, hbs⟩ := List.head?_eq_some_iff.mp h.2
    rw [hbs]
    exact ⟨2, rfl, (EndsClean.one rfl rest).cons b, fun h => by cases h⟩
  | case3 n b bs _ ih =>
    obtain ⟨m, hm, hends, hopen⟩ := ih
    exact ⟨m + 1, by omega, hends.cons b, fun h => by simp [hopen h]⟩

/-- **A quoted string over a blank.**  A pipe at the end of `front` closes
nothing. -/
theorem rawStringFrom_append (n : Nat) (front : List Byte) {back : List Byte}
    (hback : StartsBlank back) :
    rawStringFrom n (front ++ back) =
      if (rawStringFrom n front).2 then rawStringFrom n front
      else rawStringFrom (rawStringFrom n front).1 back := by
  fun_induction rawStringFrom n front with
  | case1 n => rfl
  | case2 n b bs h =>
    rw [List.cons_append, rawStringFrom, if_pos]
    · rfl
    · rw [List.head?_append, h.2]
      exact ⟨h.1, rfl⟩
  | case3 n b bs h ih =>
    rw [List.cons_append, rawStringFrom_other, ih]
    rintro ⟨rfl, hhead⟩
    refine h ⟨rfl, ?_⟩
    cases bs with
    | nil =>
      -- A pipe ends `front`, and the blank is no brace.
      obtain ⟨c, rest, rfl, hc⟩ := hback
      exact absurd (Option.some.inj hhead) (ne_of_isBlank hc rfl)
    | cons c rest => exact hhead

/-! ## Comments -/

/-- An opening pair in a comment: its star is left for a closing pair. -/
theorem commentFrom_open (n : Nat) {depth : Depth} (hd : depth ≠ 0) (bs : List Byte) :
    commentFrom n depth (openParen :: star :: bs)
      = commentFrom (n + 1) depth.deeper (star :: bs) := by
  rw [commentFrom, if_neg hd]
  exact if_pos ⟨rfl, rfl⟩

theorem commentFrom_close (n : Nat) {depth : Depth} (hd : depth ≠ 0) (bs : List Byte) :
    commentFrom n depth (star :: closeParen :: bs) = commentFrom (n + 2) (depth - 1) bs := by
  have hopen : ¬ (star = openParen ∧ (closeParen :: bs).head? = some star) := by
    rintro ⟨h, -⟩
    cases h
  rw [commentFrom.eq_def]
  simp only [if_neg hd, if_neg hopen, if_true]

/-- A byte that begins no pair. -/
theorem commentFrom_other (n : Nat) {depth : Depth} (hd : depth ≠ 0) {b : Byte} {bs : List Byte}
    (hopen : ¬ (b = openParen ∧ bs.head? = some star))
    (hclose : ¬ (b = star ∧ bs.head? = some closeParen)) :
    commentFrom n depth (b :: bs) = commentFrom (n + 1) depth bs := by
  rw [commentFrom.eq_def]
  simp only [if_neg hd, if_neg hopen]
  by_cases hb : b = star
  · rw [if_pos hb]
    cases bs with
    | nil => rfl
    | cons c bs => exact if_neg fun hc => hclose ⟨hb, congrArg some hc⟩
  · rw [if_neg hb]

/-- A scan of a comment goes over its bytes by pairs and by other bytes, until
it is closed or the bytes are used up. -/
theorem comment_induction {P : Nat → Depth → List Byte → Prop}
    (nil : ∀ n depth, P n depth [])
    (closed : ∀ n bs, P n 0 bs)
    (opening : ∀ (n : Nat) (depth : Depth) (bs : List Byte), depth ≠ 0 →
      P (n + 1) depth.deeper (star :: bs) → P n depth (openParen :: star :: bs))
    (closing : ∀ (n : Nat) (depth : Depth) (bs : List Byte), depth ≠ 0 →
      P (n + 2) (depth - 1) bs → P n depth (star :: closeParen :: bs))
    (other : ∀ (n : Nat) (depth : Depth) (b : Byte) (bs : List Byte), depth ≠ 0 →
      ¬ (b = openParen ∧ bs.head? = some star) → ¬ (b = star ∧ bs.head? = some closeParen) →
      P (n + 1) depth bs → P n depth (b :: bs))
    (n : Nat) (depth : Depth) (bs : List Byte) : P n depth bs := by
  fun_induction commentFrom n depth bs with
  | case1 n depth => exact nil n depth
  | case2 n b bs => exact closed n (b :: bs)
  | case3 n depth b bs hd h ih =>
    obtain ⟨rfl, hhead⟩ := h
    obtain ⟨bs, rfl⟩ := List.head?_eq_some_iff.mp hhead
    exact opening n depth bs hd ih
  | case4 n depth hd h =>
    -- A star that closes nothing is like any other byte.
    exact other n depth star [] hd h (by rintro ⟨-, h⟩; cases h) (nil (n + 1) depth)
  | case5 n depth hd bs _ ih => exact closing n depth bs hd ih
  | case6 n depth hd c bs hc h ih =>
    exact other n depth star (c :: bs) hd h (fun hp => hc (Option.some.inj hp.2)) ih
  | case7 n depth b bs hd h hb ih => exact other n depth b bs hd h (fun hp => hb hp.1) ih

/-- What is behind adds to the length of a comment only. -/
theorem commentFrom_add (n k : Nat) (depth : Depth) (bs : List Byte) :
    commentFrom (n + k) depth bs
      = (n + (commentFrom k depth bs).1, (commentFrom k depth bs).2) := by
  induction k, depth, bs using comment_induction with
  | nil k depth => rfl
  | closed k bs => rw [commentFrom_zero, commentFrom_zero]
  | opening k depth bs hd ih =>
    rw [commentFrom_open _ hd, commentFrom_open _ hd, Nat.add_assoc, ih]
  | closing k depth bs hd ih =>
    rw [commentFrom_close _ hd, commentFrom_close _ hd, Nat.add_assoc, ih]
  | other k depth b bs hd ho hc ih =>
    rw [commentFrom_other _ hd ho hc, commentFrom_other _ hd ho hc, Nat.add_assoc, ih]

/-- An open comment ends behind a closing delimiter or takes all bytes. -/
theorem endsClean_commentFrom (n : Nat) (depth : Depth) (bs : List Byte) :
    ∃ m, (commentFrom n depth bs).1 = n + m ∧ (depth ≠ 0 → EndsClean bs m) ∧
      (depth = 0 → m = 0) ∧ ((commentFrom n depth bs).2 ≠ 0 → m = bs.length) := by
  induction n, depth, bs using comment_induction with
  | nil n depth => exact ⟨0, rfl, fun _ => Or.inl rfl, fun _ => rfl, fun _ => rfl⟩
  | closed n bs =>
    rw [commentFrom_zero]
    exact ⟨0, rfl, fun h => absurd rfl h, fun _ => rfl, fun h => absurd rfl h⟩
  | opening n depth bs hd ih =>
    obtain ⟨m, hm, hends, -, hopen⟩ := ih
    rw [commentFrom_open _ hd]
    exact ⟨m + 1, by omega, fun _ => (hends (Depth.deeper_ne_zero depth)).cons _,
      fun h => absurd h hd, fun h => by simp [hopen h]⟩
  | closing n depth bs hd ih =>
    obtain ⟨m, hm, hends, hzero, hopen⟩ := ih
    rw [commentFrom_close _ hd]
    refine ⟨m + 2, by omega, fun _ => ?_, fun h => absurd h hd, fun h => by simp [hopen h]⟩
    -- Behind the last comment to be closed nothing more is taken.
    by_cases hdepth : depth - 1 = 0
    · rw [hzero hdepth]
      exact (EndsClean.one rfl bs).cons _
    · exact ((hends hdepth).cons _).cons _
  | other n depth b bs hd ho hc ih =>
    obtain ⟨m, hm, hends, -, hopen⟩ := ih
    rw [commentFrom_other _ hd ho hc]
    exact ⟨m + 1, by omega, fun _ => (hends hd).cons b, fun h => absurd h hd,
      fun h => by simp [hopen h]⟩

/-- **A comment over a blank.**  An opening parenthesis or a star at the end of
`front` begins no pair. -/
theorem commentFrom_append (n : Nat) (depth : Depth) (front : List Byte) {back : List Byte}
    (hback : StartsBlank back) :
    commentFrom n depth (front ++ back)
      = commentFrom (commentFrom n depth front).1 (commentFrom n depth front).2 back := by
  induction n, depth, front using comment_induction with
  | nil n depth => rfl
  | closed n bs => rw [commentFrom_zero, commentFrom_zero, commentFrom_zero]
  | opening n depth bs hd ih =>
    rw [List.cons_append, List.cons_append, commentFrom_open _ hd, commentFrom_open _ hd,
      ← List.cons_append, ih]
  | closing n depth bs hd ih =>
    rw [List.cons_append, List.cons_append, commentFrom_close _ hd, commentFrom_close _ hd, ih]
  | other n depth b bs hd ho hc ih =>
    rw [commentFrom_other _ hd ho hc, List.cons_append, commentFrom_other _ hd, ih]
    · rintro ⟨rfl, hhead⟩
      refine ho ⟨rfl, ?_⟩
      cases bs with
      | nil =>
        obtain ⟨c, rest, rfl, hblank⟩ := hback
        exact absurd (Option.some.inj hhead) (ne_of_isBlank hblank rfl)
      | cons c rest => exact hhead
    · rintro ⟨rfl, hhead⟩
      refine hc ⟨rfl, ?_⟩
      cases bs with
      | nil =>
        obtain ⟨c, rest, rfl, hblank⟩ := hback
        exact absurd (Option.some.inj hhead) (ne_of_isBlank hblank rfl)
      | cons c rest => exact hhead

end Extent

end OCamlHighlight
