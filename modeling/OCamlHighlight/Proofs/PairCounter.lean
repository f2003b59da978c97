/-
# Comments are counted by pairs

The scanner goes through a comment in jumps: to the next byte that may begin a
delimiter, and over the star of an opening pair only if no parenthesis closes with it.
A `PairCounter` reads every byte and remembers nothing but the one before it.  Here the
two are shown to agree, for all bytes and all depths, where pairs overlap as well.

* `PairCounter.depthAfter` is the depth after some bytes, and `PairCounter.Stops` says
  where the counter comes to zero for the first time, or that it never does.
* `PairCounter.InStep` is what the scan of a comment and the counter have in common.  The
  scan counts an opening pair at its parenthesis and the counter counts it at its star,
  so between the two bytes the scan is ahead by one pair.
* `stops_commentFrom` follows both through the comment, one pair or one byte at a time.
-/
import OCamlHighlight.Proofs.CheckedScan

namespace OCamlHighlight

open Byte Extent

/-! ## The counter -/

/-- A counter that reads bytes one by one: the byte that it has read last, if there is
one, and the number of comments that are open. -/
structure PairCounter where
  previous : Option Byte
  depth : Nat

namespace PairCounter

/-- The counter at a depth that has read nothing yet. -/
def start (depth : Nat) : PairCounter := ⟨none, depth⟩

/-- Reads a byte.  An opening pair adds one, up to the largest word, and a closing pair
takes one away. -/
def read (counter : PairCounter) (b : Byte) : PairCounter where
  previous := some b
  depth :=
    if counter.previous = some openParen ∧ b = star then min (counter.depth + 1) 4294967295
    else if counter.previous = some star ∧ b = closeParen then counter.depth - 1
    else counter.depth

/-- The depth after the first `n` bytes. -/
def depthAfter (counter : PairCounter) (bs : List Byte) (n : Nat) : Nat :=
  ((bs.take n).foldl read counter).depth

/-- The counter is stopped behind the first `n` bytes at depth `last`: before that it is
never zero, and it is zero there or the bytes are used up. -/
structure Stops (counter : PairCounter) (bs : List Byte) (n last : Nat) : Prop where
  le_length : n ≤ bs.length
  ne_zero : ∀ m, m < n → counter.depthAfter bs m ≠ 0
  depthAfter_eq : counter.depthAfter bs n = last
  stops : last = 0 ∨ n = bs.length

section Reading

variable {counter : PairCounter} {bs : List Byte}

/-- Before it has read the counter is as it was. -/
theorem depthAfter_zero (counter : PairCounter) (bs : List Byte) :
    counter.depthAfter bs 0 = counter.depth := rfl

/-- Behind a byte the counter goes on. -/
theorem depthAfter_cons_succ (counter : PairCounter) (b : Byte) (bs : List Byte) (n : Nat) :
    counter.depthAfter (b :: bs) (n + 1) = (counter.read b).depthAfter bs n := rfl

/-- A counter that is zero, or has nothing to read, is stopped at once. -/
theorem stops_here (h : counter.depth = 0 ∨ bs = []) : counter.Stops bs 0 counter.depth where
  le_length := Nat.zero_le _
  ne_zero := fun m hm => absurd hm (Nat.not_lt_zero m)
  depthAfter_eq := rfl
  stops := h.imp id fun hbs => (List.length_eq_zero_iff.mpr hbs).symm

/-- A counter that is not zero reads on. -/
theorem Stops.cons {b : Byte} {n last : Nat} (h : (counter.read b).Stops bs n last)
    (hne : counter.depth ≠ 0) : counter.Stops (b :: bs) (n + 1) last where
  le_length := Nat.succ_le_succ h.le_length
  ne_zero := by
    intro m hm
    cases m with
    | zero =>
      rw [depthAfter_zero]
      exact hne
    | succ m =>
      rw [depthAfter_cons_succ]
      exact h.ne_zero m (Nat.lt_of_succ_lt_succ hm)
  depthAfter_eq := by
    rw [depthAfter_cons_succ]
    exact h.depthAfter_eq
  stops := h.stops.imp id (congrArg (· + 1))

end Reading

/-! ## In step with the scan -/

/-- In front of some bytes the scan of a comment is at `depth`.  The counter is there as
well, or one behind it if the next byte is the star of an opening pair; and no closing
pair is half read. -/
structure InStep (counter : PairCounter) (depth : Depth) (bs : List Byte) : Prop where
  depth_eq : depth.toNat =
    if counter.previous = some openParen ∧ bs.head? = some star then
      min (counter.depth + 1) 4294967295
    else counter.depth
  not_closing : ¬ (counter.previous = some star ∧ bs.head? = some closeParen)
  ne_zero : depth ≠ 0 → counter.depth ≠ 0

section InStep

variable {counter : PairCounter} {depth : Depth} {b : Byte} {bs : List Byte}

/-- Both begin in step. -/
theorem inStep_start (depth : Depth) (bs : List Byte) : (start depth.toNat).InStep depth bs where
  depth_eq := by
    rw [if_neg]
    · rfl
    · rintro ⟨h, -⟩
      cases h
  not_closing := by
    rintro ⟨h, -⟩
    cases h
  ne_zero := fun hd h => hd (UInt32.toNat_inj.mp h)

/-- The next byte brings the counter to the depth of the scan. -/
theorem InStep.read_eq (h : counter.InStep depth (b :: bs)) :
    counter.read b = ⟨some b, depth.toNat⟩ := by
  have hdepth := h.depth_eq
  have hclosing := h.not_closing
  simp only [List.head?_cons, Option.some.injEq] at hdepth hclosing
  unfold PairCounter.read
  rw [hdepth, if_neg hclosing]

/-- Behind a byte both are in step again, at a depth that the scan may have changed
already because an opening pair begins there. -/
theorem inStep_behind {next : Depth} (hopen : b = openParen ∧ bs.head? = some star →
      next = depth.deeper) (hother : ¬ (b = openParen ∧ bs.head? = some star) → next = depth)
    (hclose : ¬ (b = star ∧ bs.head? = some closeParen)) (hd : depth ≠ 0) :
    InStep ⟨some b, depth.toNat⟩ next bs where
  depth_eq := by
    simp only [Option.some.injEq]
    by_cases hpair : b = openParen ∧ bs.head? = some star
    · rw [if_pos hpair, hopen hpair, Depth.toNat_deeper]
    · rw [if_neg hpair, hother hpair]
  not_closing := by
    simp only [Option.some.injEq]
    exact hclose
  ne_zero := fun _ hzero => hd (UInt32.toNat_inj.mp hzero)

/-- Behind a closing pair both are in step again. -/
theorem inStep_closed (hd : depth ≠ 0) (bs : List Byte) :
    InStep ⟨some closeParen, depth.toNat - 1⟩ (depth - 1) bs := by
  have hpos : (1 : Depth) ≤ depth := by
    rw [UInt32.le_iff_toNat_le]
    exact Nat.one_le_iff_ne_zero.mpr fun h => hd (UInt32.toNat_inj.mp h)
  have hsub : (depth - 1).toNat = depth.toNat - 1 := UInt32.toNat_sub_of_le _ _ hpos
  refine ⟨?_, ?_, fun hne hzero => hne (UInt32.toNat_inj.mp ?_)⟩
  · rw [hsub, if_neg]
    rintro ⟨h, -⟩
    cases h
  · rintro ⟨h, -⟩
    cases h
  · rw [hsub]
    exact hzero

/-- Without a depth the scan is not ahead. -/
theorem InStep.depth_eq_zero (h : counter.InStep 0 bs) : counter.depth = 0 := by
  have hdepth := h.depth_eq
  have hzero : (0 : Depth).toNat = 0 := rfl
  split at hdepth <;> omega

end InStep

/-- **The scan of a comment stops where the counter does**, and at its depth. -/
theorem stops_commentFrom (n : Nat) (depth : Depth) (bs : List Byte) {counter : PairCounter}
    (h : counter.InStep depth bs) :
    ∃ m, (commentFrom n depth bs).1 = n + m ∧
      counter.Stops bs m (commentFrom n depth bs).2.toNat := by
  induction n, depth, bs using comment_induction generalizing counter with
  | nil n depth =>
    have hdepth := h.depth_eq
    rw [if_neg (by rintro ⟨-, h⟩; cases h)] at hdepth
    refine ⟨0, rfl, ?_⟩
    show counter.Stops [] 0 depth.toNat
    rw [hdepth]
    exact stops_here (Or.inr rfl)
  | closed n bs =>
    have hzero := h.depth_eq_zero
    rw [commentFrom_zero]
    refine ⟨0, rfl, ?_⟩
    have hstops : counter.Stops bs 0 counter.depth := stops_here (Or.inl hzero)
    rwa [hzero] at hstops
  | opening n depth bs hd ih =>
    -- The scan counts the pair at its parenthesis, and the counter at its star.
    have hnext : InStep ⟨some openParen, depth.toNat⟩ depth.deeper (star :: bs) :=
      inStep_behind (fun _ => rfl) (fun hno => absurd ⟨rfl, rfl⟩ hno) (by rintro ⟨h, -⟩; cases h) hd
    obtain ⟨m, hm, hstops⟩ := ih hnext
    rw [commentFrom_open _ hd]
    refine ⟨m + 1, by omega, Stops.cons ?_ (h.ne_zero hd)⟩
    rwa [h.read_eq]
  | closing n depth bs hd ih =>
    obtain ⟨m, hm, hstops⟩ := ih (inStep_closed hd bs)
    rw [commentFrom_close _ hd]
    refine ⟨m + 2, by omega, Stops.cons ?_ (h.ne_zero hd)⟩
    rw [h.read_eq]
    exact Stops.cons hstops fun hzero => hd (UInt32.toNat_inj.mp hzero)
  | other n depth b bs hd ho hc ih =>
    obtain ⟨m, hm, hstops⟩ := ih (inStep_behind (fun hyes => absurd hyes ho) (fun _ => rfl) hc hd)
    rw [commentFrom_other _ hd ho hc]
    refine ⟨m + 1, by omega, Stops.cons ?_ (h.ne_zero hd)⟩
    rwa [h.read_eq]

end PairCounter

/-! ## The scanner -/

open PairCounter

/-- **Comments are counted by pairs.**  The scanner goes through a comment from any place
of its line and at any depth.  Behind the first byte at which a counter of pairs comes to
zero it stops, and code follows; if the counter never does, the comment goes on behind
the end of the line.  The depth is that of the counter.  What a line has beyond the
largest position is not in the buffer. -/
theorem comment_counts_pairs (line : String) (p : Nat)
    (within : p ≤ ((bytes line).take LineBuffer.maxLength).length) (scanner : LineScanner)
    (begun : scanner.cursor.pos ≤ p) (depth : Depth) (atLineStart : Bool) :
    ∃ (n : Nat) (last : Depth),
      (start depth.toNat).Stops (((bytes line).take LineBuffer.maxLength).drop p) n last.toNat ∧
      scanner.comment ⟨LineBuffer.ofLine line, p⟩ ⟨.comment, depth, atLineStart⟩ =
        .ok (⟨.comment, p + n - scanner.cursor.pos⟩, ⟨⟨LineBuffer.ofLine line, p + n⟩,
          ⟨if last = 0 then .base else .comment, last, atLineStart⟩⟩) := by
  have hat := (before_take line).behind within
  obtain ⟨n, hn, hstops⟩ := stops_commentFrom 0 depth
    (((bytes line).take LineBuffer.maxLength).drop p) (inStep_start depth _)
  rw [Nat.zero_add] at hn
  refine ⟨n, _, hstops, ?_⟩
  have hcursor : (⟨LineBuffer.ofLine line, p⟩ : Cursor)
      = (⟨LineBuffer.ofLine line, 0⟩ : Cursor).behind p := by
    rw [Cursor.behind, Nat.zero_add]
  unfold LineScanner.comment
  rw [hcursor, hat.skipComment, ok_bind, hn, ← hcursor]
  exact if_pos (Nat.le_add_right_of_le begun)

/-- A star that ends an opening pair and begins a closing one, behind a parenthesis that
opens nothing; and a comment that stays open at the largest depth. -/
theorem comment_counts_pairs_overlap :
    (2 ≤ ((bytes "(*((*)*)x").take LineBuffer.maxLength).length ∧
      (start 1).Stops (((bytes "(*((*)*)x").take LineBuffer.maxLength).drop 2) 6 0 ∧
      LineScanner.comment ⟨⟨LineBuffer.ofLine "(*((*)*)x", 0⟩, .start⟩
          ⟨LineBuffer.ofLine "(*((*)*)x", 2⟩ ⟨.comment, 1, true⟩
        = .ok (⟨.comment, 8⟩, ⟨⟨LineBuffer.ofLine "(*((*)*)x", 8⟩, ⟨.base, 0, true⟩⟩)) ∧
      (start 4294967295).Stops (((bytes "λ(*").take LineBuffer.maxLength).drop 1) 3 4294967295 := by
  have hclosed : LineScanner.comment ⟨⟨LineBuffer.ofLine "(*((*)*)x", 0⟩, .start⟩
      ⟨LineBuffer.ofLine "(*((*)*)x", 2⟩ ⟨.comment, 1, true⟩
        = .ok (⟨.comment, 8⟩, ⟨⟨LineBuffer.ofLine "(*((*)*)x", 8⟩, ⟨.base, 0, true⟩⟩) := by
    decide +kernel
  have hopen : LineScanner.comment ⟨⟨LineBuffer.ofLine "λ(*", 1⟩, .start⟩
      ⟨LineBuffer.ofLine "λ(*", 1⟩ ⟨.comment, Depth.limit, true⟩
        = .ok (⟨.comment, 3⟩, ⟨⟨LineBuffer.ofLine "λ(*", 4⟩,
          ⟨.comment, Depth.limit, true⟩⟩) := by
    decide +kernel
  have within : 2 ≤ ((bytes "(*((*)*)x").take LineBuffer.maxLength).length := by decide
  obtain ⟨n, last, hstops, heq⟩ :=
    comment_counts_pairs "(*((*)*)x" 2 within ⟨⟨LineBuffer.ofLine "(*((*)*)x", 0⟩, .start⟩
      (by decide) 1 true
  obtain ⟨m, deep, hstays, heq'⟩ :=
    comment_counts_pairs "λ(*" 1 (by decide) ⟨⟨LineBuffer.ofLine "λ(*", 1⟩, .start⟩
      (by decide) Depth.limit true
  rw [hclosed] at heq
  rw [hopen] at heq'
  simp only [Except.ok.injEq, Prod.mk.injEq, LineScanner.mk.injEq, Cursor.mk.injEq,
    ScanState.mk.injEq, true_and] at heq heq'
  obtain ⟨-, hn, -, rfl, -⟩ := heq
  obtain ⟨-, hm, -, rfl, -⟩ := heq'
  obtain rfl : n = 6 := by omega
  obtain rfl : m = 3 := by omega
  exact ⟨⟨within, hstops, hclosed⟩, hstays⟩

end OCamlHighlight
