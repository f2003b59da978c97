/-
# Pairs that balance

A comment stays open as long as more of its opening pairs than of its closing ones have
been read.  This file counts the pairs of some bytes as such, with no scan and no largest
depth (`nesting`), and compares the two.

* `depthAfter_eq_nesting`: a `PairCounter` is at the nesting of the bytes that it has read,
  as long as it has not come to zero and not to its limit.
* `stays_separated`: a counter goes through two runs of bytes with a separator between them
  as through one and then the other.
* `stays_iff` and `commentFrom_of_stays` read the scan of a comment off its counter, and
  `closes_iff` does so if a closing pair is added behind a blank.
* `balanced_iff`: pairs balance if a counter that starts at one never comes to zero and ends
  at one.
-/
import OCamlHighlight.Proofs.PairCounter

namespace OCamlHighlight

open Byte Extent

/-! ## Pairs in bytes -/

/-- How often one byte stands right in front of another one. -/
def pairCount (first second : Byte) (bs : List Byte) : Nat :=
  (bs.zip bs.tail).count (first, second)

@[simp] theorem pairCount_nil (first second : Byte) : pairCount first second [] = 0 := rfl

@[simp] theorem pairCount_singleton (first second b : Byte) : pairCount first second [b] = 0 := rfl

/-- One byte more in front is one pair more, if it makes up a pair with the next one. -/
theorem pairCount_cons_cons (first second b c : Byte) (bs : List Byte) :
    pairCount first second (b :: c :: bs)
      = pairCount first second (c :: bs) + if b = first ∧ c = second then 1 else 0 := by
  unfold pairCount
  rw [List.tail_cons, List.zip_cons_cons, List.count_cons, List.tail_cons]
  simp only [beq_iff_eq, Prod.mk.injEq]

/-- The number of comments that are open behind some bytes, if there are `depth` in front of
them: an opening pair adds one, and a closing pair takes one away. -/
def nesting (depth : Nat) (bs : List Byte) : Int :=
  depth + pairCount openParen star bs - pairCount star closeParen bs

/-- The pairs of some bytes balance: a comment around them is not closed within, and is the
only one that is open behind them. -/
structure Balanced (bs : List Byte) : Prop where
  stays : ∀ n ≤ bs.length, nesting 1 (bs.take n) ≠ 0
  ends : nesting 1 bs = 1

instance (bs : List Byte) : Decidable (Balanced bs) :=
  decidable_of_iff ((∀ n ≤ bs.length, nesting 1 (bs.take n) ≠ 0) ∧ nesting 1 bs = 1)
    ⟨fun h => ⟨h.1, h.2⟩, fun h => ⟨h.stays, h.ends⟩⟩

namespace PairCounter

variable {counter : PairCounter} {bs front back : List Byte}

/-! ## Counting and nesting -/

/-- A byte that a counter reads changes its depth as it changes the nesting. -/
theorem nesting_read (counter : PairCounter) (b : Byte) (bs : List Byte) (hlow : counter.depth ≠ 0)
    (hhigh : counter.depth < 4294967295) :
    nesting (counter.read b).depth (b :: bs)
      = nesting counter.depth (counter.previous.toList ++ b :: bs) := by
  obtain ⟨previous, depth⟩ := counter
  cases previous with
  | none => rfl
  | some p =>
    have hopen := pairCount_cons_cons openParen star p b bs
    have hclose := pairCount_cons_cons star closeParen p b bs
    dsimp only at hlow hhigh
    unfold nesting PairCounter.read
    rw [Option.toList_some, List.singleton_append, hopen, hclose]
    simp only [Option.some.injEq]
    by_cases hpair : p = openParen ∧ b = star
    · have hother : ¬ (p = star ∧ b = closeParen) := by
        rintro ⟨rfl, -⟩
        exact absurd hpair.1 (by decide)
      rw [if_pos hpair, if_pos hpair, if_neg hother]
      omega
    · rw [if_neg hpair, if_neg hpair]
      by_cases hpair' : p = star ∧ b = closeParen
      · rw [if_pos hpair', if_pos hpair']
        omega
      · rw [if_neg hpair', if_neg hpair', Nat.add_zero, Nat.add_zero]

/-- **A counter is at the nesting** of what it has read, if this was never zero before and
the counter has not come to its limit. -/
theorem depthAfter_eq_nesting (n : Nat)
    (hlow : ∀ m < n, nesting counter.depth (counter.previous.toList ++ bs.take m) ≠ 0)
    (hhigh : counter.depth + n ≤ 4294967295) :
    (counter.depthAfter bs n : Int)
      = nesting counter.depth (counter.previous.toList ++ bs.take n) := by
  have hnone : ∀ counter : PairCounter,
      nesting counter.depth counter.previous.toList = counter.depth := by
    intro counter
    obtain ⟨previous, depth⟩ := counter
    cases previous <;> simp [nesting]
  induction bs generalizing counter n with
  | nil =>
    rw [List.take_nil, List.append_nil, hnone]
    unfold depthAfter
    rw [List.take_nil, List.foldl_nil]
  | cons b bs ih =>
    cases n with
    | zero => rw [List.take_zero, List.append_nil, hnone, depthAfter_zero]
    | succ n =>
      have hzero := hlow 0 (Nat.succ_pos n)
      rw [List.take_zero, List.append_nil, hnone] at hzero
      have hread := fun bs => nesting_read counter b bs (by omega) (by omega)
      have hdepth : (counter.read b).depth ≤ counter.depth + 1 := by
        unfold PairCounter.read
        dsimp only
        split
        · omega
        · split <;> omega
      rw [depthAfter_cons_succ, List.take_succ_cons, ← hread]
      refine ih n (fun m hm => ?_) (by omega)
      have hnext := hlow (m + 1) (by omega)
      rw [List.take_succ_cons, ← hread] at hnext
      exact hnext

/-! ## Runs of bytes -/

/-- The counter is not zero in front of the bytes, between them or behind them. -/
def Stays (counter : PairCounter) (bs : List Byte) : Prop :=
  ∀ n ≤ bs.length, counter.depthAfter bs n ≠ 0

/-- A byte that belongs to no delimiter. -/
def Separates (b : Byte) : Prop := b ≠ openParen ∧ b ≠ star ∧ b ≠ closeParen

instance (b : Byte) : Decidable (Separates b) := inferInstanceAs (Decidable (_ ∧ _))

/-- Within the first bytes the counter knows nothing of the others. -/
theorem depthAfter_front {n : Nat} (hn : n ≤ front.length) :
    counter.depthAfter (front ++ back) n = counter.depthAfter front n := by
  unfold depthAfter
  rw [List.take_append_of_le_length hn]

/-- Behind a separator the counter goes on like a new one. -/
theorem depthAfter_behind {sep : Byte} (hsep : Separates sep) (n : Nat) :
    counter.depthAfter (front ++ sep :: back) (front.length + 1 + n)
      = (start (counter.depthAfter front front.length)).depthAfter back n := by
  have htake : (front ++ sep :: back).take (front.length + 1 + n)
      = front ++ sep :: back.take n := by
    rw [List.take_append, List.take_of_length_le (by omega), Nat.add_assoc,
      Nat.add_sub_cancel_left, Nat.add_comm 1 n, List.take_succ_cons]
  have hread : ∀ counter : PairCounter, counter.read sep = ⟨some sep, counter.depth⟩ := by
    intro counter
    unfold PairCounter.read
    rw [if_neg fun h => hsep.2.1 h.2, if_neg fun h => hsep.2.2 h.2]
  unfold depthAfter
  rw [htake, List.take_length, List.foldl_append, List.foldl_cons, hread]
  -- The first byte behind the separator makes up no pair with it.
  cases hback : back.take n with
  | nil => rfl
  | cons b bs =>
    rw [List.foldl_cons, List.foldl_cons]
    unfold PairCounter.read start
    dsimp only
    rw [if_neg fun h => hsep.1 (Option.some.inj h.1),
      if_neg fun h => hsep.2.1 (Option.some.inj h.1), if_neg (by rintro ⟨h, -⟩; cases h),
      if_neg (by rintro ⟨h, -⟩; cases h)]

/-- **A counter over a separator** stays open if it does so in front of it, and a new one
from there on behind it. -/
theorem stays_separated {sep : Byte} (hsep : Separates sep) :
    counter.Stays (front ++ sep :: back) ↔
      counter.Stays front ∧ (start (counter.depthAfter front front.length)).Stays back := by
  have hlength : (front ++ sep :: back).length = front.length + 1 + back.length := by
    rw [List.length_append, List.length_cons]
    omega
  constructor
  · intro h
    refine ⟨fun n hn => ?_, fun n hn => ?_⟩
    · rw [← depthAfter_front hn]
      exact h n (by omega)
    · rw [← depthAfter_behind hsep]
      exact h _ (by omega)
  · rintro ⟨hfront, hback⟩ n hn
    rcases Nat.lt_or_ge front.length n with hlt | hle
    · obtain ⟨m, rfl⟩ := Nat.exists_eq_add_of_le hlt
      rw [depthAfter_behind hsep]
      exact hback m (by omega)
    · rw [depthAfter_front hle]
      exact hfront n hle

/-- The depth behind both runs of bytes. -/
theorem depthAfter_separated {sep : Byte} (hsep : Separates sep) :
    counter.depthAfter (front ++ sep :: back) (front ++ sep :: back).length
      = (start (counter.depthAfter front front.length)).depthAfter back back.length := by
  rw [← depthAfter_behind hsep, List.length_append, List.length_cons]
  congr 1
  omega

/-! ## The scan of a comment -/

section Scan

variable {depth : Depth}

/-- The scan of a comment comes to the end of the bytes with the comment open, and to the
depth of the counter there. -/
theorem commentFrom_of_stays (h : (start depth.toNat).Stays bs) :
    (commentFrom 0 depth bs).1 = bs.length ∧ (commentFrom 0 depth bs).2 ≠ 0 ∧
      (commentFrom 0 depth bs).2.toNat = (start depth.toNat).depthAfter bs bs.length := by
  obtain ⟨n, hn, hstops⟩ := stops_commentFrom 0 depth bs (inStep_start depth bs)
  have hne := h n hstops.le_length
  rw [hstops.depthAfter_eq] at hne
  have hall : n = bs.length := hstops.stops.resolve_left hne
  subst hall
  exact ⟨by omega, fun hzero => hne (by rw [hzero]; rfl), hstops.depthAfter_eq.symm⟩

/-- A comment stays open just if its counter never comes to zero. -/
theorem stays_iff : (start depth.toNat).Stays bs ↔ (commentFrom 0 depth bs).2 ≠ 0 := by
  refine ⟨fun h => (commentFrom_of_stays h).2.1, fun hopen => ?_⟩
  obtain ⟨n, -, hstops⟩ := stops_commentFrom 0 depth bs (inStep_start depth bs)
  have hne : (commentFrom 0 depth bs).2.toNat ≠ 0 := fun hzero => hopen (UInt32.toNat_inj.mp hzero)
  have hall : n = bs.length := hstops.stops.resolve_left hne
  intro m hm
  rcases Nat.lt_or_eq_of_le hm with hlt | rfl
  · exact hstops.ne_zero m (hall ▸ hlt)
  · rw [← hall, hstops.depthAfter_eq]
    exact hne

/-- **A closing pair behind a blank.**  The scan comes to the end of the bytes and closes the
comment there just if the counter never comes to zero in front of the blank, and is at one
there. -/
theorem closes_iff {b : Byte} (hb : isBlank b = true) :
    ((commentFrom 0 depth (bs ++ [b, star, closeParen])).1 = (bs ++ [b, star, closeParen]).length ∧
        (commentFrom 0 depth (bs ++ [b, star, closeParen])).2 = 0) ↔
      (start depth.toNat).Stays bs ∧ (start depth.toNat).depthAfter bs bs.length = 1 := by
  rw [commentFrom_append 0 depth bs ⟨b, _, rfl, hb⟩]
  by_cases hopen : (commentFrom 0 depth bs).2 = 0
  · -- The comment is closed too early, and the scan stops there.
    obtain ⟨n, hn, hstops⟩ := stops_commentFrom 0 depth bs (inStep_start depth bs)
    have hle := hstops.le_length
    rw [stays_iff, hopen, commentFrom_zero, List.length_append]
    refine iff_of_false (fun h => ?_) (fun h => h.1 rfl)
    have hshort : [b, star, closeParen].length = 3 := rfl
    omega
  · obtain ⟨hall, -, hdepth⟩ := commentFrom_of_stays (stays_iff.mpr hopen)
    have hclose : commentFrom (commentFrom 0 depth bs).1 (commentFrom 0 depth bs).2
        [b, star, closeParen] = (bs.length + 3, (commentFrom 0 depth bs).2 - 1) := by
      rw [hall, commentFrom_other _ hopen (fun h => ne_of_isBlank hb rfl h.1)
        (fun h => ne_of_isBlank hb rfl h.1), commentFrom_close _ hopen]
      rfl
    have hone : (commentFrom 0 depth bs).2 - 1 = 0 ↔ (commentFrom 0 depth bs).2.toNat = 1 := by
      rw [sub_eq_zero, ← UInt32.toNat_inj]
      rfl
    rw [hclose, stays_iff, ← hdepth, List.length_append]
    exact ⟨fun h => ⟨hopen, hone.mp h.2⟩, fun h => ⟨rfl, hone.mpr h.2⟩⟩

end Scan

/-! ## Bytes in a comment -/

/-- **Pairs balance** in bytes that fit into a buffer if a counter at depth one goes over
them without coming to zero, and ends where it has begun. -/
theorem balanced_iff (short : bs.length < 4294967295) :
    Balanced bs ↔ (start 1).Stays bs ∧ (start 1).depthAfter bs bs.length = 1 := by
  have hnesting : ∀ n ≤ bs.length, (∀ m < n, nesting 1 (bs.take m) ≠ 0) →
      ((start 1).depthAfter bs n : Int) = nesting 1 (bs.take n) := by
    intro n hn hlow
    exact depthAfter_eq_nesting n hlow (show 1 + n ≤ 4294967295 by omega)
  constructor
  · intro h
    have hdepth : ∀ n ≤ bs.length, ((start 1).depthAfter bs n : Int) = nesting 1 (bs.take n) :=
      fun n hn => hnesting n hn fun m hm => h.stays m (by omega)
    have hlast := hdepth bs.length (Nat.le_refl _)
    rw [List.take_length, h.ends] at hlast
    refine ⟨fun n hn hzero => h.stays n hn ?_, by omega⟩
    rw [← hdepth n hn, hzero]
    rfl
  · rintro ⟨hstays, hends⟩
    have hopen : ∀ n ≤ bs.length, nesting 1 (bs.take n) ≠ 0 := by
      intro n
      induction n using Nat.strongRecOn with
      | ind n ih =>
        intro hn
        rw [← hnesting n hn fun m hm => ih m hm (by omega)]
        exact Int.natCast_ne_zero.mpr (hstays n hn)
    have hlast := hnesting bs.length (Nat.le_refl _) fun m hm => hopen m hm.le
    rw [List.take_length, hends] at hlast
    exact ⟨hopen, hlast.symm⟩

end PairCounter

end OCamlHighlight
