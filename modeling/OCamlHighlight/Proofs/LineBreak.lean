/-
# A line break is a blank

Scanning two lines one after the other comes to the same as scanning one line in
which a blank stands for the line break.  Each scan starts a line without knowing
whether the line before ended in a backslash, in a pipe, or in one half of a
comment delimiter; nothing is lost by that, since a blank stands in their way as
well.

Main facts: `view_append`, and for lines `tokenizeLine_over_blanks`.
-/
import OCamlHighlight.Highlighter
import OCamlHighlight.Proofs.ByteTags
import OCamlHighlight.Proofs.CheckedScan
import OCamlHighlight.Proofs.LexemeCuts

namespace OCamlHighlight

open Byte Extent

/-- The view of the bytes behind some others, whose view is known. -/
def follow (v : View) (back : List Byte) : View := prepend v.1 (view v.2 back)

theorem follow_prepend (front : List (Option Tag)) (v : View) (back : List Byte) :
    follow (prepend front v) back = prepend front (follow v back) := prepend_append front v.1 _

/-! ## A literal over a blank -/

/-- The view of a literal with the given end, and of what is behind it. -/
def viewLiteral (tag : Tag) (result : Nat × ScanState) (bs : List Byte) : View :=
  prepend (cover tag (bs.take result.1)) (view result.2 (bs.drop result.1))

/-- In a literal the view begins with what is left of it, also where blanks are
tokens of their own. -/
theorem view_of_inLiteral {state : ScanState} (h : state.InLiteral) (bs : List Byte) :
    view state bs = viewLiteral state.mode.bodyTag (bodyFrom 0 state bs) bs := by
  unfold viewLiteral
  induction bs with
  | nil =>
    rw [bodyFrom_nil 0 h]
    rfl
  | cons b bs ih =>
    by_cases hb : isBlank b = true
    · have hadd := @bodyFrom_add state 1 bs 0
      rw [Nat.add_zero] at hadd
      rw [view_blank state hb, ih, bodyFrom_blank 0 bs h hb, Nat.zero_add, hadd, Nat.add_comm 1,
        List.take_succ_cons, List.drop_succ_cons, cover_blank _ hb, prepend_append]
    · have hstep := step?_cons state b bs
      have hat : literalAt state b bs = some (0, state) := if_neg h.1
      rw [if_neg hb, hat] at hstep
      exact view_of_step? hstep

/-- A literal that is still open behind `front` goes on in `back`. -/
theorem viewLiteral_append_open {inside next : ScanState} {front : List Byte}
    (hnext : next.InLiteral) (hmode : next.mode = inside.mode) (back : List Byte) :
    viewLiteral inside.mode.bodyTag (bodyFrom front.length next back) (front ++ back)
      = follow (viewLiteral inside.mode.bodyTag (front.length, next) front) back := by
  have hadd := @bodyFrom_add next front.length back 0
  rw [Nat.add_zero] at hadd
  unfold viewLiteral
  rw [follow_prepend, hadd, List.take_length_add_append, List.drop_length_add_append,
    List.take_length, List.drop_length, view_nil, cover_append, prepend_append]
  show _ = prepend _ (prepend [] (view next back))
  rw [view_of_inLiteral hnext, hmode]
  rfl

/-- **A literal over a blank.**  What is in front is scanned as before, and what is
behind in the state that the front leaves. -/
theorem viewLiteral_append {inside : ScanState} {opening : Nat} {front back : List Byte}
    (hback : StartsBlank back) (ho : opening ≤ front.length) {result : Nat × ScanState}
    (hresult : bodyFrom opening inside (front.drop opening) = result)
    (ih : view result.2 (front.drop result.1 ++ back)
      = follow (view result.2 (front.drop result.1)) back) :
    viewLiteral inside.mode.bodyTag
        (bodyFrom opening inside ((front ++ back).drop opening)) (front ++ back)
      = follow (viewLiteral inside.mode.bodyTag result front) back := by
  obtain ⟨m, hlen, hends, hzero, hopen⟩ := @endsClean_bodyFrom inside opening (front.drop opening)
  have hstate := @base_or_inLiteral_bodyFrom inside opening (front.drop opening)
  have hmode := @mode_bodyFrom inside opening (front.drop opening)
  rw [hresult] at hlen hopen hstate hmode
  rw [List.drop_append_of_le_length ho, bodyFrom_append opening inside _ hback, hresult]
  obtain ⟨n, next⟩ := result
  rcases hstate with hbase | hin
  · -- The literal ends in `front`.
    have hm : m ≤ (front.drop opening).length := by
      by_cases hinside : inside.InLiteral
      · exact (hends hinside).le
      · rw [hzero hinside]
        exact Nat.zero_le _
    have hn : n ≤ front.length := by
      rw [List.length_drop] at hm
      omega
    unfold viewLiteral
    rw [bodyFrom_base _ _ hbase, follow_prepend, ← ih, List.take_append_of_le_length hn,
      List.drop_append_of_le_length hn]
  · -- The literal takes all of `front` and is open at its end.
    have hn : n = front.length := by
      have hm := hopen hin
      rw [List.length_drop] at hm
      omega
    rw [hn]
    exact viewLiteral_append_open hin (hmode hin.1) back

/-! ## Any bytes over a blank -/

/-- A run is in its class. -/
theorem Extent.forall_mem_take_run (p : Byte → Bool) (bs : List Byte) :
    ∀ x ∈ bs.take (run p bs), p x = true := by
  rw [take_run]
  exact fun x hx => List.mem_takeWhile_imp hx

/-- **A scan over a blank.**  The view of text with bytes behind it that begin with
a blank is the view of the text, and then that of those bytes in the state which
the text leaves. -/
theorem view_append {front back : List Byte} (ht : IsText front) (hback : StartsBlank back)
    (state : ScanState) : view state (front ++ back) = follow (view state front) back := by
  induction state, front, ht using scan_induction with
  | nil state =>
    rw [view_nil]
    rfl
  | cons state bs step ht hs ih =>
    cases bs with
    | nil => cases hs
    | cons b rest =>
      have hnext : step? state (b :: rest ++ back) = _ := step?_cons state b (rest ++ back)
      rw [literalAt_append hback, Rule.select_append hback] at hnext
      have hview := view_of_step? hs
      cases shape_of_step? hs with
      | blanks hb =>
        -- The run of blanks may go on in `back`, so it is taken off both sides by bytes.
        have hw := forall_mem_take_run isBlank (b :: rest)
        have hsplit := List.take_append_drop (run isBlank (b :: rest)) (b :: rest)
        have hfront := view_blanks state hw ((b :: rest).drop (run isBlank (b :: rest)))
        rw [hsplit] at hfront
        have ih : view state ((b :: rest).drop (run isBlank (b :: rest)) ++ back) = _ := ih
        rw [hfront, follow_prepend]
        refine Eq.trans ?_ (congrArg (prepend _) ih)
        rw [← view_blanks state hw, ← List.append_assoc, hsplit]
      | literal opening inside hb hat =>
        have ho : opening ≤ (b :: rest).length := by
          rcases literalAt_eq_some hat with ⟨-, rfl, -⟩ | ⟨-, -, hends⟩
          · exact Nat.zero_le _
          · exact hends.le
        rw [hb, hat, if_neg Bool.false_ne_true] at hnext
        rw [hview]
        exact (view_of_step? hnext).trans (viewLiteral_append hback ho rfl ih)
      | lexeme hb hat =>
        rw [hb, hat, if_neg Bool.false_ne_true] at hnext
        dsimp only at hnext
        have hcut := (isCut_step? ht hs).1
        obtain ⟨htoken, hstate⟩ := lexeme_append hback state b rest
        rw [view_of_step? hnext, hview, follow_prepend, ← ih, rest_of_step? hnext, htoken, hstate,
          rest_of_step? hs, List.take_append_of_le_length hcut, List.drop_append_of_le_length hcut]

end OCamlHighlight
