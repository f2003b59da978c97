/-
# Joined spans

`Span.merge` goes through spans from left to right, and the last one that it has put out
grows as long as the next one goes on from it under the same label.  Whether a span is
joined depends on an end that may have moved before, and the spans may be empty, overlap or
run backwards.

* `isChain_merge` and `merge_eq_self`: no two neighbours are left that could be joined,
  and spans of which this is true stay as they are.
* `merge_append_merge` and `merge_merge_append`: parts of a list may be joined first.
* `Tiling` is a row of spans without gaps.  It stays one (`Tiling.merge`), no byte changes
  its label (`Tiling.labelAt_merge`), and it is cut where the label changes and nowhere
  else (`Tiling.cuts_merge`).
-/
import OCamlHighlight.Proofs.ByteTags

namespace OCamlHighlight.Span

/-! ## One span more -/

section Joins

variable {last span : Span} (spans : List Span)

theorem joins_iff : last.joins span = true ↔ last.label = span.label ∧ last.stop = span.start := by
  rw [joins, Bool.and_eq_true, beq_iff_eq, beq_iff_eq]

/-- A span that is joined moves the end of the last one. -/
theorem mergeFrom_of_joins (h : last.joins span = true) :
    mergeFrom last (span :: spans) = mergeFrom { last with stop := span.stop } spans := by
  rw [mergeFrom, if_pos h]

/-- A span that is not joined is the last one from then on. -/
theorem mergeFrom_of_not_joins (h : ¬ last.joins span = true) :
    mergeFrom last (span :: spans) = last :: mergeFrom span spans := by
  rw [mergeFrom, if_neg h]

/-- The first span of the result begins where the last one did, under its tag. -/
theorem exists_mergeFrom_eq (last : Span) :
    ∃ stop rest, mergeFrom last spans = { last with stop := stop } :: rest := by
  induction spans generalizing last with
  | nil => exact ⟨last.stop, [], rfl⟩
  | cons span spans ih =>
    by_cases h : last.joins span = true
    · rw [mergeFrom_of_joins spans h]
      exact ih { last with stop := span.stop }
    · rw [mergeFrom_of_not_joins spans h]
      exact ⟨last.stop, mergeFrom span spans, rfl⟩

end Joins

/-! ## A normal form -/

theorem isChain_mergeFrom (last : Span) (spans : List Span) :
    (mergeFrom last spans).IsChain fun span next => ¬ span.joins next = true := by
  induction spans generalizing last with
  | nil => exact List.isChain_singleton last
  | cons span spans ih =>
    by_cases h : last.joins span = true
    · rw [mergeFrom_of_joins spans h]
      exact ih _
    · rw [mergeFrom_of_not_joins spans h, List.isChain_cons]
      refine ⟨fun next hnext => ?_, ih span⟩
      -- What `span` has grown to begins where `span` does.
      obtain ⟨stop, rest, heq⟩ := exists_mergeFrom_eq spans span
      rw [heq, List.head?_cons] at hnext
      obtain rfl := Option.some.inj hnext
      exact h

/-- **No two neighbours can be joined.** -/
theorem isChain_merge (spans : List Span) :
    (merge spans).IsChain fun span next => ¬ span.joins next = true := by
  cases spans with
  | nil => exact List.isChain_nil
  | cons span spans => exact isChain_mergeFrom span spans

theorem mergeFrom_eq_cons {last : Span} {spans : List Span}
    (h : (last :: spans).IsChain fun span next => ¬ span.joins next = true) :
    mergeFrom last spans = last :: spans := by
  induction spans generalizing last with
  | nil => rfl
  | cons span spans ih =>
    obtain ⟨hfirst, hrest⟩ := List.isChain_cons_cons.mp h
    rw [mergeFrom_of_not_joins spans hfirst, ih hrest]

/-- Where no two neighbours can be joined nothing changes. -/
theorem merge_eq_self {spans : List Span}
    (h : spans.IsChain fun span next => ¬ span.joins next = true) : merge spans = spans := by
  cases spans with
  | nil => rfl
  | cons span spans => exact mergeFrom_eq_cons h

/-- Joining a second time changes nothing. -/
theorem merge_merge (spans : List Span) : merge (merge spans) = merge spans :=
  merge_eq_self (isChain_merge spans)

/-! ## Parts of a list -/

theorem merge_mergeFrom_append (last : Span) (front back : List Span) :
    merge (mergeFrom last front ++ back) = mergeFrom last (front ++ back) := by
  induction front generalizing last with
  | nil => rfl
  | cons span front ih =>
    rw [List.cons_append]
    by_cases h : last.joins span = true
    · rw [mergeFrom_of_joins front h, mergeFrom_of_joins (front ++ back) h, ih]
    · have hih := ih span
      obtain ⟨stop, rest, heq⟩ := exists_mergeFrom_eq front span
      have hnot : ¬ last.joins { span with stop := stop } = true := h
      rw [heq, List.cons_append, merge_cons] at hih
      rw [mergeFrom_of_not_joins front h, mergeFrom_of_not_joins (front ++ back) h, ← hih, heq,
        List.cons_append, List.cons_append, merge_cons, mergeFrom_of_not_joins _ hnot]

/-- **What is in front may be joined first.** -/
theorem merge_merge_append (front back : List Span) :
    merge (merge front ++ back) = merge (front ++ back) := by
  cases front with
  | nil => rfl
  | cons span front => exact merge_mergeFrom_append span front back

/-- A span comes to the same in front of spans and in front of what they are joined to. -/
theorem mergeFrom_mergeFrom (last span : Span) (spans : List Span) :
    mergeFrom last (mergeFrom span spans) = mergeFrom last (span :: spans) := by
  induction spans generalizing last span with
  | nil => rfl
  | cons next spans ih =>
    by_cases hnext : span.joins next = true
    · rw [mergeFrom_of_joins spans hnext, ih]
      -- `span` has grown, but it begins where it did, so `last` meets it as before.
      by_cases h : last.joins span = true
      · have hgrown : last.joins { span with stop := next.stop } = true := h
        have hlater : Span.joins { last with stop := span.stop } next = true := by
          obtain ⟨hlabel, -⟩ := joins_iff.mp h
          obtain ⟨hlabel', hstop⟩ := joins_iff.mp hnext
          exact joins_iff.mpr ⟨hlabel.trans hlabel', hstop⟩
        rw [mergeFrom_of_joins _ hgrown, mergeFrom_of_joins _ h, mergeFrom_of_joins _ hlater]
      · have hgrown : ¬ last.joins { span with stop := next.stop } = true := h
        rw [mergeFrom_of_not_joins _ hgrown, mergeFrom_of_not_joins _ h,
          mergeFrom_of_joins _ hnext]
    · rw [mergeFrom_of_not_joins spans hnext]
      by_cases h : last.joins span = true
      · rw [mergeFrom_of_joins _ h, mergeFrom_of_joins _ h, ih]
      · rw [mergeFrom_of_not_joins _ h, mergeFrom_of_not_joins _ h, ih]

theorem mergeFrom_append_merge (last : Span) (front back : List Span) :
    mergeFrom last (front ++ merge back) = mergeFrom last (front ++ back) := by
  induction front generalizing last with
  | nil =>
    cases back with
    | nil => rfl
    | cons span back => exact mergeFrom_mergeFrom last span back
  | cons span front ih =>
    rw [List.cons_append, List.cons_append]
    by_cases h : last.joins span = true
    · rw [mergeFrom_of_joins _ h, mergeFrom_of_joins _ h, ih]
    · rw [mergeFrom_of_not_joins _ h, mergeFrom_of_not_joins _ h, ih]

/-- **What is behind may be joined first.** -/
theorem merge_append_merge (front back : List Span) :
    merge (front ++ merge back) = merge (front ++ back) := by
  cases front with
  | nil => exact merge_merge back
  | cons span front => exact mergeFrom_append_merge span front back

/-! ## Rows of spans -/

/-- The spans follow one another without gaps from `start` to `stop`, and none of them is
empty. -/
inductive Tiling : Nat → Nat → List Span → Prop
  | nil (place : Nat) : Tiling place place []
  | cons {start stop : Nat} {span : Span} {spans : List Span} (begins : span.start = start)
    (filled : start < span.stop) (rest : Tiling span.stop stop spans) :
    Tiling start stop (span :: spans)

/-- The label of a byte, if a span covers it. -/
def labelAt (spans : List Span) (offset : Nat) : Option (Option String) :=
  (tagAt spans offset).map Tag.label

/-- The places at which one span ends and the next one begins. -/
def cuts (spans : List Span) : List Nat := spans.tail.map Span.start

section Labels

variable {span : Span} {spans : List Span} {offset : Nat}

theorem labelAt_of_mem (h : span.start ≤ offset ∧ offset < span.stop) :
    labelAt (span :: spans) offset = some span.label := by
  unfold labelAt tagAt
  rw [List.find?_cons_of_pos (by simpa using h)]
  rfl

theorem labelAt_of_not_mem (h : ¬ (span.start ≤ offset ∧ offset < span.stop)) :
    labelAt (span :: spans) offset = labelAt spans offset := by
  unfold labelAt tagAt
  rw [List.find?_cons_of_neg (by simpa using h)]

/-- A span that has been joined covers the bytes of both under their label. -/
theorem labelAt_joined {last : Span} (h : last.joins span = true) (hlast : last.start < last.stop)
    (hspan : span.start < span.stop) :
    labelAt ({ last with stop := span.stop } :: spans) offset
      = labelAt (last :: span :: spans) offset := by
  obtain ⟨hlabel, hstop⟩ := joins_iff.mp h
  by_cases hin : last.start ≤ offset ∧ offset < last.stop
  · rw [labelAt_of_mem hin]
    exact labelAt_of_mem ⟨hin.1, by show offset < span.stop; omega⟩
  · rw [labelAt_of_not_mem hin]
    by_cases hin' : span.start ≤ offset ∧ offset < span.stop
    · rw [labelAt_of_mem hin', ← hlabel]
      exact labelAt_of_mem ⟨by show last.start ≤ offset; omega, hin'.2⟩
    · rw [labelAt_of_not_mem hin']
      refine labelAt_of_not_mem ?_
      show ¬ (last.start ≤ offset ∧ offset < span.stop)
      omega

end Labels

namespace Tiling

variable {start stop : Nat} {last span : Span} {spans : List Span}

/-- The first two spans of a row touch. -/
theorem cons_cons (h : Tiling start stop (last :: span :: spans)) :
    last.start = start ∧ start < last.stop ∧ span.start = last.stop ∧ last.stop < span.stop ∧
      Tiling span.stop stop spans := by
  cases h with
  | cons begins filled rest =>
    cases rest with
    | cons begins' filled' rest => exact ⟨begins, filled, begins', filled', rest⟩

/-- The first two spans can be joined to one. -/
theorem joined (h : Tiling start stop (last :: span :: spans)) :
    Tiling start stop ({ last with stop := span.stop } :: spans) := by
  obtain ⟨begins, filled, -, filled', rest⟩ := h.cons_cons
  exact .cons begins (filled.trans filled') rest

/-- Neighbours touch, so that they are joined if they have one label. -/
theorem joins_iff_label (h : Tiling start stop (last :: span :: spans)) :
    last.joins span = true ↔ last.label = span.label := by
  obtain ⟨-, -, begins', -, -⟩ := h.cons_cons
  rw [joins_iff]
  exact and_iff_left begins'.symm

/-- No span begins in front of the row. -/
theorem start_le (h : Tiling start stop spans) : ∀ span ∈ spans, start ≤ span.start := by
  induction h with
  | nil place => exact fun span hmem => by cases hmem
  | cons begins filled rest ih =>
    refine List.forall_mem_cons.mpr ⟨begins.ge, fun span hmem => ?_⟩
    exact filled.le.trans (ih span hmem)

theorem mergeFrom (h : Tiling start stop (last :: spans)) :
    Tiling start stop (Span.mergeFrom last spans) := by
  induction spans generalizing start last with
  | nil => exact h
  | cons span spans ih =>
    by_cases hjoins : last.joins span = true
    · rw [mergeFrom_of_joins spans hjoins]
      exact ih h.joined
    · rw [mergeFrom_of_not_joins spans hjoins]
      cases h with
      | cons begins filled rest => exact .cons begins filled (ih rest)

/-- **A row stays a row** over the same range. -/
theorem merge (h : Tiling start stop spans) : Tiling start stop (Span.merge spans) := by
  cases spans with
  | nil => exact h
  | cons span spans => exact h.mergeFrom

theorem labelAt_mergeFrom (h : Tiling start stop (last :: spans)) (offset : Nat) :
    labelAt (Span.mergeFrom last spans) offset = labelAt (last :: spans) offset := by
  induction spans generalizing start last with
  | nil => rfl
  | cons span spans ih =>
    obtain ⟨begins, filled, begins', filled', -⟩ := h.cons_cons
    by_cases hjoins : last.joins span = true
    · rw [mergeFrom_of_joins spans hjoins, ih h.joined,
        labelAt_joined hjoins (begins ▸ filled) (begins' ▸ filled')]
    · rw [mergeFrom_of_not_joins spans hjoins]
      cases h with
      | cons _ _ rest =>
        by_cases hin : last.start ≤ offset ∧ offset < last.stop
        · rw [labelAt_of_mem hin, labelAt_of_mem hin]
        · rw [labelAt_of_not_mem hin, labelAt_of_not_mem hin, ih rest]

/-- **No byte changes its label.** -/
theorem labelAt_merge (h : Tiling start stop spans) (offset : Nat) :
    labelAt (Span.merge spans) offset = labelAt spans offset := by
  cases spans with
  | nil => rfl
  | cons span spans => exact h.labelAt_mergeFrom offset

/-- The place between two spans, and whether the label changes there. -/
theorem labels_at_cut (h : Tiling start stop (last :: span :: spans)) :
    labelAt (last :: span :: spans) (span.start - 1) = some last.label ∧
      labelAt (last :: span :: spans) span.start = some span.label := by
  obtain ⟨begins, filled, begins', filled', -⟩ := h.cons_cons
  refine ⟨labelAt_of_mem (by omega), ?_⟩
  rw [labelAt_of_not_mem (by omega), labelAt_of_mem (by omega)]

/-- Behind the second span the first one does not matter. -/
theorem labels_behind (h : Tiling start stop (last :: span :: spans)) {place : Nat}
    (hplace : place ∈ cuts (span :: spans)) :
    labelAt (last :: span :: spans) (place - 1) = labelAt (span :: spans) (place - 1) ∧
      labelAt (last :: span :: spans) place = labelAt (span :: spans) place := by
  obtain ⟨begins, filled, begins', filled', rest⟩ := h.cons_cons
  obtain ⟨next, hmem, rfl⟩ := List.mem_map.mp hplace
  have hle := rest.start_le next hmem
  exact ⟨labelAt_of_not_mem (by omega), labelAt_of_not_mem (by omega)⟩

theorem cuts_mergeFrom (h : Tiling start stop (last :: spans)) :
    cuts (Span.mergeFrom last spans) = (cuts (last :: spans)).filter fun place =>
      labelAt (last :: spans) (place - 1) ≠ labelAt (last :: spans) place := by
  induction spans generalizing start last with
  | nil => rfl
  | cons span spans ih =>
    obtain ⟨begins, filled, begins', filled', -⟩ := h.cons_cons
    obtain ⟨hbefore, hat⟩ := h.labels_at_cut
    have hcuts : cuts (last :: span :: spans) = span.start :: cuts (span :: spans) := rfl
    rw [hcuts]
    by_cases hjoins : last.joins span = true
    · -- The label is the same on both sides of the first cut, and it goes.
      have hlabel := h.joins_iff_label.mp hjoins
      rw [mergeFrom_of_joins spans hjoins, ih h.joined,
        List.filter_cons_of_neg (by simp [hbefore, hat, hlabel])]
      simp only [labelAt_joined hjoins (begins ▸ filled) (begins' ▸ filled')]
      rfl
    · have hlabel := fun heq => hjoins (h.joins_iff_label.mpr heq)
      have hrest : Tiling last.stop stop (span :: spans) := by
        cases h with
        | cons _ _ rest => exact rest
      obtain ⟨stop', rest, heq⟩ := exists_mergeFrom_eq spans span
      have hmerged : cuts (last :: Span.mergeFrom span spans)
          = span.start :: cuts (Span.mergeFrom span spans) := by
        rw [heq]
        rfl
      rw [mergeFrom_of_not_joins spans hjoins, hmerged, ih hrest,
        List.filter_cons_of_pos (by simpa [hbefore, hat] using hlabel)]
      refine congrArg (span.start :: ·) (List.filter_congr fun place hplace => ?_)
      obtain ⟨hbehind, hbehind'⟩ := h.labels_behind hplace
      rw [hbehind, hbehind']

/-- **A row is cut where the label changes.** -/
theorem cuts_merge (h : Tiling start stop spans) :
    cuts (Span.merge spans) = (cuts spans).filter fun place =>
      labelAt spans (place - 1) ≠ labelAt spans place := by
  cases spans with
  | nil => rfl
  | cons span spans => exact h.cuts_mergeFrom

end Tiling

/-- **Joining is a normal form that can be made part by part.**  For any spans at all the
parts of a list may be joined first, joining twice is joining once, and no two neighbours
are left that have one label and touch.  Spans that tile a range tile it afterwards, every
byte keeps its label, and of the places where one span ended and the next one began just
those are left at which the label of the bytes changes. -/
theorem merge_normalizes :
    (∀ front back : List Span, merge (front ++ back) = merge (merge front ++ merge back)) ∧
    (∀ spans : List Span, merge (merge spans) = merge spans) ∧
    (∀ spans : List Span, (merge spans).IsChain fun span next =>
      ¬ (span.label = next.label ∧ span.stop = next.start)) ∧
    ∀ (start stop : Nat) (spans : List Span), Tiling start stop spans →
      Tiling start stop (merge spans) ∧
      (∀ offset, labelAt (merge spans) offset = labelAt spans offset) ∧
      cuts (merge spans) = (cuts spans).filter fun place =>
        labelAt spans (place - 1) ≠ labelAt spans place := by
  refine ⟨fun front back => ?_, merge_merge, fun spans => ?_, fun start stop spans h => ?_⟩
  · rw [merge_append_merge, merge_merge_append]
  · exact (isChain_merge spans).imp fun span next hnot h => hnot (joins_iff.mpr h)
  · exact ⟨h.merge, h.labelAt_merge, h.cuts_merge⟩

/-- Blanks and plain text have no label and are joined under the first tag; the two
constructors are apart. -/
theorem merge_normalizes_unstyled :
    Tiling 2 9 [⟨2, 3, .plain⟩, ⟨3, 5, .whitespace⟩, ⟨5, 6, .constructor⟩, ⟨6, 7, .plain⟩,
        ⟨7, 9, .constructor⟩] ∧
      cuts (merge [⟨2, 3, .plain⟩, ⟨3, 5, .whitespace⟩, ⟨5, 6, .constructor⟩, ⟨6, 7, .plain⟩,
        ⟨7, 9, .constructor⟩]) = [5, 6, 7] ∧
      Tiling 2 9 (merge [⟨2, 3, .plain⟩, ⟨3, 5, .whitespace⟩, ⟨5, 6, .constructor⟩,
        ⟨6, 7, .plain⟩, ⟨7, 9, .constructor⟩]) := by
  have htiling : Tiling 2 9 [⟨2, 3, .plain⟩, ⟨3, 5, .whitespace⟩, ⟨5, 6, .constructor⟩,
      ⟨6, 7, .plain⟩, ⟨7, 9, .constructor⟩] := by
    refine .cons rfl (by decide) (.cons rfl (by decide) (.cons rfl (by decide) ?_))
    exact .cons rfl (by decide) (.cons rfl (by decide) (.nil 9))
  obtain ⟨hmerged, -, hcuts⟩ := merge_normalizes.2.2.2 2 9 _ htiling
  refine ⟨htiling, ?_, hmerged⟩
  rw [hcuts]
  decide +kernel

end OCamlHighlight.Span
