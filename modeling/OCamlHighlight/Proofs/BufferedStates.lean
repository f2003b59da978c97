/-
# Line states that are scanned through a buffer

A scan through a buffer may end in a fault.  Where it has a result, it does to the states
what every scan does, and every line that it has passed leaves a state behind.  Where it
has none, the scan of the whole document has none either: it comes to the same line in the
same state and ends in the same fault.

* `rescanned_bufferedRescan` and `state_of_bufferedRescan` are the two cases of a scan.
* `tracks_bufferedOfLines` and `Tracks.bufferedOfLines_eq`: the states of a document are just
  those that track it.
* `Tracks.bufferedRescan_eq`: a scan that passes all pending lines comes to the states of the
  whole document, or to the fault in which these end.
-/
import OCamlHighlight.Proofs.CachedStates
import OCamlHighlight.Proofs.DriverAgreement

namespace OCamlHighlight

/-- The scan of the line through a buffer has a result, and it is the second state. -/
def LineStep.buffered : LineStep := fun state line next =>
  ∃ tokens, tokenizeLine state line = .ok (tokens, next)

theorem LineStep.unique_buffered : LineStep.Unique LineStep.buffered := by
  rintro state line next next' ⟨tokens, h⟩ ⟨tokens', h'⟩
  rw [h] at h'
  cases h'
  rfl

/-! ## The state behind lines -/

namespace BufferedHighlighter.Passage

/-- The first line is scanned first. -/
theorem state_cons (start : ScanState) (line : String) (lines : List String) :
    Passage.state ⟨start, line :: lines⟩ = (do
      let (_, next) ← tokenizeLine start line
      Passage.state ⟨next, lines⟩) := by
  unfold Passage.state
  rw [List.foldlM_cons]
  cases tokenizeLine start line with
  | error fault => rfl
  | ok scan => rfl

/-- Lines behind others are entered in the state that these lead to. -/
theorem state_append (start : ScanState) (lines more : List String) :
    Passage.state ⟨start, lines ++ more⟩ = (do
      let state ← Passage.state ⟨start, lines⟩
      Passage.state ⟨state, more⟩) := List.foldlM_append

/-- Lines that fit lead to their state. -/
theorem state_of_fits {state : ScanState} {lines : List String}
    (fits : ∀ line ∈ lines, line.utf8ByteSize < 2 ^ 32) :
    Passage.state ⟨state, lines⟩ = .ok (state.afterAll lines) := by
  induction lines generalizing state with
  | nil => rfl
  | cons line lines ih =>
    obtain ⟨hline, hlines⟩ := List.forall_mem_cons.mp fits
    rw [state_cons, tokenizeLine_eq hline, ok_bind]
    exact ih hlines

/-- Lines have no state behind them just if they have no scan. -/
theorem state_eq_error_iff {state : ScanState} {lines : List String} {fault : Fault} :
    Passage.state ⟨state, lines⟩ = .error fault ↔ tokenizeLines state lines = .error fault := by
  induction lines generalizing state with
  | nil => exact iff_of_false (by rintro ⟨⟩) (by rintro ⟨⟩)
  | cons line lines ih =>
    rw [state_cons, tokenizeLines, bind_eq_error, bind_eq_error]
    simp only [bind_pure_eq_error, ih]

/-- **A fault of lines is one of a line**, in some state. -/
theorem exists_of_state_eq_error {state : ScanState} {lines : List String} {fault : Fault}
    (h : Passage.state ⟨state, lines⟩ = .error fault) :
    ∃ line ∈ lines, ∃ entry, tokenizeLine entry line = .error fault := by
  induction lines generalizing state with
  | nil => cases h
  | cons line lines ih =>
    rw [state_cons] at h
    rcases bind_eq_error.mp h with hline | ⟨scan, -, hlines⟩
    · exact ⟨line, List.mem_cons_self, state, hline⟩
    · obtain ⟨other, hmem, hother⟩ := ih hlines
      exact ⟨other, List.mem_cons_of_mem line hmem, hother⟩

end BufferedHighlighter.Passage

namespace LineStates

open BufferedHighlighter

variable {lines : List String} {states next : LineStates}

/-! ## Whole documents -/

/-- A document has no states just if there is no state behind its lines. -/
theorem bufferedOfLines_eq_error_iff {fault : Fault} :
    bufferedOfLines lines = .error fault ↔ Passage.state ⟨.start, lines⟩ = .error fault := by
  rw [bufferedOfLines_eq, bind_pure_eq_error, Passage.state_eq_error_iff]

/-- The states of a whole document track it. -/
theorem tracks_bufferedOfLines (h : bufferedOfLines lines = .ok states) :
    Tracks .buffered lines (fun _ => False) states := by
  rw [bufferedOfLines_eq] at h
  obtain ⟨scans, hscans, hret⟩ := bind_eq_ok.mp h
  cases hret
  obtain ⟨hlen, hget⟩ := getElem?_tokenizeLines hscans
  refine ⟨?_, rfl, fun i hi _ => ?_⟩
  · rw [List.length_map, List.length_cons, List.length_map, hlen]
  · have hline : lines[i]? = some lines[i] := List.getElem?_eq_getElem hi
    obtain ⟨entry, scan, hentry, hscan, htokens⟩ := hget i _ hline
    refine ⟨_, entry, scan.2, hline, ?_, ⟨scan.1, htokens⟩, ?_⟩
    · rw [List.getElem?_map, hentry, Option.map_some]
    · rw [List.getElem?_map, List.getElem?_cons_succ, List.getElem?_map, hscan, Option.map_some,
        Option.map_some]

/-- **An entry with no pending line above it** is the state behind these lines. -/
theorem Tracks.exists_state {pending : Nat → Prop} (h : Tracks .buffered lines pending states)
    {i : Nat} (hi : i ≤ lines.length) (above : ∀ j < i, ¬ pending j) :
    ∃ state, Passage.state ⟨.start, lines.take i⟩ = .ok state ∧
      states.entries[i]? = some (some state) := by
  induction i with
  | zero => exact ⟨.start, rfl, h.start⟩
  | succ i ih =>
    obtain ⟨state, hstate, hentry⟩ := ih (by omega) fun j hj => above j (by omega)
    obtain ⟨line, before, behind, hline, hbefore, ⟨tokens, hscan⟩, hbehind⟩ :=
      h.settled i (by omega) (above i (Nat.lt_succ_self i))
    rw [hentry, Option.some_inj, Option.some_inj] at hbefore
    subst hbefore
    refine ⟨behind, ?_, hbehind⟩
    rw [List.take_add_one, hline, Option.toList_some, Passage.state_concat, hstate, ok_bind, hscan]
    rfl

/-- **What tracks a document are its states**, and it has some then. -/
theorem Tracks.bufferedOfLines_eq (h : Tracks .buffered lines (fun _ => False) states) :
    bufferedOfLines lines = .ok states := by
  obtain ⟨state, hstate, -⟩ := h.exists_state (Nat.le_refl lines.length) fun _ _ hp => hp
  rw [List.take_length] at hstate
  cases hof : bufferedOfLines lines with
  | ok fresh => rw [(tracks_bufferedOfLines hof).eq LineStep.unique_buffered h]
  | error fault =>
    rw [bufferedOfLines_eq_error_iff.mp hof] at hstate
    cases hstate

/-! ## One scan -/

section Loop

variable {buffer : LineBuffer} {state : ScanState} {entries : List (Option ScanState)}

/-- A loop that has a result does what `Refreshed` says. -/
theorem refreshed_bufferedRefresh {result : List (Option ScanState)} {count : Nat}
    (hlen : entries.length = lines.length)
    (h : bufferedRefresh buffer state lines entries = .ok (result, count)) :
    Refreshed .buffered state lines entries result count := by
  induction lines generalizing buffer state entries result count with
  | nil =>
    obtain rfl := List.length_eq_zero_iff.mp hlen
    cases h
    exact .nil .buffered state
  | cons line lines ih =>
    cases entries with
    | nil => cases hlen
    | cons entry entries =>
      rw [bufferedRefresh] at h
      dsimp only at h
      rw [LineBuffer.tokens_reset] at h
      obtain ⟨⟨tokens, behind⟩, hline, h⟩ := bind_eq_ok.mp h
      have hstep : LineStep.buffered state line behind := ⟨tokens, hline⟩
      dsimp only at h
      split at h
      case isTrue hentry =>
        cases h
        subst hentry
        exact .stop hstep lines entries
      case isFalse hentry =>
        obtain ⟨⟨rest, n⟩, hrest, h⟩ := bind_eq_ok.mp h
        cases h
        exact .cons hstep hentry (ih (Nat.succ.inj hlen) hrest)

/-- A loop that ends in a fault has scanned its lines one after the other up to there. -/
theorem state_of_bufferedRefresh {fault : Fault}
    (h : bufferedRefresh buffer state lines entries = .error fault) :
    Passage.state ⟨state, lines⟩ = .error fault := by
  induction lines generalizing buffer state entries with
  | nil => cases h
  | cons line lines ih =>
    cases entries with
    | nil => cases h
    | cons entry entries =>
      rw [bufferedRefresh] at h
      dsimp only at h
      rw [LineBuffer.tokens_reset] at h
      rw [Passage.state_cons]
      refine bind_eq_error.mpr ((bind_eq_error.mp h).imp_right ?_)
      rintro ⟨scan, hline, h⟩
      split at h
      · cases h
      · exact ⟨scan, hline, ih (bind_pure_eq_error.mp h)⟩

end Loop

section Rescan

variable {line first : Nat} {state : ScanState}
  (hlen : states.entries.length = lines.length + 1)
  (hfirst : lastKnown states.entries (min line lines.length) = first)
  (hstate : states.entries[first]? = some (some state))

include hlen hfirst hstate

/-- A scan runs the loop behind the entry from which it starts. -/
theorem bufferedRescan_eq :
    states.bufferedRescan lines line = (do
      let (rest, count) ← bufferedRefresh (.ofLine "") state (lines.drop first)
        (states.entries.drop (first + 1))
      return (⟨states.entries.take (first + 1) ++ rest⟩, count)) := by
  unfold bufferedRescan
  simp only [resize_of_length_eq hlen, hfirst, hstate, Option.join_some, Option.getD_some]

/-- **A scan that has a result** does what `Rescanned` says. -/
theorem rescanned_bufferedRescan {count : Nat}
    (scanned : states.bufferedRescan lines line = .ok (next, count)) :
    Rescanned .buffered lines states next first count := by
  rw [bufferedRescan_eq hlen hfirst hstate] at scanned
  obtain ⟨⟨rest, n⟩, hrefresh, hret⟩ := bind_eq_ok.mp scanned
  cases hret
  have hdrop : (states.entries.drop (first + 1)).length = (lines.drop first).length := by
    simp only [List.length_drop]
    omega
  exact (refreshed_bufferedRefresh hdrop hrefresh).rescanned hlen hstate

/-- **A scan that ends in a fault** has scanned the lines from `first` on up to there. -/
theorem state_of_bufferedRescan {fault : Fault}
    (scanned : states.bufferedRescan lines line = .error fault) :
    Passage.state ⟨state, lines.drop first⟩ = .error fault := by
  rw [bufferedRescan_eq hlen hfirst hstate] at scanned
  exact state_of_bufferedRefresh (bind_pure_eq_error.mp scanned)

end Rescan

/-- **A scan of all that is pending is a scan of the whole document.**  No line above the one
from which it starts is pending, and there are only unknown entries from there to any that is.
Then the scan comes to the states of the document, or to the fault in which these end. -/
theorem Tracks.bufferedRescan_eq {pending : Nat → Prop} {line first : Nat} {state : ScanState}
    (h : Tracks .buffered lines pending states)
    (hfirst : lastKnown states.entries (min line lines.length) = first)
    (hstate : states.entries[first]? = some (some state))
    (above : ∀ i < first, ¬ pending i)
    (unknown : ∀ i < lines.length, pending i →
      ∀ j, first < j → j ≤ i → states.entries[j]?.join = none) :
    (do
      let (next, _) ← states.bufferedRescan lines line
      return next) = bufferedOfLines lines := by
  cases hscan : states.bufferedRescan lines line with
  | ok scan =>
    have hrescanned := rescanned_bufferedRescan h.length_eq hfirst hstate hscan
    have htracks : Tracks .buffered lines (fun _ => False) scan.1 := by
      refine (h.rescanned hrescanned).mono ?_
      rintro i hi ⟨hpend, hpass⟩
      have hle : first ≤ i := Nat.le_of_not_lt fun hlt => above i hlt hpend
      exact hpass ⟨hle, hrescanned.lt_add_count hi (unknown i hi hpend)⟩
    exact htracks.bufferedOfLines_eq.symm
  | error fault =>
    have hlt : first < states.entries.length := (List.getElem?_eq_some_iff.mp hstate).1
    have hfault := state_of_bufferedRescan h.length_eq hfirst hstate hscan
    rw [h.length_eq] at hlt
    obtain ⟨before, hbefore, hentry⟩ := h.exists_state (Nat.le_of_lt_succ hlt) above
    rw [hstate, Option.some_inj, Option.some_inj] at hentry
    subst hentry
    refine (bufferedOfLines_eq_error_iff.mpr ?_).symm
    rw [← List.take_append_drop first lines, Passage.state_append, hbefore]
    exact hfault

end LineStates

end OCamlHighlight
