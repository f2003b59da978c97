/-
# How many lines a scan passes

A scan after an edit stops where the new document is in the state that the old one had
at the same place.  The entries are moved by the edit, so that an old state has to be
found at its new place; unknown entries in between must not stop the scan, and the last
state must not be missed.

* `Rescanned` has the numbers of one scan; `isCount_rescan` reads them as the least
  place where an entry holds the right state.
* `Meets` says which entry that is, in terms of the two documents alone, and
  `entry_edit_iff` and `entry_set_iff` find it behind an edit and in place.
* `rescan_scans_least`: a scan passes just the lines down to the first such place.
-/
import Mathlib.Order.Bounds.Basic
import OCamlHighlight.Proofs.DriverAgreement
import OCamlHighlight.Proofs.EditingSession

namespace OCamlHighlight.LineStates

/-- The state before a line of a document; behind the last line, the state that the
document ends in. -/
def stateBefore (lines : List String) (i : Nat) : ScanState :=
  ScanState.start.afterAll (lines.take i)

/-- Every entry of a whole document is the state before its line. -/
theorem getElem?_ofLines {lines : List String} {i : Nat} (hi : i ≤ lines.length) :
    (ofLines lines).entries[i]? = some (some (stateBefore lines i)) :=
  (tracks_ofLines lines).getElem?_eq hi

/-- The state further down follows from the state before a line. -/
theorem stateBefore_add (lines : List String) (line k : Nat) :
    stateBefore lines (line + k)
      = (stateBefore lines line).afterAll ((lines.drop line).take k) := by
  unfold stateBefore ScanState.afterAll
  rw [List.take_add, List.foldl_append]

/-! ## One scan -/

/-- The number of lines that are passed from `line` on: the least one that a condition holds
for, or that of all lines if there is none. -/
def IsCount (lines : List String) (line : Nat) (condition : Nat → Prop) (count : Nat) : Prop :=
  IsLeast {k | condition k} count ∨ (∀ k, ¬ condition k) ∧ count = lines.length - line

section Rescan

variable {lines : List String} {states : LineStates} {line : Nat}
  (hlen : states.entries.length = lines.length + 1)
  (hfirst : lastKnown states.entries (min line lines.length) = line)
  (hstate : states.entries[line]? = some (some (stateBefore lines line)))

include hlen hfirst hstate

/-- **Where a scan stops.**  It passes a line at least, and stops behind the first one
whose entry held the right state before. -/
theorem isCount_rescan :
    IsCount lines line
      (fun k => 1 ≤ k ∧ k ≤ lines.length - line ∧
        states.entries[line + k]? = some (some (stateBefore lines (line + k))))
      (states.rescan lines line).2 := by
  have hscan := rescanned_rescan hlen hfirst hstate
  have hend := hscan.add_count_le
  have hfresh : ∀ k ≤ (states.rescan lines line).2, (states.rescan lines line).1.entries[line + k]?
      = some (some (stateBefore lines (line + k))) := by
    intro k hk
    rw [hscan.getElem?_fresh hstate hk, stateBefore_add]
  have hbefore : ∀ k ≥ 1, k < (states.rescan lines line).2 →
      states.entries[line + k]? ≠ some (some (stateBefore lines (line + k))) := by
    intro k hk hlt
    rw [← hfresh k hlt.le]
    exact hscan.passed (line + k) (by omega) (by omega)
  by_cases hstop : 1 ≤ (states.rescan lines line).2 ∧
      states.entries[line + (states.rescan lines line).2]?
        = some (some (stateBefore lines (line + (states.rescan lines line).2)))
  · refine Or.inl ⟨⟨hstop.1, by omega, hstop.2⟩, ?_⟩
    rintro k ⟨hk, -, heq⟩
    by_contra hlt
    exact hbefore k hk (Nat.lt_of_not_le hlt) heq
  · -- A scan that stops above the end has found the right state.
    have hall : (states.rescan lines line).2 = lines.length - line := by
      by_contra hne
      obtain ⟨hpos, heq⟩ := hscan.stopped (by omega)
      exact hstop ⟨hpos, heq.trans (hfresh _ (Nat.le_refl _))⟩
    refine Or.inr ⟨?_, hall⟩
    rintro k ⟨hk, hle, heq⟩
    rcases Nat.lt_or_eq_of_le (hall ▸ hle) with hlt | rfl
    · exact hbefore k hk hlt heq
    · exact hstop ⟨hk, heq⟩

end Rescan

/-! ## The old document at the same place -/

/-- `k` lines below `line`, and behind all of the new lines, the new document is in the
state that the old one has at the same place. -/
def Meets (old new : List String) (line removed inserted k : Nat) : Prop :=
  max 1 inserted ≤ k ∧ k ≤ new.length - line ∧
    stateBefore new (line + k) = stateBefore old (line + removed + k - inserted)

/-- A scan of the new document that has been as short as it can be: it has passed the lines
down to the first place where the documents meet, or all of them, and has kept the entries
outside of these lines. -/
structure ScansLeast (old new : List String) (line removed inserted : Nat) (states : LineStates)
    (scan : LineStates × Nat) : Prop where
  nothing : line = new.length → scan.2 = 0
  count : IsCount new line (Meets old new line removed inserted) scan.2
  kept : ∀ i, i ≤ line ∨ line + scan.2 < i → scan.1.entries[i]? = states.entries[i]?

/-- **The count in terms of the documents.**  It is enough to know the entries below `line`:
those of new lines are unknown, and the others are states of the old document. -/
theorem scansLeast_rescan {old new : List String} {line removed inserted : Nat}
    {states : LineStates} (hlen : states.entries.length = new.length + 1)
    (hline : line ≤ new.length)
    (hstate : states.entries[line]? = some (some (stateBefore new line)))
    (hentries : ∀ k, 1 ≤ k → k ≤ new.length - line →
      states.entries[line + k]? =
        if k < inserted then some none
        else some (some (stateBefore old (line + removed + k - inserted)))) :
    ScansLeast old new line removed inserted states (states.rescan new line) := by
  have hfirst : lastKnown states.entries (min line new.length) = line := by
    rw [Nat.min_eq_left hline]
    exact lastKnown_eq (Nat.le_refl line) (by rw [hstate]; rfl) fun i h1 h2 => by omega
  have hmeets : ∀ k, (1 ≤ k ∧ k ≤ new.length - line ∧
      states.entries[line + k]? = some (some (stateBefore new (line + k)))) ↔
        Meets old new line removed inserted k := by
    intro k
    unfold Meets
    rw [Nat.max_le, and_assoc]
    refine and_congr_right fun hk => ?_
    rw [and_left_comm]
    refine and_congr_right fun hle => ?_
    rw [hentries k hk hle]
    -- The entry of a new line is unknown and stops nothing.
    by_cases hnew : k < inserted
    · rw [if_pos hnew]
      exact iff_of_false (by simp) fun h => by omega
    · rw [if_neg hnew, Option.some_inj, Option.some_inj, eq_comm]
      exact (and_iff_right (Nat.le_of_not_lt hnew)).symm
  have hcount := isCount_rescan hlen hfirst hstate
  rw [funext fun k => propext (hmeets k)] at hcount
  have hscan := rescanned_rescan hlen hfirst hstate
  refine ⟨fun hend => ?_, hcount, hscan.kept⟩
  have hle := hscan.add_count_le
  omega

/-- Above an edit the states are the old ones. -/
theorem stateBefore_splice {old : List String} {line : Nat} (removed : Nat)
    (inserted : List String) (hline : line ≤ old.length) :
    stateBefore (splice old line removed inserted) line = stateBefore old line := by
  have htake : (old.take line).length = line := by
    rw [List.length_take]
    omega
  unfold stateBefore splice
  rw [List.append_assoc, List.take_left' htake]

/-- **A scan behind an edit** stops where the documents first meet. -/
theorem scansLeast_edit {old : List String} {line removed : Nat} (inserted : List String)
    (hline : line ≤ old.length) (hremoved : removed ≤ old.length - line) :
    ScansLeast old (splice old line removed inserted) line removed inserted.length
      ((ofLines old).edit line removed inserted.length)
      (((ofLines old).edit line removed inserted.length).rescan
        (splice old line removed inserted) line) := by
  have hlength := length_splice inserted hline hremoved
  have htracks := tracks_ofLines old
  have hget := htracks.getElem?_edit inserted hline hremoved
  refine scansLeast_rescan (htracks.edit inserted hline hremoved).length_eq (by omega) ?_ ?_
  · rw [hget, if_pos (Nat.le_refl line), getElem?_ofLines hline,
      stateBefore_splice removed inserted hline]
  · intro k hk hle
    rw [hget, if_neg (by omega)]
    by_cases hnew : k < inserted.length
    · rw [if_pos (by omega), if_pos hnew]
    · rw [if_neg (by omega), if_neg hnew, getElem?_ofLines (by omega)]
      congr 3
      omega

/-- **A scan behind a change of one line** stops where the documents first meet. -/
theorem scansLeast_set {old : List String} {line : Nat} (text : String)
    (hline : line < old.length) :
    ScansLeast old (old.set line text) line 1 1 (ofLines old)
      ((ofLines old).rescan (old.set line text) line) := by
  have hlength : (old.set line text).length = old.length := List.length_set
  refine scansLeast_rescan ((tracks_ofLines old).set line text).length_eq (by omega) ?_ ?_
  · rw [getElem?_ofLines hline.le]
    unfold stateBefore
    rw [List.take_set_of_le (Nat.le_refl line)]
  · intro k hk hle
    rw [if_neg (by omega), getElem?_ofLines (by omega)]
    congr 3
    omega

/-! ## Through a buffer -/

/-- Lines that come out of an edit are old ones or new ones. -/
theorem mem_of_mem_splice {old inserted : List String} {line removed : Nat} {text : String}
    (h : text ∈ splice old line removed inserted) : text ∈ old ++ inserted := by
  unfold splice at h
  rw [List.mem_append, List.mem_append] at h
  rw [List.mem_append]
  rcases h with (htake | hnew) | hdrop
  · exact Or.inl (List.mem_of_mem_take htake)
  · exact Or.inr hnew
  · exact Or.inl (List.mem_of_mem_drop hdrop)

/-- **A rescan does just what is necessary.**  After an edit of a scanned document, a scan of
the new one from the edited place passes the lines down to the first place behind the new
lines, and behind one line at least, where the new document is in the state that the old one
had there.  If there is no such place it passes all lines, and none at the end of the
document.  Every entry above these lines or below them stays as the edit has left it.  The
same is true of a scan without an edit after one line has been changed in place.  Where the
lines fit into a buffer, and their states into memory, these are the results of the checked
operations. -/
theorem rescan_scans_least :
    (∀ (old inserted : List String) (line removed : Nat), line ≤ old.length →
      removed ≤ old.length - line →
      let new := splice old line removed inserted
      let edited := (ofLines old).edit line removed inserted.length
      ScansLeast old new line removed inserted.length edited (edited.rescan new line) ∧
        ((∀ text ∈ old ++ inserted, text.utf8ByteSize < 2 ^ 32) → new.length < maxEntries →
          bufferedOfLines old = .ok (ofLines old) ∧
          (ofLines old).checkedEdit line removed inserted.length = .ok edited ∧
          edited.bufferedRescan new line = .ok (edited.rescan new line))) ∧
    ∀ (old : List String) (line : Nat) (text : String), line < old.length →
      let new := old.set line text
      ScansLeast old new line 1 1 (ofLines old) ((ofLines old).rescan new line) ∧
        ((∀ text' ∈ text :: old, text'.utf8ByteSize < 2 ^ 32) →
          bufferedOfLines old = .ok (ofLines old) ∧
          (ofLines old).bufferedRescan new line = .ok ((ofLines old).rescan new line)) := by
  constructor
  · intro old inserted line removed hline hremoved new edited
    refine ⟨scansLeast_edit inserted hline hremoved, fun fits room => ⟨?_, ?_, ?_⟩⟩
    · exact bufferedOfLines_of_fits fun text hmem => fits text (List.mem_append_left inserted hmem)
    · exact ((tracks_ofLines old).checkedEdit_eq inserted hline hremoved).trans (if_pos room)
    · exact bufferedRescan_of_fits edited (fun text hmem => fits text (mem_of_mem_splice hmem)) line
  · intro old line text hline new
    refine ⟨scansLeast_set text hline, fun fits => ⟨?_, ?_⟩⟩
    · exact bufferedOfLines_of_fits fun other hmem => fits other (List.mem_cons_of_mem text hmem)
    · refine bufferedRescan_of_fits _ (fun other hmem => fits other ?_) line
      rcases List.mem_or_eq_of_mem_set hmem with hold | rfl
      · exact List.mem_cons_of_mem text hold
      · exact List.mem_cons_self

/-- A comment is closed in the first new line and opened again in the second, behind which the
documents meet; and where a comment is not opened any more, they meet behind the line
that closed it. -/
theorem rescan_scans_least_reopened :
    (IsLeast
        {k | Meets ["(* a", "b", "*) c", "d"] ["(* a", "x *)", "(* y", "*) c", "d"] 1 1 2 k} 2 ∧
      ∃ states scan, bufferedOfLines ["(* a", "b", "*) c", "d"] = .ok states ∧
        (∃ edited, states.checkedEdit 1 1 2 = .ok edited ∧
          edited.bufferedRescan ["(* a", "x *)", "(* y", "*) c", "d"] 1 = .ok scan) ∧
        scan.2 = 2) ∧
      IsLeast {k | Meets ["(* a", "b", "*) c", "d"] ["a", "b", "*) c", "d"] 0 1 1 k} 3 := by
  obtain ⟨⟨-, hcount, -⟩, hchecked⟩ :=
    rescan_scans_least.1 ["(* a", "b", "*) c", "d"] ["x *)", "(* y"] 1 1 (by decide) (by decide)
  obtain ⟨⟨-, hcount', -⟩, -⟩ := rescan_scans_least.2 ["(* a", "b", "*) c", "d"] 0 "a" (by decide)
  obtain ⟨hstates, hedited, hrescan⟩ := hchecked (by decide) (by decide)
  have htwo : (((ofLines ["(* a", "b", "*) c", "d"]).edit 1 1 ["x *)", "(* y"].length).rescan
      (splice ["(* a", "b", "*) c", "d"] 1 1 ["x *)", "(* y"]) 1).2 = 2 := by
    decide +kernel
  have hthree : ((ofLines ["(* a", "b", "*) c", "d"]).rescan
      (["(* a", "b", "*) c", "d"].set 0 "a") 0).2 = 3 := by
    decide +kernel
  rw [htwo] at hcount
  rw [hthree] at hcount'
  exact ⟨⟨hcount.resolve_right fun h => absurd h.2 (by decide), _, _, hstates,
    ⟨_, hedited, hrescan⟩, htwo⟩, hcount'.resolve_right fun h => absurd h.2 (by decide)⟩

end OCamlHighlight.LineStates
