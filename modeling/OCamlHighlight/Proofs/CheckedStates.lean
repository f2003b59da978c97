/-
# Line states with every access checked

An edit and a scan go to entries by their positions, take differences and sums of words,
and split and resize the list of entries.  Each of these can fail.  Here they are written
out one by one, as `edit?` and `rescan?`, and nothing of it fails: positions are brought
into range before they are used, and a scan first makes an entry for every line.

* `edit?_eq`: where there is an entry, an edit fails only if its entries cannot be held.
* `rescan?_eq`: a scan fails only if the scan of one of its lines does, whatever the
  entries are.
-/
import OCamlHighlight.BufferedHighlighter
import OCamlHighlight.Proofs.CheckedCursor
import OCamlHighlight.Proofs.EditingSession

namespace OCamlHighlight.LineStates

/-! ## What can fail -/

/-- The largest word. -/
def maxWord : Nat := 18446744073709551615

/-- The number of lines.  There is none below no entries. -/
def lineCount? (states : LineStates) : Option Nat :=
  if 1 ≤ states.entries.length then some (states.entries.length - 1) else none

/-- The entries in front of a position and those behind it, if there is such a position. -/
def splitOff? (entries : List (Option ScanState)) (position : Nat) :
    Option (List (Option ScanState) × List (Option ScanState)) :=
  if position ≤ entries.length then some (entries.take position, entries.drop position) else none

/-- Resizes entries to a sum, if the sum is a word. -/
def resize? (entries : List (Option ScanState)) (first inserted : Nat) :
    Option (List (Option ScanState)) :=
  if first + inserted ≤ maxWord then some (resize entries (first + inserted)) else none

/-- The states with these entries, if they can be held. -/
def hold? (entries : List (Option ScanState)) : Option LineStates :=
  if entries.length ≤ maxEntries then some ⟨entries⟩ else none

/-- `edit` with every access checked.  The sum of the position and the number of removed lines
stays at the largest word. -/
def edit? (states : LineStates) (line removed inserted : Nat) : Option LineStates := do
  let count ← states.lineCount?
  let first := min line count
  let last := min (min (first + removed) maxWord) count
  let target ← states.entries[last]?
  let (front, tail) ← splitOff? states.entries (last + 1)
  let front := front.take (first + 1)
  if inserted = 0 then hold? (front ++ tail)
  else hold? ((← resize? front first inserted) ++ [target] ++ tail)

/-- `lastKnown` with every access checked. -/
def lastKnown? (entries : List (Option ScanState)) : Nat → Option Nat
  | 0 => some 0
  | line + 1 => do
    let entry ← entries[line + 1]?
    if entry.isSome then some (line + 1) else lastKnown? entries line

/-- `refresh` with every access checked, from the line at an index on. -/
def refresh? (buffer : LineBuffer) (state : ScanState) :
    List String → Nat → List (Option ScanState) → Option (List (Option ScanState) × Nat)
  | [], _, entries => some (entries, 0)
  | line :: lines, index, entries => do
    let buffer := buffer.reset line
    let (_, next) ← (buffer.tokens state).toOption
    let entry ← entries[index + 1]?
    if entry = some next then some (entries, 1)
    else
      let (entries, count) ←
        refresh? buffer next lines (index + 1) (entries.set (index + 1) (some next))
      some (entries, count + 1)

/-- `rescan` with every access checked. -/
def rescan? (states : LineStates) (lines : List String) (line : Nat) :
    Option (LineStates × Nat) := do
  let entries := resize states.entries (lines.length + 1)
  let first ← lastKnown? entries (min line lines.length)
  let entry ← entries[first]?
  let (entries, count) ←
    refresh? (.ofLine "") (entry.getD .start) (lines.drop first) first entries
  some (⟨entries⟩, count)

/-! ## Edits -/

/-- An edit has a result if its entries can be held. -/
theorem toOption_checkedEdit {states : LineStates} (h : states.entries ≠ [])
    (line removed inserted : Nat) :
    (states.checkedEdit line removed inserted).toOption
      = hold? (states.edit line removed inserted).entries := by
  unfold checkedEdit hold?
  rw [length_edit states line removed inserted h]
  split
  · rfl
  · rfl

/-- **No access of an edit fails** where there is an entry. -/
theorem edit?_eq {states : LineStates} (h : states.entries ≠ [])
    (word : states.lineCount ≤ maxWord) (line removed inserted : Nat) :
    states.edit? line removed inserted
      = (states.checkedEdit line removed inserted).toOption := by
  have hpos : 1 ≤ states.entries.length := List.length_pos_iff.mpr h
  have hlen : states.lineCount + 1 = states.entries.length := Nat.sub_add_cancel hpos
  have hcount : states.lineCount? = some states.lineCount := if_pos hpos
  have hsize := length_edit states line removed inserted h
  rw [toOption_checkedEdit h]
  generalize hfirst : min line states.lineCount = first
  generalize hlast : min (first + removed) states.lineCount = last
  simp only [countAfterEdit, hfirst, hlast] at hsize
  -- The sum that stays at the largest word is the sum, as far as it is in range.
  have hsum : min (min (first + removed) maxWord) states.lineCount = last := by omega
  have hlt : last < states.entries.length := by omega
  have hsplit : splitOff? states.entries (last + 1)
      = some (states.entries.take (last + 1), states.entries.drop (last + 1)) := if_pos hlt
  have hfront : (states.entries.take (last + 1)).take (first + 1)
      = states.entries.take (first + 1) := by
    rw [List.take_take, Nat.min_eq_left (by omega)]
  unfold edit?
  simp only [hcount, Option.bind_eq_bind, Option.bind_some, hfirst, hsum,
    List.getElem?_eq_getElem hlt, hsplit, hfront]
  by_cases hzero : inserted = 0
  · subst hzero
    rw [if_pos rfl, entries_edit_zero hfirst hlast]
  · rw [if_neg hzero]
    by_cases hword : first + inserted ≤ maxWord
    · rw [resize?, if_pos hword, Option.bind_some]
      simp only [edit, if_neg hzero, hfirst, hlast, List.getElem?_eq_getElem hlt, Option.join_some]
    · -- More entries than words are more than can be held.
      have hmany : ¬ (states.edit line removed inserted).entries.length ≤ maxEntries := by
        unfold maxWord at hword
        unfold maxEntries
        omega
      rw [resize?, if_neg hword, Option.bind_none, hold?, if_neg hmany]

/-! ## Scans -/

/-- **No access fails on the way back** to a known state. -/
theorem lastKnown?_eq {entries : List (Option ScanState)} {line : Nat}
    (h : line < entries.length) : lastKnown? entries line = some (lastKnown entries line) := by
  induction line with
  | zero => rfl
  | succ line ih =>
    rw [lastKnown?, lastKnown, List.getElem?_eq_getElem h, ih (Nat.lt_of_succ_lt h)]
    simp only [Option.bind_eq_bind, Option.bind_some, Option.join_some]
    split
    · rfl
    · rfl

/-- The way back stays within the lines. -/
theorem lastKnown_le (entries : List (Option ScanState)) (line : Nat) :
    lastKnown entries line ≤ line := by
  induction line with
  | zero => exact Nat.le_refl 0
  | succ line ih =>
    rw [lastKnown]
    split
    · exact Nat.le_refl _
    · exact Nat.le_succ_of_le ih

/-- **No access of the loop fails**, as long as there is an entry behind each line. -/
theorem refresh?_eq (buffer : LineBuffer) (state : ScanState) {lines : List String} {index : Nat}
    {front rest : List (Option ScanState)} (hfront : front.length = index + 1)
    (hrest : lines.length ≤ rest.length) :
    refresh? buffer state lines index (front ++ rest)
      = ((bufferedRefresh buffer state lines rest).toOption).map fun scan =>
          (front ++ scan.1, scan.2) := by
  induction lines generalizing buffer state index front rest with
  | nil => rfl
  | cons line lines ih =>
    cases rest with
    | nil => cases hrest
    | cons entry rest =>
      have hget : (front ++ entry :: rest)[index + 1]? = some entry := by
        rw [← hfront, List.getElem?_append_right (Nat.le_refl _), Nat.sub_self]
        rfl
      rw [refresh?, bufferedRefresh, hget]
      dsimp only
      cases htokens : (buffer.reset line).tokens state with
      | error fault => rfl
      | ok scan =>
        rw [ok_bind]
        simp only [Except.toOption, Option.bind_eq_bind, Option.bind_some]
        by_cases hentry : entry = some scan.2
        · rw [if_pos hentry, if_pos hentry]
          rfl
        · -- What is written goes from the rest to the front, where the loop goes on behind it.
          have hset : (front ++ entry :: rest).set (index + 1) (some scan.2)
              = (front ++ [some scan.2]) ++ rest := by
            rw [List.set_append_right _ _ (Nat.le_of_eq hfront), hfront, Nat.sub_self, List.set_cons_zero,
              List.append_cons]
          rw [if_neg hentry, if_neg hentry, hset,
            ih (buffer.reset line) scan.2 (by simp [hfront]) (Nat.le_of_succ_le_succ hrest)]
          cases bufferedRefresh (buffer.reset line) scan.2 lines rest with
          | error fault => rfl
          | ok scan' =>
            show some (front ++ [some scan.2] ++ scan'.1, scan'.2 + 1)
              = some (front ++ some scan.2 :: scan'.1, scan'.2 + 1)
            rw [List.append_assoc]
            rfl

/-- **No access of a scan fails**, whatever the entries are. -/
theorem rescan?_eq (states : LineStates) (lines : List String) (line : Nat) :
    states.rescan? lines line = (states.bufferedRescan lines line).toOption := by
  have hlen := length_resize states.entries (lines.length + 1)
  unfold rescan? bufferedRescan
  dsimp only
  generalize resize states.entries (lines.length + 1) = entries at hlen
  have hfirst := lastKnown_le entries (min line lines.length)
  have hlast : lastKnown? entries (min line lines.length)
      = some (lastKnown entries (min line lines.length)) := lastKnown?_eq (by omega)
  generalize lastKnown entries (min line lines.length) = first at hfirst hlast
  have hlt : first < entries.length := by omega
  have hfront : (entries.take (first + 1)).length = first + 1 := by
    rw [List.length_take]
    omega
  have hrest : (lines.drop first).length ≤ (entries.drop (first + 1)).length := by
    rw [List.length_drop, List.length_drop]
    omega
  have hsplit := refresh?_eq (.ofLine "") (entries[first].getD .start) hfront hrest
  rw [List.take_append_drop] at hsplit
  simp only [hlast, Option.bind_eq_bind, Option.bind_some, List.getElem?_eq_getElem hlt,
    Option.join_some, hsplit]
  cases bufferedRefresh (.ofLine "") (entries[first].getD .start) (lines.drop first)
    (entries.drop (first + 1)) with
  | error fault => rfl
  | ok scan => rfl

end OCamlHighlight.LineStates
