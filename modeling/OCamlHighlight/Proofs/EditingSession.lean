/-
# Editing a document and scanning what has changed

An editor keeps the states of its document up to date: after each change it
moves the entries, and scans from a changed line on.  Each of the two may end in a
fault.  This file follows the entries through a whole session.

* `getElem?_edit` says which old entry an edit puts where.
* After the edit only the lines that were put in, or the line that moved up into
  their place, are pending (`Tracks.edit`), and the scan passes all of them.
* `Tracks.perform_eq`: a change comes to the states of a scan of the whole document,
  or to the fault of this scan.
* `sessions_match_full_scans` is about every state that a session comes to.
-/
import OCamlHighlight.Proofs.BufferedStates

namespace OCamlHighlight.LineStates

/-! ## The entries after an edit -/

section Edit

variable {states : LineStates} {line removed inserted first last : Nat}
  (hfirst : min line states.lineCount = first)
  (hlast : min (first + removed) states.lineCount = last)
  (h : states.entries ≠ [])

include hfirst hlast

/-- An edit without new lines closes the gap. -/
theorem entries_edit_zero :
    (states.edit line removed 0).entries
      = states.entries.take (first + 1) ++ states.entries.drop (last + 1) := by
  simp only [edit, if_true, hfirst, hlast]

include h

/-- An edit with new lines leaves one unknown entry between any two of them, and
keeps the entry before the first line that was not touched. -/
theorem entries_edit_pos (hpos : 0 < inserted) :
    (states.edit line removed inserted).entries
      = states.entries.take (first + 1) ++ List.replicate (inserted - 1) none
          ++ states.entries.drop last := by
  have hlen : 0 < states.entries.length := List.length_pos_iff.mpr h
  have hcount : states.lineCount + 1 = states.entries.length := by
    simp only [lineCount]
    omega
  have hfront : (states.entries.take (first + 1)).length = first + 1 := by
    rw [List.length_take]
    omega
  have htake : (states.entries.take (first + 1)).take (first + inserted)
      = states.entries.take (first + 1) := List.take_of_length_le (by omega)
  have hfill : first + inserted - (first + 1) = inserted - 1 := by omega
  have hdrop : states.entries.drop last
      = [states.entries[last]?.join] ++ states.entries.drop (last + 1) := by
    rw [List.drop_eq_getElem_cons (by omega), List.getElem?_eq_getElem (by omega)]
    rfl
  rw [hdrop]
  simp only [edit, if_neg (by omega : ¬ inserted = 0), resize, hfirst, hlast, htake, hfront,
    hfill, List.append_assoc]

/-- **Entries after an edit.**  Up to the first edited line they stay, inside the
new lines they are unknown, and after them they are the old ones, moved by the
difference of the lines put in and taken out. -/
theorem getElem?_edit (i : Nat) :
    (states.edit line removed inserted).entries[i]? =
      if i ≤ first then states.entries[i]?
      else if i < first + inserted then some none
      else states.entries[i - inserted + (last - first)]? := by
  have hlen : 0 < states.entries.length := List.length_pos_iff.mpr h
  have hcount : states.lineCount + 1 = states.entries.length := by
    simp only [lineCount]
    omega
  have hfront : (states.entries.take (first + 1)).length = first + 1 := by
    rw [List.length_take]
    omega
  rcases Nat.eq_zero_or_pos inserted with rfl | hpos
  · rw [entries_edit_zero hfirst hlast, List.getElem?_append, hfront, List.getElem?_take,
      List.getElem?_drop]
    by_cases hi : i ≤ first
    · rw [if_pos (by omega), if_pos (by omega), if_pos hi]
    · rw [if_neg (by omega), if_neg hi, if_neg (by omega)]
      congr 1
      omega
  · rw [entries_edit_pos hfirst hlast h hpos, List.getElem?_append, List.getElem?_append,
      List.length_append, hfront, List.length_replicate, List.getElem?_take,
      List.getElem?_replicate, List.getElem?_drop]
    by_cases hi : i ≤ first
    · rw [if_pos (by omega), if_pos (by omega), if_pos (by omega), if_pos hi]
    · by_cases hnew : i < first + inserted
      · rw [if_pos (by omega), if_neg (by omega), if_pos (by omega), if_neg hi, if_pos hnew]
      · rw [if_neg (by omega), if_neg hi, if_neg hnew]
        congr 1
        omega

end Edit

/-! ## The lines after an edit -/

/-- The lines of a document in which `removed` lines from `line` on are replaced
by `inserted`. -/
def splice (lines : List String) (line removed : Nat) (inserted : List String) : List String :=
  lines.take line ++ inserted ++ lines.drop (line + removed)

section Splice

variable {lines : List String} {line removed : Nat} (inserted : List String)
  (hline : line ≤ lines.length) (hremoved : removed ≤ lines.length - line)

include hline hremoved

theorem length_splice :
    (splice lines line removed inserted).length = lines.length - removed + inserted.length := by
  simp only [splice, List.length_append, List.length_take, List.length_drop]
  omega

omit hremoved in
/-- Above the edit the lines are the old ones. -/
theorem getElem?_splice_above {i : Nat} (hi : i < line) :
    (splice lines line removed inserted)[i]? = lines[i]? := by
  have htake : (lines.take line).length = line := by
    rw [List.length_take]
    omega
  rw [splice, List.append_assoc, List.getElem?_append_left (by omega), List.getElem?_take,
    if_pos hi]

omit hremoved in
/-- Below the edit the lines are the old ones, moved. -/
theorem getElem?_splice_below {i : Nat} (hi : line + inserted.length ≤ i) :
    (splice lines line removed inserted)[i]? = lines[i - inserted.length + removed]? := by
  have hlen : (lines.take line ++ inserted).length = line + inserted.length := by
    rw [List.length_append, List.length_take]
    omega
  rw [splice, List.getElem?_append_right (by omega), hlen, List.getElem?_drop]
  congr 1
  omega

end Splice

/-! ## Tracked entries after an edit -/

section Tracks

variable {step : LineStep} {lines : List String} {pending : Nat → Prop} {states : LineStates}

/-- The states of a document are as many as its lines, and one more. -/
theorem Tracks.lineCount_eq (h : Tracks step lines pending states) :
    states.lineCount = lines.length := by
  rw [lineCount, h.length_eq]
  omega

theorem Tracks.entries_ne_nil (h : Tracks step lines pending states) : states.entries ≠ [] := by
  intro hnil
  have hlen := h.length_eq
  rw [hnil] at hlen
  simp at hlen

section Edit

variable {line removed : Nat} (inserted : List String) (hline : line ≤ lines.length)
  (hremoved : removed ≤ lines.length - line)

include hline hremoved

/-- The entries of a document after an edit of its lines. -/
theorem Tracks.getElem?_edit (h : Tracks step lines pending states) (i : Nat) :
    (states.edit line removed inserted.length).entries[i]? =
      if i ≤ line then states.entries[i]?
      else if i < line + inserted.length then some none
      else states.entries[i - inserted.length + removed]? := by
  have hcount := h.lineCount_eq
  have hlast : min (line + removed) states.lineCount = line + removed := by omega
  rw [LineStates.getElem?_edit (by omega) hlast h.entries_ne_nil, Nat.add_sub_cancel_left]

/-- There are as many entries as the new lines ask for. -/
theorem Tracks.countAfterEdit_eq (h : Tracks step lines pending states) :
    states.countAfterEdit line removed inserted.length
      = (splice lines line removed inserted).length + 1 := by
  have hcount := h.lineCount_eq
  rw [countAfterEdit, h.length_eq, length_splice inserted hline hremoved]
  omega

/-- An edit has a result if there is room for the states of the new lines. -/
theorem Tracks.checkedEdit_eq (h : Tracks step lines pending states) :
    states.checkedEdit line removed inserted.length =
      if (splice lines line removed inserted).length < maxEntries then
        .ok (states.edit line removed inserted.length)
      else .error .tooManyStates := by
  rw [checkedEdit, h.countAfterEdit_eq inserted hline hremoved]
  rfl

/-- **What is pending after an edit.**  The moved entries track the new document
but for the lines that were put in, or for the line that moved up into their
place. -/
theorem Tracks.edit (h : Tracks step lines (fun _ => False) states) :
    Tracks step (splice lines line removed inserted)
      (fun i => line ≤ i ∧ i < line + max 1 inserted.length)
      (states.edit line removed inserted.length) := by
  have hget := h.getElem?_edit inserted hline hremoved
  refine ⟨?_, ?_, ?_⟩
  · rw [length_edit _ _ _ _ h.entries_ne_nil, h.countAfterEdit_eq inserted hline hremoved]
  · rw [hget 0, if_pos (Nat.zero_le line), h.start]
  · intro i hi hpending
    rw [length_splice inserted hline hremoved] at hi
    rcases Nat.lt_or_ge i line with hlt | hge
    · -- Above the edit nothing has changed.
      refine (h.settled i (by omega) id).congr (getElem?_splice_above inserted hline hlt) ?_ ?_
      · rw [hget, if_pos (by omega)]
      · rw [hget, if_pos (by omega)]
    · -- Below the pending lines both entries have moved with the line.
      have hbelow : line + max 1 inserted.length ≤ i := by omega
      refine (h.settled (i - inserted.length + removed) (by omega) id).congr
        (getElem?_splice_below inserted hline (by omega)) ?_ ?_
      · rw [hget, if_neg (by omega), if_neg (by omega)]
      · rw [hget, if_neg (by omega), if_neg (by omega)]
        congr 1
        omega

end Edit

/-- A change of one line makes that line pending. -/
theorem Tracks.set (h : Tracks step lines (fun _ => False) states) (line : Nat) (text : String) :
    Tracks step (lines.set line text) (· = line) states := by
  refine ⟨?_, h.start, ?_⟩
  · rw [h.length_eq, List.length_set]
  · intro i hi hne
    rw [List.length_set] at hi
    refine (h.settled i hi id).congr ?_ rfl rfl
    rw [List.getElem?_set_ne (fun h => hne h.symm)]

end Tracks

/-! ## Changes -/

/-- A change of a document, with the line from which it is scanned again. -/
inductive Change where
  /-- Lines are replaced by others. -/
  | splice (line removed : Nat) (inserted : List String) (scan : Nat)
  /-- One line is changed in place, and scanned from there on. -/
  | set (line : Nat) (text : String)
  deriving DecidableEq, Repr

namespace Change

/-- The document after a change. -/
def apply (lines : List String) : Change → List String
  | splice line removed inserted _ => LineStates.splice lines line removed inserted
  | set line text => lines.set line text

/-- The lines that change are there, and the scan starts from one of the new lines, or from
the line that moved up into their place. -/
def Valid (lines : List String) : Change → Prop
  | splice line removed inserted scan =>
    line ≤ lines.length ∧ removed ≤ lines.length - line ∧
      line ≤ scan ∧ scan < line + max 1 inserted.length
  | set line _ => line < lines.length

instance (lines : List String) (change : Change) : Decidable (change.Valid lines) :=
  match change with
  | splice .. => inferInstanceAs (Decidable (_ ∧ _))
  | set .. => inferInstanceAs (Decidable (_ < _))

/-- The states of the new lines can be held, if they have to be moved.  Lines that are all in
memory leave this room, as a string takes more bytes than a state. -/
def HasRoom (lines : List String) : Change → Prop
  | splice line removed inserted _ =>
    (LineStates.splice lines line removed inserted).length < maxEntries
  | set .. => True

instance (lines : List String) (change : Change) : Decidable (change.HasRoom lines) :=
  match change with
  | splice .. => inferInstanceAs (Decidable (_ < _))
  | set .. => .isTrue trivial

/-- What an editor does to its states after a change: it moves them if lines were replaced,
and scans. -/
def perform (lines : List String) (states : LineStates) : Change → Except Fault LineStates
  | splice line removed inserted scan => do
    let edited ← states.checkedEdit line removed inserted.length
    let (next, _) ← edited.bufferedRescan (LineStates.splice lines line removed inserted) scan
    return next
  | set line text => do
    let (next, _) ← states.bufferedRescan (lines.set line text) line
    return next

end Change

section Change

variable {lines : List String} {states : LineStates}
  (h : Tracks .buffered lines (fun _ => False) states)

include h

/-- **Scanning after an edit.**  A scan from the first or any other of the new
lines passes every pending line. -/
theorem Tracks.bufferedRescan_edit {inserted : List String} {line removed scan : Nat}
    (hline : line ≤ lines.length) (hremoved : removed ≤ lines.length - line)
    (hle : line ≤ scan) (hlt : scan < line + max 1 inserted.length) :
    (do
      let (next, _) ← (states.edit line removed inserted.length).bufferedRescan
        (splice lines line removed inserted) scan
      return next) = bufferedOfLines (splice lines line removed inserted) := by
  have hlength := length_splice inserted hline hremoved
  have hget := h.getElem?_edit inserted hline hremoved
  -- The entry before the edit is known, and those between the new lines are not.
  obtain ⟨state, -, hentry⟩ := h.exists_state hline fun _ _ hp => hp
  have hstate : (states.edit line removed inserted.length).entries[line]?
      = some (some state) := by
    rw [hget, if_pos (Nat.le_refl _), hentry]
  have hunknown : ∀ i, line < i → i < line + inserted.length →
      (states.edit line removed inserted.length).entries[i]?.join = none := by
    intro i h1 h2
    rw [hget, if_neg (by omega), if_pos h2]
    rfl
  have hfirst : lastKnown (states.edit line removed inserted.length).entries
      (min scan (splice lines line removed inserted).length) = line := by
    refine lastKnown_eq (by omega) (by rw [hstate]; rfl) ?_
    intro i h1 h2
    exact hunknown i h1 (by omega)
  refine (h.edit inserted hline hremoved).bufferedRescan_eq hfirst hstate ?_ ?_
  · rintro i hi ⟨hge, -⟩
    omega
  · rintro i - ⟨-, hpend⟩ j h1 h2
    exact hunknown j h1 (by omega)

/-- **Scanning after a change of one line.**  No entry has to be moved. -/
theorem Tracks.bufferedRescan_set {line : Nat} (text : String) (hline : line < lines.length) :
    (do
      let (next, _) ← states.bufferedRescan (lines.set line text) line
      return next) = bufferedOfLines (lines.set line text) := by
  obtain ⟨state, -, hstate⟩ := h.exists_state hline.le fun _ _ hp => hp
  have hlength : (lines.set line text).length = lines.length := List.length_set
  have hfirst : lastKnown states.entries (min line (lines.set line text).length) = line := by
    rw [hlength, Nat.min_eq_left hline.le]
    exact lastKnown_eq (Nat.le_refl _) (by rw [hstate]; rfl) (fun i h1 h2 => by omega)
  refine (h.set line text).bufferedRescan_eq hfirst hstate ?_ ?_
  · rintro i hi rfl
    exact Nat.lt_irrefl i hi
  · rintro i - rfl j h1 h2
    omega

/-- **One change.**  It comes to the states of the new document, or to the fault in which the
scan of that document ends; or there are too many states to be held. -/
theorem Tracks.perform_eq {change : Change} (valid : change.Valid lines) :
    change.perform lines states =
      if change.HasRoom lines then bufferedOfLines (change.apply lines)
      else .error .tooManyStates := by
  cases change with
  | splice line removed inserted scan =>
    obtain ⟨hline, hremoved, hle, hlt⟩ := valid
    rw [Change.perform, h.checkedEdit_eq inserted hline hremoved]
    by_cases hroom : (splice lines line removed inserted).length < maxEntries
    · rw [if_pos hroom, ok_bind, if_pos (show Change.HasRoom lines (.splice ..) from hroom)]
      exact h.bufferedRescan_edit hline hremoved hle hlt
    · rw [if_neg hroom, if_neg (show ¬ Change.HasRoom lines (.splice ..) from hroom)]
      rfl
  | set line text => exact h.bufferedRescan_set text valid

end Change

/-! ## A session -/

/-- An editing session: the lines of the document and the states that are
remembered for them, from the opened document on, as long as no fault ends it. -/
inductive Session (document : List String) : List String → LineStates → Prop
  /-- The whole document is scanned when it is opened. -/
  | opened {states : LineStates} (scanned : bufferedOfLines document = .ok states) :
      Session document document states
  /-- The document is changed, and its states with it. -/
  | changed {lines : List String} {states next : LineStates} (change : Change)
      (session : Session document lines states) (valid : change.Valid lines)
      (performed : change.perform lines states = .ok next) :
      Session document (change.apply lines) next

/-- The states of a session are those of a scan of its document. -/
theorem Session.bufferedOfLines_eq {document lines : List String} {states : LineStates}
    (session : Session document lines states) : bufferedOfLines lines = .ok states := by
  induction session with
  | opened scanned => exact scanned
  | changed change _ valid performed ih =>
    rw [(tracks_bufferedOfLines ih).perform_eq valid] at performed
    split at performed
    · exact performed
    · cases performed

/-- **Incremental scanning is a full scan.**  After every change of a session the remembered
states are those of a scan of the whole document: before line `i` the state that the lines
above it lead to, and none unknown.  The next change, whatever it is, comes to the states of
the changed document again.  It ends in a fault just if the scan of that document does, in
the same one, or if the states that have to be moved are too many to be held.  Where all
lines fit into a buffer there is no fault. -/
theorem sessions_match_full_scans :
    (∀ {document lines : List String} {states : LineStates}, Session document lines states →
      bufferedOfLines lines = .ok states ∧
      states.entries.length = lines.length + 1 ∧
      (∀ i ≤ lines.length, ∃ state,
        BufferedHighlighter.Passage.state ⟨.start, lines.take i⟩ = .ok state ∧
          states.entries[i]? = some (some state)) ∧
      ∀ change : Change, change.Valid lines →
        change.perform lines states =
          if change.HasRoom lines then bufferedOfLines (change.apply lines)
          else .error .tooManyStates) ∧
    ∀ lines : List String, (∀ line ∈ lines, line.utf8ByteSize < 2 ^ 32) →
      ∃ states, bufferedOfLines lines = .ok states := by
  refine ⟨fun session => ?_, fun lines fits => ⟨_, bufferedOfLines_of_fits fits⟩⟩
  have hstates := session.bufferedOfLines_eq
  have htracks := tracks_bufferedOfLines hstates
  exact ⟨hstates, htracks.length_eq, fun i hi => htracks.exists_state hi fun _ _ hp => hp,
    fun change valid => htracks.perform_eq valid⟩

/-- Two lines are put behind an open comment, which the first of them closes. -/
theorem sessions_match_full_scans_closing :
    ∃ opened states, bufferedOfLines ["(* a", "b"] = .ok opened ∧
      (Change.splice 1 0 ["*)", "c"] 2).Valid ["(* a", "b"] ∧
      (Change.splice 1 0 ["*)", "c"] 2).perform ["(* a", "b"] opened = .ok states ∧
      Session ["(* a", "b"] ["(* a", "*)", "c", "b"] states ∧
      bufferedOfLines ["(* a", "*)", "c", "b"] = .ok states ∧
      states.entries = [some ⟨.base, 0, true⟩, some ⟨.comment, 1, true⟩, some ⟨.base, 0, true⟩,
        some ⟨.base, 0, false⟩, some ⟨.base, 0, false⟩] := by
  obtain ⟨opened, hopened⟩ := sessions_match_full_scans.2 ["(* a", "b"] (by decide)
  have hvalid : (Change.splice 1 0 ["*)", "c"] 2).Valid ["(* a", "b"] := by decide
  obtain ⟨-, -, -, hperform⟩ := sessions_match_full_scans.1 (.opened hopened)
  have hnext := (hperform _ hvalid).trans (if_pos (by decide))
  have hfull : bufferedOfLines ["(* a", "*)", "c", "b"]
      = .ok ⟨[some ⟨.base, 0, true⟩, some ⟨.comment, 1, true⟩, some ⟨.base, 0, true⟩,
          some ⟨.base, 0, false⟩, some ⟨.base, 0, false⟩]⟩ := by
    decide +kernel
  have hperformed := hnext.trans hfull
  have session := (Session.opened hopened).changed _ hvalid hperformed
  exact ⟨opened, _, hopened, hvalid, hperformed, session,
    (sessions_match_full_scans.1 session).1, rfl⟩

end OCamlHighlight.LineStates
