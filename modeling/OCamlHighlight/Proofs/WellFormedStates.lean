/-
# Line states under any use

A host may scan and edit in any order, with lines that have nothing to do with those of
the last scan and with positions behind the end.  The states of the lines bear this: no
operation drops the first entry or makes up a state that no scan can come to.

* `WellFormed` is the invariant.  An edit keeps it (`WellFormed.edit`), and so does a scan of
  any lines (`WellFormed.rescan`).
* `Operation.wellFormed_perform`, `Operation.exists_perform` and `Operation.perform?_eq` look
  at one operation, and `operations_keep_states_well_formed` at any number of them.
* `operations_with_faults` has what is left out: states that cannot be held, and a line that
  is cut in the middle of a character.
-/
import OCamlHighlight.Proofs.CheckedStates
import OCamlHighlight.Proofs.ConsistentState
import OCamlHighlight.Proofs.DriverAgreement

namespace OCamlHighlight

open Byte Extent

/-! ## Scans keep states consistent -/

/-- The calls up to the end of a line keep a state consistent. -/
theorem LineScanner.consistent_of_collect {scanner : LineScanner} {acc acc' : Array Token}
    {final : ScanState} (h : scanner.collect acc = .ok (acc', final))
    (hc : scanner.state.Consistent) : final.Consistent := by
  induction hw : scanner.weight using Nat.strongRecOn generalizing scanner acc with
  | ind w ih =>
    subst hw
    rw [collect] at h
    obtain ⟨⟨token, next⟩, hnext, h⟩ := bind_eq_ok.mp h
    have hconsistent := (moves_of_next hnext).consistent hc
    dsimp only at h
    split at h
    · cases h
      exact hconsistent
    · split at h
      case isTrue hlt => exact ih _ hlt h hconsistent rfl
      case isFalse => cases h

/-- So does a scan of the line in a buffer, of any length. -/
theorem LineBuffer.consistent_of_tokens {buffer : LineBuffer} {state final : ScanState}
    {tokens : List Token} (h : buffer.tokens state = .ok (tokens, final))
    (hc : state.Consistent) : final.Consistent := by
  obtain ⟨scanner, hopened, hscan⟩ := bind_eq_ok.mp h
  obtain ⟨⟨acc, final⟩, hcollect, hret⟩ := bind_eq_ok.mp hscan
  obtain ⟨c, -, hscanner⟩ := bind_eq_ok.mp hopened
  cases hret
  refine LineScanner.consistent_of_collect hcollect ?_
  cases hscanner
  exact hc

namespace LineStates

/-! ## The invariant -/

/-- There are entries, the first of them is the state at the start of a document, those that
are known are consistent, and all of them can be held. -/
structure WellFormed (states : LineStates) : Prop where
  nonempty : states.entries ≠ []
  start : states.before 0 = some .start
  consistent : ∀ state, some state ∈ states.entries → state.Consistent
  holdable : states.entries.length ≤ maxEntries

theorem wellFormed_new : WellFormed new where
  nonempty := by decide
  start := rfl
  consistent := by
    intro state hmem
    obtain rfl := Option.some.inj (List.mem_singleton.mp hmem)
    exact ScanState.consistent_start
  holdable := by decide

/-- An edit makes up no states. -/
theorem mem_of_mem_edit {states : LineStates} (h : states.entries ≠ [])
    {line removed inserted : Nat} {state : ScanState}
    (hmem : some state ∈ (states.edit line removed inserted).entries) :
    some state ∈ states.entries := by
  obtain ⟨i, hi⟩ := List.mem_iff_getElem?.mp hmem
  rw [getElem?_edit rfl rfl h] at hi
  split at hi
  · exact List.mem_of_getElem? hi
  · split at hi
    · cases hi
    · exact List.mem_of_getElem? hi

/-- **An edit keeps states well formed.** -/
theorem WellFormed.edit {states : LineStates} (h : states.WellFormed)
    {line removed inserted : Nat}
    (room : states.countAfterEdit line removed inserted ≤ maxEntries) :
    (states.edit line removed inserted).WellFormed where
  nonempty := by
    have hpos := List.length_pos_iff.mpr h.nonempty
    have hsize := length_edit states line removed inserted h.nonempty
    unfold countAfterEdit lineCount at hsize
    rw [← List.length_pos_iff]
    dsimp only at hsize
    omega
  start := by
    rw [before, getElem?_edit rfl rfl h.nonempty, if_pos (Nat.zero_le _)]
    exact h.start
  consistent := fun state hmem => h.consistent state (mem_of_mem_edit h.nonempty hmem)
  holdable := by rwa [length_edit states line removed inserted h.nonempty]

section Refresh

variable {buffer : LineBuffer} {state : ScanState} {lines : List String}
  {entries result : List (Option ScanState)} {count : Nat}

/-- The loop keeps the number of entries. -/
theorem length_bufferedRefresh
    (h : bufferedRefresh buffer state lines entries = .ok (result, count)) :
    result.length = entries.length := by
  induction lines generalizing buffer state entries result count with
  | nil =>
    cases h
    rfl
  | cons line lines ih =>
    cases entries with
    | nil =>
      cases h
      rfl
    | cons entry entries =>
      rw [bufferedRefresh] at h
      obtain ⟨⟨tokens, next⟩, -, h⟩ := bind_eq_ok.mp h
      dsimp only at h
      split at h
      · cases h
        rfl
      · obtain ⟨⟨rest, count⟩, hrest, h⟩ := bind_eq_ok.mp h
        cases h
        exact congrArg (· + 1) (ih hrest)

/-- The loop leaves consistent states. -/
theorem consistent_bufferedRefresh
    (h : bufferedRefresh buffer state lines entries = .ok (result, count))
    (hstate : state.Consistent) (hentries : ∀ s, some s ∈ entries → s.Consistent) :
    ∀ s, some s ∈ result → s.Consistent := by
  induction lines generalizing buffer state entries result count with
  | nil =>
    cases h
    exact hentries
  | cons line lines ih =>
    cases entries with
    | nil =>
      cases h
      exact hentries
    | cons entry entries =>
      rw [bufferedRefresh] at h
      obtain ⟨⟨tokens, next⟩, htokens, h⟩ := bind_eq_ok.mp h
      dsimp only at h
      split at h
      · cases h
        exact hentries
      · obtain ⟨⟨rest, count⟩, hrest, h⟩ := bind_eq_ok.mp h
        cases h
        have hnext := LineBuffer.consistent_of_tokens htokens hstate
        intro s hmem
        rcases List.mem_cons.mp hmem with hs | hmem
        · obtain rfl := Option.some.inj hs
          exact hnext
        · exact ih hrest hnext (fun s hs => hentries s (List.mem_cons_of_mem entry hs)) s hmem

end Refresh

/-- Resizing makes up no states. -/
theorem mem_of_mem_resize {entries : List (Option ScanState)} {count : Nat} {state : ScanState}
    (h : some state ∈ resize entries count) : some state ∈ entries := by
  rcases List.mem_append.mp h with htake | hnone
  · exact List.mem_of_mem_take htake
  · cases List.eq_of_mem_replicate hnone

section Rescan

variable {states next : LineStates} {lines : List String} {line count : Nat}
  (scanned : states.bufferedRescan lines line = .ok (next, count))

include scanned

/-- What a scan leaves: entries up to some line, and those of the loop behind it. -/
theorem exists_of_bufferedRescan :
    ∃ first rest, first ≤ lines.length ∧
      next.entries = (resize states.entries (lines.length + 1)).take (first + 1) ++ rest ∧
      bufferedRefresh (.ofLine "")
        ((resize states.entries (lines.length + 1))[first]?.join.getD .start) (lines.drop first)
        ((resize states.entries (lines.length + 1)).drop (first + 1)) = .ok (rest, count) := by
  obtain ⟨⟨rest, count⟩, hrefresh, h⟩ := bind_eq_ok.mp scanned
  cases h
  have hle := lastKnown_le (resize states.entries (lines.length + 1)) (min line lines.length)
  exact ⟨_, rest, hle.trans (Nat.min_le_right _ _), rfl, hrefresh⟩

/-- **The size of a scan.**  Behind a scan there is an entry for each line and one more. -/
theorem length_bufferedRescan : next.entries.length = lines.length + 1 := by
  obtain ⟨first, rest, hle, hentries, hrefresh⟩ := exists_of_bufferedRescan scanned
  have hlen := length_bufferedRefresh hrefresh
  rw [List.length_drop, length_resize] at hlen
  rw [hentries, List.length_append, List.length_take, length_resize]
  omega

/-- **A scan keeps states well formed**, whatever its lines are. -/
theorem WellFormed.rescan (h : states.WellFormed) (room : lines.length < maxEntries) :
    next.WellFormed := by
  have hlen := length_bufferedRescan scanned
  obtain ⟨first, rest, hle, hentries, hrefresh⟩ := exists_of_bufferedRescan scanned
  have hpos := List.length_pos_iff.mpr h.nonempty
  have hold : ∀ s, some s ∈ resize states.entries (lines.length + 1) → s.Consistent :=
    fun s hs => h.consistent s (mem_of_mem_resize hs)
  refine ⟨?_, ?_, ?_, ?_⟩
  · rw [← List.length_pos_iff, hlen]
    exact Nat.succ_pos _
  · -- The first entry is neither cut off nor written.
    have hfirst : next.entries[0]? = states.entries[0]? := by
      rw [hentries, List.getElem?_append_left, List.getElem?_take, if_pos (Nat.succ_pos first),
        resize, List.getElem?_append_left, List.getElem?_take, if_pos (Nat.succ_pos _)]
      · rw [List.length_take]
        omega
      · rw [List.length_take, length_resize]
        omega
    rw [before, hfirst]
    exact h.start
  · intro state hmem
    rw [hentries] at hmem
    rcases List.mem_append.mp hmem with htake | hrest
    · exact hold state (List.mem_of_mem_take htake)
    · refine consistent_bufferedRefresh hrefresh ?_
        (fun s hs => hold s (List.mem_of_mem_drop hs)) state hrest
      cases hstate : (resize states.entries (lines.length + 1))[first]?.join with
      | none => exact ScanState.consistent_start
      | some state => exact hold state (List.mem_of_getElem? (Option.join_eq_some_iff.mp hstate))
  · rw [hlen]
    exact room

end Rescan

/-! ## Operations -/

/-- What a host can do with the states of lines. -/
inductive Operation where
  /-- The states of a document without lines in their place. -/
  | new
  /-- The states of a whole document in their place. -/
  | ofLines (lines : List String)
  /-- A scan of lines from one of them on. -/
  | rescan (lines : List String) (line : Nat)
  /-- An edit. -/
  | edit (line removed inserted : Nat)
  deriving DecidableEq, Repr

namespace Operation

/-- Carries out an operation. -/
def perform (states : LineStates) : Operation → Except Fault LineStates
  | new => .ok .new
  | ofLines lines => bufferedOfLines lines
  | rescan lines line => do
    let (next, _) ← states.bufferedRescan lines line
    return next
  | edit line removed inserted => states.checkedEdit line removed inserted

/-- Carries out an operation with every access checked. -/
def perform? (states : LineStates) : Operation → Option LineStates
  | new => some .new
  | ofLines lines => (LineStates.new.rescan? lines 0).map Prod.fst
  | rescan lines line => (states.rescan? lines line).map Prod.fst
  | edit line removed inserted => states.edit? line removed inserted

/-- The lines that an operation scans. -/
def lines : Operation → List String
  | ofLines lines | rescan lines _ => lines
  | new | edit .. => []

/-- The number of lines there should be after an operation. -/
def linesAfter (states : LineStates) : Operation → Nat
  | new => 0
  | ofLines lines | rescan lines _ => lines.length
  | edit line removed inserted =>
    let first := min line states.lineCount
    let last := min (first + removed) states.lineCount
    states.lineCount - (last - first) + inserted

/-- The states after an operation can be held, and its lines fit into a buffer. -/
def Fits (states : LineStates) (operation : Operation) : Prop :=
  operation.linesAfter states < maxEntries ∧
    ∀ line ∈ operation.lines, line.utf8ByteSize < 2 ^ 32

instance (states : LineStates) (operation : Operation) : Decidable (operation.Fits states) :=
  inferInstanceAs (Decidable (_ ∧ _))

variable {states next : LineStates} {operation : Operation}

/-- An edit leads to one entry more than lines. -/
theorem countAfterEdit_eq (h : states.entries ≠ []) (line removed inserted : Nat) :
    states.countAfterEdit line removed inserted
      = (edit line removed inserted).linesAfter states + 1 := by
  have hpos := List.length_pos_iff.mpr h
  unfold countAfterEdit linesAfter lineCount
  dsimp only
  omega

/-- A result of a scan is well formed and has the lines of the scan. -/
theorem wellFormed_perform_rescan {lines : List String} {line : Nat} (h : states.WellFormed)
    (room : lines.length < maxEntries) (performed : (rescan lines line).perform states = .ok next) :
    next.WellFormed ∧ next.lineCount = lines.length := by
  obtain ⟨⟨next, count⟩, hscanned, hret⟩ := bind_eq_ok.mp performed
  cases hret
  refine ⟨h.rescan hscanned room, ?_⟩
  rw [lineCount, length_bufferedRescan hscanned]
  rfl

/-- **One operation.**  A result of an operation on well-formed states is well formed, and its
lines are as many as there should be. -/
theorem wellFormed_perform (h : states.WellFormed)
    (room : operation.linesAfter states < maxEntries)
    (performed : operation.perform states = .ok next) :
    next.WellFormed ∧ next.lineCount = operation.linesAfter states := by
  cases operation with
  | new =>
    cases performed
    exact ⟨wellFormed_new, rfl⟩
  | ofLines lines =>
    -- A scan of a whole document is a scan of new states.
    exact wellFormed_perform_rescan wellFormed_new room performed
  | rescan lines line => exact wellFormed_perform_rescan h room performed
  | edit line removed inserted =>
    have hcount := countAfterEdit_eq h.nonempty line removed inserted
    have hroom : states.countAfterEdit line removed inserted ≤ maxEntries := by omega
    obtain rfl : states.edit line removed inserted = next :=
      Except.ok.inj ((if_pos hroom).symm.trans performed)
    refine ⟨h.edit hroom, ?_⟩
    rw [lineCount, length_edit _ _ _ _ h.nonempty, hcount]
    rfl

/-- No access of a scan fails. -/
theorem perform?_rescan (states : LineStates) (lines : List String) (line : Nat) :
    (rescan lines line).perform? states = ((rescan lines line).perform states).toOption := by
  rw [perform?, rescan?_eq, perform]
  cases states.bufferedRescan lines line with
  | error fault => rfl
  | ok scan => rfl

/-- **No access fails** where states are well formed. -/
theorem perform?_eq (h : states.WellFormed) (operation : Operation) :
    operation.perform? states = (operation.perform states).toOption := by
  cases operation with
  | new => rfl
  | ofLines lines => exact perform?_rescan LineStates.new lines 0
  | rescan lines line => exact perform?_rescan states lines line
  | edit line removed inserted =>
    have hword : states.lineCount ≤ maxWord := by
      have hlen := h.holdable
      unfold lineCount
      unfold maxEntries at hlen
      unfold maxWord
      omega
    exact edit?_eq h.nonempty hword line removed inserted

/-- **An operation has a result** where it fits. -/
theorem exists_perform (h : states.WellFormed) (fits : operation.Fits states) :
    ∃ next, operation.perform states = .ok next := by
  obtain ⟨room, hlines⟩ := fits
  cases operation with
  | new => exact ⟨_, rfl⟩
  | ofLines lines => exact ⟨_, bufferedOfLines_of_fits hlines⟩
  | rescan lines line =>
    have hscan : states.bufferedRescan lines line = _ := bufferedRescan_of_fits states hlines line
    refine ⟨(states.rescan lines line).1, ?_⟩
    rw [perform, hscan, ok_bind]
    rfl
  | edit line removed inserted =>
    have hcount := countAfterEdit_eq h.nonempty line removed inserted
    exact ⟨_, if_pos (by omega)⟩

end Operation

/-- Carries out operations one after the other.  A fault ends them. -/
def performAll (states : LineStates) : List Operation → Except Fault LineStates
  | [] => .ok states
  | operation :: operations => do
    let next ← operation.perform states
    next.performAll operations

/-- Carries out operations one after the other, with every access checked. -/
def performAll? (states : LineStates) : List Operation → Option LineStates
  | [] => some states
  | operation :: operations => do
    let next ← operation.perform? states
    next.performAll? operations

/-- Each operation fits where it is carried out. -/
def FitAll (states : LineStates) : List Operation → Prop
  | [] => True
  | operation :: operations =>
    operation.Fits states ∧ ∀ next, operation.perform states = .ok next → next.FitAll operations

/-- **Operations one after the other** have a result, and no access fails in them. -/
theorem exists_performAll {states : LineStates} {operations : List Operation}
    (h : states.WellFormed) (fits : states.FitAll operations) :
    ∃ final, states.performAll operations = .ok final ∧
      states.performAll? operations = some final ∧ final.WellFormed := by
  induction operations generalizing states with
  | nil => exact ⟨states, rfl, rfl, h⟩
  | cons operation operations ih =>
    obtain ⟨hfits, hrest⟩ := fits
    obtain ⟨next, hnext⟩ := Operation.exists_perform h hfits
    have hwell := (Operation.wellFormed_perform h hfits.1 hnext).1
    obtain ⟨final, hfinal, hfinal?, hkept⟩ := ih hwell (hrest next hnext)
    refine ⟨final, ?_, ?_, hkept⟩
    · rw [performAll, hnext, ok_bind]
      exact hfinal
    · rw [performAll?, Operation.perform?_eq h, hnext]
      exact hfinal?

/-- **Line states stay well formed.**  Any operations one after the other, with whatever
positions and lines, have a result, and no access or difference in them fails, as long as the
states can be held and each line fits into a buffer.  There are entries in the result, the
first of them is the state at the start of a document, and those that are known are
consistent.  Each operation keeps this, also with lines that do not fit, if it has a result,
and leaves as many lines as it should: none, those that it has scanned, or those before the
edit without the removed ones that there are and with the new ones. -/
theorem operations_keep_states_well_formed :
    (∀ operations : List Operation, new.FitAll operations →
      ∃ states, new.performAll operations = .ok states ∧
        new.performAll? operations = some states ∧ states.WellFormed) ∧
    ∀ {states next : LineStates} {operation : Operation}, states.WellFormed →
      operation.linesAfter states < maxEntries → operation.perform states = .ok next →
      next.WellFormed ∧ next.lineCount = operation.linesAfter states :=
  ⟨fun _ fits => exists_performAll wellFormed_new fits,
    fun h room performed => Operation.wellFormed_perform h room performed⟩

/-- An edit behind the end that removes as many lines as a word can say, and a scan of other
lines. -/
theorem operations_keep_states_well_formed_past_end :
    ∃ states next, new.performAll [.ofLines ["(* a", "b"], .edit 7 18446744073709551615 3]
        = .ok states ∧ states.WellFormed ∧ states.lineCount = 5 ∧
      Operation.perform states (.rescan ["\"x", "y"] 9) = .ok next ∧ next.WellFormed ∧
      next.lineCount = 2 := by
  have hopened : Operation.perform new (.ofLines ["(* a", "b"])
      = .ok ⟨[some .start, some ⟨.comment, 1, true⟩, some ⟨.comment, 1, true⟩]⟩ := by
    decide +kernel
  have hfits : new.FitAll [.ofLines ["(* a", "b"], .edit 7 18446744073709551615 3] := by
    refine ⟨by decide, fun next hnext => ?_⟩
    rw [hopened] at hnext
    cases hnext
    exact ⟨by decide, fun _ _ => trivial⟩
  obtain ⟨states, hstates, -, hwell⟩ := operations_keep_states_well_formed.1 _ hfits
  have hedited : new.performAll [.ofLines ["(* a", "b"], .edit 7 18446744073709551615 3]
      = .ok ⟨[some .start, some ⟨.comment, 1, true⟩, some ⟨.comment, 1, true⟩, none, none,
          some ⟨.comment, 1, true⟩]⟩ := by
    decide +kernel
  rw [hedited] at hstates
  cases hstates
  have hscanned : Operation.perform ⟨[some .start, some ⟨.comment, 1, true⟩,
      some ⟨.comment, 1, true⟩, none, none, some ⟨.comment, 1, true⟩]⟩ (.rescan ["\"x", "y"] 9)
        = .ok ⟨[some .start, some ⟨.comment, 1, true⟩, some ⟨.comment, 1, true⟩]⟩ := by
    decide +kernel
  obtain ⟨hnext, hcount⟩ := operations_keep_states_well_formed.2 hwell (by decide) hscanned
  exact ⟨_, _, hedited, hwell, rfl, hscanned, hnext, hcount⟩

/-! ## Operations without a result -/

/-- Blanks and a character that the largest position cuts. -/
theorem bytes_cut {n : Nat} (hn : n + 1 = LineBuffer.maxLength) :
    (bytes (String.ofList (List.replicate n ' ' ++ ['é']))).take LineBuffer.maxLength
      = List.replicate n 0x20 ++ [0xC3] := by
  have hbytes : bytes (String.ofList (List.replicate n ' ' ++ ['é']))
      = List.replicate n 0x20 ++ [0xC3, 0xA9] := by
    rw [bytes_ofList, List.flatMap_append, List.flatMap_replicate]
    show (List.replicate n [0x20]).flatten ++ [0xC3, 0xA9] = _
    rw [List.flatten_replicate_singleton]
  have htake : (List.replicate n (0x20 : Byte) ++ [0xC3]).length = LineBuffer.maxLength := by
    rw [List.length_append, List.length_replicate]
    exact hn
  rw [hbytes, List.append_cons]
  exact List.take_left' htake

/-- A fault behind the first token of a line is one of the line. -/
theorem collect_of_fault {c : Cursor} {state : ScanState} {bs : List Byte} {step : Step}
    {fault : Fault} (h : c.Before bs) (hs : step? state bs = some step)
    (hbehind : (c.behind step.token.length).Before step.rest)
    (hnext : LineScanner.next ⟨c, state⟩ = .ok (LineScanner.took c step))
    (hfault : LineScanner.next ⟨c.behind step.token.length, step.state⟩ = .error fault)
    (acc : Array Token) : LineScanner.collect acc ⟨c, state⟩ = .error fault := by
  have hlt : LineScanner.weight ⟨c.behind step.token.length, step.state⟩
      < LineScanner.weight ⟨c, state⟩ := by
    rw [LineScanner.weight_eq h, LineScanner.weight_eq hbehind]
    exact weight_step?_lt hs
  rw [LineScanner.collect, hnext, ok_bind]
  dsimp only [LineScanner.took]
  rw [if_neg (tag_of_step? hs), if_pos hlt, LineScanner.collect, hfault]
  rfl

/-- **A line that is cut in the middle of a character** has no tokens. -/
theorem tokenizeLine_cut {n : Nat} (hpos : 0 < n) (hn : n + 1 = LineBuffer.maxLength) :
    tokenizeLine .start (String.ofList (List.replicate n ' ' ++ ['é']))
      = .error .positionOverflow := by
  have hat := before_take (String.ofList (List.replicate n ' ' ++ ['é']))
  rw [bytes_cut hn] at hat
  generalize String.ofList (List.replicate n ' ' ++ ['é']) = line at hat ⊢
  have hfull : (LineBuffer.ofLine line).length = Cursor.maxPos := by
    have hsum := hat.length_eq
    rw [List.length_append, List.length_replicate, Nat.zero_add] at hsum
    exact hsum.trans hn
  have hrun : run isBlank (List.replicate n 0x20 ++ [0xC3]) = n := by
    rw [run, List.takeWhile_append_of_pos fun x hx => by rw [List.eq_of_mem_replicate hx]; rfl]
    simp [show isBlank 0xC3 = false from rfl]
  -- The blanks are a token, and behind them there is a byte without the rest of its character.
  obtain ⟨m, rfl⟩ := Nat.exists_eq_add_of_le' hpos
  have hrest : (List.replicate (m + 1) (0x20 : Byte) ++ [0xC3]).drop (m + 1) = [0xC3] :=
    List.drop_left' List.length_replicate
  have hbehind := hat.behind (show m + 1 ≤ _ by simp)
  rw [hrest] at hbehind
  rw [List.replicate_succ, List.cons_append] at hat hrun hrest
  have hs := step?_of_isBlank ScanState.start (List.replicate m 0x20 ++ [0xC3])
    (show isBlank 0x20 = true from rfl)
  rw [hrun, Step.take, hrest] at hs
  have hnext := LineScanner.next_of_whole hat (fun _ => Nat.le_add_left 1 _) hs
  have hcut : LineScanner.next ⟨(⟨LineBuffer.ofLine line, 0⟩ : Cursor).behind (m + 1), .start⟩
      = .error .positionOverflow := LineScanner.next_of_cut hbehind rfl (by decide) hfull
  unfold tokenizeLine LineScanner.ofLine LineScanner.ofBuffer
  rw [cursor_of_before hat]
  simp only [ok_bind, pure_bind]
  rw [collect_of_fault hat hs hbehind hnext hcut]
  rfl

/-- **Operations without a result.**  The states of so many lines as this edit puts in could
not be held, although their number is a word; and this line is cut off behind the first
byte of its last character. -/
theorem operations_with_faults :
    (new.countAfterEdit 0 0 2305843009213693952 ≤ maxWord ∧
      new.performAll [.edit 0 0 2305843009213693952] = .error .tooManyStates) ∧
    new.performAll [.rescan [String.ofList (List.replicate 4294967294 ' ' ++ ['é'])] 0]
      = .error .positionOverflow := by
  refine ⟨⟨by decide, ?_⟩, ?_⟩
  · have hmany : ¬ new.countAfterEdit 0 0 2305843009213693952 ≤ maxEntries := by decide
    rw [performAll, Operation.perform, checkedEdit, if_neg hmany]
    rfl
  · have hcut : tokenizeLine .start (String.ofList (List.replicate 4294967294 ' ' ++ ['é']))
        = .error .positionOverflow := tokenizeLine_cut (Nat.succ_pos _) rfl
    generalize String.ofList (List.replicate 4294967294 ' ' ++ ['é']) = line at hcut
    have hrefresh :
        bufferedRefresh (.ofLine "") .start [line] [none] = .error .positionOverflow := by
      rw [bufferedRefresh]
      dsimp only
      rw [LineBuffer.tokens_reset, hcut]
      rfl
    have hscan : new.bufferedRescan [line] 0 = .error .positionOverflow := by
      show bufferedRefresh (.ofLine "") .start [line] [none] >>= _ = _
      rw [hrefresh]
      rfl
    rw [performAll, Operation.perform, hscan]
    rfl

end LineStates

end OCamlHighlight
