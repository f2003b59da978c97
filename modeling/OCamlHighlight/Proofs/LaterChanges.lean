/-
# Changes below the place where a scan stops

A scan goes on until a line leaves the state that is remembered for the next one.  It
compares states and never looks at the lines further down, so it does not see that one of
them has changed as well.  What it leaves behind belongs to two documents: down to the
stop to the new one, and below it to the old one.

* `Divided` says this of the entries, and `divided_rescan` proves it of a scan.
* `Divided.eq_ofLines_iff` is the condition under which the entries are right all the same:
  every line from the stop on carries one old state into the next.
* `rescan_misses_later_change`: a comment opened below the stop is missed.
-/
import OCamlHighlight.Proofs.PendingChanges
import OCamlHighlight.Proofs.RescanCount

namespace OCamlHighlight.LineStates

/-- One line more is one step more. -/
theorem stateBefore_succ {lines : List String} {i : Nat} {text : String}
    (h : lines[i]? = some text) : stateBefore lines (i + 1) = (stateBefore lines i).after text :=
  ScanState.afterAll_take_succ _ h

/-- Where two documents are the same, so are the states before their lines. -/
theorem stateBefore_congr {old new : List String} {line : Nat}
    (above : ∀ i < line, old[i]? = new[i]?) : stateBefore old line = stateBefore new line := by
  have htake : old.take line = new.take line := by
    apply List.ext_getElem?
    intro i
    rw [List.getElem?_take, List.getElem?_take]
    by_cases hi : i < line
    · rw [if_pos hi, if_pos hi, above i hi]
    · rw [if_neg hi, if_neg hi]
  unfold stateBefore
  rw [htake]

/-- A scan starts from the last line at the latest. -/
theorem rescan_min (states : LineStates) (lines : List String) (line : Nat) :
    states.rescan lines (min line lines.length) = states.rescan lines line := by
  unfold rescan
  rw [Nat.min_assoc, Nat.min_self]

/-! ## Entries of two documents -/

/-- Down to `stop` the entries are the states of the new document, and below it they are
those of the old one. -/
structure Divided (old new : List String) (stop : Nat) (states : LineStates) : Prop where
  length_eq : states.entries.length = new.length + 1
  above : ∀ i ≤ stop, states.entries[i]? = some (some (stateBefore new i))
  below : ∀ i, stop < i → states.entries[i]? = (ofLines old).entries[i]?

section Divided

variable {old new : List String} {stop : Nat} {states : LineStates}
  (hlen : old.length = new.length)

include hlen

/-- Divided entries are those of the new document if the old states below the stop are the
new ones. -/
theorem Divided.eq_ofLines (h : Divided old new stop states)
    (hbelow : ∀ i, stop < i → i ≤ new.length → stateBefore old i = stateBefore new i) :
    states = ofLines new := by
  have hentries : states.entries = (ofLines new).entries := by
    apply List.ext_getElem?
    intro i
    rcases Nat.lt_or_ge new.length i with hi | hi
    · rw [List.getElem?_eq_none (by rw [h.length_eq]; omega),
        List.getElem?_eq_none (by rw [(tracks_ofLines new).length_eq]; omega)]
    · rw [getElem?_ofLines hi]
      rcases Nat.lt_or_ge stop i with hlt | hle
      · rw [h.below i hlt, getElem?_ofLines (hlen ▸ hi), hbelow i hlt hi]
      · exact h.above i hle
  exact congrArg LineStates.mk hentries

/-- **When divided entries are right.**  If the documents are in the same state at the stop,
the entries are those of the new document just if every line of it from there on carries the
old state before it into the old state behind it. -/
theorem Divided.eq_ofLines_iff (h : Divided old new stop states)
    (meets : stop < new.length → stateBefore old stop = stateBefore new stop) :
    states = ofLines new ↔ ∀ i text, stop ≤ i → new[i]? = some text →
      (stateBefore old i).after text = stateBefore old (i + 1) := by
  constructor
  · intro heq i text hle htext
    have hi : i < new.length := (List.getElem?_eq_some_iff.mp htext).1
    -- From the stop on the old states are the new ones.
    have hsame : ∀ j, stop ≤ j → j ≤ new.length → stop < new.length →
        stateBefore old j = stateBefore new j := by
      intro j hj hjlen hstop
      rcases Nat.eq_or_lt_of_le hj with rfl | hlt
      · exact meets hstop
      · have hentry := h.below j hlt
        rw [heq, getElem?_ofLines hjlen, getElem?_ofLines (hlen ▸ hjlen)] at hentry
        exact (Option.some.inj (Option.some.inj hentry)).symm
    rw [hsame i hle hi.le (by omega), hsame (i + 1) (by omega) hi (by omega),
      stateBefore_succ htext]
  · intro hcarry
    have hsame : ∀ n, stop + n ≤ new.length → stop < new.length →
        stateBefore old (stop + n) = stateBefore new (stop + n) := by
      intro n hn hstop
      induction n with
      | zero => exact meets hstop
      | succ n ih =>
        have htext : new[stop + n]? = some new[stop + n] := List.getElem?_eq_getElem hn
        rw [← Nat.add_assoc, ← hcarry _ _ (Nat.le_add_right stop n) htext,
          stateBefore_succ htext, ih (by omega)]
    refine h.eq_ofLines hlen fun i hlt hi => ?_
    obtain ⟨n, rfl⟩ := Nat.exists_eq_add_of_le hlt.le
    exact hsame n hi (by omega)

end Divided

/-! ## One scan -/

section Rescan

variable {old new : List String} {line : Nat} (hlen : old.length = new.length)
  (hline : line ≤ new.length) (habove : ∀ i < line, old[i]? = new[i]?)

include hlen hline

/-- The states of a whole document are known, so that a scan starts from its line. -/
theorem lastKnown_ofLines : lastKnown (ofLines old).entries (min line new.length) = line := by
  have h := lastKnown_of_known (tracks_ofLines old).known line
  rw [hlen] at h
  rw [h, Nat.min_eq_left hline]

include habove

/-- The state from which a scan starts is the same in both documents. -/
theorem getElem?_ofLines_start :
    (ofLines old).entries[line]? = some (some (stateBefore new line)) := by
  rw [getElem?_ofLines (hlen ▸ hline), stateBefore_congr habove]

/-- **Where a scan of a changed document stops.** -/
theorem isCount_rescan_ofLines :
    IsCount new line
      (fun k => 1 ≤ k ∧ k ≤ new.length - line ∧
        stateBefore new (line + k) = stateBefore old (line + k))
      ((ofLines old).rescan new line).2 := by
  have hcount := isCount_rescan ((tracks_ofLines old).length_eq.trans (congrArg (· + 1) hlen))
    (lastKnown_ofLines hlen hline) (getElem?_ofLines_start hlen hline habove)
  have hcondition : ∀ k, (1 ≤ k ∧ k ≤ new.length - line ∧
      (ofLines old).entries[line + k]? = some (some (stateBefore new (line + k)))) ↔
        1 ≤ k ∧ k ≤ new.length - line ∧
          stateBefore new (line + k) = stateBefore old (line + k) := by
    intro k
    refine and_congr_right fun _ => and_congr_right fun hle => ?_
    rw [getElem?_ofLines (by omega), Option.some_inj, Option.some_inj, eq_comm]
  rwa [funext fun k => propext (hcondition k)] at hcount

/-- **What a scan of a changed document leaves behind.** -/
theorem divided_rescan :
    Divided old new (line + ((ofLines old).rescan new line).2)
      ((ofLines old).rescan new line).1 := by
  have hentries := (tracks_ofLines old).length_eq.trans (congrArg (· + 1) hlen)
  have hstate := getElem?_ofLines_start hlen hline habove
  have hscan := rescanned_rescan hentries (lastKnown_ofLines hlen hline) hstate
  refine ⟨hscan.length_eq, fun i hi => ?_, fun i hi => hscan.kept i (.inr hi)⟩
  rcases Nat.lt_or_ge i line with hlt | hge
  · rw [hscan.kept i (.inl hlt.le), getElem?_ofLines (by omega),
      stateBefore_congr fun j hj => habove j (hj.trans hlt)]
  · obtain ⟨n, rfl⟩ := Nat.exists_eq_add_of_le hge
    rw [hscan.getElem?_fresh hstate (by omega), ← stateBefore_add]

end Rescan

/-- **A scan is right down to the place where it stops.**  Let a document and a changed one
have the same number of lines, and the same lines above the one that is scanned from.  The
scan passes the lines down to the first place where the documents are in the same state, or
all of them.  Down to this place the entries are those of the new document, and below it
those of the old one.  So they are right altogether just if every line below carries one old
state into the next, and above all if no line below has changed.  Where the lines fit into a
buffer, these are the results of the checked operations. -/
theorem rescan_correct_to_stop (old new : List String) (line : Nat)
    (hlen : old.length = new.length) (habove : ∀ i < line, old[i]? = new[i]?) :
    let first := min line new.length
    let scan := (ofLines old).rescan new line
    let stop := first + scan.2
    IsCount new first
        (fun k => 1 ≤ k ∧ k ≤ new.length - first ∧
          stateBefore new (first + k) = stateBefore old (first + k)) scan.2 ∧
      Divided old new stop scan.1 ∧
      (scan.1 = ofLines new ↔ ∀ i text, stop ≤ i → new[i]? = some text →
        (stateBefore old i).after text = stateBefore old (i + 1)) ∧
      ((∀ i, stop ≤ i → old[i]? = new[i]?) → scan.1 = ofLines new) ∧
      ((∀ text ∈ old ++ new, text.utf8ByteSize < 2 ^ 32) →
        bufferedOfLines old = .ok (ofLines old) ∧
        bufferedOfLines new = .ok (ofLines new) ∧
        (ofLines old).bufferedRescan new line = .ok scan) := by
  intro first scan stop
  have hfirst : first ≤ new.length := Nat.min_le_right _ _
  have habove' : ∀ i < first, old[i]? = new[i]? :=
    fun i hi => habove i (hi.trans_le (Nat.min_le_left _ _))
  have hcount := isCount_rescan_ofLines hlen hfirst habove'
  have hdivided := divided_rescan hlen hfirst habove'
  rw [rescan_min] at hcount hdivided
  have hiff : scan.1 = ofLines new ↔ ∀ i text, stop ≤ i → new[i]? = some text →
      (stateBefore old i).after text = stateBefore old (i + 1) := by
    refine hdivided.eq_ofLines_iff hlen fun hstop => ?_
    -- A scan that stops above the end has met the old document.
    rcases hcount with hleast | ⟨-, hall⟩
    · exact hleast.1.2.2.symm
    · have hcount' : scan.2 = new.length - first := hall
      have hstop' : first + scan.2 < new.length := hstop
      omega
  refine ⟨hcount, hdivided, hiff, fun hbelow => hiff.mpr fun i text hle htext => ?_, fun fits => ?_⟩
  · exact (stateBefore_succ ((hbelow i hle).trans htext)).symm
  · refine ⟨bufferedOfLines_of_fits fun text hmem => fits text (List.mem_append_left _ hmem),
      bufferedOfLines_of_fits fun text hmem => fits text (List.mem_append_right _ hmem), ?_⟩
    exact bufferedRescan_of_fits _ (fun text hmem => fits text (List.mem_append_right _ hmem)) line

/-- The line behind the one that is scanned from has changed too, and is passed as well: the
comment is closed one line earlier and opened again. -/
theorem rescan_correct_to_stop_reopened :
    ((ofLines ["(* a", "b", "c *)", "d"]).rescan ["(* a", "b *)", "(* c *)", "d"] 1).1
        = ofLines ["(* a", "b *)", "(* c *)", "d"] ∧
      (ofLines ["(* a", "b", "c *)", "d"]).bufferedRescan ["(* a", "b *)", "(* c *)", "d"] 1
        = .ok (ofLines ["(* a", "b *)", "(* c *)", "d"], 2) := by
  have hcount : ((ofLines ["(* a", "b", "c *)", "d"]).rescan
      ["(* a", "b *)", "(* c *)", "d"] 1).2 = 2 := by
    decide +kernel
  obtain ⟨-, -, -, hright, hchecked⟩ := rescan_correct_to_stop ["(* a", "b", "c *)", "d"]
    ["(* a", "b *)", "(* c *)", "d"] 1 rfl (by decide)
  have hscan := hright fun i hi => ?_
  · obtain ⟨-, -, hrescan⟩ := hchecked (by decide)
    exact ⟨hscan, hrescan.trans (congrArg Except.ok (Prod.ext hscan hcount))⟩
  · rw [hcount] at hi
    obtain ⟨i, rfl⟩ := Nat.exists_eq_add_of_le' (show 3 ≤ i from hi)
    rfl

/-- **A change below the stop is missed.**  The line that is scanned from leaves the state
that is remembered for the next line, which opens a comment now.  Nothing above it has
changed, and the states are still those of the old document. -/
theorem rescan_misses_later_change :
    ["a", "b"].length = ["a", "(* b"].length ∧
      (∀ i < 0, ["a", "b"][i]? = ["a", "(* b"][i]?) ∧
      ∃ states scan fresh, bufferedOfLines ["a", "b"] = .ok states ∧
        states.bufferedRescan ["a", "(* b"] 0 = .ok scan ∧
        bufferedOfLines ["a", "(* b"] = .ok fresh ∧
        scan = (states, 1) ∧ scan.1 ≠ fresh ∧
        scan.1.after 1 = some ⟨.base, 0, false⟩ ∧ fresh.after 1 = some ⟨.comment, 1, false⟩ := by
  refine ⟨rfl, by decide, ⟨[some .start, some ⟨.base, 0, false⟩, some ⟨.base, 0, false⟩]⟩, _,
    ⟨[some .start, some ⟨.base, 0, false⟩, some ⟨.comment, 1, false⟩]⟩, ?_, ?_, ?_, rfl, ?_⟩
  · decide +kernel
  · decide +kernel
  · decide +kernel
  · decide

end OCamlHighlight.LineStates
