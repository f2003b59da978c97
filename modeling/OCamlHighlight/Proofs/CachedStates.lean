/-
# What a scan does to the remembered states

The states of a document are right when the first of them is the state at the
start of a document and every line carries the state before it into the state
behind it.  What it is that carries one state into the other stays open here: the
scan of a whole line, or one through a buffer that has not ended in a fault.

* `Refreshed` says all that one run of the loop does to the entries behind it, and
  `Rescanned` says the same of a scan.
* `Settled` is the local condition: one line and the entries on both sides of
  it.  A scan settles every line that it passes, and never unsettles another
  (`Rescanned.settled_of_settled`).
* `Tracks` collects the local conditions of all lines but some pending ones.
  With no line pending it determines the entries (`Tracks.eq`).
* `rescanned_rescan` and `tracks_ofLines` are about scans of whole lines.
-/
import OCamlHighlight.LineStates

namespace OCamlHighlight

/-- The state behind several lines, the first of which is entered in the given
state. -/
def ScanState.afterAll (state : ScanState) (lines : List String) : ScanState :=
  lines.foldl ScanState.after state

@[simp] theorem ScanState.afterAll_nil (state : ScanState) : state.afterAll [] = state := rfl

@[simp] theorem ScanState.afterAll_cons (state : ScanState) (line : String)
    (lines : List String) :
    state.afterAll (line :: lines) = (state.after line).afterAll lines := rfl

/-- One line more is one step more. -/
theorem ScanState.afterAll_take_succ (state : ScanState) {lines : List String} {n : Nat}
    {line : String} (h : lines[n]? = some line) :
    state.afterAll (lines.take (n + 1)) = (state.afterAll (lines.take n)).after line := by
  rw [List.take_add_one, h, Option.toList_some]
  simp only [ScanState.afterAll, List.foldl_append, List.foldl_cons, List.foldl_nil]

/-- Whether a line that is entered in the first state leaves the second one behind. -/
abbrev LineStep := ScanState → String → ScanState → Prop

/-- The scan of the whole line does. -/
def LineStep.whole : LineStep := fun state line next => state.after line = next

theorem LineStep.whole_after (state : ScanState) (line : String) :
    LineStep.whole state line (state.after line) := rfl

/-- A line leaves one state behind at most. -/
def LineStep.Unique (step : LineStep) : Prop :=
  ∀ state line next next', step state line next → step state line next' → next = next'

namespace LineStates

variable {step : LineStep} {lines : List String} {states next : LineStates}

/-! ## Lines that carry one entry into the next -/

/-- A line is settled when the entry before it is known and the entry behind it
is the state in which the line leaves it. -/
def Settled (step : LineStep) (lines : List String) (entries : List (Option ScanState))
    (i : Nat) : Prop :=
  ∃ line state next, lines[i]? = some line ∧ entries[i]? = some (some state) ∧
    step state line next ∧ entries[i + 1]? = some (some next)

/-- Whether a line is settled depends on the line and on two entries. -/
theorem Settled.congr {lines' : List String} {entries entries' : List (Option ScanState)}
    {i j : Nat} (h : Settled step lines entries i) (hline : lines'[j]? = lines[i]?)
    (hbefore : entries'[j]? = entries[i]?) (hbehind : entries'[j + 1]? = entries[i + 1]?) :
    Settled step lines' entries' j := by
  obtain ⟨line, state, next, h1, h2, hstep, h3⟩ := h
  exact ⟨line, state, next, hline.trans h1, hbefore.trans h2, hstep, hbehind.trans h3⟩

/-! ## One run of the loop -/

/-- **What the loop does.**  It has settled the first `count` lines, of which the first
is entered in the given state, and kept the entries behind them.  If it stopped before the
last line, the entry at which it stopped held the right state already, and no entry before
that one did. -/
structure Refreshed (step : LineStep) (state : ScanState) (lines : List String)
    (entries result : List (Option ScanState)) (count : Nat) : Prop where
  count_le : count ≤ lines.length
  length_eq : result.length = entries.length
  settled : ∀ i < count, Settled step lines (some state :: result) i
  kept : ∀ i, count ≤ i → result[i]? = entries[i]?
  stopped : count < lines.length → ∃ i, count = i + 1 ∧ entries[i]? = result[i]?
  passed : ∀ i, i + 1 < count → entries[i]? ≠ result[i]?

section Loop

variable {state behind : ScanState} {line : String} {entry : Option ScanState}
  {entries result : List (Option ScanState)} {count : Nat}

/-- Where there are no lines nothing is done. -/
theorem Refreshed.nil (step : LineStep) (state : ScanState) : Refreshed step state [] [] [] 0 where
  count_le := Nat.le_refl 0
  length_eq := rfl
  settled := by simp
  kept := fun _ _ => rfl
  stopped := by simp
  passed := by simp

/-- A loop that finds the right state behind its first line stops there. -/
theorem Refreshed.stop (hstep : step state line behind) (lines : List String)
    (entries : List (Option ScanState)) :
    Refreshed step state (line :: lines) (some behind :: entries) (some behind :: entries) 1 where
  count_le := by simp
  length_eq := rfl
  settled := by
    intro i hi
    obtain rfl : i = 0 := by omega
    exact ⟨line, state, behind, rfl, rfl, hstep, rfl⟩
  kept := fun _ _ => rfl
  stopped := fun _ => ⟨0, rfl, rfl⟩
  passed := by
    intro i hi
    omega

/-- A loop that finds another state behind its first line goes on from there. -/
theorem Refreshed.cons (hstep : step state line behind) (differs : entry ≠ some behind)
    (rest : Refreshed step behind lines entries result count) :
    Refreshed step state (line :: lines) (entry :: entries) (some behind :: result)
      (count + 1) where
  count_le := by
    have := rest.count_le
    simp only [List.length_cons]
    omega
  length_eq := by simp only [List.length_cons, rest.length_eq]
  settled := by
    intro i hi
    cases i with
    | zero => exact ⟨line, state, behind, rfl, rfl, hstep, rfl⟩
    | succ i => exact (rest.settled i (by omega)).congr rfl rfl rfl
  kept := by
    intro i hi
    obtain ⟨i, rfl⟩ : ∃ j, i = j + 1 := ⟨i - 1, by omega⟩
    exact rest.kept i (by omega)
  stopped := by
    intro h
    simp only [List.length_cons] at h
    obtain ⟨i, hi, hstop⟩ := rest.stopped (by omega)
    exact ⟨i + 1, by omega, hstop⟩
  passed := by
    intro i hi
    cases i with
    | zero => simpa using differs
    | succ i => exact rest.passed i (by omega)

end Loop

/-- `refresh` does what `Refreshed` says. -/
theorem refreshed_refresh (lines : List String) : ∀ (state : ScanState)
    (entries : List (Option ScanState)), entries.length = lines.length →
      Refreshed .whole state lines entries (refresh state lines entries).1
        (refresh state lines entries).2 := by
  induction lines with
  | nil =>
    intro state entries hlen
    obtain rfl := List.length_eq_zero_iff.mp hlen
    exact .nil .whole state
  | cons line lines ih =>
    intro state entries hlen
    cases entries with
    | nil => simp at hlen
    | cons entry entries =>
      have hlen' : entries.length = lines.length := by simpa using hlen
      by_cases hentry : entry = some (state.after line)
      · subst hentry
        simpa only [refresh, if_pos] using
          Refreshed.stop (LineStep.whole_after state line) lines entries
      · simpa only [refresh, if_neg hentry] using
          Refreshed.cons (LineStep.whole_after state line) hentry (ih _ entries hlen')

/-! ## Where a scan starts -/

/-- The last known state is found behind the unknown ones. -/
theorem lastKnown_eq {entries : List (Option ScanState)} {first line : Nat} (hle : first ≤ line)
    (known : (entries[first]?.join).isSome)
    (unknown : ∀ i, first < i → i ≤ line → entries[i]?.join = none) :
    lastKnown entries line = first := by
  induction line with
  | zero =>
    obtain rfl : first = 0 := by omega
    rfl
  | succ line ih =>
    rw [lastKnown]
    rcases Nat.eq_or_lt_of_le hle with heq | hlt
    · rw [heq] at known
      rw [if_pos known, heq]
    · rw [unknown (line + 1) hlt (Nat.le_refl _)]
      simp only [Option.isSome_none, Bool.false_eq_true, if_false]
      exact ih (by omega) (fun i h1 h2 => unknown i h1 (by omega))

/-- Entries that have the right number already stay as they are. -/
theorem resize_of_length_eq {entries : List (Option ScanState)} {count : Nat}
    (h : entries.length = count) : resize entries count = entries := by
  subst h
  simp [resize]

/-! ## One scan -/

/-- **What a scan does.**  From the line `first` on it has settled `count` lines, and it has
kept every entry outside of these.  If it stopped before the last line, the entry at which it
stopped held the right state already, and no entry before that one did. -/
structure Rescanned (step : LineStep) (lines : List String) (states next : LineStates)
    (first count : Nat) : Prop where
  length_eq : next.entries.length = lines.length + 1
  add_count_le : first + count ≤ lines.length
  settled : ∀ i, first ≤ i → i < first + count → Settled step lines next.entries i
  kept : ∀ i, i ≤ first ∨ first + count < i → next.entries[i]? = states.entries[i]?
  stopped : first + count < lines.length →
    0 < count ∧ states.entries[first + count]? = next.entries[first + count]?
  passed : ∀ i, first < i → i < first + count → states.entries[i]? ≠ next.entries[i]?

/-- **One scan is one run of the loop** behind the entry from which it starts. -/
theorem Refreshed.rescanned {first count : Nat} {state : ScanState}
    {rest : List (Option ScanState)} (hlen : states.entries.length = lines.length + 1)
    (hstate : states.entries[first]? = some (some state))
    (h : Refreshed step state (lines.drop first) (states.entries.drop (first + 1)) rest count) :
    Rescanned step lines states ⟨states.entries.take (first + 1) ++ rest⟩ first count := by
  have hlt : first < states.entries.length := (List.getElem?_eq_some_iff.mp hstate).1
  have htake : (states.entries.take (first + 1)).length = first + 1 := by
    rw [List.length_take]
    omega
  have habove : ∀ i ≤ first, (states.entries.take (first + 1) ++ rest)[i]?
      = states.entries[i]? := by
    intro i hi
    rw [List.getElem?_append_left (by omega), List.getElem?_take, if_pos (Nat.lt_succ_of_le hi)]
  have hbelow : ∀ n, (states.entries.take (first + 1) ++ rest)[first + (n + 1)]? = rest[n]? := by
    intro n
    rw [List.getElem?_append_right (by omega), htake]
    congr 1
    omega
  -- The loop counts entries from the one behind `first` on.
  have hdrop : ∀ n, (states.entries.drop (first + 1))[n]? = states.entries[first + (n + 1)]? := by
    intro n
    rw [List.getElem?_drop]
    congr 1
    omega
  have hcount := h.count_le
  have hrest := h.length_eq
  rw [List.length_drop] at hcount hrest
  refine ⟨?_, by omega, fun i hle hlt' => ?_, fun i hi => ?_, fun hstop => ?_, fun i h1 h2 => ?_⟩
  · rw [List.length_append, htake, hrest]
    omega
  · obtain ⟨n, rfl⟩ := Nat.exists_eq_add_of_le hle
    refine (h.settled n (by omega)).congr List.getElem?_drop.symm ?_ (hbelow n)
    cases n with
    | zero => exact (habove first (Nat.le_refl first)).trans hstate
    | succ n => exact hbelow n
  · rcases hi with hi | hi
    · exact habove i hi
    · obtain ⟨n, rfl⟩ : ∃ n, i = first + (n + 1) := ⟨i - first - 1, by omega⟩
      rw [hbelow, h.kept n (by omega), hdrop]
  · obtain ⟨n, rfl, heq⟩ := h.stopped (by rw [List.length_drop]; omega)
    exact ⟨Nat.succ_pos n, by rw [hbelow, ← hdrop, heq]⟩
  · obtain ⟨n, rfl⟩ : ∃ n, i = first + (n + 1) := ⟨i - first - 1, by omega⟩
    rw [hbelow, ← hdrop]
    exact h.passed n (by omega)

section Rescanned

variable {first count : Nat} (h : Rescanned step lines states next first count)

include h

/-- The entry at which a scan stops above the end is kept as well. -/
theorem Rescanned.getElem?_eq {i : Nat}
    (hi : i ≤ first ∨ first + count < i ∨ first + count = i ∧ i < lines.length) :
    next.entries[i]? = states.entries[i]? := by
  rcases hi with hi | hi | ⟨rfl, hlt⟩
  · exact h.kept i (.inl hi)
  · exact h.kept i (.inr hi)
  · exact (h.stopped hlt).2.symm

/-- A scan passes a line if there is one, and goes on as long as the entries
are unknown. -/
theorem Rescanned.lt_add_count {i : Nat} (hi : i < lines.length)
    (unknown : ∀ j, first < j → j ≤ i → states.entries[j]?.join = none) :
    i < first + count := by
  rcases Nat.lt_or_ge i (first + count) with hlt | hle
  · exact hlt
  obtain ⟨hpos, hstop⟩ := h.stopped (by omega)
  -- The entry at which the scan stopped is known.
  obtain ⟨_, _, behind, -, -, -, hbehind⟩ := h.settled (first + count - 1) (by omega) (by omega)
  rw [Nat.sub_add_cancel (by omega), ← hstop] at hbehind
  have hnone := unknown (first + count) (by omega) (by omega)
  rw [hbehind] at hnone
  cases hnone

/-- **A scan unsettles no line.** -/
theorem Rescanned.settled_of_settled {i : Nat} (hi : Settled step lines states.entries i) :
    Settled step lines next.entries i := by
  obtain ⟨_, _, _, hline, -⟩ := id hi
  have hlt : i < lines.length := (List.getElem?_eq_some_iff.mp hline).1
  by_cases hpass : first ≤ i ∧ i < first + count
  · exact h.settled i hpass.1 hpass.2
  · exact hi.congr rfl (h.getElem?_eq (by omega)) (h.getElem?_eq (by omega))

end Rescanned

/-! ## Entries that track a document -/

/-- The entries track a document up to some pending lines: there is one for
each line and one more, the first is the state at the start of a document, and
every line that is not pending is settled. -/
structure Tracks (step : LineStep) (lines : List String) (pending : Nat → Prop)
    (states : LineStates) : Prop where
  length_eq : states.entries.length = lines.length + 1
  start : states.entries[0]? = some (some .start)
  settled : ∀ i < lines.length, ¬ pending i → Settled step lines states.entries i

/-- Fewer pending lines make a stronger statement. -/
theorem Tracks.mono {pending pending' : Nat → Prop} (h : Tracks step lines pending states)
    (hle : ∀ i < lines.length, pending i → pending' i) : Tracks step lines pending' states :=
  ⟨h.length_eq, h.start, fun i hi hp => h.settled i hi fun hp' => hp (hle i hi hp')⟩

/-- A scan settles the pending lines that it passes. -/
theorem Tracks.rescanned {pending : Nat → Prop} {first count : Nat}
    (h : Tracks step lines pending states)
    (hscan : Rescanned step lines states next first count) :
    Tracks step lines (fun i => pending i ∧ ¬ (first ≤ i ∧ i < first + count)) next where
  length_eq := hscan.length_eq
  start := by rw [hscan.kept 0 (.inl (Nat.zero_le first)), h.start]
  settled := by
    intro i hi hp
    by_cases hpass : first ≤ i ∧ i < first + count
    · exact hscan.settled i hpass.1 hpass.2
    · exact hscan.settled_of_settled (h.settled i hi fun hpend => hp ⟨hpend, hpass⟩)

/-- **Tracked entries are determined.** -/
theorem Tracks.eq {states' : LineStates} (unique : LineStep.Unique step)
    (h : Tracks step lines (fun _ => False) states)
    (h' : Tracks step lines (fun _ => False) states') : states = states' := by
  have hentries : states.entries = states'.entries := by
    apply List.ext_getElem?
    intro i
    induction i with
    | zero => rw [h.start, h'.start]
    | succ i ih =>
      rcases Nat.lt_or_ge i lines.length with hi | hi
      · obtain ⟨line, state, behind, hline, hbefore, hstep, hbehind⟩ := h.settled i hi id
        obtain ⟨line', state', behind', hline', hbefore', hstep', hbehind'⟩ := h'.settled i hi id
        rw [hline, Option.some_inj] at hline'
        rw [hbefore, hbefore', Option.some_inj, Option.some_inj] at ih
        subst hline' ih
        rw [hbehind, hbehind', unique _ _ _ _ hstep hstep']
      · rw [List.getElem?_eq_none (by rw [h.length_eq]; omega),
          List.getElem?_eq_none (by rw [h'.length_eq]; omega)]
  exact congrArg LineStates.mk hentries

/-! ## Scans of whole lines -/

/-- A scan of whole lines does what `Rescanned` says. -/
theorem rescanned_rescan {line first : Nat} {state : ScanState}
    (hlen : states.entries.length = lines.length + 1)
    (hfirst : lastKnown states.entries (min line lines.length) = first)
    (hstate : states.entries[first]? = some (some state)) :
    Rescanned .whole lines states (states.rescan lines line).1 first
      (states.rescan lines line).2 := by
  have hdrop : (states.entries.drop (first + 1)).length = (lines.drop first).length := by
    simp only [List.length_drop]
    omega
  have href := refreshed_refresh (lines.drop first) state (states.entries.drop (first + 1)) hdrop
  have hrescan : states.rescan lines line =
      (⟨states.entries.take (first + 1) ++
          (refresh state (lines.drop first) (states.entries.drop (first + 1))).1⟩,
        (refresh state (lines.drop first) (states.entries.drop (first + 1))).2) := by
    simp only [rescan, resize_of_length_eq hlen, hfirst, hstate, Option.join_some,
      Option.getD_some]
  rw [hrescan]
  exact href.rescanned hlen hstate

/-- Behind each line that it passes a scan leaves the state of that line. -/
theorem Rescanned.getElem?_fresh {first count : Nat} {state : ScanState}
    (h : Rescanned .whole lines states next first count)
    (hstate : states.entries[first]? = some (some state)) {n : Nat} (hn : n ≤ count) :
    next.entries[first + n]? = some (some (state.afterAll ((lines.drop first).take n))) := by
  induction n with
  | zero => rw [Nat.add_zero, h.kept first (.inl (Nat.le_refl first)), hstate, List.take_zero,
      ScanState.afterAll_nil]
  | succ n ih =>
    obtain ⟨line, before, behind, hline, hbefore, rfl, hbehind⟩ :=
      h.settled (first + n) (Nat.le_add_right first n) (by omega)
    rw [ih (Nat.le_of_succ_le hn), Option.some_inj, Option.some_inj] at hbefore
    rw [← Nat.add_assoc, hbehind,
      ScanState.afterAll_take_succ _ (List.getElem?_drop.trans hline), hbefore]

/-- Without pending lines every entry is the state behind the lines above it. -/
theorem Tracks.getElem?_eq (h : Tracks .whole lines (fun _ => False) states) {i : Nat}
    (hi : i ≤ lines.length) :
    states.entries[i]? = some (some (ScanState.start.afterAll (lines.take i))) := by
  induction i with
  | zero => exact h.start
  | succ i ih =>
    obtain ⟨line, state, behind, hline, hbefore, rfl, hbehind⟩ := h.settled i (by omega) id
    have hstate := ih (by omega)
    rw [hbefore, Option.some_inj, Option.some_inj] at hstate
    rw [hbehind, ScanState.afterAll_take_succ _ hline, hstate]

/-- A rescan first brings the entries to their number. -/
theorem rescan_resize (states : LineStates) (lines : List String) (line : Nat) :
    LineStates.rescan ⟨resize states.entries (lines.length + 1)⟩ lines line
      = states.rescan lines line := by
  have h : resize (resize states.entries (lines.length + 1)) (lines.length + 1)
      = resize states.entries (lines.length + 1) := resize_of_length_eq (length_resize _ _)
  simp only [rescan, h]

/-- The states of a whole document track it. -/
theorem tracks_ofLines (lines : List String) :
    Tracks .whole lines (fun _ => False) (ofLines lines) := by
  have hentries : resize new.entries (lines.length + 1)
      = some .start :: List.replicate lines.length none := by
    simp [resize, new]
  rw [ofLines, ← rescan_resize, hentries]
  -- Behind the first entry all is unknown, so that the scan passes every line.
  have hblank : Tracks .whole lines (fun _ => True)
      ⟨some .start :: List.replicate lines.length none⟩ :=
    ⟨by simp, rfl, fun i hi hp => absurd trivial hp⟩
  have hfirst : lastKnown (some ScanState.start :: List.replicate lines.length none)
      (min 0 lines.length) = 0 := by
    rw [Nat.zero_min]
    rfl
  have hscan := rescanned_rescan hblank.length_eq hfirst rfl
  refine (hblank.rescanned hscan).mono ?_
  rintro i hi ⟨-, hpass⟩
  refine hpass ⟨Nat.zero_le i, hscan.lt_add_count hi ?_⟩
  intro j hj _
  obtain ⟨j, rfl⟩ : ∃ k, j = k + 1 := ⟨j - 1, by omega⟩
  rw [List.getElem?_cons_succ, List.getElem?_replicate]
  split <;> rfl

end LineStates

end OCamlHighlight
