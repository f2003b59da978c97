/-
# Displayed options read back

The display of options is an assignment for each of them, with a space in between.  A
value is displayed as a text that stands for it (`EditorOption.denotes_show`), without
white space that a set would take off, and no value is displayed as a text that stands for
none.  So the assignments of a display set what is set and fail for what is not.
-/
import OCamlHighlight.Proofs.OptionHistory

namespace OCamlHighlight

/-! ## Texts without white space -/

/-- There is nothing to take off a text without white space. -/
theorem Text.trim_eq_self {text : String}
    (h : ∀ c ∈ text.toList, isWhiteSpace c = false) : trim text = text := by
  have hfront : ∀ cs : List Char, (∀ c ∈ cs, isWhiteSpace c = false) → trimFront cs = cs := by
    intro cs hcs
    cases cs with
    | nil => rfl
    | cons c cs =>
      have hc := hcs c List.mem_cons_self
      exact List.dropWhile_cons_of_neg (by rw [hc]; decide)
  have hreverse : ∀ c ∈ text.toList.reverse, isWhiteSpace c = false := by
    intro c hc
    exact h c (List.mem_reverse.mp hc)
  rw [trim, trimChars, hfront _ h, hfront _ hreverse, List.reverse_reverse, String.ofList_toList]

/-- A text is searched for white space character by character. -/
theorem Text.isWhiteSpace_of_all {cs : List Char} {c : Char}
    (h : cs.all (!isWhiteSpace ·) = true) (hc : c ∈ cs) : isWhiteSpace c = false := by
  have hnot := List.all_eq_true.mp h c hc
  rwa [Bool.not_eq_true'] at hnot

/-- Digits are no white space. -/
theorem Text.isWhiteSpace_of_isDigit {c : Char} (h : c.isDigit = true) :
    isWhiteSpace c = false := by
  simp only [Char.isDigit, Bool.and_eq_true, decide_eq_true_eq] at h
  rw [← Bool.not_eq_true, isWhiteSpace, inRanges_iff]
  have hlow : 48 ≤ c.toNat := h.1
  have hhigh : c.toNat ≤ 57 := h.2
  simp only [whiteSpace, List.mem_cons, List.not_mem_nil, or_false]
  rintro ⟨range, hrange, hle, hge⟩
  rcases hrange with rfl | rfl | rfl | rfl | rfl | rfl | rfl | rfl | rfl | rfl <;>
    dsimp only at hle hge <;> omega

/-! ## Values -/

namespace EditorOption

/-- What is displayed in the place of a value that is not set. -/
def unsetText : String := "<unset>"

/-- The names of options have nothing to take off, and no equals sign. -/
theorem name_plain : ∀ option : EditorOption,
    Text.trim option.name = option.name ∧ '=' ∉ option.name.toList := by
  intro option
  cases option <;> exact ⟨by decide +kernel, by decide⟩

/-- **A value is displayed as a text that stands for it.** -/
theorem denotes_show (option : EditorOption) (value : option.Value) :
    option.Denotes (option.show value) value := by
  cases option with
  | indentUnit =>
    obtain ⟨hne, hdigits, hvalue⟩ :=
      Text.readDecimal_eq_some_iff.mp (Text.readDecimal_decimal (UInt32.toNat value))
    exact ⟨_, hne, hdigits, Or.inl rfl, hvalue⟩
  | lineNumbers =>
    cases (value : Bool) with
    | true => exact ⟨"true", by decide, by decide⟩
    | false => exact ⟨"false", by decide, by decide⟩

/-- The text for no value stands for none. -/
theorem not_denotes_unsetText (option : EditorOption) (value : option.Value) :
    ¬ option.Denotes unsetText value := by
  rw [← read_eq_some_iff]
  have hread : option.read unsetText = none := by cases option <;> decide
  rw [hread]
  exact Option.some_ne_none value ∘ Eq.symm

/-- A displayed value has no white space in it. -/
theorem isWhiteSpace_of_mem_show {option : EditorOption} {value : option.Value} {c : Char}
    (h : c ∈ (option.show value).toList) : Text.isWhiteSpace c = false := by
  cases option with
  | indentUnit => exact Text.isWhiteSpace_of_isDigit (Text.isDigit_of_mem_decimal h)
  | lineNumbers =>
    have hwords : ∀ on, (showSwitch on).toList.all (!Text.isWhiteSpace ·) = true := by decide
    exact Text.isWhiteSpace_of_all (hwords value) h

end EditorOption

namespace EditorConfig

open EditorOption

/-! ## The display -/

/-- What is displayed in the place of a value. -/
def shown (config : EditorConfig) (option : EditorOption) : String :=
  ((config.value option).map option.show).getD unsetText

/-- The piece of the display that is about an option. -/
def piece (config : EditorConfig) (option : EditorOption) : String :=
  option.name ++ "=" ++ config.shown option

/-- Nothing that is displayed has white space in it. -/
theorem isWhiteSpace_of_mem_shown {config : EditorConfig} {option : EditorOption} {c : Char}
    (h : c ∈ (config.shown option).toList) : Text.isWhiteSpace c = false := by
  unfold shown at h
  cases hvalue : config.value option with
  | none =>
    have hunset : unsetText.toList.all (!Text.isWhiteSpace ·) = true := by decide
    rw [hvalue] at h
    exact Text.isWhiteSpace_of_all hunset h
  | some value =>
    rw [hvalue] at h
    exact isWhiteSpace_of_mem_show h

/-- There is no space in a piece. -/
theorem space_not_mem_piece (config : EditorConfig) (option : EditorOption) :
    ' ' ∉ (config.piece option).toList := by
  have hname : ' ' ∉ (option.name ++ "=").toList := by cases option <;> decide
  intro h
  rw [piece, String.toList_append] at h
  rcases List.mem_append.mp h with h | h
  · exact hname h
  · have hspace := isWhiteSpace_of_mem_shown h
    exact absurd hspace (by decide)

/-- **The pieces of a display** are what its spaces separate. -/
theorem splitOn_display (config : EditorConfig) :
    (config.display.toList.splitOn ' ').map String.ofList
      = [config.piece .indentUnit, config.piece .lineNumbers] := by
  have hdisplay : config.display.toList
      = (config.piece .indentUnit).toList ++ ' ' :: (config.piece .lineNumbers).toList := by
    simp [display, piece, shown, value, EditorOption.show, EditorOption.name, unsetText]
  rw [hdisplay, List.splitOn_append_cons_self_of_not_mem (space_not_mem_piece _ _),
    List.splitOn_eq_singleton (space_not_mem_piece _ _)]
  simp

/-- The piece about an option that is set sets it to the same value. -/
theorem assigns_piece {config : EditorConfig} {option : EditorOption} {value : option.Value}
    (h : config.value option = some value) : Assigns (config.piece option) option value := by
  obtain ⟨hname, hsign⟩ := option.name_plain
  have hshown : config.shown option = option.show value := by
    rw [shown, h]
    rfl
  refine ⟨option.name, config.shown option, rfl, hsign, ?_, ?_⟩
  · rw [hname]
    exact Or.inl rfl
  · rw [Text.trim_eq_self fun c hc => isWhiteSpace_of_mem_shown hc, hshown]
    exact option.denotes_show value

/-- The piece about an option that is not set sets nothing. -/
theorem misassigns_piece {config : EditorConfig} {option : EditorOption}
    (h : config.value option = none) :
    Misassigns (config.piece option) (.invalidValue option unsetText) := by
  obtain ⟨hname, hsign⟩ := option.name_plain
  have hshown : config.shown option = unsetText := by
    rw [shown, h]
    rfl
  have htrim : Text.trim (config.shown option) = unsetText := by
    rw [Text.trim_eq_self fun c hc => isWhiteSpace_of_mem_shown hc, hshown]
  have hrefuses : Refuses option.name (config.shown option)
      (.invalidValue option (Text.trim (config.shown option))) := by
    refine .invalid ?_ ?_
    · rw [hname]
      exact Or.inl rfl
    · rw [htrim]
      exact option.not_denotes_unsetText
  rw [htrim] at hrefuses
  exact .refused rfl hsign hrefuses

/-- **A piece of a display** as an assignment sets its option to the value in the display, and
is refused without one. -/
theorem serve_piece (config other : EditorConfig) (option : EditorOption) :
    other.serve (.setAssignment (config.piece option)) =
      match config.value option with
      | some value => (.ok .done, other.withValue option value)
      | none => (.error (.invalidValue option unsetText), other) := by
  cases h : config.value option with
  | none =>
    have hfails : Request.Fails (.invalidValue option unsetText)
        (.setAssignment (config.piece option)) := misassigns_piece h
    exact Request.serve_of_fails hfails other
  | some value =>
    have hsets : Request.Sets option value (.setAssignment (config.piece option)) :=
      assigns_piece h
    exact Request.serve_of_sets hsets other

/-- **Displayed options read back.**  The pieces of a display between its spaces, one for each
option, give back the options if they are taken for assignments to options that are not
set.  Such an assignment fails, on whatever options, exactly if its option is not set. -/
theorem display_reads_back (config : EditorConfig) :
    let pieces := (config.display.toList.splitOn ' ').map String.ofList
    unset.serveAll (pieces.map .setAssignment) = config ∧
    pieces = [config.piece .indentUnit, config.piece .lineNumbers] ∧
    ∀ (option : EditorOption) (other : EditorConfig),
      (∃ error, (other.serve (.setAssignment (config.piece option))).1 = .error error) ↔
        config.value option = none := by
  intro pieces
  have hpieces : pieces = [config.piece .indentUnit, config.piece .lineNumbers] :=
    splitOn_display config
  refine ⟨?_, hpieces, ?_⟩
  · rw [hpieces]
    simp only [List.map_cons, List.map_nil, serveAll_cons, serveAll_nil, serve_piece]
    obtain ⟨unit, on⟩ := config
    cases unit <;> cases on <;> rfl
  · intro option other
    rw [serve_piece]
    cases config.value option <;> simp

end EditorConfig

end OCamlHighlight
