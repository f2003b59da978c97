/-
# The arguments of the command `mode`

The arguments are items, one after the other: an assignment to an editor option in an
argument of its own or in the same one, and the language of a notebook kernel.  What
an argument means depends on all those in front of it, since the argument of an
assignment may look like anything.

* `items_or_offends`: arguments are items with right assignments, up to the end or up to
  the first thing that is wrong (`Offends`).
* `parseMode_of_items`, `parseMode_of_offends`: how they are read.
* `shows_effective`: what the report shows for an option.
-/
import OCamlHighlight.Proofs.OptionHistory
import OCamlHighlight.Proofs.SeveralFiles

namespace OCamlHighlight

open Command EditorConfig

/-! ## Items -/

/-- One item of the arguments. -/
inductive ModeItem where
  /-- `--set` and an assignment behind it. -/
  | set (assignment : String)
  /-- `--set=` with an assignment. -/
  | setInline (assignment : String)
  /-- `--kernel=` with a language. -/
  | kernel (language : String)
  deriving DecidableEq, Repr

namespace ModeItem

/-- The arguments that an item is written in. -/
def arguments : ModeItem → List String
  | set assignment => ["--set", assignment]
  | setInline assignment => ["--set=" ++ assignment]
  | kernel language => ["--kernel=" ++ language]

/-- The assignment of an item. -/
def assignment? : ModeItem → Option String
  | set assignment | setInline assignment => some assignment
  | kernel _ => none

/-- The language of an item. -/
def language? : ModeItem → Option String
  | set _ | setInline _ => none
  | kernel language => some language

/-- The assignment of an item, if it has one, sets an option. -/
def Valid (item : ModeItem) : Prop :=
  ∀ assignment ∈ item.assignment?, ∃ option value, Assigns assignment option value

theorem valid_of_assigns {item : ModeItem} {assignment : String} {option : EditorOption}
    {value : option.Value} (h : item.assignment? = some assignment)
    (hassigns : Assigns assignment option value) : item.Valid := by
  intro other hother
  obtain rfl := Option.some.inj (h.symm.trans hother)
  exact ⟨option, value, hassigns⟩

/-- The arguments that items are written in. -/
def written (items : List ModeItem) : List String := items.flatMap arguments

theorem written_cons (item : ModeItem) (items : List ModeItem) :
    written (item :: items) = item.arguments ++ written items := rfl

/-- The assignments of items. -/
def assignments (items : List ModeItem) : List String := items.filterMap assignment?

/-- The language that counts is the last one. -/
def lastLanguage (items : List ModeItem) : Option String := (items.filterMap language?).getLast?

/-- A language counts, whatever stood before it, unless a later one does. -/
theorem lastLanguage_kernel_or (language : String) (items : List ModeItem)
    (before : Option String) :
    (lastLanguage (.kernel language :: items)).or before
      = (lastLanguage items).or (some language) := by
  show ((language :: items.filterMap language?).getLast?).or before = _
  rw [List.getLast?_cons, lastLanguage]
  cases (items.filterMap language?).getLast? <;> rfl

/-- The mode attaches without a kernel, and to a kernel for OCaml. -/
def attaches (items : List ModeItem) : Bool :=
  (lastLanguage items).all fun language => Text.eqIgnoringCase (Text.trim language) "ocaml"

end ModeItem

open ModeItem

/-- Arguments begin with something wrong. -/
inductive Offends : List String → CommandError → Prop where
  /-- There is no argument behind `--set`. -/
  | noValue : Offends ["--set"] (.missingValue "--set")
  /-- The argument behind `--set` sets no option. -/
  | set {assignment : String} {error : ConfigError} (h : Misassigns assignment error)
      (rest : List String) : Offends ("--set" :: assignment :: rest) (.config error)
  /-- What is behind `--set=` sets no option. -/
  | setInline {assignment : String} {error : ConfigError} (h : Misassigns assignment error)
      (rest : List String) : Offends (("--set=" ++ assignment) :: rest) (.config error)
  /-- No item begins with the argument. -/
  | unknown {argument : String} (hset : argument ≠ "--set")
      (hinline : ∀ assignment, argument ≠ "--set=" ++ assignment)
      (hkernel : ∀ language, argument ≠ "--kernel=" ++ language) (rest : List String) :
      Offends (argument :: rest) (.unknownFlag "mode" argument)

/-! ## Single arguments -/

/-- What stands behind the front of an argument. -/
theorem argumentAfter_append (front value : String) :
    argumentAfter front (front ++ value) = some value := by
  have hprefix : front.toList.isPrefixOf (front ++ value).toList = true := by
    rw [List.isPrefixOf_iff_prefix, String.toList_append]
    exact List.prefix_append _ _
  rw [argumentAfter, if_pos hprefix, String.toList_append, ← String.length_toList,
    List.drop_left, String.ofList_toList]

/-- An argument without the front has nothing behind it. -/
theorem argumentAfter_eq_none {front argument : String}
    (h : ∀ value, argument ≠ front ++ value) : argumentAfter front argument = none := by
  cases hvalue : argumentAfter front argument with
  | none => rfl
  | some value => exact absurd (eq_of_argumentAfter hvalue) (h value)

/-- An assignment in the same argument is none in the next one. -/
theorem setInline_ne_set (assignment : String) : "--set=" ++ assignment ≠ "--set" := by
  intro h
  have hlength := congrArg (fun text : String => text.toList.length) h
  simp at hlength

/-- A language is no assignment. -/
theorem kernel_ne (language : String) :
    "--kernel=" ++ language ≠ "--set" ∧
      ∀ assignment, "--kernel=" ++ language ≠ "--set=" ++ assignment := by
  refine ⟨?_, ?_⟩
  · intro h
    have hlength := congrArg (fun text : String => text.toList.length) h
    simp at hlength
  · intro assignment h
    have hthird := congrArg (fun text : String => text.toList[2]?) h
    simp at hthird

/-! ## Reading items -/

/-- An assignment that sets an option is made. -/
theorem assign_of_assigns {assignment : String} {option : EditorOption} {value : option.Value}
    (h : Assigns assignment option value) (options : ModeOptions) :
    assign options assignment
      = .ok { options with config := options.config.serveAll [.setAssignment assignment] } := by
  have hsets : Request.Sets option value (.setAssignment assignment) := h
  rw [assign, setAssignment_of_assigns h, serveAll_cons, serveAll_nil,
    Request.serve_of_sets hsets]

/-- An assignment that sets no option is an error. -/
theorem assign_of_misassigns {assignment : String} {error : ConfigError}
    (h : Misassigns assignment error) (options : ModeOptions) :
    assign options assignment = .error (.config error) := by
  rw [assign, setAssignment_of_misassigns h]

theorem parseMode_set (options : ModeOptions) (assignment : String) (rest : List String) :
    parseMode options ("--set" :: assignment :: rest) =
      match assign options assignment with
      | .ok options => parseMode options rest
      | .error error => .error error := by
  rw [parseMode]
  exact if_pos rfl

/-- An argument that does not take the next one with it. -/
theorem parseMode_single (options : ModeOptions) {argument : String} (h : argument ≠ "--set")
    (rest : List String) :
    parseMode options (argument :: rest) =
      match argumentAfter "--set=" argument with
      | some assignment =>
        match assign options assignment with
        | .ok options => parseMode options rest
        | .error error => .error error
      | none =>
        match argumentAfter "--kernel=" argument with
        | some language => parseMode { options with kernel := some language } rest
        | none => .error (.unknownFlag "mode" argument) := by
  rw [parseMode.eq_def]
  exact if_neg h

theorem parseMode_setInline (options : ModeOptions) (assignment : String) (rest : List String) :
    parseMode options (("--set=" ++ assignment) :: rest) =
      match assign options assignment with
      | .ok options => parseMode options rest
      | .error error => .error error := by
  rw [parseMode_single options (setInline_ne_set assignment), argumentAfter_append]

theorem parseMode_kernel (options : ModeOptions) (language : String) (rest : List String) :
    parseMode options (("--kernel=" ++ language) :: rest)
      = parseMode { options with kernel := some language } rest := by
  obtain ⟨hset, hinline⟩ := kernel_ne language
  rw [parseMode_single options hset, argumentAfter_eq_none hinline, argumentAfter_append]

/-- The options of an editor behind items. -/
def ModeOptions.behind (options : ModeOptions) (items : List ModeItem) : ModeOptions where
  config := options.config.serveAll ((assignments items).map .setAssignment)
  kernel := (lastLanguage items).or options.kernel

/-- **Items are read** one after the other. -/
theorem parseMode_of_items {items : List ModeItem} (h : ∀ item ∈ items, item.Valid)
    (options : ModeOptions) (rest : List String) :
    parseMode options (written items ++ rest) = parseMode (options.behind items) rest := by
  induction items generalizing options with
  | nil => rfl
  | cons item items ih =>
    obtain ⟨hitem, hitems⟩ := List.forall_mem_cons.mp h
    rw [written_cons, List.append_assoc]
    cases item with
    | set assignment =>
      obtain ⟨option, value, hassigns⟩ := hitem assignment rfl
      show parseMode options ("--set" :: assignment :: (written items ++ rest)) = _
      rw [parseMode_set, assign_of_assigns hassigns]
      exact ih hitems _
    | setInline assignment =>
      obtain ⟨option, value, hassigns⟩ := hitem assignment rfl
      show parseMode options (("--set=" ++ assignment) :: (written items ++ rest)) = _
      rw [parseMode_setInline, assign_of_assigns hassigns]
      exact ih hitems _
    | kernel language =>
      show parseMode options (("--kernel=" ++ language) :: (written items ++ rest)) = _
      rw [parseMode_kernel, ih hitems, ModeOptions.behind, ModeOptions.behind,
        lastLanguage_kernel_or]
      rfl

/-- **The first wrong thing** ends the reading. -/
theorem parseMode_of_offends {bad : List String} {error : CommandError} (h : Offends bad error)
    (options : ModeOptions) : parseMode options bad = .error error := by
  cases h with
  | noValue => rfl
  | set h rest => rw [parseMode_set, assign_of_misassigns h]
  | setInline h rest => rw [parseMode_setInline, assign_of_misassigns h]
  | unknown hset hinline hkernel rest =>
    rw [parseMode_single options hset, argumentAfter_eq_none hinline,
      argumentAfter_eq_none hkernel]

/-! ## All arguments -/

/-- Arguments are right items, and then nothing or something wrong. -/
def Itemized (arguments : List String) : Prop :=
  ∃ items bad, arguments = written items ++ bad ∧ (∀ item ∈ items, item.Valid) ∧
    (bad = [] ∨ ∃ error, Offends bad error)

theorem itemized_of_offends {bad : List String} {error : CommandError} (h : Offends bad error) :
    Itemized bad :=
  ⟨[], bad, rfl, fun _ hmem => absurd hmem List.not_mem_nil, Or.inr ⟨error, h⟩⟩

theorem Itemized.cons {item : ModeItem} {rest : List String} (h : Itemized rest)
    (hitem : item.Valid) : Itemized (item.arguments ++ rest) := by
  obtain ⟨items, bad, rfl, hitems, hbad⟩ := h
  exact ⟨item :: items, bad, (List.append_assoc _ _ _).symm,
    List.forall_mem_cons.mpr ⟨hitem, hitems⟩, hbad⟩

/-- **All arguments** are right items up to the end, or up to something wrong. -/
theorem items_or_offends : ∀ arguments : List String, Itemized arguments
  | [] => ⟨[], [], rfl, fun _ hmem => absurd hmem List.not_mem_nil, Or.inl rfl⟩
  | argument :: rest => by
    by_cases hset : argument = "--set"
    · subst hset
      cases rest with
      | nil => exact itemized_of_offends .noValue
      | cons assignment rest =>
        rcases assigns_or_misassigns assignment with ⟨option, value, hassigns⟩ | ⟨error, herror⟩
        · have hvalid : (ModeItem.set assignment).Valid := valid_of_assigns rfl hassigns
          exact (items_or_offends rest).cons hvalid
        · exact itemized_of_offends (.set herror rest)
    · cases hinline : argumentAfter "--set=" argument with
      | some assignment =>
        rw [eq_of_argumentAfter hinline]
        rcases assigns_or_misassigns assignment with ⟨option, value, hassigns⟩ | ⟨error, herror⟩
        · have hvalid : (ModeItem.setInline assignment).Valid := valid_of_assigns rfl hassigns
          exact (items_or_offends rest).cons hvalid
        · exact itemized_of_offends (.setInline herror rest)
      | none =>
        cases hkernel : argumentAfter "--kernel=" argument with
        | some language =>
          have hvalid : (ModeItem.kernel language).Valid := by
            intro assignment hassignment
            cases hassignment
          rw [eq_of_argumentAfter hkernel]
          exact (items_or_offends rest).cons hvalid
        | none =>
          refine itemized_of_offends (.unknown hset ?_ ?_ rest)
          · rintro assignment rfl
            rw [argumentAfter_append] at hinline
            cases hinline
          · rintro language rfl
            rw [argumentAfter_append] at hkernel
            cases hkernel

/-! ## What the report shows -/

/-- What the report shows for an option behind some items: the value of the last assignment
that sets it, or else the default if the mode attaches, or else no value. -/
inductive Shows (items : List ModeItem) (option : EditorOption) : Option option.Value → Prop
  | lastSet (front : List String) {back : List String} {assignment : String}
      {value : option.Value} (split : assignments items = front ++ assignment :: back)
      (sets : Assigns assignment option value)
      (last : ∀ later ∈ back, ∀ value, ¬ Assigns later option value) :
      Shows items option (some value)
  | default (never : ∀ assignment ∈ assignments items, ∀ value, ¬ Assigns assignment option value)
      (attached : attaches items = true) :
      Shows items option (some (EditorDefaults.ocaml.value option))
  | unset (never : ∀ assignment ∈ assignments items, ∀ value, ¬ Assigns assignment option value)
      (detached : attaches items = false) : Shows items option none

/-- The options that the assignments of items set. -/
theorem value_behind (items : List ModeItem) (option : EditorOption) :
    (∃ front back assignment value, assignments items = front ++ assignment :: back ∧
      Assigns assignment option value ∧
      (∀ later ∈ back, ∀ value, ¬ Assigns later option value) ∧
      (ModeOptions.unset.behind items).config.value option = some value) ∨
    ((∀ assignment ∈ assignments items, ∀ value, ¬ Assigns assignment option value) ∧
      (ModeOptions.unset.behind items).config.value option = none) := by
  have hleaves := leaves_serveAll .unset ((assignments items).map .setAssignment) option
  have hall : ∀ request ∈ (assignments items).map Request.setAssignment,
      ∀ defaults, request ≠ .applyDefaults defaults := by
    intro request hmem defaults heq
    obtain ⟨assignment, -, hassignment⟩ := List.mem_map.mp hmem
    cases hassignment.trans heq
  generalize hresult : (EditorConfig.unset.serveAll _).value option = result at hleaves
  cases hleaves with
  | @lastSet front back request value split sets last =>
    obtain ⟨front, others, hsplit, rfl, hothers⟩ := List.map_eq_append_iff.mp split
    obtain ⟨assignment, back, rfl, rfl, rfl⟩ := List.map_eq_cons_iff.mp hothers
    refine Or.inl ⟨front, back, assignment, value, hsplit, sets, ?_, hresult⟩
    intro later hmem
    exact last _ (List.mem_map_of_mem hmem)
  | kept never initially =>
    rw [value_unset] at initially
    cases initially
  | firstDefaults front never initially split first =>
    have hmem : Request.applyDefaults _ ∈ (assignments items).map Request.setAssignment :=
      split ▸ List.mem_append_right front List.mem_cons_self
    exact absurd rfl (hall _ hmem _)
  | unset never initially undefaulted =>
    refine Or.inr ⟨?_, hresult⟩
    intro assignment hmem
    exact never _ (List.mem_map_of_mem hmem)

/-- The mode attaches to an editor behind items. -/
theorem attaches_behind (items : List ModeItem) :
    (ModeOptions.unset.behind items).attaches = attaches items := by
  unfold ModeOptions.attaches attaches ModeOptions.behind
  rw [ModeOptions.unset, Option.or_none]
  rfl

/-- **What the report shows** for an option is where the items have left it. -/
theorem shows_effective (items : List ModeItem) (option : EditorOption) :
    Shows items option ((ModeOptions.unset.behind items).effective.value option) := by
  have hvalue : (ModeOptions.unset.behind items).effective.value option =
      if attaches items then some (((ModeOptions.unset.behind items).config.value option).getD
        (EditorDefaults.ocaml.value option))
      else (ModeOptions.unset.behind items).config.value option := by
    rw [ModeOptions.effective, attaches_behind]
    cases attaches items with
    | true => exact value_applyDefaults _ _ option
    | false => rfl
  rw [hvalue]
  rcases value_behind items option with
    ⟨front, back, assignment, value, hsplit, hsets, hlast, hconfig⟩ | ⟨hnever, hconfig⟩
  · rw [hconfig, Option.getD_some, ite_self]
    exact .lastSet front hsplit hsets hlast
  · rw [hconfig, Option.getD_none]
    cases hattaches : attaches items with
    | true => exact .default hnever hattaches
    | false => exact .unset hnever hattaches

/-- The text for a value that may be missing. -/
def valueText {option : EditorOption} (value : Option option.Value) : String :=
  (value.map option.show).getD "unset"

/-- The line about the kernel. -/
def kernelText (items : List ModeItem) : String :=
  match lastLanguage items with
  | some language =>
    "kernel:        " ++ language ++ " (" ++ (if attaches items then "attached" else "not attached")
      ++ ")\n"
  | none => ""

/-- The text of the report behind some items, with the values that it shows. -/
def reportText (items : List ModeItem) (unit : Option EditorOption.indentUnit.Value)
    (numbers : Option EditorOption.lineNumbers.Value) : String :=
  "mode:          ocaml\nmime:          text/x-ocaml\n"
    ++ "block comment: (* *)\nline comment:  none\n" ++ kernelText items
    ++ "indent_unit:   " ++ valueText unit ++ "\nline_numbers:  " ++ valueText numbers ++ "\n"

theorem report_behind (items : List ModeItem) :
    (ModeOptions.unset.behind items).report =
      reportText items ((ModeOptions.unset.behind items).effective.value .indentUnit)
        ((ModeOptions.unset.behind items).effective.value .lineNumbers) := by
  have hkernel : (ModeOptions.unset.behind items).kernel = lastLanguage items := Option.or_none
  rw [ModeOptions.report, ModeOptions.reportLines, attaches_behind, hkernel]
  unfold reportText kernelText
  generalize (ModeOptions.unset.behind items).effective = config
  have hunit : (config.indentUnit.map showWord).getD "unset"
      = valueText (config.value .indentUnit) := rfl
  have hnumbers : (config.lineNumbers.map showSwitch).getD "unset"
      = valueText (config.value .lineNumbers) := rfl
  rw [hunit, hnumbers, ← String.toList_inj]
  cases lastLanguage items with
  | none => simp [String.join, LanguageMode.ocaml]
  | some language => simp [String.join, LanguageMode.ocaml]

/-! ## Runs -/

section Runs

variable {read : Reader} {terminal : Bool} {items : List ModeItem}

/-- A run with right items reports what they come to. -/
theorem run_of_items (h : ∀ item ∈ items, item.Valid) :
    run read terminal ("mode" :: written items)
      = .success (ModeOptions.unset.behind items).report := by
  have hparse : parse ("mode" :: written items) = .ok (.mode (ModeOptions.unset.behind items)) := by
    show parseMode .unset (written items) = _
    rw [← List.append_nil (written items), parseMode_of_items h]
    rfl
  rw [run, hparse]
  rfl

/-- A run with something wrong behind right items says what it is. -/
theorem run_of_offends (h : ∀ item ∈ items, item.Valid) {bad : List String}
    {error : CommandError} (hbad : Offends bad error) :
    run read terminal ("mode" :: (written items ++ bad)) = ⟨1, "", errorLine error.message⟩ := by
  have hparse : parse ("mode" :: (written items ++ bad)) = .error error := by
    show parseMode .unset (written items ++ bad) = _
    rw [parseMode_of_items h, parseMode_of_offends hbad]
  rw [run, hparse]
  cases hbad <;> rfl

end Runs

/-- **Runs of the command `mode`.**  A run succeeds exactly if its arguments are items, each
with an assignment that sets an option if it has one.  It writes the report, which shows for
each option the value of the last assignment that sets it, or else the default if the mode
attaches, or else that it is unset.  Any other run writes nothing but the error of the first
thing that is wrong, behind right items. -/
theorem mode_reads_items (read : Reader) (terminal : Bool) (arguments : List String) :
    ((run read terminal ("mode" :: arguments)).code = 0 ↔
      ∃ items, arguments = written items ∧ ∀ item ∈ items, item.Valid) ∧
    (∀ items, arguments = written items → (∀ item ∈ items, item.Valid) →
      ∃ unit numbers, Shows items .indentUnit unit ∧ Shows items .lineNumbers numbers ∧
        run read terminal ("mode" :: arguments) = ⟨0, reportText items unit numbers, ""⟩) ∧
    ((¬ ∃ items, arguments = written items ∧ ∀ item ∈ items, item.Valid) →
      ∃ items bad error, arguments = written items ++ bad ∧ (∀ item ∈ items, item.Valid) ∧
        Offends bad error ∧
        run read terminal ("mode" :: arguments) = ⟨1, "", errorLine error.message⟩) := by
  have hread := items_or_offends arguments
  refine ⟨⟨?_, ?_⟩, ?_, ?_⟩
  · intro hcode
    obtain ⟨items, bad, rfl, hitems, rfl | ⟨error, hbad⟩⟩ := hread
    · exact ⟨items, List.append_nil _, hitems⟩
    · rw [run_of_offends hitems hbad] at hcode
      cases hcode
  · rintro ⟨items, rfl, hitems⟩
    rw [run_of_items hitems]
    rfl
  · rintro items rfl hitems
    refine ⟨_, _, shows_effective items .indentUnit, shows_effective items .lineNumbers, ?_⟩
    rw [run_of_items hitems, report_behind]
    rfl
  · intro hnone
    obtain ⟨items, bad, rfl, hitems, rfl | ⟨error, hbad⟩⟩ := hread
    · exact absurd ⟨items, List.append_nil _, hitems⟩ hnone
    · exact ⟨items, bad, error, rfl, hitems, hbad, run_of_offends hitems hbad⟩

/-- Two kernels, of which the last one counts, and an assignment between them; and an argument
that looks like an item where an assignment should be. -/
theorem mode_reads_items_flag :
    let read : Reader := fun _ => .error .noSuchFile
    let items : List ModeItem := [.kernel "python", .set "indentUnit=4", .kernel " OCaml"]
    ((∀ item ∈ items, item.Valid) ∧ ∃ unit numbers,
      Shows items .indentUnit unit ∧ Shows items .lineNumbers numbers ∧
      run read true ["mode", "--kernel=python", "--set", "indentUnit=4", "--kernel= OCaml"]
        = ⟨0, reportText items unit numbers, ""⟩) ∧
    ((¬ ∃ items, ["--set", "--kernel=ocaml"] = written items ∧ ∀ item ∈ items, item.Valid) ∧
      ∃ items bad error, ["--set", "--kernel=ocaml"] = written items ++ bad ∧
        (∀ item ∈ items, item.Valid) ∧ Offends bad error ∧
        run read true ["mode", "--set", "--kernel=ocaml"]
          = ⟨1, "", errorLine error.message⟩) := by
  intro read items
  have hassigns : Assigns "indentUnit=4" .indentUnit (4 : UInt32) :=
    ⟨"indentUnit", "4", rfl, by decide, by decide +kernel, ['4'], by decide,
      List.all_eq_true.mp rfl, Or.inl (by decide +kernel), by decide⟩
  have hitems : ∀ item ∈ items, item.Valid := by
    intro item hmem
    simp only [items, List.mem_cons, List.not_mem_nil, or_false] at hmem
    rcases hmem with rfl | rfl | rfl
    · intro assignment h
      cases h
    · exact valid_of_assigns rfl hassigns
    · intro assignment h
      cases h
  have hnone : ¬ ∃ items, ["--set", "--kernel=ocaml"] = written items ∧
      ∀ item ∈ items, item.Valid := by
    rw [← (mode_reads_items read true ["--set", "--kernel=ocaml"]).1]
    decide +kernel
  obtain ⟨-, haccepted, -⟩ := mode_reads_items read true
    ["--kernel=python", "--set", "indentUnit=4", "--kernel= OCaml"]
  obtain ⟨-, -, hrefused⟩ := mode_reads_items read true ["--set", "--kernel=ocaml"]
  exact ⟨⟨hitems, haccepted items rfl hitems⟩, hnone, hrefused hnone⟩

end OCamlHighlight
