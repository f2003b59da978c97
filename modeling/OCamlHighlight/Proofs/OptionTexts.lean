/-
# The texts that set an option

Which names and values a set accepts, without the way in which they are read: an option
has two names, a number of columns is digits perhaps behind a plus sign, a truth value is
one of eight words, and an assignment is a name and a value around its first equals sign.
Every set is accepted or refused (`accepts_or_refuses`, `assigns_or_misassigns`), and
comes to what it should (`setOption_of_accepts`, `setOption_of_refuses`).
-/
import OCamlHighlight.EditorSession
import Mathlib.Data.List.TakeWhile

namespace OCamlHighlight

/-! ## Names and values -/

namespace EditorOption

/-- A text is one of the two names of an option. -/
def IsNamed (option : EditorOption) (name : String) : Prop :=
  name = option.name ∨ name = option.camelName

instance (option : EditorOption) (name : String) : Decidable (option.IsNamed name) :=
  inferInstanceAs (Decidable (_ ∨ _))

/-- The words for a truth value. -/
def switchWords : Bool → List String
  | true => ["true", "on", "yes", "1"]
  | false => ["false", "off", "no", "0"]

/-- A text stands for a value of an option: one or more digits, perhaps behind one plus
sign, for a number that is a word, and one of its words in letters of any case for a truth
value. -/
def Denotes : (option : EditorOption) → String → option.Value → Prop
  | indentUnit, text, unit =>
    ∃ digits : List Char, digits ≠ [] ∧ (∀ c ∈ digits, c.isDigit = true) ∧
      (text.toList = digits ∨ text.toList = '+' :: digits) ∧
      Nat.ofDigitChars 10 digits 0 = unit.toNat
  | lineNumbers, text, on => ∃ word ∈ switchWords on, Text.eqIgnoringCase text word = true

/-- The option of a name is the one that has the name. -/
theorem ofName?_eq_some_iff {name : String} {option : EditorOption} :
    ofName? name = some option ↔ option.IsNamed name := by
  constructor
  · intro h
    have hnamed := List.find?_some h
    simp only [Bool.or_eq_true, beq_iff_eq] at hnamed
    rcases hnamed with hname | hname
    · exact Or.inl hname.symm
    · exact Or.inr hname.symm
  · intro h
    cases option <;> rcases h with rfl | rfl <;> decide

end EditorOption

/-- A text is read as a number if it is one or more digits. -/
theorem Text.readDecimal_eq_some_iff {cs : List Char} {n : Nat} :
    readDecimal cs = some n ↔
      cs ≠ [] ∧ (∀ c ∈ cs, c.isDigit = true) ∧ Nat.ofDigitChars 10 cs 0 = n := by
  unfold readDecimal
  rw [Option.ite_none_right_eq_some, List.all_eq_true, Option.some_inj, and_assoc]

/-- A text that is read as a word, with and without a plus sign in front. -/
theorem readWord_eq (text : String) :
    ∃ digits, (text.toList = '+' :: digits ∨ text.toList = digits ∧ digits.head? ≠ some '+') ∧
      readWord text = (Text.readDecimal digits).bind fun n =>
        if n ≤ 4294967295 then some (UInt32.ofNat n) else none := by
  unfold readWord
  split
  case h_1 digits htext =>
    refine ⟨digits, Or.inl htext, ?_⟩
    dsimp only
    cases Text.readDecimal digits <;> rfl
  case h_2 hplus =>
    refine ⟨text.toList, Or.inr ⟨rfl, ?_⟩, ?_⟩
    · intro hhead
      obtain ⟨rest, hrest⟩ := List.head?_eq_some_iff.mp hhead
      exact hplus rest hrest
    · dsimp only
      cases Text.readDecimal text.toList <;> rfl

/-- Digits do not begin with a plus sign. -/
theorem head?_ne_plus {digits : List Char} (h : ∀ c ∈ digits, c.isDigit = true) :
    digits.head? ≠ some '+' := by
  intro hhead
  have hplus := h '+' (List.mem_of_head? hhead)
  exact absurd hplus (by decide)

/-- **Words as texts.** -/
theorem readWord_eq_some_iff {text : String} {unit : UInt32} :
    readWord text = some unit ↔ EditorOption.indentUnit.Denotes text unit := by
  obtain ⟨digits, hdigits, hread⟩ := readWord_eq text
  rw [hread, Option.bind_eq_some_iff]
  constructor
  · rintro ⟨n, hn, hunit⟩
    obtain ⟨hne, hall, hvalue⟩ := Text.readDecimal_eq_some_iff.mp hn
    obtain ⟨hle, hword⟩ := Option.ite_none_right_eq_some.mp hunit
    refine ⟨digits, hne, hall, ?_, ?_⟩
    · rcases hdigits with hplus | ⟨hplain, -⟩
      · exact Or.inr hplus
      · exact Or.inl hplain
    · rw [hvalue, ← Option.some.inj hword, UInt32.toNat_ofNat']
      omega
  · rintro ⟨others, hne, hall, hothers, hvalue⟩
    -- The plus sign, if there is one, is not among the digits.
    have hsame : digits = others := by
      rcases hdigits with hplus | ⟨hplain, hhead⟩ <;> rcases hothers with hother | hother
      · rw [hplus] at hother
        exact absurd (hother ▸ rfl) (head?_ne_plus hall)
      · rw [hplus] at hother
        exact (List.cons.inj hother).2
      · exact hplain.symm.trans hother
      · rw [hplain] at hother
        exact absurd (hother ▸ rfl) hhead
    have hlt := unit.toNat_lt
    refine ⟨unit.toNat, Text.readDecimal_eq_some_iff.mpr ?_, ?_⟩
    · rw [hsame]
      exact ⟨hne, hall, hvalue⟩
    · rw [if_pos (by omega), UInt32.ofNat_toNat]

/-- The words are in lower case. -/
theorem toLower_of_mem_switchWords : ∀ on, ∀ word ∈ EditorOption.switchWords on,
    Text.toLower word = word := by decide

/-- No word stands for both truth values. -/
theorem not_mem_switchWords : ∀ word ∈ EditorOption.switchWords true,
    word ∉ EditorOption.switchWords false := by decide

/-- **Truth values as texts.** -/
theorem readSwitch_eq_some_iff {text : String} {on : Bool} :
    readSwitch text = some on ↔ EditorOption.lineNumbers.Denotes text on := by
  have hdenotes : EditorOption.lineNumbers.Denotes text on ↔
      Text.toLower text ∈ EditorOption.switchWords on := by
    constructor
    · rintro ⟨word, hmem, heq⟩
      rw [Text.eqIgnoringCase, beq_iff_eq, toLower_of_mem_switchWords on word hmem] at heq
      rwa [heq]
    · intro hmem
      refine ⟨_, hmem, ?_⟩
      rw [Text.eqIgnoringCase, beq_iff_eq, toLower_of_mem_switchWords on _ hmem]
  rw [hdenotes]
  show (if (EditorOption.switchWords true).contains (Text.toLower text) then some true
    else if (EditorOption.switchWords false).contains (Text.toLower text) then some false
    else none) = some on ↔ _
  by_cases htrue : Text.toLower text ∈ EditorOption.switchWords true
  · cases on <;> simp [htrue, not_mem_switchWords _ htrue]
  · by_cases hfalse : Text.toLower text ∈ EditorOption.switchWords false
    · cases on <;> simp [htrue, hfalse]
    · cases on <;> simp [htrue, hfalse]

/-- **Values as texts.** -/
theorem EditorOption.read_eq_some_iff {option : EditorOption} {text : String}
    {value : option.Value} : option.read text = some value ↔ option.Denotes text value := by
  cases option with
  | indentUnit => exact readWord_eq_some_iff
  | lineNumbers => exact readSwitch_eq_some_iff

namespace EditorConfig

/-! ## Sets by name -/

/-- A name and a value, with or without white space around them, set an option. -/
structure Accepts (name text : String) (option : EditorOption) (value : option.Value) :
    Prop where
  named : option.IsNamed (Text.trim name)
  denotes : option.Denotes (Text.trim text) value

/-- A name and a value set no option, with the reason. -/
inductive Refuses (name text : String) : ConfigError → Prop where
  /-- No option has that name. -/
  | unknown (h : ∀ option : EditorOption, ¬ option.IsNamed (Text.trim name)) :
    Refuses name text (.unknownOption (Text.trim name))
  /-- The value is none of the option's. -/
  | invalid {option : EditorOption} (named : option.IsNamed (Text.trim name))
      (h : ∀ value, ¬ option.Denotes (Text.trim text) value) :
    Refuses name text (.invalidValue option (Text.trim text))

variable {name text : String} {option : EditorOption} {value : option.Value}
  {error : ConfigError}

/-- A set is accepted, or it is refused for a reason. -/
theorem accepts_or_refuses (name text : String) :
    (∃ option value, Accepts name text option value) ∨ ∃ error, Refuses name text error := by
  by_cases hname : ∃ option : EditorOption, option.IsNamed (Text.trim name)
  · obtain ⟨option, hnamed⟩ := hname
    by_cases hvalue : ∃ value, option.Denotes (Text.trim text) value
    · obtain ⟨value, hdenotes⟩ := hvalue
      exact Or.inl ⟨option, value, hnamed, hdenotes⟩
    · exact Or.inr ⟨_, .invalid hnamed (not_exists.mp hvalue)⟩
  · exact Or.inr ⟨_, .unknown (not_exists.mp hname)⟩

/-- **An accepted set** writes its value. -/
theorem setOption_of_accepts (h : Accepts name text option value) (config : EditorConfig) :
    config.setOption name text = .ok (config.withValue option value) := by
  rw [setOption_eq, EditorOption.ofName?_eq_some_iff.mpr h.named]
  dsimp only
  rw [EditorOption.read_eq_some_iff.mpr h.denotes]

/-- **A refused set** gives its reason. -/
theorem setOption_of_refuses (h : Refuses name text error) (config : EditorConfig) :
    config.setOption name text = .error error := by
  rw [setOption_eq]
  cases h with
  | unknown h =>
    have hnone : EditorOption.ofName? (Text.trim name) = none := by
      rw [Option.eq_none_iff_forall_ne_some]
      intro option hoption
      exact h option (EditorOption.ofName?_eq_some_iff.mp hoption)
    rw [hnone]
  | @invalid option named h =>
    have hnone : option.read (Text.trim text) = none := by
      rw [Option.eq_none_iff_forall_ne_some]
      intro value hvalue
      exact h value (EditorOption.read_eq_some_iff.mp hvalue)
    rw [EditorOption.ofName?_eq_some_iff.mpr named]
    dsimp only
    rw [hnone]

/-! ## Assignments -/

/-- An assignment is a name and a value around its first equals sign. -/
theorem splitAssignment_append {name : String} (h : '=' ∉ name.toList) (value : String) :
    splitAssignment (name ++ "=" ++ value) = some (name, value) := by
  have hname : ∀ c ∈ name.toList, (c != '=') = true := by
    intro c hc
    rw [bne_iff_ne]
    rintro rfl
    exact h hc
  have htext : (name ++ "=" ++ value).toList = name.toList ++ '=' :: value.toList := by
    simp
  rw [splitAssignment, htext, List.dropWhile_append_of_pos hname,
    List.takeWhile_append_of_pos hname]
  simp

/-- A text without an equals sign is no assignment. -/
theorem splitAssignment_of_not_mem {text : String} (h : '=' ∉ text.toList) :
    splitAssignment text = none := by
  have hall : ∀ c ∈ text.toList, (c != '=') = true := by
    intro c hc
    rw [bne_iff_ne]
    rintro rfl
    exact h hc
  rw [splitAssignment, List.dropWhile_eq_nil_iff.mpr hall]

/-- A text with an equals sign has a first one. -/
theorem exists_append_of_mem {text : String} (h : '=' ∈ text.toList) :
    ∃ name value : String, text = name ++ "=" ++ value ∧ '=' ∉ name.toList := by
  obtain ⟨front, back, htext, hfront⟩ := List.eq_append_cons_of_mem h
  refine ⟨String.ofList front, String.ofList back, ?_, ?_⟩
  · rw [← String.toList_inj, htext]
    simp
  · rwa [String.toList_ofList]

/-- An assignment sets an option. -/
def Assigns (assignment : String) (option : EditorOption) (value : option.Value) : Prop :=
  ∃ name text : String, assignment = name ++ "=" ++ text ∧ '=' ∉ name.toList ∧
    Accepts name text option value

/-- A text sets no option as an assignment, with the reason. -/
inductive Misassigns (assignment : String) : ConfigError → Prop where
  /-- There is no equals sign. -/
  | noSign (h : '=' ∉ assignment.toList) : Misassigns assignment (.unknownOption assignment)
  /-- The name and the value around the first equals sign set no option. -/
  | refused {name text : String} {error : ConfigError} (split : assignment = name ++ "=" ++ text)
      (first : '=' ∉ name.toList) (h : Refuses name text error) : Misassigns assignment error

variable {assignment : String}

/-- An assignment sets an option, or it does not for a reason. -/
theorem assigns_or_misassigns (assignment : String) :
    (∃ option value, Assigns assignment option value) ∨ ∃ error, Misassigns assignment error := by
  by_cases h : '=' ∈ assignment.toList
  · obtain ⟨name, text, hsplit, hfirst⟩ := exists_append_of_mem h
    rcases accepts_or_refuses name text with ⟨option, value, haccepts⟩ | ⟨error, hrefuses⟩
    · exact Or.inl ⟨option, value, name, text, hsplit, hfirst, haccepts⟩
    · exact Or.inr ⟨error, .refused hsplit hfirst hrefuses⟩
  · exact Or.inr ⟨_, .noSign h⟩

theorem setAssignment_of_assigns (h : Assigns assignment option value) (config : EditorConfig) :
    config.setAssignment assignment = .ok (config.withValue option value) := by
  obtain ⟨name, text, rfl, hfirst, haccepts⟩ := h
  rw [setAssignment, splitAssignment_append hfirst]
  exact setOption_of_accepts haccepts config

theorem setAssignment_of_misassigns (h : Misassigns assignment error) (config : EditorConfig) :
    config.setAssignment assignment = .error error := by
  cases h with
  | noSign h => rw [setAssignment, splitAssignment_of_not_mem h]
  | refused split first h =>
    rw [split, setAssignment, splitAssignment_append first]
    exact setOption_of_refuses h config

end EditorConfig

end OCamlHighlight
