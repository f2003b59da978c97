/-
# Options after any requests

Sets of options succeed and fail in any order, with defaults filled in between them.  What
an option is left with comes from one request at most: the last one that has set it, or the
first defaults if nothing has (`Leaves`).

* `Request.serve_of_sets`, `Request.serve_of_fails`: a set writes one value or nothing.
* `value_serve`: what one request does to one option.
* `leaves_serveAll`: what any number of them leave, by induction on the requests.
-/
import OCamlHighlight.Proofs.OptionTexts

namespace OCamlHighlight.EditorConfig

/-! ## One request -/

namespace Request

/-- A request sets an option to a value. -/
def Sets (option : EditorOption) (value : option.Value) : Request → Prop
  | setOption name text => Accepts name text option value
  | setAssignment text => Assigns text option value
  | applyDefaults _ => False

/-- A request to set an option fails. -/
def Fails (error : ConfigError) : Request → Prop
  | setOption name text => Refuses name text error
  | setAssignment text => Misassigns text error
  | applyDefaults _ => False

variable {request : Request} {option : EditorOption} {value : option.Value}
  {error : ConfigError}

/-- A request fills in defaults, or sets an option, or fails. -/
theorem cases_of (request : Request) :
    (∃ defaults, request = applyDefaults defaults) ∨ (∃ option value, request.Sets option value) ∨
      ∃ error, request.Fails error := by
  cases request with
  | setOption name text => exact Or.inr (accepts_or_refuses name text)
  | setAssignment text => exact Or.inr (assigns_or_misassigns text)
  | applyDefaults defaults => exact Or.inl ⟨defaults, rfl⟩

/-- **A request that sets an option** writes its value and nothing else. -/
theorem serve_of_sets (h : request.Sets option value) (config : EditorConfig) :
    config.serve request = (.ok .done, config.withValue option value) := by
  cases request with
  | setOption name text =>
    rw [serve_setOption, setOption_of_accepts h]
    rfl
  | setAssignment text =>
    rw [serve_setAssignment, setAssignment_of_assigns h]
    rfl
  | applyDefaults defaults => exact h.elim

/-- **A request that fails** writes nothing. -/
theorem serve_of_fails (h : request.Fails error) (config : EditorConfig) :
    config.serve request = (.error error, config) := by
  cases request with
  | setOption name text =>
    rw [serve_setOption, setOption_of_refuses h]
    rfl
  | setAssignment text =>
    rw [serve_setAssignment, setAssignment_of_misassigns h]
    rfl
  | applyDefaults defaults => exact h.elim

/-- A request is done exactly if it sets an option. -/
theorem done_iff (config : EditorConfig) (request : Request) :
    (config.serve request).1 = .ok .done ↔ ∃ option value, request.Sets option value := by
  constructor
  · intro h
    rcases request.cases_of with ⟨defaults, rfl⟩ | hsets | ⟨error, hfails⟩
    · rw [serve_applyDefaults] at h
      cases h
    · exact hsets
    · rw [serve_of_fails hfails] at h
      cases h
  · rintro ⟨option, value, hsets⟩
    rw [serve_of_sets hsets]

/-- A request that answers with an error has failed for that reason. -/
theorem fails_of_error {config : EditorConfig} (h : (config.serve request).1 = .error error) :
    request.Fails error := by
  rcases request.cases_of with ⟨defaults, rfl⟩ | ⟨option, value, hsets⟩ | ⟨error', hfails⟩
  · rw [serve_applyDefaults] at h
    cases h
  · rw [serve_of_sets hsets] at h
    cases h
  · rw [serve_of_fails hfails] at h
    cases h
    exact hfails

end Request

/-- Some option is not set. -/
theorem hasUnset_iff (config : EditorConfig) :
    config.hasUnset = true ↔ ∃ option, config.value option = none := by
  rw [hasUnset, Bool.or_eq_true, Option.isNone_iff_eq_none, Option.isNone_iff_eq_none]
  constructor
  · rintro (hunit | hon)
    · exact ⟨.indentUnit, hunit⟩
    · exact ⟨.lineNumbers, hon⟩
  · rintro ⟨option, hoption⟩
    cases option with
    | indentUnit => exact Or.inl hoption
    | lineNumbers => exact Or.inr hoption

/-- **What one request does to one option**: it sets it, or gives it a default if it has no
value, or leaves it. -/
theorem value_serve (config : EditorConfig) (request : Request) (option : EditorOption) :
    (∃ value, request.Sets option value ∧
      (config.serve request).2.value option = some value) ∨
    (∃ defaults, request = .applyDefaults defaults ∧ (config.serve request).2.value option
      = some ((config.value option).getD (defaults.value option))) ∨
    ((∀ value, ¬ request.Sets option value) ∧ (∀ defaults, request ≠ .applyDefaults defaults) ∧
      (config.serve request).2.value option = config.value option) := by
  by_cases hset : ∃ value, request.Sets option value
  · obtain ⟨value, hsets⟩ := hset
    refine Or.inl ⟨value, hsets, ?_⟩
    rw [Request.serve_of_sets hsets, value_withValue]
  · right
    rcases request.cases_of with ⟨defaults, rfl⟩ | ⟨other, value, hsets⟩ | ⟨error, hfails⟩
    · refine Or.inl ⟨defaults, rfl, ?_⟩
      rw [serve_applyDefaults, value_applyDefaults]
    · refine Or.inr ⟨not_exists.mp hset, ?_, ?_⟩
      · rintro defaults rfl
        exact hsets
      · have hne : option ≠ other := by
          rintro rfl
          exact hset ⟨value, hsets⟩
        rw [Request.serve_of_sets hsets, value_withValue_of_ne _ _ hne]
    · refine Or.inr ⟨not_exists.mp hset, ?_, ?_⟩
      · rintro defaults rfl
        exact hfails
      · rw [Request.serve_of_fails hfails]

/-! ## Any number of requests -/

section Runs

variable {initial : EditorConfig} {requests : List Request} {option : EditorOption}

/-- No request sets an option. -/
def NeverSet (option : EditorOption) (requests : List Request) : Prop :=
  ∀ request ∈ requests, ∀ value, ¬ request.Sets option value

theorem neverSet_cons {request : Request} {requests : List Request} {option : EditorOption}
    (h : ∀ value, ¬ request.Sets option value) (hrest : NeverSet option requests) :
    NeverSet option (request :: requests) :=
  List.forall_mem_cons.mpr ⟨h, hrest⟩

/-- Where some requests leave an option: at the value of the last one that has set it.  If
none has, it keeps the value that it had; without one, it has the first defaults that were
filled in; and without defaults it is not set. -/
inductive Leaves (initial : EditorConfig) (requests : List Request) (option : EditorOption) :
    Option option.Value → Prop
  | lastSet (front : List Request) {back : List Request} {request : Request} {value : option.Value}
      (split : requests = front ++ request :: back) (sets : request.Sets option value)
      (last : NeverSet option back) :
      Leaves initial requests option (some value)
  | kept {value : option.Value} (never : NeverSet option requests)
      (initially : initial.value option = some value) :
      Leaves initial requests option (some value)
  | firstDefaults (front : List Request) {back : List Request} {defaults : EditorDefaults}
      (never : NeverSet option requests)
      (initially : initial.value option = none)
      (split : requests = front ++ .applyDefaults defaults :: back)
      (first : ∀ earlier, .applyDefaults earlier ∉ front) :
      Leaves initial requests option (some (defaults.value option))
  | unset (never : NeverSet option requests)
      (initially : initial.value option = none)
      (undefaulted : ∀ defaults, .applyDefaults defaults ∉ requests) :
      Leaves initial requests option none

variable {next : EditorConfig} {request : Request} {result : Option option.Value}

/-- A request that sets the option does not count if a later one does. -/
theorem Leaves.cons_of_sets {value : option.Value} (h : Leaves next requests option result)
    (hsets : request.Sets option value) (hnext : next.value option = some value) :
    Leaves initial (request :: requests) option result := by
  cases h with
  | @lastSet front back later _ split sets last =>
    exact .lastSet (request :: front) (congrArg (request :: ·) split) sets last
  | kept never initially =>
    obtain rfl := Option.some.inj (hnext.symm.trans initially)
    exact .lastSet [] rfl hsets never
  | firstDefaults _ never initially => cases hnext.symm.trans initially
  | unset never initially => cases hnext.symm.trans initially

/-- Defaults count if they are the first, and there is no value. -/
theorem Leaves.cons_of_defaults {defaults : EditorDefaults}
    (h : Leaves next requests option result)
    (hnext : next.value option = some ((initial.value option).getD (defaults.value option))) :
    Leaves initial (.applyDefaults defaults :: requests) option result := by
  cases h with
  | @lastSet front back later _ split sets last =>
    exact .lastSet (.applyDefaults defaults :: front) (congrArg (_ :: ·) split) sets last
  | kept never initially =>
    have hnever : NeverSet option (.applyDefaults defaults :: requests) :=
      neverSet_cons (fun _ h => h) never
    obtain rfl := Option.some.inj (hnext.symm.trans initially)
    cases hvalue : initial.value option with
    | none => exact .firstDefaults [] hnever hvalue rfl (fun _ => List.not_mem_nil)
    | some value => exact .kept hnever hvalue
  | firstDefaults _ never initially => cases hnext.symm.trans initially
  | unset never initially => cases hnext.symm.trans initially

/-- A request that leaves the option does not count. -/
theorem Leaves.cons_of_same (h : Leaves next requests option result)
    (hsets : ∀ value, ¬ request.Sets option value)
    (hdefaults : ∀ defaults, request ≠ .applyDefaults defaults)
    (hnext : next.value option = initial.value option) :
    Leaves initial (request :: requests) option result := by
  cases h with
  | @lastSet front back later _ split sets last =>
    exact .lastSet (request :: front) (congrArg (request :: ·) split) sets last
  | kept never initially =>
    exact .kept (neverSet_cons hsets never) (hnext.symm.trans initially)
  | @firstDefaults front back _ never initially split first =>
    refine .firstDefaults (request :: front) (neverSet_cons hsets never)
      (hnext.symm.trans initially) (congrArg (request :: ·) split) ?_
    intro earlier hmem
    rcases List.mem_cons.mp hmem with heq | hmem
    · exact hdefaults earlier heq.symm
    · exact first earlier hmem
  | unset never initially undefaulted =>
    refine .unset (neverSet_cons hsets never) (hnext.symm.trans initially) ?_
    intro defaults hmem
    rcases List.mem_cons.mp hmem with heq | hmem
    · exact hdefaults defaults heq.symm
    · exact undefaulted defaults hmem

/-- **Any requests** leave every option where they should. -/
theorem leaves_serveAll (initial : EditorConfig) (requests : List Request)
    (option : EditorOption) :
    Leaves initial requests option ((initial.serveAll requests).value option) := by
  induction requests generalizing initial with
  | nil =>
    cases hvalue : initial.value option with
    | none =>
      rw [serveAll_nil, hvalue]
      exact .unset (fun _ hmem => absurd hmem List.not_mem_nil) hvalue
        (fun _ => List.not_mem_nil)
    | some value =>
      rw [serveAll_nil, hvalue]
      exact .kept (fun _ hmem => absurd hmem List.not_mem_nil) hvalue
  | cons request requests ih =>
    rw [serveAll_cons]
    have hrest := ih (initial.serve request).2
    rcases value_serve initial request option with
      ⟨value, hsets, hnext⟩ | ⟨defaults, rfl, hnext⟩ | ⟨hsets, hdefaults, hnext⟩
    · exact hrest.cons_of_sets hsets hnext
    · exact hrest.cons_of_defaults hnext
    · exact hrest.cons_of_same hsets hdefaults hnext

end Runs

/-- **The last set wins.**  Any requests leave each option at the value of the last request
that has set it, or else at the value that it had, or else at the first default, or else
not set.  A request is done exactly if its name is one of an option and its value stands
for one of the option's values, and then it sets that option and leaves the other; where it
fails, it leaves both.  Defaults answer whether some option was not set before them. -/
theorem options_keep_last_set (config : EditorConfig) :
    (∀ requests option,
      Leaves config requests option ((config.serveAll requests).value option)) ∧
    (∀ request, (config.serve request).1 = .ok .done ↔
      ∃ option value, Request.Sets option value request) ∧
    (∀ request option value, Request.Sets option value request →
      (config.serve request).2.value option = some value ∧
      ∀ other, other ≠ option → (config.serve request).2.value other = config.value other) ∧
    (∀ request error, (config.serve request).1 = .error error →
      (config.serve request).2 = config ∧ request.Fails error) ∧
    ∀ defaults, ∃ changed, (config.serve (.applyDefaults defaults)).1 = .ok (.filled changed) ∧
      (changed = true ↔ ∃ option, config.value option = none) := by
  refine ⟨leaves_serveAll config, Request.done_iff config, ?_, ?_, ?_⟩
  · intro request option value hsets
    rw [Request.serve_of_sets hsets]
    refine ⟨value_withValue config option value, ?_⟩
    intro other hne
    exact value_withValue_of_ne config value hne
  · intro request error herror
    have hfails := Request.fails_of_error herror
    rw [Request.serve_of_fails hfails]
    exact ⟨rfl, hfails⟩
  · intro defaults
    rw [serve_applyDefaults]
    exact ⟨_, rfl, hasUnset_iff config⟩

/-- White space, the other name, a plus sign and zeros in front; and a value with a second
equals sign, which fails. -/
theorem options_keep_last_set_spaced :
    let config : EditorConfig := ⟨some 4, none⟩
    let request : Request := .setAssignment " indentUnit\t= +007 "
    (request.Sets .indentUnit (7 : UInt32) ∧
      (config.serve request).2.value .indentUnit = some (7 : UInt32) ∧
      (config.serve request).2.value .lineNumbers = none) ∧
    (config.serve (.setAssignment "indent_unit=1=2")).2 = config := by
  intro config request
  have hsets : request.Sets .indentUnit (7 : UInt32) :=
    ⟨" indentUnit\t", " +007 ", rfl, by decide, by decide +kernel, ['0', '0', '7'], by decide,
      List.all_eq_true.mp rfl, Or.inr (by decide +kernel), by decide⟩
  obtain ⟨-, -, hset, hfail, -⟩ := options_keep_last_set config
  obtain ⟨hvalue, hothers⟩ := hset request _ _ hsets
  have hother : EditorOption.lineNumbers ≠ .indentUnit := by decide
  refine ⟨⟨hsets, hvalue, hothers _ hother⟩, ?_⟩
  exact (hfail _ (.invalidValue .indentUnit "1=2") (by decide +kernel)).1

end OCamlHighlight.EditorConfig
