/-
# What a terminal shows

A terminal takes escape sequences out of what is written to it and shows the other
characters, each in the style of the sequence before it.  This file reads painted
pieces in this way.

* `items` takes sequences and characters apart; `shown` and `styleAfter` follow the
  active style over them.
* A theme is `Legible` if its sequences are read as what they are and no two labels
  share one; the standard theme is.
* `itemsFrom_paint`: a painted piece is read as its sequence, its characters and the
  end of the style.
* `Separated` says that no style is ended and begun again at once, and
  `separated_pieces` collects this for pieces whose labels change.
-/
import OCamlHighlight.Proofs.LinePieces
import OCamlHighlight.Theme

namespace OCamlHighlight

namespace Painting

/-! ## Sequences and characters -/

/-- What a terminal reads at once: a sequence that selects a style, or a character. -/
inductive Item where
  | sequence (text : String)
  | character (c : Char)
  deriving DecidableEq, Repr

/-- Reads characters, where a sequence may have begun before them.  A sequence goes
from an escape character up to the next `m`, or to the end if there is none. -/
def itemsFrom : Option (List Char) → List Char → List Item
  | none, [] => []
  | some begun, [] => [.sequence (String.ofList begun)]
  | none, c :: cs =>
    if c = '\x1b' then itemsFrom (some [c]) cs else .character c :: itemsFrom none cs
  | some begun, c :: cs =>
    if c = 'm' then .sequence (String.ofList (begun ++ [c])) :: itemsFrom none cs
    else itemsFrom (some (begun ++ [c])) cs

/-- The sequences and characters of a text. -/
def items (text : String) : List Item := itemsFrom none text.toList

/-- The active style behind an item, if there is one. -/
def Item.styleAfter (active : Option String) : Item → Option String
  | .sequence text => if text = Theme.reset then none else some text
  | .character _ => active

/-- The active style behind items. -/
def styleAfter (active : Option String) (items : List Item) : Option String :=
  items.foldl Item.styleAfter active

/-- The characters among items, each with the style that is active at it. -/
def shown : Option String → List Item → List (Char × Option String)
  | _, [] => []
  | active, .sequence text :: items => shown ((Item.sequence text).styleAfter active) items
  | active, .character c :: items => (c, active) :: shown active items

/-- Characters are shown in the active style and do not change it. -/
theorem shown_characters (active : Option String) (cs : List Char) (rest : List Item) :
    shown active (cs.map Item.character ++ rest)
      = cs.map (fun c => (c, active)) ++ shown active rest := by
  induction cs with
  | nil => rfl
  | cons c cs ih => exact congrArg ((c, active) :: ·) ih

theorem styleAfter_characters (active : Option String) (cs : List Char) (rest : List Item) :
    styleAfter active (cs.map Item.character ++ rest) = styleAfter active rest := by
  induction cs with
  | nil => rfl
  | cons c cs ih => exact ih

/-- Characters of which none begins a sequence are read as they are. -/
theorem itemsFrom_characters {cs : List Char} (h : '\x1b' ∉ cs) (back : List Char) :
    itemsFrom none (cs ++ back) = cs.map Item.character ++ itemsFrom none back := by
  induction cs with
  | nil => rfl
  | cons c cs ih =>
    obtain ⟨hc, hcs⟩ := List.ne_and_not_mem_of_not_mem_cons h
    rw [List.cons_append, itemsFrom, if_neg hc.symm, ih hcs]
    rfl

/-- A sequence that has begun goes up to the next `m`. -/
theorem itemsFrom_body {body : List Char} (h : 'm' ∉ body) (begun back : List Char) :
    itemsFrom (some begun) (body ++ 'm' :: back)
      = .sequence (String.ofList (begun ++ body ++ ['m'])) :: itemsFrom none back := by
  induction body generalizing begun with
  | nil => rw [List.nil_append, itemsFrom, if_pos rfl, List.append_nil]
  | cons c body ih =>
    obtain ⟨hc, hbody⟩ := List.ne_and_not_mem_of_not_mem_cons h
    rw [List.cons_append, itemsFrom, if_neg hc.symm, ih hbody, List.append_assoc begun [c]]
    rfl

/-- The selection of a rendition is read as one sequence. -/
theorem itemsFrom_rendition {parameters : String} (h : 'm' ∉ parameters.toList)
    (back : List Char) :
    itemsFrom none ((Theme.rendition parameters).toList ++ back)
      = .sequence (Theme.rendition parameters) :: itemsFrom none back := by
  have hchars : (Theme.rendition parameters).toList
      = '\x1b' :: '[' :: parameters.toList ++ ['m'] := by
    unfold Theme.rendition
    rw [String.toList_append, String.toList_append]
    rfl
  have hbody : 'm' ∉ '[' :: parameters.toList := by
    rw [List.mem_cons, not_or]
    exact ⟨by decide, h⟩
  have hread := itemsFrom_body hbody ['\x1b'] back
  rw [List.singleton_append, ← hchars, String.ofList_toList] at hread
  rw [hchars, List.append_assoc, List.cons_append, itemsFrom, if_pos rfl]
  exact hread

/-- A character in a style, and one behind its end. -/
example : shown none (items "\x1b[31ma\x1b[0mb") = [('a', some "\x1b[31m"), ('b', none)] := by
  decide +kernel

/-! ## Themes -/

/-- The sequences of a theme can be read: each selects a rendition, none of them ends
all styles, and two labels do not share one. -/
structure Legible (theme : Theme) : Prop where
  rendition : ∀ entry ∈ theme.styles, ∃ parameters, entry.2 = Theme.rendition parameters ∧
    'm' ∉ parameters.toList
  ne_reset : ∀ entry ∈ theme.styles, entry.2 ≠ Theme.reset
  label_eq : ∀ entry ∈ theme.styles, ∀ other ∈ theme.styles, entry.2 = other.2 →
    entry.1 = other.1

/-- **The standard theme can be read.** -/
theorem legible_standard : Legible .standard where
  rendition := by
    intro entry hmem
    fin_cases hmem <;> exact ⟨_, rfl, by decide⟩
  ne_reset := by decide
  label_eq := by decide

/-- The sequence for a tag is one that the theme has under its label. -/
theorem mem_styles {theme : Theme} {tag : Tag} {sequence : String}
    (h : theme.style tag = some sequence) :
    ∃ label, tag.label = some label ∧ (label, sequence) ∈ theme.styles := by
  obtain ⟨label, hlabel, hlookup⟩ := Option.bind_eq_some_iff.mp h
  obtain ⟨front, back, hstyles, -⟩ := List.lookup_eq_some_iff.mp hlookup
  refine ⟨label, hlabel, ?_⟩
  rw [hstyles]
  exact List.mem_append_right _ List.mem_cons_self

/-- No tag has the end of all styles for its style. -/
theorem Legible.style_ne_reset {theme : Theme} (h : Legible theme) {tag : Tag}
    {sequence : String} (htag : theme.style tag = some sequence) : sequence ≠ Theme.reset := by
  obtain ⟨label, -, hmem⟩ := mem_styles htag
  exact h.ne_reset _ hmem

/-- Tags of one style have one label. -/
theorem Legible.tag_label_eq {theme : Theme} (h : Legible theme) {tag other : Tag}
    {sequence : String} (htag : theme.style tag = some sequence)
    (hother : theme.style other = some sequence) : tag.label = other.label := by
  obtain ⟨label, hlabel, hmem⟩ := mem_styles htag
  obtain ⟨label', hlabel', hmem'⟩ := mem_styles hother
  have heq : label = label' := h.label_eq _ hmem _ hmem' rfl
  rw [hlabel, hlabel', heq]

/-! ## Painted pieces -/

/-- The style for a label. -/
def styleOf (theme : Theme) (label : Option String) : Option String :=
  label.bind theme.styleOfLabel

/-- What a terminal reads of a painted piece. -/
def painted (theme : Theme) (piece : Piece) : List Item :=
  match theme.style piece.tag with
  | some sequence =>
    .sequence sequence :: (piece.text.map .character ++ [.sequence Theme.reset])
  | none => piece.text.map .character

section Pieces

variable {theme : Theme} {piece : Piece} {rest : List Item}

theorem painted_some {sequence : String} (h : theme.style piece.tag = some sequence) :
    painted theme piece =
      .sequence sequence :: (piece.text.map .character ++ [.sequence Theme.reset]) := by
  unfold painted
  rw [h]

theorem painted_none (h : theme.style piece.tag = none) :
    painted theme piece = piece.text.map .character := by
  unfold painted
  rw [h]

/-- **A painted piece is read** as its sequence, its characters and the end of the
style. -/
theorem itemsFrom_paint (hl : Legible theme) (hc : '\x1b' ∉ piece.text) (back : List Char) :
    itemsFrom none ((theme.paint piece.tag (String.ofList piece.text)).toList ++ back)
      = painted theme piece ++ itemsFrom none back := by
  unfold Theme.paint
  cases hstyle : theme.style piece.tag with
  | none =>
    rw [painted_none hstyle]
    dsimp only
    rw [String.toList_ofList, itemsFrom_characters hc]
  | some sequence =>
    obtain ⟨label, -, hmem⟩ := mem_styles hstyle
    obtain ⟨parameters, hsequence, hm⟩ := hl.rendition _ hmem
    obtain rfl : sequence = _ := hsequence
    rw [painted_some hstyle]
    dsimp only
    rw [String.toList_append, String.toList_append, String.toList_ofList, List.append_assoc,
      List.append_assoc, itemsFrom_rendition hm, itemsFrom_characters hc, Theme.reset,
      itemsFrom_rendition (by decide)]
    simp

/-- The characters of a painted piece are shown in its style. -/
theorem shown_painted (hl : Legible theme) (piece : Piece) (rest : List Item) :
    shown none (painted theme piece ++ rest)
      = piece.marked (styleOf theme) ++ shown none rest := by
  cases hstyle : theme.style piece.tag with
  | none =>
    rw [painted_none hstyle, shown_characters, ← hstyle]
    rfl
  | some sequence =>
    rw [painted_some hstyle, List.cons_append, shown, Item.styleAfter,
      if_neg (hl.style_ne_reset hstyle), List.append_assoc, shown_characters, List.singleton_append,
      shown, Item.styleAfter, if_pos rfl, ← hstyle]
    rfl

/-- Behind a painted piece no style is active. -/
theorem styleAfter_painted (piece : Piece) (rest : List Item) :
    styleAfter none (painted theme piece ++ rest) = styleAfter none rest := by
  cases hstyle : theme.style piece.tag with
  | none => rw [painted_none hstyle, styleAfter_characters]
  | some sequence =>
    rw [painted_some hstyle, List.cons_append, List.append_assoc]
    show styleAfter _ (piece.text.map Item.character ++ _) = _
    rw [styleAfter_characters]
    rfl

/-- A piece with characters begins with a sequence only if this is its style. -/
theorem style_of_head?_painted (hne : piece.text ≠ []) {sequence : String}
    (h : (painted theme piece ++ rest).head? = some (.sequence sequence)) :
    theme.style piece.tag = some sequence := by
  cases hstyle : theme.style piece.tag with
  | none =>
    obtain ⟨c, cs, htext⟩ := List.exists_cons_of_ne_nil hne
    rw [painted_none hstyle, htext] at h
    cases h
  | some other =>
    rw [painted_some hstyle] at h
    cases h
    rfl

end Pieces

/-! ## Styles that end -/

/-- Where a style is ended, it does not begin again at once. -/
def NeverReopens (items : List Item) : Prop :=
  ∀ front back sequence, items = front ++ .sequence Theme.reset :: .sequence sequence :: back →
    styleAfter none front ≠ some sequence

/-- `NeverReopens`, item by item, from an active style on. -/
def Separated : Option String → List Item → Prop
  | _, [] => True
  | active, item :: items =>
    (item = .sequence Theme.reset →
      ∀ sequence, items.head? = some (.sequence sequence) → active ≠ some sequence) ∧
    Separated (item.styleAfter active) items

/-- Where each end of a style is followed by something else, no style is begun again. -/
theorem Separated.ne {active : Option String} {front back : List Item} {sequence : String}
    (h : Separated active (front ++ .sequence Theme.reset :: .sequence sequence :: back)) :
    styleAfter active front ≠ some sequence := by
  induction front generalizing active with
  | nil => exact h.1 rfl sequence rfl
  | cons item front ih => exact ih h.2

theorem Separated.neverReopens {items : List Item} (h : Separated none items) :
    NeverReopens items := by
  rintro front back sequence rfl
  exact h.ne

/-- Characters end no style. -/
theorem separated_characters (active : Option String) (cs : List Char) {rest : List Item}
    (h : Separated active rest) : Separated active (cs.map .character ++ rest) := by
  induction cs with
  | nil => exact h
  | cons c cs ih =>
    refine ⟨fun heq => ?_, ih⟩
    cases heq

/-- What comes behind a painted piece may begin with another sequence. -/
theorem separated_painted {theme : Theme} (hl : Legible theme) {piece : Piece}
    {rest : List Item} (h : Separated none rest)
    (hnext : ∀ sequence, theme.style piece.tag = some sequence →
      rest.head? ≠ some (.sequence sequence)) :
    Separated none (painted theme piece ++ rest) := by
  cases hstyle : theme.style piece.tag with
  | none =>
    rw [painted_none hstyle]
    exact separated_characters none piece.text h
  | some sequence =>
    have hne := hl.style_ne_reset hstyle
    rw [painted_some hstyle, List.cons_append, List.append_assoc]
    refine ⟨fun heq => absurd (Item.sequence.inj heq) hne, ?_⟩
    rw [Item.styleAfter, if_neg hne]
    refine separated_characters _ _ ⟨fun _ other hother heq => ?_, ?_⟩
    · cases heq
      exact hnext sequence hstyle hother
    · rw [Item.styleAfter, if_pos rfl]
      exact h

/-- **Pieces whose labels change** never begin a style again at once. -/
theorem separated_pieces {theme : Theme} (hl : Legible theme) {pieces : List Piece}
    (hchain : pieces.IsChain fun piece next => piece.tag.label ≠ next.tag.label)
    (hne : ∀ piece ∈ pieces, piece.text ≠ []) {rest : List Item} (h : Separated none rest)
    (hrest : ∀ sequence, rest.head? ≠ some (.sequence sequence)) :
    Separated none (pieces.flatMap (painted theme) ++ rest) := by
  induction pieces with
  | nil => exact h
  | cons piece pieces ih =>
    obtain ⟨hfirst, hchain⟩ := List.isChain_cons.mp hchain
    obtain ⟨-, hne⟩ := List.forall_mem_cons.mp hne
    rw [List.flatMap_cons, List.append_assoc]
    refine separated_painted hl (ih hchain hne) fun sequence hstyle => ?_
    cases pieces with
    | nil => exact hrest sequence
    | cons next pieces =>
      -- The next piece begins with its own style, which is not that of this one.
      rw [List.flatMap_cons, List.append_assoc]
      intro hhead
      have hnext := style_of_head?_painted (hne next List.mem_cons_self) hhead
      exact hfirst next rfl (hl.tag_label_eq hstyle hnext)

end Painting

end OCamlHighlight
