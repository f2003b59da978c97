/-
# Texts and their lines

A text is cut at its line feeds.  The lines with line feeds between them are the text
again (`intercalate_linesOf`), so that a text is known by its lines.

Line feeds at the end of a text are empty lines behind the others.  Whoever looks a line
up by its number, and takes a line that is not there for an empty one, does not see them,
and nothing else is hidden from him (`rdropWhile_eq_iff_lines`).
-/
import Mathlib.Data.List.DropRight
import OCamlHighlight.Highlighter

namespace OCamlHighlight

/-- A part of joined parts. -/
theorem mem_intercalate {α : Type} {sep part : List α} {parts : List (List α)} {x : α}
    (hpart : part ∈ parts) (hx : x ∈ part) : x ∈ sep.intercalate parts := by
  induction parts with
  | nil => cases hpart
  | cons first parts ih =>
    by_cases hparts : parts = []
    · subst hparts
      rw [List.intercalate_singleton]
      rwa [List.mem_singleton.mp hpart] at hx
    · rw [List.intercalate_cons_of_ne_nil hparts, List.mem_append, List.mem_append]
      rcases List.mem_cons.mp hpart with rfl | hmem
      · exact Or.inl (Or.inl hx)
      · exact Or.inr (ih hmem)

/-- **The lines of a text**, with line breaks between them, are the text. -/
theorem intercalate_linesOf (text : String) :
    ['\n'].intercalate ((linesOf text).map String.toList) = text.toList := by
  have hlines : (linesOf text).map String.toList = text.toList.splitOn '\n' := by
    unfold linesOf
    rw [List.map_map]
    have hid : String.toList ∘ String.ofList = id := funext fun _ => String.toList_ofList
    rw [hid, List.map_id]
  rw [hlines, List.intercalate_splitOn]

/-- A text is known by its lines. -/
theorem eq_of_linesOf_eq {text other : String} (h : linesOf text = linesOf other) :
    text = other := by
  rw [← String.toList_inj, ← intercalate_linesOf, h, intercalate_linesOf]

/-- A text has a line. -/
theorem linesOf_ne_nil (text : String) : linesOf text ≠ [] := by
  unfold linesOf
  rw [Ne, List.map_eq_nil_iff]
  exact List.splitOn_ne_nil _ _

/-- The characters of a line are characters of the text. -/
theorem mem_of_mem_linesOf {text line : String} (hline : line ∈ linesOf text) {c : Char}
    (hc : c ∈ line.toList) : c ∈ text.toList := by
  rw [← intercalate_linesOf text]
  exact mem_intercalate (List.mem_map_of_mem hline) hc

/-- A text goes on behind a line feed with other lines. -/
theorem linesOf_append_newline (front back : List Char) :
    linesOf (String.ofList (front ++ '\n' :: back))
      = linesOf (String.ofList front) ++ linesOf (String.ofList back) := by
  simp only [linesOf, String.toList_ofList, List.splitOn_append_cons_self, List.map_append]

/-- A line in front of a text. -/
theorem linesOf_cons {line : List Char} (hline : '\n' ∉ line) (back : List Char) :
    linesOf (String.ofList (line ++ '\n' :: back))
      = String.ofList line :: linesOf (String.ofList back) := by
  simp only [linesOf, String.toList_ofList, List.splitOn_append_cons_self_of_not_mem hline,
    List.map_cons]

/-- A text without line feeds is a line. -/
theorem linesOf_line {line : String} (hline : '\n' ∉ line.toList) : linesOf line = [line] := by
  unfold linesOf
  rw [List.splitOn_eq_singleton hline, List.map_singleton, String.ofList_toList]

/-- There is no line feed in two texts if there is none in either. -/
theorem newline_not_mem_append {line more : String} (hline : '\n' ∉ line.toList)
    (hmore : '\n' ∉ more.toList) : '\n' ∉ (line ++ more).toList := by
  rw [String.toList_append, List.mem_append, not_or]
  exact ⟨hline, hmore⟩

/-- A line, a line feed and a text. -/
theorem linesOf_line_append {line : String} (hline : '\n' ∉ line.toList) (text : String) :
    linesOf (line ++ "\n" ++ text) = line :: linesOf text := by
  have htext : line ++ "\n" ++ text = String.ofList (line.toList ++ '\n' :: text.toList) := by
    rw [← String.toList_inj, String.toList_ofList, String.toList_append, String.toList_append,
      List.append_assoc]
    rfl
  rw [htext, linesOf_cons hline, String.ofList_toList, String.ofList_toList]

/-- What holds of every line, and of a line in front of every text of which it holds, holds of
every text. -/
theorem line_induction {P : String → Prop} (line : ∀ line : String, '\n' ∉ line.toList → P line)
    (cons : ∀ line text : String, '\n' ∉ line.toList → P text → P (line ++ "\n" ++ text))
    (text : String) : P text := by
  by_cases hbreak : '\n' ∈ text.toList
  · obtain ⟨front, back, htext, hfront⟩ := List.eq_append_cons_of_mem hbreak
    have hsplit : text = String.ofList front ++ "\n" ++ String.ofList back := by
      rw [← String.toList_inj, String.toList_append, String.toList_append,
        @String.toList_ofList back, String.toList_ofList, List.append_assoc]
      exact htext
    rw [hsplit]
    refine cons _ _ (by rwa [String.toList_ofList]) (line_induction line cons (String.ofList back))
  · exact line text hbreak
termination_by text.toList.length
decreasing_by
  rw [String.toList_ofList, htext, List.length_append, List.length_cons]
  omega

/-- A line is not longer than the text. -/
theorem utf8ByteSize_le_of_mem_linesOf {text line : String} (hline : line ∈ linesOf text) :
    line.utf8ByteSize ≤ text.utf8ByteSize := by
  induction text using line_induction with
  | line text htext =>
    rw [linesOf_line htext] at hline
    rw [List.mem_singleton.mp hline]
  | cons first text hfirst ih =>
    rw [linesOf_line_append hfirst] at hline
    rw [String.utf8ByteSize_append, String.utf8ByteSize_append]
    rcases List.mem_cons.mp hline with rfl | hmem
    · omega
    · have hle := ih hmem
      omega

/-! ## Line feeds at the end -/

/-- Line feeds at the end are empty lines. -/
theorem linesOf_append_replicate (front : List Char) (k : Nat) :
    linesOf (String.ofList (front ++ List.replicate k '\n'))
      = linesOf (String.ofList front) ++ List.replicate k "" := by
  induction k with
  | zero => rw [List.replicate_zero, List.replicate_zero, List.append_nil, List.append_nil]
  | succ k ih =>
    rw [List.replicate_succ', List.replicate_succ', ← List.append_assoc, ← List.append_assoc,
      linesOf_append_newline, ih]
    rfl

/-- A text without the line feeds at its end, and these. -/
theorem exists_replicate (text : String) :
    ∃ k, text.toList = text.toList.rdropWhile (· == '\n') ++ List.replicate k '\n' := by
  refine ⟨(text.toList.rtakeWhile (· == '\n')).length, ?_⟩
  have hall : text.toList.rtakeWhile (· == '\n')
      = List.replicate (text.toList.rtakeWhile (· == '\n')).length '\n' :=
    List.eq_replicate_of_mem fun c hc =>
      beq_iff_eq.mp (@List.mem_rtakeWhile_imp _ (· == '\n') _ c hc)
  rw [← hall, List.rdropWhile_append_rtakeWhile]

/-- Line feeds more at the end are dropped as well. -/
theorem rdropWhile_append_replicate (front : List Char) (k : Nat) :
    (front ++ List.replicate k '\n').rdropWhile (· == '\n') = front.rdropWhile (· == '\n') := by
  induction k with
  | zero => rw [List.replicate_zero, List.append_nil]
  | succ k ih =>
    rw [List.replicate_succ', ← List.append_assoc, List.rdropWhile_concat_pos _ _ _ rfl, ih]

/-- A line that is not there is an empty one. -/
theorem getD_append_replicate (lines : List String) (k n : Nat) :
    (lines ++ List.replicate k "").getD n "" = lines.getD n "" := by
  rw [List.getD_eq_getElem?_getD, List.getD_eq_getElem?_getD]
  rcases Nat.lt_or_ge n lines.length with hlt | hge
  · rw [List.getElem?_append_left hlt]
  · rw [List.getElem?_append_right hge, List.getElem?_eq_none hge, List.getElem?_replicate]
    split <;> rfl

/-- Of two lists in which the same lines are found the longer one has more empty
lines. -/
theorem eq_append_replicate {lines more : List String} (hle : lines.length ≤ more.length)
    (h : ∀ n, lines.getD n "" = more.getD n "") :
    more = lines ++ List.replicate (more.length - lines.length) "" := by
  have hlength : more.length = (lines ++ List.replicate (more.length - lines.length) "").length := by
    rw [List.length_append, List.length_replicate, Nat.add_sub_cancel' hle]
  refine List.ext_getElem hlength fun n hn hn' => ?_
  have hget := (getD_append_replicate lines (more.length - lines.length) n).trans (h n)
  rw [List.getD_eq_getElem?_getD, List.getD_eq_getElem?_getD, List.getElem?_eq_getElem hn,
    List.getElem?_eq_getElem hn'] at hget
  exact hget.symm

/-- A text with more empty lines is one with more line feeds. -/
theorem rdropWhile_eq_of_lines {text other : String}
    (hle : (linesOf text).length ≤ (linesOf other).length)
    (h : ∀ n, (linesOf text).getD n "" = (linesOf other).getD n "") :
    text.toList.rdropWhile (· == '\n') = other.toList.rdropWhile (· == '\n') := by
  have hlines := linesOf_append_replicate text.toList
    ((linesOf other).length - (linesOf text).length)
  rw [String.ofList_toList, ← eq_append_replicate hle h] at hlines
  rw [← eq_of_linesOf_eq hlines, String.toList_ofList, rdropWhile_append_replicate]

/-- **Line feeds at the end** are all that the numbered lines of a text do not tell. -/
theorem rdropWhile_eq_iff_lines (text other : String) :
    text.toList.rdropWhile (· == '\n') = other.toList.rdropWhile (· == '\n') ↔
      ∀ n, (linesOf text).getD n "" = (linesOf other).getD n "" := by
  constructor
  · intro h n
    have hget : ∀ text : String, (linesOf text).getD n ""
        = (linesOf (String.ofList (text.toList.rdropWhile (· == '\n')))).getD n "" := by
      intro text
      obtain ⟨k, hk⟩ := exists_replicate text
      have hlines := linesOf_append_replicate (text.toList.rdropWhile (· == '\n')) k
      rw [← hk, String.ofList_toList] at hlines
      rw [hlines, getD_append_replicate]
    rw [hget text, hget other, h]
  · intro h
    rcases Nat.le_total (linesOf text).length (linesOf other).length with hle | hle
    · exact rdropWhile_eq_of_lines hle h
    · exact (rdropWhile_eq_of_lines hle fun n => (h n).symm).symm

end OCamlHighlight
