/-
# Bytes that are text

A scan walks over the bytes of a line, and not every place between two bytes is
one between two characters.  `IsText` says that bytes are the UTF-8 form of some
characters, and this file collects the places where text can be cut into text:

* around every ASCII byte (`IsText.of_ascii`), because no byte of a longer
  character is one;
* behind the first character, as wide as its first byte says
  (`IsText.first_character`).

Where a line is cut in this way (`IsCut`) there is a position of the line
(`IsCut.isValid`).
-/
import OCamlHighlight.Byte

namespace OCamlHighlight

open Byte

/-- Bytes that are the UTF-8 form of some characters. -/
def IsText (bs : List Byte) : Prop := ∃ cs : List Char, bs = cs.flatMap String.utf8EncodeChar

theorem isText_nil : IsText [] := ⟨[], rfl⟩

/-- Text behind text is text. -/
theorem IsText.append {front back : List Byte} (hfront : IsText front) (hback : IsText back) :
    IsText (front ++ back) := by
  obtain ⟨cs, rfl⟩ := hfront
  obtain ⟨ds, rfl⟩ := hback
  exact ⟨cs ++ ds, List.flatMap_append.symm⟩

/-- The bytes of a line are text. -/
theorem isText_bytes (line : String) : IsText (bytes line) := by
  obtain ⟨cs, hcs⟩ := line.isValidUTF8
  refine ⟨cs, ?_⟩
  rw [bytes, hcs, List.utf8Encode, List.data_toByteArray, List.toList_toArray]

/-- A line is determined by its bytes. -/
theorem eq_of_bytes_eq {line other : String} (h : bytes line = bytes other) : line = other :=
  String.toByteArray_inj.mp (ByteArray.ext (Array.toList_inj.mp h))

/-- The bytes of some characters. -/
theorem bytes_ofList (cs : List Char) :
    bytes (String.ofList cs) = cs.flatMap String.utf8EncodeChar := by
  rw [bytes, String.toByteArray_ofList, List.utf8Encode, List.data_toByteArray,
    List.toList_toArray]

/-- The bytes of a line are those of its characters. -/
theorem bytes_eq_flatMap (line : String) :
    bytes line = line.toList.flatMap String.utf8EncodeChar := by
  rw [← bytes_ofList, String.ofList_toList]

/-- Text is the bytes of a line. -/
theorem IsText.exists_bytes {bs : List Byte} (h : IsText bs) :
    ∃ line : String, bytes line = bs := by
  obtain ⟨cs, rfl⟩ := h
  exact ⟨String.ofList cs, bytes_ofList cs⟩

/-- Between texts there is a position of the line. -/
theorem isValid_of_isText {line : String} {front back : List Byte}
    (hline : bytes line = front ++ back) (hfront : IsText front) (hback : IsText back) :
    (⟨front.length⟩ : String.Pos.Raw).IsValid line := by
  obtain ⟨s, rfl⟩ := hfront.exists_bytes
  obtain ⟨t, rfl⟩ := hback.exists_bytes
  refine String.Pos.Raw.isValid_iff_exists_append.mpr ⟨s, t, ?_, ?_⟩
  · refine eq_of_bytes_eq ?_
    rw [hline, bytes_append]
  · rw [length_bytes]
    rfl

/-! ## Cuts -/

/-- The first `n` bytes are text, and so are the others. -/
def IsCut (bs : List Byte) (n : Nat) : Prop :=
  n ≤ bs.length ∧ IsText (bs.take n) ∧ IsText (bs.drop n)

theorem isCut_zero {bs : List Byte} (h : IsText bs) : IsCut bs 0 :=
  ⟨Nat.zero_le _, isText_nil, h⟩

/-- A cut behind a cut is one of the whole text. -/
theorem IsCut.add {bs : List Byte} {n m : Nat} (h : IsCut bs n) (h' : IsCut (bs.drop n) m) :
    IsCut bs (n + m) := by
  obtain ⟨hn, hfront, -⟩ := h
  obtain ⟨hm, hmid, hback⟩ := h'
  rw [List.length_drop] at hm
  rw [List.drop_drop] at hback
  refine ⟨by omega, ?_, hback⟩
  rw [List.take_add]
  exact hfront.append hmid

/-- **A cut is a position of the line.** -/
theorem IsCut.isValid {line : String} {n : Nat} (h : IsCut (bytes line) n) :
    (⟨n⟩ : String.Pos.Raw).IsValid line := by
  obtain ⟨hn, hfront, hback⟩ := h
  have hvalid := isValid_of_isText (List.take_append_drop n (bytes line)).symm hfront hback
  rwa [List.length_take, Nat.min_eq_left hn] at hvalid

/-! ## Around an ASCII byte -/

/-- An ASCII byte begins a character. -/
theorem isUTF8FirstByte_of_ascii : ∀ b : Byte, isHigh b = false → b.IsUTF8FirstByte :=
  forall_of_forall_lt (by decide +kernel)

/-- A character that begins with an ASCII byte has no other. -/
theorem length_of_ascii_cons {c : Char} {b : Byte} {bs : List Byte}
    (h : String.utf8EncodeChar c = b :: bs) (hb : isHigh b = false) : bs = [] := by
  have hlen := String.length_utf8EncodeChar c
  have hhigh : ∀ x : Byte, isHigh (x &&& 0x1f ||| 0xc0) ∧ isHigh (x &&& 0x0f ||| 0xe0) ∧
      isHigh (x &&& 0x07 ||| 0xf0) := forall_of_forall_lt (by decide +kernel)
  rcases c.utf8Size_eq with h1 | h2 | h3 | h4
  · rw [h, h1] at hlen
    exact List.length_eq_zero_iff.mp (Nat.succ.inj hlen)
  · rw [String.utf8EncodeChar_eq_cons_cons h2] at h
    have hx := (hhigh (c.val >>> 6).toUInt8).1
    rw [(List.cons.inj h).1, hb] at hx
    cases hx
  · rw [String.utf8EncodeChar_eq_cons_cons_cons h3] at h
    have hx := (hhigh (c.val >>> 12).toUInt8).2.1
    rw [(List.cons.inj h).1, hb] at hx
    cases hx
  · rw [String.utf8EncodeChar_eq_cons_cons_cons_cons h4] at h
    have hx := (hhigh (c.val >>> 18).toUInt8).2.2
    rw [(List.cons.inj h).1, hb] at hx
    cases hx

/-- In a character only the first byte can be ASCII. -/
theorem nil_of_ascii_append {c : Char} {front back : List Byte} {b : Byte}
    (h : String.utf8EncodeChar c = front ++ b :: back) (hb : isHigh b = false) :
    front = [] ∧ back = [] := by
  have hlt : front.length < (String.utf8EncodeChar c).length := by
    rw [h]
    simp
  have hget : (String.utf8EncodeChar c)[front.length] = b := by
    simp [h]
  have hfirst := isUTF8FirstByte_of_ascii b hb
  rw [← hget, UInt8.isUTF8FirstByte_getElem_utf8EncodeChar] at hfirst
  obtain rfl := List.length_eq_zero_iff.mp hfirst
  exact ⟨rfl, length_of_ascii_cons h hb⟩

/-- The bytes of one character are text. -/
theorem isText_character (c : Char) : IsText (String.utf8EncodeChar c) :=
  ⟨[c], (List.append_nil _).symm⟩

/-- **Text can be cut around an ASCII byte.** -/
theorem IsText.of_ascii {front back : List Byte} {b : Byte} (h : IsText (front ++ b :: back))
    (hb : isHigh b = false) : IsText front ∧ IsText [b] ∧ IsText back := by
  obtain ⟨cs, hcs⟩ := h
  induction cs generalizing front with
  | nil => simp at hcs
  | cons c cs ih =>
    rw [List.flatMap_cons] at hcs
    rcases List.append_eq_append_iff.mp hcs with ⟨mid, hmid, hrest⟩ | ⟨mid, hmid, hrest⟩
    · cases mid with
      | nil =>
        -- The byte comes right behind the first character.
        rw [List.append_nil] at hmid
        exact ⟨hmid ▸ isText_character c, (@ih [] hrest).2⟩
      | cons x mid =>
        -- The byte is in the first character, and so it is all of it.
        obtain ⟨rfl, hback⟩ := List.cons.inj hrest
        obtain ⟨rfl, rfl⟩ := nil_of_ascii_append hmid hb
        exact ⟨isText_nil, ⟨[c], by simpa using hmid.symm⟩, cs, hback⟩
    · obtain ⟨hfront, hback⟩ := ih hrest.symm
      exact ⟨hmid ▸ (isText_character c).append hfront, hback⟩

section Cut

variable {bs : List Byte} {n : Nat} {b : Byte}

/-- Bytes with the one at a given place set apart. -/
theorem take_append_cons_drop (hget : bs[n]? = some b) :
    bs.take n ++ b :: bs.drop (n + 1) = bs := by
  obtain ⟨hn, rfl⟩ := List.getElem?_eq_some_iff.mp hget
  rw [← List.drop_eq_getElem_cons hn, List.take_append_drop]

/-- Text can be cut behind an ASCII byte. -/
theorem IsText.cut_behind_ascii (h : IsText bs) (hget : bs[n]? = some b)
    (hb : isHigh b = false) : IsCut bs (n + 1) := by
  rw [← take_append_cons_drop hget] at h
  obtain ⟨hfront, hbyte, hback⟩ := h.of_ascii hb
  refine ⟨(List.getElem?_eq_some_iff.mp hget).1, ?_, hback⟩
  rw [List.take_add_one, hget, Option.toList_some]
  exact hfront.append hbyte

end Cut

/-! ## Clean ends -/

/-- A length ends clean in some bytes if it takes all of them, or if the last
byte that it takes is ASCII. -/
def EndsClean (bs : List Byte) (n : Nat) : Prop :=
  n = bs.length ∨ ∃ m b, n = m + 1 ∧ bs[m]? = some b ∧ isHigh b = false

theorem EndsClean.le {bs : List Byte} {n : Nat} (h : EndsClean bs n) : n ≤ bs.length := by
  rcases h with rfl | ⟨m, b, rfl, hget, -⟩
  · exact Nat.le_refl _
  · exact (List.getElem?_eq_some_iff.mp hget).1

/-- One byte that is ASCII ends clean. -/
theorem EndsClean.one {b : Byte} (hb : isHigh b = false) (bs : List Byte) :
    EndsClean (b :: bs) 1 := Or.inr ⟨0, b, rfl, rfl, hb⟩

/-- A byte in front does not matter. -/
theorem EndsClean.cons {bs : List Byte} {n : Nat} (b : Byte) (h : EndsClean bs n) :
    EndsClean (b :: bs) (n + 1) := by
  rcases h with rfl | ⟨m, x, rfl, hget, hx⟩
  · exact Or.inl rfl
  · exact Or.inr ⟨m + 1, x, rfl, hget, hx⟩

/-- Bytes in front do not matter. -/
theorem EndsClean.of_drop {bs : List Byte} {n m : Nat} (hn : n ≤ bs.length)
    (h : EndsClean (bs.drop n) m) : EndsClean bs (n + m) := by
  rcases h with rfl | ⟨m, x, rfl, hget, hx⟩
  · rw [List.length_drop]
    exact Or.inl (by omega)
  · rw [List.getElem?_drop] at hget
    exact Or.inr ⟨n + m, x, rfl, hget, hx⟩

/-- **Text can be cut at a clean end.** -/
theorem IsText.cut {bs : List Byte} {n : Nat} (h : IsText bs) (hn : EndsClean bs n) :
    IsCut bs n := by
  rcases hn with rfl | ⟨m, b, rfl, hget, hb⟩
  · refine ⟨Nat.le_refl _, ?_, ?_⟩
    · rwa [List.take_length]
    · rw [List.drop_length]
      exact isText_nil
  · exact h.cut_behind_ascii hget hb

/-! ## Behind the first character -/

/-- An ASCII byte is a character on its own. -/
theorem charWidth_of_ascii : ∀ b : Byte, isHigh b = false → charWidth b = 1 :=
  forall_of_forall_lt (by decide +kernel)

/-- The first byte of a character tells how many it has. -/
theorem length_character {c : Char} {b : Byte} {bs : List Byte}
    (h : String.utf8EncodeChar c = b :: bs) : charWidth b = bs.length + 1 := by
  have hwidth : ∀ x : Byte, charWidth (x &&& 0x1f ||| 0xc0) = 2 ∧
      charWidth (x &&& 0x0f ||| 0xe0) = 3 ∧ charWidth (x &&& 0x07 ||| 0xf0) = 4 :=
    forall_of_forall_lt (by decide +kernel)
  rcases c.utf8Size_eq with h1 | h2 | h3 | h4
  · rw [String.utf8EncodeChar_eq_singleton h1] at h
    obtain ⟨rfl, rfl⟩ := List.cons.inj h
    have hle : c.val.toNat ≤ 127 := UInt32.le_iff_toNat_le.mp (Char.utf8Size_eq_one_iff.mp h1)
    refine charWidth_of_ascii _ ?_
    rw [isHigh, decide_eq_false_iff_not, UInt8.le_iff_toNat_le, UInt32.toNat_toUInt8]
    have h128 : (0x80 : UInt8).toNat = 128 := rfl
    omega
  · rw [String.utf8EncodeChar_eq_cons_cons h2] at h
    obtain ⟨rfl, rfl⟩ := List.cons.inj h
    exact (hwidth _).1
  · rw [String.utf8EncodeChar_eq_cons_cons_cons h3] at h
    obtain ⟨rfl, rfl⟩ := List.cons.inj h
    exact (hwidth _).2.1
  · rw [String.utf8EncodeChar_eq_cons_cons_cons_cons h4] at h
    obtain ⟨rfl, rfl⟩ := List.cons.inj h
    exact (hwidth _).2.2

/-- **Text can be cut behind its first character.** -/
theorem IsText.first_character {b : Byte} {bs : List Byte} (h : IsText (b :: bs)) :
    IsCut (b :: bs) (charWidth b) := by
  obtain ⟨cs, hcs⟩ := h
  cases cs with
  | nil => simp at hcs
  | cons c cs =>
    rw [List.flatMap_cons] at hcs
    obtain ⟨x, rest, hx⟩ := List.exists_cons_of_ne_nil (String.utf8EncodeChar_ne_nil (c := c))
    have hb : b = x := by
      rw [hx, List.cons_append] at hcs
      exact (List.cons.inj hcs).1
    have hwidth : charWidth b = (String.utf8EncodeChar c).length := by
      rw [hb, length_character hx, hx, List.length_cons]
    unfold IsCut
    rw [hcs, hwidth, List.take_left, List.drop_left, List.length_append]
    exact ⟨Nat.le_add_right _ _, isText_character c, cs, rfl⟩

end OCamlHighlight
