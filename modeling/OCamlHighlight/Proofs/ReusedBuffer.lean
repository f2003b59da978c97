/-
# A buffer that is used again

A host keeps one buffer and puts one line after the other into it.  This happens in three
steps: the storage is cleared, it is filled with zeros up to a size that a mask in 64 bits
gives, and the line is copied over the front, where it must fit.

* `toNat_paddedSize`: the mask rounds up as `storageSize` does.
* `reset?_eq`: the line always fits, and the three steps give what `reset` gives.
* `Holds`: a line with zeros behind it, and no trace of any line before.
* `reset_holds_lines`: a buffer that lines have been put into holds every one in its turn.
-/
import OCamlHighlight.Proofs.CheckedScan
import Mathlib.Data.List.Forall2
import Mathlib.Order.Bounds.Basic

namespace OCamlHighlight

namespace LineBuffer

/-! ## Sizes -/

/-- The size of a cache line. -/
def cacheLine : UInt64 := 64

/-- The size of the storage for a line, with the low bits of a word cleared. -/
def paddedSize (length : UInt64) : UInt64 :=
  (length + 1 + cacheLine - 1) &&& ~~~(cacheLine - 1)

/-- A word without its six low bits. -/
theorem and_not_low (n : Nat) (h : n < 2 ^ 64) : n &&& (2 ^ 58 - 1) <<< 6 = n / 64 * 64 := by
  have hshift : n / 64 * 64 = n >>> 6 <<< 6 := by
    rw [Nat.shiftLeft_eq, Nat.shiftRight_eq_div_pow]
  rw [hshift]
  apply Nat.eq_of_testBit_eq
  intro i
  rw [Nat.testBit_and, Nat.testBit_shiftLeft, Nat.testBit_shiftLeft, Nat.testBit_shiftRight,
    Nat.testBit_two_pow_sub_one]
  by_cases hlow : 6 ≤ i
  · rcases Nat.lt_or_ge i 64 with hi | hi
    · have hin : i - 6 < 58 := by omega
      simp [hlow, hin]
    · -- no bit of `n` is that high
      have hbit : n.testBit i = false :=
        Nat.testBit_lt_two_pow (h.trans_le (Nat.pow_le_pow_right (by decide) hi))
      simp [hlow, hbit]
  · simp [hlow]

/-- **The mask** gives the size of the storage, as long as nothing overflows. -/
theorem toNat_paddedSize {length : Nat} (h : length + 64 < 2 ^ 64) :
    (paddedSize (.ofNat length)).toNat = storageSize length := by
  have hlength : (UInt64.ofNat length).toNat = length :=
    UInt64.toNat_ofNat_of_lt (Nat.lt_of_le_of_lt (Nat.le_add_right _ _) h)
  have hsum : (UInt64.ofNat length + 1 + cacheLine - 1).toNat = length + 64 := by
    have hassoc : UInt64.ofNat length + 1 + cacheLine - 1 = UInt64.ofNat length + 64 := by
      rw [cacheLine, UInt64.add_assoc, UInt64.sub_eq_add_neg, UInt64.add_assoc]
      rfl
    rw [hassoc, UInt64.toNat_add, hlength]
    exact Nat.mod_eq_of_lt h
  have hmask : (~~~(cacheLine - 1)).toNat = (2 ^ 58 - 1) <<< 6 := by decide
  rw [paddedSize, UInt64.toNat_and, hsum, hmask, and_not_low _ h, storageSize, roundUp_eq]

/-- The storage for a line is the least one in whole cache lines with room for the line
and its sentinel. -/
theorem isLeast_storageSize (length : Nat) :
    IsLeast {size | cacheLine.toNat ∣ size ∧ length < size} (storageSize length) := by
  refine ⟨⟨?_, lt_storageSize length⟩, ?_⟩
  · rw [storageSize, roundUp_eq]
    exact Nat.dvd_mul_left _ _
  · rintro _ ⟨⟨count, rfl⟩, hroom⟩
    rw [storageSize, roundUp_eq]
    show _ ≤ 64 * count
    have hroom : length < 64 * count := hroom
    omega

/-! ## The three steps -/

/-- Cuts a storage off at a size, or puts zeros behind up to it. -/
def resize (storage : Array Byte) (size : Nat) : Array Byte :=
  pad (size - storage.size) (storage.shrink size)

/-- Copies bytes over the front of a storage, which must have room for them. -/
def overwrite? (storage : Array Byte) (content : List Byte) : Option (Array Byte) :=
  if content.length ≤ storage.size then
    some (content.toArray ++ storage.extract content.length)
  else
    none

/-- Replaces the line of a buffer step by step. -/
def reset? (buffer : LineBuffer) (line : String) : Option LineBuffer := do
  let content := (bytes line).take maxLength
  let cleared := buffer.storage.shrink 0
  let zeros := resize cleared (paddedSize (.ofNat content.length)).toNat
  let storage ← overwrite? zeros content
  return ⟨storage, content.length⟩

/-- A buffer for a line, step by step. -/
def ofLine? (line : String) : Option LineBuffer := empty.reset? line

/-- What was in a storage that has been cleared does not come back. -/
theorem toList_resize_clear (storage : Array Byte) (size : Nat) :
    (resize (storage.shrink 0) size).toList = List.replicate size 0 := by
  simp [resize, toList_pad]

theorem toList_overwrite? {storage : Array Byte} {content : List Byte}
    (h : content.length ≤ storage.size) :
    ∃ result, overwrite? storage content = some result ∧
      result.toList = content ++ storage.toList.drop content.length := by
  refine ⟨_, if_pos h, ?_⟩
  simp [List.extract_eq_take_drop]

/-- **The three steps** always come to an end, and give what `reset` gives. -/
theorem reset?_eq (buffer : LineBuffer) (line : String) :
    buffer.reset? line = some (buffer.reset line) := by
  have hreset := storage_reset buffer line
  have hlength : (buffer.reset line).length = ((bytes line).take maxLength).length := rfl
  rw [hlength] at hreset
  generalize hcontent : (bytes line).take maxLength = content at hreset
  have hshort : content.length + 64 < 2 ^ 64 := by
    have hle : content.length ≤ maxLength := hcontent ▸ List.length_take_le _ _
    unfold maxLength at hle
    omega
  have hzeros := toList_resize_clear buffer.storage (storageSize content.length)
  have hroom : content.length ≤ (resize (buffer.storage.shrink 0)
      (storageSize content.length)).size := by
    rw [← Array.length_toList, hzeros, List.length_replicate]
    exact Nat.le_of_lt (lt_storageSize _)
  obtain ⟨storage, hstorage, hlist⟩ := toList_overwrite? hroom
  have hsame : storage = (buffer.reset line).storage := by
    rw [← Array.toList_inj, hlist, hreset, hzeros, List.drop_replicate]
  unfold reset?
  dsimp only
  rw [hcontent, toNat_paddedSize hshort, hstorage, hsame, ← hcontent, ← hlength]
  rfl

/-! ## What a buffer holds -/

/-- A buffer holds a line, and nothing else. -/
structure Holds (buffer : LineBuffer) (line : String) : Prop where
  content : buffer.content = bytes line
  length : buffer.length = line.utf8ByteSize
  /-- The storage has the size that the mask gives, -/
  size : buffer.storage.size = (paddedSize (.ofNat buffer.length)).toNat
  /-- which is the least one in whole cache lines with room for a sentinel. -/
  least : IsLeast {size | 64 ∣ size ∧ buffer.length < size} buffer.storage.size
  zeros : ∀ i, buffer.length ≤ i → i < buffer.storage.size → buffer.storage[i]? = some 0
  /-- A cursor finds the sentinel. -/
  cursor : buffer.cursor = .ok ⟨buffer, 0⟩
  /-- There is no trace of the lines before. -/
  fresh : buffer = ofLine line

variable {line : String}

theorem length_ofLine (fits : line.utf8ByteSize < 2 ^ 32) :
    (ofLine line).length = line.utf8ByteSize := by
  have hlength : (ofLine line).length = 0 + (bytes line).length := (before_ofLine fits).length_eq
  rw [hlength, Nat.zero_add, length_bytes]

theorem toList_storage_ofLine (fits : line.utf8ByteSize < 2 ^ 32) :
    (ofLine line).storage.toList =
      bytes line ++ List.replicate (storageSize line.utf8ByteSize - line.utf8ByteSize) 0 := by
  have hstorage := storage_reset empty line
  rw [take_maxLength fits] at hstorage
  rw [← length_ofLine fits]
  exact hstorage

theorem size_ofLine (fits : line.utf8ByteSize < 2 ^ 32) :
    (ofLine line).storage.size = storageSize line.utf8ByteSize := by
  have hroom := lt_storageSize line.utf8ByteSize
  rw [← Array.length_toList, toList_storage_ofLine fits, List.length_append, length_bytes,
    List.length_replicate]
  omega

/-- **A new buffer** holds its line. -/
theorem holds_ofLine (fits : line.utf8ByteSize < 2 ^ 32) : (ofLine line).Holds line where
  content := by
    rw [content_ofLine, take_maxLength fits]
  length := length_ofLine fits
  size := by
    have hshort : line.utf8ByteSize + 64 < 2 ^ 64 := by omega
    rw [size_ofLine fits, length_ofLine fits, toNat_paddedSize hshort]
  least := by
    rw [size_ofLine fits, length_ofLine fits]
    exact isLeast_storageSize _
  zeros := by
    intro i hbehind hin
    rw [length_ofLine fits] at hbehind
    rw [size_ofLine fits] at hin
    rw [← Array.getElem?_toList, toList_storage_ofLine fits,
      List.getElem?_append_right (by rwa [length_bytes]), length_bytes, List.getElem?_replicate,
      if_pos (by omega)]
  cursor := cursor_of_before (before_ofLine fits)
  fresh := rfl

/-- **One line more.**  Whatever a buffer has been used for, it holds the line that is put
into it. -/
theorem holds_reset (buffer : LineBuffer) (fits : line.utf8ByteSize < 2 ^ 32) :
    (buffer.reset line).Holds line := by
  rw [reset_eq]
  exact holds_ofLine fits

/-- **All lines.**  A buffer holds every line in its turn. -/
theorem holds_scanl {buffer : LineBuffer} (h : buffer.Holds line) {others : List String}
    (fits : ∀ other ∈ others, other.utf8ByteSize < 2 ^ 32) :
    List.Forall₂ Holds (others.scanl reset buffer) (line :: others) := by
  induction others generalizing buffer line with
  | nil => exact .cons h .nil
  | cons other others ih =>
    obtain ⟨hother, hothers⟩ := List.forall_mem_cons.mp fits
    rw [List.scanl_cons]
    exact .cons h (ih (holds_reset buffer hother) hothers)

/-- The three steps, for one line after the other. -/
theorem scanlM_reset? (buffer : LineBuffer) (lines : List String) :
    lines.scanlM reset? buffer = some (lines.scanl reset buffer) := by
  have hreset : reset? = fun buffer line => pure (buffer.reset line) := by
    funext buffer line
    exact reset?_eq buffer line
  rw [hreset]
  exact List.scanlM_pure

/-- **A buffer in use.**  A line is put into a new buffer, and other lines into it after
that, step by step.  No step fails, and behind each one the buffer holds the line of that
step: its bytes, in a storage of the least size that has room for a sentinel, with zeros
behind them, as in a new buffer. -/
theorem reset_holds_lines (first : String) (others : List String)
    (fits : ∀ line ∈ first :: others, line.utf8ByteSize < 2 ^ 32) :
    ∃ buffers, (ofLine? first).bind (others.scanlM reset?) = some buffers ∧
      buffers = others.scanl reset (ofLine first) ∧
      List.Forall₂ Holds buffers (first :: others) := by
  obtain ⟨hfirst, hothers⟩ := List.forall_mem_cons.mp fits
  refine ⟨_, ?_, rfl, holds_scanl (holds_ofLine hfirst) hothers⟩
  have hnew : ofLine? first = some (ofLine first) := reset?_eq empty first
  rw [hnew]
  exact scanlM_reset? (ofLine first) others

/-- A line that fills a cache line, so that its sentinel stands in the next one, and then
shorter ones in the same buffer. -/
theorem reset_holds_lines_shorter :
    let first := String.ofList (List.replicate 64 'y')
    let others := ["let x", String.ofList (List.replicate 63 'z'), ""]
    (∀ line ∈ first :: others, line.utf8ByteSize < 2 ^ 32) ∧
    (others.scanl reset (ofLine first)).map (·.storage.size) = [128, 64, 64, 64] ∧
    ∃ buffers, (ofLine? first).bind (others.scanlM reset?) = some buffers ∧
      buffers = others.scanl reset (ofLine first) ∧
      List.Forall₂ Holds buffers (first :: others) := by
  intro first others
  have hfits : ∀ line ∈ first :: others, line.utf8ByteSize < 2 ^ 32 := by decide +kernel
  exact ⟨hfits, by decide +kernel, reset_holds_lines first others hfits⟩

end LineBuffer

end OCamlHighlight
