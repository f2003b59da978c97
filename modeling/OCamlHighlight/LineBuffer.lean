/-
# A line with a sentinel behind it

A `LineBuffer` holds the bytes of one line, a zero byte, and more zero bytes up
to a multiple of 64.  The zero byte lets a scan see the end of the line by
reading it.  Storage is kept when the next line is put in (`reset`): bytes that
are left of the line before must not be seen again.

Main facts: `storage_reset` gives the storage after `reset` for every buffer, and
by `reset_eq` nothing of the buffer's past is left in it.
-/
import OCamlHighlight.Byte

namespace OCamlHighlight

/-- The bytes of one line, with zeros behind them. -/
structure LineBuffer where
  storage : Array Byte
  /-- The length of the line. -/
  length : Nat
  deriving DecidableEq, Repr

namespace LineBuffer

/-- The longest line a buffer holds; what a line has beyond it is cut off. -/
def maxLength : Nat := 4294967295

/-- The least multiple of 64 that is not below `n`, by clearing the six low
bits. -/
def roundUp (n : Nat) : Nat := (n + 63) - ((n + 63) &&& 63)

/-- The size of the storage for a line: the line and its sentinel, rounded
up. -/
def storageSize (length : Nat) : Nat := roundUp (length + 1)

/-- Puts `n` zero bytes behind. -/
def pad : Nat → Array Byte → Array Byte
  | 0, storage => storage
  | n + 1, storage => pad n (storage.push 0)

/-- Puts bytes behind. -/
def fill (storage : Array Byte) (content : List Byte) : Array Byte :=
  content.foldl Array.push storage

/-- A buffer without storage. -/
def empty : LineBuffer := ⟨#[], 0⟩

/-- Replaces the line of a buffer, in the storage that it has. -/
def reset (buffer : LineBuffer) (line : String) : LineBuffer :=
  let content := (bytes line).take maxLength
  let length := content.length
  ⟨pad (storageSize length - length) (fill (buffer.storage.shrink 0) content), length⟩

/-- A buffer for a line. -/
def ofLine (line : String) : LineBuffer := empty.reset line

/-- The bytes of the line. -/
def content (buffer : LineBuffer) : List Byte := (buffer.storage.extract 0 buffer.length).toList

/-- Whether there is nothing in the line. -/
def isEmpty (buffer : LineBuffer) : Bool := buffer.length == 0

/-- Whether every byte behind the line is zero. -/
def hasZeroTail (buffer : LineBuffer) : Bool :=
  (buffer.storage.toList.drop buffer.length).all (· == 0)

/-! ## Storage after a reset -/

/-- Clearing the six low bits rounds down to a multiple of 64. -/
theorem roundUp_eq (n : Nat) : roundUp n = (n + 63) / 64 * 64 := by
  have h : (n + 63) &&& 63 = (n + 63) % 64 := Nat.and_two_pow_sub_one_eq_mod (n + 63) 6
  unfold roundUp
  omega

/-- There is room for the line and its sentinel. -/
theorem lt_storageSize (length : Nat) : length < storageSize length := by
  rw [storageSize, roundUp_eq]
  omega

theorem toList_pad (n : Nat) (storage : Array Byte) :
    (pad n storage).toList = storage.toList ++ List.replicate n 0 := by
  induction n generalizing storage with
  | zero => simp [pad]
  | succ n ih => simp [pad, ih, List.replicate_succ]

theorem toList_fill (storage : Array Byte) (content : List Byte) :
    (fill storage content).toList = storage.toList ++ content := by
  induction content generalizing storage with
  | nil => simp [fill]
  | cons b content ih =>
    have h := ih (storage.push b)
    simp_all [fill]

/-- The storage after a reset is the line with zeros behind it, whatever the
buffer held before. -/
theorem storage_reset (buffer : LineBuffer) (line : String) :
    (buffer.reset line).storage.toList =
      (bytes line).take maxLength ++
        List.replicate
          (storageSize (buffer.reset line).length - (buffer.reset line).length) 0 := by
  simp [reset, toList_pad, toList_fill]

/-- **No trace of other lines.**  A line put into a used buffer stands in it as in a
new one. -/
theorem reset_eq (buffer : LineBuffer) (line : String) : buffer.reset line = ofLine line := by
  have hstorage : (buffer.reset line).storage = (ofLine line).storage := by
    rw [← Array.toList_inj]
    exact (storage_reset buffer line).trans (storage_reset empty line).symm
  show (⟨(buffer.reset line).storage, _⟩ : LineBuffer) = ⟨(ofLine line).storage, _⟩
  rw [hstorage]

end LineBuffer

end OCamlHighlight
