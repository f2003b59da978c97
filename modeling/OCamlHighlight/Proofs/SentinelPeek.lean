/-
# A look behind the sentinel

A cursor can look at the byte behind its own, also when it has come to the sentinel.  The
storage is meant to have a byte there for every line, but its size is rounded up from the
line and the sentinel alone.  Where these two fill whole cache lines, the storage ends with
the sentinel.

* `getElem?_storage_ofLine` is what stands at any index of the storage of a line.
* `succ_lt_storageSize_iff`: the lengths at which there is a byte behind the sentinel.
* `Cursor.PeeksSafely` is what a look at the next byte should come to, and
  `peek_up_to_sentinel` what it does come to at every position of every line.
* `peek_faults_on_sentinel`: a line of 63 bytes has nothing behind its sentinel.
-/
import OCamlHighlight.Proofs.ReusedBuffer

namespace OCamlHighlight

namespace LineBuffer

variable {line : String}

/-- **The storage of a line**, index by index: its bytes, zeros behind them, and nothing
from the size of the storage on. -/
theorem getElem?_storage_ofLine (fits : line.utf8ByteSize < 2 ^ 32) (i : Nat) :
    (ofLine line).storage[i]? =
      if i < storageSize line.utf8ByteSize then some ((bytes line)[i]?.getD 0) else none := by
  have hroom := lt_storageSize line.utf8ByteSize
  rw [← Array.getElem?_toList, toList_storage_ofLine fits, List.getElem?_append, length_bytes]
  rcases Nat.lt_or_ge i line.utf8ByteSize with hi | hi
  · have hbyte : (bytes line)[i]? = some (bytes line)[i] := List.getElem?_eq_getElem hi
    rw [if_pos hi, if_pos (hi.trans hroom), hbyte, Option.getD_some]
  · have hnone : (bytes line)[i]? = none := List.getElem?_eq_none hi
    have hpad : i - line.utf8ByteSize < storageSize line.utf8ByteSize - line.utf8ByteSize ↔
        i < storageSize line.utf8ByteSize := by
      omega
    rw [if_neg (Nat.not_lt.mpr hi), List.getElem?_replicate, hnone, Option.getD_none]
    simp only [hpad]

/-- There is a byte behind the sentinel unless the line and its sentinel fill whole cache
lines. -/
theorem succ_lt_storageSize_iff (length : Nat) :
    length + 1 < storageSize length ↔ ¬ 64 ∣ length + 1 := by
  rw [storageSize, roundUp_eq]
  omega

end LineBuffer

namespace Cursor

open LineBuffer

variable {line : String}

/-- A look at the next byte is safe at every position up to the sentinel: there is a byte to
read, and it is zero if it is none of the line. -/
def PeeksSafely (start : Cursor) : Prop :=
  ∀ n ≤ start.buffer.length, ∃ c b, start.advanceBy n = .ok c ∧ c.peek = .ok b ∧
    (start.buffer.length ≤ c.pos + 1 → b = 0)

/-- A look at the next byte, from any position. -/
theorem peek_ofLine (fits : line.utf8ByteSize < 2 ^ 32) (n : Nat) :
    peek ⟨LineBuffer.ofLine line, n⟩ =
      if n + 1 < storageSize line.utf8ByteSize then .ok ((bytes line)[n + 1]?.getD 0)
      else .error .outOfRange := by
  unfold peek read
  rw [getElem?_storage_ofLine fits]
  by_cases hn : n + 1 < storageSize line.utf8ByteSize
  · rw [if_pos hn, if_pos hn]
  · rw [if_neg hn, if_neg hn]

/-- Up to the sentinel only the sentinel itself can be the last byte of the storage. -/
theorem peek_of_le (fits : line.utf8ByteSize < 2 ^ 32) {n : Nat} (hn : n ≤ line.utf8ByteSize) :
    peek ⟨LineBuffer.ofLine line, n⟩ =
      if n = line.utf8ByteSize ∧ 64 ∣ n + 1 then .error .outOfRange
      else .ok ((bytes line)[n + 1]?.getD 0) := by
  -- In front of the sentinel there is always a byte, and on it the rounding must leave one.
  have hroom : n + 1 < storageSize line.utf8ByteSize ↔
      ¬ (n = line.utf8ByteSize ∧ 64 ∣ n + 1) := by
    rcases Nat.eq_or_lt_of_le hn with rfl | hlt
    · rw [succ_lt_storageSize_iff, eq_self, true_and]
    · exact iff_of_true (Nat.lt_of_le_of_lt hlt (lt_storageSize _)) fun h => hlt.ne h.1
  rw [peek_ofLine fits]
  simp only [hroom, ite_not]

/-- A cursor at the start of a line comes to every position up to the sentinel. -/
theorem advanceBy_ofLine (fits : line.utf8ByteSize < 2 ^ 32) {n : Nat}
    (hn : n ≤ line.utf8ByteSize) :
    advanceBy ⟨LineBuffer.ofLine line, 0⟩ n = .ok ⟨LineBuffer.ofLine line, n⟩ := by
  have hadvance := (before_ofLine fits).advanceBy (n := n) (by rwa [length_bytes])
  rwa [behind, Nat.zero_add] at hadvance

/-- **Lines that are safe.**  The promise of safety is kept for the lines that do not fill
whole cache lines together with their sentinel. -/
theorem peeksSafely_iff (fits : line.utf8ByteSize < 2 ^ 32) :
    PeeksSafely ⟨LineBuffer.ofLine line, 0⟩ ↔ ¬ 64 ∣ line.utf8ByteSize + 1 := by
  have hlength := length_ofLine fits
  constructor
  · intro hsafe hfull
    obtain ⟨c, b, hc, hb, -⟩ := hsafe line.utf8ByteSize (Nat.le_of_eq hlength.symm)
    rw [advanceBy_ofLine fits (Nat.le_refl _)] at hc
    cases hc
    rw [peek_of_le fits (Nat.le_refl _), if_pos ⟨rfl, hfull⟩] at hb
    cases hb
  · intro hroom n hn
    have hn : n ≤ line.utf8ByteSize := hlength ▸ hn
    refine ⟨_, _, advanceBy_ofLine fits hn, (peek_of_le fits hn).trans (if_neg ?_), ?_⟩
    · rintro ⟨rfl, hfull⟩
      exact hroom hfull
    · intro hbehind
      have hbehind : line.utf8ByteSize ≤ n + 1 := hlength ▸ hbehind
      rw [List.getElem?_eq_none (by rwa [length_bytes]), Option.getD_none]

end Cursor

/-- **Peeking up to the sentinel.**  A cursor over a new buffer comes to every position of its
line and to the sentinel.  A look at the next byte gives this byte of the line, and zero if
the line has no such byte.  There is one exception: on the sentinel of a line that fills
whole cache lines together with it, the look is out of range.  So it is safe everywhere just
if the line is not of such a length. -/
theorem peek_up_to_sentinel (line : String) (fits : line.utf8ByteSize < 2 ^ 32) :
    ∃ start, (LineBuffer.ofLine line).cursor = .ok start ∧ start.pos = 0 ∧
      (∀ n ≤ line.utf8ByteSize, ∃ c, start.advanceBy n = .ok c ∧ c.pos = n ∧
        c.peek = if n = line.utf8ByteSize ∧ 64 ∣ n + 1 then .error .outOfRange
          else .ok ((bytes line)[n + 1]?.getD 0)) ∧
      (start.PeeksSafely ↔ ¬ 64 ∣ line.utf8ByteSize + 1) := by
  refine ⟨_, cursor_of_before (before_ofLine fits), rfl, fun n hn => ?_,
    Cursor.peeksSafely_iff fits⟩
  exact ⟨_, Cursor.advanceBy_ofLine fits hn, rfl, Cursor.peek_of_le fits hn⟩

/-- Two cache lines are filled by 63 characters of two bytes and one of one byte: in front of
the sentinel there is a zero byte to look at, and on it there is none.  With one byte more
the sentinel stands first in a third cache line. -/
theorem peek_up_to_sentinel_full :
    let full := String.ofList (List.replicate 63 'λ' ++ ['x'])
    (full.utf8ByteSize < 2 ^ 32 ∧ 126 ≤ full.utf8ByteSize ∧ 127 ≤ full.utf8ByteSize ∧
      (full ++ "y").utf8ByteSize < 2 ^ 32) ∧
    (∃ start last behind, (LineBuffer.ofLine full).cursor = .ok start ∧
      start.advanceBy 126 = .ok last ∧ last.peek = .ok 0 ∧
      start.advanceBy 127 = .ok behind ∧ behind.peek = .error .outOfRange) ∧
    ∃ start, (LineBuffer.ofLine (full ++ "y")).cursor = .ok start ∧ start.PeeksSafely := by
  intro full
  have hsize : full.utf8ByteSize = 127 := by decide +kernel
  have hmore : (full ++ "y").utf8ByteSize = 128 := by decide +kernel
  obtain ⟨start, hstart, -, hpeek, -⟩ := peek_up_to_sentinel full (by omega)
  obtain ⟨last, hlast, -, hzero⟩ := hpeek 126 (by omega)
  obtain ⟨behind, hbehind, -, hfault⟩ := hpeek 127 (by omega)
  obtain ⟨start', hstart', -, -, hsafe⟩ := peek_up_to_sentinel (full ++ "y") (by omega)
  rw [hsize, if_neg (by decide), List.getElem?_eq_none (by rw [length_bytes, hsize])] at hzero
  rw [hsize, if_pos (by decide)] at hfault
  refine ⟨⟨by omega, by omega, by omega, by omega⟩, ?_, start', hstart', hsafe.mpr ?_⟩
  · exact ⟨start, last, behind, hstart, hlast, hzero, hbehind, hfault⟩
  · rw [hmore]
    decide

/-- **No byte behind a sentinel.**  A line of 63 bytes fills a cache line together with its
sentinel.  A cursor that has come to the sentinel cannot look further. -/
theorem peek_faults_on_sentinel :
    let line := String.ofList (List.replicate 63 'x')
    line.utf8ByteSize < 2 ^ 32 - 1 ∧
      ∃ start c, (LineBuffer.ofLine line).cursor = .ok start ∧ start.advanceBy 63 = .ok c ∧
        c.pos ≤ start.buffer.length ∧ c.isAtEnd = .ok true ∧ c.peek = .error .outOfRange ∧
        ¬ start.PeeksSafely := by
  intro line
  have hadvance : Cursor.advanceBy ⟨LineBuffer.ofLine line, 0⟩ 63
      = .ok ⟨LineBuffer.ofLine line, 63⟩ := by
    decide +kernel
  have hfault : Cursor.peek ⟨LineBuffer.ofLine line, 63⟩ = .error .outOfRange := by
    decide +kernel
  refine ⟨by decide +kernel, _, _, by decide +kernel, hadvance, by decide +kernel,
    by decide +kernel, hfault, fun hsafe => ?_⟩
  obtain ⟨c, b, hc, hb, -⟩ := hsafe 63 (by decide +kernel)
  rw [hadvance] at hc
  cases hc
  rw [hfault] at hb
  cases hb

end OCamlHighlight
