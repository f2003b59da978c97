/-
# Every line has its tokens

The scanner checks each byte that it reads, each position that it moves to and
each depth that it counts down, and it checks that it comes closer to the end of
the line.  None of these checks ever fails: a line that fits into a buffer is
scanned from every state, also from one that no scan leaves, and its tokens tile
it.

Main fact: `tokenizeLine_total`.
-/
import OCamlHighlight.Proofs.CheckedScan

namespace OCamlHighlight

/-- Tokens tile a line: they are as long as the line, they begin and end between
two of its characters, and none of them is the end of the line. -/
structure Tiles (line : String) (tokens : List Token) : Prop where
  sum_length : (tokens.map Token.length).sum = line.utf8ByteSize
  isValid : ∀ front, front <+: tokens →
    (⟨(front.map Token.length).sum⟩ : String.Pos.Raw).IsValid line
  tag_ne_eol : ∀ token ∈ tokens, token.tag ≠ .eol

/-- The tokens of a line tile it. -/
theorem tiles_tokens (state : ScanState) (line : String) :
    Tiles line (tokens state (bytes line)).1 where
  sum_length := (sum_length_tokens (isText_bytes line) state).trans (length_bytes line)
  isValid := fun _ hfront => (isCut_tokens (isText_bytes line) state hfront).isValid
  tag_ne_eol := fun _ hmem => tag_of_mem_tokens (isText_bytes line) state hmem

/-- **Totality.**  From every state the scanner takes tokens that tile the line.
One of them is empty exactly if the line is entered in a comment of depth zero and
has a byte that is not blank; this is a comment of length zero.  Behind the last
token the scanner stands at the end of the line, and every further call gives the
end of the line and leaves it there. -/
theorem tokenizeLine_total (line : String) (fits : line.utf8ByteSize < 2 ^ 32)
    (state : ScanState) :
    ∃ start tokens calls final,
      LineScanner.ofLine line state = .ok start ∧
      tokenizeLine state line = .ok (tokens, final.state) ∧
      Tiles line tokens ∧
      tokens.filter (·.length == 0) =
        (if (state.mode = .comment ∧ state.depth = 0) ∧ ∃ b ∈ bytes line, Byte.isBlank b = false
          then [⟨.comment, 0⟩] else []) ∧
      calls.map Prod.fst = tokens ∧
      (start :: calls.map Prod.snd).getLast? = some final ∧
      final.cursor.pos = line.utf8ByteSize ∧
      ∀ n, start.nextCalls (tokens.length + n)
        = .ok (calls ++ List.replicate n (Token.eol, final)) := by
  have ht := isText_bytes line
  obtain ⟨calls, final, hfst, hlast, hfinal, hcalls⟩ :=
    LineScanner.exists_nextCalls ht state (before_ofLine fits)
  refine ⟨_, (tokens state (bytes line)).1, calls, final, ofLine_eq fits state, ?_,
    tiles_tokens state line, filter_length_zero_tokens ht state, hfst, hlast, ?_, fun n => ?_⟩
  · rw [tokenizeLine_eq fits, hfinal]
  · rw [hfinal]
    exact (Nat.zero_add _).trans (length_bytes line)
  · rw [← hfst, List.length_map]
    exact hcalls n

/-- A comment of depth zero in front of a character of two bytes and a backslash. -/
theorem tokenizeLine_total_hollow :
    " λ\\".utf8ByteSize < 2 ^ 32 ∧
      ∃ tokens final, tokenizeLine ⟨.comment, 0, false⟩ " λ\\" = .ok (tokens, final) ∧
        Tiles " λ\\" tokens ∧ tokens.filter (·.length == 0) = [⟨.comment, 0⟩] := by
  have fits : " λ\\".utf8ByteSize < 2 ^ 32 := by decide
  obtain ⟨start, tokens, calls, final, -, htokens, htiles, hempty, -⟩ :=
    tokenizeLine_total " λ\\" fits ⟨.comment, 0, false⟩
  refine ⟨fits, tokens, final.state, htokens, htiles, ?_⟩
  rw [hempty]
  exact if_pos ⟨⟨rfl, rfl⟩, by decide⟩

end OCamlHighlight
