import Lockstep.Proofs.Captures
import Lockstep.Proofs.Indentation

/-!
# Writing in pieces

A text may be written token by token, cut wherever the tokens end: within a line, within blanks or
between the two characters of a line break. The writer ends in the state that it would be in if the
text had been written at once, which is found from the text alone, the indentation and whether a
line starts.

- `endsLine_eq_getLast?`: whether a line starts after a text.
- `Writer.Works.forM_write`: what a list of texts does to a writer.
- `Writer.write_pieces`: it is the same as for the joined text, indented.
-/

namespace Lockstep.Output

open Text

/-- A line starts after a text that ends in a line break. -/
theorem endsLine_eq_getLast? (lineStart : Bool) (cs : List Char) :
    endsLine lineStart cs = (cs.getLast?.map isLineBreak).getD lineStart := by
  induction cs generalizing lineStart with
  | nil => rfl
  | cons c cs ih =>
    rw [endsLine, ih, List.getLast?_cons]
    cases cs.getLast? <;> rfl

namespace Writer

/-- A writer that works takes a list of texts, and each goes on where the one before has ended. -/
theorem Works.forM_write {w : Writer} (h : w.Works) (pieces : List String) :
    pieces.forM Writer.write w = .ok () (w.added (String.join pieces).toList) := by
  induction pieces generalizing w with
  | nil => exact congrArg (EStateM.Result.ok ()) (added_nil w).symm
  | cons piece pieces ih =>
    rw [String.join_cons, String.toList_append, added_append, ← ih (h.added piece.toList)]
    change EStateM.bind (Writer.write piece) (fun _ => pieces.forM Writer.write) w = _
    rw [EStateM.bind, h.write piece]

/-- Texts that are written one after another leave the writer as the joined text does: indented as
a whole, however it is cut. -/
theorem write_pieces (w : Writer) (h : w.Works) (pieces : List String) :
    ∃ after out, pieces.forM write w = .ok () after ∧
      write (String.join pieces) w = .ok () after ∧
      Indents w.indentation w.atLineStart (String.join pieces).toList out ∧
      after = w.put out w.indentation ∧
      after.current = w.current ++ String.ofList out ∧
      after.atLineStart =
        ((String.join pieces).toList.getLast?.map isLineBreak).getD w.atLineStart := by
  generalize htext : (String.join pieces).toList = text
  refine ⟨w.added text, indented w.indentation w.atLineStart text, ?_, ?_,
    indents_indented .., added_eq_put w text, current_added w text, ?_⟩
  · rw [h.forM_write, htext]
  · rw [h.write, htext]
  · rw [atLineStart_added, endsLine_eq_getLast?]

/-- Blanks, a line and the two characters of a line break are cut in the midst, while text is held
back in the middle of a line. -/
theorem write_pieces_cut :
    let w : Writer := ⟨⟨false, "a", 2⟩, true, [⟨"b", false⟩, ⟨"c", true⟩], 2, "\n"⟩
    ∃ after, ["x \r", "\n", "", " ", " y", "z\r", "\n"].forM write w = .ok () after ∧
      write "x \r\n  yz\r\n" w = .ok () after ∧
      after = ⟨⟨false, "a", 2⟩, true, [⟨"bx \r\n    yz\r\n", true⟩, ⟨"c", true⟩], 2, "\n"⟩ := by
  intro w
  obtain ⟨after, out, hpieces, hwhole, hout, hafter, -, -⟩ := write_pieces w (.inl nofun)
    ["x \r", "\n", "", " ", " y", "z\r", "\n"]
  refine ⟨after, hpieces, hwhole, ?_⟩
  rw [hafter, hout.eq]
  decide +kernel

end Writer

end Lockstep.Output
