import Lockstep.Output.Writer

/-!
# What a write does

A write that is not refused changes the output at hand and nothing else (`Writer.added`), and
writing in pieces is writing at once (`Writer.added_append`). With no indentation the text is
appended as it stands (`Writer.current_added_of_indentation_eq_zero`).
-/

namespace Lockstep.Output

open Text

theorem indented_zero (lineStart : Bool) (cs : List Char) : indented 0 lineStart cs = cs := by
  induction cs generalizing lineStart with
  | nil => rfl
  | cons c cs ih =>
    cases hc : isLineBreak c <;> cases lineStart <;> simp [indented, hc, ih]

/-- Within a line nothing is indented. -/
theorem indented_run_append (width : Nat) {run : List Char}
    (h : ∀ c ∈ run, isLineBreak c = false) (rest : List Char) :
    indented width false (run ++ rest) = run ++ indented width false rest := by
  induction run with
  | nil => rfl
  | cons c run ih =>
    have hrun := ih fun c' hc' => h c' (List.mem_cons_of_mem c hc')
    simp only [List.cons_append, indented, h c List.mem_cons_self, Bool.false_eq_true, if_false,
      hrun]

theorem indented_takeWhile (width : Nat) (cs : List Char) :
    indented width false cs = cs.takeWhile (!isLineBreak ·) ++
      indented width false (cs.dropWhile (!isLineBreak ·)) := by
  have hrun : ∀ c ∈ cs.takeWhile (!isLineBreak ·), isLineBreak c = false := fun c hc => by
    simpa using List.all_eq_true.1 List.all_takeWhile c hc
  rw [← indented_run_append width hrun, List.takeWhile_append_dropWhile]

theorem endsLine_dropWhile (cs : List Char) :
    endsLine false (cs.dropWhile (!isLineBreak ·)) = endsLine false cs := by
  induction cs with
  | nil => rfl
  | cons c cs ih => cases hc : isLineBreak c <;> simp [endsLine, hc, ih]

namespace Writer

variable {w w' : Writer}

/-- The writer after a text has been written. -/
def added (w : Writer) (cs : List Char) : Writer :=
  match w.captures with
  | inner :: outer =>
    { w with
      captures := ⟨inner.text ++ String.ofList (indented w.indentation inner.lineStart cs),
        endsLine inner.lineStart cs⟩ :: outer }
  | [] =>
    { w with
      sink := { w.sink with
        received := w.sink.received ++
          String.ofList (indented w.indentation w.sinkLineStart cs) }
      sinkLineStart := endsLine w.sinkLineStart cs }

/-- The text of the output at hand: of the innermost capture, or of the sink. -/
def current (w : Writer) : String :=
  match w.captures with
  | inner :: _ => inner.text
  | [] => w.sink.received

/-- Writes are not refused. -/
def Works (w : Writer) : Prop := w.captures ≠ [] ∨ w.sink.accepts = true

@[simp] theorem added_nil (w : Writer) : w.added [] = w := by
  obtain ⟨sink, lineStart, captures, indentation, lineEnd⟩ := w
  cases captures with
  | nil => simp [added, indented, endsLine]
  | cons inner outer => simp [added, indented, endsLine]

theorem added_append (w : Writer) (xs ys : List Char) :
    w.added (xs ++ ys) = (w.added xs).added ys := by
  obtain ⟨sink, lineStart, captures, indentation, lineEnd⟩ := w
  cases captures with
  | nil => simp [added, indented_append, String.append_assoc]
  | cons inner outer => simp [added, indented_append, String.append_assoc]

theorem current_added (w : Writer) (cs : List Char) :
    (w.added cs).current =
      w.current ++ String.ofList (indented w.indentation w.atLineStart cs) := by
  obtain ⟨sink, lineStart, captures, indentation, lineEnd⟩ := w
  cases captures <;> rfl

theorem current_added_of_indentation_eq_zero (h : w.indentation = 0) (cs : List Char) :
    (w.added cs).current = w.current ++ String.ofList cs := by
  rw [current_added, h, indented_zero]

/-- Where nothing is indented, a capture gives back what has been written since. -/
theorem closeCapture_added (h : w.indentation = 0) (cs : List Char) :
    (w.openCapture.added cs).closeCapture = (String.ofList cs, w) := by
  show ("" ++ String.ofList (indented w.indentation w.atLineStart cs), w) = _
  rw [h, indented_zero, String.empty_append]

theorem emit_ok {text : List Char} {lineStart : Bool}
    (h : emit (String.ofList (indented w.indentation w.atLineStart text)) lineStart w = .ok () w')
    (hl : lineStart = endsLine w.atLineStart text) : w' = w.added text := by
  obtain ⟨sink, start, captures, indentation, lineEnd⟩ := w
  subst hl
  cases captures with
  | nil =>
    simp only [emit] at h
    split at h
    · cases h
      rfl
    · cases h
  | cons inner outer =>
    cases h
    rfl

/-- A write that is not refused adds its text. -/
theorem write_ok {text : String} (h : write text w = .ok () w') : w' = w.added text.toList := by
  simp only [write] at h
  split at h
  · next hempty =>
    cases h
    rw [String.isEmpty_iff.1 hempty]
    exact (added_nil w).symm
  · exact emit_ok h rfl

namespace Works

theorem added (h : w.Works) (cs : List Char) : (w.added cs).Works := by
  obtain ⟨sink, start, captures, indentation, lineEnd⟩ := w
  cases captures with
  | nil =>
    rcases h with h | h
    · exact absurd rfl h
    · exact .inr h
  | cons inner outer => exact .inl nofun

/-- A writer that works takes every text. -/
theorem write (h : w.Works) (text : String) : write text w = .ok () (w.added text.toList) := by
  obtain ⟨w', hw⟩ : ∃ w', Writer.write text w = .ok () w' := by
    simp only [Writer.write]
    split
    · exact ⟨_, rfl⟩
    · obtain ⟨sink, start, captures, indentation, lineEnd⟩ := w
      cases captures with
      | nil =>
        rcases h with h | h
        · exact absurd rfl h
        · exact ⟨_, if_pos h⟩
      | cons inner outer => exact ⟨_, rfl⟩
  rw [hw, write_ok hw]

end Works

end Writer

end Lockstep.Output
