import Lockstep.Proofs.Running

/-!
# The space around an operator

A target may ask for white space on both sides of a binary operator or on neither. Whether a space
is put in before the operator is decided by a look at the text behind its token
(`Cursor.triviaFollows`), before the scanner has been there; whether one is put in after it, by what
has been copied before. The look takes in two characters, and that is as much as the scanner needs
to know whether there is something for it (`Trivia.begins_eq_false_iff`). So once the operator has
been passed, the look turns out to have told whether trivia follow
(`OperatorMove.triviaFollows_eq`), and both sides come out alike.

Main statement: `operator_balanced`.
-/

namespace Lockstep.Source

open Text

namespace Trivia

/-- Whether the first two characters of a text begin a run or a comment. -/
def begins : List Char → Bool
  | '/' :: '/' :: _ | '/' :: '*' :: _ => true
  | c :: _ => isSpace c
  | [] => false

theorem begins_cons {c : Char} {rest : List Char} (hline : ∀ cs, c = '/' → rest ≠ '/' :: cs)
    (hblock : ∀ cs, c = '/' → rest ≠ '*' :: cs) : begins (c :: rest) = isSpace c := by
  unfold begins
  split
  · next cs heq =>
    cases heq
    exact absurd rfl (hline cs rfl)
  · next cs heq =>
    cases heq
    exact absurd rfl (hblock cs rfl)
  · next heq =>
    cases heq
    rfl
  · next heq => cases heq

/-- The first two characters tell whether there is anything for the scanner. -/
theorem begins_eq_false_iff (cs : List Char) : begins cs = false ↔ next cs = .absent := by
  fun_cases next cs with
  | case1 | case2 | case3 => simp [begins, isSpace, isLineBreak]
  | case4 | case5 | case6 => simp [begins]
  | case7 c rest _ _ _ hline hblock hblank =>
    rw [begins_cons hline hblock, isSpace, hblank]
    simp
  | case8 c rest _ hcr hlf hline hblock hblank =>
    have hbreak : isLineBreak c = false := by
      simp only [isLineBreak, Bool.or_eq_false_iff, beq_eq_false_iff_ne]
      exact ⟨hlf, hcr⟩
    rw [begins_cons hline hblock, isSpace, hbreak, Bool.eq_false_iff.2 hblank]
    simp
  | case9 => simp [begins]

/-- Before a place where no run begins, the characters ahead begin trivia exactly if there are
some. -/
theorem Runs.begins_append {text rest : List Char} (h : Runs text rest)
    (hrest : next rest = .absent) : begins (text ++ rest) = !text.isEmpty := by
  cases h with
  | nil => exact (begins_eq_false_iff _).2 hrest
  | @cons kind run text _ hrun _ =>
    have hne : run ++ text ≠ [] := by
      have hpos := (next_run_le hrun).1
      intro hnil
      rw [(List.append_eq_nil_iff.1 hnil).1] at hpos
      exact Nat.lt_irrefl 0 hpos
    have hbegins : begins (run ++ text ++ rest) ≠ false := by
      intro hfalse
      have habsent := (begins_eq_false_iff _).1 hfalse
      rw [List.append_assoc, hrun] at habsent
      cases habsent
    rw [Bool.ne_false_iff.1 hbegins, List.isEmpty_eq_false_iff.2 hne]
    rfl

end Trivia

/-- The look ahead is at the text behind what takes up so many bytes. -/
theorem Cursor.triviaFollows_of_passes {c d : Cursor} {text : List Char} (h : c.Passes text d) :
    c.triviaFollows (byteLength text) = Trivia.begins d.ahead := by
  simp only [triviaFollows, h.ahead, charsIn?_byteLength, List.drop_left]
  rfl

end Lockstep.Source

namespace Lockstep.Render

open Output Source Target Text

/-- An operator that has been passed was looked ahead for rightly. -/
theorem OperatorMove.triviaFollows_eq {token : String} {c d : Cursor}
    (move : OperatorMove token c d) :
    move.start.triviaFollows (byteLength token.toList) = !move.after.isEmpty := by
  rw [Cursor.triviaFollows_of_passes move.passes_token, move.passes_after.ahead]
  exact move.runs_after.begins_append move.absent_after

/-- What is written on the two sides of an operator, given the trivia of the source on both and
whether the operator has to be set off. -/
structure Balanced (spaced : Bool) (before after left right : List Char) : Prop where
  /-- Before the operator stand the trivia of the source, or one space if there are none and the
  other side or the operator asks for it. -/
  left_eq : left = if before = [] ∧ (spaced = true ∨ after ≠ []) then [' '] else before
  /-- After the operator likewise. -/
  right_eq : right = if after = [] ∧ (spaced = true ∨ before ≠ []) then [' '] else after
  /-- The operator is set off on both sides or on neither. -/
  alike : left = [] ↔ right = []
  set_off : spaced = true → left ≠ [] ∧ right ≠ []
  left_kept : before ≠ [] → left = before
  right_kept : after ≠ [] → right = after

/-- A space on a side that has no trivia, if the other side has some or the operator asks for it,
sets the operator off on both sides or on neither. -/
theorem Balanced.of_pads {spaced : Bool} {before after : List Char} :
    Balanced spaced before after
      (before ++ pad (before.isEmpty && (spaced || !after.isEmpty)))
      (after ++ pad (after.isEmpty && (spaced || !before.isEmpty))) := by
  cases before with
  | nil =>
    cases after with
    | nil => cases spaced <;> constructor <;> simp [pad]
    | cons c after => cases spaced <;> constructor <;> simp [pad]
  | cons b before =>
    cases after with
    | nil => cases spaced <;> constructor <;> simp [pad]
    | cons c after => cases spaced <;> constructor <;> simp [pad]

theorem OperatorMove.written_balanced {token : String} {c d : Cursor}
    (move : OperatorMove token c d) (replacement : String) (spaced : Bool) :
    ∃ left right, Balanced spaced move.before move.after left right ∧
      move.written replacement true spaced = left ++ replacement.toList ++ right := by
  refine ⟨_, _, .of_pads, ?_⟩
  simp only [written, padsBefore, padsAfter, move.triviaFollows_eq, Bool.true_and,
    List.append_assoc]

/-- For Swift an operator that is passed is written with what stands beside it in the source, and
with a space on a side where nothing stands, if the other side or the operator asks for one. -/
theorem operator_balanced {token replacement : String} {spaced : Bool} {ctx ctx' : Context}
    (hindent : ctx.writer.indentation = 0)
    (h : (Script.operator .swift token replacement spaced).run ctx = .ok () ctx') :
    ∃ cursor left right, ∃ move : OperatorMove token ctx.cursor cursor,
      Balanced spaced move.before move.after left right ∧
      ctx' = ctx.moved cursor (left ++ replacement.toList ++ right) ∧
      ctx'.writer.current =
        ctx.writer.current ++ String.ofList (left ++ replacement.toList ++ right) := by
  obtain ⟨cursor, move, rfl⟩ := swapOperator_ok h
  obtain ⟨left, right, hbalanced, htext⟩ := move.written_balanced replacement spaced
  rw [show (Target.swift == Target.swift) = true from rfl, htext]
  exact ⟨cursor, left, right, move, hbalanced, rfl,
    Writer.current_added_of_indentation_eq_zero hindent _⟩

/-- A comment that stands behind the operator only. -/
theorem operator_balanced_comment :
    ∃ after, (Script.operator .swift "-" "-=" false).run (.start "-/* é */b" true) = .ok () after ∧
      after.writer.current = " -=/* é */" ∧
      ∃ cursor left right, ∃ move : OperatorMove "-" (Cursor.ofText "-/* é */b") cursor,
        Balanced false move.before move.after left right ∧
        " -=/* é */" = String.ofList (left ++ "-=".toList ++ right) := by
  obtain ⟨after, hrun, hout⟩ := runsTo_ok (by decide +kernel :
    runsTo (Script.operator .swift "-" "-=" false).run (.start "-/* é */b" true) =
      some " -=/* é */")
  obtain ⟨cursor, left, right, move, hbalanced, -, htext⟩ := operator_balanced rfl hrun
  have hempty : (Context.start "-/* é */b" true).writer.current = "" := rfl
  rw [hout, hempty, String.empty_append] at htext
  exact ⟨after, hrun, hout, cursor, left, right, move, hbalanced, htext⟩

end Lockstep.Render
