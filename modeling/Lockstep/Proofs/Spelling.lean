import Lockstep.Proofs.Running
import Lockstep.Proofs.SingleTokens

/-!
# Scripts that spell tokens

`Spells` relates a script to the tokens that its output is read as. What is read depends on how the
output goes on, and trivia that are copied must remain trivia there, so the relation is between two
kinds of places: if the output goes on as the second allows, it is read as the tokens, and it goes
on as the first allows.

- `Place`: the kinds of places.
- `Spells.part`, `Spells.operator`, …: the steps of infix expressions.
-/

namespace Lockstep.Render

open Source Target Text Lockstep.Tree

/-- Where the output goes on. -/
inductive Place where
  | beforeWord
  | afterWord
  | beforeOperand
  | afterOperand
  deriving DecidableEq, Repr

/-- What may come there: `source` is the source ahead, and `rest` what will be written. -/
def Place.Allows (source rest : List Char) : Place → Prop
  | .beforeWord => source ≠ [] ∧ OpensOperand rest ∧ ∀ c ∈ rest.head?, c.isDigit = false
  | .afterWord => EndsWord rest
  | .beforeOperand => source ≠ [] ∧ OpensOperand rest
  | .afterOperand => EndsOperand rest

/-- What the script writes between the two places is read as the tokens. -/
def Spells (t : Target) (a : Place) (xs : Script) (ts : List Lexeme) (b : Place) : Prop :=
  ∀ ⦃ctx ctx' : Context⦄, Step.runAll xs ctx = .ok () ctx' →
    ∃ text, ctx'.writer = ctx.writer.added text ∧
      ∀ rest, b.Allows ctx'.cursor.ahead rest →
        a.Allows ctx.cursor.ahead (text ++ rest) ∧ Reads t ts text rest

variable {t : Target} {a b c : Place} {xs ys : Script} {ts us : List Lexeme}
  {text rest rest' source : List Char} {op : BinaryOp}

/-! ## Trivia that are copied -/

/-- Trivia begin with a white space or a slash. -/
theorem head_of_runs {c : Char} {cs : List Char} (h : Trivia.Runs (c :: cs) source) :
    c ∈ [' ', '\t', '\x0c', '\n', '\r', '/'] := by
  have hstart : isSpace c = true ∨ c = '/' := by
    cases hspace : isSpace c with
    | true => exact .inl rfl
    | false =>
      refine .inr (Decidable.byContradiction fun hslash => ?_)
      have habsent : Trivia.next (c :: (cs ++ source)) = .absent :=
        Trivia.next_cons_absent hspace hslash
      generalize htext : c :: cs = text at h
      cases h with
      | nil => cases htext
      | cons hrun _ =>
        rw [← List.append_assoc, ← htext, List.cons_append, habsent] at hrun
        cases hrun
  simp only [isSpace, isBlank, isLineBreak, Bool.or_eq_true, beq_iff_eq] at hstart
  rcases hstart with (((rfl | rfl) | rfl) | rfl | rfl) | rfl <;> decide

/-- What holds of the first character of trivia holds with trivia before the text. -/
theorem forall_head_append {P : Char → Prop} (h : Trivia.Runs text source)
    (htrivia : ∀ c ∈ [' ', '\t', '\x0c', '\n', '\r', '/'], P c) (hrest : ∀ c ∈ rest.head?, P c) :
    ∀ c ∈ (text ++ rest).head?, P c := by
  cases text with
  | nil => exact hrest
  | cons d cs =>
    intro c hc
    cases hc
    exact htrivia d (head_of_runs h)

theorem endsOperand_cons {c : Char} (hc : c ∈ endChars) : EndsOperand (c :: rest) := by
  intro d hd
  cases hd
  exact hc

theorem endsOperand_append (h : Trivia.Runs text source) (hrest : EndsOperand rest) :
    EndsOperand (text ++ rest) :=
  forall_head_append h (List.all_iff_forall_prop.1 (by decide)) hrest

/-- A space that is put in is a run, if no blank follows it. -/
theorem runs_pad (needed : Bool) (h : ∀ c ∈ rest.head?, isBlank c = false) :
    Trivia.Runs (pad needed) rest := by
  cases needed with
  | false => exact .nil
  | true =>
    have hrun : Trivia.IsRun .blanks (pad true) rest :=
      .blanks nofun (List.forall_mem_singleton.2 rfl) h
    exact .single hrun.next_eq

/-- Trivia that are copied, or else a space that is put in. -/
theorem runs_padded {needed : Bool} (h : Trivia.Runs text source) (hne : source ≠ [])
    (hsource : Trivia.next source = .absent) (hrest : Trivia.next rest = .absent)
    (hneeded : needed = true → text = []) : Trivia.Runs (text ++ pad needed) rest := by
  cases needed with
  | false =>
    rw [pad, if_neg Bool.false_ne_true, List.append_nil]
    exact h.replace hne hsource hrest
  | true =>
    rw [hneeded rfl]
    refine runs_pad true fun c hc => ?_
    exact (Bool.or_eq_false_iff.1 (Trivia.isSpace_of_absent hrest c hc)).1

/-- A token with the trivia around it. -/
theorem between_ok {token replacement : String} {ctx ctx' : Context}
    (h : Step.runAll [.copyTrivia, .swap token replacement, .copyTrivia] ctx = .ok () ctx') :
    ∃ cursor, ∃ move : OperatorMove token ctx.cursor cursor,
      ctx' = ctx.moved cursor (move.before ++ (replacement.toList ++ move.after)) := by
  obtain ⟨ctx₁, hbefore, h⟩ := runAll_cons_ok.1 h
  obtain ⟨_, _, hbefore, hend⟩ := bind_ok.1 hbefore
  cases hend
  obtain ⟨before, start, hpass₁, hruns₁, habsent₁, _, rfl⟩ := copyTrivia_ok hbefore
  obtain ⟨ctx₂, hswap, h⟩ := runAll_cons_ok.1 h
  obtain ⟨stop, hpass₂, rfl⟩ := swap_ok hswap
  obtain ⟨_, _, hafter, hend⟩ := bind_ok.1 (runAll_singleton_ok.1 h)
  cases hend
  obtain ⟨after, cursor, hpass₃, hruns₃, habsent₃, _, rfl⟩ := copyTrivia_ok hafter
  refine ⟨cursor, ⟨before, start, stop, after, hpass₁, hruns₁, habsent₁, hpass₂, hpass₃, hruns₃,
    habsent₃⟩, ?_⟩
  rw [Context.moved_moved, Context.moved_moved]

theorem OperatorMove.start_ne {token : String} {c d : Cursor}
    (move : OperatorMove token c d) (h : token.toList ≠ []) : move.start.ahead ≠ [] := by
  rw [move.passes_token.ahead]
  exact List.append_ne_nil_of_left_ne_nil h _

namespace Spells

theorem append (h : Spells t a xs ts b) (h' : Spells t b ys us c) :
    Spells t a (xs ++ ys) (ts ++ us) c := by
  intro ctx ctx' hrun
  obtain ⟨mid, hxs, hys⟩ := runAll_append_ok.1 hrun
  obtain ⟨text, hwriter, htext⟩ := h hxs
  obtain ⟨text', hwriter', htext'⟩ := h' hys
  refine ⟨text ++ text', ?_, fun rest hrest => ?_⟩
  · rw [hwriter', hwriter, Output.Writer.added_append]
  obtain ⟨hmid, hreads'⟩ := htext' rest hrest
  obtain ⟨hstart, hreads⟩ := htext (text' ++ rest) hmid
  exact ⟨by rwa [List.append_assoc], hreads.append hreads'⟩

/-- A place that allows more comes first, and one that allows less comes last. -/
theorem weaken {a' b' : Place} (h : Spells t a xs ts b)
    (ha : ∀ {source rest}, a.Allows source rest → a'.Allows source rest)
    (hb : ∀ {source rest}, b'.Allows source rest → b.Allows source rest) :
    Spells t a' xs ts b' := by
  intro ctx ctx' hrun
  obtain ⟨text, hwriter, htext⟩ := h hrun
  refine ⟨text, hwriter, fun rest hrest => ?_⟩
  obtain ⟨hstart, hreads⟩ := htext rest (hb hrest)
  exact ⟨ha hstart, hreads⟩

theorem refuse {e : RenderError} : Spells t a [.refuse e] ts b := by
  intro ctx ctx' hrun
  cases runAll_singleton_ok.1 hrun

theorem node {kind : Kind} {extent : Extent} (h : Spells t a xs ts b) :
    Spells t a (Script.node t kind extent xs) ts b := by
  unfold Script.node
  split
  · intro ctx ctx' hrun
    obtain ⟨mid, henter, hrun⟩ := runAll_cons_ok.1 hrun
    cases enter_ok henter
    exact h hrun
  · exact refuse

/-! ## Parentheses -/

theorem emitOpen : Spells t .beforeOperand [.emit "("] [.openParen] .beforeOperand := by
  intro ctx ctx' hrun
  cases write_ok (runAll_singleton_ok.1 hrun)
  refine ⟨['('], rfl, fun rest ⟨hsource, _⟩ => ⟨⟨hsource, '(', rest, rfl, by decide⟩, ?_⟩⟩
  exact .openParen rest

theorem emitClose : Spells t .afterOperand [.emit ")"] [.closeParen] .afterOperand := by
  intro ctx ctx' hrun
  cases write_ok (runAll_singleton_ok.1 hrun)
  exact ⟨[')'], rfl, fun rest _ => ⟨endsOperand_cons (by decide), .closeParen rest⟩⟩

/-- The function that stands for a shift, with the parenthesis after it. -/
theorem emitFunction : Spells t .beforeOperand [.emit unsignedShiftFunction, .emit "("]
    [.part unsignedShiftFunction.toList, .openParen] .beforeOperand := by
  intro ctx ctx' hrun
  obtain ⟨mid, hword, hparen⟩ := runAll_cons_ok.1 hrun
  cases write_ok hword
  cases write_ok (runAll_singleton_ok.1 hparen)
  have hfunction : IsWord unsignedShiftFunction.toList := .ofIdentifier (by decide)
  refine ⟨unsignedShiftFunction.toList ++ ['('], ?_, fun rest ⟨hsource, _⟩ => ⟨⟨hsource, ?_⟩, ?_⟩⟩
  · exact (Output.Writer.added_append ..).symm
  · exact (hfunction.opens.append ['(']).append rest
  · have hends : EndsWord (['('] ++ rest) := fun c hc => by
      cases hc
      exact ⟨by decide, rfl⟩
    exact (hfunction.reads hends).append (.openParen rest)

theorem keepOpen : Spells t .beforeOperand [Script.keep "(", .copyTrivia] [.openParen]
    .beforeOperand := by
  intro ctx ctx' hrun
  obtain ⟨mid, hopen, hcopy⟩ := runAll_cons_ok.1 hrun
  obtain ⟨start, hpass, rfl⟩ := swap_ok hopen
  obtain ⟨text, cursor, -, hruns, habsent, rfl⟩ :=
    Step.run_copyTrivia_ok (runAll_singleton_ok.1 hcopy)
  refine ⟨['('] ++ text, ?_, fun rest ⟨hsource, hrest⟩ => ⟨⟨?_, '(', text ++ rest, rfl, ?_⟩, ?_⟩⟩
  · rw [Context.moved_moved]
    rfl
  · rw [hpass.ahead]
    exact nofun
  · decide
  · have htrivia : Reads t [] text rest := .ofRuns (hruns.replace hsource habsent hrest.absent)
    exact (Reads.openParen (text ++ rest)).append htrivia

theorem keepClose : Spells t .afterOperand [.copyTrivia, Script.keep ")"] [.closeParen]
    .afterOperand := by
  intro ctx ctx' hrun
  obtain ⟨mid, hcopy, hclose⟩ := runAll_cons_ok.1 hrun
  obtain ⟨text, start, -, hruns, habsent, rfl⟩ := Step.run_copyTrivia_ok hcopy
  obtain ⟨cursor, hpass, rfl⟩ := swap_ok (runAll_singleton_ok.1 hclose)
  have hsource : start.ahead ≠ [] := by
    have hahead := hpass.ahead
    rw [Context.cursor_moved] at hahead
    rw [hahead]
    exact nofun
  refine ⟨text ++ [')'], ?_, fun rest _ => ⟨?_, ?_⟩⟩
  · rw [Context.moved_moved]
    rfl
  · rw [List.append_assoc]
    exact endsOperand_append hruns (endsOperand_cons (by decide))
  · have hparen : Trivia.next ([')'] ++ rest) = .absent :=
      Trivia.next_cons_absent rfl (by decide)
    have htrivia : Reads t [] text ([')'] ++ rest) :=
      .ofRuns (hruns.replace hsource habsent hparen)
    exact htrivia.append (.closeParen rest)

/-! ## Operands -/

/-- A token that is written for a token. -/
theorem swap {token text : String} {tok : Lexeme} (hne : token.toList ≠ [])
    (h : ∀ {source source' rest}, source ≠ [] → b.Allows source' rest →
      a.Allows source (text.toList ++ rest) ∧ Reads t [tok] text.toList rest) :
    Spells t a [.swap token text] [tok] b := by
  intro ctx ctx' hrun
  obtain ⟨cursor, hpass, rfl⟩ := swap_ok (runAll_singleton_ok.1 hrun)
  refine ⟨text.toList, rfl, fun rest hrest => h ?_ hrest⟩
  rw [hpass.ahead]
  exact List.append_ne_nil_of_left_ne_nil hne _

theorem part {token text : String} (hne : token.toList ≠ []) (h : IsPart t text.toList) :
    Spells t .beforeOperand [.swap token text] [.part text.toList] .afterOperand := by
  apply swap hne
  intro source _ rest hsource hrest
  exact ⟨⟨hsource, h.opens.append rest⟩, .part h hrest⟩

theorem word {token text : String} (hne : token.toList ≠ []) (h : IsWord text.toList) :
    Spells t .beforeWord [.swap token text] [.part text.toList] .afterWord := by
  apply swap hne
  intro source _ rest hsource hrest
  refine ⟨⟨hsource, h.opens.append rest, ?_⟩, h.reads hrest⟩
  obtain ⟨c, cs, heq, hdigit, _⟩ := h
  rw [heq]
  intro d hd
  cases hd
  exact hdigit

/-- The sign between the words of a name. -/
theorem access {sign : String} (h : sign.toList ∈ accessSigns) :
    Spells t .afterWord [.copyTrivia, .swap "." sign, .copyTrivia] [.part sign.toList]
      .beforeWord := by
  intro ctx ctx' hrun
  obtain ⟨cursor, move, rfl⟩ := between_ok hrun
  refine ⟨_, rfl, fun rest ⟨hsource, hopens, hdigit⟩ => ?_⟩
  have hafter : Trivia.Runs move.after rest :=
    move.runs_after.replace hsource move.absent_after hopens.absent
  have hdigit' : ∀ c ∈ (move.after ++ rest).head?, c.isDigit = false :=
    forall_head_append hafter (List.all_iff_forall_prop.1 (by decide)) hdigit
  obtain ⟨hword, habsent⟩ := endsWord_access h (move.after ++ rest)
  have hbefore := move.runs_before.replace (move.start_ne nofun) move.absent_before habsent
  rw [List.append_assoc, List.append_assoc]
  have hword' := forall_head_append hbefore (List.all_iff_forall_prop.1 (by decide)) hword
  refine ⟨hword', ?_⟩
  have hreads := (Reads.access (t := t) h hdigit').append (Reads.ofRuns hafter)
  rw [← List.append_assoc] at hbefore
  exact (Reads.ofRuns hbefore).append hreads

/-! ## Operators -/

/-- No comment begins with an operator, also where the source is changed after it. -/
theorem absent_operator {c d : Cursor} (move : OperatorMove op.token c d) (needed : Bool)
    (hopens : OpensOperand rest) :
    Trivia.next (op.token.toList ++ (move.after ++ pad needed ++ rest)) = .absent := by
  have hhead : op = .divide ∨ ∃ c cs, op.token.toList = c :: cs ∧ isSpace c = false ∧ c ≠ '/' := by
    cases op with
    | divide => exact .inl rfl
    | _ => exact .inr ⟨_, _, rfl, by decide, by decide⟩
  rcases hhead with rfl | ⟨c, cs, heq, hspace, hslash⟩
  · have hsource := move.absent_before
    rw [move.passes_token.ahead, move.passes_after.ahead] at hsource
    have hmarks := Trivia.next_slash_absent_iff.1 hsource
    refine Trivia.next_slash_absent_iff.2 ?_
    cases hafter : move.after with
    | cons c cs =>
      rw [hafter] at hmarks
      exact hmarks
    | nil =>
      cases needed with
      | true => exact ⟨nofun, nofun⟩
      | false =>
        obtain ⟨c, cs, rfl, hc⟩ := hopens
        refine ⟨fun h => hc ?_, fun h => hc ?_⟩
        · cases h
          decide
        · cases h
          decide
  · rw [heq]
    exact Trivia.next_cons_absent hspace hslash

theorem operator (hop : (t.binaryToken? op).isSome) :
    Spells t .afterOperand [Script.operator t op.token op.token false] [.operator op]
      .beforeOperand := by
  intro ctx ctx' hrun
  obtain ⟨cursor, move, rfl⟩ := swapOperator_ok (runAll_singleton_ok.1 hrun)
  refine ⟨_, rfl, fun rest ⟨hsource, hopens⟩ => ?_⟩
  have hb : move.padsBefore (t == .swift) false = true → move.before = [] := by
    intro h
    simp only [OperatorMove.padsBefore, Bool.and_eq_true, List.isEmpty_iff] at h
    exact h.1.2
  have ha : move.padsAfter (t == .swift) false = true → move.after = [] := by
    intro h
    simp only [OperatorMove.padsAfter, Bool.and_eq_true, List.isEmpty_iff] at h
    exact h.1.2
  simp only [OperatorMove.written]
  generalize move.padsBefore (t == .swift) false = padsBefore at hb
  generalize move.padsAfter (t == .swift) false = padsAfter at ha
  have hafter : Trivia.Runs (move.after ++ pad padsAfter) rest :=
    runs_padded move.runs_after hsource move.absent_after hopens.absent ha
  have habsent := absent_operator move padsAfter hopens
  have hne : op.token.toList ≠ [] := by cases op <;> exact List.cons_ne_nil _ _
  have hbefore := runs_padded move.runs_before (move.start_ne hne) move.absent_before habsent hb
  have hextend : ∀ c ∈ (move.after ++ pad padsAfter ++ rest).head?, c ∉ extendChars := by
    refine forall_head_append hafter (List.all_iff_forall_prop.1 (by decide)) fun c hc hmem => ?_
    obtain ⟨d, cs, rfl, hd⟩ := hopens
    cases hc
    have hall : ∀ c ∈ extendChars, c ∈ endChars := List.all_iff_forall_prop.1 (by decide)
    exact hd (hall c hmem)
  have hreads := (Reads.operator hop habsent hextend).append (Reads.ofRuns hafter)
  have htext : move.before ++ pad padsBefore ++ op.token.toList ++ move.after ++ pad padsAfter =
      move.before ++ pad padsBefore ++ (op.token.toList ++ (move.after ++ pad padsAfter)) := by
    simp only [List.append_assoc]
  rw [htext]
  rw [← List.append_assoc] at hbefore
  refine ⟨?_, (Reads.ofRuns hbefore).append hreads⟩
  rw [List.append_assoc]
  refine endsOperand_append hbefore ?_
  obtain ⟨c, cs, heq, hc, _⟩ := exists_head_operator op
  rw [heq]
  exact endsOperand_cons hc

/-- The comma of a call, where the source has an operator. -/
theorem comma {token : String} (hne : token.toList ≠ []) :
    Spells t .afterOperand [.skipBlanks, .copyTrivia, .swap token ",", .copyTrivia] [.comma]
      .beforeOperand := by
  intro ctx ctx' hrun
  obtain ⟨mid, hblanks, hrun⟩ := runAll_cons_ok.1 hrun
  obtain ⟨_, _, _, _, rfl⟩ := skipBlanks_ok hblanks
  obtain ⟨cursor, move, rfl⟩ := between_ok hrun
  refine ⟨move.before ++ (",".toList ++ move.after), ?_, fun rest ⟨hsource, hopens⟩ => ?_⟩
  · rw [Context.moved_moved]
    rfl
  have hafter : Trivia.Runs move.after rest :=
    move.runs_after.replace hsource move.absent_after hopens.absent
  have habsent : Trivia.next (",".toList ++ move.after ++ rest) = .absent :=
    Trivia.next_cons_absent rfl (by decide)
  have hbefore := move.runs_before.replace (move.start_ne hne) move.absent_before habsent
  have hreads := (Reads.comma (t := t) (move.after ++ rest)).append (Reads.ofRuns hafter)
  refine ⟨?_, (Reads.ofRuns hbefore).append hreads⟩
  rw [List.append_assoc]
  exact endsOperand_append hbefore (endsOperand_cons (by decide))

end Spells

end Lockstep.Render
