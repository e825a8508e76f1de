import Lockstep.Proofs.Composition
import Lockstep.Proofs.Reassembly

/-!
# Indentation commutes with rendering

But for files, no rendering looks at the writer or changes more of it than to add text
(`Made.uniform`): what is written, how the run ends and where the cursor stops do not depend on the
indentation, nor on whether a line starts. The text that is received is the text that is written,
indented once, though it comes token by token. What stands in the block of a package is therefore
the text of the type without the block, indented.

- `Indents`: a text with blanks before what begins a line.
- `Uniform`: what a step does, whatever the writer.
- `Node.render_indents`: the theorem about nodes and blocks.
-/

namespace Lockstep

open Config Output Render Source Target Text Lockstep.Tree

namespace Output

/-! ## Indented texts -/

/-- The second text is the first with so many spaces before every longest run of characters other
than line breaks that begins at the start of a line. -/
inductive Indents (width : Nat) : (lineStart : Bool) → List Char → List Char → Prop where
  | nil : Indents width lineStart [] []
  | lineBreak : isLineBreak c = true → Indents width true rest out →
      Indents width lineStart (c :: rest) (c :: out)
  | run : run ≠ [] → (∀ c ∈ run, isLineBreak c = false) →
      (∀ c ∈ rest.head?, isLineBreak c = true) → Indents width false rest out →
      Indents width lineStart (run ++ rest)
        ((if lineStart then List.replicate width ' ' else []) ++ run ++ out)

theorem Indents.eq {width : Nat} {lineStart : Bool} {text out : List Char}
    (h : Indents width lineStart text out) : out = indented width lineStart text := by
  induction h with
  | nil => rfl
  | lineBreak hc _ ih => rw [indented, if_pos hc, ← ih]
  | @run run rest out lineStart hne hrun _ _ ih =>
    obtain ⟨c, cs, rfl⟩ := List.exists_cons_of_ne_nil hne
    obtain ⟨hc, hcs⟩ := List.forall_mem_cons.1 hrun
    have hline := indented_run_append width hcs rest
    cases lineStart <;> simp [indented, hc, hline, ih]

theorem indents_indented (width : Nat) (lineStart : Bool) (text : List Char) :
    Indents width lineStart text (indented width lineStart text) := by
  match text with
  | [] => exact .nil
  | c :: rest =>
    cases hc : isLineBreak c with
    | true =>
      rw [indented, if_pos hc]
      exact .lineBreak hc (indents_indented width true rest)
    | false =>
      have hrun : ∀ d ∈ c :: rest.takeWhile (!isLineBreak ·), isLineBreak d = false := by
        refine List.forall_mem_cons.2 ⟨hc, fun d hd => ?_⟩
        simpa using List.all_eq_true.1 List.all_takeWhile d hd
      have hrest : ∀ d ∈ (rest.dropWhile (!isLineBreak ·)).head?, isLineBreak d = true := by
        intro d hd
        have hhead := List.head?_dropWhile_not (!isLineBreak ·) rest
        rw [hd] at hhead
        simpa using hhead
      have hline : Indents width lineStart (c :: rest.takeWhile (!isLineBreak ·) ++ _) _ :=
        .run (List.cons_ne_nil _ _) hrun hrest
          (indents_indented width false (rest.dropWhile (!isLineBreak ·)))
      have hsplit := hline.eq
      rw [hsplit] at hline
      simpa only [List.cons_append, List.takeWhile_append_dropWhile] using hline
termination_by text.length
decreasing_by
  all_goals
    have hlength := (List.dropWhile_sublist (l := rest) (!isLineBreak ·)).length_le
    simp only [List.length_cons]
    omega

theorem Writer.writeRaw_current {w after : Writer} {text : String}
    (h : writeRaw text w = .ok () after) : after.current = w.current ++ text := by
  obtain ⟨sink, start, captures, indentation, lineEnd⟩ := w
  unfold writeRaw at h
  split at h
  · next hempty =>
    cases h
    rw [String.isEmpty_iff.1 hempty, String.append_empty]
  · cases captures with
    | cons inner outer =>
      cases h
      rfl
    | nil =>
      simp only [emit] at h
      split at h
      · cases h
        rfl
      · cases h

end Output

namespace Render

variable {α β : Type} {x : Rendering α} {ctx : Context}

/-! ## Whatever the writer -/

/-- A run that results so and ends in that state. -/
def endWith (after : Context) : Except RenderError α → EStateM.Result RenderError Context α
  | .ok a => .ok a after
  | .error e => .error e after

/-- What the step results in, what it writes and what else it leaves do not depend on the writer, as
long as that takes what is written. -/
def Uniform (x : Rendering α) : Prop :=
  ∀ ctx : Context, ∃ (result : Except RenderError α) (text : List Char) (rest : Context),
    ∀ w : Writer, w.Works →
      x { ctx with writer := w } = endWith { rest with writer := w.added text } result

namespace Uniform

/-- A step that writes nothing. -/
theorem quiet (h : ∀ ctx : Context, ∃ (result : Except RenderError α) (rest : Context),
    ∀ w : Writer, x { ctx with writer := w } = endWith { rest with writer := w } result) :
    Uniform x := by
  intro ctx
  obtain ⟨result, rest, hrest⟩ := h ctx
  refine ⟨result, [], rest, fun w _ => ?_⟩
  rw [hrest, Writer.added_nil]

theorem bind {f : α → Rendering β} (h : Uniform x) (hf : ∀ a, Uniform (f a)) :
    Uniform (x >>= f) := by
  intro ctx
  obtain ⟨result, text, mid, hx⟩ := h ctx
  simp only [Bind.bind, EStateM.bind]
  cases result with
  | error e =>
    refine ⟨.error e, text, mid, fun w hw => ?_⟩
    rw [hx w hw]
    rfl
  | ok a =>
    obtain ⟨result, text', rest, hrest⟩ := hf a mid
    refine ⟨result, text ++ text', rest, fun w hw => ?_⟩
    rw [hx w hw, Writer.added_append]
    exact hrest (w.added text) (hw.added text)

theorem writes (text : String) : Uniform (write text) := by
  intro ctx
  refine ⟨.ok (), text.toList, ctx, fun w hw => ?_⟩
  simp only [write, output, hw.write text, endWith]

theorem looks {f : Context → Rendering β} (h : ∀ ctx, Uniform (f ctx))
    (hf : ∀ ctx w, f { ctx with writer := w } = f ctx) : Uniform (get >>= f) := by
  intro ctx
  obtain ⟨result, text, rest, hrest⟩ := h ctx ctx
  refine ⟨result, text, rest, fun w hw => ?_⟩
  rw [← hrest w hw, ← hf ctx w]
  rfl

theorem inDeclaration (h : Uniform x) (declaration : Declaration) :
    Uniform (inDeclaration declaration x) := by
  intro ctx
  obtain ⟨result, text, rest, hrest⟩ := h { ctx with declaration := some declaration }
  refine ⟨result, text, { rest with declaration := ctx.declaration }, fun w hw => ?_⟩
  unfold Render.inDeclaration
  have hx := hrest w hw
  cases result with
  | ok a | error e =>
    rw [hx]
    rfl

end Uniform

theorem Made.uniform (h : Made False x) : Uniform x := by
  induction h with
  | stays a => exact .quiet fun ctx => ⟨.ok a, ctx, fun _ => rfl⟩
  | throws => exact .quiet fun ctx => ⟨.error _, ctx, fun _ => rfl⟩
  | bind _ _ ih ih' => exact .bind ih ih'
  | walks x =>
    refine .quiet fun ctx => ?_
    cases hx : x ctx.cursor with
    | ok a cursor => exact ⟨.ok a, { ctx with cursor }, fun w => by simp only [walk, hx, endWith]⟩
    | error e cursor =>
      exact ⟨.error (.ofCursor e), { ctx with cursor }, fun w => by simp only [walk, hx, endWith]⟩
  | writes text => exact .writes text
  | looks hf _ ih => exact .looks ih hf
  | @notes g hg =>
    exact .quiet fun ctx => ⟨.ok (), g ctx, fun w => congrArg (EStateM.Result.ok ()) (hg ctx w)⟩
  | within declaration _ ih => exact ih.inDeclaration declaration
  | captures hfiles | startsLine hfiles | writesLine _ hfiles | putsBack _ hfiles
  | looksAtIndentation hfiles | indents _ hfiles => exact hfiles.elim

/-- How two runs end that differ in the indentation, the first with none: alike, but that the text
that is received is indented. -/
structure Alike (ctx : Context) (width : Nat)
    (plain padded : EStateM.Result RenderError Context α) : Prop where
  result : resultOf padded = resultOf plain
  cursor : (ending padded).cursor = (ending plain).cursor
  required : (ending padded).required = (ending plain).required
  written : (ending padded).written = (ending plain).written
  declaration : (ending padded).declaration = (ending plain).declaration
  lineStart : (ending padded).writer.atLineStart = (ending plain).writer.atLineStart
  text : ∃ text out, (ending plain).writer.current = ctx.writer.current ++ String.ofList text ∧
    (ending padded).writer.current = ctx.writer.current ++ String.ofList out ∧
    Indents width ctx.writer.atLineStart text out

/-- Two ends alike but for their writers, of which the one has taken the text of the other,
indented. -/
theorem alike_endWith {rest : Context} {width : Nat} {plain padded : Writer} (text : List Char)
    (result : Except RenderError α) (hstart : padded.atLineStart = plain.atLineStart)
    (hplain : plain.current = ctx.writer.current ++ String.ofList text)
    (hpadded : padded.current =
      ctx.writer.current ++ String.ofList (indented width ctx.writer.atLineStart text)) :
    Alike ctx width (endWith { rest with writer := plain } result)
      (endWith { rest with writer := padded } result) := by
  have htext := indents_indented width ctx.writer.atLineStart text
  cases result with
  | ok a | error e =>
    exact ⟨rfl, rfl, rfl, rfl, rfl, hstart, text, _, hplain, hpadded, htext⟩

theorem Uniform.alike (h : Uniform x) (hw : ctx.writer.Works) (width : Nat) :
    Alike ctx width (x { ctx with writer := ctx.writer.setIndentation 0 })
      (x { ctx with writer := ctx.writer.setIndentation width }) := by
  obtain ⟨result, text, rest, hrest⟩ := h ctx
  have hworks (n : Nat) : (ctx.writer.setIndentation n).Works := hw
  rw [hrest _ (hworks 0), hrest _ (hworks width)]
  have hstart (n : Nat) : ((ctx.writer.setIndentation n).added text).atLineStart =
      endsLine ctx.writer.atLineStart text := Writer.atLineStart_added text
  refine alike_endWith text result ((hstart width).trans (hstart 0).symm) ?_ ?_
  · exact Writer.current_added_of_indentation_eq_zero rfl text
  · exact Writer.current_added (ctx.writer.setIndentation width) text

end Render

namespace Tree

variable {s : Settings} {type : TypeDecl} {ctx after : Context}

/-! ## Blocks -/

/-- What is written for a type depends neither on the writer nor on where the cursor comes from. -/
theorem renderType_uniform (hw : ctx.writer.Works) (h : renderType s type ctx = .ok () after) :
    ∃ text, after.writer = ctx.writer.added text ∧
      ∀ (cursor : Cursor) (w : Writer), cursor.text = ctx.cursor.text → w.Works →
        ∃ after', renderType s type { ctx with cursor, writer := w } = .ok () after' ∧
          after'.writer = w.added text := by
  obtain ⟨_, _, hjump, h⟩ := bind_ok.1 h
  obtain ⟨start, hstart, hoffset, rfl⟩ := jumpTo_ok hjump
  let body : Rendering Unit := do
    runScript (type.script s)
    let _ ← copyTrivia
  have hmade : Made False body :=
    .bind (Step.runAll_made _ (type.toMember.allSound s)) fun _ =>
      .bind .copyTrivia fun _ => .stays ()
  obtain ⟨result, text, rest, hrest⟩ := hmade.uniform { ctx with cursor := start }
  have hrun : body { ctx with cursor := start } = .ok () after := by
    rwa [Context.moved_nil] at h
  have hhere := hrest ctx.writer hw
  rw [hrun] at hhere
  cases result with
  | error e => cases hhere
  | ok _ =>
    cases hhere
    refine ⟨text, rfl, fun cursor w htext hw' => ⟨{ rest with writer := w.added text }, ?_, rfl⟩⟩
    refine bind_ok.2 ⟨(), { ctx with cursor := start, writer := w }, ?_, hrest w hw'⟩
    have hjump' : jumpTo start.offset { ctx with cursor, writer := w } = _ :=
      jumpTo_eq (hstart.trans htext.symm)
    rw [hoffset, Context.moved_nil] at hjump'
    exact hjump'

/-- The block of a package holds the text of the type without the block, indented. -/
theorem renderBody_block {p : PackageDecl} {source : String} {c : Cursor} {w : Writer}
    (hopens : opensNamespace s.target = true) (hc : c.text = source.toList) (hw : w.Works)
    (hindent : w.indentation = 0) (hend : w.lineEnd = "\n")
    (h : renderBody s (some p) type { Context.start source true with cursor := c, writer := w } =
      .ok () after) :
    ∃ line text out closing, p.Opens source.toList s (line ++ " \x7b\n".toList) ∧
      runFrom source true (renderType s type) = ⟨none, String.ofList text⟩ ∧
      Indents s.indentWidth true text out ∧ closing ∈ ["\x7d\n".toList, "\n\x7d\n".toList] ∧
      after.writer.current = w.current ++
        String.ofList (line ++ " \x7b\n".toList ++ out ++ closing) := by
  obtain ⟨_, typed, hpackage, htype, hclose⟩ := renderBody_stages hopens h
  obtain ⟨start, opened, hstart, hoffset, hrun, hback⟩ := revisit_ok hpackage
  obtain ⟨cursor, line, hopened⟩ :=
    PackageDecl.render_moves hopens ((Writer.lineEnd_added _).trans hend) hrun
  obtain rfl := hback ((p.render_leaves s).ok hrun).text
  have hopening : p.Opens source.toList s (line ++ " \x7b\n".toList) :=
    ⟨_, opened, hstart.trans hc, hoffset, hrun, by rw [hopened]⟩
  rw [Context.moved_nil] at hopened
  subst hopened
  rw [Context.moved_nil] at htype
  -- Behind the line of the package the state is that of a new rendering, but for cursor and writer.
  obtain ⟨text, hwriter, hanywhere⟩ := renderType_uniform (hw.added _) htype
  obtain ⟨fresh, hfresh, hfreshWriter⟩ :=
    hanywhere (.ofText source) (.new true "\n") hc.symm (.inr rfl)
  obtain ⟨closing, hclosing, hclosed⟩ := closeBlock_ok hclose <| by
    show typed.writer.lineEnd = "\n"
    rw [hwriter]
    exact (Writer.lineEnd_added _).trans ((Writer.lineEnd_added _).trans hend)
  refine ⟨line, text, indented s.indentWidth true text, closing, hopening, ?_,
    indents_indented _ _ _, hclosing, ?_⟩
  · have hreceived := Writer.current_added_of_indentation_eq_zero (w := .new true "\n") rfl text
    have hrun : renderType s type (.start source true) = .ok () fresh := hfresh
    simp only [runFrom, hrun, hfreshWriter]
    exact congrArg (Outcome.mk none) (hreceived.trans String.empty_append)
  · have hline : endsLine w.atLineStart (line ++ " \x7b\n".toList) = true := by
      rw [endsLine_append]
      rfl
    rw [hclosed]
    dsimp only [Context.moved]
    rw [hwriter, hindent]
    exact Writer.current_block hindent s.indentWidth hline text closing

/-- The body of a file stands at its end. -/
theorem CompilationUnit.renderWith_body {u : CompilationUnit} {source : String}
    (h : u.renderWith s type (.start source true) = .ok () after) :
    ∃ (c : Cursor) (w : Writer) (inside : Context) (front : String), c.text = source.toList ∧
      w.indentation = 0 ∧ w.lineEnd = "\n" ∧ w.captures ≠ [] ∧ w.current = "" ∧
      renderBody s u.package type { Context.start source true with cursor := c, writer := w } =
        .ok () inside ∧
      after.writer.current = front ++ inside.writer.current := by
  obtain ⟨stages⟩ := u.renderWith_stages h
  obtain ⟨lead, c, hskip, -, hstart⟩ := copyTriviaUntil_ok stages.copies
  obtain ⟨inside, hinside, hheld, -⟩ := captured_ok stages.holds
  rw [hstart] at hinside
  obtain ⟨hpass, -, -⟩ := skipTrivia_ok hskip
  have hextended := ((renderBody_leaves s u.package type).ok hinside).writer
  refine ⟨c, _, inside, stages.behind.writer.current, hpass.text_eq, ?_, ?_, List.cons_ne_nil _ _, rfl,
    hinside, ?_⟩
  · exact Writer.indentation_added (w := .new true "\n") lead.toList
  · exact Writer.lineEnd_added (w := .new true "\n") lead.toList
  · rw [← Writer.closeCapture_fst hextended, ← hheld]
    exact (congrArg (·.writer.current) stages.ends).trans (Writer.writeRaw_current stages.puts)

/-! ## Nodes -/

/-- Of two renderings of a node that differ in the indentation only, the one does what the other
does, and writes the same, indented. The content of a block of C# is the text of the type, with the
trivia after it, as it is written without the block, indented. -/
theorem Node.render_indents (s : Settings) :
    (∀ node : Node, node.kind ≠ .compilationUnit → node.kind ≠ .packageDeclaration →
      ∀ (ctx : Context) (width : Nat), ctx.writer.Works →
        Alike ctx width
          (node.render s { ctx with writer := ctx.writer.setIndentation 0 })
          (node.render s { ctx with writer := ctx.writer.setIndentation width })) ∧
    (∀ (source : String) (u : CompilationUnit) (p : PackageDecl) (type : TypeDecl) (out : String),
      s.target = .csharp → u.package = some p → u.types = [type] →
      renderUnit s source true u = ⟨none, out⟩ →
      ∃ front line text content closing,
        p.Opens source.toList s (line ++ " \x7b\n".toList) ∧
        runFrom source true (renderType s type) = ⟨none, String.ofList text⟩ ∧
        Indents s.indentWidth true text content ∧
        closing ∈ ["\x7d\n".toList, "\n\x7d\n".toList] ∧
        out.toList = front ++ (line ++ " \x7b\n".toList ++ content ++ closing)) := by
  refine ⟨fun node hunit hpackage ctx width hw => ?_, fun source u p type out ht hp htypes h => ?_⟩
  · have hmade : Made False (node.render s) :=
      node.render_made s fun h => h.elim hunit hpackage
    exact hmade.uniform.alike hw width
  · obtain ⟨after, hrun, hout⟩ := runFrom_ok h
    obtain ⟨_, htypes', hwith⟩ := u.render_ok hrun
    cases htypes.symm.trans htypes'
    obtain ⟨c, w, inside, front, hc, hindent, hend, hheld, hempty, hbody, hcurrent⟩ :=
      CompilationUnit.renderWith_body hwith
    have hopens : opensNamespace s.target = true := by
      rw [ht]
      rfl
    rw [hp] at hbody
    obtain ⟨line, text, content, closing, hopening, htext, hcontent, hclosing, hinside⟩ :=
      renderBody_block hopens hc (.inl hheld) hindent hend hbody
    refine ⟨front.toList, line, text, content, closing, hopening, htext, hcontent, hclosing, ?_⟩
    have hdepth : after.writer.captures.length = 0 := ((u.restores s).ok hrun).writer.depth
    have hreceived : after.writer.current = out := by
      rw [Writer.current, List.length_eq_zero_iff.1 hdepth, ← hout]
    rw [← hreceived, hcurrent, hinside, hempty, String.empty_append, String.toList_append,
      String.toList_ofList]

/-- A sum over two lines, and a class in a package. -/
theorem Node.render_indents_class :
    Alike (.start "a +\nb" true) 2
      (Node.render (.ofTarget .csharp) (.expr (.binary ⟨0, 5⟩ (.name (.simple ⟨⟨0, 1⟩, "a"⟩)) .plus
        (.name (.simple ⟨⟨4, 5⟩, "b"⟩)) [])) (.start "a +\nb" true))
      (Node.render (.ofTarget .csharp) (.expr (.binary ⟨0, 5⟩ (.name (.simple ⟨⟨0, 1⟩, "a"⟩)) .plus
        (.name (.simple ⟨⟨4, 5⟩, "b"⟩)) []))
        { Context.start "a +\nb" true with writer := ⟨.new true, true, [], 2, "\n"⟩ }) ∧
    ∃ front line text content closing,
      PackageDecl.Opens "package p;\nclass A \x7b\n\x7d\n".toList (.ofTarget .csharp)
        ⟨⟨0, 10⟩, .simple ⟨⟨8, 9⟩, "p"⟩⟩ (line ++ " \x7b\n".toList) ∧
      Indents 4 true text content ∧
      "namespace p \x7b\n    class A \x7b\n    \x7d\n\x7d\n".toList =
        front ++ (line ++ " \x7b\n".toList ++ content ++ closing) := by
  obtain ⟨hnodes, hblocks⟩ := Node.render_indents (.ofTarget .csharp)
  refine ⟨hnodes _ (by decide) (by decide) (.start "a +\nb" true) 2 (.inr rfl), ?_⟩
  obtain ⟨front, line, text, content, closing, hopens, -, hcontent, -, hout⟩ :=
    hblocks "package p;\nclass A \x7b\n\x7d\n"
      ⟨⟨0, 23⟩, some ⟨⟨0, 10⟩, .simple ⟨⟨8, 9⟩, "p"⟩⟩, [],
        [⟨⟨⟨11, 22⟩, .class, [], ⟨⟨17, 18⟩, "A"⟩, [], none, []⟩, []⟩]⟩
      _ _ "namespace p \x7b\n    class A \x7b\n    \x7d\n\x7d\n" rfl rfl rfl (by decide +kernel)
  exact ⟨front, line, text, content, closing, hopens, hcontent, hout⟩

end Tree

end Lockstep
