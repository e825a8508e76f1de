import Lockstep.Proofs.Composition
import Lockstep.Proofs.Restoring

/-!
# Refused writes are reported

A rendering is run twice, once at a sink that accepts what it is given and once at a sink that
refuses it. As long as nothing is delivered, both runs go the same way; the first text that is
delivered to the one is refused by the other, which then stops with the output error and does not
write again. `Mirrors` is the relation between the two runs, and it is an induction over how the
rendering is made (`Made.reports`). Text that is held back is never refused (`Made.works`), so a
failure in the held text comes before the refusal of it.

- `Writer.write_eq_writeParts`: a text that is written in parts stops at the first refused one.
- `Made.reports`: the two runs mirror each other.
- `Node.render_reports`: the theorem about units and nodes.
-/

namespace Lockstep

theorem Leaves.ending {ε σ α : Type} {R : σ → σ → Prop} {x : EStateM ε σ α} {s : σ}
    (h : Leaves R x) : R s (ending (x s)) := by
  cases hx : x s with
  | ok a after => exact h.ok hx
  | error e after => exact h.error hx

theorem get_bind {ε σ α : Type} (f : σ → EStateM ε σ α) (s : σ) : (get >>= f) s = f s s := rfl

namespace Output

open Text

/-- The sink after it has taken a text. -/
def Sink.taken (k : Sink) (text : String) : Sink := { k with received := k.received ++ text }

/-- The sink, as one that refuses. -/
def Sink.refusing (k : Sink) : Sink := { k with accepts := false }

/-- The sink after one more write has been refused. -/
def Sink.refusedOnce (k : Sink) : Sink := { k with refused := k.refused + 1 }

/-- A sink that has taken a text is another. -/
theorem Sink.taken_ne (k : Sink) {text : String} (h : text ≠ "") : k.taken text ≠ k := by
  intro hk
  have hreceived : k.received ++ text = k.received := congrArg Sink.received hk
  exact h (by simpa using hreceived)

theorem Sink.taken_taken (k : Sink) (text text' : String) :
    (k.taken text).taken text' = k.taken (text ++ text') := by
  simp only [taken, String.append_assoc]

namespace Writer

variable {w : Writer}

/-! ## Writes in parts -/

/-- Write a text in parts, each of them a write of its own: the indentation of a line, the
characters before the next line break, the line break. -/
def writeParts : List Char → Write Unit
  | [] => pure ()
  | '\r' :: '\n' :: rest => do
    emit (String.ofList ['\r', '\n']) true
    writeParts rest
  | c :: rest => do
    if isLineBreak c then
      emit (String.ofList [c]) true
      writeParts rest
    else
      let w ← get
      if w.atLineStart && w.indentation != 0 then
        emit (String.ofList (List.replicate w.indentation ' ')) true
      emit (String.ofList (c :: rest.takeWhile (!isLineBreak ·))) false
      writeParts (rest.dropWhile (!isLineBreak ·))
termination_by cs => cs.length
decreasing_by
  · simp +arith
  · simp
  · exact Nat.lt_succ_of_le (List.dropWhile_sublist _).length_le

/-- What is written after a part may as well be written with it: if the part is refused, nothing
else is tried. -/
theorem emit_bind_eq {text text' : String} {lineStart lineStart' : Bool} {rest : Write Unit}
    (h : ∀ w', w'.atLineStart = lineStart → w'.indentation = w.indentation →
      rest w' = emit text' lineStart' w') :
    (emit text lineStart >>= fun _ => rest) w = emit (text ++ text') lineStart' w := by
  obtain ⟨sink, start, captures, indentation, lineEnd⟩ := w
  cases captures with
  | cons inner outer =>
    have hrest := h ⟨sink, start, ⟨inner.text ++ text, lineStart⟩ :: outer, indentation, lineEnd⟩
      rfl rfl
    refine hrest.trans ?_
    simp only [emit, String.append_assoc]
  | nil =>
    obtain ⟨accepts, received, refused⟩ := sink
    cases accepts with
    | true =>
      have hrest := h ⟨⟨true, received ++ text, refused⟩, lineStart, [], indentation, lineEnd⟩
        rfl rfl
      refine hrest.trans ?_
      simp only [emit, if_true, String.append_assoc]
    | false => rfl

theorem emit_bind_writeParts {part : List Char} {lineStart : Bool} {rest : List Char}
    (ih : rest ≠ [] → ∀ w, writeParts rest w =
      emit (String.ofList (indented w.indentation w.atLineStart rest))
        (endsLine w.atLineStart rest) w) (w : Writer) :
    (emit (String.ofList part) lineStart >>= fun _ => writeParts rest) w =
      emit (String.ofList (part ++ indented w.indentation lineStart rest))
        (endsLine lineStart rest) w := by
  rw [String.ofList_append]
  by_cases hrest : rest = []
  · subst hrest
    have hdone : writeParts [] = pure () := by rw [writeParts]
    have hend : String.ofList part ++ String.ofList (indented w.indentation lineStart []) =
        String.ofList part := String.append_empty
    rw [hdone, hend]
    simp only [bind, EStateM.bind, endsLine]
    cases emit (String.ofList part) lineStart w <;> rfl
  · refine emit_bind_eq fun w' hstart hindent => ?_
    rw [ih hrest, hstart, hindent]

/-- Writing in parts is one write of all of them, whether the sink accepts or refuses. -/
theorem writeParts_eq {cs : List Char} (hne : cs ≠ []) (w : Writer) :
    writeParts cs w =
      emit (String.ofList (indented w.indentation w.atLineStart cs))
        (endsLine w.atLineStart cs) w := by
  induction cs using writeParts.induct generalizing w with
  | case1 => exact absurd rfl hne
  | case2 rest ih =>
    rw [writeParts, emit_bind_writeParts fun h w => ih h w]
    rfl
  | case3 c rest hcrlf hc ih =>
    rw [writeParts, if_pos hc, emit_bind_writeParts fun h w => ih h w]
    · simp only [indented, hc, if_true, endsLine]
      rfl
    · exact hcrlf
  | case4 c rest hcrlf hc ih =>
    have hline (w : Writer) :
        (emit (String.ofList (c :: rest.takeWhile (!isLineBreak ·))) false >>=
          fun _ => writeParts _) w = _ :=
      emit_bind_writeParts (fun h w => ih h w) w
    simp only [List.cons_append, ← indented_takeWhile, endsLine_dropWhile] at hline
    rw [writeParts, if_neg hc]
    · simp only [indented, endsLine, Bool.eq_false_iff.2 hc, Bool.false_eq_true, if_false]
      cases hstart : w.atLineStart with
      | false =>
        rw [get_bind, hstart, Bool.false_and, if_neg Bool.false_ne_true]
        exact hline w
      | true =>
        rw [get_bind, hstart, Bool.true_and]
        by_cases hzero : w.indentation = 0
        · simp only [hzero, bne_self_eq_false, Bool.false_eq_true, if_false, List.replicate_zero,
            List.nil_append]
          have hw := hline w
          rw [hzero] at hw
          exact hw
        · simp only [bne_iff_ne, ne_eq, hzero, not_false_iff, if_true, String.ofList_append]
          refine emit_bind_eq fun w' _ hindent => ?_
          rw [← hindent]
          exact hline w'
    · exact hcrlf

/-- A text is written in parts: after the first that is refused no other is tried. -/
theorem write_eq_writeParts (text : String) : write text = writeParts text.toList := by
  funext w
  simp only [write]
  split
  · next hempty =>
    rw [String.isEmpty_iff.1 hempty, writeParts.eq_def]
    rfl
  · next hne => exact (writeParts_eq (fun hnil => hne (by simpa using hnil)) w).symm

/-- The writer, at a sink that refuses. -/
def refusing (w : Writer) : Writer := { w with sink := w.sink.refusing }

theorem closeCapture_refusing (w : Writer) :
    w.refusing.closeCapture = (w.closeCapture.1, w.closeCapture.2.refusing) := by
  obtain ⟨sink, start, captures, indentation, lineEnd⟩ := w
  cases captures <;> rfl

theorem closeCapture_sink (w : Writer) : w.closeCapture.2.sink = w.sink := by
  obtain ⟨sink, start, captures, indentation, lineEnd⟩ := w
  cases captures <;> rfl

theorem indented_ne_nil (width : Nat) (lineStart : Bool) {cs : List Char} (h : cs ≠ []) :
    indented width lineStart cs ≠ [] := by
  cases cs with
  | nil => exact absurd rfl h
  | cons c cs => cases hc : isLineBreak c <;> cases lineStart <;> simp [indented, hc]

end Writer

end Output

namespace Render

open Config Output Source Target Text Lockstep.Tree

variable {files : Prop} {α β : Type} {x : Rendering α} {ctx : Context}

/-! ## Writers are only added to -/

/-- The writer has only been added to. -/
def Context.Adds (ctx after : Context) : Prop := ctx.writer.Extended after.writer

instance : Std.Refl Context.Adds := ⟨fun ctx => .refl ctx.writer⟩

instance : Trans Context.Adds Context.Adds Context.Adds := ⟨Writer.Extended.trans⟩

theorem output_adds {x : Writer.Write α} (h : Leaves Writer.Kept x) :
    Leaves Context.Adds (output x) :=
  (output_leaves h).mono fun h => h.writer

theorem inDeclaration_adds (declaration : Declaration) (h : Leaves Context.Adds x) :
    Leaves Context.Adds (inDeclaration declaration x) :=
  leaves_inDeclaration h fun hafter => hafter

theorem captured_adds {x : Rendering Unit} (h : Leaves Context.Adds x) :
    Leaves Context.Adds (captured x) := by
  refine leaves_captured h fun {ctx after} hafter => ?_
  have hextended : ctx.writer.openCapture.Extended after.writer := hafter
  rw [Context.Adds, Writer.closeCapture_of_extended hextended]
  exact Writer.extended_setIndentation _ _

theorem Made.adds (h : Made files x) : Leaves Context.Adds x := by
  induction h with
  | stays a => exact .stays a
  | throws => exact .throws _
  | bind _ _ ih ih' => exact .bind ih ih'
  | walks x =>
    intro ctx
    simp only [walk]
    cases x ctx.cursor <;> exact .refl _
  | writes text => exact output_adds (Writer.write_leaves text)
  | looks _ _ ih => exact .looks ih
  | notes hg =>
    refine .changes fun ctx => ?_
    rw [Context.Adds, writer_of_notes hg]
    exact .refl _
  | within declaration _ ih => exact inDeclaration_adds declaration ih
  | captures _ _ ih => exact captured_adds ih
  | startsLine => exact output_adds Writer.ensureLineStart_leaves
  | writesLine text => exact output_adds (Writer.writeLine_leaves text)
  | putsBack text => exact output_adds (Writer.writeRaw_leaves text)
  | looksAtIndentation _ _ _ ih => exact .looks ih
  | indents g => exact .changes fun ctx => Writer.extended_setIndentation _ _

/-! ## What is written goes to the sink piece by piece -/

theorem write_eq_emit (text : String) :
    write text = (do
      let ctx ← get
      if text.isEmpty then pure ()
      else
        output (Writer.emit
          (String.ofList (indented ctx.writer.indentation ctx.writer.atLineStart text.toList))
          (endsLine ctx.writer.atLineStart text.toList))) := by
  funext ctx
  simp only [write, output, Writer.write, get_bind]
  cases text.isEmpty <;> rfl

theorem writeLine_eq (text : String) :
    output (Writer.writeLine text) = (do
      write text
      let ctx ← get
      output (Writer.emit ctx.writer.lineEnd true)) := by
  funext ctx
  simp only [write, output, Writer.writeLine, bind, EStateM.bind]
  cases Writer.write text ctx.writer <;> rfl

theorem ensureLineStart_eq :
    output Writer.ensureLineStart = (do
      let ctx ← get
      if ctx.writer.atLineStart then pure () else output (Writer.writeLine "")) := by
  funext ctx
  simp only [output, Writer.ensureLineStart, get_bind]
  cases ctx.writer.atLineStart <;> rfl

theorem writeRaw_eq (text : String) :
    output (Writer.writeRaw text) = (do
      if text.isEmpty then pure ()
      else output (Writer.emit text (endsLine false text.toList))) := by
  simp only [Writer.writeRaw]
  split <;> rfl

/-! ## Held text is never refused -/

/-- In a state in which writes are not refused, the step does not end in the output error, and
afterwards they are not refused either. -/
def Works (x : Rendering α) : Prop :=
  ∀ ctx : Context, ctx.writer.Works →
    match x ctx with
    | .ok _ after => after.writer.Works
    | .error e _ => e ≠ .output

namespace Works

theorem bind {f : α → Rendering β} (h : Works x) (hf : ∀ a, Works (f a)) : Works (x >>= f) := by
  intro ctx hworks
  have hx := h ctx hworks
  simp only [Bind.bind, EStateM.bind]
  cases hrun : x ctx with
  | ok a after =>
    rw [hrun] at hx
    exact hf a after hx
  | error e after =>
    rw [hrun] at hx
    exact hx

theorem looks {f : Context → Rendering β} (h : ∀ ctx, Works (f ctx)) : Works (get >>= f) :=
  bind (fun _ h => h) h

theorem ite {c : Prop} [Decidable c] {y : Rendering α} (h : Works x) (h' : Works y) :
    Works (if c then x else y) := by
  split
  · exact h
  · exact h'

theorem stays (a : α) : Works (pure a) := fun _ h => h

theorem emits (text : String) (lineStart : Bool) : Works (output (Writer.emit text lineStart)) := by
  rintro ⟨c, ⟨⟨accepts, received, refused⟩, start, captures, indentation, lineEnd⟩, required,
    written, declaration⟩ hworks
  cases captures with
  | cons inner outer => exact .inl nofun
  | nil =>
    obtain rfl : accepts = true := hworks.resolve_left fun h => h rfl
    exact .inr rfl

theorem writes (text : String) : Works (write text) := by
  rw [write_eq_emit]
  exact looks fun _ => ite (stays ()) (emits _ _)

theorem writesLine (text : String) : Works (output (Writer.writeLine text)) := by
  rw [writeLine_eq]
  exact bind (writes text) fun _ => looks fun _ => emits _ _

theorem inDeclaration (h : Works x) (declaration : Declaration) :
    Works (inDeclaration declaration x) := by
  intro ctx hworks
  have hx := h { ctx with declaration := some declaration } hworks
  unfold Render.inDeclaration
  cases hrun : x { ctx with declaration := some declaration } with
  | ok | error => rwa [hrun] at hx

/-- Whatever is open below it, a capture takes every text. -/
theorem captured {x : Rendering Unit} (h : Works x) (hadds : Leaves Context.Adds x) :
    Works (captured x) := by
  intro ctx hworks
  have hx := h { ctx with writer := ctx.writer.openCapture } (.inl (List.cons_ne_nil _ _))
  unfold Render.captured
  cases hrun : x { ctx with writer := ctx.writer.openCapture } with
  | ok _ after =>
    have hclosed := Writer.closeCapture_of_extended (hadds.ok hrun)
    show after.writer.closeCapture.2.Works
    rw [hclosed]
    exact hworks
  | error e after => rwa [hrun] at hx

end Works

theorem ofCursor_ne_output (e : Cursor.Error) : RenderError.ofCursor e ≠ .output := by
  cases e <;> exact nofun

theorem Made.works (h : Made files x) : Works x := by
  induction h with
  | stays a => exact .stays a
  | throws he => exact fun _ _ => he
  | bind _ _ ih ih' => exact .bind ih ih'
  | walks x =>
    intro ctx hworks
    simp only [walk]
    cases x ctx.cursor with
    | ok a c => exact hworks
    | error e c => exact ofCursor_ne_output e
  | writes text => exact .writes text
  | looks _ _ ih => exact .looks ih
  | notes hg =>
    intro ctx hworks
    show (_ : Context).writer.Works
    rwa [writer_of_notes hg]
  | within declaration _ ih => exact ih.inDeclaration declaration
  | captures _ h ih => exact ih.captured h.adds
  | startsLine =>
    rw [ensureLineStart_eq]
    exact .looks fun _ => .ite (.stays ()) (.writesLine "")
  | writesLine text => exact .writesLine text
  | putsBack text =>
    rw [writeRaw_eq]
    exact .ite (.stays ()) (.emits _ _)
  | looksAtIndentation _ _ _ ih => exact .looks ih
  | indents g => exact fun ctx hworks => hworks

/-! ## Two runs -/

/-- The state, with a sink that refuses. -/
def Context.refusing (ctx : Context) : Context := { ctx with writer := ctx.writer.refusing }

/-- The end of a run, with a sink that refuses. -/
def refusingEnd : EStateM.Result RenderError Context α → EStateM.Result RenderError Context α
  | .ok a after => .ok a after.refusing
  | .error e after => .error e after.refusing

/-- How two runs from one state end, the first at a sink that accepts and the second at a sink that
refuses: alike, if nothing is delivered, and otherwise the second ends in the output error, after
one refusal. -/
inductive Mirrors (ctx : Context) :
    EStateM.Result RenderError Context α → EStateM.Result RenderError Context α → Prop
  | silent {r : EStateM.Result RenderError Context α} :
      (ending r).writer.sink = ctx.writer.sink → Mirrors ctx r (refusingEnd r)
  | heard {r : EStateM.Result RenderError Context α} {stopped : Context} (text : String) :
      text ≠ "" → (ending r).writer.sink = ctx.writer.sink.taken text →
      stopped.writer.sink = ctx.writer.sink.refusing.refusedOnce →
      Mirrors ctx r (.error .output stopped)

/-- The first run delivers some text, possibly none. -/
theorem Mirrors.delivers {r other : EStateM.Result RenderError Context α}
    (h : Mirrors ctx r other) : ∃ text, (ending r).writer.sink = ctx.writer.sink.taken text := by
  cases h with
  | silent hsink => exact ⟨"", by simpa [Sink.taken] using hsink⟩
  | heard text _ hsink => exact ⟨text, hsink⟩

theorem Mirrors.of_sink {mid : Context} {r other : EStateM.Result RenderError Context α}
    (hsink : mid.writer.sink = ctx.writer.sink) (h : Mirrors mid r other) :
    Mirrors ctx r other := by
  cases h with
  | silent hr => exact .silent (hr.trans hsink)
  | heard text htext hr hstopped => exact .heard text htext (hsink ▸ hr) (hsink ▸ hstopped)

/-- What the step would deliver it reports when it is refused. -/
def Reports (x : Rendering α) : Prop :=
  ∀ ctx : Context, ctx.writer.sink.accepts = true → ctx.writer.lineEnd ≠ "" →
    Mirrors ctx (x ctx) (x ctx.refusing)

namespace Reports

theorem stays (a : α) : Reports (pure a) := fun _ _ _ => .silent rfl

theorem throws (e : RenderError) : Reports (throw e : Rendering α) := fun _ _ _ => .silent rfl

/-- What the first step delivers, the second does not take back. -/
theorem bind {f : α → Rendering β} (h : Reports x) (hadds : Leaves Context.Adds x)
    (hf : ∀ a, Reports (f a)) : Reports (x >>= f) := by
  intro ctx haccepts hlineEnd
  have hx := h ctx haccepts hlineEnd
  simp only [Bind.bind, EStateM.bind]
  generalize x ctx.refusing = other at hx ⊢
  cases hrun : x ctx with
  | error e mid =>
    rw [hrun] at hx
    cases hx with
    | silent hsink => exact .silent hsink
    | heard text htext hsink hstopped => exact .heard text htext hsink hstopped
  | ok a mid =>
    rw [hrun] at hx
    have hmid : mid.writer.lineEnd ≠ "" := by rwa [(hadds.ok hrun).lineEnd]
    cases hx with
    | silent hsink =>
      have hrest := hf a mid ((congrArg Sink.accepts hsink).trans haccepts) hmid
      refine Mirrors.of_sink hsink ?_
      exact hrest
    | heard text htext hsink hstopped =>
      have hrest := hf a mid ((congrArg Sink.accepts hsink).trans haccepts) hmid
      obtain ⟨text', hsink'⟩ := hrest.delivers
      refine .heard (text ++ text') (by simp [htext]) ?_ hstopped
      rw [← Sink.taken_taken]
      exact hsink'.trans (congrArg (Sink.taken · text') hsink)

theorem looks {f : Context → Rendering β} (h : ∀ ctx, Reports (f ctx))
    (hf : ∀ ctx : Context, f ctx.refusing = f ctx) : Reports (get >>= f) := by
  intro ctx haccepts hlineEnd
  have hx := h ctx ctx haccepts hlineEnd
  show Mirrors ctx (f ctx ctx) (f ctx.refusing ctx.refusing)
  rwa [hf]

theorem emits {text : String} (htext : text ≠ "") (lineStart : Bool) :
    Reports (output (Writer.emit text lineStart)) := by
  rintro ⟨c, ⟨⟨accepts, received, refused⟩, start, captures, indentation, lineEnd⟩, required,
    written, declaration⟩ haccepts _
  obtain rfl : accepts = true := haccepts
  cases captures with
  | cons inner outer => exact .silent rfl
  | nil => exact .heard text htext rfl rfl

theorem writes (text : String) : Reports (write text) := by
  rw [write_eq_emit]
  refine looks (fun ctx => ?_) fun _ => rfl
  split
  · exact stays ()
  · next hne =>
    refine emits (fun h => ?_) _
    have htext : text.toList ≠ [] := fun hnil => hne (by simpa using hnil)
    have hnil := Writer.indented_ne_nil ctx.writer.indentation ctx.writer.atLineStart htext
    exact hnil (by simpa using h)

theorem writesLine (text : String) : Reports (output (Writer.writeLine text)) := by
  rw [writeLine_eq]
  refine bind (writes text) (output_adds (Writer.write_leaves text)) fun _ => ?_
  intro ctx haccepts hlineEnd
  exact emits hlineEnd true ctx haccepts hlineEnd

theorem inDeclaration (h : Reports x) (declaration : Declaration) :
    Reports (inDeclaration declaration x) := by
  intro ctx haccepts hlineEnd
  have hx := h { ctx with declaration := some declaration } haccepts hlineEnd
  have hother : ({ ctx.refusing with declaration := some declaration } : Context) =
      Context.refusing { ctx with declaration := some declaration } := rfl
  unfold Render.inDeclaration
  rw [hother]
  generalize x (Context.refusing { ctx with declaration := some declaration }) = other at hx ⊢
  generalize x { ctx with declaration := some declaration } = r at hx ⊢
  cases hx with
  | silent hsink => cases r <;> exact .silent hsink
  | heard text htext hsink hstopped => cases r <;> exact .heard text htext hsink hstopped

/-- Within a capture nothing is delivered. -/
theorem captured {x : Rendering Unit} (h : Reports x) (hadds : Leaves Context.Adds x) :
    Reports (captured x) := by
  intro ctx haccepts hlineEnd
  have hx := h { ctx with writer := ctx.writer.openCapture } haccepts hlineEnd
  have hother : ({ ctx.refusing with writer := ctx.refusing.writer.openCapture } : Context) =
      Context.refusing { ctx with writer := ctx.writer.openCapture } := rfl
  have hheld : (ending (x { ctx with writer := ctx.writer.openCapture })).writer.sink =
      ctx.writer.sink := (hadds.ending.sink (List.cons_ne_nil _ _)).1
  unfold Render.captured
  rw [hother]
  generalize x (Context.refusing { ctx with writer := ctx.writer.openCapture }) = other at hx ⊢
  generalize x { ctx with writer := ctx.writer.openCapture } = r at hx hheld ⊢
  cases hx with
  | silent =>
    have hclose (after : Context) :
        after.refusing.writer.closeCapture =
          (after.writer.closeCapture.1, after.writer.closeCapture.2.refusing) :=
      Writer.closeCapture_refusing _
    cases r with
    | ok _ after =>
      simp only [refusingEnd, hclose]
      exact .silent ((Writer.closeCapture_sink _).trans hheld)
    | error e after =>
      simp only [refusingEnd, hclose]
      exact .silent ((Writer.closeCapture_sink _).trans hheld)
  | heard text htext hsink => exact absurd (hsink.symm.trans hheld) (Sink.taken_ne _ htext)

end Reports

theorem Made.reports (h : Made files x) : Reports x := by
  induction h with
  | stays a => exact .stays a
  | throws => exact .throws _
  | bind hx _ ih ih' => exact .bind ih hx.adds ih'
  | walks x =>
    intro ctx _ _
    simp only [walk, Context.refusing]
    cases x ctx.cursor with
    | ok | error => exact .silent rfl
  | writes text => exact .writes text
  | looks hf _ ih => exact .looks ih fun ctx => hf ctx ctx.writer.refusing
  | @notes g hg =>
    intro ctx _ _
    have hother : g ctx.refusing = (g ctx).refusing := by
      rw [Context.refusing, Context.refusing, hg, writer_of_notes hg]
    show Mirrors ctx (.ok () (g ctx)) (.ok () (g ctx.refusing))
    rw [hother]
    exact .silent (congrArg Writer.sink (writer_of_notes hg ctx))
  | within declaration _ ih => exact ih.inDeclaration declaration
  | captures _ h ih => exact ih.captured h.adds
  | startsLine =>
    rw [ensureLineStart_eq]
    refine .looks (fun ctx => ?_) fun _ => rfl
    split
    · exact .stays ()
    · exact .writesLine ""
  | writesLine text => exact .writesLine text
  | putsBack text =>
    rw [writeRaw_eq]
    split
    · exact .stays ()
    · next hne => exact .emits (fun h => hne (by simp [h])) _
  | looksAtIndentation _ hf _ ih => exact .looks ih fun ctx => hf ctx ctx.writer.refusing rfl
  | indents g => exact fun _ _ _ => .silent rfl

/-! ## Units and nodes -/

/-- The number of writes that a sink refuses when the rendering is run at it. -/
def refusedWrites (source : String) (x : Rendering Unit) : Nat :=
  (ending (x (.start source false))).writer.sink.refused

/-- What the outcomes of two runs say about each other, the first at a sink that accepts what it is
given and the second at a sink that refuses it; `refused` is the number of writes that it
refused. -/
structure Outcome.ReportedBy (accepting refusing : Outcome) (refused : Nat) : Prop where
  /-- If nothing is delivered, the sink does not matter. -/
  same : accepting.received = "" → refusing = accepting ∧ refused = 0
  /-- If anything is delivered, the first refused write is the last. -/
  fails : accepting.received ≠ "" → refusing = ⟨some .output, ""⟩ ∧ refused = 1
  /-- The output error is about refused writes only. -/
  accepts : accepting.error ≠ some .output

/-- The outcome of a run that ended so. -/
def outcomeOf : EStateM.Result RenderError Context Unit → Outcome
  | .ok _ after => ⟨none, after.writer.sink.received⟩
  | .error e after => ⟨some e, after.writer.sink.received⟩

theorem runFrom_eq (source : String) (accepts : Bool) (x : Rendering Unit) :
    runFrom source accepts x = outcomeOf (x (.start source accepts)) := by
  unfold runFrom
  cases x (.start source accepts) <;> rfl

theorem received_outcomeOf (r : EStateM.Result RenderError Context Unit) :
    (outcomeOf r).received = (ending r).writer.sink.received := by
  cases r <;> rfl

theorem Made.reported {x : Rendering Unit} (h : Made files x) (source : String) :
    (runFrom source true x).ReportedBy (runFrom source false x) (refusedWrites source x) := by
  have hline : "\n" ≠ "" := by decide
  have hmirrors := h.reports (.start source true) rfl hline
  have hworks := h.works (.start source true) (.inr rfl)
  have hstart : Context.refusing (.start source true) = .start source false := rfl
  rw [hstart] at hmirrors
  rw [runFrom_eq, runFrom_eq, refusedWrites]
  have haccepts : (outcomeOf (x (.start source true))).error ≠ some .output := by
    cases hx : x (.start source true) with
    | ok => exact nofun
    | error e after =>
      rw [hx] at hworks
      exact fun he => hworks (Option.some.inj he)
  generalize x (.start source false) = other at hmirrors ⊢
  generalize x (.start source true) = r at hmirrors haccepts ⊢
  cases hmirrors with
  | silent hsink =>
    have hnone : (outcomeOf r).received = "" := by
      rw [received_outcomeOf, hsink]
      rfl
    have hrefused : (ending r).writer.sink.refused = 0 := by
      rw [hsink]
      rfl
    exact ⟨fun _ => by cases r <;> exact ⟨rfl, hrefused⟩, fun h => absurd hnone h, haccepts⟩
  | heard text htext hsink hstopped =>
    rename_i stopped
    have hsome : (outcomeOf r).received = text := by
      rw [received_outcomeOf, hsink]
      exact String.empty_append
    have hreceived : stopped.writer.sink.received = "" := by
      rw [hstopped]
      rfl
    have hrefused : stopped.writer.sink.refused = 1 := by
      rw [hstopped]
      rfl
    refine ⟨fun h => absurd (hsome.symm.trans h) htext, fun _ => ⟨?_, hrefused⟩, haccepts⟩
    simp only [outcomeOf, hreceived]

end Render

namespace Tree

open Config Render

/-- A sink that refuses what it is given is noticed, for units and for nodes: if the rendering
delivers nothing, it ends as it does at a sink that accepts, and if it delivers anything, it ends in
the output error after a single refused write. Within a capture no write is refused, in any state,
and the sink is left alone. -/
theorem Node.render_reports (s : Settings) :
    (∀ (source : String) (u : CompilationUnit),
      (renderUnit s source true u).ReportedBy (renderUnit s source false u)
        (refusedWrites source (Node.render s (.unit u)))) ∧
    (∀ (source : String) (node : Node),
      (renderNode s source true node).ReportedBy (renderNode s source false node)
        (refusedWrites source (do jumpTo node.extent.start; node.render s))) ∧
    (∀ (node : Node) (ctx : Context), ctx.writer.captures ≠ [] →
      (∀ after, node.render s ctx ≠ .error .output after) ∧
        (ending (node.render s ctx)).writer.sink = ctx.writer.sink) := by
  have hmade (node : Node) : Made True (node.render s) := node.render_made s fun _ => trivial
  refine ⟨fun source u => (hmade (.unit u)).reported source, fun source node => ?_,
    fun node ctx hcaptures => ⟨fun after hend => ?_, ?_⟩⟩
  · exact (Made.bind (.jumpTo _) fun _ => hmade node).reported source
  · have hworks := (hmade node).works ctx (.inl hcaptures)
    rw [hend] at hworks
    exact hworks rfl
  · exact ((hmade node).adds.ending.sink hcaptures).1

/-- The text of a class is held back, and what the sink refuses is the class as a whole. -/
theorem Node.render_reports_class :
    renderUnit (.ofTarget .csharp) "class A \x7b \x7d" false
        ⟨⟨0, 11⟩, none, [], [⟨⟨⟨0, 11⟩, .class, [], ⟨⟨6, 7⟩, "A"⟩, [], none, []⟩, []⟩]⟩ =
        ⟨some .output, ""⟩ ∧
      let start : Context := .start "A" false
      let ctx : Context := { start with writer := start.writer.openCapture }
      ctx.writer.captures ≠ [] ∧
        ∀ after, Node.render (.ofTarget .csharp) (.name (.simple ⟨⟨0, 1⟩, "A"⟩)) ctx ≠
          .error .output after := by
  obtain ⟨hunits, -, hheld⟩ := Node.render_reports (.ofTarget .csharp)
  refine ⟨((hunits "class A \x7b \x7d" _).fails ?_).1, List.cons_ne_nil _ _, ?_⟩
  · decide +kernel
  · exact (hheld _ _ (List.cons_ne_nil _ _)).1

end Tree

end Lockstep
