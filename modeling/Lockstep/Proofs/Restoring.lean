import Lockstep.Proofs.InStep
import Lockstep.Proofs.RunningUnits

/-!
# What a rendering leaves as it was

However a rendering ends, it has only added to the output at hand: the outputs below it, the
declaration at hand and the text under the cursor are as they were, and the two lists of imports
have only grown (`Context.Extended`). Scripts leave the indentation alone as well
(`Context.Kept`). Both relations are carried from single steps of cursor and writer through
sequences by `Leaves.bind`, so that each step is looked at once.

- `Leaves`: however a step ends, the state after it is related to the state before it.
- `Writer.Extended`, `Context.Extended`, `Context.Kept`: the relations.
- `Step.runAll_leaves`: scripts.
- `Node.render_restores`: the theorem about nodes.
-/

namespace Lockstep

section

variable {ε σ α β : Type} {R S : σ → σ → Prop} {x : EStateM ε σ α}

/-- However the step ends, the state after it is so related to the state before it. -/
def Leaves (R : σ → σ → Prop) (x : EStateM ε σ α) : Prop :=
  ∀ s, match x s with
    | .ok _ after | .error _ after => R s after

namespace Leaves

theorem ok {s after : σ} {a : α} (h : Leaves R x) (hx : x s = .ok a after) : R s after := by
  have hs := h s
  rwa [hx] at hs

theorem error {s after : σ} {e : ε} (h : Leaves R x) (hx : x s = .error e after) : R s after := by
  have hs := h s
  rwa [hx] at hs

theorem of_ends (hok : ∀ {s a after}, x s = .ok a after → R s after)
    (herror : ∀ {s e after}, x s = .error e after → R s after) : Leaves R x := by
  intro s
  cases hx : x s with
  | ok a after => exact hok hx
  | error e after => exact herror hx

theorem mono (h : Leaves R x) (hRS : ∀ {s after}, R s after → S s after) : Leaves S x :=
  of_ends (fun hx => hRS (h.ok hx)) (fun hx => hRS (h.error hx))

theorem stays [Std.Refl R] (a : α) : Leaves R (pure a : EStateM ε σ α) :=
  fun s => Std.Refl.refl s

theorem throws [Std.Refl R] (e : ε) : Leaves R (throw e : EStateM ε σ α) :=
  fun s => Std.Refl.refl s

theorem changes {f : σ → σ} (h : ∀ s, R s (f s)) : Leaves R (modify f : EStateM ε σ PUnit) := h

theorem bind [Trans R R R] {f : α → EStateM ε σ β} (h : Leaves R x)
    (hf : ∀ a, Leaves R (f a)) : Leaves R (x >>= f) := by
  intro s
  simp only [Bind.bind, EStateM.bind]
  cases hx : x s with
  | error e after => exact h.error hx
  | ok a mid =>
    have hmid : R s mid := h.ok hx
    cases hy : f a mid with
    | ok b after =>
      have hafter : R mid after := (hf a).ok hy
      simpa only [hy] using (Trans.trans hmid hafter : R s after)
    | error e after =>
      have hafter : R mid after := (hf a).error hy
      simpa only [hy] using (Trans.trans hmid hafter : R s after)

/-- A step that begins by looking at the state. -/
theorem looks [Std.Refl R] [Trans R R R] {f : σ → EStateM ε σ β} (h : ∀ s, Leaves R (f s)) :
    Leaves R (get >>= f) :=
  bind (fun s => Std.Refl.refl s) h

theorem ite {c : Prop} [Decidable c] {y : EStateM ε σ α} (h : Leaves R x) (h' : Leaves R y) :
    Leaves R (if c then x else y) := by
  split
  · exact h
  · exact h'

end Leaves

end

/-! ## The cursor keeps to its text -/

namespace Source.Cursor

/-- Two places of one text. -/
def SameText (c d : Cursor) : Prop := d.text = c.text

theorem jumpTo_leaves (pos : Nat) : Leaves SameText (jumpTo pos) := by
  intro c
  unfold jumpTo
  cases h : c.at? pos with
  | none => exact rfl
  | some target => exact (at?_eq_some_iff.1 h).1

theorem skipTrivia_leaves (limit : Option Nat) : Leaves SameText (skipTrivia limit) := by
  intro c
  unfold skipTrivia
  dsimp only
  cases (Trivia.lead (limit.map (· - c.offset)) c.ahead).unclosed with
  | true => exact text_pass c _
  | false => exact text_pass c _

theorem skipBlanks_leaves : Leaves SameText skipBlanks :=
  fun c => text_pass c _

theorem skipLineRest_leaves : Leaves SameText skipLineRest := by
  intro c
  have hblanks : (c.pass c.blanksAhead).text = c.text := text_pass c _
  unfold skipLineRest
  dsimp only
  cases hnext : Trivia.next (c.pass c.blanksAhead).ahead with
  | unclosed => exact hblanks
  | absent =>
    cases (c.pass c.blanksAhead).atEnd with
    | true => exact hblanks
    | false => exact rfl
  | run kind n =>
    cases kind with
    | lineBreak => exact (text_pass _ n).trans hblanks
    | blanks | lineComment | blockComment =>
      cases (c.pass c.blanksAhead).atEnd with
      | true => exact hblanks
      | false => exact rfl

theorem expect_leaves (token : String) : Leaves SameText (expect token) := by
  intro c
  unfold expect
  cases c.startsWith token with
  | true => exact text_pass c _
  | false => exact rfl

end Source.Cursor

/-! ## The writer adds to the output at hand -/

namespace Output.Writer

/-- More has been written to the output at hand, and what is below it is as it was. -/
structure Extended (w after : Writer) : Prop where
  current : ∃ text, after.current = w.current ++ text
  depth : after.captures.length = w.captures.length
  below : after.captures.tail = w.captures.tail
  sink : w.captures ≠ [] → after.sink = w.sink ∧ after.sinkLineStart = w.sinkLineStart
  lineEnd : after.lineEnd = w.lineEnd

theorem Extended.refl (w : Writer) : w.Extended w :=
  ⟨⟨"", String.append_empty.symm⟩, rfl, rfl, fun _ => ⟨rfl, rfl⟩, rfl⟩

theorem Extended.trans {w mid after : Writer} (h : w.Extended mid) (h' : mid.Extended after) :
    w.Extended after where
  current := by
    obtain ⟨text, hmid⟩ := h.current
    obtain ⟨text', hafter⟩ := h'.current
    exact ⟨text ++ text', by rw [hafter, hmid, String.append_assoc]⟩
  depth := h'.depth.trans h.depth
  below := h'.below.trans h.below
  sink := by
    intro hw
    have hmid : mid.captures ≠ [] := by
      intro hnil
      rw [← List.length_eq_zero_iff, h.depth, List.length_eq_zero_iff] at hnil
      exact hw hnil
    obtain ⟨hsink, hstart⟩ := h.sink hw
    obtain ⟨hsink', hstart'⟩ := h'.sink hmid
    exact ⟨hsink'.trans hsink, hstart'.trans hstart⟩
  lineEnd := h'.lineEnd.trans h.lineEnd

/-- More has been written, with the same indentation. -/
structure Kept (w after : Writer) : Prop extends Extended w after where
  indentation : after.indentation = w.indentation

instance : Std.Refl Kept := ⟨fun w => ⟨.refl w, rfl⟩⟩

instance : Trans Kept Kept Kept :=
  ⟨fun h h' => ⟨h.toExtended.trans h'.toExtended, h'.indentation.trans h.indentation⟩⟩

theorem emit_leaves (text : String) (lineStart : Bool) : Leaves Kept (emit text lineStart) := by
  rintro ⟨sink, start, captures, indentation, lineEnd⟩
  cases captures with
  | cons inner outer => exact ⟨⟨⟨text, rfl⟩, rfl, rfl, fun _ => ⟨rfl, rfl⟩, rfl⟩, rfl⟩
  | nil =>
    cases haccepts : sink.accepts with
    | true =>
      simp only [emit, haccepts, if_true]
      exact ⟨⟨⟨text, rfl⟩, rfl, rfl, fun h => absurd rfl h, rfl⟩, rfl⟩
    | false =>
      simp only [emit, haccepts, Bool.false_eq_true, if_false]
      exact ⟨⟨⟨"", String.append_empty.symm⟩, rfl, rfl, fun h => absurd rfl h, rfl⟩, rfl⟩

theorem write_leaves (text : String) : Leaves Kept (write text) := by
  intro w
  by_cases hempty : text.isEmpty = true
  · simp only [write, hempty, if_true]
    exact Std.Refl.refl w
  · simp only [write, if_neg hempty]
    exact emit_leaves _ _ w

theorem writeLine_leaves (text : String) : Leaves Kept (writeLine text) :=
  .bind (write_leaves text) fun _ => .looks fun w => emit_leaves w.lineEnd true

theorem ensureLineStart_leaves : Leaves Kept ensureLineStart := by
  refine .looks fun w => ?_
  exact .ite (.stays ()) (writeLine_leaves "")

theorem writeRaw_leaves (text : String) : Leaves Kept (writeRaw text) :=
  .ite (.stays ()) (emit_leaves text _)

theorem extended_setIndentation (w : Writer) (n : Nat) : w.Extended (w.setIndentation n) :=
  ⟨⟨"", String.append_empty.symm⟩, rfl, rfl, fun _ => ⟨rfl, rfl⟩, rfl⟩

theorem closeCapture_fst {w after : Writer} (h : w.openCapture.Extended after) :
    after.closeCapture.1 = after.current := by
  obtain ⟨sink, start, captures, indentation, lineEnd⟩ := after
  cases captures with
  | nil => cases h.depth
  | cons inner outer => rfl

/-- When a capture is closed, all is as it was before it was opened, but for the indentation. -/
theorem closeCapture_of_extended {w after : Writer} (h : w.openCapture.Extended after) :
    after.closeCapture.2 = w.setIndentation after.indentation := by
  obtain ⟨sink, start, captures, indentation, lineEnd⟩ := after
  obtain ⟨hsink, hstart⟩ := h.sink (List.cons_ne_nil _ _)
  cases captures with
  | nil => cases h.depth
  | cons inner outer =>
    cases hsink
    cases hstart
    cases h.below
    cases h.lineEnd
    rfl

end Output.Writer

/-! ## The state of a rendering -/

namespace Render

open Config Output Source Target Text Lockstep.Tree

variable {α : Type} {ctx after : Context} {x : Rendering α}

/-- More has been written to the output at hand, and imports may have been noted. -/
structure Context.Extended (ctx after : Context) : Prop where
  writer : ctx.writer.Extended after.writer
  declaration : after.declaration = ctx.declaration
  required : ctx.required <+: after.required
  written : ctx.written <+: after.written
  text : after.cursor.text = ctx.cursor.text

/-- More has been written, with the same indentation. -/
structure Context.Kept (ctx after : Context) : Prop extends Context.Extended ctx after where
  indentation : after.writer.indentation = ctx.writer.indentation

theorem Context.Extended.trans {mid : Context} (h : ctx.Extended mid) (h' : mid.Extended after) :
    ctx.Extended after where
  writer := h.writer.trans h'.writer
  declaration := h'.declaration.trans h.declaration
  required := h.required.trans h'.required
  written := h.written.trans h'.written
  text := h'.text.trans h.text

instance : Std.Refl Context.Extended :=
  ⟨fun _ => ⟨.refl _, rfl, List.prefix_rfl, List.prefix_rfl, rfl⟩⟩

instance : Trans Context.Extended Context.Extended Context.Extended := ⟨.trans⟩

instance : Std.Refl Context.Kept := ⟨fun ctx => ⟨Std.Refl.refl ctx, rfl⟩⟩

instance : Trans Context.Kept Context.Kept Context.Kept :=
  ⟨fun h h' => ⟨h.toExtended.trans h'.toExtended, h'.indentation.trans h.indentation⟩⟩

/-! ## Steps -/

theorem walk_leaves {x : Cursor.Walk α} (h : Leaves Cursor.SameText x) :
    Leaves Context.Kept (walk x) := by
  intro ctx
  unfold walk
  cases hx : x ctx.cursor with
  | ok a cursor =>
    exact ⟨⟨.refl _, rfl, List.prefix_rfl, List.prefix_rfl, h.ok hx⟩, rfl⟩
  | error e cursor =>
    exact ⟨⟨.refl _, rfl, List.prefix_rfl, List.prefix_rfl, h.error hx⟩, rfl⟩

theorem output_leaves {x : Writer.Write α} (h : Leaves Writer.Kept x) :
    Leaves Context.Kept (output x) := by
  intro ctx
  unfold output
  cases hx : x ctx.writer with
  | ok a writer =>
    have hw := h.ok hx
    exact ⟨⟨hw.toExtended, rfl, List.prefix_rfl, List.prefix_rfl, rfl⟩, hw.indentation⟩
  | error e writer =>
    have hw := h.error hx
    exact ⟨⟨hw.toExtended, rfl, List.prefix_rfl, List.prefix_rfl, rfl⟩, hw.indentation⟩

theorem write_leaves (text : String) : Leaves Context.Kept (write text) :=
  output_leaves (Writer.write_leaves text)

theorem jumpTo_leaves (pos : Nat) : Leaves Context.Kept (jumpTo pos) :=
  walk_leaves (Cursor.jumpTo_leaves pos)

theorem copyTriviaUntil_leaves (limit : Option Nat) :
    Leaves Context.Kept (copyTriviaUntil limit) := by
  refine .bind (walk_leaves (Cursor.skipTrivia_leaves limit)) fun text => ?_
  exact .ite (.stays false) (.bind (write_leaves text) fun _ => .stays true)

theorem copyTrivia_leaves : Leaves Context.Kept copyTrivia := copyTriviaUntil_leaves none

theorem skipTriviaUntil_leaves (limit : Option Nat) :
    Leaves Context.Kept (skipTriviaUntil limit) :=
  .bind (walk_leaves (Cursor.skipTrivia_leaves limit)) fun _ => .stays ()

theorem skipBlanks_leaves : Leaves Context.Kept skipBlanks :=
  .bind (walk_leaves Cursor.skipBlanks_leaves) fun _ => .stays ()

theorem skipLineRest_leaves : Leaves Context.Kept skipLineRest :=
  walk_leaves Cursor.skipLineRest_leaves

theorem swap_leaves (token replacement : String) : Leaves Context.Kept (swap token replacement) :=
  .bind (walk_leaves (Cursor.expect_leaves token)) fun _ => write_leaves replacement

theorem replaceExtent_leaves (extent : Extent) (text : String) :
    Leaves Context.Kept (replaceExtent extent text) :=
  .looks fun _ => .bind (jumpTo_leaves _) fun _ => swap_leaves _ text

theorem swapOperator_leaves (token replacement : String) (balanced spaced : Bool) :
    Leaves Context.Kept (swapOperator token replacement balanced spaced) := by
  refine .bind copyTrivia_leaves fun before => .looks fun ctx => ?_
  have hrest : Leaves Context.Kept (do
      swap token replacement
      let after ← copyTrivia
      if balanced && !after && (spaced || before) then write " ") :=
    .bind (swap_leaves token replacement) fun _ => .bind copyTrivia_leaves fun _ =>
      .ite (write_leaves " ") (.stays ())
  exact .ite (.bind (write_leaves " ") fun _ => hrest) hrest

theorem enter_leaves (kind : Kind) (extent : Extent) : Leaves Context.Kept (enter kind extent) :=
  .looks fun _ => .ite (.stays ()) (.throws _)

theorem prefix_addNew (texts : List String) (text : String) : texts <+: addNew texts text := by
  unfold addNew
  split
  · exact List.prefix_rfl
  · exact List.prefix_append texts [text]

theorem require_leaves (name : String) : Leaves Context.Kept (require name) :=
  .changes fun _ => ⟨⟨.refl _, rfl, prefix_addNew _ name, List.prefix_rfl, rfl⟩, rfl⟩

theorem recordImport_leaves (name : String) : Leaves Context.Kept (recordImport name) := by
  refine .looks fun ctx => .bind (.changes fun _ => ?_) fun _ => .stays _
  exact ⟨⟨.refl _, rfl, List.prefix_rfl, prefix_addNew _ name, rfl⟩, rfl⟩

theorem swapModifier_leaves (target : Target) (word : ModifierWord) (extent : Extent) :
    Leaves Context.Kept (swapModifier target word extent) := by
  refine .looks fun ctx => ?_
  cases ctx.declaration with
  | none => exact .throws _
  | some declaration =>
    dsimp only
    cases modifierRule target word declaration with
    | keep | replace => exact swap_leaves _ _
    | drop => exact .bind (swap_leaves _ "") fun _ => skipBlanks_leaves
    | unsupported => exact .throws _

/-- Going to another place and back leaves what the step there leaves. -/
theorem revisit_leaves {R : Context → Context → Prop} [Std.Refl R] [Trans R R R]
    (hkept : ∀ {ctx after : Context}, ctx.Kept after → R ctx after) (pos : Nat)
    {x : Rendering Unit} (h : Leaves R x) : Leaves R (revisit pos x) :=
  .looks fun _ => .bind ((jumpTo_leaves pos).mono hkept) fun _ =>
    .bind h fun _ => (jumpTo_leaves _).mono hkept

theorem repeated_leaves {x : Rendering Unit} (h : Leaves Context.Kept x) (n : Nat) :
    Leaves Context.Kept (repeated x n) := by
  induction n with
  | zero => exact .stays ()
  | succ n ih => exact .bind h fun _ => ih

/-- The declaration at hand is put back on both exits. -/
theorem leaves_inDeclaration {R S : Context → Context → Prop} {declaration : Declaration}
    (h : Leaves R x)
    (back : ∀ {ctx after : Context}, R { ctx with declaration := some declaration } after →
      S ctx { after with declaration := ctx.declaration }) :
    Leaves S (inDeclaration declaration x) := by
  intro ctx
  unfold inDeclaration
  cases hx : x { ctx with declaration := some declaration } with
  | ok a after => exact back (h.ok hx)
  | error e after => exact back (h.error hx)

theorem inDeclaration_leaves (declaration : Declaration) (h : Leaves Context.Kept x) :
    Leaves Context.Kept (inDeclaration declaration x) :=
  leaves_inDeclaration h fun hafter =>
    ⟨⟨hafter.writer, rfl, hafter.required, hafter.written, hafter.text⟩, hafter.indentation⟩

/-- A capture is closed on both exits. -/
theorem leaves_captured {R S : Context → Context → Prop} {x : Rendering Unit} (h : Leaves R x)
    (closed : ∀ {ctx after : Context}, R { ctx with writer := ctx.writer.openCapture } after →
      S ctx { after with writer := after.writer.closeCapture.2 }) : Leaves S (captured x) := by
  intro ctx
  unfold captured
  cases hx : x { ctx with writer := ctx.writer.openCapture } with
  | ok _ after => exact closed (h.ok hx)
  | error e after => exact closed (h.error hx)

/-- A capture that has been closed leaves no trace in the output, whether its text is kept or
lost. -/
theorem captured_leaves {x : Rendering Unit} (h : Leaves Context.Extended x) :
    Leaves Context.Extended (captured x) := by
  refine leaves_captured h fun hafter =>
    ⟨?_, hafter.declaration, hafter.required, hafter.written, hafter.text⟩
  rw [Writer.closeCapture_of_extended hafter.writer]
  exact Writer.extended_setIndentation _ _

mutual

/-- However a step of a script ends, indentation and declaration are as they were. -/
theorem Step.run_leaves (step : Step) : Leaves Context.Kept step.run := by
  match step with
  | .enter kind extent => exact enter_leaves kind extent
  | .refuse error => exact .throws error
  | .copyTrivia => exact .bind copyTrivia_leaves fun _ => .stays ()
  | .skipTrivia => exact skipTriviaUntil_leaves none
  | .skipBlanks => exact skipBlanks_leaves
  | .skipLineRest => exact .bind skipLineRest_leaves fun _ => .stays ()
  | .swap token replacement => exact swap_leaves token replacement
  | .emit text => exact write_leaves text
  | .operator token replacement balanced spaced =>
    exact swapOperator_leaves token replacement balanced spaced
  | .replace extent text => exact replaceExtent_leaves extent text
  | .require name => exact require_leaves name
  | .modifier target word extent => exact swapModifier_leaves target word extent
  | .within declaration steps => exact inDeclaration_leaves declaration (Step.runAll_leaves steps)
  | .revisit pos steps => exact revisit_leaves id pos (Step.runAll_leaves steps)
  | .times count steps => exact repeated_leaves (Step.runAll_leaves steps) count

theorem Step.runAll_leaves (steps : Script) : Leaves Context.Kept (Step.runAll steps) := by
  match steps with
  | [] => exact .stays ()
  | step :: steps => exact .bind (Step.run_leaves step) fun _ => Step.runAll_leaves steps

end

end Render

/-! ## Declarations of a file -/

open Config Render Output Source Text

theorem Leaves.extended {α : Type} {x : Rendering α} (h : Leaves Context.Kept x) :
    Leaves Context.Extended x :=
  h.mono Context.Kept.toExtended

namespace Tree

theorem inNode_leaves {R : Context → Context → Prop} [Std.Refl R] [Trans R R R]
    (hkept : ∀ {ctx after : Context}, ctx.Kept after → R ctx after) (target : Target) (kind : Kind)
    (extent : Extent) {body : Rendering Unit} (h : Leaves R body) :
    Leaves R (inNode target kind extent body) := by
  rw [inNode_eq]
  exact .ite (.bind ((enter_leaves kind extent).mono hkept) fun _ => h) (.throws _)

/-- A package may leave a greater indentation than it has found. -/
theorem PackageDecl.render_leaves (s : Settings) (p : PackageDecl) :
    Leaves Context.Extended (p.render s) := by
  refine inNode_leaves Context.Kept.toExtended _ _ _ (.ite ?_ (replaceExtent_leaves _ "").extended)
  refine .bind (swap_leaves "package" "namespace").extended fun _ => ?_
  refine .bind copyTrivia_leaves.extended fun _ => ?_
  refine .bind (Step.runAll_leaves (p.name.script s)).extended fun _ => ?_
  refine .bind (skipTriviaUntil_leaves none).extended fun _ => ?_
  refine .bind (swap_leaves ";" "").extended fun _ => ?_
  refine .bind (output_leaves (Writer.writeLine_leaves _)).extended fun _ => ?_
  refine .changes fun ctx => ⟨?_, rfl, List.prefix_rfl, List.prefix_rfl, rfl⟩
  exact Writer.extended_setIndentation _ _

theorem ImportDecl.skip_leaves (i : ImportDecl) : Leaves Context.Kept i.skip :=
  .bind (jumpTo_leaves _) fun _ => .bind skipLineRest_leaves fun _ => .stays ()

theorem ImportDecl.renderNew_leaves (i : ImportDecl) (key : String) {body : Rendering Unit}
    (h : Leaves Context.Kept body) : Leaves Context.Kept (i.renderNew key body) := by
  refine .bind (recordImport_leaves key) fun isNew => .ite ?_ i.skip_leaves
  have hend : Leaves Context.Kept importEnd := .bind copyTrivia_leaves fun _ => swap_leaves ";" ";"
  exact .bind (swap_leaves _ _) fun _ => .bind copyTrivia_leaves fun _ => .bind h fun _ => hend

theorem ImportDecl.render_leaves (s : Settings) (i : ImportDecl) :
    Leaves Context.Kept (i.render s) := by
  refine inNode_leaves id _ _ _ (.ite (.throws _) ?_)
  split
  · exact .throws _
  · refine .ite i.skip_leaves (.ite ?_ (.ite ?_ ?_))
    · exact i.renderNew_leaves _ (.bind (Step.runAll_leaves _) fun _ =>
        .bind (skipTriviaUntil_leaves none) fun _ => .bind (swap_leaves _ _) fun _ =>
        .bind (skipTriviaUntil_leaves none) fun _ => swap_leaves _ _)
    · exact i.renderNew_leaves _ (replaceExtent_leaves _ _)
    · exact i.renderNew_leaves _ (.bind (write_leaves _) fun _ => Step.runAll_leaves _)

theorem renderImports_leaves (s : Settings) (limit : Nat) (imports : List ImportDecl) :
    Leaves Context.Kept (renderImports s limit imports) := by
  induction imports with
  | nil => exact .stays ()
  | cons i rest ih =>
    exact .bind (copyTriviaUntil_leaves _) fun _ => .bind (i.render_leaves s) fun _ => ih

theorem addImports_leaves (target : Target) (names : List String) :
    Leaves Context.Kept (addImports target names) := by
  induction names with
  | nil => exact .stays false
  | cons name names ih =>
    refine .bind (recordImport_leaves name) fun isNew => .ite ?_ ih
    exact .bind (output_leaves Writer.ensureLineStart_leaves) fun _ =>
      .bind (write_leaves _) fun _ => .bind ih fun _ => .stays true

theorem renderAddedImports_leaves (s : Settings) : Leaves Context.Kept (renderAddedImports s) :=
  .looks fun _ => .bind (addImports_leaves _ _) fun _ => .looks fun _ =>
    .ite (output_leaves (Writer.writeLine_leaves "")) (.stays ())

theorem renderType_leaves (s : Settings) (type : TypeDecl) :
    Leaves Context.Kept (renderType s type) :=
  .bind (jumpTo_leaves _) fun _ => .bind (Step.runAll_leaves _) fun _ =>
    .bind copyTrivia_leaves fun _ => .stays ()

theorem returnToHead_leaves (package : Option PackageDecl) (limit : Nat) :
    Leaves Context.Kept (returnToHead package limit) := by
  cases package with
  | some p => exact .bind (jumpTo_leaves _) fun _ => .bind skipLineRest_leaves fun _ => .stays ()
  | none => exact .bind (jumpTo_leaves 0) fun _ => skipTriviaUntil_leaves _

theorem renderBody_leaves (s : Settings) (package : Option PackageDecl) (type : TypeDecl) :
    Leaves Context.Extended (renderBody s package type) := by
  cases package with
  | none => exact (renderType_leaves s type).extended
  | some p =>
    refine .ite (.looks fun ctx => ?_) (renderType_leaves s type).extended
    refine .bind (revisit_leaves Context.Kept.toExtended _ (p.render_leaves s)) fun _ => ?_
    refine .bind (renderType_leaves s type).extended fun _ => ?_
    refine .bind (.changes fun ctx => ⟨?_, rfl, List.prefix_rfl, List.prefix_rfl, rfl⟩) fun _ => ?_
    · exact Writer.extended_setIndentation _ _
    · exact .bind (output_leaves Writer.ensureLineStart_leaves).extended fun _ =>
        (output_leaves (Writer.writeLine_leaves _)).extended

/-! ## Units -/

/-- The rendering adds to the output at hand, and if it succeeds, the indentation is as it was. -/
def Restores {α : Type} (x : Rendering α) : Prop :=
  ∀ ctx, match x ctx with
    | .ok _ after => ctx.Kept after
    | .error _ after => ctx.Extended after

namespace Restores

variable {α β : Type} {x : Rendering α}

theorem of_leaves (h : Leaves Context.Kept x) : Restores x := by
  intro ctx
  cases hx : x ctx with
  | ok a after => exact h.ok hx
  | error e after => exact (h.error hx).toExtended

theorem of_extended (h : Leaves Context.Extended x)
    (hok : ∀ {ctx a after}, x ctx = .ok a after →
      after.writer.indentation = ctx.writer.indentation) : Restores x := by
  intro ctx
  cases hx : x ctx with
  | ok a after => exact ⟨h.ok hx, hok hx⟩
  | error e after => exact h.error hx

theorem ok {ctx after : Context} {a : α} (h : Restores x) (hx : x ctx = .ok a after) :
    ctx.Kept after := by
  have hs := h ctx
  rwa [hx] at hs

theorem leaves (h : Restores x) : Leaves Context.Extended x := by
  intro ctx
  have hs := h ctx
  cases hx : x ctx with
  | ok a after => exact (h.ok hx).toExtended
  | error e after => rwa [hx] at hs

theorem bind {f : α → Rendering β} (h : Restores x) (hf : ∀ a, Restores (f a)) :
    Restores (x >>= f) := by
  refine of_extended (.bind h.leaves fun a => (hf a).leaves) fun hx => ?_
  obtain ⟨a, mid, hx, hfa⟩ := bind_ok.1 hx
  exact ((hf a).ok hfa).indentation.trans (h.ok hx).indentation

theorem captured {x : Rendering Unit} (h : Restores x) : Restores (captured x) := by
  refine of_extended (captured_leaves h.leaves) fun hx => ?_
  obtain ⟨inside, hinside, -, rfl⟩ := captured_ok hx
  have hkept := h.ok hinside
  rw [Writer.closeCapture_of_extended hkept.writer]
  exact hkept.indentation

end Restores

/-- After the block of a package the indentation is that before the block. -/
theorem renderBody_restores (s : Settings) (package : Option PackageDecl) (type : TypeDecl) :
    Restores (renderBody s package type) := by
  refine .of_extended (renderBody_leaves s package type) fun {ctx _ after} h => ?_
  obtain hbare | ⟨p, rfl, hopens⟩ := bare_or_opens s.target package
  · rw [renderBody_bare hbare] at h
    exact ((renderType_leaves s type).ok h).indentation
  · obtain ⟨_, typed, -, -, hclose⟩ := renderBody_stages hopens h
    have hclosed := (Leaves.bind (output_leaves Writer.ensureLineStart_leaves) fun _ =>
      output_leaves (Writer.writeLine_leaves "\x7d")).ok hclose
    exact hclosed.indentation

theorem CompilationUnit.renderWith_restores (s : Settings) (u : CompilationUnit)
    (type : TypeDecl) : Restores (u.renderWith s type) := by
  refine .bind (.of_leaves (copyTriviaUntil_leaves _)) fun _ => ?_
  refine .bind (renderBody_restores s u.package type).captured fun body => .of_leaves ?_
  refine .bind (returnToHead_leaves _ _) fun _ => .bind (copyTriviaUntil_leaves _) fun _ => ?_
  refine .bind (renderImports_leaves s _ _) fun _ => .bind (renderAddedImports_leaves s) fun _ => ?_
  refine .bind (copyTriviaUntil_leaves _) fun _ => ?_
  refine .bind (output_leaves (Writer.writeRaw_leaves body)) fun _ => .changes fun ctx => ?_
  exact ⟨⟨.refl _, rfl, List.prefix_rfl, List.prefix_rfl, Cursor.text_pass _ _⟩, rfl⟩

theorem CompilationUnit.restores (s : Settings) (u : CompilationUnit) :
    Restores (u.render s) := by
  unfold CompilationUnit.render
  rw [inNode_eq]
  split
  · refine .bind (.of_leaves (enter_leaves _ _)) fun _ => ?_
    split
    · exact u.renderWith_restores s _
    · exact .of_leaves (.throws _)
    · exact .of_leaves (.throws _)
  · exact .of_leaves (.throws _)

/-- The trivia at the head of a source, up to the runs that start at the limit or after it. -/
def leadingTrivia (source : String) (limit : Nat) : String :=
  String.ofList (source.toList.take (Trivia.lead (some limit) source.toList).length)

theorem copyTriviaUntil_start {source : String} {limit : Nat} {copied : Bool} {mid : Context}
    (h : copyTriviaUntil (some limit) (.start source true) = .ok copied mid) :
    mid.writer.sink.received = leadingTrivia source limit := by
  obtain ⟨text, cursor, hskip, _, rfl⟩ := copyTriviaUntil_ok h
  have hout :=
    Writer.current_added_of_indentation_eq_zero (w := .new true "\n") rfl text.toList
  rw [String.ofList_toList] at hout
  simp only [Cursor.skipTrivia] at hskip
  split at hskip
  · cases hskip
  · cases hskip
    exact hout.trans String.empty_append

/-- When the body of a unit fails, nothing but the leading trivia has reached the sink. -/
theorem CompilationUnit.render_of_body_error (s : Settings) (u : CompilationUnit)
    {type : TypeDecl} {source : String} {copied : Bool} {mid after : Context} {e : RenderError}
    (hform : s.target.supports .compilationUnit = true)
    (hreached : (Cursor.ofText source).hasReached u.extent.start = true) (htypes : u.types = [type])
    (hlead : copyTriviaUntil (some type.header.extent.start) (.start source true) =
      .ok copied mid)
    (hbody : renderBody s u.package type { mid with writer := mid.writer.openCapture } =
      .error e after) :
    renderUnit s source true u =
      ⟨some e, leadingTrivia source type.header.extent.start⟩ := by
  have hcaptured : captured (renderBody s u.package type) mid =
      .error e { after with writer := after.writer.closeCapture.2 } := by
    simp only [captured, hbody]
  have hrender : u.render s (.start source true) =
      .error e { after with writer := after.writer.closeCapture.2 } := by
    have henter : enter .compilationUnit u.extent (.start source true) =
        .ok () (.start source true) := enter_of_hasReached hreached
    simp only [CompilationUnit.render, inNode_eq, hform, if_true, htypes,
      CompilationUnit.renderWith, Bind.bind, EStateM.bind, henter, hlead, hcaptured]
  have hclose := Writer.closeCapture_of_extended ((renderBody_leaves s _ _).error hbody).writer
  rw [← copyTriviaUntil_start hlead]
  simp only [renderUnit, runFrom, Node.render, hrender, hclose]
  rfl

/-! ## Nodes -/

theorem Node.render_leaves (s : Settings) (node : Node) :
    Leaves Context.Extended (node.render s) ∧
      (node.kind ≠ .packageDeclaration → Restores (node.render s)) := by
  cases node with
  | unit u => exact ⟨(u.restores s).leaves, fun _ => u.restores s⟩
  | package p => exact ⟨p.render_leaves s, fun h => absurd rfl h⟩
  | imported i => exact ⟨(i.render_leaves s).extended, fun _ => .of_leaves (i.render_leaves s)⟩
  | member | parameter | fragment | modifier | type | name | expr | stmt =>
    exact ⟨(Step.runAll_leaves _).extended, fun _ => .of_leaves (Step.runAll_leaves _)⟩

/-- However the rendering of a node ends, in any state, it has only added to the output at hand and
to the lists of imports. Only a package may leave another indentation when it succeeds, and a node
that is rendered from its own place leaves the cursor where it was. If the package or the type of a
unit fails, the sink has received the leading trivia and nothing else. -/
theorem Node.render_restores (s : Settings) :
    (∀ (node : Node) (ctx : Context),
      match node.render s ctx with
      | .ok _ after =>
        ctx.Extended after ∧ (node.kind ≠ .packageDeclaration →
          after.writer.indentation = ctx.writer.indentation)
      | .error _ after => ctx.Extended after) ∧
    (∀ (node : Node) (ctx after : Context),
      revisit node.extent.start (node.render s) ctx = .ok () after →
        after.cursor = ctx.cursor) ∧
    (∀ (u : CompilationUnit) (type : TypeDecl) (source : String) (copied : Bool)
      (mid after : Context) (e : RenderError),
      s.target.supports .compilationUnit = true →
      (Cursor.ofText source).hasReached u.extent.start = true → u.types = [type] →
      copyTriviaUntil (some type.header.extent.start) (.start source true) = .ok copied mid →
      renderBody s u.package type { mid with writer := mid.writer.openCapture } =
        .error e after →
      renderUnit s source true u =
        ⟨some e, leadingTrivia source type.header.extent.start⟩) := by
  refine ⟨fun node ctx => ?_, fun node ctx after h => ?_, ?_⟩
  · obtain ⟨hextended, hrestores⟩ := node.render_leaves s
    cases hrun : node.render s ctx with
    | ok _ after =>
      exact ⟨hextended.ok hrun, fun hkind => ((hrestores hkind).ok hrun).indentation⟩
    | error e after => exact hextended.error hrun
  · obtain ⟨start, mid, _, _, hrun, hback⟩ := revisit_ok h
    rw [hback ((node.render_leaves s).1.ok hrun).text]
    rfl
  · intro u type source copied mid after e hform hreached htypes hlead hbody
    exact u.render_of_body_error s hform hreached htypes hlead hbody

/-- An enumeration is refused after the comment before it has been written. -/
theorem Node.render_restores_enum :
    renderUnit (.ofTarget .csharp) "// a\nenum E { }" true
      ⟨⟨0, 15⟩, none, [], [⟨⟨⟨5, 15⟩, .enum, [], ⟨⟨10, 11⟩, "E"⟩, [], none, []⟩, []⟩]⟩ =
      ⟨some (.unsupported .noForm .csharp .enumDeclaration ⟨5, 10⟩), "// a\n"⟩ := by
  have hlead : Trivia.lead (some 5) "// a\nenum E { }".toList = ⟨5, false⟩ := by decide +kernel
  have hskip : Cursor.skipTrivia (some 5) (.ofText "// a\nenum E { }") =
      .ok "// a\n" ((Cursor.ofText "// a\nenum E { }").pass 5) := by
    simp only [Cursor.skipTrivia, Cursor.ofText, Option.map_some, Nat.sub_zero, hlead]
    rfl
  have hworks : (Context.start "// a\nenum E { }" true).writer.Works := .inr rfl
  obtain ⟨copied, hcopy⟩ := copyTriviaUntil_eq hworks hskip
  have hrun := (Node.render_restores (.ofTarget .csharp)).2.2
    ⟨⟨0, 15⟩, none, [], [⟨⟨⟨5, 15⟩, .enum, [], ⟨⟨10, 11⟩, "E"⟩, [], none, []⟩, []⟩]⟩
    _ _ _ _ _ _ rfl rfl rfl hcopy rfl
  rw [hrun]
  decide +kernel

end Tree

end Lockstep
