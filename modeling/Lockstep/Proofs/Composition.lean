import Lockstep.Proofs.DeclWalk
import Lockstep.Proofs.RunningUnits

/-!
# What renderings are made of

Every rendering is put together from steps of the cursor, writes, looks at the state and notes in
it, by sequences and by the scopes of captures and declarations. `Made` says so once for all, so
that a property of every rendering is an induction over how it is made, and no rendering has to be
taken apart for it again. What only files do, which is to hold text back, to end lines and to change
the indentation, is set apart: a script does none of it.

- `Step.Sound`: what a script refuses, it refuses for the sake of the tree.
- `Made`: how renderings are put together.
- `Walks.stays_in_step`: a script that goes through has passed what it walks.
- `Node.render_made`: nodes are rendered so.
-/

namespace Lockstep

open Config Output Render Source Target Text Lockstep.Tree

/-- The state in which a run ends. -/
def ending {ε σ α : Type} : EStateM.Result ε σ α → σ
  | .ok _ after | .error _ after => after

/-- What a run results in, whatever the state is in which it ends. -/
def resultOf {ε σ α : Type} : EStateM.Result ε σ α → Except ε α
  | .ok a _ => .ok a
  | .error e _ => .error e

namespace Render

/-! ## Refusals of scripts -/

mutual

/-- The step stops for the sake of the tree only. -/
def Step.Sound : Step → Prop
  | .refuse e => e.IsRefusal
  | .within _ steps | .revisit _ steps | .times _ steps => Step.AllSound steps
  | _ => True

/-- The steps of a script stop for the sake of the tree only. -/
def Step.AllSound : List Step → Prop
  | [] => True
  | step :: steps => step.Sound ∧ Step.AllSound steps

end

section

variable {xs ys : Script} {target : Target} {kind : Kind} {extent : Extent}

theorem Step.AllSound.append (h : Step.AllSound xs) (h' : Step.AllSound ys) :
    Step.AllSound (xs ++ ys) := by
  induction xs with
  | nil => exact h'
  | cons x xs ih => exact ⟨h.1, ih h.2⟩

theorem allSound_refuse {refusal : Refusal} :
    Step.AllSound (Script.refuse target refusal kind extent) := ⟨trivial, trivial⟩

theorem Step.AllSound.node (h : Step.AllSound xs) :
    Step.AllSound (Script.node target kind extent xs) := by
  unfold Script.node
  split
  · exact ⟨trivial, h⟩
  · exact allSound_refuse

/-- A script that walks layouts stops for the sake of the tree only. -/
theorem Walks.allSound (known : List Layout) {fs : List Layout} {a b : Stance}
    (h : Walks True known a xs fs b) : Step.AllSound xs := by
  induction h with
  | nil => exact trivial
  | append _ _ ih₁ ih₂ => exact ih₁.append ih₂
  | refuse he | halt he => exact ⟨he, trivial⟩
  | enter _ _ ih => exact ⟨trivial, ih⟩
  | parts _ _ ih | loosen _ ih => exact ih
  | within _ ih | times _ ih | revisit _ _ _ ih => exact ⟨ih, trivial⟩
  | swap | operator | modifier | replace | emit | require | copyTrivia | skipTrivia | skipBlanks
  | skipLineRest => exact ⟨trivial, trivial⟩

end

end Render

namespace Tree

variable (s : Settings)

theorem Fragment.allSound (f : Fragment) : Step.AllSound (f.script s) :=
  .node (Walks.allSound [] (f.walks s))

theorem FieldDecl.allSound (f : FieldDecl) : Step.AllSound (f.script s) :=
  (Walks.allSound _ (f.walks (a := .loose) s (List.mem_singleton_self f.type.layout))).node

theorem refuseTypeParameters_allSound (target : Target) (parameters : List Extent) :
    Step.AllSound (refuseTypeParameters target parameters) := by
  cases parameters with
  | nil => exact trivial
  | cons => exact allSound_refuse

theorem MethodDecl.allSound (m : MethodDecl) : Step.AllSound (m.script s) := by
  have hdimensions : Step.AllSound (if m.extraDimensions != 0 then
      Script.refuse s.target .extraDimensions .methodDeclaration m.extent else []) := by
    split
    · exact allSound_refuse
    · exact trivial
  have hmodifiers :=
    Walks.allSound [] (modifiersScript_walks (a := .ready) s .method m.modifiers)
  have harguments :=
    Walks.allSound [] (walks_sequence.arguments fun p (_ : p ∈ m.parameters) => p.walks s)
  have hresult := Walks.allSound (m.returnType.toList.map TypeRef.layout)
    (m.result_walks s fun t ht => List.mem_map_of_mem (Option.mem_toList.2 ht))
  have hcopy : Step.AllSound [.copyTrivia] := ⟨trivial, trivial⟩
  have hname := Walks.allSound [] (m.name_walks s)
  have hthrown := Walks.allSound [] (thrownScript_walks s.target m.thrown)
  have hbody := Walks.allSound [] (m.body_walks s)
  have hparameters := refuseTypeParameters_allSound s.target m.typeParameters
  have hhead := ((hparameters.append hdimensions).append hcopy).append hmodifiers
  have hlist := ((hhead.append hname).append hcopy).append harguments
  exact (((hlist.append hthrown).append hresult).append hbody).node

/-- A type up to its members; of those that are rendered the form is plain. -/
theorem TypeHeader.allSound (h : TypeHeader) (hform : h.form.isPlain = true) :
    Step.AllSound (h.script s) := by
  cases hparameters : h.typeParameters with
  | nil => exact Walks.allSound [] (h.walks (a := .loose) s hparameters hform)
  | cons first rest =>
    let bare : TypeHeader := { h with typeParameters := [] }
    have hbare := Walks.allSound [] (bare.walks (a := .loose) s rfl hform)
    have hscript : h.script s =
        refuseTypeParameters s.target (first :: rest) ++ bare.script s := by
      rw [TypeHeader.script, hparameters]
      simp only [TypeHeader.script, bare, refuseTypeParameters, List.nil_append, List.append_assoc]
      rfl
    rw [hscript]
    exact (refuseTypeParameters_allSound s.target _).append hbare

mutual

theorem Member.allSound (m : Member) : Step.AllSound (m.script s) := by
  match m with
  | .field f =>
    rw [Member.script]
    exact f.allSound s
  | .method m =>
    rw [Member.script]
    exact m.allSound s
  | .setup extent =>
    rw [Member.script]
    exact allSound_refuse.node
  | .type h members =>
    rw [Member.script]
    split
    · next hform =>
      have hclose : Step.AllSound [.copyTrivia, Script.keep "\x7d"] := ⟨trivial, trivial, trivial⟩
      exact (((h.allSound s hform).append (Member.scripts_allSound members)).append hclose).node
    · exact allSound_refuse.node

theorem Member.scripts_allSound (members : List Member) :
    Step.AllSound (Member.scripts s members) := by
  match members with
  | [] => exact trivial
  | m :: rest =>
    have hfirst : Step.AllSound (.copyTrivia :: m.script s) := ⟨trivial, m.allSound⟩
    exact hfirst.append (Member.scripts_allSound rest)

end

end Tree

/-! ## How renderings are put together -/

namespace Render

/-- The rendering is put together from these steps; `files` says whether it may also do what only
the rendering of a file does. -/
inductive Made (files : Prop) : {α : Type} → Rendering α → Prop where
  | stays (a : α) : Made files (pure a : Rendering α)
  | throws : e ≠ .output → Made files (throw e : Rendering α)
  | bind {x : Rendering α} {f : α → Rendering β} :
      Made files x → (∀ a, Made files (f a)) → Made files (x >>= f)
  | walks (x : Cursor.Walk α) : Made files (walk x)
  | writes (text : String) : Made files (write text)
  /-- A look at anything but the writer. -/
  | looks {f : Context → Rendering α} : (∀ ctx w, f { ctx with writer := w } = f ctx) →
      (∀ ctx, Made files (f ctx)) → Made files (get >>= f)
  /-- A change of anything but the writer. -/
  | notes {g : Context → Context} : (∀ ctx w, g { ctx with writer := w } =
      { g ctx with writer := w }) → Made files (modify g)
  | within {x : Rendering α} (declaration : Declaration) :
      Made files x → Made files (inDeclaration declaration x)
  | captures {x : Rendering Unit} : files → Made files x → Made files (captured x)
  | startsLine : files → Made files (output Writer.ensureLineStart)
  | writesLine (text : String) : files → Made files (output (Writer.writeLine text))
  | putsBack (text : String) : files → Made files (output (Writer.writeRaw text))
  | looksAtIndentation {f : Context → Rendering α} : files →
      (∀ ctx w, w.indentation = ctx.writer.indentation → f { ctx with writer := w } = f ctx) →
      (∀ ctx, Made files (f ctx)) → Made files (get >>= f)
  | indents (g : Nat → Nat) : files → Made files (modify fun ctx =>
      { ctx with writer := ctx.writer.setIndentation (g ctx.writer.indentation) })

/-- A note is not about the writer. -/
theorem writer_of_notes {g : Context → Context}
    (h : ∀ ctx w, g { ctx with writer := w } = { g ctx with writer := w }) (ctx : Context) :
    (g ctx).writer = ctx.writer := by
  have hwriter := congrArg Context.writer (h ctx ctx.writer)
  exact hwriter

namespace Made

variable {files : Prop} {α : Type} {x y : Rendering α}

theorem ite {c : Prop} [Decidable c] (h : Made files x) (h' : Made files y) :
    Made files (if c then x else y) := by
  split
  · exact h
  · exact h'

/-! ## Steps -/

theorem jumpTo (pos : Nat) : Made files (jumpTo pos) := .walks _

theorem copyTriviaUntil (limit : Option Nat) : Made files (copyTriviaUntil limit) :=
  .bind (.walks _) fun text => .ite (.stays false) (.bind (.writes text) fun _ => .stays true)

theorem copyTrivia : Made files copyTrivia := copyTriviaUntil none

theorem skipTriviaUntil (limit : Option Nat) : Made files (skipTriviaUntil limit) :=
  .bind (.walks _) fun _ => .stays ()

theorem skipBlanks : Made files skipBlanks := .bind (.walks _) fun _ => .stays ()

theorem skipLineRest : Made files skipLineRest := .walks _

theorem swap (token replacement : String) : Made files (swap token replacement) :=
  .bind (.walks _) fun _ => .writes replacement

theorem replaceExtent (extent : Extent) (text : String) : Made files (replaceExtent extent text) :=
  .looks (fun _ _ => rfl) fun _ => .bind (jumpTo _) fun _ => swap _ text

theorem swapOperator (token replacement : String) (balanced spaced : Bool) :
    Made files (swapOperator token replacement balanced spaced) := by
  refine .bind copyTrivia fun before => .looks (fun _ _ => rfl) fun ctx => ?_
  have hrest : Made files (do
      Render.swap token replacement
      let after ← Render.copyTrivia
      if balanced && !after && (spaced || before) then write " ") :=
    .bind (swap token replacement) fun _ => .bind copyTrivia fun _ => .ite (.writes " ") (.stays ())
  exact .ite (.bind (.writes " ") fun _ => hrest) hrest

theorem enter (kind : Kind) (extent : Extent) : Made files (enter kind extent) :=
  .looks (fun _ _ => rfl) fun _ => .ite (.stays ()) (.throws nofun)

theorem require (name : String) : Made files (require name) := .notes fun _ _ => rfl

theorem recordImport (name : String) : Made files (recordImport name) :=
  .looks (fun _ _ => rfl) fun _ => .bind (.notes fun _ _ => rfl) fun _ => .stays _

theorem swapModifier (target : Target) (word : ModifierWord) (extent : Extent) :
    Made files (swapModifier target word extent) := by
  refine .looks (fun _ _ => rfl) fun ctx => ?_
  cases ctx.declaration with
  | none => exact .throws nofun
  | some declaration =>
    dsimp only
    cases modifierRule target word declaration with
    | keep | replace => exact swap _ _
    | drop => exact .bind (swap _ "") fun _ => skipBlanks
    | unsupported => exact .throws nofun

theorem revisit {x : Rendering Unit} (pos : Nat) (h : Made files x) : Made files (revisit pos x) :=
  .looks (fun _ _ => rfl) fun _ => .bind (jumpTo pos) fun _ => .bind h fun _ => jumpTo _

theorem repeated {x : Rendering Unit} (h : Made files x) (n : Nat) :
    Made files (repeated x n) := by
  induction n with
  | zero => exact .stays ()
  | succ n ih => exact .bind h fun _ => ih

end Made

variable {files : Prop}

theorem RenderError.IsRefusal.ne_output {e : RenderError} (h : e.IsRefusal) : e ≠ .output := by
  rintro rfl
  exact h

mutual

theorem Step.run_made (step : Step) (h : step.Sound) : Made files step.run := by
  match step with
  | .enter kind extent => exact .enter kind extent
  | .refuse error => exact .throws h.ne_output
  | .copyTrivia => exact .bind .copyTrivia fun _ => .stays ()
  | .skipTrivia => exact .skipTriviaUntil none
  | .skipBlanks => exact .skipBlanks
  | .skipLineRest => exact .bind .skipLineRest fun _ => .stays ()
  | .swap token replacement => exact .swap token replacement
  | .emit text => exact .writes text
  | .operator token replacement balanced spaced =>
    exact .swapOperator token replacement balanced spaced
  | .replace extent text => exact .replaceExtent extent text
  | .require name => exact .require name
  | .modifier target word extent => exact .swapModifier target word extent
  | .within declaration steps => exact .within declaration (Step.runAll_made steps h)
  | .revisit pos steps => exact .revisit pos (Step.runAll_made steps h)
  | .times count steps => exact .repeated (Step.runAll_made steps h) count

/-- A script does not do what only files do. -/
theorem Step.runAll_made (steps : Script) (h : Step.AllSound steps) :
    Made files (Step.runAll steps) := by
  match steps with
  | [] => exact .stays ()
  | step :: steps =>
    exact .bind (Step.run_made step h.1) fun _ => Step.runAll_made steps h.2

end

/-! ## Scripts that go through -/

section

variable {α : Type} {ctx after : Context}

/-- A rendering that goes through does so with every writer that takes what is written. -/
theorem Made.goes_through {x : Rendering α} {a : α} {w : Writer} (h : Made False x)
    (hx : x ctx = .ok a after) (hw : w.Works) :
    ∃ w' : Writer, w'.Works ∧ x { ctx with writer := w } = .ok a { after with writer := w' } := by
  induction h generalizing ctx after w with
  | stays =>
    cases hx
    exact ⟨w, hw, rfl⟩
  | throws => cases hx
  | bind _ _ ih ih' =>
    obtain ⟨b, mid, hfirst, hrest⟩ := bind_ok.1 hx
    obtain ⟨w₁, hw₁, hfirst⟩ := ih hfirst hw
    obtain ⟨w₂, hw₂, hrest⟩ := ih' b hrest hw₁
    exact ⟨w₂, hw₂, bind_ok.2 ⟨b, _, hfirst, hrest⟩⟩
  | walks x =>
    obtain ⟨cursor, hwalk, rfl⟩ := walk_ok hx
    refine ⟨w, hw, ?_⟩
    rw [Context.moved_nil]
    simp only [walk, hwalk]
  | writes text =>
    rw [write_ok hx]
    exact ⟨w.added text.toList, hw.added _, @write_eq { ctx with writer := w } hw text⟩
  | @looks _ f hf _ ih =>
    obtain ⟨w', hw', hrest⟩ := ih ctx hx hw
    refine ⟨w', hw', ?_⟩
    rw [← hrest, ← hf ctx w]
    rfl
  | notes hg =>
    cases hx
    exact ⟨w, hw, congrArg (EStateM.Result.ok PUnit.unit) (hg ctx w)⟩
  | within declaration _ ih =>
    obtain ⟨mid, hbody, rfl⟩ := inDeclaration_ok hx
    obtain ⟨w', hw', hbody⟩ := ih hbody hw
    refine ⟨w', hw', ?_⟩
    simp only [inDeclaration, hbody]
  | captures hfiles | startsLine hfiles | writesLine _ hfiles | putsBack _ hfiles
  | looksAtIndentation hfiles | indents _ hfiles => exact hfiles.elim

/-- A script that goes through has kept in step: what it walks lies behind the cursor, and what is
left lies ahead. -/
theorem Walks.stays_in_step {known fs rest : List Layout} {a b : Stance} {xs : Script} {e : Cursor}
    (h : Walks True known a xs fs b) (hrest : b ≠ .done → rest ≠ [])
    (hknown : ∀ f ∈ known, f.FaithfulTo e.text) (hat : a.At (fs ++ rest) ctx.cursor e)
    (hrun : Step.runAll xs ctx = .ok () after) : b.At rest after.cursor e := by
  let w : Writer := (Context.start "" true).writer
  have hw : w.Works := .inr rfl
  have hmade : Made False (Step.runAll xs) := Step.runAll_made xs (h.allSound known)
  obtain ⟨w', -, hagain⟩ := hmade.goes_through hrun hw
  have hends : Ends (Step.runAll xs) { ctx with writer := w } fun after =>
      after.writer.Works ∧ b.At rest after.cursor e := h.ends hrest hknown hw hat
  rw [Ends, hagain] at hends
  exact hends.2

end

end Render

/-! ## Files -/

namespace Tree

variable {files : Prop} (s : Settings)

theorem inNode_made (target : Target) (kind : Kind) (extent : Extent) {body : Rendering Unit}
    (h : Made files body) : Made files (inNode target kind extent body) := by
  rw [inNode_eq]
  exact .ite (.bind (.enter kind extent) fun _ => h) (.throws nofun)

theorem Name.script_made (n : Name) : Made files (runScript (n.script s)) :=
  Step.runAll_made _ (Walks.allSound [] (n.walks s))

theorem PackageDecl.render_made (hfiles : files) (p : PackageDecl) : Made files (p.render s) := by
  refine inNode_made _ _ _ (.ite ?_ (.replaceExtent _ ""))
  refine .bind (.swap "package" "namespace") fun _ => .bind .copyTrivia fun _ => ?_
  refine .bind (p.name.script_made s) fun _ => .bind (.skipTriviaUntil none) fun _ => ?_
  refine .bind (.swap ";" "") fun _ => .bind (.writesLine _ hfiles) fun _ => ?_
  exact .indents (· + s.indentWidth) hfiles

theorem ImportDecl.skip_made (i : ImportDecl) : Made files i.skip :=
  .bind (.jumpTo _) fun _ => .bind .skipLineRest fun _ => .stays ()

theorem ImportDecl.renderNew_made (i : ImportDecl) (key : String) {body : Rendering Unit}
    (h : Made files body) : Made files (i.renderNew key body) := by
  refine .bind (.recordImport key) fun isNew => .ite ?_ i.skip_made
  have hend : Made files importEnd := .bind .copyTrivia fun _ => .swap ";" ";"
  exact .bind (.swap _ _) fun _ => .bind .copyTrivia fun _ => .bind h fun _ => hend

theorem ImportDecl.render_made (i : ImportDecl) : Made files (i.render s) := by
  refine inNode_made _ _ _ (.ite (.throws nofun) ?_)
  split
  · exact .throws nofun
  · refine .ite i.skip_made (.ite ?_ (.ite ?_ ?_))
    · exact i.renderNew_made _ (.bind (i.name.script_made s) fun _ =>
        .bind (.skipTriviaUntil none) fun _ => .bind (.swap _ _) fun _ =>
        .bind (.skipTriviaUntil none) fun _ => .swap _ _)
    · exact i.renderNew_made _ (.replaceExtent _ _)
    · exact i.renderNew_made _ (.bind (.writes _) fun _ => i.name.script_made s)

theorem renderImports_made (limit : Nat) (imports : List ImportDecl) :
    Made files (renderImports s limit imports) := by
  induction imports with
  | nil => exact .stays ()
  | cons i rest ih =>
    exact .bind (.copyTriviaUntil _) fun _ => .bind (i.render_made s) fun _ => ih

theorem addImports_made (hfiles : files) (target : Target) (names : List String) :
    Made files (addImports target names) := by
  induction names with
  | nil => exact .stays false
  | cons name names ih =>
    refine .bind (.recordImport name) fun isNew => .ite ?_ ih
    exact .bind (.startsLine hfiles) fun _ => .bind (.writes _) fun _ => .bind ih fun _ =>
      .stays true

theorem renderAddedImports_made (hfiles : files) : Made files (renderAddedImports s) :=
  .looks (fun _ _ => rfl) fun _ => .bind (addImports_made hfiles _ _) fun _ =>
    .looks (fun _ _ => rfl) fun _ => .ite (.writesLine "" hfiles) (.stays ())

theorem renderType_made (type : TypeDecl) : Made files (renderType s type) :=
  .bind (.jumpTo _) fun _ => .bind (Step.runAll_made _ (type.toMember.allSound s)) fun _ =>
    .bind .copyTrivia fun _ => .stays ()

theorem returnToHead_made (package : Option PackageDecl) (limit : Nat) :
    Made files (returnToHead package limit) := by
  cases package with
  | some p => exact .bind (.jumpTo _) fun _ => .bind .skipLineRest fun _ => .stays ()
  | none => exact .bind (.jumpTo 0) fun _ => .skipTriviaUntil _

theorem renderBody_made (hfiles : files) (package : Option PackageDecl) (type : TypeDecl) :
    Made files (renderBody s package type) := by
  cases package with
  | none => exact renderType_made s type
  | some p =>
    refine .ite (.looksAtIndentation hfiles (fun _ _ h => by dsimp only; rw [h]) fun ctx => ?_)
      (renderType_made s type)
    refine .bind (.revisit _ (p.render_made s hfiles)) fun _ => .bind (renderType_made s type)
      fun _ => ?_
    refine .bind (.indents (fun _ => ctx.writer.indentation) hfiles) fun _ => ?_
    exact .bind (.startsLine hfiles) fun _ => .writesLine _ hfiles

theorem CompilationUnit.renderWith_made (hfiles : files) (u : CompilationUnit) (type : TypeDecl) :
    Made files (u.renderWith s type) := by
  refine .bind (.copyTriviaUntil _) fun _ => ?_
  refine .bind (.captures hfiles (renderBody_made s hfiles _ _)) fun body => ?_
  refine .bind (returnToHead_made _ _) fun _ => .bind (.copyTriviaUntil _) fun _ => ?_
  refine .bind (renderImports_made s _ _) fun _ => .bind (renderAddedImports_made s hfiles)
    fun _ => ?_
  refine .bind (.copyTriviaUntil _) fun _ => .bind (.putsBack body hfiles) fun _ => ?_
  exact .notes fun _ _ => rfl

theorem CompilationUnit.render_made (hfiles : files) (u : CompilationUnit) :
    Made files (u.render s) := by
  refine inNode_made _ _ _ ?_
  split
  · exact u.renderWith_made s hfiles _
  · exact .throws nofun
  · exact .throws nofun

/-- Only units and packages do what files do. -/
theorem Node.render_made (node : Node)
    (hfiles : node.kind = .compilationUnit ∨ node.kind = .packageDeclaration → files) :
    Made files (node.render s) := by
  cases node with
  | unit u => exact u.render_made s (hfiles (.inl rfl))
  | package p => exact p.render_made s (hfiles (.inr rfl))
  | imported i => exact i.render_made s
  | member m => exact Step.runAll_made _ (m.allSound s)
  | parameter p => exact Step.runAll_made _ (Walks.allSound [] (p.walks s))
  | fragment f => exact Step.runAll_made _ (f.allSound s)
  | modifier m => exact Step.runAll_made _ (Walks.allSound [] (m.walks s))
  | type t => exact Step.runAll_made _ (Walks.allSound [] (t.walks s (.inl trivial)))
  | name n => exact n.script_made s
  | expr e => exact Step.runAll_made _ (Walks.allSound [] (e.walks s (.inl trivial)))
  | stmt t => exact Step.runAll_made _ (Walks.allSound [] (t.walks s))

end Tree

end Lockstep
