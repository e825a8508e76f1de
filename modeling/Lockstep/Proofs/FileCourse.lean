import Lockstep.Proofs.InPlace
import Lockstep.Proofs.Reassembly
import Lockstep.Proofs.RequiredNamespaces

/-!
# How a file comes about

A file is rendered in an order of its own: what is written for the body is held back, the imports
are written at the head, and the body is put behind them. Here the order is read off once, from a
rendering that succeeds; what the script of the type and the imports write is left open.

- `Spelled`: a text of tokens, with white space and comments around them.
- `Step.runAll_notes`: a script notes the namespaces that it requires, and no import.
- `renderBody_ok`: the script of the type, by itself or in the block of a package.
- `ImportDecl.render_course`: what becomes of an import.
- `CompilationUnit.renderWith_ok`: the places that the rendering of a file goes through.
-/

namespace Lockstep

open Config Output Render Source Target Text

namespace Tree

/-! ## Tokens and what is around them -/

/-- The tokens in their order, with white space and comments around them. -/
inductive Spelled : List String → List Char → Prop where
  | nil : Spelled [] []
  | trivia : Trivia.Runs gap rest → Spelled tokens text → Spelled tokens (gap ++ text)
  | token (token : String) : Spelled tokens text →
      Spelled (token :: tokens) (token.toList ++ text)

namespace Spelled

variable {tokens tokens' : List String} {text text' gap rest : List Char}

theorem single (token : String) : Spelled [token] token.toList := by
  have htoken : Spelled [token] (token.toList ++ []) := .token token .nil
  rwa [List.append_nil] at htoken

theorem append (h : Spelled tokens text) (h' : Spelled tokens' text') :
    Spelled (tokens ++ tokens') (text ++ text') := by
  induction h with
  | nil => exact h'
  | trivia hgap _ ih =>
    rw [List.append_assoc]
    exact .trivia hgap ih
  | token token _ ih =>
    rw [List.append_assoc]
    exact .token token ih

/-- What edits write, with the trivia between them. -/
theorem ofEdits {edits : List Edit}
    (hruns : ∀ text, .trivia text ∈ edits → ∃ rest, Trivia.Runs text rest) :
    Spelled ((edits.filter (!·.isTrivia)).map fun edit => String.ofList edit.output)
      (edits.flatMap Edit.output) := by
  induction edits with
  | nil => exact .nil
  | cons edit edits ih =>
    have hrest := ih fun text h => hruns text (List.mem_cons_of_mem edit h)
    cases hedit : edit.isTrivia with
    | true =>
      rw [List.filter_cons_of_neg (by simp [hedit]), List.flatMap_cons]
      cases edit with
      | trivia text =>
        obtain ⟨rest, hgap⟩ := hruns text List.mem_cons_self
        exact .trivia hgap hrest
      | _ => cases hedit
    | false =>
      rw [List.filter_cons_of_pos (by simp [hedit]), List.map_cons, List.flatMap_cons]
      have htoken := Spelled.token (String.ofList edit.output) hrest
      rwa [String.toList_ofList] at htoken

end Spelled

/-- The tokens of a name, as C# spells them. -/
def Name.tokens : Name → List String
  | .simple n => [Target.csharp.escaped n.identifier]
  | .qualified _ qualifier n _ => qualifier.tokens ++ [".", Target.csharp.escaped n.identifier]

/-- A rendering that succeeds writes the tokens, with trivia around them. -/
def Spells (x : Rendering Unit) (tokens : List String) : Prop :=
  ∀ {ctx after : Context}, x ctx = .ok () after →
    ∃ cursor text, Spelled tokens text ∧ after = ctx.moved cursor text

variable {s : Settings} {ctx mid after : Context}

theorem Name.edits_tokens (n : Name) :
    (n.edits.map fun edit => String.ofList edit.output) = n.tokens := by
  induction n with
  | simple n => simp [Name.edits, SimpleName.edits, Name.tokens, Edit.output]
  | qualified extent qualifier n binding ih =>
    rw [Name.edits, List.map_append, ih]
    simp [SimpleName.edits, Name.tokens, Edit.output]

/-- A name is spelled as one of C#. -/
theorem Name.script_spells (ht : s.target = .csharp) (n : Name) :
    Spells (runScript (n.script s)) n.tokens := by
  intro ctx after h
  have hplace : InPlace True (n.script s) n.edits := n.inPlace ht
  obtain ⟨edits, hedits, hedited⟩ := hplace.edited h
  obtain ⟨cursor, text, rfl⟩ := n.script_moves h
  have hspelled := Spelled.ofEdits hedited.runs
  rw [hedits, n.edits_tokens] at hspelled
  refine ⟨cursor, _, hspelled, ?_⟩
  rw [Context.moved, Context.moved, ← hedited.writer_eq]
  rfl

end Tree

namespace Render

open Lockstep.Tree

/-! ## What a script notes -/

mutual

/-- The namespaces that a step requires, in the order in which it comes upon them. -/
def Step.requirements : Step → List String
  | .require name => [name]
  | .within _ steps | .revisit _ steps => Step.allRequirements steps
  | .times count steps => (List.replicate count (Step.allRequirements steps)).flatten
  | _ => []

/-- The namespaces that steps require, one after another. -/
def Step.allRequirements : Script → List String
  | [] => []
  | step :: steps => step.requirements ++ Step.allRequirements steps

end

mutual

/-- A step notes no import, and each namespace that it requires. -/
theorem Step.run_notes (step : Step) {ctx after : Context} (h : step.run ctx = .ok () after) :
    after.written = ctx.written ∧
      after.required = notedAfter id ctx.required step.requirements := by
  match step with
  | .enter kind extent =>
    rw [enter_ok h]
    exact ⟨rfl, rfl⟩
  | .refuse error => cases h
  | .copyTrivia =>
    obtain ⟨_, _, -, -, -, rfl⟩ := Step.run_copyTrivia_ok h
    exact ⟨rfl, rfl⟩
  | .skipTrivia =>
    obtain ⟨_, _, -, -, -, rfl⟩ := skipTriviaUntil_ok h
    exact ⟨rfl, rfl⟩
  | .skipBlanks =>
    obtain ⟨_, _, -, -, rfl⟩ := skipBlanks_ok h
    exact ⟨rfl, rfl⟩
  | .skipLineRest =>
    obtain ⟨_, _, -, -, rfl⟩ := Step.run_skipLineRest_ok h
    exact ⟨rfl, rfl⟩
  | .swap token replacement =>
    obtain ⟨_, -, rfl⟩ := swap_ok h
    exact ⟨rfl, rfl⟩
  | .emit text =>
    rw [write_ok h]
    exact ⟨rfl, rfl⟩
  | .operator token replacement balanced spaced =>
    obtain ⟨_, _, rfl⟩ := swapOperator_ok h
    exact ⟨rfl, rfl⟩
  | .replace extent text =>
    obtain ⟨_, rfl⟩ := replaceExtent_ok h
    exact ⟨rfl, rfl⟩
  | .require name =>
    rw [require_ok h]
    exact ⟨rfl, rfl⟩
  | .modifier target word extent =>
    obtain ⟨_, _, _, _, -, -, -, rfl⟩ := swapModifier_ok h
    exact ⟨rfl, rfl⟩
  | .within declaration steps =>
    obtain ⟨mid, hsteps, rfl⟩ := inDeclaration_ok h
    have hmid := Step.runAll_notes steps hsteps
    exact hmid
  | .revisit pos steps =>
    obtain ⟨start, mid, -, -, hsteps, hback⟩ := revisit_ok h
    rw [hback ((Step.runAll_leaves steps).ok hsteps).text]
    have hmid := Step.runAll_notes steps hsteps
    exact hmid
  | .times count steps =>
    replace h : repeated (Step.runAll steps) count ctx = .ok () after := h
    rw [Step.requirements]
    induction count generalizing ctx with
    | zero =>
      rw [repeated_zero_ok.1 h]
      exact ⟨rfl, rfl⟩
    | succ n ih =>
      obtain ⟨mid, hfirst, hrest⟩ := repeated_succ_ok.1 h
      obtain ⟨hwritten, hrequired⟩ := Step.runAll_notes steps hfirst
      obtain ⟨hwrittenRest, hrequiredRest⟩ := ih hrest
      refine ⟨hwrittenRest.trans hwritten, ?_⟩
      rw [List.replicate_succ, List.flatten_cons, notedAfter_append, hrequiredRest, hrequired]

/-- A script notes no import, and each namespace that it requires, one after another. -/
theorem Step.runAll_notes (steps : Script) {ctx after : Context}
    (h : Step.runAll steps ctx = .ok () after) : after.written = ctx.written ∧
      after.required = notedAfter id ctx.required (Step.allRequirements steps) := by
  match steps with
  | [] =>
    rw [runAll_nil_ok.1 h]
    exact ⟨rfl, rfl⟩
  | step :: steps =>
    obtain ⟨mid, hstep, hsteps⟩ := runAll_cons_ok.1 h
    obtain ⟨hwritten, hrequired⟩ := Step.run_notes step hstep
    obtain ⟨hwrittenRest, hrequiredRest⟩ := Step.runAll_notes steps hsteps
    refine ⟨hwrittenRest.trans hwritten, ?_⟩
    rw [Step.allRequirements, notedAfter_append, hrequiredRest, hrequired]

end

end Render

namespace Tree

variable {s : Settings} {ctx mid after : Context}

/-! ## The body -/

theorem copyTriviaUntil_spelled {limit : Option Nat} {b : Bool}
    (h : copyTriviaUntil limit ctx = .ok b after) :
    ∃ cursor text, Spelled [] text ∧ after = ctx.moved cursor text := by
  obtain ⟨text, cursor, hskip, -, rfl⟩ := copyTriviaUntil_ok h
  obtain ⟨-, hruns, -⟩ := skipTrivia_ok hskip
  have htext : Spelled [] (text.toList ++ []) := .trivia hruns .nil
  rw [List.append_nil] at htext
  exact ⟨cursor, _, htext, rfl⟩

theorem renderType_ok {type : TypeDecl} (h : renderType s type ctx = .ok () after) :
    ∃ place mid cursor gap, Step.runAll (type.script s) (ctx.moved place []) = .ok () mid ∧
      Spelled [] gap ∧ after = mid.moved cursor gap := by
  obtain ⟨place, mid, _, -, -, hrun, hcopy⟩ := renderType_stages h
  obtain ⟨cursor, gap, hgap, rfl⟩ := copyTriviaUntil_spelled hcopy
  exact ⟨place, mid, cursor, gap, hrun, hgap, rfl⟩

/-- A package opens a block with its name, and what follows is indented. -/
theorem PackageDecl.render_spelled (ht : s.target = .csharp) {p : PackageDecl}
    (hend : ctx.writer.lineEnd = "\n") (h : p.render s ctx = .ok () after) :
    ∃ cursor line, Spelled ("namespace" :: p.name.tokens) line ∧ after = { ctx with
      cursor
      writer := (ctx.writer.added (line ++ " \x7b\n".toList)).indentBy s.indentWidth } := by
  have hopens : opensNamespace s.target = true := by
    rw [ht]
    rfl
  obtain ⟨_, gap, _, _, cursor, hruns, hname, rfl⟩ := PackageDecl.render_ok hopens hend h
  obtain ⟨_, name, hspelled, rfl⟩ := p.name.script_spells ht hname
  have hline : Spelled ("namespace" :: p.name.tokens) ("namespace".toList ++ (gap ++ name)) :=
    .token _ (.trivia hruns hspelled)
  refine ⟨cursor, _, hline, ?_⟩
  rw [Context.moved_moved, Writer.added_append, List.append_assoc]
  rfl

/-- How a body comes about: the script of the type is run, by itself or in the block of a
package. -/
inductive BodyCourse (s : Settings) (package : Option PackageDecl) (type : TypeDecl)
    (ctx after : Context) : Prop where
  | bare {place cursor : Cursor} {mid : Context} {gap : List Char} :
      (package.isSome = true → opensNamespace s.target = false) →
      Step.runAll (type.script s) (ctx.moved place []) = .ok () mid → Spelled [] gap →
      after = mid.moved cursor gap → BodyCourse s package type ctx after
  | block {p : PackageDecl} {place : Cursor} {mid : Context} {line gap closing : List Char} :
      package = some p → opensNamespace s.target = true →
      Spelled ("namespace" :: p.name.tokens) line →
      Step.runAll (type.script s) { ctx with
        cursor := place
        writer := (ctx.writer.added (line ++ " \x7b\n".toList)).indentBy s.indentWidth } =
          .ok () mid →
      Spelled [] gap → closing ∈ ["\x7d\n".toList, "\n\x7d\n".toList] →
      after.writer =
        ((mid.writer.added gap).setIndentation ctx.writer.indentation).added closing →
      after.required = mid.required → after.written = mid.written →
      BodyCourse s package type ctx after

theorem renderBody_ok {package : Option PackageDecl} {type : TypeDecl}
    (hend : ctx.writer.lineEnd = "\n") (h : renderBody s package type ctx = .ok () after) :
    BodyCourse s package type ctx after := by
  obtain hbare | ⟨p, rfl, hopens⟩ := bare_or_opens s.target package
  · rw [renderBody_bare hbare] at h
    obtain ⟨_, mid, _, gap, hrun, hgap, hafter⟩ := renderType_ok h
    exact .bare hbare hrun hgap hafter
  · obtain ⟨_, _, hpackage, htype, hclose⟩ := renderBody_stages hopens h
    obtain ⟨_, opened, -, -, hrender, hback⟩ := revisit_ok hpackage
    obtain rfl := hback ((p.render_leaves s).ok hrender).text
    obtain ⟨_, line, hline, rfl⟩ := PackageDecl.render_spelled (eq_of_beq hopens)
      (by exact (Writer.lineEnd_added _).trans hend) hrender
    obtain ⟨place, mid, _, gap, hrun, hgap, rfl⟩ := renderType_ok htype
    have hendMid : (mid.writer.added gap).lineEnd = "\n" := by
      rw [Writer.lineEnd_added, ((Step.runAll_leaves _).ok hrun).writer.lineEnd]
      simp only [Context.moved, Writer.added_nil]
      exact (Writer.lineEnd_added _).trans hend
    obtain ⟨closing, hclosing, rfl⟩ := closeBlock_ok hclose hendMid
    simp only [Context.moved, Writer.added_nil] at hrun
    exact .block rfl hopens hline hrun hgap hclosing rfl rfl rfl

/-- The body notes no import, and each namespace that the script of the type requires. -/
theorem renderBody_notes {package : Option PackageDecl} {type : TypeDecl}
    (hend : ctx.writer.lineEnd = "\n") (h : renderBody s package type ctx = .ok () after) :
    after.written = ctx.written ∧
      after.required = notedAfter id ctx.required (Step.allRequirements (type.script s)) := by
  cases renderBody_ok hend h with
  | bare _ hrun _ hafter =>
    have hmid := Step.runAll_notes _ hrun
    rw [hafter]
    exact hmid
  | block _ _ _ hrun _ _ _ hrequired hwritten =>
    obtain ⟨hwrittenMid, hrequiredMid⟩ := Step.runAll_notes _ hrun
    exact ⟨hwritten.trans hwrittenMid, hrequired.trans hrequiredMid⟩

/-! ## Imports -/

/-- What is left out up to the end of a line only moves the cursor. -/
theorem jumpTo_skipLineRest_ok {pos : Nat}
    (h : (do jumpTo pos; let _ ← skipLineRest) ctx = .ok () after) :
    ∃ cursor, after = ctx.moved cursor [] := by
  obtain ⟨_, _, hjump, h⟩ := bind_ok.1 h
  obtain ⟨_, -, -, rfl⟩ := jumpTo_ok hjump
  obtain ⟨_, _, hline, h⟩ := bind_ok.1 h
  cases h
  obtain ⟨_, cursor, -, -, rfl⟩ := skipLineRest_ok hline
  exact ⟨cursor, Context.moved_moved ..⟩

theorem ImportDecl.skip_ok {i : ImportDecl} (h : i.skip ctx = .ok () after) :
    ∃ cursor, after = ctx.moved cursor [] :=
  jumpTo_skipLineRest_ok h

theorem spells_replace (extent : Extent) (text : String) :
    Spells (replaceExtent extent text) [text] := by
  intro ctx after h
  obtain ⟨cursor, rfl⟩ := replaceExtent_ok h
  exact ⟨cursor, _, .single text, rfl⟩

/-- Of the name of an import of all of a package, the full stop and the star are left out. -/
theorem ImportDecl.spells_all (ht : s.target = .csharp) (i : ImportDecl) :
    Spells (do
      runScript (i.name.script s)
      skipTriviaUntil none
      swap "." ""
      skipTriviaUntil none
      swap "*" "") i.name.tokens := by
  intro ctx after h
  obtain ⟨_, _, hname, h⟩ := bind_ok.1 h
  obtain ⟨_, text, htext, rfl⟩ := i.name.script_spells ht hname
  obtain ⟨_, _, htrivia, h⟩ := bind_ok.1 h
  obtain ⟨_, _, -, -, -, rfl⟩ := skipTriviaUntil_ok htrivia
  obtain ⟨_, _, hstop, h⟩ := bind_ok.1 h
  obtain ⟨_, -, rfl⟩ := swap_ok hstop
  obtain ⟨_, _, htrivia', hstar⟩ := bind_ok.1 h
  obtain ⟨_, _, -, -, -, rfl⟩ := skipTriviaUntil_ok htrivia'
  obtain ⟨cursor, -, rfl⟩ := swap_ok hstar
  refine ⟨cursor, text, htext, ?_⟩
  simp only [Context.moved_moved, String.toList_empty, List.append_nil]

/-- Before the name of a single type its last part is written. -/
theorem ImportDecl.spells_alias (ht : s.target = .csharp) (i : ImportDecl) :
    Spells (do
      write (i.name.last.identifier ++ " = ")
      runScript (i.name.script s)) (i.name.last.identifier :: "=" :: i.name.tokens) := by
  intro ctx after h
  obtain ⟨_, _, hwrite, hname⟩ := bind_ok.1 h
  obtain rfl := write_ok hwrite
  obtain ⟨cursor, text, htext, rfl⟩ := i.name.script_spells ht hname
  have hspace : Trivia.Runs " ".toList [] := .single rfl
  refine ⟨cursor, _, .token _ (.trivia hspace (.token "=" (.trivia hspace htext))), ?_⟩
  rw [Context.moved_moved, String.toList_append, List.append_assoc]
  rfl

/-- How an import comes about under a name: it is dropped if the name is known, and if not, the name
is noted and the tokens are written behind the first word. -/
inductive ImportDecl.NewCourse (key : String) (tokens : List String) (ctx after : Context) :
    Prop where
  | known {cursor : Cursor} : ctx.written.contains key = true →
      after = { ctx.moved cursor [] with written := addNew ctx.written key } →
      NewCourse key tokens ctx after
  | new {c cursor : Cursor} {gap rest text : List Char} : ctx.written.contains key = false →
      ctx.cursor.Passes "import".toList c → (gap = [] → Trivia.next c.ahead = .absent) →
      Trivia.Runs gap rest → Spelled (tokens ++ [";"]) text →
      after = { ctx.moved cursor ("using".toList ++ (gap ++ text)) with
        written := addNew ctx.written key } →
      NewCourse key tokens ctx after

theorem ImportDecl.renderNew_course {i : ImportDecl} {key : String} {tokens : List String}
    {body : Rendering Unit} (hbody : Spells body tokens)
    (h : i.renderNew key body ctx = .ok () after) :
    ImportDecl.NewCourse key tokens ctx after := by
  obtain ⟨isNew, mid, hrecord, h⟩ := bind_ok.1 h
  obtain ⟨rfl, hmid⟩ := recordImport_ok hrecord
  cases hwritten : ctx.written.contains key with
  | true =>
    rw [hwritten] at h
    obtain ⟨cursor, rfl⟩ := i.skip_ok h
    exact .known hwritten (by rw [hmid]; rfl)
  | false =>
    rw [hwritten] at h
    obtain ⟨_, _, hword, h⟩ := bind_ok.1 h
    obtain ⟨c, hpass, rfl⟩ := swap_ok hword
    obtain ⟨_, _, htrivia, h⟩ := bind_ok.1 h
    obtain ⟨gap, c', hpass', hruns, habsent, -, rfl⟩ := copyTrivia_ok htrivia
    obtain ⟨_, _, hname, h⟩ := bind_ok.1 h
    obtain ⟨_, text, htext, rfl⟩ := hbody hname
    obtain ⟨_, _, htrivia', hend⟩ := bind_ok.1 h
    obtain ⟨gap', _, -, hruns', -, -, rfl⟩ := copyTrivia_ok htrivia'
    obtain ⟨cursor, -, rfl⟩ := swap_ok hend
    rw [hmid] at hpass ⊢
    simp only [Context.moved_moved, List.append_assoc]
    refine .new hwritten hpass ?_ hruns (htext.append (.trivia hruns' (.single ";"))) rfl
    rintro rfl
    obtain rfl : c' = c := hpass'.right_unique (.refl c)
    exact habsent

/-- How an import comes about: it is dropped, or it becomes a directive of one of three kinds. -/
inductive ImportDecl.Course (s : Settings) (i : ImportDecl) (ctx after : Context) : Prop where
  | dropped {cursor : Cursor} : s.isMarked i.name.dotted = true → after = ctx.moved cursor [] →
      Course s i ctx after
  | all {extent : Extent} {qualifier : Name} {n : SimpleName} {binding : Option MemberBinding} :
      s.isMarked i.name.dotted = false → i.name = .qualified extent qualifier n binding →
      i.isOnDemand = true → ImportDecl.NewCourse i.name.dotted i.name.tokens ctx after →
      Course s i ctx after
  | generic {extent : Extent} {qualifier : Name} {n : SimpleName} {binding : Option MemberBinding} :
      s.isMarked i.name.dotted = false → i.name = .qualified extent qualifier n binding →
      i.isOnDemand = false → i.isGeneric = true →
      ImportDecl.NewCourse (s.genericNamespace qualifier.dotted)
        [s.genericNamespace qualifier.dotted] ctx after →
      Course s i ctx after
  | single {extent : Extent} {qualifier : Name} {n : SimpleName} {binding : Option MemberBinding} :
      s.isMarked i.name.dotted = false → i.name = .qualified extent qualifier n binding →
      i.isOnDemand = false → i.isGeneric = false →
      ImportDecl.NewCourse i.name.dotted (i.name.last.identifier :: "=" :: i.name.tokens)
        ctx after →
      Course s i ctx after

theorem ImportDecl.render_course (ht : s.target = .csharp) {i : ImportDecl}
    (h : i.render s ctx = .ok () after) :
    ctx.cursor.hasReached i.extent.start = true ∧ i.Course s ctx after := by
  obtain ⟨-, henter, h⟩ := inNode_ok h
  refine ⟨hasReached_of_enter henter, ?_⟩
  cases hstatic : i.isStatic with
  | true =>
    rw [hstatic] at h
    cases h
  | false =>
    simp only [hstatic, Bool.false_eq_true, if_false, ht] at h
    cases hname : i.name with
    | simple n =>
      rw [hname] at h
      cases h
    | qualified extent qualifier n binding =>
      simp only [hname, Bool.or_false, show (Target.csharp == .swift) = false from rfl] at h
      rw [← hname] at h
      split at h
      · next hmarked =>
        obtain ⟨cursor, hafter⟩ := i.skip_ok h
        exact .dropped hmarked hafter
      · next hmarked =>
        have hmarked := Bool.eq_false_iff.2 hmarked
        split at h
        · next hall =>
          exact .all hmarked hname hall (ImportDecl.renderNew_course (i.spells_all ht) h)
        · next hone =>
          have hone := Bool.eq_false_iff.2 hone
          split at h
          · next hgeneric =>
            exact .generic hmarked hname hone hgeneric
              (ImportDecl.renderNew_course (spells_replace _ _) h)
          · next hplain =>
            exact .single hmarked hname hone (Bool.eq_false_iff.2 hplain)
              (ImportDecl.renderNew_course (i.spells_alias ht) h)

/-! ## Units -/

theorem returnToHead_ok {package : Option PackageDecl} {limit : Nat}
    (h : returnToHead package limit ctx = .ok () after) :
    ∃ cursor, after = ctx.moved cursor [] := by
  cases package with
  | none =>
    obtain ⟨_, _, hjump, h⟩ := bind_ok.1 h
    obtain ⟨_, -, -, rfl⟩ := jumpTo_ok hjump
    obtain ⟨_, cursor, -, -, -, rfl⟩ := skipTriviaUntil_ok h
    exact ⟨cursor, Context.moved_moved ..⟩
  | some p => exact jumpTo_skipLineRest_ok h

/-- How a file comes about: what is written for the body is held back, the imports are written at the
head, and the body is put behind them. -/
structure CompilationUnit.Course (s : Settings) (u : CompilationUnit) (type : TypeDecl)
    (ctx after : Context) where
  /-- Where the body begins and ends. -/
  (start inside : Context)
  /-- Where the imports begin and end, and where those end that are added. -/
  (head imported last : Context)
  /-- The trivia before the imports and after them. -/
  (lead gap : List Char)
  start_writer : ∃ text, start.writer = (ctx.writer.added text).openCapture
  start_required : start.required = ctx.required
  body : renderBody s u.package type start = .ok () inside
  lead_trivia : Spelled [] lead
  head_writer : head.writer = ctx.writer.added lead
  head_written : head.written = ctx.written
  head_required : head.required = inside.required
  head_text : head.cursor.text = ctx.cursor.text
  imports : renderImports s type.header.extent.start u.imports head = .ok () imported
  added : renderAddedImports s imported = .ok () last
  gap_trivia : Spelled [] gap
  after_writer : after.writer = last.writer.added (gap ++ inside.writer.closeCapture.1.toList)
  after_required : after.required = last.required

theorem CompilationUnit.renderWith_ok {u : CompilationUnit} {type : TypeDecl}
    (hindent : ctx.writer.indentation = 0) (hend : ctx.writer.lineEnd = "\n")
    (h : u.renderWith s type ctx = .ok () after) : Nonempty (u.Course s type ctx after) := by
  obtain ⟨⟨_, _, _, found, _, last, _, _, _, _, _, writer, hfirst, hbody, hreturn, hrest, himports,
    hadded, hlast, hput, rfl⟩⟩ := u.renderWith_stages h
  obtain ⟨place, lead, hlead, rfl⟩ := copyTriviaUntil_spelled hfirst
  obtain ⟨inside, hinside, rfl, rfl⟩ := captured_ok hbody
  -- Where the body ends, the output is as it was before, and no import has been noted.
  have hextended := (renderBody_leaves s u.package type).ok hinside
  have hsame := ((renderBody_restores s u.package type).ok hinside).indentation
  have hwriter := (Writer.closeCapture_of_extended hextended.writer).trans <|
    show _ = ctx.writer.added lead by
      rw [hsame]
      rfl
  obtain ⟨hwritten, -⟩ :=
    renderBody_notes (by exact (Writer.lineEnd_added lead).trans hend) hinside
  obtain ⟨back, rfl⟩ := returnToHead_ok hreturn
  have htext : found.cursor.text = ctx.cursor.text := by
    have hcopied := ((copyTriviaUntil_leaves _).ok hrest).text
    have hreturned := ((returnToHead_leaves _ _).ok hreturn).text
    have hfirst := ((copyTriviaUntil_leaves _).ok hfirst).text
    exact hcopied.trans (hreturned.trans (hextended.text.trans hfirst))
  obtain ⟨cursor, rest, hrestTrivia, rfl⟩ := copyTriviaUntil_spelled hrest
  have hindentLast : last.writer.indentation = 0 := by
    rw [((renderAddedImports_leaves s).ok hadded).indentation,
      ((renderImports_leaves s _ _).ok himports).indentation]
    simp only [Context.moved, Writer.indentation_added, hwriter, hindent]
  obtain ⟨_, gap, hgap, rfl⟩ := copyTriviaUntil_spelled hlast
  refine ⟨{
    start := { ctx.moved place lead with writer := (ctx.writer.added lead).openCapture }
    head := ({ inside with writer := inside.writer.closeCapture.2 }.moved back []).moved cursor rest
    lead := lead ++ rest, gap
    start_writer := ⟨lead, rfl⟩, start_required := rfl, body := hinside
    lead_trivia := hlead.append hrestTrivia, head_writer := ?_
    head_written := hwritten, head_required := rfl, head_text := htext, imports := himports
    added := hadded, gap_trivia := hgap, after_writer := ?_, after_required := rfl, .. }⟩
  · simp only [Context.moved, hwriter, Writer.added_append, Writer.added_nil]
  · rw [Writer.added_append]
    exact Writer.writeRaw_ok ((Writer.indentation_added _).trans hindentLast) hput

/-- What is written at the head stands between the trivia before it and the body. -/
theorem CompilationUnit.Course.writer {u : CompilationUnit} {type : TypeDecl}
    (c : u.Course s type ctx after) {text : List Char}
    (h : c.last.writer = c.head.writer.added text) : after.writer =
      ctx.writer.added (c.lead ++ text ++ (c.gap ++ c.inside.writer.closeCapture.1.toList)) := by
  rw [c.after_writer, h, c.head_writer]
  simp only [Writer.added_append]

end Tree

end Lockstep
