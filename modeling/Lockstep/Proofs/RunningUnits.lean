import Lockstep.Proofs.Running

/-!
# What a rendering of a file does

Beside scripts, the rendering of a file has steps of its own: it holds text back, ends lines, notes
imports and checks the place of a node. As with the steps of scripts, there is one lemma for each,
which reads off the state after a step that succeeds.

- `Step.runAll_adds`: a script writes a text and does nothing else to the writer.
- `captured_ok`, `inNode_ok`, `addImports_ok`, `CompilationUnit.render_ok`: steps of files.
- `DirectiveText`: what is written to import namespaces.
- `renderType_stages`, `renderBody_stages`, `CompilationUnit.renderWith_stages`: the steps of a
  rendering that succeeds, in their order.
-/

namespace Lockstep

open Output Render Source Target Text

/-! ## Writing -/

namespace Output.Writer

variable {w w' : Writer}

@[simp]
theorem lineEnd_added (cs : List Char) : (w.added cs).lineEnd = w.lineEnd := by
  unfold added
  split <;> rfl

@[simp]
theorem indentation_added (cs : List Char) : (w.added cs).indentation = w.indentation := by
  unfold added
  split <;> rfl

@[simp]
theorem atLineStart_added (cs : List Char) :
    (w.added cs).atLineStart = endsLine w.atLineStart cs := by
  obtain ⟨sink, lineStart, captures, indentation, lineEnd⟩ := w
  cases captures <;> rfl

theorem writeLine_ok {text : String} (hend : w.lineEnd = "\n")
    (h : writeLine text w = .ok () w') : w' = w.added (text.toList ++ "\n".toList) := by
  simp only [writeLine, Bind.bind, EStateM.bind] at h
  split at h
  · next mid hwrite =>
    obtain rfl := write_ok hwrite
    have hemit : emit (w.added text.toList).lineEnd true (w.added text.toList) = .ok () w' := h
    have hbreak (m : Writer) : "\n" =
        String.ofList (indented m.indentation m.atLineStart "\n".toList) := rfl
    rw [lineEnd_added, hend, hbreak (w.added text.toList)] at hemit
    rw [added_append]
    exact emit_ok hemit rfl
  · cases h

theorem ensureLineStart_ok (hend : w.lineEnd = "\n") (h : ensureLineStart w = .ok () w') :
    w' = w.added (if w.atLineStart then [] else "\n".toList) := by
  replace h : (if w.atLineStart then pure PUnit.unit else writeLine "" : Write PUnit) w =
      .ok () w' := h
  cases hstart : w.atLineStart with
  | true =>
    rw [if_pos hstart] at h
    cases h
    exact (added_nil w).symm
  | false =>
    rw [hstart, if_neg Bool.false_ne_true] at h
    rw [if_neg Bool.false_ne_true, writeLine_ok hend h, String.toList_empty, List.nil_append]

/-- Where nothing is indented, a text that is put back as it stands is a text written. -/
theorem writeRaw_ok {text : String} (hindent : w.indentation = 0)
    (h : writeRaw text w = .ok () w') : w' = w.added text.toList := by
  unfold writeRaw at h
  split at h
  · next hempty =>
    cases h
    rw [String.isEmpty_iff.1 hempty]
    exact (added_nil w).symm
  · next hempty =>
    have hemit : emit (String.ofList (indented w.indentation w.atLineStart text.toList))
        (endsLine false text.toList) w = .ok () w' := by
      rw [hindent, indented_zero, String.ofList_toList]
      exact h
    refine emit_ok hemit ?_
    cases hcs : text.toList with
    | nil => exact absurd (String.isEmpty_iff.2 (String.toList_eq_nil_iff.1 hcs)) hempty
    | cons c cs => rfl

/-- Between the lines of a block the text is indented. -/
theorem current_block (hindent : w.indentation = 0) (n : Nat)
    {line : List Char} (hline : endsLine w.atLineStart line = true) (text closing : List Char) :
    (((((w.added line).indentBy n).added text).setIndentation 0).added closing).current =
      w.current ++ String.ofList (line ++ indented n true text ++ closing) := by
  have hopen : ((w.added line).indentBy n).indentation = n := by
    rw [show ((w.added line).indentBy n).indentation = (w.added line).indentation + n from rfl,
      indentation_added, hindent, Nat.zero_add]
  have hstart : ((w.added line).indentBy n).atLineStart = true :=
    (atLineStart_added line).trans hline
  rw [current_added_of_indentation_eq_zero (w := setIndentation 0 _) rfl,
    show ∀ v : Writer, (v.setIndentation 0).current = v.current from fun _ => rfl,
    current_added, hopen, hstart,
    show ((w.added line).indentBy n).current = (w.added line).current from rfl,
    current_added_of_indentation_eq_zero hindent]
  simp only [String.ofList_append, String.append_assoc]

end Output.Writer

namespace Render

variable {α : Type} {ctx after : Context}

theorem output_ok {x : Writer.Write α} {a : α} (h : output x ctx = .ok a after) :
    ∃ writer, x ctx.writer = .ok a writer ∧ after = { ctx with writer } := by
  unfold output at h
  split at h
  · next writer hx =>
    cases h
    exact ⟨writer, hx, rfl⟩
  · cases h

theorem writeLine_ok {text : String} (hend : ctx.writer.lineEnd = "\n")
    (h : output (Writer.writeLine text) ctx = .ok () after) :
    after = ctx.moved ctx.cursor (text.toList ++ "\n".toList) := by
  obtain ⟨writer, hw, rfl⟩ := output_ok h
  rw [Writer.writeLine_ok hend hw]
  rfl

theorem ensureLineStart_ok (hend : ctx.writer.lineEnd = "\n")
    (h : output Writer.ensureLineStart ctx = .ok () after) :
    after = ctx.moved ctx.cursor (if ctx.writer.atLineStart then [] else "\n".toList) := by
  obtain ⟨writer, hw, rfl⟩ := output_ok h
  rw [Writer.ensureLineStart_ok hend hw]
  rfl

/-! ## Scripts -/

mutual

theorem Step.run_adds (step : Step) {ctx after : Context} (h : step.run ctx = .ok () after) :
    ∃ text, after.writer = ctx.writer.added text := by
  match step with
  | .enter kind extent => exact ⟨[], by rw [enter_ok h, Writer.added_nil]⟩
  | .refuse error => cases h
  | .copyTrivia =>
    obtain ⟨text, _, -, -, -, rfl⟩ := Step.run_copyTrivia_ok h
    exact ⟨text, rfl⟩
  | .skipTrivia =>
    obtain ⟨_, _, _, _, _, rfl⟩ := skipTriviaUntil_ok h
    exact ⟨[], rfl⟩
  | .skipBlanks =>
    obtain ⟨_, _, _, _, rfl⟩ := skipBlanks_ok h
    exact ⟨[], rfl⟩
  | .skipLineRest =>
    obtain ⟨_, _, _, _, rfl⟩ := Step.run_skipLineRest_ok h
    exact ⟨[], rfl⟩
  | .swap token replacement =>
    obtain ⟨_, _, rfl⟩ := swap_ok h
    exact ⟨_, rfl⟩
  | .emit text => exact ⟨text.toList, by rw [write_ok h]; rfl⟩
  | .operator token replacement balanced spaced =>
    obtain ⟨_, _, rfl⟩ := swapOperator_ok h
    exact ⟨_, rfl⟩
  | .replace extent text =>
    obtain ⟨_, rfl⟩ := replaceExtent_ok h
    exact ⟨_, rfl⟩
  | .require name => exact ⟨[], by rw [require_ok h, Writer.added_nil]⟩
  | .modifier target word extent =>
    obtain ⟨_, _, _, _, _, _, _, rfl⟩ := swapModifier_ok h
    exact ⟨_, rfl⟩
  | .within declaration steps =>
    obtain ⟨mid, hsteps, rfl⟩ := inDeclaration_ok h
    obtain ⟨text, hmid⟩ := Step.runAll_adds steps hsteps
    exact ⟨text, hmid⟩
  | .revisit pos steps =>
    obtain ⟨_, _, hget, h⟩ := bind_ok.1 h
    cases hget
    obtain ⟨_, _, hjump, h⟩ := bind_ok.1 h
    obtain ⟨_, _, _, rfl⟩ := jumpTo_ok hjump
    obtain ⟨_, mid, hsteps, h⟩ := bind_ok.1 h
    obtain ⟨_, _, _, rfl⟩ := jumpTo_ok h
    obtain ⟨text, hmid⟩ := Step.runAll_adds steps hsteps
    refine ⟨text, ?_⟩
    rw [Context.moved_nil, hmid, Context.moved_nil]
  | .times count steps =>
    replace h : repeated (Step.runAll steps) count ctx = .ok () after := h
    induction count generalizing ctx with
    | zero => exact ⟨[], by rw [repeated_zero_ok.1 h, Writer.added_nil]⟩
    | succ n ih =>
      obtain ⟨mid, hfirst, hrest⟩ := repeated_succ_ok.1 h
      obtain ⟨text, hmid⟩ := Step.runAll_adds steps hfirst
      obtain ⟨text', hafter⟩ := ih hrest
      exact ⟨text ++ text', by rw [hafter, hmid, Writer.added_append]⟩

/-- A script writes a text and does nothing else to the writer. -/
theorem Step.runAll_adds (steps : Script) {ctx after : Context}
    (h : Step.runAll steps ctx = .ok () after) :
    ∃ text, after.writer = ctx.writer.added text := by
  match steps with
  | [] => exact ⟨[], by rw [runAll_nil_ok.1 h, Writer.added_nil]⟩
  | step :: steps =>
    obtain ⟨mid, hstep, hsteps⟩ := runAll_cons_ok.1 h
    obtain ⟨text, hmid⟩ := Step.run_adds step hstep
    obtain ⟨text', hafter⟩ := Step.runAll_adds steps hsteps
    exact ⟨text ++ text', by rw [hafter, hmid, Writer.added_append]⟩

end

/-! ## Steps of files -/

theorem inNode_eq (target : Target) (kind : Tree.Kind) (extent : Extent) (body : Rendering Unit) :
    inNode target kind extent body =
      if target.supports kind then (do enter kind extent; body)
      else throw (.unsupported .noForm target kind extent.toSpan) := by
  unfold inNode
  split <;> rfl

theorem inNode_ok {target : Target} {kind : Tree.Kind} {extent : Extent} {body : Rendering Unit}
    (h : inNode target kind extent body ctx = .ok () after) :
    target.supports kind = true ∧ enter kind extent ctx = .ok () ctx ∧
      body ctx = .ok () after := by
  rw [inNode_eq] at h
  by_cases hkind : target.supports kind = true
  · rw [if_pos hkind] at h
    obtain ⟨_, mid, henter, hbody⟩ := bind_ok.1 h
    obtain rfl := enter_ok henter
    exact ⟨hkind, henter, hbody⟩
  · rw [if_neg hkind] at h
    cases h

theorem captured_ok {x : Rendering Unit} {text : String} (h : captured x ctx = .ok text after) :
    ∃ mid, x { ctx with writer := ctx.writer.openCapture } = .ok () mid ∧
      text = mid.writer.closeCapture.1 ∧
      after = { mid with writer := mid.writer.closeCapture.2 } := by
  unfold captured at h
  split at h
  · next mid hx =>
    cases h
    exact ⟨mid, hx, rfl, rfl⟩
  · cases h

/-! ## Imports of namespaces -/

/-- A text of the directives that import the namespaces, with line breaks between them. -/
inductive DirectiveText (target : Target) : List String → List Char → Prop where
  | nil : DirectiveText target [] []
  | lineBreak : DirectiveText target names text →
      DirectiveText target names ("\n".toList ++ text)
  | directive : DirectiveText target names text →
      DirectiveText target (name :: names) ((importDirective target name).toList ++ text)

theorem DirectiveText.append {target : Target} {names names' : List String}
    {text text' : List Char} (h : DirectiveText target names text)
    (h' : DirectiveText target names' text') :
    DirectiveText target (names ++ names') (text ++ text') := by
  induction h with
  | nil => exact h'
  | lineBreak _ ih => exact .lineBreak ih
  | directive _ ih =>
    rw [List.append_assoc]
    exact .directive ih

theorem recordImport_ok {name : String} {isNew : Bool}
    (h : recordImport name ctx = .ok isNew after) :
    isNew = !ctx.written.contains name ∧
      after = { ctx with written := addNew ctx.written name } := by
  cases h
  exact ⟨rfl, rfl⟩

/-- Those of them whose keys have not been noted before, where each notes its key. -/
def unnoted {α : Type} (key : α → String) (noted : List String) : List α → List α
  | [] => []
  | x :: xs =>
    (if noted.contains (key x) then [] else [x]) ++ unnoted key (addNew noted (key x)) xs

/-- What has been noted when each has noted its key. -/
def notedAfter {α : Type} (key : α → String) (noted : List String) (xs : List α) : List String :=
  xs.foldl (fun noted x => addNew noted (key x)) noted

theorem notedAfter_append {α : Type} {key : α → String} {noted : List String} {xs ys : List α} :
    notedAfter key noted (xs ++ ys) = notedAfter key (notedAfter key noted xs) ys :=
  List.foldl_append

theorem unnoted_sublist {α : Type} (key : α → String) (noted : List String) (xs : List α) :
    (unnoted key noted xs).Sublist xs := by
  induction xs generalizing noted with
  | nil => exact .slnil
  | cons x xs ih =>
    rw [unnoted]
    split
    · exact (ih _).cons x
    · exact (ih _).cons_cons x

/-- Namespaces are imported in their order, those that have been imported before left out. -/
theorem addImports_ok {target : Target} {names : List String} {added : Bool}
    (hend : ctx.writer.lineEnd = "\n") (h : addImports target names ctx = .ok added after) :
    ∃ text, DirectiveText target (unnoted id ctx.written names) text ∧
      after = { ctx.moved ctx.cursor text with written := notedAfter id ctx.written names } := by
  induction names generalizing ctx added with
  | nil =>
    cases h
    exact ⟨[], .nil, by rw [Context.moved_self]; rfl⟩
  | cons name names ih =>
    obtain ⟨isNew, mid, hrecord, h⟩ := bind_ok.1 h
    obtain ⟨rfl, hmid⟩ := recordImport_ok hrecord
    have hendMid : mid.writer.lineEnd = "\n" := by rw [hmid, hend]
    have hnoted : mid.written = addNew ctx.written name := by rw [hmid]
    rw [unnoted, id]
    cases hwritten : ctx.written.contains name with
    | true =>
      rw [hwritten] at h
      obtain ⟨text, htext, rfl⟩ := ih hendMid h
      exact ⟨text, hnoted ▸ htext, by rw [hmid]; rfl⟩
    | false =>
      rw [hwritten] at h
      obtain ⟨_, started, hline, h⟩ := bind_ok.1 h
      obtain rfl := ensureLineStart_ok hendMid hline
      obtain ⟨_, _, hwrite, h⟩ := bind_ok.1 h
      obtain rfl := write_ok hwrite
      obtain ⟨_, _, hrest, h⟩ := bind_ok.1 h
      cases h
      rw [Context.moved_moved] at hrest
      obtain ⟨text, htext, rfl⟩ := ih ((Writer.lineEnd_added _).trans hendMid) hrest
      have hall : DirectiveText target (name :: unnoted id (addNew ctx.written name) names)
          ((if mid.writer.atLineStart then [] else "\n".toList) ++
            (importDirective target name).toList ++ text) := by
        rw [← hnoted, List.append_assoc]
        split
        · exact .directive htext
        · exact .lineBreak (.directive htext)
      refine ⟨_, hall, ?_⟩
      rw [Context.moved_moved, hmid]
      rfl

end Render

namespace Tree

open Config

variable {s : Settings} {package : Option PackageDecl} {type : TypeDecl} {u : CompilationUnit}
  {ctx after : Context}

/-! ## Files -/

theorem renderType_stages (h : renderType s type ctx = .ok () after) :
    ∃ place mid copied, place.text = ctx.cursor.text ∧ place.offset = type.header.extent.start ∧
      Step.runAll (type.script s) (ctx.moved place []) = .ok () mid ∧
      copyTrivia mid = .ok copied after := by
  obtain ⟨_, _, hjump, h⟩ := bind_ok.1 h
  obtain ⟨place, htext, hoffset, rfl⟩ := jumpTo_ok hjump
  obtain ⟨_, mid, hrun, h⟩ := bind_ok.1 h
  obtain ⟨copied, _, hcopy, h⟩ := bind_ok.1 h
  cases h
  exact ⟨place, mid, copied, htext, hoffset, hrun, hcopy⟩

theorem bare_or_opens (target : Target) (package : Option PackageDecl) :
    (package.isSome = true → opensNamespace target = false) ∨
      ∃ p, package = some p ∧ opensNamespace target = true := by
  cases package with
  | none => exact .inl nofun
  | some p =>
    cases hopens : opensNamespace target with
    | true => exact .inr ⟨p, rfl, rfl⟩
    | false => exact .inl fun _ => rfl

/-- Without a block the body is the type. -/
theorem renderBody_bare (h : package.isSome = true → opensNamespace s.target = false) :
    renderBody s package type = renderType s type := by
  cases package with
  | none => rfl
  | some p => rw [renderBody, if_neg (Bool.eq_false_iff.1 (h rfl))]

/-- In a block the package is rendered from its own place, then the type, and a line closes the
block at the indentation before it. -/
theorem renderBody_stages {p : PackageDecl} (hopens : opensNamespace s.target = true)
    (h : renderBody s (some p) type ctx = .ok () after) :
    ∃ opened typed, revisit p.extent.start (p.render s) ctx = .ok () opened ∧
      renderType s type opened = .ok () typed ∧
      (do output Writer.ensureLineStart; output (Writer.writeLine "\x7d"))
        { typed with writer := typed.writer.setIndentation ctx.writer.indentation } =
          .ok () after := by
  rw [renderBody, if_pos hopens] at h
  obtain ⟨_, _, hget, h⟩ := bind_ok.1 h
  cases hget
  obtain ⟨_, opened, hpackage, h⟩ := bind_ok.1 h
  obtain ⟨_, typed, htype, h⟩ := bind_ok.1 h
  obtain ⟨_, _, hset, hclose⟩ := bind_ok.1 h
  cases hset
  exact ⟨opened, typed, hpackage, htype, hclose⟩

/-- The steps of a file, with the states between them. -/
structure CompilationUnit.Stages (s : Settings) (u : CompilationUnit) (type : TypeDecl)
    (ctx after : Context) where
  /-- Where the body begins, and where it has been held back. -/
  (start held : Context)
  /-- Where the package ends, and where the imports begin and end. -/
  (returned head imported : Context)
  /-- Where those end that are added, and the trivia after them. -/
  (last behind : Context)
  (copied copied' copied'' : Bool)
  body : String
  writer : Writer
  copies : copyTriviaUntil (some type.header.extent.start) ctx = .ok copied start
  holds : captured (renderBody s u.package type) start = .ok body held
  returns : returnToHead u.package type.header.extent.start held = .ok () returned
  copies_head : copyTriviaUntil (some type.header.extent.start) returned = .ok copied' head
  imports : renderImports s type.header.extent.start u.imports head = .ok () imported
  adds : renderAddedImports s imported = .ok () last
  copies_gap : copyTriviaUntil (some type.header.extent.start) last = .ok copied'' behind
  puts : Writer.writeRaw body behind.writer = .ok () writer
  ends : after = { behind with writer, cursor := behind.cursor.toEnd }

theorem CompilationUnit.renderWith_stages (h : u.renderWith s type ctx = .ok () after) :
    Nonempty (u.Stages s type ctx after) := by
  obtain ⟨_, _, hcopies, h⟩ := bind_ok.1 h
  obtain ⟨_, _, hholds, h⟩ := bind_ok.1 h
  obtain ⟨_, _, hreturns, h⟩ := bind_ok.1 h
  obtain ⟨_, _, hhead, h⟩ := bind_ok.1 h
  obtain ⟨_, _, himports, h⟩ := bind_ok.1 h
  obtain ⟨_, _, hadds, h⟩ := bind_ok.1 h
  obtain ⟨_, _, hgap, h⟩ := bind_ok.1 h
  obtain ⟨_, _, hraw, h⟩ := bind_ok.1 h
  cases h
  obtain ⟨_, hputs, rfl⟩ := output_ok hraw
  exact ⟨{
    copies := hcopies, holds := hholds, returns := hreturns, copies_head := hhead
    imports := himports, adds := hadds, copies_gap := hgap, puts := hputs, ends := rfl, .. }⟩

/-- A unit that is rendered declares one type. -/
theorem CompilationUnit.render_ok (h : u.render s ctx = .ok () after) :
    ∃ type, u.types = [type] ∧ u.renderWith s type ctx = .ok () after := by
  obtain ⟨-, -, h⟩ := inNode_ok h
  cases htypes : u.types with
  | nil =>
    rw [htypes] at h
    cases h
  | cons type rest =>
    rw [htypes] at h
    cases rest with
    | nil => exact ⟨type, rfl, h⟩
    | cons => cases h

end Tree

end Lockstep
