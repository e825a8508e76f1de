import Lockstep.Proofs.DeclLayout
import Lockstep.Proofs.InStep

/-!
# Declarations are walked to their ends

The script of a declaration passes its layouts like that of a statement does, after the comments
that are counted into its place. So over a source in which a declaration lies, its script comes to
the end of it or refuses the tree.

- `skipTrivia_until_eq`: a scan with a limit.
- `MethodDecl.walks`, `TypeHeader.walks`, …: the scripts of declarations walk their layouts.
- `Member.ends`: they come to the end of the declaration.
-/

namespace Lockstep

open Config Output Render Source Target Text

/-! ## Trivia up to a limit -/

namespace Render

variable {ctx : Context} {c d : Cursor} {gap : List Char}

/-- Trivia that do not go beyond the limit are passed, if they end there or no run comes after
them. -/
theorem skipTrivia_until_eq {limit : Nat} (hpass : c.Passes gap d)
    (hruns : Trivia.Runs gap d.ahead) (hlimit : d.offset ≤ limit)
    (hend : Trivia.next d.ahead = .absent ∨ d.offset = limit) :
    Cursor.skipTrivia (some limit) c = .ok (String.ofList gap) d := by
  have hoffset := hpass.offset
  have hlead : Trivia.lead (some (limit - c.offset)) (gap ++ d.ahead) = ⟨gap.length, false⟩ :=
    Trivia.lead_some_append hruns (by omega) (hend.imp_right fun _ => by omega)
  simp only [Cursor.skipTrivia, Option.map_some, hpass.ahead, hlead, List.take_left,
    ← hpass.eq_pass]
  rfl

/-- After comments that are counted into its place a node is still met. -/
theorem hasReached_of_passes (hpass : c.Passes gap d) (hruns : Trivia.Runs gap d.ahead) :
    d.hasReached c.offset = true := by
  have hoffset := hpass.offset
  unfold Cursor.hasReached
  by_cases heq : d.offset = c.offset
  · rw [heq, BEq.rfl, Bool.true_or]
  · have hlt : c.offset < d.offset := by omega
    have hat : d.at? c.offset = some c := Cursor.at?_of_text_eq hpass.text_eq.symm
    have hskip := skipTrivia_until_eq hpass hruns (Nat.le_refl _) (.inr rfl)
    simp [hlt, hat, hskip]

theorem node_ends {P : Context → Prop} {target : Target} {kind : Tree.Kind} {extent : Extent}
    {body : Script} (hreached : ctx.cursor.hasReached extent.start = true)
    (h : Ends (Step.runAll body) ctx P) :
    Ends (Step.runAll (Script.node target kind extent body)) ctx P := by
  unfold Script.node
  split
  · exact .bind_of_eq (enter_of_hasReached hreached) h
  · exact .single (.refused rfl trivial)

/-- A script that begins with a refusal goes no further. -/
theorem refuse_ends {P : Context → Prop} {target : Target} {refusal : Refusal} {kind : Tree.Kind}
    {extent : Extent} {rest : Script} :
    Ends (Step.runAll (Script.refuse target refusal kind extent ++ rest)) ctx P :=
  .refused rfl trivial

end Render

namespace Tree

variable {known : List Layout} {a : Stance}

/-! ## Parameters, fields and methods -/

theorem swiftParameter_walks (s : Settings) (p : Parameter) (h : p.type.layout ∈ known) :
    Walks True known .ready (swiftParameter s p)
      (p.type.layout :: (dotLayouts p.isVarargs ++ [p.name.layout])) .done := by
  have htype : Walks True known .ready [.emit "_ ", .replace p.type.extent ""] [p.type.layout]
      .done := .cons .emit (.replace trivial p.type.extent?_layout)
  have hdots : Walks True known .done
      (if p.isVarargs then [.skipTrivia, Script.drop "..."] else [])
      (dotLayouts p.isVarargs) .done := by
    unfold dotLayouts
    split
    · exact .cons .skipTrivia .swap
    · exact .nil
  have hagain : Walks True known .done
      [.emit ": ", .revisit p.type.extent.start (p.type.script s)] [] .done :=
    .cons .emit (.revisit h p.type.extent?_layout (p.type.walks s (.inl trivial)))
  have hmore : Walks True known .done (if p.isVarargs then [.emit "..."] else []) [] .done := by
    split
    · exact .emit
    · exact .nil
  have hhead := ((htype.append hdots).append .skipTrivia).append (p.name.walks s)
  have hall := (hhead.append hagain).append hmore
  simpa only [swiftParameter, List.append_nil, List.cons_append, List.nil_append,
    List.append_assoc] using hall

theorem plainParameter_walks (s : Settings) (p : Parameter) :
    Walks True known .ready (plainParameter s p)
      (p.type.layout :: (dotLayouts p.isVarargs ++ [p.name.layout])) .done := by
  have hword : Walks True known .ready
      (if p.isVarargs && s.target == .csharp then [.emit "params "] else []) [] .ready := by
    split
    · exact .emit
    · exact .nil
  have hdots : Walks True known .done
      (if p.isVarargs then
        [.copyTrivia, .swap "..." (if s.target == .csharp then "[]" else "...")]
      else [])
      (dotLayouts p.isVarargs) .done := by
    unfold dotLayouts
    split
    · exact walks_sequence.spaced "..." _
    · exact .nil
  have htype := hword.append (p.type.walks s (.inl trivial))
  have hall := ((htype.append hdots).append .copyTrivia).append (p.name.walks s)
  simpa only [plainParameter, List.append_nil, List.cons_append, List.nil_append,
    List.append_assoc] using hall

theorem Parameter.walks (s : Settings) (p : Parameter) :
    Walks True known .ready (p.script s) [p.layout] .done := by
  unfold Parameter.script
  split
  · exact .entered rfl (.refuse trivial)
  · next hdimensions =>
    have hzero : p.extraDimensions = 0 := by simpa using hdimensions
    have hlayout : p.layout = .node p.extent (p.modifiers.map Modifier.layout ++
        p.type.layout :: (dotLayouts p.isVarargs ++ [p.name.layout])) := by
      rw [Parameter.layout, hzero]
      rfl
    rw [hlayout]
    refine .node Stance.done_ne_ready ((modifiersScript_walks s .parameter p.modifiers).append ?_)
    split
    · exact swiftParameter_walks s p
        (List.mem_append_left _ (List.mem_append_right _ List.mem_cons_self))
    · exact plainParameter_walks s p

/-- A field, after the comments that are counted into its place. -/
theorem FieldDecl.walks (s : Settings) (f : FieldDecl) (h : f.type.layout ∈ known) :
    Walks True known a
      ([.copyTrivia] ++ modifiersScript s .field f.modifiers ++
        variablesScript s f.modifiers f.type f.fragments ++ Script.terminator s.target)
      f.layouts .done := by
  rw [List.append_assoc _ (variablesScript s _ _ _)]
  exact (Walks.copyTrivia.append (modifiersScript_walks s .field f.modifiers)).append
    ((variablesScript_walks s f.modifiers f.type f.fragments h).append
      (walks_sequence.terminator s.target))

theorem MethodDecl.name_walks (s : Settings) (m : MethodDecl) :
    Walks True known .ready (m.nameScript s)
      (m.returnType.toList.map TypeRef.layout ++ [m.name.layout]) .done := by
  unfold MethodDecl.nameScript
  cases m.returnType with
  | some type =>
    cases s.target == .swift with
    | true =>
      have hword : Walks True known .ready [.replace type.extent "func"] [type.layout] .done :=
        .replace trivial type.extent?_layout
      exact (hword.append .copyTrivia).append (m.name.walks s)
    | false => exact ((type.walks s (.inl trivial)).append .copyTrivia).append (m.name.walks s)
  | none =>
    cases s.target == .swift with
    | true => exact .replace trivial rfl
    | false => exact m.name.walks s

theorem moreThrown_walks (type : TypeRef) (rest : List TypeRef) :
    Walks True known .ready (.replace type.extent "" :: moreThrown rest)
      (Layout.separated ((type :: rest).map TypeRef.layout)) .done := by
  induction rest generalizing type with
  | nil => exact .replace trivial type.extent?_layout
  | cons next rest ih =>
    have hfirst : Walks True known .ready [.replace type.extent ""] [type.layout] .done :=
      .replace trivial type.extent?_layout
    have hcomma : Walks True known .done [.skipTrivia, Script.drop ",", .skipTrivia] [.token ","]
        .ready := .cons .skipTrivia (.cons .swap .skipTrivia)
    exact hfirst.append (hcomma.append (ih next))

theorem thrownScript_walks (target : Target) (thrown : List TypeRef) :
    Walks True known .done (thrownScript target thrown) (clauseLayouts "throws" thrown) .done := by
  cases thrown with
  | nil => exact .nil
  | cons type rest =>
    have hword : Walks True known .done
        (if target == .swift then [.copyTrivia, Script.keep "throws"]
        else [.skipTrivia, Script.drop "throws"]) [.token "throws"] .done := by
      split
      · exact walks_sequence.spaced "throws" "throws"
      · exact .cons .skipTrivia .swap
    have hall := hword.append (Walks.skipTrivia.append (moreThrown_walks type rest))
    rw [thrownScript, List.append_assoc]
    exact hall

theorem MethodDecl.result_walks (s : Settings) (m : MethodDecl)
    (h : ∀ t ∈ m.returnType, t.layout ∈ known) :
    Walks True known .done (m.resultScript s) [] .done := by
  unfold MethodDecl.resultScript
  split
  · exact .nil
  · next type htype =>
    split
    · exact .cons .emit (.revisit (h type htype) type.extent?_layout
        (type.walks s (.inl trivial)))
    · exact .nil

theorem MethodDecl.body_walks (s : Settings) (m : MethodDecl) :
    Walks True known .done (m.bodyScript s) [m.bodyLayout] .done := by
  unfold MethodDecl.bodyScript MethodDecl.bodyLayout
  cases m.body with
  | some body => exact .cons .copyTrivia (body.toStmt.walks s)
  | none => exact walks_sequence.terminator s.target

/-- A method without type parameters, after the comments that are counted into its place. -/
theorem MethodDecl.walks (s : Settings) (m : MethodDecl) (hparameters : m.typeParameters = [])
    (hdimensions : m.extraDimensions = 0) (h : ∀ t ∈ m.returnType, t.layout ∈ known) :
    Walks True known a
      ([.copyTrivia] ++ modifiersScript s .method m.modifiers ++ m.nameScript s ++
        [.copyTrivia] ++ Script.arguments (m.parameters.map (Parameter.script s)) ++
        thrownScript s.target m.thrown ++ m.resultScript s ++ m.bodyScript s)
      m.layouts .done := by
  have hmodifiers : Walks True known a ([.copyTrivia] ++ modifiersScript s .method m.modifiers)
      (m.modifiers.map Modifier.layout) .ready :=
    Walks.copyTrivia.append (modifiersScript_walks s .method m.modifiers)
  have hlist := ((hmodifiers.append (m.name_walks s)).append .copyTrivia).append
    (walks_sequence.arguments fun p (_ : p ∈ m.parameters) => p.walks s)
  have hall := ((hlist.append (thrownScript_walks s.target m.thrown)).append
    (m.result_walks s h)).append (m.body_walks s)
  have hlayouts : m.layouts = m.modifiers.map Modifier.layout ++
      m.returnType.toList.map TypeRef.layout ++ [m.name.layout] ++
      argumentLayouts (m.parameters.map Parameter.layout) ++ clauseLayouts "throws" m.thrown ++
      [m.bodyLayout] := by
    unfold MethodDecl.layouts
    rw [hparameters, hdimensions]
    simp [typeParameterLayouts, bracketLayouts]
  rw [hlayouts]
  simpa only [List.append_nil, List.append_assoc] using hall

/-! ## Types -/

theorem TypeHeader.word_walks (target : Target) {h : TypeHeader} (hform : h.form.isPlain = true) :
    Walks True known .ready (h.wordScript target) h.form.layouts .done := by
  unfold TypeHeader.wordScript TypeHeader.isInterface
  cases hf : h.form with
  | «class» => exact .swap
  | interface => exact .swap
  | enum | annotationType =>
    rw [hf] at hform
    cases hform

theorem TypeHeader.bases_walk (s : Settings) (h : TypeHeader) :
    Walks True known .done (h.basesScript s)
      (clauseLayouts "extends" h.superclass.toList ++
        clauseLayouts (if h.isInterface then "extends" else "implements") h.interfaces) .done := by
  unfold TypeHeader.basesScript
  generalize (if h.isInterface then "extends" else "implements") = word
  refine .append (b := .done) ?_ ?_
  · cases h.superclass with
    | none => exact .nil
    | some type =>
      exact (walks_sequence.between "extends" ":").append (type.walks s (.inl trivial))
  · cases h.interfaces with
    | nil => exact .nil
    | cons type rest =>
      have hword : Walks True known .done
          (if h.superclass.isSome then [.skipTrivia, .swap word ","]
          else [.copyTrivia, .swap word ":"]) [.token word] .done := by
        split
        · exact .cons .skipTrivia .swap
        · exact walks_sequence.spaced word ":"
      exact hword.append
        (walks_sequence.commaSeparated fun t _ => t.walks s (.inl trivial))

/-- A type without type parameters up to its members. -/
theorem TypeHeader.walks (s : Settings) {h : TypeHeader} (hparameters : h.typeParameters = [])
    (hform : h.form.isPlain = true) :
    Walks True known a (h.script s) h.layouts .done := by
  have hmodifiers : Walks True known a ([.copyTrivia] ++ modifiersScript s .type h.modifiers)
      (h.modifiers.map Modifier.layout) .ready :=
    Walks.copyTrivia.append (modifiersScript_walks s .type h.modifiers)
  have hname := ((hmodifiers.append (h.word_walks s.target hform)).append .copyTrivia).append
    (h.name.walks s)
  have hall := (hname.append (h.bases_walk s)).append (walks_sequence.spaced "\x7b" "\x7b")
  unfold TypeHeader.script TypeHeader.layouts
  rw [hparameters]
  simpa only [refuseTypeParameters, typeParameterLayouts, List.isEmpty_nil, if_true, Script.keep,
    List.append_nil, List.nil_append, List.append_assoc] using hall

/-! ## Where declarations end -/

theorem Layout.LieAll.lieAfter {fs : List Layout} {c first d : Cursor} {gap : List Char}
    (hne : fs ≠ []) (h : LieAll fs first d) (hpass : c.Passes gap first)
    (hruns : Trivia.Runs gap first.ahead) : LieAfter fs c d := by
  cases fs with
  | nil => exact absurd rfl hne
  | cons f fs =>
    obtain ⟨mid, hf, hfs⟩ := h
    exact ⟨gap, first, mid, hpass, hruns, hf, hfs⟩

/-- A script that walks layouts comes to the end of them. -/
theorem ends_of_at {fs : List Layout} {xs : Script} {ctx : Context} {d : Cursor}
    (h : Walks True fs a xs fs .done) (hat : a.At fs ctx.cursor d) (hw : ctx.writer.Works) :
    Ends (Step.runAll xs) ctx (·.WorksAt d) := by
  have hknown : ∀ f ∈ fs, f.FaithfulTo d.text := fun f hf => hat.text_eq ▸ hat.faithfulTo hf
  rw [← List.append_nil fs] at hat
  exact (h.ends nofun hknown hw hat).mono fun after h => ⟨h.1, h.2.symm⟩

theorem MethodDecl.layouts_ne_nil (m : MethodDecl) : m.layouts ≠ [] :=
  List.append_ne_nil_of_right_ne_nil _ (List.cons_ne_nil _ _)

theorem TypeHeader.layouts_ne_nil (h : TypeHeader) : h.layouts ≠ [] :=
  List.append_ne_nil_of_right_ne_nil _ (List.cons_ne_nil _ _)

theorem FieldDecl.layouts_ne_nil (f : FieldDecl) : f.layouts ≠ [] :=
  List.append_ne_nil_of_right_ne_nil _ (List.cons_ne_nil _ _)

section

variable {ctx : Context} {c first d : Cursor} {gap : List Char} (s : Settings)

theorem FieldDecl.ends {f : FieldDecl} (hreached : ctx.cursor.hasReached f.extent.start = true)
    (hfills : Layout.LieAll f.layouts first d) (hpass : ctx.cursor.Passes gap first)
    (hruns : Trivia.Runs gap first.ahead) (hw : ctx.writer.Works) :
    Ends (Step.runAll (f.script s)) ctx (·.WorksAt d) :=
  node_ends hreached (ends_of_at (a := .loose)
    (f.walks s (List.mem_append_right _ List.mem_cons_self))
    (hfills.lieAfter f.layouts_ne_nil hpass hruns) hw)

theorem TypeHeader.ends {h : TypeHeader} (hform : h.form.isPlain = true)
    (hfills : Layout.LieAll h.layouts first d) (hpass : ctx.cursor.Passes gap first)
    (hruns : Trivia.Runs gap first.ahead) (hw : ctx.writer.Works) :
    Ends (Step.runAll (h.script s)) ctx (·.WorksAt d) := by
  cases hparameters : h.typeParameters with
  | nil =>
    exact ends_of_at (a := .loose) (h.walks s hparameters hform)
      (hfills.lieAfter h.layouts_ne_nil hpass hruns) hw
  | cons =>
    unfold TypeHeader.script
    rw [hparameters]
    simp only [List.append_assoc]
    exact refuse_ends

theorem MethodDecl.ends {m : MethodDecl} (hreached : ctx.cursor.hasReached m.extent.start = true)
    (hfills : Layout.LieAll m.layouts first d) (hpass : ctx.cursor.Passes gap first)
    (hruns : Trivia.Runs gap first.ahead) (hw : ctx.writer.Works) :
    Ends (Step.runAll (m.script s)) ctx (·.WorksAt d) := by
  refine node_ends hreached ?_
  simp only [List.append_assoc]
  cases hparameters : m.typeParameters with
  | cons => exact refuse_ends
  | nil =>
    by_cases hdimensions : m.extraDimensions = 0
    · have htype : ∀ t ∈ m.returnType, t.layout ∈ m.layouts := by
        intro t ht
        simp [MethodDecl.layouts, Option.mem_def.1 ht]
      have hends := ends_of_at (a := .loose) (m.walks s hparameters hdimensions htype)
        (hfills.lieAfter m.layouts_ne_nil hpass hruns) hw
      simpa [refuseTypeParameters, hdimensions] using hends
    · simpa [refuseTypeParameters, hdimensions] using refuse_ends

end

mutual

/-- Over a source in which a member lies, its script comes to the end of it, whether comments that
are counted into its place have been passed already or not. -/
theorem Member.ends {ctx : Context} {c first d : Cursor} {read gap : List Char} (s : Settings)
    (m : Member) (hcovers : Covers m.extent c first d) (hfills : m.Fills first d)
    (hread : c.Passes read ctx.cursor) (hruns : Trivia.Runs read ctx.cursor.ahead)
    (hpass : ctx.cursor.Passes gap first) (hgap : Trivia.Runs gap first.ahead)
    (hw : ctx.writer.Works) : Ends (Step.runAll (m.script s)) ctx (·.WorksAt d) := by
  have hreached := hasReached_of_passes hread hruns
  rw [hcovers.start] at hreached
  match m with
  | .field f =>
    rw [Member.script]
    exact f.ends s hreached hfills hpass hgap hw
  | .method m =>
    rw [Member.script]
    exact m.ends s hreached hfills hpass hgap hw
  | .setup extent =>
    rw [Member.script]
    exact node_ends hreached (.single (.refused rfl trivial))
  | .type h members =>
    rw [Member.script]
    refine node_ends hreached ?_
    split
    · next hform =>
      simp only [Member.Fills, if_pos hform] at hfills
      obtain ⟨body, stop, hheader, hmembers, hclose⟩ := hfills
      rw [List.append_assoc, Step.runAll_append]
      refine (h.ends s hform hheader hpass hgap hw).bind fun _ opened hopened => ?_
      rw [Step.runAll_append]
      refine (Member.allEnd s members hmembers hopened).bind fun _ inside hinside => ?_
      obtain ⟨hw', rfl⟩ := hinside
      have hwalks : Walks True [] .done [.copyTrivia, Script.keep "\x7d"] [.token "\x7d"] .done :=
        walks_sequence.spaced "\x7d" "\x7d"
      rw [← List.append_nil [Layout.token "\x7d"]] at hclose
      exact (hwalks.ends nofun nofun hw' hclose).mono fun after h => ⟨h.1, h.2.symm⟩
    · exact .single (.refused rfl trivial)

theorem Member.allEnd {ctx : Context} {c d : Cursor} (s : Settings) (members : List Member)
    (hlie : Member.LieAfter members c d) (hat : ctx.WorksAt c) :
    Ends (Step.runAll (Member.scripts s members)) ctx (·.WorksAt d) := by
  match members with
  | [] =>
    rw [Member.LieAfter] at hlie
    exact .of_eq rfl (hlie ▸ hat)
  | m :: rest =>
    obtain ⟨gap, start, first, stop, hpass, hruns, hcovers, hfills, hrest⟩ := hlie
    obtain ⟨lead, hlead, hcomments⟩ := hcovers.lead
    have hall : Trivia.Runs (gap ++ lead) first.ahead := .append (hlead.ahead ▸ hruns) hcomments
    have hcopy : Ends Step.copyTrivia.run ctx (·.WorksAt first) :=
      (copyTrivia_ends hat (hpass.trans hlead) hall hcovers.token).bind fun _ _ h => .of_eq rfl h
    rw [Member.scripts, Step.runAll_append]
    refine (hcopy.bind fun _ met hmet => ?_).bind fun _ after h => Member.allEnd s rest hrest h
    obtain ⟨hw, rfl⟩ := hmet
    exact Member.ends s m hcovers hfills hlead hcomments (.refl _) .nil hw

end

end Tree

end Lockstep
