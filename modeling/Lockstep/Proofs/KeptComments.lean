import Lockstep.Proofs.CopiedTrivia
import Lockstep.Proofs.Passage

/-!
# Comments are kept

Whatever a target makes of a type, a name, an expression or a statement, the comments of the source
are in the output, less those in the parts that it leaves out (`Node.omissions`). They first come in
the order of the source, but those in the type of a declaration of Swift, which stands behind the
names.

- `carries_passage`: `Carries` is closed under all that scripts are made of.
- `recognizes_passage`: what is rendered has no part of which only the place is known.
- `KeepsComments`: what an output has of the comments of a source.
- `Node.render_keeps_comments`: the main statement.
-/

namespace Lockstep

open Config Output Render Source Target Text

namespace Tree

variable {s : Settings} {type : TypeRef} {f : Fragment} {more : List Fragment}
  {ctx after : Context}

/-! ## Variables of Swift -/

/-- A variable that is rendered has no dimensions of its own. -/
theorem Fragment.extraDimensions_of_ok {type : Option TypeRef}
    (h : Step.runAll (f.body s type) ctx = .ok () after) : f.extraDimensions = 0 := by
  unfold Fragment.body at h
  split at h
  · nomatch runAll_singleton_ok.1 h
  · next hzero => simpa using hzero

/-- After the name of a variable its type is rendered. -/
theorem Fragment.body_of_plain (type : TypeRef) (h : f.extraDimensions = 0) :
    f.body s (some type) = f.name.script s ++ [.emit ": "] ++
      [.revisit type.extent.start (type.script s)] ++ initialScript s f.initial := by
  rw [Fragment.body, h, if_neg (by decide), List.append_assoc _ [_] [_]]
  rfl

/-- A keyword takes the place of the type, and the variables follow. -/
theorem variablesScript_swift (hswift : s.target = .swift) (modifiers : List Modifier)
    (type : TypeRef) (f : Fragment) (more : List Fragment) :
    ∃ word, variablesScript s modifiers type (f :: more) =
      [.replace type.extent word] ++ (.copyTrivia :: f.body s (some type) ++
        Script.afterFirst (more.map (Fragment.body s (some type)))) := by
  rw [variablesScript, if_pos (beq_iff_eq.2 hswift), List.map_cons, Script.commaSeparated_cons]
  exact ⟨_, rfl⟩

/-- If the variables are rendered, the first of them is. -/
theorem Fragment.runs_of_variables {modifiers : List Modifier} (hswift : s.target = .swift)
    (h : Step.runAll (variablesScript s modifiers type (f :: more)) ctx = .ok () after) :
    ∃ before behind, Step.runAll (f.body s (some type)) before = .ok () behind := by
  obtain ⟨word, hscript⟩ := variablesScript_swift hswift modifiers type f more
  rw [hscript] at h
  obtain ⟨_, _, h⟩ := runAll_append_ok.1 h
  obtain ⟨_, h, _⟩ := runAll_append_ok.1 h
  obtain ⟨_, _, h⟩ := runAll_cons_ok.1 h
  exact ⟨_, _, h⟩

/-! ## What is rendered is known -/

theorem Layout.allKnown_replicate {fs : List Layout} (h : AllKnown fs) (n : Nat) :
    AllKnown (List.replicate n fs).flatten := by
  induction n with
  | zero => trivial
  | succ n ih => exact allKnown_append.2 ⟨h, ih⟩

theorem allKnown_bracketLayouts (n : Nat) : Layout.AllKnown (bracketLayouts n) := by
  unfold bracketLayouts
  exact Layout.allKnown_replicate (by exact ⟨trivial, trivial, trivial⟩) n

theorem Name.isKnown_layout (n : Name) : n.layout.IsKnown := by
  induction n with
  | simple n => exact ⟨trivial, trivial⟩
  | qualified extent qualifier n binding ih => exact ⟨ih, trivial, ⟨trivial, trivial⟩, trivial⟩

end Tree

namespace Render

variable {D : Demand} {known : List Tree.Layout} {a b c : Stance} {xs ys : Script}
  {fs gs : List Tree.Layout}

/-- A script that comes to its end knows the tokens of what it passes. -/
def Recognizes (_ : Stance) (xs : Script) (fs : List Tree.Layout) (_ : Stance) : Prop :=
  ∀ ctx after : Context, Step.runAll xs ctx = .ok () after → Tree.Layout.AllKnown fs

namespace Recognizes

theorem of_allKnown (h : Tree.Layout.AllKnown fs) : Recognizes a xs fs b := fun _ _ _ => h

theorem refuse {e : RenderError} : Recognizes a [.refuse e] fs b :=
  fun _ _ hrun => nomatch runAll_singleton_ok.1 hrun

theorem append (h : Recognizes a xs fs b) (h' : Recognizes b ys gs c) :
    Recognizes a (xs ++ ys) (fs ++ gs) c := fun _ _ hrun => by
  obtain ⟨_, hrun₁, hrun₂⟩ := runAll_append_ok.1 hrun
  exact Tree.Layout.allKnown_append.2 ⟨h _ _ hrun₁, h' _ _ hrun₂⟩

theorem within {declaration : Declaration} (h : Recognizes a xs fs b) :
    Recognizes a [.within declaration xs] fs b := fun _ _ hrun => by
  obtain ⟨_, hsteps, _⟩ := inDeclaration_ok (runAll_singleton_ok.1 hrun)
  exact h _ _ hsteps

theorem times {n : Nat} (h : Recognizes a xs fs a) :
    Recognizes a [.times n xs] (List.replicate n fs).flatten a := fun ctx after hrun => by
  cases n with
  | zero => trivial
  | succ n =>
    obtain ⟨_, hfirst, _⟩ := repeated_succ_ok.1 (runAll_singleton_ok.1 hrun)
    exact Tree.Layout.allKnown_replicate (h _ _ hfirst) _

end Recognizes

theorem recognizes_sequence : Sequence Recognizes where
  nil := .of_allKnown trivial
  append h h' := h.append h'
  refuse _ := .refuse
  entered _ h _ _ hrun := h _ _ (runAll_node_ok hrun)
  parts _ _ h _ _ hrun := ⟨h _ _ hrun, trivial⟩
  swap := .of_allKnown ⟨trivial, trivial⟩
  emit := .of_allKnown trivial
  copyTrivia := .of_allKnown trivial

/-- What is rendered of a tree has no part of which only the place is known. -/
theorem recognizes_passage (s : Settings) :
    Passage s Recognizes (fun _ => True) fun _ fragments => fragments ≠ [] where
  toSequence := recognizes_sequence
  halt _ := .refuse
  operator := .of_allKnown ⟨trivial, trivial⟩
  modifier := .of_allKnown ⟨trivial, trivial⟩
  require := .of_allKnown trivial
  skipBlanks _ := .of_allKnown trivial
  skipLineRest _ := .of_allKnown trivial
  loosen h := h
  within h := h.within
  times h := h.times
  replaceType _ := .of_allKnown ⟨⟨Tree.Name.isKnown_layout _, trivial⟩, trivial⟩
  replaceMark _ := .of_allKnown ⟨⟨trivial, Tree.Name.isKnown_layout _, trivial⟩, trivial⟩
  newWord _ _ h _ _ hrun := by
    obtain ⟨_, _, hrun⟩ := runAll_append_ok.1 hrun
    exact ⟨⟨trivial, h _ _ hrun⟩, trivial⟩
  stepBefore _ _ h _ _ hrun := by
    obtain ⟨_, _, hrun⟩ := runAll_append_ok.1 hrun
    exact ⟨⟨trivial, h _ _ hrun⟩, trivial⟩
  stepAfter _ _ h _ _ hrun := by
    obtain ⟨_, hrun, _⟩ := runAll_append_ok.1 hrun
    exact ⟨⟨(h _ _ hrun).1, trivial, trivial⟩, trivial⟩
  brackets _ _ h _ _ hrun := by
    obtain ⟨_, hrun, _⟩ := runAll_append_ok.1 hrun
    exact ⟨⟨(h _ _ hrun).1, Tree.allKnown_bracketLayouts _⟩, trivial⟩
  assign _ hleft hright _ _ hrun := by
    obtain ⟨_, hrun, _⟩ := runAll_append_ok.1 hrun
    obtain ⟨_, hrun₁, hrun₂⟩ := runAll_append_ok.1 hrun
    obtain ⟨_, hrun₁, _⟩ := runAll_append_ok.1 hrun₁
    exact ⟨⟨(hleft _ _ hrun₁).1, trivial, hright _ _ hrun₂⟩, trivial⟩
  declared {_} modifiers {_ _ type fragments} hne hmodifiers htype hinitial := by
    refine recognizes_sequence.declaration hmodifiers fun ctx after hrun => ?_
    have hfragments (t : Option Tree.TypeRef) : Recognizes .done
        (Script.commaSeparated (fragments.map (Tree.Fragment.body s t)))
        (Tree.Layout.separated (fragments.map Tree.Fragment.layout)) .done :=
      recognizes_sequence.commaSeparated fun f hf =>
        f.passes recognizes_sequence (fun _ _ => .of_allKnown trivial) (hinitial f hf)
    by_cases hswift : s.target = .swift
    · obtain ⟨f, more, rfl⟩ := List.exists_cons_of_ne_nil hne
      obtain ⟨before, behind, hbody⟩ := Tree.Fragment.runs_of_variables hswift hrun
      rw [Tree.Fragment.body_of_plain type (Tree.Fragment.extraDimensions_of_ok hbody)] at hbody
      obtain ⟨_, hbody, _⟩ := runAll_append_ok.1 hbody
      obtain ⟨_, _, hbody⟩ := runAll_append_ok.1 hbody
      obtain ⟨_, _, _, _, hagain, _⟩ := revisit_ok (runAll_singleton_ok.1 hbody)
      rw [Tree.variablesScript, if_pos (beq_iff_eq.2 hswift)] at hrun
      obtain ⟨_, _, hrun⟩ := runAll_append_ok.1 hrun
      exact ⟨(htype _ _ hagain).1, hfragments _ _ _ hrun⟩
    · rw [Tree.variablesScript, if_neg (by simpa using hswift)] at hrun
      obtain ⟨_, hrun₁, hrun₂⟩ := runAll_append_ok.1 hrun
      exact ⟨(htype _ _ hrun₁).1, hfragments _ _ _ hrun₂⟩

/-! ## What is rendered keeps its comments -/

theorem carries_sequence (D : Demand) (known : List Tree.Layout) :
    Sequence (Carries D known) where
  nil := .nil
  append h h' := h.append h'
  refuse _ := .refuse
  entered _ h := h.entered
  parts hne _ h := h.parts hne
  swap := .swap
  emit := .emit
  copyTrivia := .copyTrivia

/-- The variables of a declaration of Swift. The comments in the type come after the first name. -/
theorem Carries.variables_swift {s : Settings} {modifiers : List Tree.Modifier}
    {type : Tree.TypeRef} {f : Tree.Fragment} {more : List Tree.Fragment}
    (hswift : s.target = .swift) (hplace : ∀ r : PlacedRun, r.Within type.extent → ¬D.inPlace r)
    (htype : ∀ known, Carries D known .ready (type.script s) [type.layout] .done)
    (hinitial : ∀ g ∈ f :: more, ∀ known, Carries D known .done
      (Tree.initialScript s g.initial) (Tree.initialLayouts g.initial) .done) :
    Carries D known .ready (Tree.variablesScript s modifiers type (f :: more))
      (type.layout :: Tree.Layout.separated ((f :: more).map Tree.Fragment.layout)) .done := by
  by_cases hzero : f.extraDimensions = 0
  · obtain ⟨word, hscript⟩ := Tree.variablesScript_swift hswift modifiers type f more
    have hname (known : List Tree.Layout) : Carries D known .done
        (.copyTrivia :: f.name.script s ++ [.emit ": "]) [f.name.layout] .done :=
      (copyTrivia.cons (f.name.passes s (carries_sequence D known))).append emit
    have hmore : Carries D (type.layout :: known) .done
        (Script.afterFirst (more.map (Tree.Fragment.body s (some type))))
        (Tree.Layout.afterFirst (more.map Tree.Fragment.layout)) .done := by
      refine (carries_sequence D _).afterFirst fun g hg => g.passes (carries_sequence D _) ?_
        (hinitial g (List.mem_cons_of_mem f hg) _)
      rintro _ ⟨⟩
      exact revisit List.mem_cons_self type.extent?_layout (htype [])
    have hfirst := hinitial f List.mem_cons_self (type.layout :: known)
    have hall := deferred word type.extent?_layout hplace hname (htype []) (hfirst.append hmore)
    rw [List.map_cons, Tree.Layout.separated_cons, f.layout_of_plain hzero, hscript,
      Tree.Fragment.body_of_plain type hzero]
    refine open_node (List.cons_ne_nil _ _) ?_
    simpa only [List.append_assoc, List.cons_append, List.nil_append] using hall
  · refine .of_not_ok (List.cons_ne_nil _ _) fun _ _ hrun => hzero ?_
    obtain ⟨_, _, hbody⟩ := Tree.Fragment.runs_of_variables hswift hrun
    exact Tree.Fragment.extraDimensions_of_ok hbody

/-- Comments are carried over by all that scripts are made of, less those in what is omitted. -/
theorem carries_passage (D : Demand) (s : Settings) :
    Passage s (fun a xs fs b => ∀ known, Carries D known a xs fs b)
      (fun o => D.Spares o.extent) fun type fragments => fragments ≠ [] ∧
        (s.target = .swift → ∀ r : PlacedRun, r.Within type.extent → ¬D.inPlace r) where
  nil _ := .nil
  append h h' known := (h known).append (h' known)
  refuse _ _ := .refuse
  entered _ h known := (h known).entered
  parts hne _ h known := (h known).parts hne
  swap _ := .swap
  emit _ := .emit
  copyTrivia _ := .copyTrivia
  halt _ _ := .halt
  operator _ := .operator
  modifier _ := .modifier
  require _ := .require
  skipBlanks _ _ := .skipBlanks
  skipLineRest _ _ := .skipLineRest
  loosen h known := (h known).loosen
  within h known := (h known).within
  times h known := (h known).times
  replaceType hspares _ := .replace rfl hspares
  replaceMark hspares _ := .replace rfl hspares
  newWord hspares hx h known :=
    .head (fun _ => Carries.swap.cons .skipTrivia) (List.cons_ne_nil _ _) hx hspares (h known)
  stepBefore hspares hx h known :=
    .head (fun _ => Carries.swap.cons .skipTrivia) (List.cons_ne_nil _ _) hx hspares (h known)
  stepAfter hspares hx h known :=
    (h known).tail hx (fun _ => Carries.skipTrivia.cons .swap) hspares
  brackets hspares hx h known := by
    refine (h known).tail hx (fun _ => .times ?_) hspares
    exact Carries.skipTrivia.cons (Carries.swap.cons (Carries.skipTrivia.cons .swap))
  assign hx hleft hright known :=
    (carries_sequence D known).parts (List.cons_ne_nil _ _) Stance.done_ne_ready
      (.assign hx hleft hright)
  declared {_} modifiers {_ _ type fragments} hdeclares hmodifiers htype hinitial known := by
    obtain ⟨hne, hplace⟩ := hdeclares
    refine (carries_sequence D known).declaration (hmodifiers known) ?_
    by_cases hswift : s.target = .swift
    · obtain ⟨f, more, rfl⟩ := List.exists_cons_of_ne_nil hne
      exact .variables_swift hswift (hplace hswift) htype hinitial
    · rw [Tree.variablesScript, if_neg (by simpa using hswift)]
      refine (htype known).append ((carries_sequence D known).commaSeparated fun f hf => ?_)
      refine f.passes (carries_sequence D known) ?_ (hinitial f hf known)
      rintro _ ⟨⟩

/-! ## Comments in an output -/

/-- The output holds each of the comments at least once, and those that keep their place come for
the first time before those that follow them in the source. -/
def KeepsComments (isKept keepsPlace : PlacedRun → Prop) (rs : List PlacedRun)
    (output : List Char) : Prop :=
  ∃ pieces : List Piece, output = pieces.flatMap Piece.text ∧
    (∀ r ∈ rs, isKept r → .copied r ∈ pieces) ∧
    ∀ r ∈ rs, ∀ r' ∈ rs, isKept r → isKept r' → keepsPlace r → r.start < r'.start →
      pieces.idxOf (.copied r) < pieces.idxOf (.copied r')

theorem mem_run? {r : PlacedRun} {pieces : List Piece} (h : r ∈ pieces.filterMap Piece.run?) :
    .copied r ∈ pieces := by
  obtain ⟨piece, hmem, hrun⟩ := List.mem_filterMap.1 h
  cases piece with
  | fresh text => cases hrun
  | copied run =>
    cases hrun
    exact hmem

/-- The copies that answer a demand are the comments of an output. -/
theorem Carried.keepsComments {bound : Nat} {rs : List PlacedRun} {pieces : List Piece}
    (h : Carried D bound rs (pieces.filterMap Piece.run?)) :
    KeepsComments D.kept D.inPlace rs (pieces.flatMap Piece.text) := by
  refine ⟨pieces, rfl, fun r hr hkept => mem_run? (h.complete r hr hkept), ?_⟩
  intro r hr r' hr' hkept hkept' hplace hlt
  -- before the first copy of the later comment there is one of the other
  obtain ⟨pre, post, rfl, hpre⟩ :=
    List.eq_append_cons_of_mem (mem_run? (h.complete r' hr' hkept'))
  have hcopies : (pre ++ .copied r' :: post).filterMap Piece.run? =
      pre.filterMap Piece.run? ++ r' :: post.filterMap Piece.run? := List.filterMap_append
  have hmem := mem_run? (h.ordered _ _ _ hcopies r hr hkept hplace hlt)
  rw [List.idxOf_append, if_pos hmem, List.idxOf_append, if_neg hpre]
  exact Nat.lt_add_left _ (List.idxOf_lt_length_of_mem hmem)

end Render

namespace Tree

variable {layout : Layout}

/-- The parts of a node that a target leaves out. -/
def Node.omissions (target : Target) : Node → List Omission
  | .type t => t.omissions target
  | .expr e => e.omissions target
  | .stmt t => t.omissions target
  | .name _ | .unit _ | .package _ | .imported _ | .member _ | .parameter _ | .fragment _
  | .modifier _ => []

/-- The declarations of variables in a node. -/
def Node.declarations : Node → List (TypeRef × List Fragment)
  | .stmt t => t.declarations
  | .type _ | .expr _ | .name _ | .unit _ | .package _ | .imported _ | .member _ | .parameter _
  | .fragment _ | .modifier _ => []

/-- The run is a comment, and in no part that the target leaves out. -/
def Node.KeepsComment (node : Node) (target : Target) (r : PlacedRun) : Prop :=
  r.isComment = true ∧ ∀ o ∈ node.omissions target, ¬r.Within o.extent

/-- The run is not in the type of a declaration, which Swift puts behind the names. -/
def Node.KeepsPlace (node : Node) (target : Target) (r : PlacedRun) : Prop :=
  target = .swift → ∀ d ∈ node.declarations, ¬r.Within d.1.extent

/-- A relation that is closed under what scripts are made of holds of the script of a node. -/
theorem Node.exists_passes (s : Settings) {node : Node} (h : node.layout? = some layout) :
    ∃ xs, node.render s = runScript xs ∧
      ∀ {R : Stance → Script → List Layout → Stance → Prop} {omits : Omission → Prop}
        {declares : TypeRef → List Fragment → Prop}, Passage s R omits declares →
        (∀ o ∈ node.omissions s.target, omits o) → (∀ d ∈ node.declarations, declares d.1 d.2) →
        R .ready xs [layout] .done := by
  cases node with
  | type t =>
    cases h
    exact ⟨t.script s, rfl, fun p homits _ => t.passes p homits⟩
  | name n =>
    cases h
    exact ⟨n.script s, rfl, fun p _ _ => n.passes s p.toSequence⟩
  | expr e =>
    cases h
    exact ⟨e.script s, rfl, fun p homits _ => e.passes p homits⟩
  | stmt t =>
    cases h
    exact ⟨t.script s, rfl, fun p homits hdeclares => t.passes p homits hdeclares⟩
  | _ => cases h

/-- Of a node that is faithful to the source and is rendered, every comment is in the output, less
those in the parts that the target leaves out; and all but those in the type of a declaration of
Swift come for the first time before the comments that follow them in the source. -/
theorem Node.render_keeps_comments (s : Settings) {node : Node} {ctx after : Context}
    (hlayout : node.layout? = some layout) (hfaithful : layout.FaithfulTo ctx.cursor.text)
    (hdeclares : ∀ d ∈ node.declarations, d.2 ≠ [])
    (hstart : ctx.cursor.offset = node.extent.start) (hindent : ctx.writer.indentation = 0)
    (hrun : node.render s ctx = .ok () after) :
    (∃ rs stop, layout.Gaps ctx.cursor rs stop) ∧
      ∀ rs stop, layout.Gaps ctx.cursor rs stop → ∃ output,
        after.writer.current = ctx.writer.current ++ String.ofList output ∧
        KeepsComments (node.KeepsComment s.target) (node.KeepsPlace s.target) rs output := by
  obtain ⟨xs, hrender, hpasses⟩ := Node.exists_passes s hlayout
  replace hrun : Step.runAll xs ctx = .ok () after := by
    rw [hrender] at hrun
    exact hrun
  have hknown : layout.IsKnown :=
    (hpasses (recognizes_passage s) (fun _ _ => trivial) hdeclares ctx after hrun).1
  obtain ⟨start, stop, htext, hlies⟩ := hfaithful
  have hextent : layout.extent? = some node.extent := (Node.exists_walks s hlayout).1
  obtain rfl := Cursor.eq_of_offset_eq htext ((hlies.offset_eq hextent).1.trans hstart.symm)
  obtain ⟨rs, hgaps⟩ := hlies.exists_gaps hknown
  refine ⟨⟨rs, stop, hgaps⟩, fun rs stop hgaps => ?_⟩
  let D : Demand :=
    ⟨node.KeepsComment s.target, node.KeepsPlace s.target, fun _ hkept => hkept.1⟩
  have hcarries : Carries D [] .ready xs [layout] .done := by
    refine hpasses (carries_passage D s) (fun o ho r hr hkept => hkept.2 o ho hr)
      (fun d hd => ⟨hdeclares d hd, ?_⟩) []
    exact fun hswift r hr hplace => hplace hswift d hd hr
  obtain ⟨_, hkept⟩ := hcarries.run_single (List.forall_mem_nil _) rfl hgaps hrun
  obtain ⟨pieces, hwriter, hcarried⟩ := hkept.written
  refine ⟨pieces.flatMap Piece.text, ?_, hcarried.keepsComments⟩
  rw [hwriter, Writer.current_added_of_indentation_eq_zero hindent]

/-- Of two comments of a declaration of Swift the one in the type comes last. -/
theorem Node.render_keeps_comments_declaration :
    let node : Node := .stmt (.declare ⟨0, 15⟩ []
      (.named ⟨0, 8⟩ (.qualified ⟨0, 8⟩ (.simple ⟨⟨0, 1⟩, "a"⟩) ⟨⟨7, 8⟩, "B"⟩ none) none)
      [⟨⟨13, 14⟩, ⟨⟨13, 14⟩, "x"⟩, 0, none⟩])
    let ctx : Context := .start "a./*t*/B/*c*/x;" true
    ∃ layout after, node.layout? = some layout ∧
      node.render (.ofTarget .swift) ctx = .ok () after ∧
      after.writer.current = "var/*c*/x: a./*t*/B" ∧
      (∃ rs stop, layout.Gaps ctx.cursor rs stop) ∧
      ∀ rs stop, layout.Gaps ctx.cursor rs stop → ∃ output,
        after.writer.current = ctx.writer.current ++ String.ofList output ∧
        KeepsComments (node.KeepsComment .swift) (node.KeepsPlace .swift) rs output := by
  intro node ctx
  obtain ⟨after, hrun, houtput⟩ := runsTo_ok
    (by decide +kernel : runsTo (node.render (.ofTarget .swift)) ctx = some "var/*c*/x: a./*t*/B")
  let place (n : Nat) := (Cursor.ofText "a./*t*/B/*c*/x;").pass n
  have passes (n m : Nat) : (place n).Passes _ _ := (place n).passes_pass m
  refine ⟨_, after, rfl, hrun, houtput, Node.render_keeps_comments (.ofTarget .swift) rfl
    ⟨place 0, place 15, rfl, ?_⟩ (by decide) rfl rfl hrun⟩
  refine ⟨rfl, rfl, rfl, place 8, ⟨rfl, rfl, rfl, place 8, ⟨rfl, rfl, rfl, place 1, ?qualifier,
    ?name⟩, rfl⟩, ?fragment⟩
  case qualifier => exact ⟨rfl, rfl, rfl, _, ⟨rfl, passes 0 1⟩, rfl⟩
  case name =>
    refine ⟨[], _, _, .refl _, .nil, ⟨rfl, passes 1 1⟩, _, _, place 8, passes 2 5, .single rfl, ?_⟩
    exact ⟨⟨rfl, rfl, rfl, _, ⟨rfl, passes 7 1⟩, rfl⟩, rfl⟩
  case fragment =>
    refine ⟨_, _, place 14, passes 8 5, .single rfl,
      ⟨rfl, rfl, rfl, _, ⟨rfl, rfl, rfl, _, ⟨rfl, passes 13 1⟩, rfl⟩, rfl⟩, ?_⟩
    exact ⟨[], _, _, .refl _, .nil, ⟨rfl, passes 14 1⟩, rfl⟩

end Tree

end Lockstep
