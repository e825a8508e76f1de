import Lockstep.Proofs.Copying
import Lockstep.Proofs.Reassembly

/-!
# Files that need no rewrite

A type that uses only what C# spells as Java does (`Member.IsKept`) is copied, and so is a file
that consists of such a type and of white space and comments around it. Where the tree says that the
parts are is not assumed to be right: the rendering has looked at the tokens when it succeeds.

- `Stmt.IsKept`, `Member.IsKept`: what C# spells as Java does.
- `Member.script_copies`, `Member.script_tokensLie`: their scripts.
- `CompilationUnit.render_unchanged`: the theorem about units.
-/

namespace Lockstep.Tree

open Config Output Render Source Target Text

/-! ## What C# spells as Java does -/

def SimpleName.IsKept (n : SimpleName) : Prop := ∀ edit ∈ n.edits, edit.IsKept

/-- The type is not replaced, and its tokens are kept. -/
def TypeRef.IsKept (type : TypeRef) : Prop :=
  type.KeepsNames .csharp ∧ ∀ edit ∈ type.edits, edit.IsKept

/-- No type in the expression is replaced, its tokens are kept, and no parentheses are put in. -/
def Expr.IsKept (e : Expr) : Prop := e.KeepsNames .csharp ∧ ∀ edit ∈ e.edits, edit.IsKept

/-- The modifier is one that the declaration keeps. Annotations are not kept. -/
def Modifier.IsKept (declaration : Declaration) : Modifier → Prop
  | .word _ w => modifierRule .csharp w declaration = .keep
  | .annotated _ => False

def Fragment.IsKept (f : Fragment) : Prop := f.name.IsKept ∧ ∀ e ∈ f.initial, e.IsKept

mutual

def Stmt.IsKept : Stmt → Prop
  | .block _ statements => Stmt.AllKept statements
  | .expression _ e | .throws _ e => e.IsKept
  | .declare _ modifiers type fragments =>
    (∀ m ∈ modifiers, m.IsKept .localVariable) ∧ type.IsKept ∧ ∀ f ∈ fragments, f.IsKept
  | .returns _ value => ∀ e ∈ value, e.IsKept
  | .ifElse _ condition positive negative =>
    condition.IsKept ∧ positive.IsKept ∧ Stmt.OptionIsKept negative
  | .whileLoop _ condition body | .doLoop _ body condition => condition.IsKept ∧ body.IsKept
  | .empty _ | .jump .. | .other .. => True

def Stmt.AllKept : List Stmt → Prop
  | [] => True
  | stmt :: stmts => stmt.IsKept ∧ Stmt.AllKept stmts

def Stmt.OptionIsKept : Option Stmt → Prop
  | none => True
  | some stmt => stmt.IsKept

end

structure Parameter.IsKept (p : Parameter) : Prop where
  modifiers : ∀ m ∈ p.modifiers, m.IsKept .parameter
  type : p.type.IsKept
  isVarargs : p.isVarargs = false
  name : p.name.IsKept

structure FieldDecl.IsKept (f : FieldDecl) : Prop where
  modifiers : ∀ m ∈ f.modifiers, m.IsKept .field
  type : f.type.IsKept
  fragments : ∀ fragment ∈ f.fragments, fragment.IsKept

structure MethodDecl.IsKept (m : MethodDecl) : Prop where
  modifiers : ∀ modifier ∈ m.modifiers, modifier.IsKept .method
  returnType : ∀ type ∈ m.returnType, type.IsKept
  name : m.name.IsKept
  parameters : ∀ p ∈ m.parameters, p.IsKept
  thrown : m.thrown = []
  body : ∀ body ∈ m.body, body.toStmt.IsKept

structure TypeHeader.IsKept (h : TypeHeader) : Prop where
  modifiers : ∀ m ∈ h.modifiers, m.IsKept .type
  name : h.name.IsKept
  superclass : h.superclass = none
  interfaces : h.interfaces = []

mutual

def Member.IsKept : Member → Prop
  | .field f => f.IsKept
  | .method m => m.IsKept
  | .type h members => h.IsKept ∧ Member.AllKept members
  | .setup _ => True

def Member.AllKept : List Member → Prop
  | [] => True
  | m :: rest => m.IsKept ∧ Member.AllKept rest

end

mutual

/-- The tokens of a class or an interface and of what it holds. -/
def Member.tokens : Member → List String
  | .field f => Layout.allTokens f.layouts
  | .method m => Layout.allTokens m.layouts
  | .type h members => Layout.allTokens h.layouts ++ Member.allTokens members ++ ["\x7d"]
  | .setup _ => []

def Member.allTokens : List Member → List String
  | [] => []
  | m :: rest => m.tokens ++ Member.allTokens rest

end

/-! ## Their scripts copy -/

section

variable {s : Settings} {d : Option Declaration}

theorem not_swift (ht : s.target = .csharp) : (s.target == .swift) = false := by
  rw [ht]
  rfl

theorem SimpleName.script_copies (ht : s.target = .csharp) {n : SimpleName} (h : n.IsKept) :
    Step.AllCopy d (n.script s) := (n.inPlace ht).allCopy h d

theorem TypeRef.script_copies (ht : s.target = .csharp) (hr : NeedsOnlyIf s False)
    {type : TypeRef} (h : type.IsKept) :
    Step.AllCopy d (type.script s) := (type.inPlace ht hr h.1).allCopy h.2 d

theorem Expr.script_copies (ht : s.target = .csharp) (hr : NeedsOnlyIf s False)
    {e : Expr} (h : e.IsKept) : Step.AllCopy d (e.script s) :=
  (e.inPlace ht hr h.1).allCopy h.2 d

theorem modifiersScript_copies (ht : s.target = .csharp) {declaration : Declaration}
    {modifiers : List Modifier} (h : ∀ m ∈ modifiers, m.IsKept declaration) :
    Step.AllCopy d (modifiersScript s declaration modifiers) := by
  refine ⟨.append ?_ .copyTrivia, trivial⟩
  induction modifiers with
  | nil => exact trivial
  | cons m rest ih =>
    obtain ⟨hm, hrest⟩ := List.forall_mem_cons.1 h
    have hfirst : Step.AllCopy (some declaration) (m.script s) := by
      cases m with
      | word extent w =>
        refine .node ⟨fun declaration' hdecl => ?_, trivial⟩
        obtain rfl : declaration = declaration' := Option.some.inj hdecl
        rw [ht]
        exact hm
      | annotated mark => exact hm.elim
    exact (Step.AllCopy.copyTrivia.append hfirst).append (ih hrest)

theorem Fragment.body_copies (ht : s.target = .csharp) (hr : NeedsOnlyIf s False)
    {f : Fragment} (h : f.IsKept) :
    Step.AllCopy d (f.body s none) := by
  unfold Fragment.body
  split
  · exact .refuse
  · have hname : Step.AllCopy d (f.name.script s ++ []) :=
      .append (f.name.script_copies ht h.1) trivial
    refine hname.append ?_
    cases hf : f.initial with
    | none => exact trivial
    | some e =>
      have hsign : Step.AllCopy d [Script.operator s.target "=" "=" false] := by
        rw [ht]
        exact ⟨⟨rfl, rfl⟩, trivial⟩
      exact hsign.append (e.script_copies ht hr (h.2 e hf))

theorem variablesScript_copies (ht : s.target = .csharp) (hr : NeedsOnlyIf s False)
    {modifiers : List Modifier} {type : TypeRef}
    {fragments : List Fragment} (htype : type.IsKept) (hfragments : ∀ f ∈ fragments, f.IsKept) :
    Step.AllCopy d (variablesScript s modifiers type fragments) := by
  rw [variablesScript, not_swift ht, if_neg Bool.false_ne_true]
  refine (type.script_copies ht hr htype).append (.commaSeparated fun xs hxs => ?_)
  obtain ⟨f, hf, rfl⟩ := List.mem_map.1 hxs
  exact f.body_copies ht hr (hfragments f hf)

theorem terminator_copies (ht : s.target = .csharp) :
    Step.AllCopy d (Script.terminator s.target) := by
  rw [ht]
  exact .spaced ";"

theorem conditionScript_copies (ht : s.target = .csharp) (hr : NeedsOnlyIf s False)
    {condition : Expr} (h : condition.IsKept) :
    Step.AllCopy d (conditionScript s condition) := by
  have hopen : Step.AllCopy d [.copyTrivia, Script.keep "(", .copyTrivia] :=
    ⟨trivial, rfl, trivial, trivial⟩
  exact (hopen.append (condition.script_copies ht hr h)).append (.spaced ")")

theorem checkBody_copies (ht : s.target = .csharp) (word : String) (body : Stmt) :
    Step.AllCopy d (checkBody s.target word body) := by
  rw [ht]
  exact trivial

mutual

theorem Stmt.script_copies (ht : s.target = .csharp) (hr : NeedsOnlyIf s False)
    (stmt : Stmt) (h : stmt.IsKept) : Step.AllCopy d (stmt.script s) := by
  match stmt with
  | .block extent statements =>
    rw [Stmt.script]
    exact .node (((Step.AllCopy.keep "\x7b").append (Stmt.scripts_copy ht hr statements h)).append
      (.spaced "\x7d"))
  | .expression extent e =>
    rw [Stmt.script, not_swift ht, if_neg Bool.false_ne_true]
    exact .node ((e.script_copies ht hr h).append (terminator_copies ht))
  | .declare extent modifiers type fragments =>
    obtain ⟨hmodifiers, htype, hfragments⟩ := h
    rw [Stmt.script]
    exact .node (((modifiersScript_copies ht hmodifiers).append
      (variablesScript_copies ht hr htype hfragments)).append (terminator_copies ht))
  | .returns extent none =>
    rw [Stmt.script]
    exact .node ((Step.AllCopy.keep "return").append (terminator_copies ht))
  | .returns extent (some value) =>
    rw [Stmt.script]
    exact .node (((Step.AllCopy.keep "return").append
      (Step.AllCopy.copyTrivia.append (value.script_copies ht hr (h value rfl)))).append
        (terminator_copies ht))
  | .ifElse extent condition positive negative =>
    obtain ⟨hcondition, hpositive, hnegative⟩ := h
    rw [Stmt.script]
    exact .node ((((((Step.AllCopy.keep "if").append
      (conditionScript_copies ht hr hcondition)).append (checkBody_copies ht "if" positive)).append
        .copyTrivia).append (Stmt.script_copies ht hr positive hpositive)).append
          (Stmt.elseScript_copies ht hr negative hnegative))
  | .whileLoop extent condition body =>
    obtain ⟨hcondition, hbody⟩ := h
    rw [Stmt.script]
    exact .node (((((Step.AllCopy.keep "while").append
      (conditionScript_copies ht hr hcondition)).append (checkBody_copies ht "while" body)).append
        .copyTrivia).append (Stmt.script_copies ht hr body hbody))
  | .doLoop extent body condition =>
    obtain ⟨hcondition, hbody⟩ := h
    have hword : Step.AllCopy d [.swap "do" (if s.target == .swift then "repeat" else "do")] := by
      rw [ht]
      exact .keep "do"
    rw [Stmt.script]
    exact .node ((((((hword.append (checkBody_copies ht "do" body)).append .copyTrivia).append
      (Stmt.script_copies ht hr body hbody)).append (.spaced "while")).append
        (conditionScript_copies ht hr hcondition)).append (terminator_copies ht))
  | .empty extent =>
    rw [Stmt.script, ht]
    exact .node (.keep ";")
  | .jump word extent none =>
    rw [Stmt.script]
    exact .node ((Step.AllCopy.keep word.token).append (terminator_copies ht))
  | .jump word extent (some label) => exact .node .refuse
  | .throws extent value =>
    have hword : Step.AllCopy d [Script.keep "throw", .copyTrivia] := ⟨rfl, trivial, trivial⟩
    rw [Stmt.script]
    exact .node ((hword.append (value.script_copies ht hr h)).append (terminator_copies ht))
  | .other form extent => exact .node .refuse

theorem Stmt.scripts_copy (ht : s.target = .csharp) (hr : NeedsOnlyIf s False)
    (stmts : List Stmt) (h : Stmt.AllKept stmts) :
    Step.AllCopy d (Stmt.scripts s stmts) := by
  match stmts with
  | [] => exact trivial
  | stmt :: rest =>
    exact (Step.AllCopy.copyTrivia.append (Stmt.script_copies ht hr stmt h.1)).append
      (Stmt.scripts_copy ht hr rest h.2)

theorem Stmt.elseScript_copies (ht : s.target = .csharp) (hr : NeedsOnlyIf s False)
    (negative : Option Stmt) (h : Stmt.OptionIsKept negative) :
    Step.AllCopy d (Stmt.elseScript s negative) := by
  match negative with
  | none => exact trivial
  | some stmt =>
    have hcheck : Step.AllCopy d
        (if stmt.isIf then [] else checkBody s.target "else" stmt) := by
      split
      · exact trivial
      · exact checkBody_copies ht "else" stmt
    rw [Stmt.elseScript]
    exact ((Step.AllCopy.spaced "else").append hcheck).append
      (Step.AllCopy.copyTrivia.append (Stmt.script_copies ht hr stmt h))

end

theorem Parameter.script_copies (ht : s.target = .csharp) (hr : NeedsOnlyIf s False)
    {p : Parameter} (h : p.IsKept) : Step.AllCopy d (p.script s) := by
  unfold Parameter.script
  refine .node ?_
  split
  · exact .refuse
  · rw [not_swift ht, if_neg Bool.false_ne_true]
    refine (modifiersScript_copies ht h.modifiers).append ?_
    have hnil : Step.AllCopy d [] := trivial
    have hnone : Step.AllCopy d ([] ++ p.type.script s ++ []) :=
      (hnil.append (p.type.script_copies ht hr h.type)).append hnil
    simp only [plainParameter, h.isVarargs, Bool.false_and, Bool.false_eq_true, if_false]
    exact (hnone.append .copyTrivia).append (p.name.script_copies ht h.name)

theorem FieldDecl.script_copies (ht : s.target = .csharp) (hr : NeedsOnlyIf s False)
    {f : FieldDecl} (h : f.IsKept) : Step.AllCopy d (f.script s) :=
  .node (((Step.AllCopy.copyTrivia.append (modifiersScript_copies ht h.modifiers)).append
    (variablesScript_copies ht hr h.type h.fragments)).append (terminator_copies ht))

theorem MethodDecl.nameScript_copies (ht : s.target = .csharp) (hr : NeedsOnlyIf s False)
    {m : MethodDecl} (h : m.IsKept) : Step.AllCopy d (m.nameScript s) := by
  have hname := m.name.script_copies (d := d) ht h.name
  unfold MethodDecl.nameScript
  rw [not_swift ht]
  cases htype : m.returnType with
  | none => exact hname
  | some type =>
    exact ((type.script_copies ht hr (h.returnType type htype)).append .copyTrivia).append hname

theorem MethodDecl.resultScript_copies (ht : s.target = .csharp) (m : MethodDecl) :
    Step.AllCopy d (m.resultScript s) := by
  unfold MethodDecl.resultScript
  cases m.returnType with
  | none => exact trivial
  | some type =>
    simp only [not_swift ht, Bool.false_and, Bool.false_eq_true, if_false]
    exact trivial

theorem MethodDecl.bodyScript_copies (ht : s.target = .csharp) (hr : NeedsOnlyIf s False)
    {m : MethodDecl} (h : m.IsKept) : Step.AllCopy d (m.bodyScript s) := by
  unfold MethodDecl.bodyScript
  cases hbody : m.body with
  | none => exact terminator_copies ht
  | some body =>
    exact Step.AllCopy.copyTrivia.append (Stmt.script_copies ht hr _ (h.body body hbody))

theorem refuseTypeParameters_copies (target : Target) (parameters : List Extent) :
    Step.AllCopy d (refuseTypeParameters target parameters) := by
  cases parameters with
  | nil => exact trivial
  | cons => exact .refuse

theorem MethodDecl.script_copies (ht : s.target = .csharp) (hr : NeedsOnlyIf s False)
    {m : MethodDecl} (h : m.IsKept) : Step.AllCopy d (m.script s) := by
  have hdimensions : Step.AllCopy d (if m.extraDimensions != 0 then
      Script.refuse s.target .extraDimensions .methodDeclaration m.extent else []) := by
    split
    · exact .refuse
    · exact trivial
  have harguments : Step.AllCopy d (Script.arguments (m.parameters.map (Parameter.script s))) := by
    refine .arguments fun xs hxs => ?_
    obtain ⟨p, hp, rfl⟩ := List.mem_map.1 hxs
    exact p.script_copies ht hr (h.parameters p hp)
  have hthrown : Step.AllCopy d (thrownScript s.target m.thrown) := by
    rw [h.thrown]
    exact trivial
  have hparameters := refuseTypeParameters_copies (d := d) s.target m.typeParameters
  have hhead := ((hparameters.append hdimensions).append .copyTrivia).append
    (modifiersScript_copies ht h.modifiers)
  have hlist := ((hhead.append (nameScript_copies ht hr h)).append .copyTrivia).append harguments
  exact .node (((hlist.append hthrown).append (m.resultScript_copies ht)).append
    (bodyScript_copies ht hr h))

theorem TypeHeader.script_copies (ht : s.target = .csharp) {h : TypeHeader} (hkept : h.IsKept) :
    Step.AllCopy d (h.script s) := by
  have hword : Step.AllCopy d (h.wordScript s.target) := by
    unfold TypeHeader.wordScript
    rw [ht]
    split <;> exact ⟨rfl, trivial⟩
  have hbases : Step.AllCopy d (h.basesScript s) := by
    unfold TypeHeader.basesScript
    rw [hkept.superclass, hkept.interfaces]
    exact trivial
  have hparameters := refuseTypeParameters_copies (d := d) s.target h.typeParameters
  have hmodifiers := (hparameters.append .copyTrivia).append
    (modifiersScript_copies ht hkept.modifiers)
  have hname := ((hmodifiers.append hword).append .copyTrivia).append
    (h.name.script_copies ht hkept.name)
  exact (hname.append hbases).append (.spaced "\x7b")

mutual

theorem Member.script_copies (ht : s.target = .csharp) (hr : NeedsOnlyIf s False)
    (m : Member) (h : m.IsKept) : Step.AllCopy d (m.script s) := by
  match m with
  | .field f =>
    rw [Member.script]
    exact f.script_copies ht hr h
  | .method m =>
    rw [Member.script]
    exact m.script_copies ht hr h
  | .setup extent =>
    rw [Member.script]
    exact .node .refuse
  | .type header members =>
    obtain ⟨hheader, hmembers⟩ := h
    rw [Member.script]
    refine .node ?_
    split
    · exact ((header.script_copies ht hheader).append
        (Member.scripts_copy ht hr members hmembers)).append (.spaced "\x7d")
    · exact .refuse

theorem Member.scripts_copy (ht : s.target = .csharp) (hr : NeedsOnlyIf s False)
    (members : List Member) (h : Member.AllKept members) :
    Step.AllCopy d (Member.scripts s members) := by
  match members with
  | [] => exact trivial
  | m :: rest =>
    exact (Step.AllCopy.copyTrivia.append (Member.script_copies ht hr m h.1)).append
      (Member.scripts_copy ht hr rest h.2)

end

/-! ## The tokens that they have passed -/

variable {ctx ctx' : Context}

theorem FieldDecl.script_tokensLie {f : FieldDecl} (hcopies : Step.AllCopy d (f.script s))
    (h : Step.runAll (f.script s) ctx = .ok () ctx') :
    TokensLie (Layout.allTokens f.layouts) ctx.cursor ctx'.cursor := by
  obtain ⟨hparts, hrun⟩ := hcopies.of_node_ok h
  have hwalks := f.walks (a := .loose) s (List.mem_singleton_self _)
  exact (hwalks.tokensLie hparts (by rintro ⟨⟩) hrun).1

theorem MethodDecl.script_tokensLie {m : MethodDecl} (hcopies : Step.AllCopy d (m.script s))
    (h : Step.runAll (m.script s) ctx = .ok () ctx') :
    TokensLie (Layout.allTokens m.layouts) ctx.cursor ctx'.cursor := by
  obtain ⟨hparts, hrun⟩ := hcopies.of_node_ok h
  simp only [List.append_assoc] at hparts hrun
  cases hparameters : m.typeParameters with
  | cons first rest =>
    rw [hparameters] at hrun
    cases hrun
  | nil =>
    by_cases hdimensions : m.extraDimensions = 0
    · have hknown : ∀ type ∈ m.returnType,
          type.layout ∈ m.returnType.toList.map TypeRef.layout :=
        fun type htype => List.mem_map_of_mem (Option.mem_toList.2 htype)
      have hwalks := m.walks (a := .loose) s hparameters hdimensions hknown
      simp only [List.append_assoc] at hwalks
      simp only [hparameters, hdimensions, refuseTypeParameters, bne_self_eq_false,
        Bool.false_eq_true, if_false, List.nil_append] at hparts hrun
      exact (hwalks.tokensLie hparts (by rintro ⟨⟩) hrun).1
    · simp only [hparameters, refuseTypeParameters, List.nil_append,
        if_pos (bne_iff_ne.2 hdimensions)] at hrun
      cases hrun

theorem TypeHeader.script_tokensLie {header : TypeHeader} (hform : header.form.isPlain = true)
    (hcopies : Step.AllCopy d (header.script s))
    (h : Step.runAll (header.script s) ctx = .ok () ctx') :
    TokensLie (Layout.allTokens header.layouts) ctx.cursor ctx'.cursor := by
  cases hparameters : header.typeParameters with
  | cons first rest =>
    unfold TypeHeader.script at h
    simp only [hparameters, refuseTypeParameters, List.append_assoc] at h
    cases h
  | nil =>
    have hwalks : Walks True [] .loose (header.script s) header.layouts .done :=
      header.walks s hparameters hform
    exact (hwalks.tokensLie hcopies (by rintro ⟨⟩) h).1

mutual

/-- A member that is rendered by copying lies in the source, token by token. -/
theorem Member.script_tokensLie (m : Member) {ctx ctx' : Context}
    (hcopies : Step.AllCopy d (m.script s)) (h : Step.runAll (m.script s) ctx = .ok () ctx') :
    TokensLie m.tokens ctx.cursor ctx'.cursor := by
  match m with
  | .field f =>
    rw [Member.script] at hcopies h
    exact f.script_tokensLie hcopies h
  | .method m =>
    rw [Member.script] at hcopies h
    exact m.script_tokensLie hcopies h
  | .setup extent =>
    rw [Member.script] at hcopies h
    obtain ⟨-, hrun⟩ := hcopies.of_node_ok h
    cases hrun
  | .type header members =>
    rw [Member.script] at hcopies h
    obtain ⟨hparts, hrun⟩ := hcopies.of_node_ok h
    cases hform : header.form.isPlain with
    | false =>
      rw [hform, if_neg Bool.false_ne_true] at hrun
      cases hrun
    | true =>
      rw [hform, if_pos rfl] at hparts hrun
      obtain ⟨hbefore, hclose⟩ := Step.allCopy_append.1 hparts
      obtain ⟨hheader, hmembers⟩ := Step.allCopy_append.1 hbefore
      obtain ⟨inside, hbeforeRun, hcloseRun⟩ := runAll_append_ok.1 hrun
      obtain ⟨opened, hheaderRun, hmembersRun⟩ := runAll_append_ok.1 hbeforeRun
      have hwalks : Walks True [] .loose [.copyTrivia, Script.keep "\x7d"] [.token "\x7d"] .done :=
        walks_sequence.spaced "\x7d" "\x7d"
      have htokens := (header.script_tokensLie hform hheader hheaderRun).append
        (Member.scripts_tokensLie members hmembers hmembersRun)
      rw [Member.tokens]
      exact htokens.append (hwalks.tokensLie hclose (by rintro ⟨⟩) hcloseRun).1

theorem Member.scripts_tokensLie (members : List Member) {ctx ctx' : Context}
    (hcopies : Step.AllCopy d (Member.scripts s members))
    (h : Step.runAll (Member.scripts s members) ctx = .ok () ctx') :
    TokensLie (Member.allTokens members) ctx.cursor ctx'.cursor := by
  match members with
  | [] =>
    cases runAll_nil_ok.1 h
    exact .refl _
  | m :: rest =>
    obtain ⟨-, hparts⟩ := hcopies
    obtain ⟨hfirst, hrest⟩ := Step.allCopy_append.1 hparts
    obtain ⟨met, hcopy, hrun⟩ := runAll_cons_ok.1 h
    obtain ⟨mid, hfirstRun, hrestRun⟩ := runAll_append_ok.1 hrun
    obtain ⟨_, _, hgap, hcopy⟩ := bind_ok.1 hcopy
    cases hcopy
    obtain ⟨text, cursor, hpass, hruns, -, -, rfl⟩ := copyTrivia_ok hgap
    have hm := (TokensLie.ofRuns hpass hruns).append (m.script_tokensLie hfirst hfirstRun)
    exact hm.append (Member.scripts_tokensLie rest hrest hrestRun)

end

/-! ## The type -/

/-- The tokens of the type are the last ones of the source: where they lie from the place on, only
white space and comments come after them. -/
def TypeDecl.IsLastFrom (type : TypeDecl) (begin : Cursor) : Prop :=
  ∀ stop, Layout.LieAfter (type.toMember.tokens.map .token) begin stop →
    Trivia.Runs stop.ahead []

variable {type : TypeDecl} {begin : Cursor}

/-- The rest of the source is copied. -/
theorem renderType_copies (ht : s.target = .csharp) (hr : NeedsOnlyIf s False)
    (hkept : type.toMember.IsKept) (htext : begin.text = ctx.cursor.text)
    (hstart : begin.offset = type.header.extent.start) (hlast : type.IsLastFrom begin)
    (h : renderType s type ctx = .ok () ctx') :
    ∃ cursor, begin.Passes begin.ahead cursor ∧ ctx' = ctx.moved cursor begin.ahead := by
  obtain ⟨cursor, _, _, hcursor, hoffset, hrun, hcopy⟩ := renderType_stages h
  obtain rfl : cursor = begin :=
    Cursor.eq_of_offset_eq (hcursor.trans htext.symm) (hoffset.trans hstart.symm)
  have hcopies := Member.script_copies (d := (ctx.moved cursor []).declaration) ht hr _ hkept
  obtain ⟨stop, gap, hlie, hgap, hgapRuns⟩ := Member.script_tokensLie type.toMember hcopies hrun
  obtain ⟨closed, text, hpass, rfl⟩ := Step.runAll_copies _ hcopies hrun
  obtain ⟨rest, done, hrest, hrestRuns, habsent, -, rfl⟩ := copyTrivia_ok hcopy
  -- The trivia behind the last token go on to the end of the source.
  obtain ⟨hpassEnd, hend⟩ := Cursor.passes_of_ahead_eq (List.append_nil stop.ahead).symm
  have hdone : done = stop.pass stop.ahead.length :=
    trivia_right_unique (hgap.trans hrest) (.append (hrest.ahead ▸ hgapRuns) hrestRuns) habsent
      hpassEnd (hend.symm ▸ hlast stop hlie) (by rw [hend]; rfl)
  have hboth : cursor.Passes (text ++ rest) done := Cursor.Passes.trans hpass hrest
  have hall : cursor.ahead = text ++ rest := by
    rw [hboth.ahead, hdone, hend, List.append_nil]
  refine ⟨done, hall ▸ hboth, ?_⟩
  rw [hall, Context.moved_moved, Context.moved_moved, List.nil_append]

/-- The copy is held back: the output is as it was. -/
theorem captured_copies {body : String} (ht : s.target = .csharp) (hr : NeedsOnlyIf s False)
    (hkept : type.toMember.IsKept) (htext : begin.text = ctx.cursor.text)
    (hstart : begin.offset = type.header.extent.start) (hlast : type.IsLastFrom begin)
    (hindent : ctx.writer.indentation = 0)
    (h : captured (renderBody s none type) ctx = .ok body ctx') :
    body.toList = begin.ahead ∧
      ∃ cursor, cursor.text = ctx.cursor.text ∧ ctx' = ctx.moved cursor [] := by
  rw [show renderBody s none type = renderType s type from rfl] at h
  obtain ⟨inside, htype, rfl, rfl⟩ := captured_ok h
  have copied := fun htext => renderType_copies ht hr hkept htext hstart hlast htype
  obtain ⟨cursor, hpass, rfl⟩ := copied htext
  have hclose := Writer.closeCapture_added hindent begin.ahead
  refine ⟨?_, cursor, hpass.text_eq.trans htext, ?_⟩
  · exact (congrArg (·.1.toList) hclose).trans String.toList_ofList
  · exact (congrArg (fun closed => { ctx with cursor, writer := closed.2 }) hclose).trans
      (Context.moved_nil ..).symm

/-! ## Units -/

/-- A file that consists of a type that C# spells as Java does, and of white space and comments
around it, is written as it is. -/
theorem CompilationUnit.render_unchanged {u : CompilationUnit} {source out : String}
    {lead : List Char} (ht : s.target = .csharp) (hextra : s.extraImports = [])
    (himplicit : ∀ name, s.implicitImport? name = none) (hpackage : u.package = none)
    (himports : u.imports = []) (htypes : u.types = [type]) (hkept : type.toMember.IsKept)
    (hlead : (Cursor.ofText source).Passes lead begin) (hruns : Trivia.Runs lead begin.ahead)
    (hstart : begin.offset = type.header.extent.start) (hlast : type.IsLastFrom begin)
    (h : renderUnit s source true u = ⟨none, out⟩) : out = source := by
  have hr : NeedsOnlyIf s False := fun name hname => by
    rw [himplicit name] at hname
    cases hname
  obtain ⟨after, hrun, hout⟩ := runFrom_ok h
  obtain ⟨_, htypes', h⟩ := u.render_ok hrun
  cases htypes.symm.trans htypes'
  rw [renderWith, hpackage, himports, ← hstart] at h
  -- In the first round the type is held back.
  obtain ⟨_, ctx₁, hfirst, h⟩ := bind_ok.1 h
  obtain rfl := copyTriviaUntil_passes hlead hruns (Nat.le_refl _) (.inr rfl) hfirst
  have hindent : ((Writer.new true "\n").added lead).indentation = 0 :=
    Writer.indentation_added lead
  obtain ⟨body, ctx₂, hbody, h⟩ := bind_ok.1 h
  obtain ⟨hall, cursor, htext, rfl⟩ := captured_copies ht hr hkept rfl hstart hlast hindent hbody
  -- In the second round nothing is added to the head of the file.
  obtain ⟨_, ctx₃, hreturn, h⟩ := bind_ok.1 h
  have hsource : cursor.text = source.toList := htext.trans hlead.text_eq
  obtain rfl := returnToHead_none hlead hruns (Nat.le_refl _) (.inr rfl) hsource hreturn
  obtain ⟨_, ctx₄, hrest, h⟩ := bind_ok.1 h
  obtain rfl := copyTriviaUntil_passes (.refl begin) .nil (Nat.le_refl _) (.inr rfl) hrest
  obtain ⟨_, ctx₅, himported, h⟩ := bind_ok.1 h
  cases himported
  obtain ⟨_, ctx₆, hadd, h⟩ := bind_ok.1 h
  obtain ⟨_, _, hget, hadd⟩ := bind_ok.1 hadd
  cases hget
  rw [hextra] at hadd
  cases hadd
  obtain ⟨_, ctx₇, hgap, h⟩ := bind_ok.1 h
  obtain rfl := copyTriviaUntil_passes (.refl begin) .nil (Nat.le_refl _) (.inr rfl) hgap
  obtain ⟨_, ctx₈, hraw, h⟩ := bind_ok.1 h
  cases h
  obtain ⟨writer, hput, rfl⟩ := output_ok hraw
  simp only [Context.moved_moved, List.append_nil] at hput
  have hwritten := Writer.writeRaw_ok hindent hput
  rw [hall] at hwritten
  have hreceived := Writer.current_added_of_indentation_eq_zero (w := .new true "\n") rfl
    (lead ++ begin.ahead)
  rw [Writer.added_append, ← hlead.ahead] at hreceived
  have hreceiver : writer.captures = [] := by
    rw [hwritten]
    rfl
  have hout : writer.current = out := by
    rw [Writer.current, hreceiver]
    exact hout
  rw [← hout, hwritten]
  exact hreceived.trans (String.empty_append.trans String.ofList_toList)

/-- A class with comments before it. -/
theorem CompilationUnit.render_unchanged_class :
    (renderUnit (.ofTarget .csharp) "// l\n/* c */ class A \x7b int x; \x7d\n" true
      ⟨⟨0, 32⟩, none, [], [⟨⟨⟨5, 31⟩, .class, [], ⟨⟨19, 20⟩, "A"⟩, [], none, []⟩,
        [.field ⟨⟨23, 29⟩, [], .primitive ⟨23, 26⟩ .int,
          [⟨⟨27, 28⟩, ⟨⟨27, 28⟩, "x"⟩, 0, none⟩]⟩]⟩]⟩).received =
      "// l\n/* c */ class A \x7b int x; \x7d\n" := by
  let start : Cursor := .ofText "// l\n/* c */ class A \x7b int x; \x7d\n"
  have passes (n m : Nat) := (start.pass n).passes_pass m
  have hline : Trivia.Runs ("// l".toList ++ "\n".toList) (start.pass 5).ahead :=
    .append (.single rfl) (.single rfl)
  have hcomment : Trivia.Runs ("/* c */".toList ++ " ".toList) (start.pass 13).ahead :=
    .append (.single rfl) (.single rfl)
  have hlead : start.Passes "// l\n".toList (start.pass 5) := start.passes_pass 5
  have succeeds (run : Outcome) (h : run.error = none) : run = ⟨none, run.received⟩ := by
    rw [← h]
  refine CompilationUnit.render_unchanged rfl rfl (fun _ => by rfl) rfl rfl rfl ?_ hlead hline
    (by rfl) (fun stop hstop => ?_) (succeeds _ (by decide +kernel))
  · have hname {identifier : String} (h : Target.csharp.isReserved identifier = false) :
        ∀ edit ∈ [Edit.name identifier], edit.IsKept := List.forall_mem_singleton.2 h
    have htype : ∀ edit ∈ [Edit.primitive .int], edit.IsKept :=
      List.forall_mem_singleton.2 ⟨nofun, nofun⟩
    have hfragment : Fragment.IsKept ⟨⟨27, 28⟩, ⟨⟨27, 28⟩, "x"⟩, 0, none⟩ :=
      ⟨hname (by decide), nofun⟩
    exact ⟨⟨nofun, hname (by decide), rfl, rfl⟩,
      ⟨nofun, ⟨trivial, htype⟩, List.forall_mem_singleton.2 hfragment⟩, trivial⟩
  · have hlie : Layout.LieAfter
        (["class", "A", "\x7b", "int", "x", ";", "\x7d"].map .token) (start.pass 5)
        (start.pass 31) := by
      refine ⟨_, _, _, passes 5 8, hcomment, ⟨rfl, passes 13 5⟩, ?_⟩
      refine ⟨_, _, _, passes 18 1, .single rfl, ⟨rfl, passes 19 1⟩, ?_⟩
      refine ⟨_, _, _, passes 20 1, .single rfl, ⟨rfl, passes 21 1⟩, ?_⟩
      refine ⟨_, _, _, passes 22 1, .single rfl, ⟨rfl, passes 23 3⟩, ?_⟩
      refine ⟨_, _, _, passes 26 1, .single rfl, ⟨rfl, passes 27 1⟩, ?_⟩
      refine ⟨[], _, _, .refl _, .nil, ⟨rfl, passes 28 1⟩, ?_⟩
      exact ⟨_, _, _, passes 29 1, .single rfl, ⟨rfl, passes 30 1⟩, rfl⟩
    rw [hstop.right_unique hlie]
    exact .single rfl

end

end Lockstep.Tree
