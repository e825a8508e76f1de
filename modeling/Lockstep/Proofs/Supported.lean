import Lockstep.Proofs.NodeWalk
import Lockstep.Proofs.Refusals

/-!
# What goes through is supported

The script of a node holds the scripts of the nodes below it, and it refuses where the node has what
no target has a form for. So a rendering that succeeds has looked at all nodes inside, but for those
that are passed unread: the names of packages, imports and annotations, and the exceptions that a
method declares.

- `Node.children`, `Node.Holds`: the nodes inside a node.
- `Node.IsPlain`, `Node.InPlace`: what no target can do without, and where Swift has steps.
- `Node.Cleared`: the invariant, carried from a node to those below it by `Node.cleared_part`.
- `Node.render_supported`: the theorem about nodes.
-/

namespace Lockstep

open Config Render Target Text Lockstep.Tree

/-! ## The nodes inside a node -/

namespace Tree

def Name.children : Name → List Node
  | .simple _ => []
  | .qualified _ qualifier n _ => [.name qualifier, .name (.simple n)]

def TypeRef.children : TypeRef → List Node
  | .primitive .. | .wildcard _ => []
  | .named _ n _ => [.name n]
  | .array _ element _ => [.type element]
  | .parameterized _ base arguments => .type base :: arguments.map .type

def Expr.children : Expr → List Node
  | .name n => n.children
  | .literal .. | .boolean .. | .null _ | .other .. => []
  | .this _ qualifier => qualifier.toList.map .name
  | .parenthesized _ inner => [.expr inner]
  | .binary _ left _ right more => .expr left :: .expr right :: more.map .expr
  | .unary _ _ operand | .step _ operand _ => [.expr operand]
  | .assign _ left _ right => [.expr left, .expr right]
  | .conditional _ condition positive negative => [.expr condition, .expr positive, .expr negative]
  | .call _ receiver typeArguments n arguments _ =>
    receiver.toList.map .expr ++ typeArguments.map .type ++
      .name (.simple n) :: arguments.map .expr
  | .superCall _ qualifier typeArguments n arguments _ =>
    qualifier.toList.map .name ++ typeArguments.map .type ++
      .name (.simple n) :: arguments.map .expr
  | .field _ object n _ => [.expr object, .name (.simple n)]
  | .superField _ qualifier n _ => qualifier.toList.map .name ++ [.name (.simple n)]
  | .index _ array position => [.expr array, .expr position]
  | .create _ outer typeArguments type arguments _ =>
    outer.toList.map .expr ++ typeArguments.map .type ++ .type type :: arguments.map .expr
  | .cast _ type operand => [.type type, .expr operand]
  | .instanceOf _ left type => [.expr left, .type type]

def Fragment.children (f : Fragment) : List Node :=
  .name (.simple f.name) :: f.initial.toList.map .expr

def Stmt.children : Stmt → List Node
  | .block _ statements => statements.map .stmt
  | .expression _ expr => [.expr expr]
  | .declare _ modifiers type fragments =>
    modifiers.map .modifier ++ .type type :: fragments.map .fragment
  | .returns _ value => value.toList.map .expr
  | .ifElse _ condition positive negative =>
    .expr condition :: .stmt positive :: negative.toList.map .stmt
  | .whileLoop _ condition body => [.expr condition, .stmt body]
  | .doLoop _ body condition => [.stmt body, .expr condition]
  | .empty _ | .other .. => []
  | .jump _ _ label => label.toList.map fun n => .name (.simple n)
  | .throws _ value => [.expr value]

def Parameter.children (p : Parameter) : List Node :=
  p.modifiers.map .modifier ++ [.type p.type, .name (.simple p.name)]

def FieldDecl.children (f : FieldDecl) : List Node :=
  f.modifiers.map .modifier ++ .type f.type :: f.fragments.map .fragment

/-- The exceptions that a method declares are left out. -/
def MethodDecl.children (m : MethodDecl) : List Node :=
  m.modifiers.map .modifier ++ m.returnType.toList.map .type ++ .name (.simple m.name) ::
    m.parameters.map .parameter ++ m.body.toList.map fun body => .stmt body.toStmt

def TypeHeader.children (h : TypeHeader) : List Node :=
  h.modifiers.map .modifier ++ .name (.simple h.name) ::
    h.superclass.toList.map .type ++ h.interfaces.map .type

def Member.children : Member → List Node
  | .field f => f.children
  | .method m => m.children
  | .type h members => h.children ++ members.map .member
  | .setup _ => []

def CompilationUnit.children (u : CompilationUnit) : List Node :=
  u.package.toList.map .package ++ u.imports.map .imported ++
    u.types.map fun type => .member type.toMember

/-- The nodes right below a node. The names of packages, imports and annotations are left out. -/
def Node.children : Node → List Node
  | .unit u => u.children
  | .package _ | .imported _ | .modifier _ => []
  | .member m => m.children
  | .parameter p => p.children
  | .fragment f => f.children
  | .type t => t.children
  | .name n => n.children
  | .expr e => e.children
  | .stmt t => t.children

/-- The nodes in a node, itself included, each with the node right above it. -/
inductive Node.Holds (root : Node) : Option Node → Node → Prop
  | self : root.Holds none root
  | part {above : Option Node} {n p : Node} (h : root.Holds above n) (hp : p ∈ n.children) :
      root.Holds (some n) p

/-! ## What no target can do without -/

/-- A type that is written out in full. -/
def TypeRef.IsPlain : TypeRef → Prop
  | .primitive .. | .named .. | .array .. => True
  | .parameterized .. | .wildcard _ => False

/-- Nothing hangs on the expression that has no counterpart, and what is called is known. -/
def Expr.IsPlain : Expr → Prop
  | .this _ qualifier | .superField _ qualifier _ _ => qualifier = none
  | .call _ _ typeArguments _ _ binding => typeArguments = [] ∧ binding.isSome
  | .superCall _ qualifier typeArguments _ _ binding =>
    qualifier = none ∧ typeArguments = [] ∧ binding.isSome
  | .create _ outer typeArguments _ _ body => outer = none ∧ typeArguments = [] ∧ body = none
  | .other .. => False
  | _ => True

def Stmt.IsPlain : Stmt → Prop
  | .jump _ _ label => label = none
  | .other .. => False
  | _ => True

def Member.IsPlain : Member → Prop
  | .field _ => True
  | .method m => m.typeParameters = [] ∧ m.extraDimensions = 0
  | .type h _ => h.form ≠ .enum ∧ h.form ≠ .annotationType ∧ h.typeParameters = []
  | .setup _ => False

/-- A modifier is a keyword, or an annotation without arguments that the settings know. -/
def Modifier.IsPlain (s : Settings) : Modifier → Prop
  | .word .. => True
  | .annotated mark => mark.form = .marker ∧ (s.mark? mark.qualifiedName).isSome

/-- The node itself is of a form that can be rendered. -/
def Node.IsPlain (s : Settings) : Node → Prop
  | .unit _ | .package _ | .imported _ | .name _ => True
  | .member m => m.IsPlain
  | .parameter p => p.extraDimensions = 0
  | .fragment f => f.extraDimensions = 0
  | .modifier m => m.IsPlain s
  | .type t => t.IsPlain
  | .expr e => e.IsPlain
  | .stmt t => t.IsPlain

/-- Whether the expression adds one to a variable or takes one off. -/
def Expr.isStep : Expr → Bool
  | .unary _ .increment _ | .unary _ .decrement _ | .step .. => true
  | _ => false

/-- A step of a variable is all of an expression statement. -/
def Node.InPlace (above : Option Node) : Node → Prop
  | .expr e => e.isStep = true → ∃ extent, above = some (.stmt (.expression extent e))
  | _ => True

/-- A declaration of variables declares one. -/
def Node.NamesVariables : Node → Prop
  | .member (.field f) => f.fragments ≠ []
  | .stmt (.declare _ _ _ fragments) => fragments ≠ []
  | _ => True

/-! ## The invariant -/

/-- The script of an expression, which is another one where it stands as a statement of Swift. -/
def Expr.scriptBelow (s : Settings) (above : Option Node) (e : Expr) : Script :=
  match above with
  | some (.stmt (.expression ..)) => if s.target == .swift then swiftStep s e else e.script s
  | _ => e.script s

/-- Nothing is refused where the node is rendered, below the node above it. -/
def Node.Cleared (s : Settings) (above : Option Node) : Node → Prop
  | .unit u =>
    s.target.supports .compilationUnit = true ∧
      (∀ i ∈ u.imports, s.target.supports .importDeclaration = true) ∧
      ∃ type, u.types = [type] ∧ Step.AllClear (type.script s)
  | .package _ => s.target.supports .packageDeclaration = true
  | .imported _ => s.target.supports .importDeclaration = true
  | .member m => Step.AllClear (m.script s)
  | .parameter p => Step.AllClear (p.script s)
  | .fragment f => Step.AllClear (f.script s)
  | .modifier m => Step.AllClear (m.script s)
  | .type t => Step.AllClear (t.script s)
  | .name n => Step.AllClear (n.script s)
  | .expr e => Step.AllClear (e.scriptBelow s above)
  | .stmt t => Step.AllClear (t.script s)

variable {s : Settings}

/-! ## Names, types and expressions -/

theorem supports_name (target : Target) (n : Name) : target.supports n.kind = true := by
  cases n <;> cases target <;> rfl

theorem Name.script_clear (n : Name) : Step.AllClear (n.script s) := by
  induction n with
  | simple n => exact allClear_node.2 ⟨supports_name _ (.simple n), trivial, trivial⟩
  | qualified extent qualifier n binding ih =>
    have hname : Step.AllClear (n.script s) :=
      allClear_node.2 ⟨supports_name _ (.simple n), trivial, trivial⟩
    refine allClear_node.2 ⟨supports_name _ (.qualified extent qualifier n binding), ?_⟩
    simp [ih, hname]

theorem Name.cleared_parts (n : Name) (above : Option Node) :
    ∀ p ∈ n.children, p.Cleared s above := by
  cases n with
  | simple => exact List.forall_mem_nil _
  | qualified extent qualifier n binding =>
    exact List.forall_mem_cons.2 ⟨qualifier.script_clear, List.forall_mem_singleton.2
      (Name.script_clear (.simple n))⟩

theorem TypeRef.cleared {t : TypeRef} (h : Step.AllClear (t.script s)) :
    s.target.supports t.kind = true ∧ t.IsPlain ∧
      ∀ p ∈ t.children, p.Cleared s (some (.type t)) := by
  cases t with
  | primitive => exact ⟨(allClear_node.1 h).1, trivial, List.forall_mem_nil _⟩
  | named extent n binding =>
    exact ⟨(allClear_node.1 h).1, trivial, List.forall_mem_singleton.2 n.script_clear⟩
  | array extent element dimensions =>
    simp only [TypeRef.script, allClear_node, allClear_arrayScript] at h
    exact ⟨h.1, trivial, List.forall_mem_singleton.2 h.2⟩
  | parameterized | wildcard => exact absurd (allClear_node.1 h).2 not_allClear_refuse

theorem Expr.allClear_operandScripts {op : BinaryOp} {es : List Expr} :
    (∀ x ∈ Expr.operandScripts s op es, Step.AllClear x) ↔
      ∀ e ∈ es, Step.AllClear (e.script s) := by
  induction es with
  | nil => simp [Expr.operandScripts]
  | cons e es ih => simp [Expr.operandScripts, ih]

@[simp]
theorem cleared_name {n : Name} {above : Option Node} : (Node.name n).Cleared s above :=
  n.script_clear

@[simp]
theorem cleared_type {t : TypeRef} {above : Option Node} :
    (Node.type t).Cleared s above ↔ Step.AllClear (t.script s) := Iff.rfl

@[simp]
theorem cleared_expr_of_expr {e above : Expr} :
    (Node.expr e).Cleared s (some (.expr above)) ↔ Step.AllClear (e.script s) := Iff.rfl

@[simp]
theorem allClear_simpleName {n : SimpleName} : Step.AllClear (n.script s) :=
  Name.script_clear (.simple n)

/-- Nothing but a step gives Swift reason to look at where the expression stands. -/
theorem Expr.cleared {e : Expr} (h : Step.AllClear (e.script s)) :
    s.target.supports e.kind = true ∧ e.IsPlain ∧ (s.target = .swift → e.isStep = false) ∧
      ∀ p ∈ e.children, p.Cleared s (some (.expr e)) := by
  cases e with
  | name n => exact ⟨supports_name _ n, trivial, fun _ => rfl, n.cleared_parts _⟩
  | literal | boolean | null =>
    exact ⟨(allClear_node.1 h).1, trivial, fun _ => rfl, List.forall_mem_nil _⟩
  | other => exact absurd (allClear_node.1 h).2 not_allClear_refuse
  | this extent qualifier =>
    cases qualifier with
    | none => exact ⟨(allClear_node.1 h).1, rfl, fun _ => rfl, List.forall_mem_nil _⟩
    | some n => exact absurd (allClear_node.1 h).2 not_allClear_refuse
  | parenthesized extent inner =>
    obtain ⟨hkind, hinner⟩ : s.target.supports .parenthesizedExpression = true ∧
        Step.AllClear (inner.script s) := by
      simpa [Expr.script] using h
    exact ⟨hkind, trivial, fun _ => rfl, List.forall_mem_singleton.2 hinner⟩
  | binary extent left op right more =>
    obtain ⟨hkind, h⟩ := allClear_node.1 h
    refine ⟨hkind, trivial, fun _ => rfl, ?_⟩
    cases hop : s.target.binaryToken? op with
    | some replacement =>
      simpa [hop, Expr.children, Expr.allClear_operandScripts] using h
    | none => simpa [hop, Expr.children, Expr.scripts_eq_map] using h
  | unary extent op operand =>
    obtain ⟨hkind, h⟩ := allClear_node.1 h
    cases hop : s.target.unaryToken? op with
    | none => simp [hop] at h
    | some replacement =>
      refine ⟨hkind, trivial, fun hswift => ?_, by simpa [hop, Expr.children] using h⟩
      rw [hswift] at hop
      cases op <;> first | rfl | cases hop
  | step extent operand op =>
    obtain ⟨hkind, h⟩ := allClear_node.1 h
    cases hop : s.target.stepToken? op with
    | none => simp [hop] at h
    | some replacement =>
      refine ⟨hkind, trivial, fun hswift => ?_, by simpa [hop, Expr.children] using h⟩
      rw [hswift] at hop
      cases hop
  | assign extent left op right =>
    obtain ⟨hkind, h⟩ := allClear_node.1 h
    refine ⟨hkind, trivial, fun _ => rfl, ?_⟩
    cases hop : s.target.assignToken? op with
    | some replacement => simpa [hop, Expr.children] using h
    | none =>
      simp only [hop] at h
      split at h
      · simpa [assignByCall, Expr.children] using h
      · exact absurd h not_allClear_refuse
  | conditional extent condition positive negative =>
    obtain ⟨hkind, h⟩ := allClear_node.1 h
    exact ⟨hkind, trivial, fun _ => rfl, by simpa [Expr.children] using h⟩
  | call extent receiver typeArguments n arguments binding =>
    obtain ⟨hkind, h⟩ := allClear_node.1 h
    cases binding with
    | none => exact absurd h not_allClear_missingBinding
    | some binding =>
      cases typeArguments with
      | cons => exact absurd h not_allClear_refuse
      | nil =>
        refine ⟨hkind, ⟨rfl, rfl⟩, fun _ => rfl, ?_⟩
        cases receiver <;>
          simpa [Expr.receiverScript, Expr.scripts_eq_map, Expr.children] using h
  | superCall extent qualifier typeArguments n arguments binding =>
    obtain ⟨hkind, h⟩ := allClear_node.1 h
    cases qualifier with
    | some => exact absurd h not_allClear_refuse
    | none =>
      cases binding with
      | none => exact absurd h not_allClear_missingBinding
      | some binding =>
        cases typeArguments with
        | cons => exact absurd h not_allClear_refuse
        | nil =>
          refine ⟨hkind, ⟨rfl, rfl, rfl⟩, fun _ => rfl, ?_⟩
          cases hword : s.target.profile.superWord with
          | none => simp [hword] at h
          | some word =>
            simpa [hword, memberScript, Expr.scripts_eq_map, Expr.children] using h
  | field extent object n binding =>
    obtain ⟨hkind, h⟩ := allClear_node.1 h
    cases haccess : memberAccess? s.target binding with
    | none => simp [haccess] at h
    | some access =>
      exact ⟨hkind, trivial, fun _ => rfl,
        by simpa [haccess, memberScript, Expr.children] using h⟩
  | superField extent qualifier n binding =>
    obtain ⟨hkind, h⟩ := allClear_node.1 h
    cases qualifier with
    | some => exact absurd h not_allClear_refuse
    | none => exact ⟨hkind, rfl, fun _ => rfl, List.forall_mem_singleton.2 cleared_name⟩
  | index extent array position =>
    obtain ⟨hkind, h⟩ := allClear_node.1 h
    exact ⟨hkind, trivial, fun _ => rfl, by simpa [Expr.children] using h⟩
  | create extent outer typeArguments type arguments body =>
    obtain ⟨hkind, h⟩ := allClear_node.1 h
    cases outer with
    | some => exact absurd h not_allClear_refuse
    | none =>
      cases typeArguments with
      | cons => exact absurd h not_allClear_refuse
      | nil =>
        cases body with
        | some => exact absurd h not_allClear_refuse
        | none =>
          replace h : Step.AllClear (_ ++ type.script s ++ [.copyTrivia] ++
              Script.arguments (Expr.scripts s arguments)) := h
          simp only [allClear_append, allClear_arguments, Expr.scripts_eq_map,
            List.forall_mem_map] at h
          obtain ⟨⟨⟨-, htype⟩, -⟩, harguments⟩ := h
          exact ⟨hkind, ⟨rfl, rfl, rfl⟩, fun _ => rfl,
            List.forall_mem_cons.2 ⟨htype, List.forall_mem_map.2 harguments⟩⟩
  | cast extent type operand =>
    obtain ⟨hkind, h⟩ := allClear_node.1 h
    exact ⟨hkind, trivial, fun _ => rfl, by simpa [Expr.children] using h⟩
  | instanceOf extent left type =>
    obtain ⟨hkind, h⟩ := allClear_node.1 h
    cases hword : s.target.profile.instanceOfWord with
    | none => simp [hword] at h
    | some word =>
      exact ⟨hkind, trivial, fun _ => rfl, by simpa [hword, Expr.children] using h⟩

/-! ## Modifiers, variables and statements -/

theorem Modifier.cleared {m : Modifier} (h : Step.AllClear (m.script s)) :
    s.target.supports m.kind = true ∧ m.IsPlain s := by
  cases m with
  | word => exact ⟨(allClear_node.1 h).1, trivial⟩
  | annotated mark =>
    obtain ⟨hkind, h⟩ := allClear_node.1 h
    refine ⟨hkind, ?_⟩
    by_cases hform : mark.form = .marker
    · cases hmark : s.mark? mark.qualifiedName with
      | none => simp [markScript, hform, hmark] at h
      | some rule => exact ⟨hform, by rw [hmark]; rfl⟩
    · simp [markScript, hform] at h

@[simp]
theorem allClear_modifiersScript {declaration : Declaration} {modifiers : List Modifier} :
    Step.AllClear (modifiersScript s declaration modifiers) ↔
      ∀ m ∈ modifiers, Step.AllClear (m.script s) := by
  simp [modifiersScript, allClear_flatMap]

theorem Fragment.allClear_body {f : Fragment} {type : Option TypeRef}
    (h : Step.AllClear (f.body s type)) :
    Step.AllClear (f.script s) ∧ ∀ t ∈ type, Step.AllClear (t.script s) := by
  have hkind : s.target.supports .variableDeclarationFragment = true := by cases s.target <;> rfl
  unfold Fragment.script
  rw [allClear_node]
  unfold Fragment.body at h ⊢
  split at h
  · exact absurd h not_allClear_refuse
  · next hdims =>
    rw [if_neg hdims]
    cases type with
    | none => exact ⟨⟨hkind, h⟩, fun t ht => nomatch ht⟩
    | some type =>
      simp only [allClear_append] at h ⊢
      obtain ⟨⟨hname, -, htype, -⟩, hinitial⟩ := h
      refine ⟨⟨hkind, ⟨hname, trivial⟩, hinitial⟩, ?_⟩
      rintro _ ⟨⟩
      exact htype

/-- Swift renders the type after each variable, so a declaration without any would pass it
unread. -/
theorem allClear_of_variablesScript {modifiers : List Modifier} {type : TypeRef}
    {fragments : List Fragment} (hne : fragments ≠ [])
    (h : Step.AllClear (variablesScript s modifiers type fragments)) :
    Step.AllClear (type.script s) ∧ ∀ f ∈ fragments, Step.AllClear (f.script s) := by
  unfold variablesScript at h
  split at h
  · have hbodies : ∀ f ∈ fragments, Step.AllClear (f.body s (some type)) := by
      simpa using h
    obtain ⟨first, rest, rfl⟩ := List.exists_cons_of_ne_nil hne
    have htype := (Fragment.allClear_body (hbodies first List.mem_cons_self)).2
    exact ⟨htype type rfl, fun f hf => (Fragment.allClear_body (hbodies f hf)).1⟩
  · obtain ⟨htype, hbodies⟩ : Step.AllClear (type.script s) ∧
        ∀ f ∈ fragments, Step.AllClear (f.body s none) := by
      simpa using h
    exact ⟨htype, fun f hf => (Fragment.allClear_body (hbodies f hf)).1⟩

theorem Fragment.cleared {f : Fragment} (h : Step.AllClear (f.script s)) :
    s.target.supports .variableDeclarationFragment = true ∧ f.extraDimensions = 0 ∧
      ∀ p ∈ f.children, p.Cleared s (some (.fragment f)) := by
  obtain ⟨hkind, h⟩ := allClear_node.1 h
  unfold Fragment.body at h
  split at h
  · exact absurd h not_allClear_refuse
  · next hdims =>
    refine ⟨hkind, by simpa using hdims, List.forall_mem_cons.2 ⟨cleared_name, ?_⟩⟩
    cases hinitial : f.initial with
    | none => exact List.forall_mem_nil _
    | some e =>
      have hvalue : Step.AllClear (e.script s) := by simpa [hinitial] using h
      exact List.forall_mem_singleton.2 hvalue

theorem Stmt.allClear_scripts {statements : List Stmt} :
    Step.AllClear (Stmt.scripts s statements) ↔ ∀ t ∈ statements, Step.AllClear (t.script s) := by
  induction statements with
  | nil => simp [Stmt.scripts]
  | cons t rest ih => simp [Stmt.scripts, ih]

@[simp]
theorem allClear_conditionScript {condition : Expr} :
    Step.AllClear (conditionScript s condition) ↔ Step.AllClear (condition.script s) := by
  simp [conditionScript]

theorem Stmt.allClear_elseScript {negative : Option Stmt}
    (h : Step.AllClear (Stmt.elseScript s negative)) :
    ∀ t ∈ negative, Step.AllClear (t.script s) := by
  rintro t ⟨⟩
  rw [Stmt.elseScript, allClear_append, allClear_cons] at h
  exact h.2.2

@[simp]
theorem cleared_modifier {m : Modifier} {above : Option Node} :
    (Node.modifier m).Cleared s above ↔ Step.AllClear (m.script s) := Iff.rfl

@[simp]
theorem cleared_fragment {f : Fragment} {above : Option Node} :
    (Node.fragment f).Cleared s above ↔ Step.AllClear (f.script s) := Iff.rfl

@[simp]
theorem cleared_stmt {t : Stmt} {above : Option Node} :
    (Node.stmt t).Cleared s above ↔ Step.AllClear (t.script s) := Iff.rfl

theorem Stmt.cleared {t : Stmt} (hnames : (Node.stmt t).NamesVariables)
    (h : Step.AllClear (t.script s)) :
    s.target.supports t.kind = true ∧ t.IsPlain ∧
      ∀ p ∈ t.children, p.Cleared s (some (.stmt t)) := by
  cases t with
  | block extent statements =>
    obtain ⟨hkind, h⟩ := allClear_node.1 h
    have hstatements : ∀ t ∈ statements, Step.AllClear (t.script s) := by
      simpa [Stmt.allClear_scripts] using h
    exact ⟨hkind, trivial, List.forall_mem_map.2 hstatements⟩
  | expression extent expr =>
    obtain ⟨hkind, h⟩ := allClear_node.1 h
    exact ⟨hkind, trivial, List.forall_mem_singleton.2 (allClear_append.1 h).1⟩
  | declare extent modifiers type fragments =>
    obtain ⟨hkind, hmodifiers, hvariables⟩ : s.target.supports .variableDeclarationStatement =
        true ∧ (∀ m ∈ modifiers, Step.AllClear (m.script s)) ∧
        Step.AllClear (variablesScript s modifiers type fragments) := by
      simpa [Stmt.script] using h
    obtain ⟨htype, hfragments⟩ := allClear_of_variablesScript hnames hvariables
    simp only [Stmt.children, List.forall_mem_append, List.forall_mem_cons, List.forall_mem_map]
    exact ⟨hkind, trivial, hmodifiers, htype, hfragments⟩
  | returns extent value =>
    obtain ⟨hkind, h⟩ := allClear_node.1 h
    refine ⟨hkind, trivial, ?_⟩
    cases value with
    | none => exact List.forall_mem_nil _
    | some e =>
      have hvalue : Step.AllClear (e.script s) := by simpa using h
      exact List.forall_mem_singleton.2 hvalue
  | ifElse extent condition positive negative =>
    obtain ⟨hkind, h⟩ := allClear_node.1 h
    simp only [allClear_append, allClear_conditionScript] at h
    obtain ⟨⟨⟨⟨⟨-, hcondition⟩, -⟩, -⟩, hpositive⟩, hnegative⟩ := h
    simp only [Stmt.children, List.forall_mem_cons, List.forall_mem_map, Option.mem_toList]
    exact ⟨hkind, trivial, hcondition, hpositive, Stmt.allClear_elseScript hnegative⟩
  | whileLoop extent condition body =>
    obtain ⟨hkind, h⟩ := allClear_node.1 h
    simp only [allClear_append, allClear_conditionScript] at h
    obtain ⟨⟨⟨⟨-, hcondition⟩, -⟩, -⟩, hbody⟩ := h
    simp only [Stmt.children, List.forall_mem_cons]
    exact ⟨hkind, trivial, hcondition, hbody, List.forall_mem_nil _⟩
  | doLoop extent body condition =>
    obtain ⟨hkind, h⟩ := allClear_node.1 h
    simp only [allClear_append, allClear_conditionScript] at h
    obtain ⟨⟨⟨⟨-, hbody⟩, -⟩, hcondition⟩, -⟩ := h
    simp only [Stmt.children, List.forall_mem_cons]
    exact ⟨hkind, trivial, hbody, hcondition, List.forall_mem_nil _⟩
  | empty => exact ⟨(allClear_node.1 h).1, trivial, List.forall_mem_nil _⟩
  | jump word extent label =>
    obtain ⟨hkind, h⟩ := allClear_node.1 h
    cases label with
    | none => exact ⟨hkind, rfl, List.forall_mem_nil _⟩
    | some n => exact absurd h not_allClear_refuse
  | throws extent value =>
    obtain ⟨hkind, h⟩ := allClear_node.1 h
    have hvalue : Step.AllClear (value.script s) := by simpa using h
    exact ⟨hkind, trivial, List.forall_mem_singleton.2 hvalue⟩
  | other => exact absurd (allClear_node.1 h).2 not_allClear_refuse

/-! ## Declarations -/

@[simp]
theorem cleared_parameter {p : Parameter} {above : Option Node} :
    (Node.parameter p).Cleared s above ↔ Step.AllClear (p.script s) := Iff.rfl

@[simp]
theorem cleared_member {m : Member} {above : Option Node} :
    (Node.member m).Cleared s above ↔ Step.AllClear (m.script s) := Iff.rfl

theorem Parameter.cleared {p : Parameter} (h : Step.AllClear (p.script s)) :
    s.target.supports .singleVariableDeclaration = true ∧ p.extraDimensions = 0 ∧
      ∀ q ∈ p.children, q.Cleared s (some (.parameter p)) := by
  obtain ⟨hkind, h⟩ := allClear_node.1 h
  split at h
  · exact absurd h not_allClear_refuse
  · next hdims =>
    rw [allClear_append, allClear_modifiersScript] at h
    have htype : Step.AllClear (p.type.script s) := by
      obtain ⟨_, h⟩ := h
      split at h
      · simp only [swiftParameter, allClear_append] at h
        obtain ⟨⟨⟨⟨⟨-, -⟩, -⟩, -⟩, -, htype, -⟩, -⟩ := h
        exact htype
      · simp only [plainParameter, allClear_append] at h
        obtain ⟨⟨⟨⟨-, htype⟩, -⟩, -⟩, -⟩ := h
        exact htype
    refine ⟨hkind, by simpa using hdims, ?_⟩
    simp only [Parameter.children, List.forall_mem_append, List.forall_mem_cons,
      List.forall_mem_map]
    exact ⟨h.1, htype, cleared_name, List.forall_mem_nil _⟩

theorem FieldDecl.cleared {f : FieldDecl} (hnames : f.fragments ≠ [])
    (h : Step.AllClear (f.script s)) :
    s.target.supports .fieldDeclaration = true ∧
      ∀ p ∈ f.children, p.Cleared s (some (.member (.field f))) := by
  obtain ⟨hkind, hmodifiers, hvariables⟩ : s.target.supports .fieldDeclaration = true ∧
      (∀ m ∈ f.modifiers, Step.AllClear (m.script s)) ∧
      Step.AllClear (variablesScript s f.modifiers f.type f.fragments) := by
    simpa [FieldDecl.script] using h
  obtain ⟨htype, hfragments⟩ := allClear_of_variablesScript hnames hvariables
  simp only [FieldDecl.children, List.forall_mem_append, List.forall_mem_cons, List.forall_mem_map]
  exact ⟨hkind, hmodifiers, htype, hfragments⟩

/-- The result type is read before the name or, in Swift, after the parameters; only the absence of
a result is passed unread there. -/
theorem MethodDecl.allClear_returnType {m : MethodDecl} (hname : Step.AllClear (m.nameScript s))
    (hresult : Step.AllClear (m.resultScript s)) :
    ∀ t ∈ m.returnType, Step.AllClear (t.script s) := by
  intro t ht
  unfold MethodDecl.nameScript at hname
  unfold MethodDecl.resultScript at hresult
  rw [Option.mem_def.1 ht] at hname hresult
  cases hswift : s.target == .swift with
  | false =>
    simp only [hswift, allClear_append] at hname
    exact hname.1.1
  | true =>
    cases hvoid : t.isVoid with
    | false =>
      simpa [hswift, hvoid] using hresult
    | true =>
      have hkind : s.target.supports .primitiveType = true := by cases s.target <;> rfl
      cases t with
      | primitive => exact allClear_node.2 ⟨hkind, trivial, trivial⟩
      | named | array | parameterized | wildcard => cases hvoid

@[simp]
theorem allClear_refuseTypeParameters {target : Target} {parameters : List Extent} :
    Step.AllClear (refuseTypeParameters target parameters) ↔ parameters = [] := by
  cases parameters <;> simp [refuseTypeParameters]

theorem MethodDecl.cleared {m : MethodDecl} (h : Step.AllClear (m.script s)) :
    s.target.supports .methodDeclaration = true ∧
      (m.typeParameters = [] ∧ m.extraDimensions = 0) ∧
      ∀ p ∈ m.children, p.Cleared s (some (.member (.method m))) := by
  obtain ⟨hkind, h⟩ := allClear_node.1 h
  simp only [allClear_append, allClear_refuseTypeParameters, allClear_modifiersScript,
    allClear_arguments, List.forall_mem_map] at h
  obtain ⟨⟨⟨⟨⟨⟨⟨⟨⟨hparameters, hdims⟩, -⟩, hmodifiers⟩, hname⟩, -⟩, hlist⟩, -⟩, hresult⟩,
    hbody⟩ := h
  have hbody : ∀ body ∈ m.body, Step.AllClear (body.toStmt.script s) := by
    intro body hmem
    unfold MethodDecl.bodyScript at hbody
    rw [Option.mem_def.1 hmem] at hbody
    exact hbody.2
  refine ⟨hkind, ⟨hparameters, ?_⟩, ?_⟩
  · split at hdims
    · exact absurd hdims not_allClear_refuse
    · next hzero => simpa using hzero
  · simp only [MethodDecl.children, List.forall_mem_append, List.forall_mem_cons,
      List.forall_mem_map, Option.mem_toList]
    have htype := MethodDecl.allClear_returnType hname hresult
    exact ⟨⟨⟨hmodifiers, htype⟩, cleared_name, hlist⟩, hbody⟩

theorem TypeHeader.cleared {h : TypeHeader} {above : Option Node}
    (hclear : Step.AllClear (h.script s)) :
    h.typeParameters = [] ∧ ∀ p ∈ h.children, p.Cleared s above := by
  simp only [TypeHeader.script, allClear_append, allClear_refuseTypeParameters,
    allClear_modifiersScript] at hclear
  obtain ⟨⟨⟨⟨⟨⟨⟨hparameters, -⟩, hmodifiers⟩, -⟩, -⟩, -⟩, hbases⟩, -⟩ := hclear
  have hsuper : ∀ t ∈ h.superclass, Step.AllClear (t.script s) := by
    intro t ht
    rw [TypeHeader.basesScript, Option.mem_def.1 ht, allClear_append, allClear_append] at hbases
    exact hbases.1.2
  have hinterfaces : ∀ t ∈ h.interfaces, Step.AllClear (t.script s) := by
    intro t ht
    have hne : ¬ h.interfaces.isEmpty = true := by simp [List.ne_nil_of_mem ht]
    simp only [TypeHeader.basesScript, allClear_append, if_neg hne, allClear_commaSeparated,
      List.forall_mem_map] at hbases
    exact hbases.2.2 t ht
  refine ⟨hparameters, ?_⟩
  simp only [TypeHeader.children, List.forall_mem_append, List.forall_mem_cons, List.forall_mem_map,
    Option.mem_toList]
  exact ⟨⟨hmodifiers, cleared_name, hsuper⟩, hinterfaces⟩

theorem Member.allClear_scripts {members : List Member} :
    Step.AllClear (Member.scripts s members) ↔ ∀ m ∈ members, Step.AllClear (m.script s) := by
  induction members with
  | nil => simp [Member.scripts]
  | cons m rest ih => simp [Member.scripts, ih]

theorem Member.cleared {m : Member} (hnames : (Node.member m).NamesVariables)
    (h : Step.AllClear (m.script s)) :
    s.target.supports m.kind = true ∧ m.IsPlain ∧
      ∀ p ∈ m.children, p.Cleared s (some (.member m)) := by
  cases m with
  | field f =>
    rw [Member.script] at h
    obtain ⟨hkind, hparts⟩ := FieldDecl.cleared hnames h
    exact ⟨hkind, trivial, hparts⟩
  | method m =>
    rw [Member.script] at h
    exact MethodDecl.cleared h
  | type header members =>
    rw [Member.script, allClear_node] at h
    obtain ⟨hkind, h⟩ := h
    split at h
    · next hform =>
      simp only [allClear_append, Member.allClear_scripts] at h
      obtain ⟨⟨hheader, hmembers⟩, -⟩ := h
      obtain ⟨hparameters, hparts⟩ := TypeHeader.cleared hheader
      refine ⟨hkind, ⟨?_, ?_, hparameters⟩, List.forall_mem_append.2 ⟨hparts, ?_⟩⟩
      · intro henum
        rw [henum] at hform
        cases hform
      · intro hmarkType
        rw [hmarkType] at hform
        cases hform
      · exact List.forall_mem_map.2 hmembers
    · exact absurd h not_allClear_refuse
  | setup extent =>
    rw [Member.script] at h
    exact absurd (allClear_node.1 h).2 not_allClear_refuse

/-! ## Units -/

/-- Every import has been looked at, also one that is dropped. -/
theorem supports_of_renderImports {limit : Nat} {imports : List ImportDecl} {ctx after : Context}
    (h : renderImports s limit imports ctx = .ok () after) :
    ∀ i ∈ imports, s.target.supports .importDeclaration = true := by
  induction imports generalizing ctx with
  | nil => exact List.forall_mem_nil _
  | cons i rest ih =>
    obtain ⟨_, _, _, h⟩ := bind_ok.1 h
    obtain ⟨_, _, hrender, h⟩ := bind_ok.1 h
    exact List.forall_mem_cons.2 ⟨(inNode_ok hrender).1, ih h⟩

theorem renderType_clear {type : TypeDecl} {ctx after : Context}
    (h : renderType s type ctx = .ok () after) : Step.AllClear (type.script s) := by
  obtain ⟨_, _, _, -, -, hrun, -⟩ := renderType_stages h
  exact Step.runAll_clear _ hrun

theorem renderBody_clear {package : Option PackageDecl} {type : TypeDecl} {ctx after : Context}
    (h : renderBody s package type ctx = .ok () after) : Step.AllClear (type.script s) := by
  obtain hbare | ⟨p, rfl, hopens⟩ := bare_or_opens s.target package
  · rw [renderBody_bare hbare] at h
    exact renderType_clear h
  · obtain ⟨_, _, -, htype, -⟩ := renderBody_stages hopens h
    exact renderType_clear htype

theorem CompilationUnit.cleared_of_render {u : CompilationUnit} {ctx after : Context}
    (h : u.render s ctx = .ok () after) : (Node.unit u).Cleared s none := by
  obtain ⟨hkind, -, -⟩ := inNode_ok h
  obtain ⟨type, htypes, h⟩ := u.render_ok h
  obtain ⟨stages⟩ := u.renderWith_stages h
  obtain ⟨_, hbody, -, -⟩ := captured_ok stages.holds
  exact ⟨hkind, supports_of_renderImports stages.imports, type, htypes, renderBody_clear hbody⟩

theorem CompilationUnit.cleared {u : CompilationUnit} {above : Option Node}
    (h : (Node.unit u).Cleared s above) : ∀ p ∈ u.children, p.Cleared s (some (.unit u)) := by
  obtain ⟨hkind, himports, type, htypes, htype⟩ := h
  have hpackage : s.target.supports .packageDeclaration = true := by
    cases ht : s.target with
    | csharp | swift => rfl
    | cpp =>
      rw [ht] at hkind
      cases hkind
  simp only [CompilationUnit.children, List.forall_mem_append, List.forall_mem_map, htypes,
    List.forall_mem_singleton]
  exact ⟨⟨fun _ _ => hpackage, himports⟩, htype⟩

/-! ## Nodes -/

/-- Nothing about the node itself keeps it from being rendered below the node above it. -/
structure Node.Supported (s : Settings) (above : Option Node) (n : Node) : Prop where
  kind : s.target.supports n.kind = true
  plain : n.IsPlain s
  place : s.target = .swift → n.InPlace above

theorem Node.cleared_of_render {n : Node} {ctx after : Context}
    (h : n.render s ctx = .ok () after) : n.Cleared s none := by
  cases n with
  | unit u => exact u.cleared_of_render h
  | package p => exact (inNode_ok h).1
  | imported i => exact (inNode_ok h).1
  | member | parameter | fragment | modifier | type | name | expr | stmt =>
    exact Step.runAll_clear _ h

theorem Expr.swiftStep_eq_script {e : Expr} (hstep : e.isStep = false) :
    swiftStep s e = e.script s := by
  cases e with
  | unary extent op operand =>
    cases op with
    | increment | decrement => cases hstep
    | plus | minus | complement | not => rfl
  | step => cases hstep
  | _ => rfl

/-- Only a statement of Swift has another script for the expression in it. -/
theorem Expr.scriptBelow_eq (e : Expr) (above : Option Node) :
    e.scriptBelow s above = e.script s ∨
      s.target = .swift ∧ (∃ extent e', above = some (.stmt (.expression extent e'))) ∧
        e.scriptBelow s above = swiftStep s e := by
  unfold Expr.scriptBelow
  split
  · next extent e' =>
    split
    · next hswift => exact .inr ⟨eq_of_beq hswift, ⟨extent, e', rfl⟩, rfl⟩
    · exact .inl rfl
  · exact .inl rfl

/-- A step of Swift is rendered by its statement, which renders what is stepped. -/
theorem Expr.cleared_of_swiftStep {e : Expr} (hswift : s.target = .swift)
    (hstep : e.isStep = true) (h : Step.AllClear (swiftStep s e)) :
    s.target.supports e.kind = true ∧ e.IsPlain ∧
      ∀ p ∈ e.children, p.Cleared s (some (.expr e)) := by
  rw [hswift]
  cases e with
  | unary extent op operand =>
    refine ⟨rfl, trivial, List.forall_mem_singleton.2 ?_⟩
    cases op with
    | increment | decrement => simpa [swiftStep] using h
    | plus | minus | complement | not => cases hstep
  | step extent operand op =>
    refine ⟨rfl, trivial, List.forall_mem_singleton.2 ?_⟩
    cases op <;> simpa [swiftStep] using h
  | _ => cases hstep

theorem Expr.supported {e : Expr} {above : Option Node}
    (habove : ∀ n ∈ above, Node.expr e ∈ n.children) (h : Step.AllClear (e.scriptBelow s above)) :
    (Node.expr e).Supported s above ∧ ∀ p ∈ e.children, p.Cleared s (some (.expr e)) := by
  have ofScript (h : Step.AllClear (e.script s)) :
      (Node.expr e).Supported s above ∧ ∀ p ∈ e.children, p.Cleared s (some (.expr e)) := by
    obtain ⟨hkind, hplain, hstep, hparts⟩ := Expr.cleared h
    refine ⟨⟨hkind, hplain, fun hswift htrue => ?_⟩, hparts⟩
    rw [hstep hswift] at htrue
    cases htrue
  obtain heq | ⟨hswift, ⟨extent, e', rfl⟩, heq⟩ := e.scriptBelow_eq (s := s) above
  · exact ofScript (heq ▸ h)
  · rw [heq] at h
    cases hstep : e.isStep with
    | false => exact ofScript (Expr.swiftStep_eq_script hstep ▸ h)
    | true =>
      obtain ⟨hkind, hplain, hparts⟩ := Expr.cleared_of_swiftStep hswift hstep h
      obtain rfl : e = e' := Node.expr.inj (List.mem_singleton.1 (habove _ rfl))
      exact ⟨⟨hkind, hplain, fun _ _ => ⟨extent, rfl⟩⟩, hparts⟩

/-- A node that is rendered is supported, and the nodes below it are rendered. -/
theorem Node.cleared_part {n : Node} {above : Option Node} (hnames : n.NamesVariables)
    (habove : ∀ m ∈ above, n ∈ m.children) (h : n.Cleared s above) :
    n.Supported s above ∧ ∀ p ∈ n.children, p.Cleared s (some n) := by
  cases n with
  | unit u => exact ⟨⟨h.1, trivial, fun _ => trivial⟩, u.cleared h⟩
  | package | imported => exact ⟨⟨h, trivial, fun _ => trivial⟩, List.forall_mem_nil _⟩
  | member m =>
    obtain ⟨hkind, hplain, hparts⟩ := Member.cleared hnames h
    exact ⟨⟨hkind, hplain, fun _ => trivial⟩, hparts⟩
  | parameter p =>
    obtain ⟨hkind, hplain, hparts⟩ := Parameter.cleared h
    exact ⟨⟨hkind, hplain, fun _ => trivial⟩, hparts⟩
  | fragment f =>
    obtain ⟨hkind, hplain, hparts⟩ := Fragment.cleared h
    exact ⟨⟨hkind, hplain, fun _ => trivial⟩, hparts⟩
  | modifier m =>
    obtain ⟨hkind, hplain⟩ := Modifier.cleared h
    exact ⟨⟨hkind, hplain, fun _ => trivial⟩, List.forall_mem_nil _⟩
  | type t =>
    obtain ⟨hkind, hplain, hparts⟩ := TypeRef.cleared h
    exact ⟨⟨hkind, hplain, fun _ => trivial⟩, hparts⟩
  | name n => exact ⟨⟨supports_name _ n, trivial, fun _ => trivial⟩, n.cleared_parts _⟩
  | stmt t =>
    obtain ⟨hkind, hplain, hparts⟩ := Stmt.cleared hnames h
    exact ⟨⟨hkind, hplain, fun _ => trivial⟩, hparts⟩
  | expr e => exact Expr.supported habove h

theorem Node.Holds.mem_parts {root n : Node} {above : Option Node} (h : root.Holds above n) :
    ∀ m ∈ above, n ∈ m.children := by
  cases h with
  | self => exact fun m hm => nomatch hm
  | part h hp =>
    intro m hm
    cases hm
    exact hp

/-- If a node is rendered in which every declaration of variables declares one, all nodes in it are
of kinds and forms that the target supports. -/
theorem Node.render_supported {s : Settings} {n : Node} {ctx after : Context}
    (hnames : ∀ above m, n.Holds above m → m.NamesVariables)
    (h : n.render s ctx = .ok () after) :
    ∀ above m, n.Holds above m → m.Supported s above := by
  have hcleared : ∀ above m, n.Holds above m → m.Cleared s above := by
    intro above m hm
    induction hm with
    | self => exact Node.cleared_of_render h
    | part hm hp ih => exact (Node.cleared_part (hnames _ _ hm) hm.mem_parts ih).2 _ hp
  intro above m hm
  exact (Node.cleared_part (hnames above m hm) hm.mem_parts (hcleared above m hm)).1

/-- A step is rendered for Swift where it is all of a statement. -/
theorem Node.render_supported_step :
    runsTo (Node.render (.ofTarget .swift) (.stmt (.expression ⟨0, 4⟩
        (.step ⟨0, 3⟩ (.name (.simple ⟨⟨0, 1⟩, "i"⟩)) .increment)))) (.start "i++;" true) =
      some "i += 1" ∧
    (Node.expr (.step ⟨0, 3⟩ (.name (.simple ⟨⟨0, 1⟩, "i"⟩)) .increment)).Supported
      (.ofTarget .swift) (some (.stmt (.expression ⟨0, 4⟩
        (.step ⟨0, 3⟩ (.name (.simple ⟨⟨0, 1⟩, "i"⟩)) .increment)))) := by
  have hout : runsTo (Node.render (.ofTarget .swift) (.stmt (.expression ⟨0, 4⟩
      (.step ⟨0, 3⟩ (.name (.simple ⟨⟨0, 1⟩, "i"⟩)) .increment)))) (.start "i++;" true) =
      some "i += 1" := by
    decide +kernel
  obtain ⟨after, hrun, _⟩ := runsTo_ok hout
  refine ⟨hout, Node.render_supported ?_ hrun _ _ (.part .self (List.mem_singleton_self _))⟩
  intro above m hm
  have hheld : m = .stmt (.expression ⟨0, 4⟩
      (.step ⟨0, 3⟩ (.name (.simple ⟨⟨0, 1⟩, "i"⟩)) .increment)) ∨
      m = .expr (.step ⟨0, 3⟩ (.name (.simple ⟨⟨0, 1⟩, "i"⟩)) .increment) ∨
      m = .expr (.name (.simple ⟨⟨0, 1⟩, "i"⟩)) := by
    induction hm with
    | self => exact .inl rfl
    | part _ hp ih =>
      obtain rfl | rfl | rfl := ih
      · exact .inr (.inl (List.mem_singleton.1 hp))
      · exact .inr (.inr (List.mem_singleton.1 hp))
      · cases hp
  obtain rfl | rfl | rfl := hheld <;> exact trivial

end Tree

end Lockstep
