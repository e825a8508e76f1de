import Lockstep.Proofs.Layout
import Lockstep.Tree.Node

/-!
# The layouts of names, types, expressions and statements

Tokens and nodes are given in the order of the grammar of Java. They do not depend on a target, nor
on what is rendered: a qualified `this` or a label has its layout like everything else.
-/

namespace Lockstep.Tree

open Text

/-! ## Names and types -/

def SimpleName.layout (n : SimpleName) : Layout := .node n.extent [.token n.identifier]

def Name.layout : Name → Layout
  | .simple n => n.layout
  | .qualified extent qualifier n _ => .node extent [qualifier.layout, .token ".", n.layout]

/-- A qualifier with the full stop after it. -/
def qualifierLayouts : Option Name → List Layout
  | none => []
  | some n => [n.layout, .token "."]

/-- So many pairs of brackets. -/
def bracketLayouts (count : Nat) : List Layout :=
  (List.replicate count [Layout.token "[", .token "]"]).flatten

mutual

def TypeRef.layout : TypeRef → Layout
  | .primitive extent p => .node extent [.token p.keyword]
  | .named extent n _ => .node extent [n.layout]
  | .array extent element dimensions =>
    .node extent (element.layout :: bracketLayouts dimensions.toNat)
  | .parameterized extent base arguments =>
    .node extent
      (base.layout :: .token "<" :: Layout.separated (TypeRef.layouts arguments) ++ [.token ">"])
  | .wildcard extent => .unknown extent

def TypeRef.layouts : List TypeRef → List Layout
  | [] => []
  | t :: ts => t.layout :: TypeRef.layouts ts

end

/-- The type arguments of a call, in angle brackets. -/
def typeArgumentLayouts (types : List TypeRef) : List Layout :=
  if types.isEmpty then []
  else .token "<" :: Layout.separated (TypeRef.layouts types) ++ [.token ">"]

/-! ## Expressions -/

/-- Arguments with commas between them, in parentheses. -/
def argumentLayouts (arguments : List Layout) : List Layout :=
  .token "(" :: Layout.separated arguments ++ [.token ")"]

mutual

def Expr.layout : Expr → Layout
  | .name n => n.layout
  | .literal _ extent token => .node extent [.token token]
  | .boolean extent value => .node extent [.token (if value then "true" else "false")]
  | .null extent => .node extent [.token "null"]
  | .this extent qualifier => .node extent (qualifierLayouts qualifier ++ [.token "this"])
  | .parenthesized extent inner => .node extent [.token "(", inner.layout, .token ")"]
  | .binary extent left op right more =>
    .node extent (left.layout :: .token op.token :: right.layout :: Expr.linkLayouts op more)
  | .unary extent op operand => .node extent [.token op.token, operand.layout]
  | .step extent operand op => .node extent [operand.layout, .token op.token]
  | .assign extent left op right => .node extent [left.layout, .token op.token, right.layout]
  | .conditional extent condition positive negative =>
    .node extent
      [condition.layout, .token "?", positive.layout, .token ":", negative.layout]
  | .call extent receiver typeArguments n arguments _ =>
    .node extent
      (Expr.receiverLayouts receiver ++ typeArgumentLayouts typeArguments ++ n.layout ::
        argumentLayouts (Expr.layouts arguments))
  | .superCall extent qualifier typeArguments n arguments _ =>
    .node extent
      (qualifierLayouts qualifier ++ .token "super" :: .token "." ::
        (typeArgumentLayouts typeArguments ++ n.layout :: argumentLayouts (Expr.layouts arguments)))
  | .field extent object n _ => .node extent [object.layout, .token ".", n.layout]
  | .superField extent qualifier n _ =>
    .node extent (qualifierLayouts qualifier ++ [.token "super", .token ".", n.layout])
  | .index extent array position =>
    .node extent [array.layout, .token "[", position.layout, .token "]"]
  | .create extent outer typeArguments type arguments body =>
    .node extent
      (Expr.receiverLayouts outer ++ .token "new" :: (typeArgumentLayouts typeArguments ++
        type.layout :: argumentLayouts (Expr.layouts arguments) ++ body.toList.map .unknown))
  | .cast extent type operand =>
    .node extent [.token "(", type.layout, .token ")", operand.layout]
  | .instanceOf extent left type => .node extent [left.layout, .token "instanceof", type.layout]
  | .other _ extent => .unknown extent

def Expr.layouts : List Expr → List Layout
  | [] => []
  | e :: es => e.layout :: Expr.layouts es

/-- The further operands of a chain, each after its operator. -/
def Expr.linkLayouts (op : BinaryOp) : List Expr → List Layout
  | [] => []
  | e :: es => .token op.token :: e.layout :: Expr.linkLayouts op es

/-- An object with the full stop after it. -/
def Expr.receiverLayouts : Option Expr → List Layout
  | none => []
  | some e => [e.layout, .token "."]

end

theorem typeArgumentLayouts_eq_nil {types : List TypeRef} (h : ¬(!types.isEmpty) = true) :
    typeArgumentLayouts types = [] := by
  cases types with
  | nil => rfl
  | cons => exact absurd rfl h

theorem Expr.layouts_eq_map (es : List Expr) : Expr.layouts es = es.map Expr.layout := by
  induction es with
  | nil => rfl
  | cons e es ih => rw [Expr.layouts, ih, List.map_cons]

theorem Expr.linkLayouts_eq (op : BinaryOp) (es : List Expr) :
    Expr.linkLayouts op es = Layout.links op.token (es.map Expr.layout) := by
  induction es with
  | nil => rfl
  | cons e es ih =>
    rw [Expr.linkLayouts, ih]
    rfl

/-! ## Modifiers and variables -/

/-- Of the arguments of an annotation nothing is known. -/
def Annotation.layout (a : Annotation) : Layout :=
  match a.form with
  | .marker => .node a.extent [.token "@", a.typeName.layout]
  | .singleMember | .normal => .unknown a.extent

theorem Annotation.layout_of_marker (mark : Annotation) (h : mark.form = .marker) :
    mark.layout = .node mark.extent [.token "@", mark.typeName.layout] := by
  unfold Annotation.layout
  rw [h]

def Modifier.layout : Modifier → Layout
  | .word extent w => .node extent [.token w.token]
  | .annotated mark => mark.layout

/-- An initial value with the sign before it. -/
def initialLayouts : Option Expr → List Layout
  | none => []
  | some e => [.token "=", e.layout]

def Fragment.layout (f : Fragment) : Layout :=
  .node f.extent
    (f.name.layout :: bracketLayouts f.extraDimensions.toNat ++ initialLayouts f.initial)

theorem Fragment.layout_of_plain (f : Fragment) (h : f.extraDimensions = 0) :
    f.layout = .node f.extent (f.name.layout :: initialLayouts f.initial) := by
  rw [Fragment.layout, h]
  rfl

/-! ## Statements -/

mutual

def Stmt.layout : Stmt → Layout
  | .block extent statements =>
    .node extent (.token "\x7b" :: Stmt.layouts statements ++ [.token "\x7d"])
  | .expression extent e => .node extent [e.layout, .token ";"]
  | .declare extent modifiers type fragments =>
    .node extent (modifiers.map Modifier.layout ++ type.layout ::
      (Layout.separated (fragments.map Fragment.layout) ++ [.token ";"]))
  | .returns extent value =>
    .node extent (.token "return" :: value.toList.map Expr.layout ++ [.token ";"])
  | .ifElse extent condition positive negative =>
    .node extent (.token "if" :: .token "(" :: condition.layout :: .token ")" :: positive.layout ::
      Stmt.elseLayouts negative)
  | .whileLoop extent condition body =>
    .node extent [.token "while", .token "(", condition.layout, .token ")", body.layout]
  | .doLoop extent body condition =>
    .node extent [.token "do", body.layout, .token "while", .token "(", condition.layout,
      .token ")", .token ";"]
  | .empty extent => .node extent [.token ";"]
  | .jump word extent label =>
    .node extent (.token word.token :: label.toList.map SimpleName.layout ++ [.token ";"])
  | .throws extent value => .node extent [.token "throw", value.layout, .token ";"]
  | .other _ extent => .unknown extent

def Stmt.layouts : List Stmt → List Layout
  | [] => []
  | stmt :: stmts => stmt.layout :: Stmt.layouts stmts

def Stmt.elseLayouts : Option Stmt → List Layout
  | none => []
  | some stmt => [.token "else", stmt.layout]

end

/-- The layout of a node inside a method body; of other nodes none is given. -/
def Node.layout? : Node → Option Layout
  | .type t => some t.layout
  | .name n => some n.layout
  | .expr e => some e.layout
  | .stmt t => some t.layout
  | .unit _ | .package _ | .imported _ | .member _ | .parameter _ | .fragment _ | .modifier _ =>
    none

/-! ## Places -/

@[simp] theorem Name.extent?_layout (n : Name) : n.layout.extent? = some n.extent := by
  cases n <;> rfl

@[simp] theorem TypeRef.extent?_layout (t : TypeRef) : t.layout.extent? = some t.extent := by
  cases t <;> simp only [TypeRef.layout, Layout.extent?, TypeRef.extent]

@[simp] theorem Expr.extent?_layout (e : Expr) : e.layout.extent? = some e.extent := by
  cases e with
  | name n => exact n.extent?_layout
  | _ => simp only [Expr.layout, Layout.extent?, Expr.extent]

@[simp] theorem Annotation.extent?_layout (a : Annotation) : a.layout.extent? = some a.extent := by
  unfold Annotation.layout
  split <;> rfl

@[simp] theorem Modifier.extent?_layout (m : Modifier) : m.layout.extent? = some m.extent := by
  cases m with
  | word => rfl
  | annotated mark => exact mark.extent?_layout

@[simp] theorem Stmt.extent?_layout (stmt : Stmt) : stmt.layout.extent? = some stmt.extent := by
  cases stmt <;> simp only [Stmt.layout, Layout.extent?, Stmt.extent]

end Lockstep.Tree
