import Lockstep.Tree.Operator
import Lockstep.Tree.TypeRef

/-!
# Expressions

An expression keeps the place of each of its nodes. A chain of one operator is a single node with
further operands. Forms that nothing is known of but their place are kept apart, so that they can be
reported instead of getting lost.
-/

namespace Lockstep.Tree

open Text

/-- Literals that are kept as they are written. -/
inductive LiteralKind where
  | number | string | character
  deriving DecidableEq, Repr

def LiteralKind.kind : LiteralKind → Kind
  | .number => .numberLiteral
  | .string => .stringLiteral
  | .character => .characterLiteral

/-- Expressions of which only the place is known. -/
inductive ExprForm where
  | arrayCreation | arrayInitializer | lambda | methodReference | typeLiteral
  deriving DecidableEq, Repr

def ExprForm.kind : ExprForm → Kind
  | .arrayCreation => .arrayCreation
  | .arrayInitializer => .arrayInitializer
  | .lambda => .lambdaExpression
  | .methodReference => .methodReference
  | .typeLiteral => .typeLiteral

inductive Expr where
  | name (name : Name)
  | literal (kind : LiteralKind) (extent : Extent) (token : String)
  | boolean (extent : Extent) (value : Bool)
  | null (extent : Extent)
  | this (extent : Extent) (qualifier : Option Name)
  | parenthesized (extent : Extent) (inner : Expr)
  /-- `left op right op more…` -/
  | binary (extent : Extent) (left : Expr) (op : BinaryOp) (right : Expr) (more : List Expr)
  | unary (extent : Extent) (op : UnaryOp) (operand : Expr)
  | step (extent : Extent) (operand : Expr) (op : StepOp)
  | assign (extent : Extent) (left : Expr) (op : AssignOp) (right : Expr)
  | conditional (extent : Extent) (condition positive negative : Expr)
  | call (extent : Extent) (receiver : Option Expr) (typeArguments : List TypeRef)
      (name : SimpleName) (arguments : List Expr) (binding : Option MemberBinding)
  | superCall (extent : Extent) (qualifier : Option Name) (typeArguments : List TypeRef)
      (name : SimpleName) (arguments : List Expr) (binding : Option MemberBinding)
  | field (extent : Extent) (object : Expr) (name : SimpleName) (binding : Option MemberBinding)
  | superField (extent : Extent) (qualifier : Option Name) (name : SimpleName)
      (binding : Option MemberBinding)
  | index (extent : Extent) (array position : Expr)
  /-- `outer.new T(arguments) body` -/
  | create (extent : Extent) (outer : Option Expr) (typeArguments : List TypeRef)
      (type : TypeRef) (arguments : List Expr) (body : Option Extent)
  | cast (extent : Extent) (type : TypeRef) (operand : Expr)
  | instanceOf (extent : Extent) (left : Expr) (type : TypeRef)
  | other (form : ExprForm) (extent : Extent)

namespace Expr

def extent : Expr → Extent
  | .name n => n.extent
  | .literal _ extent _ | .boolean extent _ | .null extent | .this extent _
  | .parenthesized extent _ | .binary extent .. | .unary extent .. | .step extent ..
  | .assign extent .. | .conditional extent .. | .call extent .. | .superCall extent ..
  | .field extent .. | .superField extent .. | .index extent .. | .create extent ..
  | .cast extent .. | .instanceOf extent .. | .other _ extent => extent

end Expr

def Name.kind : Name → Kind
  | .simple _ => .simpleName
  | .qualified .. => .qualifiedName

namespace Expr

def kind : Expr → Kind
  | .name n => n.kind
  | .literal kind .. => kind.kind
  | .boolean .. => .booleanLiteral
  | .null _ => .nullLiteral
  | .this .. => .thisExpression
  | .parenthesized .. => .parenthesizedExpression
  | .binary .. => .infixExpression
  | .unary .. => .prefixExpression
  | .step .. => .postfixExpression
  | .assign .. => .assignment
  | .conditional .. => .conditionalExpression
  | .call .. => .methodInvocation
  | .superCall .. => .superMethodInvocation
  | .field .. => .fieldAccess
  | .superField .. => .superFieldAccess
  | .index .. => .arrayAccess
  | .create .. => .classInstanceCreation
  | .cast .. => .castExpression
  | .instanceOf .. => .instanceofExpression
  | .other form _ => form.kind

/-- Whether the expression names a variable, so that reading it twice changes nothing. -/
def isPlainVariable : Expr → Bool
  | .name _ => true
  | .field _ (.this ..) _ _ => true
  | _ => false

end Expr

end Lockstep.Tree
