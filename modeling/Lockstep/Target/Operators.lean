import Lockstep.Target.Basic
import Lockstep.Tree.Operator

/-!
# Operators of a target

The token for each operator, if the target has an operator of that meaning, how strongly the target
binds it, and where an operand has to be put in parentheses to stay one.
-/

namespace Lockstep.Target

open Lockstep.Tree

/-- The token of a binary operator. Unsigned shifts are function calls where there is none. -/
def binaryToken? : Target → BinaryOp → Option String
  | .swift, .shiftRightUnsigned | .cpp, .shiftRightUnsigned => none
  | _, op => some op.token

def assignToken? : Target → AssignOp → Option String
  | .swift, .shiftRightUnsigned | .cpp, .shiftRightUnsigned => none
  | _, op => some op.token

def unaryToken? : Target → UnaryOp → Option String
  | .swift, .increment | .swift, .decrement => none
  | _, op => some op.token

def stepToken? : Target → StepOp → Option String
  | .swift, _ => none
  | _, op => some op.token

/-- The strength of a function call, above that of any operator. -/
def callPrecedence : Nat := 255

/-- How strongly Swift binds an operator. -/
def swiftPrecedence : BinaryOp → Nat
  | .shiftLeft | .shiftRight | .shiftRightUnsigned => 160
  | .times | .divide | .remainder | .bitAnd => 150
  | .plus | .minus | .bitOr | .bitXor => 140
  | .less | .greater | .lessEq | .greaterEq | .equal | .notEqual => 130
  | .and => 120
  | .or => 110

/-- How strongly the target binds an operator; more binds tighter. -/
def precedence (t : Target) (op : BinaryOp) : Nat :=
  if (t.binaryToken? op).isNone then callPrecedence
  else match t with
    | .csharp | .cpp => op.precedence
    | .swift => swiftPrecedence op

/-- Whether the target refuses a chain of the operator without parentheses. -/
def nonAssociative : Target → BinaryOp → Bool
  | .swift, .less | .swift, .greater | .swift, .lessEq | .swift, .greaterEq | .swift, .equal
  | .swift, .notEqual => true
  | _, _ => false

/-- Whether the operand `child` of `parent` has to be put in parentheses, so that the target does
not group it otherwise. -/
def needsParentheses (t : Target) (parent child : BinaryOp) (isLeft : Bool) : Bool :=
  if (t.binaryToken? parent).isNone then false
  else if t.precedence child == t.precedence parent then !isLeft || t.nonAssociative parent
  else t.precedence child < t.precedence parent

end Lockstep.Target
