/-!
# Operators

The operators of Java expressions, with their tokens. An operator is known by its token, so reading
the token of an operator gives the operator back.
-/

namespace Lockstep.Tree

/-- Operators between two operands. -/
inductive BinaryOp where
  | times | divide | remainder
  | plus | minus
  | shiftLeft | shiftRight | shiftRightUnsigned
  | less | greater | lessEq | greaterEq
  | equal | notEqual
  | bitAnd | bitXor | bitOr
  | and | or
  deriving DecidableEq, Repr

namespace BinaryOp

def all : List BinaryOp :=
  [.times, .divide, .remainder, .plus, .minus, .shiftLeft, .shiftRight, .shiftRightUnsigned,
    .less, .greater, .lessEq, .greaterEq, .equal, .notEqual, .bitAnd, .bitXor, .bitOr, .and, .or]

def token : BinaryOp → String
  | .times => "*"
  | .divide => "/"
  | .remainder => "%"
  | .plus => "+"
  | .minus => "-"
  | .shiftLeft => "<<"
  | .shiftRight => ">>"
  | .shiftRightUnsigned => ">>>"
  | .less => "<"
  | .greater => ">"
  | .lessEq => "<="
  | .greaterEq => ">="
  | .equal => "=="
  | .notEqual => "!="
  | .bitAnd => "&"
  | .bitXor => "^"
  | .bitOr => "|"
  | .and => "&&"
  | .or => "||"

def ofToken? (token : String) : Option BinaryOp := all.find? (·.token == token)

/-- How strongly the operator binds in Java; more binds tighter. -/
def precedence : BinaryOp → Nat
  | .times | .divide | .remainder => 10
  | .plus | .minus => 9
  | .shiftLeft | .shiftRight | .shiftRightUnsigned => 8
  | .less | .greater | .lessEq | .greaterEq => 7
  | .equal | .notEqual => 6
  | .bitAnd => 5
  | .bitXor => 4
  | .bitOr => 3
  | .and => 2
  | .or => 1

theorem ofToken?_token (op : BinaryOp) : ofToken? op.token = some op := by cases op <;> rfl

end BinaryOp

/-- Operators that assign. -/
inductive AssignOp where
  | assign
  | plus | minus | times | divide | remainder
  | bitAnd | bitOr | bitXor
  | shiftLeft | shiftRight | shiftRightUnsigned
  deriving DecidableEq, Repr

namespace AssignOp

def all : List AssignOp :=
  [.assign, .plus, .minus, .times, .divide, .remainder, .bitAnd, .bitOr, .bitXor, .shiftLeft,
    .shiftRight, .shiftRightUnsigned]

def token : AssignOp → String
  | .assign => "="
  | .plus => "+="
  | .minus => "-="
  | .times => "*="
  | .divide => "/="
  | .remainder => "%="
  | .bitAnd => "&="
  | .bitOr => "|="
  | .bitXor => "^="
  | .shiftLeft => "<<="
  | .shiftRight => ">>="
  | .shiftRightUnsigned => ">>>="

def ofToken? (token : String) : Option AssignOp := all.find? (·.token == token)

theorem ofToken?_token (op : AssignOp) : ofToken? op.token = some op := by cases op <;> rfl

end AssignOp

/-- Operators before their operand. -/
inductive UnaryOp where
  | increment | decrement | plus | minus | complement | not
  deriving DecidableEq, Repr

namespace UnaryOp

def all : List UnaryOp := [.increment, .decrement, .plus, .minus, .complement, .not]

def token : UnaryOp → String
  | .increment => "++"
  | .decrement => "--"
  | .plus => "+"
  | .minus => "-"
  | .complement => "~"
  | .not => "!"

def ofToken? (token : String) : Option UnaryOp := all.find? (·.token == token)

theorem ofToken?_token (op : UnaryOp) : ofToken? op.token = some op := by cases op <;> rfl

end UnaryOp

/-- Operators after their operand. -/
inductive StepOp where
  | increment | decrement
  deriving DecidableEq, Repr

namespace StepOp

def all : List StepOp := [.increment, .decrement]

def token : StepOp → String
  | .increment => "++"
  | .decrement => "--"

def ofToken? (token : String) : Option StepOp := all.find? (·.token == token)

theorem ofToken?_token (op : StepOp) : ofToken? op.token = some op := by cases op <;> rfl

end StepOp

end Lockstep.Tree
