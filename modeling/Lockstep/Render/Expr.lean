import Lockstep.Config.Settings
import Lockstep.Render.Step
import Lockstep.Target.Reserved
import Lockstep.Target.TextLiteral
import Lockstep.Target.Types
import Lockstep.Tree.Expr

/-!
# Scripts of names, types and expressions

Each script passes the tokens of its node in the order of the source, with the trivia between them
copied, and gives way to the scripts of the nodes inside.
-/

namespace Lockstep

open Config Render Target Text

namespace Tree

/-! ## Names -/

def SimpleName.script (s : Settings) (n : SimpleName) : Script :=
  .node s.target .simpleName n.extent [.swap n.identifier (s.target.escaped n.identifier)]

/-- What stands before a name: that of a static member, unless the name is bound to another. -/
def nameAccess (target : Target) : Option MemberBinding → String
  | some binding => target.memberAccess binding.isStatic
  | none => target.profile.staticAccess

def Name.script (s : Settings) : Name → Script
  | .simple n => n.script s
  | .qualified extent qualifier n binding =>
    .node s.target .qualifiedName extent
      (qualifier.script s ++
        [.copyTrivia, .swap "." (nameAccess s.target binding), .copyTrivia] ++ n.script s)

/-! ## Types -/

/-- The namespace that a use of the type needs. -/
def TypeBinding.requirement (s : Settings) (binding : TypeBinding) : Script :=
  match s.implicitImport? binding.qualifiedName with
  | some name => [.require name]
  | none => []

/-- A pair of brackets after a type. -/
def brackets : Script :=
  [.copyTrivia, Script.keep "[", .copyTrivia, Script.keep "]"]

/-- A pair of brackets after a type, of which the opening one has been written before the type. -/
def closingBracket : Script :=
  [.skipTrivia, Script.drop "[", .skipTrivia, Script.keep "]"]

/-- An array type: in Swift the brackets enclose the element type. -/
def arrayScript (target : Target) (element : Script) (dimensions : Nat) : Script :=
  if target == .swift then
    [.times dimensions [.emit "["]] ++ element ++ [.times dimensions closingBracket]
  else element ++ [.times dimensions brackets]

/-- A named type: one that the target has a type of its own for, or the name. -/
def namedScript (s : Settings) (extent : Extent) (name : Name) : Option TypeBinding → Script
  | none => name.script s
  | some binding =>
    binding.requirement s ++
      match s.target.wellKnownType? binding.qualifiedName with
      | some builtin => [.replace extent builtin]
      | none => name.script s

def TypeRef.script (s : Settings) : TypeRef → Script
  | .primitive extent p =>
    .node s.target .primitiveType extent [.swap p.keyword (s.target.primitiveType p)]
  | .named extent n binding =>
    .node s.target .simpleType extent (namedScript s extent n binding)
  | .array extent element dimensions =>
    .node s.target .arrayType extent
      (arrayScript s.target (element.script s) dimensions.toNat)
  | .parameterized extent .. =>
    .node s.target .parameterizedType extent
      (Script.refuse s.target .noForm .parameterizedType extent)
  | .wildcard extent =>
    .node s.target .wildcardType extent (Script.refuse s.target .noForm .wildcardType extent)

/-! ## Expressions -/

/-- The literal of the target. -/
def LiteralKind.render? (kind : LiteralKind) (target : Target) (token : String) :
    Option String :=
  (match kind with
    | .number => numberLiteral? target token.toList
    | .string => stringLiteral? target token.toList
    | .character => characterLiteral? target token.toList).map String.ofList

/-- A literal, if the target has one for it. -/
def literalScript (target : Target) (kind : LiteralKind) (extent : Extent) (token : String) :
    Script :=
  match kind.render? target token with
  | some text => [.swap token text]
  | none => Script.refuse target (.noEquivalent token) kind.kind extent

/-- What stands before the name of a member. What the member is does not matter where static members
are written like others. -/
def memberAccess? (target : Target) : Option MemberBinding → Option String
  | some binding => some (target.memberAccess binding.isStatic)
  | none =>
    if target.profile.staticAccess == target.profile.instanceAccess then
      some target.profile.instanceAccess
    else none

/-- A script that is put in parentheses if need be. -/
def wrapped (wrap : Bool) (script : Script) : Script :=
  if wrap then [.emit "("] ++ script ++ [.emit ")"] else script

/-- Whether an operand of a binary operator has to be put in parentheses. -/
def Expr.wraps (target : Target) (parent : BinaryOp) (isLeft : Bool) : Expr → Bool
  | .binary _ _ op .. => target.needsParentheses parent op isLeft
  | _ => false

/-- Further operands of a chain, each after the operator. If the links are grouped, what comes
before an operand is closed first. -/
def chainScript (target : Target) (token replacement : String) (grouped : Bool) :
    List Script → Script
  | [] => []
  | operand :: rest =>
    (if grouped then [.emit ")"] else []) ++
      [Script.operator target token replacement false] ++ operand ++
      chainScript target token replacement grouped rest

/-- A chain of operands with an operator between them, from left to right. -/
def binaryScript (target : Target) (op : BinaryOp) (replacement : String)
    (left right : Script) (more : List Script) : Script :=
  let grouped := target.nonAssociative op && !more.isEmpty
  (if grouped then more.map fun _ => .emit "(" else []) ++ left ++
    [Script.operator target op.token replacement false] ++ right ++
    chainScript target op.token replacement grouped more

/-- Further arguments of nested calls. Blanks before the operator would end up before the comma. -/
def callOperands (token : String) : List Script → Script
  | [] => []
  | operand :: rest =>
    [.skipBlanks, .copyTrivia, .swap token ",", .copyTrivia] ++ operand ++ [.emit ")"] ++
      callOperands token rest

/-- A chain of operands as calls of a function, each the first argument of the next. -/
def nestedCalls (token : String) (left : Script) (operands : List Script) : Script :=
  (operands.flatMap fun _ => [.emit unsignedShiftFunction, .emit "("]) ++ left ++
    callOperands token operands

/-- An assignment by a function, which reads the variable once more. -/
def assignByCall (target : Target) (token : String) (start : Nat) (left right : Script) : Script :=
  left ++ [Script.operator target token "=" false, .emit unsignedShiftFunction, .emit "(",
    .revisit start left, .emit ", "] ++ right ++ [.emit ")"]

/-- The name of a member after its owner. -/
def memberScript (s : Settings) (access : String) (n : SimpleName) : Script :=
  [.copyTrivia, .swap "." access, .copyTrivia] ++ n.script s

mutual

def Expr.script (s : Settings) : Expr → Script
  | .name n => n.script s
  | .literal kind extent token =>
    .node s.target kind.kind extent (literalScript s.target kind extent token)
  | .boolean extent value =>
    .node s.target .booleanLiteral extent [Script.keep (if value then "true" else "false")]
  | .null extent =>
    .node s.target .nullLiteral extent [.swap "null" s.target.profile.nullWord]
  | .this extent qualifier =>
    .node s.target .thisExpression extent
      (if qualifier.isSome then Script.refuse s.target .qualifiedThis .thisExpression extent
      else [.swap "this" s.target.profile.thisWord])
  | .parenthesized extent inner =>
    .node s.target .parenthesizedExpression extent
      ([Script.keep "(", .copyTrivia] ++ inner.script s ++ [.copyTrivia, Script.keep ")"])
  | .binary extent left op right more =>
    .node s.target .infixExpression extent
      (match s.target.binaryToken? op with
      | some replacement =>
        binaryScript s.target op replacement
          (wrapped (left.wraps s.target op true) (left.script s))
          (wrapped (right.wraps s.target op false) (right.script s))
          (Expr.operandScripts s op more)
      | none => nestedCalls op.token (left.script s) (right.script s :: Expr.scripts s more))
  | .unary extent op operand =>
    .node s.target .prefixExpression extent
      (match s.target.unaryToken? op with
      | some replacement => [.swap op.token replacement, .copyTrivia] ++ operand.script s
      | none => Script.refuse s.target (.operatorMissing op.token) .prefixExpression extent)
  | .step extent operand op =>
    .node s.target .postfixExpression extent
      (match s.target.stepToken? op with
      | some replacement => operand.script s ++ [.copyTrivia, .swap op.token replacement]
      | none => Script.refuse s.target (.operatorMissing op.token) .postfixExpression extent)
  | .assign extent left op right =>
    .node s.target .assignment extent
      (match s.target.assignToken? op with
      | some replacement =>
        left.script s ++ [Script.operator s.target op.token replacement false] ++ right.script s
      | none =>
        if left.isPlainVariable then
          assignByCall s.target op.token left.extent.start (left.script s) (right.script s)
        else Script.refuse s.target (.operatorMissing op.token) .assignment extent)
  | .conditional extent condition positive negative =>
    .node s.target .conditionalExpression extent
      (condition.script s ++ [Script.operator s.target "?" "?" true] ++ positive.script s ++
        [Script.operator s.target ":" ":" true] ++ negative.script s)
  | .call extent receiver typeArguments n arguments binding =>
    .node s.target .methodInvocation extent
      (match binding with
      | none => Script.missingBinding n.identifier extent
      | some binding =>
        if !typeArguments.isEmpty then
          Script.refuse s.target .typeArguments .methodInvocation extent
        else
          Expr.receiverScript s (s.target.memberAccess binding.isStatic) receiver ++
            n.script s ++ [.copyTrivia] ++ Script.arguments (Expr.scripts s arguments))
  | .superCall extent qualifier typeArguments n arguments binding =>
    .node s.target .superMethodInvocation extent
      (if qualifier.isSome then Script.refuse s.target .qualifiedSuper .superMethodInvocation extent
      else match binding with
      | none => Script.missingBinding n.identifier extent
      | some binding =>
        if !typeArguments.isEmpty then
          Script.refuse s.target .typeArguments .superMethodInvocation extent
        else match s.target.profile.superWord with
        | none => Script.refuse s.target (.noEquivalent "super") .superMethodInvocation extent
        | some word =>
          [.swap "super" word] ++ memberScript s (s.target.memberAccess binding.isStatic) n ++
            [.copyTrivia] ++ Script.arguments (Expr.scripts s arguments))
  | .field extent object n binding =>
    .node s.target .fieldAccess extent
      (match memberAccess? s.target binding with
      | none => Script.missingBinding n.identifier extent
      | some access => object.script s ++ memberScript s access n)
  | .superField extent qualifier n binding =>
    .node s.target .superFieldAccess extent
      (if qualifier.isSome then
        Script.refuse s.target (.noEquivalent "Outer.super") .superFieldAccess extent
      else match s.target.profile.superWord with
      | none => Script.refuse s.target (.noEquivalent "super") .superFieldAccess extent
      | some word =>
        match memberAccess? s.target binding with
        | none => Script.missingBinding n.identifier extent
        | some access => [.swap "super" word] ++ memberScript s access n)
  | .index extent array position =>
    .node s.target .arrayAccess extent
      (array.script s ++ [.copyTrivia, Script.keep "[", .copyTrivia] ++ position.script s ++
        [.copyTrivia, Script.keep "]"])
  | .create extent outer typeArguments type arguments body =>
    .node s.target .classInstanceCreation extent
      (if outer.isSome then
        Script.refuse s.target (.noEquivalent "outer.new") .classInstanceCreation extent
      else if !typeArguments.isEmpty then
        Script.refuse s.target .typeArguments .classInstanceCreation extent
      else if body.isSome then Script.refuse s.target .anonymousClass .classInstanceCreation extent
      else
        (if s.target == .swift then [Script.drop "new", .skipTrivia]
        else [Script.keep "new", .copyTrivia]) ++
          type.script s ++ [.copyTrivia] ++ Script.arguments (Expr.scripts s arguments))
  | .cast extent type operand =>
    .node s.target .castExpression extent
      ([Script.keep "(", .copyTrivia] ++ type.script s ++
        [.copyTrivia, Script.keep ")", .copyTrivia] ++ operand.script s)
  | .instanceOf extent left type =>
    .node s.target .instanceofExpression extent
      (match s.target.profile.instanceOfWord with
      | none => Script.refuse s.target (.noEquivalent "instanceof") .instanceofExpression extent
      | some word =>
        left.script s ++ [.copyTrivia, .swap "instanceof" word, .copyTrivia] ++ type.script s)
  | .other form extent =>
    .node s.target form.kind extent (Script.refuse s.target .noForm form.kind extent)

def Expr.scripts (s : Settings) : List Expr → List Script
  | [] => []
  | e :: es => e.script s :: Expr.scripts s es

/-- The further operands of a chain. -/
def Expr.operandScripts (s : Settings) (op : BinaryOp) : List Expr → List Script
  | [] => []
  | e :: es =>
    wrapped (e.wraps s.target op false) (e.script s) :: Expr.operandScripts s op es

/-- The object that a method is called on, and what stands after it. -/
def Expr.receiverScript (s : Settings) (access : String) : Option Expr → Script
  | none => []
  | some e => e.script s ++ [.copyTrivia, .swap "." access, .copyTrivia]

end

end Tree

end Lockstep
