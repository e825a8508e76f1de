import Lockstep.Render.Expr
import Lockstep.Tree.Stmt

/-!
# Scripts of statements

Modifiers, variables and statements. Swift declares a variable by its name first, so there the type
gives way to a keyword and is rendered again after each name.
-/

namespace Lockstep

open Config Render Target Text

namespace Tree

/-! ## Modifiers -/

/-- An annotation, by what becomes of it. One that is dropped takes a line of its own along. -/
def markScript (s : Settings) (mark : Annotation) : Script :=
  if mark.form != .marker then Script.refuse s.target .markArguments mark.form.kind mark.extent
  else
    match s.mark? mark.qualifiedName with
    | none =>
      Script.refuse s.target (.markUnmapped mark.qualifiedName) mark.form.kind mark.extent
    | some .suppress => [.replace mark.extent "", .skipLineRest, .skipBlanks]
    | some (.attribute name) =>
      [.replace mark.extent (if s.target == .csharp then "[" ++ name ++ "]" else "@" ++ name)]

def Modifier.script (s : Settings) : Modifier → Script
  | .word extent w => .node s.target .modifier extent [.modifier s.target w extent]
  | .annotated mark => .node s.target mark.form.kind mark.extent (markScript s mark)

/-- The modifiers of a declaration and the trivia after them. -/
def modifiersScript (s : Settings) (declaration : Declaration) (modifiers : List Modifier) :
    Script :=
  [.within declaration ((modifiers.flatMap fun m => .copyTrivia :: m.script s) ++ [.copyTrivia])]

/-! ## Variables -/

/-- A variable with its initial value. With a type, the type is written after the name. -/
def Fragment.body (s : Settings) (type : Option TypeRef) (f : Fragment) : Script :=
  if f.extraDimensions != 0 then
    Script.refuse s.target .extraDimensions .variableDeclarationFragment f.extent
  else
    f.name.script s ++
      (match type with
      | some t => [.emit ": ", .revisit t.extent.start (t.script s)]
      | none => []) ++
      match f.initial with
      | some e => [Script.operator s.target "=" "=" false] ++ e.script s
      | none => []

def Fragment.script (s : Settings) (f : Fragment) : Script :=
  .node s.target .variableDeclarationFragment f.extent (f.body s none)

/-- The type and the variables of a declaration. -/
def variablesScript (s : Settings) (modifiers : List Modifier) (type : TypeRef)
    (fragments : List Fragment) : Script :=
  if s.target == .swift then
    [.replace type.extent (if Modifier.mentions .final modifiers then "let" else "var")] ++
      Script.commaSeparated (fragments.map (Fragment.body s (some type)))
  else
    type.script s ++ Script.commaSeparated (fragments.map (Fragment.body s none))

/-! ## Statements -/

/-- An expression as a statement of Swift, where a step is an assignment. -/
def swiftStep (s : Settings) : Expr → Script
  | .unary _ .increment operand =>
    [Script.drop "++", .skipTrivia] ++ operand.script s ++ [.emit " += 1"]
  | .unary _ .decrement operand =>
    [Script.drop "--", .skipTrivia] ++ operand.script s ++ [.emit " -= 1"]
  | .step _ operand .increment => operand.script s ++ [.skipTrivia, .swap "++" " += 1"]
  | .step _ operand .decrement => operand.script s ++ [.skipTrivia, .swap "--" " -= 1"]
  | e => e.script s

/-- A condition in parentheses. -/
def conditionScript (s : Settings) (condition : Expr) : Script :=
  [.copyTrivia, Script.keep "(", .copyTrivia] ++ condition.script s ++
    [.copyTrivia, Script.keep ")"]

/-- The body of a statement: Swift wants it to be a block. -/
def checkBody (target : Target) (word : String) (body : Stmt) : Script :=
  if target == .swift && !body.isBlock then
    Script.refuse target (.bodyNotBlock word) body.kind body.extent
  else []

mutual

def Stmt.script (s : Settings) : Stmt → Script
  | .block extent statements =>
    .node s.target .block extent
      ([Script.keep "\x7b"] ++ Stmt.scripts s statements ++ [.copyTrivia, Script.keep "\x7d"])
  | .expression extent expr =>
    .node s.target .expressionStatement extent
      ((if s.target == .swift then swiftStep s expr else expr.script s) ++
        Script.terminator s.target)
  | .declare extent modifiers type fragments =>
    .node s.target .variableDeclarationStatement extent
      (modifiersScript s .localVariable modifiers ++
        variablesScript s modifiers type fragments ++ Script.terminator s.target)
  | .returns extent value =>
    .node s.target .returnStatement extent
      ([Script.keep "return"] ++
        (match value with
        | some e => .copyTrivia :: e.script s
        | none => []) ++
        Script.terminator s.target)
  | .ifElse extent condition positive negative =>
    .node s.target .ifStatement extent
      ([Script.keep "if"] ++ conditionScript s condition ++ checkBody s.target "if" positive ++
        [.copyTrivia] ++ positive.script s ++ Stmt.elseScript s negative)
  | .whileLoop extent condition body =>
    .node s.target .whileStatement extent
      ([Script.keep "while"] ++ conditionScript s condition ++ checkBody s.target "while" body ++
        [.copyTrivia] ++ body.script s)
  | .doLoop extent body condition =>
    .node s.target .doStatement extent
      ([.swap "do" (if s.target == .swift then "repeat" else "do")] ++
        checkBody s.target "do" body ++ [.copyTrivia] ++ body.script s ++
        [.copyTrivia, Script.keep "while"] ++ conditionScript s condition ++
        Script.terminator s.target)
  | .empty extent =>
    .node s.target .emptyStatement extent
      [.swap ";" (if s.target.profile.hasTerminator then ";" else "")]
  | .jump word extent label =>
    .node s.target word.kind extent
      (if label.isSome then Script.refuse s.target .labeledJump word.kind extent
      else [Script.keep word.token] ++ Script.terminator s.target)
  | .throws extent value =>
    .node s.target .throwStatement extent
      ([Script.keep "throw", .copyTrivia] ++ value.script s ++ Script.terminator s.target)
  | .other form extent =>
    .node s.target form.kind extent (Script.refuse s.target .noForm form.kind extent)

/-- Statements one after another. -/
def Stmt.scripts (s : Settings) : List Stmt → Script
  | [] => []
  | stmt :: rest => .copyTrivia :: stmt.script s ++ Stmt.scripts s rest

/-- The other branch of a condition, which may be a further condition. -/
def Stmt.elseScript (s : Settings) : Option Stmt → Script
  | none => []
  | some stmt =>
    [.copyTrivia, Script.keep "else"] ++
      (if stmt.isIf then [] else checkBody s.target "else" stmt) ++
      .copyTrivia :: stmt.script s

end

end Tree

end Lockstep
