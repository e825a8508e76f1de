import Lockstep.Render.Stmt
import Lockstep.Tree.Decl

/-!
# Scripts of declarations

Parameters, fields, methods and types. The types that a type extends and implements become one list;
exceptions that a method declares are dropped, and Swift keeps the bare keyword for them.
-/

namespace Lockstep

open Config Render Target Text

namespace Tree

/-- Nothing is rendered that has type parameters. -/
def refuseTypeParameters (target : Target) : List Extent → Script
  | [] => []
  | first :: _ => Script.refuse target .typeParameters .typeParameter first

/-! ## Parameters and fields -/

/-- A parameter of Swift, which has no outer name. -/
def swiftParameter (s : Settings) (p : Parameter) : Script :=
  [.emit "_ ", .replace p.type.extent ""] ++
    (if p.isVarargs then [.skipTrivia, Script.drop "..."] else []) ++
    [.skipTrivia] ++ p.name.script s ++
    [.emit ": ", .revisit p.type.extent.start (p.type.script s)] ++
    (if p.isVarargs then [.emit "..."] else [])

/-- A parameter with its type first. -/
def plainParameter (s : Settings) (p : Parameter) : Script :=
  (if p.isVarargs && s.target == .csharp then [.emit "params "] else []) ++ p.type.script s ++
    (if p.isVarargs then
      [.copyTrivia, .swap "..." (if s.target == .csharp then "[]" else "...")]
    else []) ++
    [.copyTrivia] ++ p.name.script s

def Parameter.script (s : Settings) (p : Parameter) : Script :=
  .node s.target .singleVariableDeclaration p.extent
    (if p.extraDimensions != 0 then
      Script.refuse s.target .extraDimensions .singleVariableDeclaration p.extent
    else
      modifiersScript s .parameter p.modifiers ++
        if s.target == .swift then swiftParameter s p else plainParameter s p)

def FieldDecl.script (s : Settings) (f : FieldDecl) : Script :=
  .node s.target .fieldDeclaration f.extent
    ([.copyTrivia] ++ modifiersScript s .field f.modifiers ++
      variablesScript s f.modifiers f.type f.fragments ++ Script.terminator s.target)

/-! ## Methods -/

/-- The result type and the name of a method. -/
def MethodDecl.nameScript (s : Settings) (m : MethodDecl) : Script :=
  match m.returnType, s.target == .swift with
  | some type, true => [.replace type.extent "func", .copyTrivia] ++ m.name.script s
  | some type, false => type.script s ++ [.copyTrivia] ++ m.name.script s
  | none, true => [.replace m.name.extent "init"]
  | none, false => m.name.script s

/-- Further exceptions that a method declares. -/
def moreThrown : List TypeRef → Script
  | [] => []
  | type :: rest =>
    [.skipTrivia, Script.drop ",", .skipTrivia, .replace type.extent ""] ++ moreThrown rest

/-- The exceptions that a method declares. -/
def thrownScript (target : Target) : List TypeRef → Script
  | [] => []
  | type :: rest =>
    (if target == .swift then [.copyTrivia, Script.keep "throws"]
    else [.skipTrivia, Script.drop "throws"]) ++
      [.skipTrivia, .replace type.extent ""] ++ moreThrown rest

/-- The result type of a method of Swift, which comes last. -/
def MethodDecl.resultScript (s : Settings) (m : MethodDecl) : Script :=
  match m.returnType with
  | none => []
  | some type =>
    if s.target == .swift && !type.isVoid then
      [.emit " -> ", .revisit type.extent.start (type.script s)]
    else []

/-- The body of a method, or a semicolon. -/
def MethodDecl.bodyScript (s : Settings) (m : MethodDecl) : Script :=
  match m.body with
  | some body => .copyTrivia :: body.toStmt.script s
  | none => Script.terminator s.target

def MethodDecl.script (s : Settings) (m : MethodDecl) : Script :=
  .node s.target .methodDeclaration m.extent
    (refuseTypeParameters s.target m.typeParameters ++
      (if m.extraDimensions != 0 then
        Script.refuse s.target .extraDimensions .methodDeclaration m.extent
      else []) ++
      [.copyTrivia] ++ modifiersScript s .method m.modifiers ++ m.nameScript s ++
      [.copyTrivia] ++ Script.arguments (m.parameters.map (Parameter.script s)) ++
      thrownScript s.target m.thrown ++ m.resultScript s ++ m.bodyScript s)

/-! ## Types -/

/-- The types that a type extends and implements. -/
def TypeHeader.basesScript (s : Settings) (h : TypeHeader) : Script :=
  let word := if h.isInterface then "extends" else "implements"
  (match h.superclass with
    | some type => [.copyTrivia, .swap "extends" ":", .copyTrivia] ++ type.script s
    | none => []) ++
    if h.interfaces.isEmpty then []
    else
      (if h.superclass.isSome then [.skipTrivia, .swap word ","]
      else [.copyTrivia, .swap word ":"]) ++
        Script.commaSeparated (h.interfaces.map (TypeRef.script s))

/-- The keyword that declares a type. -/
def TypeHeader.wordScript (target : Target) (h : TypeHeader) : Script :=
  if h.isInterface then
    [.swap "interface" (if target == .swift then "protocol" else "interface")]
  else [Script.keep "class"]

/-- A type declaration up to its members. -/
def TypeHeader.script (s : Settings) (h : TypeHeader) : Script :=
  refuseTypeParameters s.target h.typeParameters ++ [.copyTrivia] ++
    modifiersScript s .type h.modifiers ++ h.wordScript s.target ++ [.copyTrivia] ++
    h.name.script s ++ h.basesScript s ++ [.copyTrivia, Script.keep "\x7b"]

/-- Whether types of the form can be rendered. -/
def TypeForm.isPlain : TypeForm → Bool
  | .class | .interface => true
  | .enum | .annotationType => false

mutual

def Member.script (s : Settings) : Member → Script
  | .field decl => decl.script s
  | .method decl => decl.script s
  | .type header members =>
    .node s.target header.form.kind header.extent
      (if header.form.isPlain then
        header.script s ++ Member.scripts s members ++ [.copyTrivia, Script.keep "\x7d"]
      else Script.refuse s.target .noForm header.form.kind header.extent)
  | .setup extent =>
    .node s.target .initializer extent (Script.refuse s.target .noForm .initializer extent)

/-- Members one after another. -/
def Member.scripts (s : Settings) : List Member → Script
  | [] => []
  | m :: rest => .copyTrivia :: m.script s ++ Member.scripts s rest

end

def TypeDecl.script (s : Settings) (t : TypeDecl) : Script := t.toMember.script s

end Tree

end Lockstep
