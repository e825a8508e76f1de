import Lockstep.Render.Decl

/-!
# Rendering compilation units

A unit is rendered in two rounds. The type comes first, and what is written for it is held back,
since only then it is known which namespaces the body needs. The head of the file follows: leading
comments and imports. The body is put behind it.

In C# a package becomes a block around the type. In Swift packages and imports are dropped.
-/

namespace Lockstep

open Config Render Target Text

namespace Render

/-- Render a node by its script. -/
def runScript (script : Script) : Rendering Unit := Step.runAll script

/-- Check that a node may be rendered and begins here, then render it. -/
def inNode (target : Target) (kind : Tree.Kind) (extent : Extent) (body : Rendering Unit) :
    Rendering Unit := do
  unless target.supports kind do
    throw (.unsupported .noForm target kind extent.toSpan)
  enter kind extent
  body

/-- The directive that imports a namespace. -/
def importDirective : Target → String → String
  | .csharp, name => "using " ++ name ++ ";"
  | .swift, name => "import " ++ name
  | .cpp, name => "using namespace " ++ name ++ ";"

/-- Import namespaces that are not imported yet, each on a line of its own. Returns whether there
was one. -/
def addImports (target : Target) : List String → Rendering Bool
  | [] => return false
  | name :: names => do
    if ← recordImport name then
      output Output.Writer.ensureLineStart
      write (importDirective target name)
      let _ ← addImports target names
      return true
    else addImports target names

end Render

namespace Tree

/-! ## Packages -/

/-- Whether a package becomes a block around the type. -/
def opensNamespace (target : Target) : Bool := target == .csharp

/-- A package opens a block, and what follows is indented. -/
def PackageDecl.render (s : Settings) (p : PackageDecl) : Rendering Unit :=
  inNode s.target .packageDeclaration p.extent do
    if opensNamespace s.target then
      swap "package" "namespace"
      let _ ← copyTrivia
      runScript (p.name.script s)
      skipTriviaUntil none
      swap ";" ""
      output (Output.Writer.writeLine " \x7b")
      modify fun ctx => { ctx with writer := ctx.writer.indentBy s.indentWidth }
    else replaceExtent p.extent ""

/-! ## Imports -/

/-- Drop an import with the rest of its line. -/
def ImportDecl.skip (i : ImportDecl) : Rendering Unit := do
  jumpTo i.extent.stop.toNat
  let _ ← skipLineRest

/-- The end of an import. -/
def importEnd : Rendering Unit := do
  let _ ← copyTrivia
  swap ";" ";"

/-- Render an import, unless the same has been imported before. -/
def ImportDecl.renderNew (i : ImportDecl) (key : String) (body : Rendering Unit) :
    Rendering Unit := do
  if ← recordImport key then
    swap "import" "using"
    let _ ← copyTrivia
    body
    importEnd
  else i.skip

/-- Import all of a package. -/
def ImportDecl.renderAll (s : Settings) (i : ImportDecl) : Rendering Unit :=
  i.renderNew i.name.dotted do
    runScript (i.name.script s)
    skipTriviaUntil none
    swap "." ""
    skipTriviaUntil none
    swap "*" ""

/-- Import the namespace for the package of a generic type. -/
def ImportDecl.renderGeneric (s : Settings) (i : ImportDecl) (qualifier : Name) : Rendering Unit :=
  let name := s.genericNamespace qualifier.dotted
  i.renderNew name (replaceExtent i.name.extent name)

/-- Import a single type by an alias. -/
def ImportDecl.renderAlias (s : Settings) (i : ImportDecl) : Rendering Unit :=
  i.renderNew i.name.dotted do
    write (i.name.last.identifier ++ " = ")
    runScript (i.name.script s)

/-- Render an import. The import of an annotation is dropped if it is known what becomes of the
annotation. -/
def ImportDecl.render (s : Settings) (i : ImportDecl) : Rendering Unit :=
  inNode s.target .importDeclaration i.extent do
    let refuse (r : Refusal) : Rendering Unit :=
      throw (.unsupported r s.target .importDeclaration i.extent.toSpan)
    if i.isStatic then refuse .staticImport
    else
      match i.name with
      | .simple n => refuse (.importNotQualified n.identifier)
      | .qualified _ qualifier _ _ =>
        if s.isMarked i.name.dotted || s.target == .swift then i.skip
        else if i.isOnDemand then i.renderAll s
        else if i.isGeneric then i.renderGeneric s qualifier
        else i.renderAlias s

/-- Render the imports with the trivia between them. -/
def renderImports (s : Settings) (limit : Nat) : List ImportDecl → Rendering Unit
  | [] => pure ()
  | i :: rest => do
    let _ ← copyTriviaUntil (some limit)
    i.render s
    renderImports s limit rest

/-- Import what the settings say and what the body needs. -/
def renderAddedImports (s : Settings) : Rendering Unit := do
  let added ← addImports s.target (s.extraImports ++ (← get).required)
  if added && !(← get).cursor.atLineBreak then output (Output.Writer.writeLine "")

/-! ## Units -/

/-- Render the type, with the trivia after it. -/
def renderType (s : Settings) (type : TypeDecl) : Rendering Unit := do
  jumpTo type.header.extent.start
  runScript (type.script s)
  let _ ← copyTrivia

/-- Render the type, in the block of its package if the target has one. -/
def renderBody (s : Settings) (package : Option PackageDecl) (type : TypeDecl) :
    Rendering Unit := do
  match package with
  | some p =>
    if opensNamespace s.target then
      let outer := (← get).writer.indentation
      revisit p.extent.start (p.render s)
      renderType s type
      modify fun ctx => { ctx with writer := ctx.writer.setIndentation outer }
      output Output.Writer.ensureLineStart
      output (Output.Writer.writeLine "\x7d")
    else renderType s type
  | none => renderType s type

/-- Go back to the end of the package, or to where the leading trivia ends. -/
def returnToHead (package : Option PackageDecl) (limit : Nat) : Rendering Unit :=
  match package with
  | some p => do
    jumpTo p.extent.stop.toNat
    let _ ← skipLineRest
  | none => do
    jumpTo 0
    skipTriviaUntil (some limit)

/-- Render a unit that declares one type. -/
def CompilationUnit.renderWith (s : Settings) (u : CompilationUnit) (type : TypeDecl) :
    Rendering Unit := do
  let limit := type.header.extent.start
  let _ ← copyTriviaUntil (some limit)
  let body ← captured (renderBody s u.package type)
  returnToHead u.package limit
  let _ ← copyTriviaUntil (some limit)
  renderImports s limit u.imports
  renderAddedImports s
  let _ ← copyTriviaUntil (some limit)
  output (Output.Writer.writeRaw body)
  jumpToEnd

/-- Render a unit, which has to declare exactly one type. -/
def CompilationUnit.render (s : Settings) (u : CompilationUnit) : Rendering Unit :=
  inNode s.target .compilationUnit u.extent do
    match u.types with
    | [type] => u.renderWith s type
    | [] => throw (.unsupported .noType s.target .compilationUnit u.extent.toSpan)
    | _ :: second :: _ =>
      throw (.unsupported .severalTypes s.target second.header.form.kind
        second.header.extent.toSpan)

end Tree

end Lockstep
