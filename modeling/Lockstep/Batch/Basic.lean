import Lockstep.Batch.FileStore
import Lockstep.Batch.Path
import Lockstep.Json.Reader
import Lockstep.Render.Node
import Lockstep.Tree.Reader
import Lockstep.Tree.Shape

/-!
# Batches

A batch is a list of Java files, each with its syntax tree, which is kept in a file beside it. The
files are rendered one by one; a file that cannot be rendered gives a diagnostic and does not stop
the others.

- `loadFile`, `loadFiles`: reading sources and trees.
- `renderFiles`: the outputs and the diagnostics.
- `outputPath`, `emit`: where the outputs go, and writing them.
-/

namespace Lockstep.Batch

open Config Render Lockstep.Tree

/-- A source file with its tree. -/
structure SourceFile where
  name : String
  text : String
  tree : CompilationUnit

/-- A file that has been rendered, by the name of its source. -/
structure OutputFile where
  name : String
  text : String
  deriving DecidableEq, Repr

/-- What became of a batch. -/
structure Result where
  files : List OutputFile
  /-- By file and place. -/
  diagnostics : List Diagnostic

/-- Why a batch cannot be loaded or its outputs written. -/
inductive BatchError where
  | read (path : String) (error : FileError)
  | write (path : String) (error : FileError)
  | tree (path : String)
  deriving DecidableEq, Repr

def BatchError.message : BatchError → String
  | .read path error => "cannot read '" ++ path ++ "': " ++ error.message
  | .write path error => "cannot write '" ++ path ++ "': " ++ error.message
  | .tree path => "invalid syntax tree in '" ++ path ++ "'"

/-! ## Loading -/

/-- The path of the tree for a source. -/
def treePath (path : String) : String := path ++ ".ast.json"

/-- How deep the containers in the text of a tree may be nested where it is read. -/
def maxTreeDepth : Nat := 127

/-- The tree that a text stands for. -/
def treeOfText? (text : String) : Option CompilationUnit :=
  (Json.parse? (some maxTreeDepth) CompilationUnit.shape text).bind CompilationUnit.ofJson?

section

variable {m : Type → Type} [Monad m] [FileStore m]

/-- Read a file. -/
def readFile (path : String) : ExceptT BatchError m String := do
  match ← (FileStore.read path : m _) with
  | .ok text => return text
  | .error e => throw (.read path e)

/-- Read a source and its tree. -/
def loadFile (path : String) : ExceptT BatchError m SourceFile := do
  let text ← readFile path
  let tree ← readFile (treePath path)
  match treeOfText? tree with
  | some tree => return ⟨path, text, tree⟩
  | none => throw (.tree (treePath path))

/-- Read sources and their trees up to the first that fails. -/
def loadFiles : List String → m (List SourceFile × Option BatchError)
  | [] => return ([], none)
  | path :: paths => do
    match ← (loadFile path : ExceptT BatchError m SourceFile).run with
    | .error e => return ([], some e)
    | .ok file =>
      let (files, error) ← loadFiles paths
      return (file :: files, error)

end

/-! ## Rendering -/

/-- Render a file. -/
def SourceFile.render (s : Settings) (file : SourceFile) : Except Diagnostic OutputFile :=
  let outcome := renderUnit s file.text true file.tree
  match outcome.error with
  | none => .ok ⟨file.name, outcome.received⟩
  | some e => .error (e.toDiagnostic file.name)

/-- The output of a file, if there is one. -/
def output? : Except Diagnostic OutputFile → Option OutputFile
  | .ok file => some file
  | .error _ => none

/-- The diagnostic of a file, if there is one. -/
def diagnostic? : Except Diagnostic OutputFile → Option Diagnostic
  | .ok _ => none
  | .error d => some d

/-- Render all files. -/
def renderFiles (s : Settings) (files : List SourceFile) : Result :=
  let results := files.map (·.render s)
  ⟨results.filterMap output?, Diagnostic.sort (results.filterMap diagnostic?)⟩

/-- The output for a source of that name. -/
def Result.file? (r : Result) (name : String) : Option OutputFile :=
  r.files.find? (·.name == name)

/-! ## Writing -/

/-- Where the output for a source goes: beside the source, or into a directory of its own. -/
def outputPath (target : Target) (outDir : Option String) (name : String) : String :=
  let renamed := Path.withExtension name target.extension
  match outDir, Path.fileName? renamed.toList with
  | some dir, some file => Path.join dir (String.ofList file)
  | _, _ => renamed

section

variable {m : Type → Type} [Monad m] [FileStore m]

/-- Write outputs and return their paths. -/
def emitFiles (target : Target) (outDir : Option String) :
    List OutputFile → ExceptT BatchError m (List String)
  | [] => return []
  | file :: files => do
    let path := outputPath target outDir file.name
    match ← (FileStore.write path file.text : m _) with
    | .error e => throw (.write path e)
    | .ok _ =>
      let paths ← emitFiles target outDir files
      return path :: paths

/-- Write all outputs, after making the directory they go to. -/
def emit (target : Target) (outDir : Option String) (files : List OutputFile) :
    ExceptT BatchError m (List String) := do
  match outDir with
  | none => emitFiles target outDir files
  | some dir =>
    match ← (FileStore.makeDirs dir : m _) with
    | .error e => throw (.write dir e)
    | .ok _ => emitFiles target outDir files

end

end Lockstep.Batch
