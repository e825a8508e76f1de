import Lockstep.Batch.Basic
import Lockstep.CommandLine.Arguments
import Lockstep.Text.Line

/-!
# Running the program

A run reads the options and the sources, renders the sources, and prints the outputs or writes them
to files. What it prints is collected in a report.

- `Failure`: why a run ends early.
- `run`: a run for the arguments on the command line.
-/

namespace Lockstep.CommandLine

open Batch Config Text

/-- What a run has printed, and the code that it ends with. -/
structure Report where
  exitCode : UInt8
  out : String
  err : String
  deriving DecidableEq, Repr

/-- The code for unreadable input, bad configuration and outputs that cannot be written. -/
def failureCode : UInt8 := 1

/-- The code for sources that cannot be rendered, and for arguments that make no sense. -/
def errorCode : UInt8 := 2

/-- Why a run ends early. -/
inductive Failure where
  | unreadableConfig (path : String) (error : FileError)
  | malformedConfig (path : String)
  | target (fault : Fault)
  | noInput
  | settings (fault : Fault)
  | load (error : BatchError)
  | write (error : BatchError)
  deriving DecidableEq, Repr

/-- A failure of the configuration file at a path. -/
def configMessage (path detail : String) : String :=
  "Failed to read project '" ++ path ++ "': " ++ detail

def Failure.message : Failure → String
  | .unreadableConfig path error =>
    configMessage path ("cannot read config file '" ++ path ++ "': " ++ error.message)
  | .malformedConfig path => configMessage path "invalid config JSON"
  | .target fault => fault.message
  | .noInput => Diagnostic.Message.noInputFiles.text []
  | .settings fault => "Invalid configuration: " ++ fault.message
  | .load error => "Failed to load source files: " ++ error.message
  | .write error => "Failed to write output: " ++ error.message

/-- The report of a run that ends early. -/
def Failure.report (printed : String) (f : Failure) : Report :=
  ⟨failureCode, "", printed ++ "error: " ++ f.message ++ "\n"⟩

/-! ## Options and files -/

/-- The configuration file of a directory. -/
def configFile : String := "javelin.json"

section

variable {m : Type → Type} [Monad m] [FileStore m]

/-- The configuration file that is asked for; if no files are named, that of the working
directory. -/
def configPath? (a : Arguments) : m (Option String) := do
  match a.project with
  | some path => return some path
  | none =>
    if a.files.isEmpty then
      return if ← FileStore.has configFile then some configFile else none
    else return none

/-- The options in a configuration file. -/
def readOptions (path : String) : ExceptT Failure m Options := do
  match ← (FileStore.read path : m _) with
  | .error e => throw (.unreadableConfig path e)
  | .ok text =>
    match Options.ofText? text with
    | some options => return options
    | none => throw (.malformedConfig path)

end

/-- The options that the arguments set. -/
def Arguments.options (a : Arguments) : Except Fault Options := do
  let target ← a.target.mapM targetOfName
  return { Options.empty with target := target, outDir := a.outDir }

/-- The directory that the files of a configuration are seen from. -/
def configDir (path : Option String) : String :=
  match path.map Path.parent with
  | none | some "" => "."
  | some dir => dir

/-- The files on the command line, or else those of the configuration. -/
def inputFiles (a : Arguments) (options : Options) (config : Option String) : List String :=
  if a.files.isEmpty then (options.files.getD []).map (Path.join (configDir config)) else a.files

/-! ## Printing -/

/-- A diagnostic with line and column, or as far as its place is known. -/
def located (sources : List SourceFile) (d : Diagnostic) : String :=
  let source := d.file.bind fun name => sources.find? (·.name == name)
  match source, d.span with
  | some source, some span =>
    let place := (LineIndex.ofText source.text).position span.start
    source.name ++ ":" ++ place.oneBased ++ ": " ++ d.summary
  | _, _ => d.display

/-- The diagnostics, one on a line. -/
def diagnosticLines (sources : List SourceFile) (ds : List Diagnostic) : String :=
  String.join (ds.map fun d => located sources d ++ "\n")

/-- All outputs; if there are several, each after a line with its name. -/
def outputText (files : List OutputFile) : String :=
  String.join (files.map fun f =>
    if files.length > 1 then "// " ++ f.name ++ "\n" ++ f.text else f.text)

/-- How many files could not be rendered. -/
def summaryLine (errors : Nat) : String :=
  let noun := if errors == 1 then "file" else "files"
  "\nFailed to translate " ++ toString errors ++ " " ++ noun ++ ".\n"

/-! ## Runs -/

section

variable {m : Type → Type} [Monad m] [FileStore m]

/-- The options and the files for the arguments. -/
def prepare (a : Arguments) : ExceptT Failure m (Options × List String) := do
  let config ← (configPath? a : m _)
  let base ← match config with
    | some path => readOptions path
    | none => pure .empty
  let top ← MonadExcept.ofExcept (a.options.mapError Failure.target)
  let options := base.merge top
  let files := inputFiles a options config
  if files.isEmpty then throw .noInput
  return (options, files)

/-- The settings and the sources for the arguments. -/
def load (a : Arguments) : ExceptT Failure m (Settings × Option String × List SourceFile) := do
  let (options, files) ← prepare a
  let settings ← MonadExcept.ofExcept ((Settings.ofOptions options).mapError Failure.settings)
  let (sources, error) ← (loadFiles files : m _)
  match error with
  | some e => throw (.load e)
  | none => return (settings, options.outDir, sources)

/-- Write the outputs, unless they are printed or not wanted. -/
def deliver (a : Arguments) (target : Target) (outDir : Option String) (files : List OutputFile) :
    ExceptT Failure m Unit := do
  unless a.stdout || a.noEmit do
    match ← (emit target outDir files : ExceptT BatchError m _).run with
    | .ok _ => return ()
    | .error e => throw (.write e)

/-- Render the sources, report the diagnostics, and deliver the outputs. -/
def finish (a : Arguments) (settings : Settings) (outDir : Option String)
    (sources : List SourceFile) : m Report := do
  let result := renderFiles settings sources
  let printed := diagnosticLines sources result.diagnostics
  match ← (deliver a settings.target outDir result.files : ExceptT Failure m Unit).run with
  | .error f => return f.report printed
  | .ok _ =>
    let out := if a.stdout then outputText result.files else ""
    let errors := Diagnostic.errorCount result.diagnostics
    if errors == 0 then return ⟨0, out, printed⟩
    else return ⟨errorCode, out, printed ++ summaryLine errors⟩

def versionLine : String := "jvt Version 0.1.0\n"

def usage : String :=
  "Usage: jvt [OPTIONS] [FILE]...\n\n" ++
  "  -p, --project <PROJECT>  Path to javelin.json\n" ++
  "      --target <TARGET>    Target language: csharp, swift or cpp\n" ++
  "      --outDir <OUT_DIR>   Directory for the outputs\n" ++
  "      --noEmit             Report errors without writing outputs\n" ++
  "      --stdout             Print the outputs\n" ++
  "      --pretty[=<PRETTY>]  Whether diagnostics may be decorated\n" ++
  "  -v, --version            Print the version\n" ++
  "  -h, --help               Print help\n"

/-- A run for arguments. -/
def Arguments.run (a : Arguments) : m Report := do
  if a.help then return ⟨0, usage, ""⟩
  else if a.version then return ⟨0, versionLine, ""⟩
  else
    match ← (load a : ExceptT Failure m _).run with
    | .error f => return f.report ""
    | .ok (settings, outDir, sources) => finish a settings outDir sources

/-- A run for the words on the command line. -/
def run (words : List String) : m Report := do
  match Arguments.ofWords words with
  | .error e => return ⟨errorCode, "", "error: " ++ e.message ++ "\n\n" ++ usage⟩
  | .ok a => a.run

end

end Lockstep.CommandLine
