import Lockstep.Config.Options
import Lockstep.Text.Identifier

/-!
# Settings

Settings are options that have been checked and completed by the defaults. All files of a batch are
rendered with the same settings.

- `Settings.ofTarget`: the defaults for a target.
- `Settings.ofOptions`: the settings for options, or the first fault in them.
-/

namespace Lockstep.Config

/-- What is wrong with options. -/
inductive Fault where
  | widthTooLarge (width : Nat)
  /-- A name in that option is no list of identifiers with full stops between them. -/
  | notDotted (option name : String)
  | unknownTarget (name : String)
  deriving DecidableEq, Repr

/-- The largest indentation width. -/
def maxIndentWidth : Nat := 16

def Fault.message : Fault → String
  | .widthTooLarge width => s!"indentWidth must be at most {maxIndentWidth}, got {width}"
  | .notDotted option name => s!"'{name}' in {option} is not a valid dotted name"
  | .unknownTarget name => s!"unknown target '{name}'; expected one of csharp, swift, cpp"

/-- The target that a name means. -/
def targetOfName (name : String) : Except Fault Target :=
  match Target.ofName? name with
  | some target => .ok target
  | none => .error (.unknownTarget name)

/-- What becomes of an annotation. -/
inductive MarkRule where
  /-- It is dropped. -/
  | suppress
  /-- It becomes an attribute of that name. -/
  | attribute (name : String)
  deriving DecidableEq, Repr

structure Settings where
  target : Target
  indentWidth : Nat
  /-- What becomes of annotations, by qualified name. -/
  marks : OrderedMap MarkRule
  extraImports : List String
  genericNamespaces : OrderedMap String
  implicitImports : OrderedMap String

namespace Settings

/-- The annotations that are dropped unless the options say otherwise. -/
def suppressed : List String := ["org.jetbrains.annotations.Nullable", "java.lang.Override"]

def defaultIndentWidth : Nat := 4

/-- The defaults for a target. -/
def ofTarget (target : Target) : Settings where
  target := target
  indentWidth := defaultIndentWidth
  marks := .ofList (suppressed.map (·, .suppress))
  extraImports := []
  genericNamespaces := ∅
  implicitImports := ∅

/-! ## Checking options -/

/-- A name in an option has to be dotted. -/
def checkName (option name : String) : Except Fault Unit :=
  if Text.isDottedName name then .ok () else .error (.notDotted option name)

def checkWidth (width : Nat) : Except Fault Unit :=
  if width ≤ maxIndentWidth then .ok () else .error (.widthTooLarge width)

/-- What becomes of an annotation, by what the options say to write. -/
def markRule : Option String → MarkRule
  | none => .suppress
  | some name => .attribute name

def checkMark (entry : String × Option String) : Except Fault Unit := do
  checkName "annotations" entry.1
  entry.2.forM (checkName "annotations")

/-- Both names of an entry have to be dotted. -/
def checkEntry (option : String) (entry : String × String) : Except Fault Unit := do
  checkName option entry.1
  checkName option entry.2

/-- All names in the options have to be dotted, and the indentation must not be too wide. -/
def check (options : Options) : Except Fault Unit := do
  options.indentWidth.forM checkWidth
  options.marks.forM (·.entries.forM checkMark)
  options.extraImports.forM (·.forM (checkName "extraImports"))
  options.genericNamespaces.forM (·.entries.forM (checkEntry "genericNamespaces"))
  options.implicitImports.forM (·.entries.forM (checkEntry "implicitImports"))

/-- The texts without those that have come before. -/
def distinct (texts : List String) : List String :=
  texts.foldl (fun seen text => if seen.contains text then seen else seen ++ [text]) []

/-- The options on top of the defaults. -/
def resolve (options : Options) : Settings :=
  let base := ofTarget (options.target.getD .csharp)
  { base with
    indentWidth := options.indentWidth.getD base.indentWidth
    marks := ((options.marks.getD ∅).entries.map fun entry => (entry.1, markRule entry.2)).foldl
      (fun m entry => m.put entry.1 entry.2) base.marks
    extraImports := distinct (options.extraImports.getD [])
    genericNamespaces := options.genericNamespaces.getD ∅
    implicitImports := options.implicitImports.getD ∅ }

/-- The settings for options, or the first fault in them. -/
def ofOptions (options : Options) : Except Fault Settings := do
  check options
  return resolve options

/-! ## Looking up -/

/-- What becomes of an annotation. -/
def mark? (s : Settings) (qualifiedName : String) : Option MarkRule := s.marks.get? qualifiedName

/-- Whether it is known what becomes of an annotation. -/
def isMarked (s : Settings) (qualifiedName : String) : Bool := s.marks.contains qualifiedName

/-- The namespace for a package that a generic type is imported from. -/
def genericNamespace (s : Settings) (package : String) : String :=
  (s.genericNamespaces.get? package).getD package

/-- The namespace that has to be imported where a type is used. -/
def implicitImport? (s : Settings) (qualifiedName : String) : Option String :=
  s.implicitImports.get? qualifiedName

end Settings

end Lockstep.Config
