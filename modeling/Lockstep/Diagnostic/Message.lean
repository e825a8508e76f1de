import Lockstep.Text.Placeholder

/-!
# The message table

Every condition that a run can report has a message with a number, a category and a template. The
names say what the message reports; the table lists all of them in the order of their numbers.
-/

namespace Lockstep.Diagnostic

/-- How much a message matters. -/
inductive Category where
  | warning
  | error
  | message
  deriving DecidableEq, Repr

def Category.word : Category → String
  | .warning => "warning"
  | .error => "error"
  | .message => "message"

/-- A numbered message with places for its arguments. -/
structure Message where
  code : Nat
  category : Category
  template : String
  deriving DecidableEq, Repr

namespace Message

/-- The template with the arguments filled in. -/
def text (m : Message) (args : List String) : String := Text.fill m.template args

/-! ## Constructs that cannot be rendered -/

def kindUnsupported : Message :=
  ⟨3001, .error, "\x7b0\x7d is not supported when translating to \x7b1\x7d."⟩

def staticImport : Message :=
  ⟨3002, .error, "Static imports aren't currently supported."⟩

def importNotQualified : Message :=
  ⟨3003, .error,
    "Import '\x7b0\x7d' is unexpectedly not a fully qualified name (with a '.' in it)."⟩

def qualifiedSuper : Message :=
  ⟨3004, .error,
    "Super method invocations with qualifiers before 'super' aren't currently supported."⟩

def typeArguments : Message :=
  ⟨3005, .error, "Type arguments aren't currently supported on a method invocation."⟩

def operatorMissing : Message :=
  ⟨3006, .error, "Operator '\x7b0\x7d' has no equivalent in \x7b1\x7d."⟩

def modifierUnsupported : Message :=
  ⟨3007, .error, "The '\x7b0\x7d' modifier isn't supported on this declaration in \x7b1\x7d."⟩

def annotationUnmapped : Message :=
  ⟨3008, .error, "Annotation '\x7b0\x7d' has no translation; add it to the annotation map."⟩

def annotationArguments : Message :=
  ⟨3009, .error, "Annotations with arguments aren't currently supported."⟩

def typeParameters : Message :=
  ⟨3010, .error, "Generic type parameters aren't currently supported."⟩

def extraDimensions : Message :=
  ⟨3011, .error,
    "Array dimensions after a variable name aren't supported; declare them on the type."⟩

def labeledJump : Message :=
  ⟨3012, .error, "Labeled break and continue statements aren't currently supported."⟩

def bodyNotBlock : Message :=
  ⟨3013, .error,
    "The body of this \x7b0\x7d statement must be a block when translating to \x7b1\x7d."⟩

def anonymousClass : Message :=
  ⟨3014, .error, "Anonymous class bodies aren't currently supported."⟩

def qualifiedThis : Message :=
  ⟨3015, .error, "Qualified 'this' expressions aren't currently supported."⟩

def severalTypes : Message :=
  ⟨3016, .error, "Only one top-level type declaration per file is currently supported."⟩

def noEquivalent : Message :=
  ⟨3017, .error, "'\x7b0\x7d' has no equivalent in \x7b1\x7d."⟩

def noType : Message :=
  ⟨3018, .error, "The compilation unit doesn't declare a type."⟩

/-! ## Failures of a run over one file -/

def desync : Message :=
  ⟨4001, .error,
    "Expected '\x7b0\x7d' but found '\x7b1\x7d'; the syntax tree does not match the source text."⟩

def bindingMissing : Message :=
  ⟨4002, .error,
    "No binding found for '\x7b0\x7d'; ensure the input source has no compile errors."⟩

def outputFailed : Message :=
  ⟨4003, .error, "Writing to the output failed."⟩

/-! ## The batch -/

def noInputFiles : Message :=
  ⟨5003, .error, "No input files found."⟩

def filesDone : Message :=
  ⟨5005, .message, "Translated \x7b0\x7d file(s)."⟩

/-- All messages, in the order of their numbers. -/
def table : List Message :=
  [kindUnsupported, staticImport, importNotQualified, qualifiedSuper, typeArguments,
    operatorMissing, modifierUnsupported, annotationUnmapped, annotationArguments, typeParameters,
    extraDimensions, labeledJump, bodyNotBlock, anonymousClass, qualifiedThis, severalTypes,
    noEquivalent, noType, desync, bindingMissing, outputFailed, noInputFiles, filesDone]

/-- The message with a number. -/
def ofCode? (code : Nat) : Option Message := table.find? (·.code == code)

/-- The numbers tell the messages apart. -/
theorem table_codes_nodup : (table.map (·.code)).Nodup := by decide

end Message

end Lockstep.Diagnostic
