import Lockstep.Diagnostic.Basic
import Lockstep.Source.Cursor
import Lockstep.Target.Basic
import Lockstep.Tree.Kind

/-!
# Why rendering stops

- `Refusal`: why a construct is not rendered.
- `RenderError`: the ways in which rendering a file can end early; each of them has a message with a
  number, and all but a failing sink have a place.
-/

namespace Lockstep.Render

open Diagnostic Source Text Lockstep.Tree

/-- Why a construct is not rendered. -/
inductive Refusal where
  /-- The target has no form for nodes of the kind. -/
  | noForm
  | staticImport
  | importNotQualified (name : String)
  | qualifiedSuper
  | typeArguments
  | operatorMissing (token : String)
  | modifierUnsupported (token : String)
  | markUnmapped (name : String)
  | markArguments
  | typeParameters
  | extraDimensions
  | labeledJump
  | bodyNotBlock (word : String)
  | anonymousClass
  | qualifiedThis
  | severalTypes
  | noEquivalent (what : String)
  | noType
  deriving DecidableEq, Repr

namespace Refusal

/-- The message that reports the refusal. -/
def message : Refusal → Message
  | .noForm => .kindUnsupported
  | .staticImport => .staticImport
  | .importNotQualified _ => .importNotQualified
  | .qualifiedSuper => .qualifiedSuper
  | .typeArguments => .typeArguments
  | .operatorMissing _ => .operatorMissing
  | .modifierUnsupported _ => .modifierUnsupported
  | .markUnmapped _ => .annotationUnmapped
  | .markArguments => .annotationArguments
  | .typeParameters => .typeParameters
  | .extraDimensions => .extraDimensions
  | .labeledJump => .labeledJump
  | .bodyNotBlock _ => .bodyNotBlock
  | .anonymousClass => .anonymousClass
  | .qualifiedThis => .qualifiedThis
  | .severalTypes => .severalTypes
  | .noEquivalent _ => .noEquivalent
  | .noType => .noType

/-- What the message mentions, for a node of a kind and a target. -/
def arguments (target : Target) (kind : Kind) : Refusal → List String
  | .noForm => [kind.name, target.display]
  | .importNotQualified name | .markUnmapped name => [name]
  | .operatorMissing token | .modifierUnsupported token => [token, target.display]
  | .bodyNotBlock word => [word, target.display]
  | .noEquivalent what => [what, target.display]
  | _ => []

/-- The text of the report. -/
def text (r : Refusal) (target : Target) (kind : Kind) : String :=
  r.message.text (r.arguments target kind)

end Refusal

/-- Why rendering stopped. -/
inductive RenderError where
  /-- The target has no rendering for a node of that kind at that place. -/
  | unsupported (refusal : Refusal) (target : Target) (kind : Kind) (span : Span)
  /-- The tree and the source do not match. -/
  | desync (expected found : String) (span : Span)
  /-- It is not known what the member of that name is. -/
  | missingBinding (name : String) (span : Span)
  /-- The sink would not take a write. -/
  | output
  deriving DecidableEq, Repr

namespace RenderError

/-- A step of the cursor that fails shows that tree and source do not match. -/
def ofCursor : Cursor.Error → RenderError
  | .mismatch expected found pos =>
    .desync expected found ⟨pos, byteLength found.toList⟩
  | .unclosedComment pos => .desync "*/" "<end of file>" (.empty pos)
  | .outOfBounds pos length =>
    .desync s!"offset {pos}" s!"text of length {length}" (.empty (min pos length))

def span? : RenderError → Option Span
  | .unsupported _ _ _ span | .desync _ _ span | .missingBinding _ span => some span
  | .output => none

/-- The number of the message. -/
def code : RenderError → Nat
  | .unsupported refusal .. => refusal.message.code
  | .desync .. => Message.desync.code
  | .missingBinding .. => Message.bindingMissing.code
  | .output => Message.outputFailed.code

/-- The error in short, without a number. -/
def message : RenderError → String
  | .unsupported refusal target kind _ => refusal.text target kind
  | .desync expected found _ =>
    "expected `" ++ expected ++ "` but found `" ++ found ++ "`"
  | .missingBinding name _ => "no binding found for '" ++ name ++ "'"
  | .output => "writing to the output failed"

/-- The text of the diagnostic. -/
def report : RenderError → String
  | .unsupported refusal target kind _ => refusal.text target kind
  | .desync expected found _ => Message.desync.text [expected, found]
  | .missingBinding name _ => Message.bindingMissing.text [name]
  | .output => Message.outputFailed.text []

/-- The error as a diagnostic of a file. -/
def toDiagnostic (e : RenderError) (file : String) : Diagnostic :=
  ⟨some file, e.span?, e.report, e.code, .error⟩

end RenderError

end Lockstep.Render
