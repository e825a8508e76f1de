import Lockstep.Target.Basic
import Lockstep.Tree.Kind

/-!
# Spellings of a target

What the targets spell differently while the grammar stays the same, and the kinds of nodes that a
target has no form for.
-/

namespace Lockstep.Target

open Lockstep.Tree

/-- The spellings and gaps of a target. -/
structure Profile where
  /-- Between a type and its member. -/
  staticAccess : String
  /-- Between an object and its member. -/
  instanceAccess : String
  superWord : Option String
  thisWord : String
  nullWord : String
  instanceOfWord : Option String
  /-- Whether statements end with a semicolon. -/
  hasTerminator : Bool
  unsupported : List Kind
  deriving Repr

/-- The function that is called where the target has no unsigned right shift. -/
def unsignedShiftFunction : String := "rightShiftUnsigned"

def profile : Target → Profile
  | .csharp => {
      staticAccess := ".", instanceAccess := ".", superWord := some "base", thisWord := "this"
      nullWord := "null", instanceOfWord := some "is", hasTerminator := true, unsupported := [] }
  | .swift => {
      staticAccess := ".", instanceAccess := ".", superWord := some "super", thisWord := "self"
      nullWord := "nil", instanceOfWord := some "is", hasTerminator := false
      unsupported := [.castExpression] }
  | .cpp => {
      staticAccess := "::", instanceAccess := "->", superWord := none, thisWord := "this"
      nullWord := "nullptr", instanceOfWord := none, hasTerminator := true
      unsupported := [.compilationUnit, .packageDeclaration, .importDeclaration, .typeDeclaration,
        .fieldDeclaration, .methodDeclaration, .singleVariableDeclaration, .annotationMarker,
        .arrayType, .superMethodInvocation, .superFieldAccess, .instanceofExpression] }

/-- What stands between the owner of a member and its name. -/
def memberAccess (t : Target) (isStatic : Bool) : String :=
  if isStatic then t.profile.staticAccess else t.profile.instanceAccess

/-- Whether the target has a form for nodes of a kind. -/
def supports (t : Target) (kind : Kind) : Bool := !t.profile.unsupported.contains kind

end Lockstep.Target
