import Lockstep.Target.Basic
import Lockstep.Tree.Keyword

/-!
# Modifiers of a target

What becomes of a modifier depends on the declaration that it belongs to.
-/

namespace Lockstep.Target

open Lockstep.Tree

/-- What a modifier list belongs to. -/
inductive Declaration where
  | type | field | method | localVariable | parameter
  deriving DecidableEq, Repr

namespace Declaration

def all : List Declaration := [.type, .field, .method, .localVariable, .parameter]

def key : Declaration → String
  | .type => "type"
  | .field => "field"
  | .method => "method"
  | .localVariable => "local"
  | .parameter => "parameter"

def ofKey? (key : String) : Option Declaration := all.find? (·.key == key)

def isVariable : Declaration → Bool
  | .field | .localVariable | .parameter => true
  | .type | .method => false

end Declaration

/-- What becomes of a modifier. -/
inductive ModifierRule where
  | keep
  | replace (word : String)
  | drop
  | unsupported
  deriving DecidableEq, Repr

/-- What becomes of a modifier of a declaration. -/
def modifierRule : Target → ModifierWord → Declaration → ModifierRule
  | .csharp, .public, _ | .csharp, .protected, _ | .csharp, .private, _ | .csharp, .abstract, _
  | .csharp, .volatile, _ => .keep
  -- a nested class of C# is static in the sense of Java
  | .csharp, .static, .type => .drop
  | .csharp, .static, _ => .keep
  | .csharp, .final, .type => .replace "sealed"
  | .csharp, .final, .field => .replace "readonly"
  | .csharp, .final, _ => .drop
  | .csharp, _, _ => .unsupported
  | .swift, .public, _ | .swift, .private, _ => .keep
  | .swift, .protected, _ => .replace "internal"
  | .swift, .static, .type => .drop
  | .swift, .static, _ => .keep
  | .swift, .final, .type | .swift, .final, .method => .keep
  -- constants of Swift have a keyword of their own
  | .swift, .final, _ => .drop
  | .swift, _, _ => .unsupported
  | .cpp, .final, .localVariable | .cpp, .final, .parameter => .replace "const"
  | .cpp, _, _ => .unsupported

end Lockstep.Target
