import Lockstep.Tree.Keyword
import Lockstep.Tree.Kind
import Lockstep.Tree.Name

/-!
# Types in a tree

A reference to a type, as it is written. Wildcards are known by their place alone.
-/

namespace Lockstep.Tree

open Text

/-- A reference to a type. -/
inductive TypeRef where
  | primitive (extent : Extent) (primitive : Primitive)
  | named (extent : Extent) (name : Name) (binding : Option TypeBinding)
  | array (extent : Extent) (element : TypeRef) (dimensions : UInt32)
  | parameterized (extent : Extent) (base : TypeRef) (arguments : List TypeRef)
  | wildcard (extent : Extent)

namespace TypeRef

def extent : TypeRef → Extent
  | .primitive extent _ | .named extent .. | .array extent .. | .parameterized extent ..
  | .wildcard extent => extent

def kind : TypeRef → Kind
  | .primitive .. => .primitiveType
  | .named .. => .simpleType
  | .array .. => .arrayType
  | .parameterized .. => .parameterizedType
  | .wildcard _ => .wildcardType

/-- Whether the type is the absence of a value. -/
def isVoid : TypeRef → Bool
  | .primitive _ .void => true
  | _ => false

end TypeRef

end Lockstep.Tree
