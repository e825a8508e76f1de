import Lockstep.Target.Basic
import Lockstep.Tree.Keyword

/-!
# Types of a target

The spelling of the primitive types, and the types of a target that stand for types of `java.lang`.
-/

namespace Lockstep.Target

open Lockstep.Tree

def primitiveType : Target → Primitive → String
  | .csharp, .boolean => "bool"
  | .csharp, .byte => "sbyte"
  | .csharp, p => p.keyword
  | .swift, .boolean => "Bool"
  | .swift, .byte => "Int8"
  | .swift, .char => "Character"
  | .swift, .short => "Int16"
  | .swift, .int => "Int32"
  | .swift, .long => "Int64"
  | .swift, .float => "Float"
  | .swift, .double => "Double"
  | .swift, .void => "Void"
  | .cpp, .boolean => "bool"
  | .cpp, .byte => "int8_t"
  | .cpp, .char => "char16_t"
  | .cpp, .short => "int16_t"
  | .cpp, .int => "int32_t"
  | .cpp, .long => "int64_t"
  | .cpp, .float => "float"
  | .cpp, .double => "double"
  | .cpp, .void => "void"

/-- The type that stands for a type of `java.lang`, by its qualified name. -/
def wellKnownType? : Target → String → Option String
  | .csharp, "java.lang.String" => some "string"
  | .csharp, "java.lang.Object" => some "object"
  | .swift, "java.lang.String" => some "String"
  | .swift, "java.lang.Object" => some "AnyObject"
  | _, _ => none

end Lockstep.Target
