import Lockstep.Target.Basic

/-!
# Reserved words

Words that a target reserves and Java does not. An identifier that is one of them is escaped, in the
way the target allows for it.
-/

namespace Lockstep.Target

/-- The words that the target reserves and Java does not. -/
def reservedWords : Target → List String
  | .csharp =>
    ["as", "base", "bool", "checked", "decimal", "delegate", "event", "explicit", "extern",
      "fixed", "foreach", "implicit", "in", "internal", "is", "lock", "namespace", "object",
      "operator", "out", "override", "params", "readonly", "ref", "sbyte", "sealed", "sizeof",
      "stackalloc", "string", "struct", "typeof", "uint", "ulong", "unchecked", "unsafe",
      "ushort", "using", "virtual"]
  | .swift =>
    ["as", "associatedtype", "deinit", "defer", "extension", "fallthrough", "fileprivate", "func",
      "guard", "in", "init", "inout", "internal", "is", "let", "nil", "operator",
      "precedencegroup", "protocol", "repeat", "rethrows", "self", "Self", "struct", "subscript",
      "typealias", "var", "where", "Any"]
  | .cpp =>
    ["alignas", "alignof", "and", "asm", "auto", "bitand", "bitor", "compl", "const_cast",
      "constexpr", "decltype", "delete", "dynamic_cast", "explicit", "export", "extern", "friend",
      "inline", "mutable", "namespace", "noexcept", "not", "nullptr", "operator", "or",
      "register", "reinterpret_cast", "signed", "sizeof", "static_assert", "static_cast",
      "struct", "template", "typedef", "typeid", "typename", "union", "unsigned", "using",
      "virtual", "xor"]

def isReserved (t : Target) (identifier : String) : Bool := t.reservedWords.contains identifier

/-- The identifier as the target spells it: escaped if it is reserved. -/
def escaped (t : Target) (identifier : String) : String :=
  if t.isReserved identifier then
    match t with
    | .csharp => "@" ++ identifier
    | .swift => "`" ++ identifier ++ "`"
    | .cpp => identifier ++ "_"
  else identifier

end Lockstep.Target
