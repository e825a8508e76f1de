/-!
# Keywords

The keywords of Java that name primitive types and modifiers. Each modifier has a bit of its own,
so that a modifier list can be summed up in one number.
-/

namespace Lockstep.Tree

/-- The primitive types, and the absence of a value. -/
inductive Primitive where
  | boolean | byte | char | short | int | long | float | double | void
  deriving DecidableEq, Repr

namespace Primitive

def all : List Primitive :=
  [.boolean, .byte, .char, .short, .int, .long, .float, .double, .void]

def keyword : Primitive → String
  | .boolean => "boolean"
  | .byte => "byte"
  | .char => "char"
  | .short => "short"
  | .int => "int"
  | .long => "long"
  | .float => "float"
  | .double => "double"
  | .void => "void"

def ofKeyword? (keyword : String) : Option Primitive := all.find? (·.keyword == keyword)

theorem ofKeyword?_keyword (p : Primitive) : ofKeyword? p.keyword = some p := by cases p <;> rfl

end Primitive

/-- The modifiers of a declaration. -/
inductive ModifierWord where
  | «public» | «protected» | «private» | static | abstract | final
  | native | synchronized | transient | volatile | strictfp | default
  deriving DecidableEq, Repr

namespace ModifierWord

def all : List ModifierWord :=
  [.public, .protected, .private, .static, .abstract, .final, .native, .synchronized, .transient,
    .volatile, .strictfp, .default]

def token : ModifierWord → String
  | .public => "public"
  | .protected => "protected"
  | .private => "private"
  | .static => "static"
  | .abstract => "abstract"
  | .final => "final"
  | .native => "native"
  | .synchronized => "synchronized"
  | .transient => "transient"
  | .volatile => "volatile"
  | .strictfp => "strictfp"
  | .default => "default"

def ofToken? (token : String) : Option ModifierWord := all.find? (·.token == token)

/-- The bit that stands for the modifier. -/
def flag : ModifierWord → Nat
  | .public => 1
  | .protected => 2
  | .private => 4
  | .static => 8
  | .abstract => 16
  | .final => 32
  | .native => 64
  | .synchronized => 128
  | .transient => 256
  | .volatile => 512
  | .strictfp => 1024
  | .default => 2048

theorem ofToken?_token (m : ModifierWord) : ofToken? m.token = some m := by cases m <;> rfl

/-- Each modifier has a bit of its own. -/
theorem flag_inj {a b : ModifierWord} (h : a.flag = b.flag) : a = b := by
  cases a <;> cases b <;> first | rfl | simp [flag] at h

end ModifierWord

end Lockstep.Tree
