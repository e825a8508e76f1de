/-!
# The target languages
-/

namespace Lockstep

/-- A language that Java is rendered in. -/
inductive Target where
  | csharp
  | swift
  | cpp
  deriving DecidableEq, Repr, Inhabited

namespace Target

def all : List Target := [.csharp, .swift, .cpp]

/-- The name in messages. -/
def display : Target → String
  | .csharp => "C#"
  | .swift => "Swift"
  | .cpp => "C++"

/-- The extension of an output file, without the dot. -/
def extension : Target → String
  | .csharp => "cs"
  | .swift => "swift"
  | .cpp => "cpp"

/-- The name in a configuration file. -/
def key : Target → String
  | .csharp => "csharp"
  | .swift => "swift"
  | .cpp => "cpp"

def ofKey? (key : String) : Option Target := all.find? (·.key == key)

/-- The target that a name on the command line means; ASCII case is ignored. -/
def ofName? (name : String) : Option Target :=
  let lower := name.map Char.toLower
  if lower ∈ ["csharp", "cs", "c#"] then some .csharp
  else if lower = "swift" then some .swift
  else if lower ∈ ["cpp", "c++", "cxx"] then some .cpp
  else none

/-- A configuration file names each target in its own way. -/
theorem ofKey?_key (t : Target) : ofKey? t.key = some t := by cases t <;> rfl

end Target

end Lockstep
