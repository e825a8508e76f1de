/-!
# Filling in a template

A template holds numbered placeholders in braces. Arguments are filled in one after another, each
over the whole text so far, so a placeholder that an argument brings along is filled in too.
-/

namespace Lockstep.Text

/-- Replace every occurrence of a non-empty pattern, from left to right and without overlap. -/
def replaceAll (pattern replacement : List Char) : List Char → List Char
  | [] => []
  | c :: rest =>
    if pattern.isPrefixOf (c :: rest) then
      replacement ++ replaceAll pattern replacement (rest.drop (pattern.length - 1))
    else c :: replaceAll pattern replacement rest
  termination_by text => text.length
  decreasing_by all_goals simp only [List.length_drop, List.length_cons]; omega

/-- The placeholder of the argument at an index. -/
def placeholder (index : Nat) : List Char := ("\x7b" ++ toString index ++ "\x7d").toList

/-- Fill in the arguments from an index on. -/
def fillFrom (index : Nat) (text : List Char) : List String → List Char
  | [] => text
  | arg :: args => fillFrom (index + 1) (replaceAll (placeholder index) arg.toList text) args

/-- Fill in all arguments of a template. -/
def fill (template : String) (args : List String) : String :=
  String.ofList (fillFrom 0 template.toList args)

end Lockstep.Text
