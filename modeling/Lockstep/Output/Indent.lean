import Lockstep.Text.CharClass

/-!
# Indented text

Extra indentation goes in front of every line that receives content: before each character that is
no line break and comes at the start of a line. Empty lines stay empty.
-/

namespace Lockstep.Output

open Text

/-- The text with `width` spaces before each run of characters that begins a line; `lineStart`
says whether the text itself begins at the start of a line. -/
def indented (width : Nat) : (lineStart : Bool) → List Char → List Char
  | _, [] => []
  | lineStart, c :: rest =>
    if isLineBreak c then c :: indented width true rest
    else if lineStart then List.replicate width ' ' ++ c :: indented width false rest
    else c :: indented width false rest

/-- Whether a line starts after the text; `lineStart` says whether one starts before it. -/
def endsLine : (lineStart : Bool) → List Char → Bool
  | lineStart, [] => lineStart
  | _, c :: rest => endsLine (isLineBreak c) rest

@[simp] theorem endsLine_append (lineStart : Bool) (xs ys : List Char) :
    endsLine lineStart (xs ++ ys) = endsLine (endsLine lineStart xs) ys := by
  induction xs generalizing lineStart with
  | nil => rfl
  | cons c xs ih => exact ih (isLineBreak c)

/-- Indenting in pieces is indenting at once. -/
theorem indented_append (width : Nat) (lineStart : Bool) (xs ys : List Char) :
    indented width lineStart (xs ++ ys) =
      indented width lineStart xs ++ indented width (endsLine lineStart xs) ys := by
  induction xs generalizing lineStart with
  | nil => rfl
  | cons c xs ih =>
    cases hc : isLineBreak c <;> cases lineStart <;> simp [indented, endsLine, hc, ih]

end Lockstep.Output
