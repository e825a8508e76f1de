/-!
# White space of the Java grammar

A line ends at a line feed or a carriage return; space, tab and form feed are the blanks inside a
line. No other character is white space.
-/

namespace Lockstep.Text

/-- Line feed or carriage return. -/
def isLineBreak (c : Char) : Bool := c == '\n' || c == '\r'

/-- Space, tab or form feed. -/
def isBlank (c : Char) : Bool := c == ' ' || c == '\t' || c == '\x0c'

/-- Blank or line break. -/
def isSpace (c : Char) : Bool := isBlank c || isLineBreak c

/-- No character is both. -/
theorem isLineBreak_eq_false_of_isBlank {c : Char} (h : isBlank c = true) :
    isLineBreak c = false := by
  simp only [isBlank, Bool.or_eq_true, beq_iff_eq] at h
  rcases h with (rfl | rfl) | rfl <;> decide

end Lockstep.Text
