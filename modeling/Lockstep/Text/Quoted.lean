import Lockstep.Text.Digits
import Lockstep.Text.RangeTable
import Lockstep.Text.VisibleRanges

/-!
# Quoting a text so that all of it shows

A failure report quotes a text between double quotes. Quotes and backslashes are escaped, the
common control characters have short escapes, and every other character that has no printed form
or would join the one before it is given by its code point.
-/

namespace Lockstep.Text

/-- Whether a character is written as itself in a quoted text, quotes and backslash apart. -/
def isVisible (c : Char) : Bool :=
  if c.val < 128 then 0x20 ≤ c.val && c.val < 0x7f
  else !(inRanges graphemeExtendRanges c.toNat || inRanges unprintableRanges c.toNat)

/-- The characters that stand for `c` in a quoted text. -/
def quotedChar (c : Char) : String :=
  if c == '"' then "\\\""
  else if c == '\\' then "\\\\"
  else if c == '\n' then "\\n"
  else if c == '\r' then "\\r"
  else if c == '\t' then "\\t"
  else if c == '\x00' then "\\0"
  else if isVisible c then String.singleton c
  else "\\u\x7b" ++ String.ofList (lowerHex c.toNat) ++ "\x7d"

/-- A text between double quotes, with everything in it visible. -/
def quoted (text : String) : String :=
  text.toList.foldl (fun out c => out ++ quotedChar c) "\"" ++ "\""

end Lockstep.Text
