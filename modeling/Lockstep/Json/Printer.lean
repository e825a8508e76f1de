import Lockstep.Json.Value
import Lockstep.Text.Digits

/-!
# Writing JSON

Values are written without white space. In a string, quotes, backslashes and control characters are
escaped and nothing else is.
-/

namespace Lockstep.Json

/-- The characters that stand for `c` in a string. -/
def escaped (c : Char) : String :=
  if c == '"' then "\\\""
  else if c == '\\' then "\\\\"
  else if c == '\n' then "\\n"
  else if c == '\r' then "\\r"
  else if c == '\t' then "\\t"
  else if c.toNat < 0x20 then
    "\\u" ++ String.ofList (Text.padded 4 (Text.lowerHex c.toNat))
  else String.singleton c

/-- Append a string in quotes. -/
def writeString (out value : String) : String :=
  value.foldl (fun out c => out ++ escaped c) (out.push '"') |>.push '"'

mutual

/-- Append a value. -/
def write (out : String) : Json → String
  | .null => out ++ "null"
  | .bool value => out ++ if value then "true" else "false"
  | .nat value => out ++ toString value
  | .number spelling => out ++ spelling
  | .string value => writeString out value
  | .array items => (writeItems (out.push '[') true items).push ']'
  | .object members => (writeMembers (out.push '\x7b') true members).push '\x7d'

/-- Append the items of an array. -/
def writeItems (out : String) (isFirst : Bool) : List Json → String
  | [] => out
  | item :: items =>
    writeItems (write (if isFirst then out else out.push ',') item) false items

/-- Append the members of an object. -/
def writeMembers (out : String) (isFirst : Bool) : List (String × Json) → String
  | [] => out
  | (name, value) :: members =>
    let out := (writeString (if isFirst then out else out.push ',') name).push ':'
    writeMembers (write out value) false members

end

/-- The text of a value. -/
def text (v : Json) : String := write "" v

end Lockstep.Json
