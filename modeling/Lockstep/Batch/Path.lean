import Lockstep.Text.Split

/-!
# Paths

The few rules on file paths that a batch needs. A path is a list of parts with slashes between them;
empty parts and single dots stand for nothing, and two dots are no file name.

- `fileName?`, `parent`: the last part of a path, and what comes before it.
- `ancestors`: the directories that a path lies in.
- `withExtension`: another ending for the file name.
- `join`: a path seen from a directory.
-/

namespace Lockstep.Path

open Text

/-- Whether a part of a path stands for nothing. -/
def isVoid (part : List Char) : Bool := part.isEmpty || part == ['.']

/-- Parts with slashes between them. -/
def ofParts (parts : List (List Char)) : List Char := ['/'].intercalate parts

/-- The parts of a path that come before its last part, nearest first, and the last part. -/
def splitLast? (path : List Char) : Option (List (List Char) × List Char) :=
  match (splitAtChar '/' path).reverse.dropWhile isVoid with
  | [] => none
  | last :: before => some (before, last)

/-- The file name of a path. -/
def fileName? (path : List Char) : Option (List Char) :=
  match splitLast? path with
  | some (_, last) => if last == ['.', '.'] then none else some last
  | none => none

/-- A file name at its last full stop, unless it starts with that. -/
def splitName (name : List Char) : List Char × Option (List Char) :=
  match (splitAtChar '.' name).reverse with
  | last :: before =>
    let stem := ['.'].intercalate before.reverse
    if stem.isEmpty then (name, none) else (stem, some last)
  | [] => (name, none)

/-- Cut a path off after the stem of its file name, and put an extension there. -/
def setExtension (path : List Char) (extension : String) : List Char :=
  match splitLast? path with
  | some (before, last) =>
    if last == ['.', '.'] then path
    else ofParts (before.reverse ++ [(splitName last).1]) ++ '.' :: extension.toList
  | none => path

/-- The path with another extension. As many characters as the old extension has are cut off at the
end of the path first. -/
def withExtension (path extension : String) : String :=
  let cs := path.toList
  let kept := match (fileName? cs).bind fun n => (splitName n).2 with
    | some old => cs.take (cs.length - old.length)
    | none => cs
  String.ofList (setExtension kept extension)

/-- The path of a file seen from a directory. -/
def join (dir file : String) : String :=
  if file.startsWith "/" then file
  else if dir.isEmpty || dir.endsWith "/" then dir ++ file
  else dir ++ "/" ++ file

/-- What a path starts with, of what stands for nothing. -/
def lead (path : List Char) : List Char :=
  match path with
  | '/' :: _ => ['/']
  | ['.'] => ['.']
  | '.' :: '/' :: _ => ['.']
  | _ => []

/-- The directories that parts lead to, nearest first, and `lead` as the last of them. -/
def directories (lead : List Char) : List (List Char) → List String
  | [] => if lead.isEmpty then [] else [String.ofList lead]
  | part :: before =>
    if isVoid part then directories lead before
    else String.ofList (ofParts (part :: before).reverse) :: directories lead before

/-- The directories that a path lies in, nearest first. -/
def ancestors (path : String) : List String :=
  match splitLast? path.toList with
  | none => []
  | some (before, _) => directories (lead path.toList) before

/-- The directory of a path. -/
def parent (path : String) : String := (ancestors path).headD ""

end Lockstep.Path
