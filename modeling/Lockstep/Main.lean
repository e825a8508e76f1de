import Lockstep.CommandLine.Run

/-!
# The program

The command line, run on the file system.
-/

namespace Lockstep

open Batch CommandLine

/-- Whether that is the number of a failure, which comes with either sign. -/
def isNumber (number expected : UInt32) : Bool := number == expected || number == 0 - expected

/-- What a failure of the file system means. -/
def fileErrorOf : IO.Error → FileError
  | .noFileOrDirectory .. => .notFound
  | .alreadyExists .. => .exists
  | .inappropriateType _ number _ => if isNumber number 21 then .isDirectory else .notDirectory
  | .permissionDenied .. => .denied
  | e@(.invalidArgument _ number _) =>
    if isNumber number 36 then .nameTooLong else .other (toString e)
  | e => .other (toString e)

/-- The outcome of something done to the file system at a path. -/
def attempt {α : Type} (path : String) (x : IO α) : IO (Except FileError α) := do
  if path.contains '\x00' then return .error .nullInPath
  try return .ok (← x)
  catch e => return .error (fileErrorOf e)

/-- Read a file that holds a text. -/
def readText (path : String) : IO (Except FileError String) := do
  match ← attempt path (IO.FS.readBinFile path) with
  | .error e => return .error e
  | .ok bytes =>
    match String.fromUTF8? bytes with
    | some text => return .ok text
    | none => return .error .notText

/-- Whether there is something at a path, readable or not. -/
def isThere (path : String) : IO Bool := do
  match ← attempt path (IO.FS.Handle.mk path .read) with
  | .ok _ => return true
  | .error e => return e != .notFound && e != .notDirectory

instance : FileStore IO where
  read path := readText path
  write path text := attempt path (IO.FS.writeFile path text)
  makeDir path := attempt path (IO.FS.createDir path)
  isDirectory path := return ← ((← IO.currentDir) / path).isDir
  has path := isThere path

end Lockstep

/-- Run the program, print its report, and end with its code. -/
def main (words : List String) : IO UInt32 := do
  let report : Lockstep.CommandLine.Report ← Lockstep.CommandLine.run words
  IO.print report.out
  IO.eprint report.err
  return report.exitCode.toUInt32
