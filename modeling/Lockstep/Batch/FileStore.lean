import Lockstep.Batch.Path

/-!
# Where files are kept

What a batch does with files, and how that may fail. Whoever runs a batch says how files are read
and written.

- `FileStore`: single steps on files and directories.
- `FileStore.makeDirs`: a directory with all those it is in.
-/

namespace Lockstep.Batch

/-- Why a file cannot be read or written. -/
inductive FileError where
  | notFound
  | exists
  | notDirectory
  | isDirectory
  | denied
  | nameTooLong
  /-- A path holds a null character. -/
  | nullInPath
  /-- A file holds no text. -/
  | notText
  | other (text : String)
  deriving DecidableEq, Repr

def FileError.message : FileError → String
  | .notFound => "No such file or directory (os error 2)"
  | .exists => "File exists (os error 17)"
  | .notDirectory => "Not a directory (os error 20)"
  | .isDirectory => "Is a directory (os error 21)"
  | .denied => "Permission denied (os error 13)"
  | .nameTooLong => "File name too long (os error 36)"
  | .nullInPath => "file name contained an unexpected NUL byte"
  | .notText => "stream did not contain valid UTF-8"
  | .other text => text

/-- How files are read and written. -/
class FileStore (m : Type → Type) where
  read : (path : String) → m (Except FileError String)
  write : (path text : String) → m (Except FileError Unit)
  /-- Make a directory inside one that is there. -/
  makeDir : (path : String) → m (Except FileError Unit)
  isDirectory : (path : String) → m Bool
  /-- Whether there is a file or a directory at the path. -/
  has : (path : String) → m Bool

namespace FileStore

variable {m : Type → Type} [Monad m] [FileStore m]

/-- Make a directory, unless it is there. -/
def ensureDir (path : String) : m (Except FileError Unit) := do
  match ← makeDir path with
  | .ok _ => return .ok ()
  | .error e => return if ← isDirectory path then .ok () else .error e

/-- Make the first of some directories, each of which lies in the next. If its place is not found,
the next is made before another attempt. -/
def ensureDirs : List String → m (Except FileError Unit)
  | [] => return .ok ()
  | path :: outer => do
    match ← ensureDir path with
    | .error .notFound =>
      match ← ensureDirs outer with
      | .error e => return .error e
      | .ok _ => ensureDir path
    | result => return result

/-- Make a directory and all those it is in. The directories that a path lies in do not change with
a dot at its end. So what stands before such a dot is not made: it has to be there. -/
def makeDirs (path : String) : m (Except FileError Unit) :=
  if path.isEmpty then return .ok () else ensureDirs (path :: Path.ancestors path)

end FileStore

end Lockstep.Batch
