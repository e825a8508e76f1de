import Lockstep.Batch.FileStore
import Lockstep.Text.Split

/-!
# A disk in memory

Directories and files without a file system, to run a batch on. A place is the list of names that
lead to it from the working directory; a place that does not lie below it starts with `/` or `..`.
-/

namespace Lockstep.Batch

open Text

/-- The way to a file or a directory. -/
abbrev Place := List String

/-- What is at a place. -/
inductive Entry where
  | directory
  | file (text : String)
  deriving DecidableEq, Repr

structure Disk where
  entries : List (Place × Entry)

namespace Disk

def empty : Disk := ⟨[]⟩

/-- Whether all names of a place lead up and out, so that it is a directory in any case. -/
def isOutside (place : Place) : Bool := place.all fun name => name == "/" || name == ".."

def at? (d : Disk) (place : Place) : Option Entry :=
  if isOutside place then some .directory else d.entries.lookup place

/-- Put an entry at a place. -/
def put (d : Disk) (place : Place) (entry : Entry) : Disk :=
  if (d.entries.lookup place).isSome then
    ⟨d.entries.map fun e => if e.1 == place then (place, entry) else e⟩
  else ⟨d.entries ++ [(place, entry)]⟩

/-- One directory up. -/
def up (place : Place) : Place :=
  if place == ["/"] then place
  else match place.getLast? with
    | none | some ".." => place ++ [".."]
    | some _ => place.dropLast

/-- The names in a path. The first is empty if the path starts at the root. -/
def namesOf (path : String) : List String := (splitAtChar '/' path.toList).map String.ofList

/-- Where a path starts, and the names on its way. -/
def wayOf (path : String) : Place × List String :=
  match namesOf path with
  | "" :: rest => (["/"], rest)
  | names => ([], names)

/-- Whether a name stands for a directory that has another name. -/
def isDots (name : String) : Bool := name == "." || name == ".."

/-- How many bytes a name in a directory may have. -/
def maxName : Nat := 255

/-- How many bytes a path may have. -/
def maxPath : Nat := 4095

/-- A path that leads nowhere in any case. -/
def checkPath (path : String) : Except FileError Unit :=
  if path.contains '\x00' then .error .nullInPath
  else if path.isEmpty then .error .notFound
  else if path.utf8ByteSize > maxPath then .error .nameTooLong
  else .ok ()

/-- Follow names from a place. Only from a directory does a name lead on. -/
def follow (d : Disk) (place : Place) : List String → Except FileError Place
  | [] => .ok place
  | name :: rest =>
    match d.at? place with
    | none => .error .notFound
    | some (.file _) => .error .notDirectory
    | some .directory =>
      if name == "" || name == "." then d.follow place rest
      else if name == ".." then d.follow (up place) rest
      else if name.utf8ByteSize > maxName then .error .nameTooLong
      else d.follow (place ++ [name]) rest

/-- The place that a path leads to. There need not be anything at it. -/
def resolve (d : Disk) (path : String) : Except FileError Place := do
  checkPath path
  d.follow (wayOf path).1 (wayOf path).2

/-- The directory that a path leads into, and the name at the end of the path. -/
def resolveIn (d : Disk) (path : String) : Except FileError (Place × String) := do
  checkPath path
  let (start, names) := wayOf path
  match names.reverse.dropWhile (·.isEmpty) with
  | [] => .ok (start, ".")
  | last :: before =>
    let place ← d.follow start (before.reverse ++ ["."])
    .ok (place, last)

/-- What is at a name in a directory. -/
def child? (d : Disk) (place : Place) (name : String) : Except FileError (Option Entry) :=
  if name.utf8ByteSize > maxName then .error .nameTooLong else .ok (d.at? (place ++ [name]))

def read (d : Disk) (path : String) : Except FileError String := do
  match d.at? (← d.resolve path) with
  | none => .error .notFound
  | some .directory => .error .isDirectory
  | some (.file text) => .ok text

/-- Write a file. A path with a slash at its end is that of a directory. -/
def write (d : Disk) (path text : String) : Except FileError Disk := do
  let (place, name) ← d.resolveIn path
  if isDots name || path.endsWith "/" then throw .isDirectory
  match ← d.child? place name with
  | some .directory => .error .isDirectory
  | _ => .ok (d.put (place ++ [name]) (.file text))

/-- Make a directory where there is nothing. -/
def makeDir (d : Disk) (path : String) : Except FileError Disk := do
  let (place, name) ← d.resolveIn path
  if isDots name then throw .exists
  match ← d.child? place name with
  | some _ => .error .exists
  | none => .ok (d.put (place ++ [name]) .directory)

/-- What a path leads to. -/
def find? (d : Disk) (path : String) : Option Entry :=
  match d.resolve path with
  | .ok place => d.at? place
  | .error _ => none

/-- The files below the working directory, by their paths. -/
def files (d : Disk) : List (String × String) :=
  d.entries.filterMap fun
    | (place, .file text) =>
      if place.head? == some "/" || place.head? == some ".." then none
      else some ("/".intercalate place, text)
    | _ => none

end Disk

/-- Change the disk, unless the change fails. -/
def changeDisk (change : Disk → Except FileError Disk) : StateM Disk (Except FileError Unit) :=
  fun d =>
    match change d with
    | .ok d => (.ok (), d)
    | .error e => (.error e, d)

instance : FileStore (StateM Disk) where
  read path := return (← get).read path
  write path text := changeDisk (·.write path text)
  makeDir path := changeDisk (·.makeDir path)
  isDirectory path := return (← get).find? path == some .directory
  has path := return ((← get).find? path).isSome

/-- Write a file and the directories that it is in. -/
def Disk.addFile (d : Disk) (path text : String) : Disk :=
  let add : StateM Disk Unit := do
    let _ ← FileStore.makeDirs (Path.parent path)
    let _ ← FileStore.write path text
  (add.run d).2

end Lockstep.Batch
