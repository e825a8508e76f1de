/-!
# Command-line arguments

What the words on the command line ask for. A word that starts with `--` is a long option, one that
starts with `-` is a group of short options, and any other is a file; after `--` all words are
files. The value of an option stands behind `=` or is the next word, which may not look like an
option. No option may be given twice.

- `items`: the words one by one.
- `Arguments.ofItems`: all of them together.
-/

namespace Lockstep.CommandLine

/-- The options that need a value. -/
inductive Setting where
  | project
  | target
  | outDir
  deriving DecidableEq, Repr

/-- The options that are there or not. -/
inductive Switch where
  | noEmit
  | stdout
  | version
  deriving DecidableEq, Repr

/-- One thing that is asked for. -/
inductive Item where
  | file (path : String)
  | setting (s : Setting) (value : String)
  | switch (s : Switch)
  | pretty (value : Bool)
  | help
  deriving DecidableEq, Repr

/-- Why the words make no sense. -/
inductive UsageError where
  | unknown (word : String)
  | missingValue (option : String)
  | unneededValue (option : String)
  | invalidValue (option value : String)
  | repeated (option : String)
  deriving DecidableEq, Repr

def Setting.word : Setting → String
  | .project => "--project"
  | .target => "--target"
  | .outDir => "--outDir"

def Switch.word : Switch → String
  | .noEmit => "--noEmit"
  | .stdout => "--stdout"
  | .version => "--version"

def Setting.ofWord? (word : String) : Option Setting :=
  [Setting.project, .target, .outDir].find? (·.word == word)

def Switch.ofWord? (word : String) : Option Switch :=
  [Switch.noEmit, .stdout, .version].find? (·.word == word)

def UsageError.message : UsageError → String
  | .unknown word => "unexpected argument '" ++ word ++ "' found"
  | .missingValue option => "a value is required for '" ++ option ++ "' but none was supplied"
  | .unneededValue option => "no value is expected for '" ++ option ++ "'"
  | .invalidValue option value => "invalid value '" ++ value ++ "' for '" ++ option ++ "'"
  | .repeated option => "the argument '" ++ option ++ "' cannot be used multiple times"

/-! ## Single words -/

/-- Whether a word is an option or a group of options. -/
def looksLikeOption (word : String) : Bool := word.startsWith "-" && word != "-"

/-- An option and the value behind its first `=`. -/
def splitValue (word : String) : String × Option String :=
  let cs := word.toList
  match cs.dropWhile (· != '=') with
  | [] => (word, none)
  | _ :: value => (String.ofList (cs.takeWhile (· != '=')), some (String.ofList value))

/-- The value of the switch that may have one. -/
def prettyItem : Option String → Except UsageError Item
  | none | some "true" => .ok (.pretty true)
  | some "false" => .ok (.pretty false)
  | some value => .error (.invalidValue "--pretty" value)

/-- What a word asks for; and the option, if any, whose value is the next word. -/
abbrev WordItems := List Item × Option Setting

/-- An option with its value, if it has one already. -/
def settingItem (s : Setting) : Option String → WordItems
  | some value => ([.setting s value], none)
  | none => ([], some s)

/-- A long option. -/
def longItem (word : String) : Except UsageError WordItems :=
  let (option, value) := splitValue word
  match Setting.ofWord? option, Switch.ofWord? option with
  | some s, _ => .ok (settingItem s value)
  | none, some s =>
    if value.isSome then .error (.unneededValue option) else .ok ([.switch s], none)
  | none, none =>
    if option == "--pretty" then (prettyItem value).map ([·], none)
    else if option == "--help" then
      if value.isSome then .error (.unneededValue option) else .ok ([.help], none)
    else .error (.unknown word)

/-- The value in the rest of a group of short options, if there is a rest. -/
def groupValue? : List Char → Option String
  | [] => none
  | '=' :: value => some (String.ofList value)
  | value => some (String.ofList value)

/-- The options of a group by their letters. The project takes the rest of the group for its
value. -/
def shortItems : List Char → Except UsageError WordItems
  | [] => .ok ([], none)
  | 'v' :: letters => (shortItems letters).map fun found => (.switch .version :: found.1, found.2)
  | 'h' :: _ => .ok ([.help], none)
  | 'p' :: letters => .ok (settingItem .project (groupValue? letters))
  | letter :: _ => .error (.unknown (String.ofList ['-', letter]))

/-- What a word asks for by itself. -/
def wordItems (word : String) : Except UsageError WordItems :=
  if word.startsWith "--" then longItem word
  else if looksLikeOption word then shortItems (word.toList.drop 1)
  else .ok ([.file word], none)

/-- What words ask for, if the first of them may be the value of the option `waiting`. Whatever
follows a request for help does not matter. -/
def itemsAfter (waiting : Option Setting) : List String → Except UsageError (List Item)
  | [] =>
    match waiting with
    | none => .ok []
    | some s => .error (.missingValue s.word)
  | word :: rest =>
    match waiting with
    | some s =>
      if looksLikeOption word then .error (.missingValue s.word)
      else (itemsAfter none rest).map (.setting s word :: ·)
    | none =>
      if word == "--" then .ok (rest.map .file)
      else
        match wordItems word with
        | .error e => .error e
        | .ok (found, waiting) =>
          if found.contains .help then .ok found
          else (itemsAfter waiting rest).map (found ++ ·)

/-- What the words on the command line ask for. -/
def items (words : List String) : Except UsageError (List Item) := itemsAfter none words

/-! ## All words -/

structure Arguments where
  files : List String
  project : Option String
  target : Option String
  outDir : Option String
  noEmit : Bool
  stdout : Bool
  /-- Whether diagnostics may be decorated, if that is said. -/
  pretty : Option Bool
  version : Bool
  help : Bool
  deriving DecidableEq, Repr

namespace Arguments

/-- Nothing is asked for. -/
def empty : Arguments := ⟨[], none, none, none, false, false, none, false, false⟩

/-- The value of an option that has none yet. -/
def once {α : Type} (option : String) (old : Option α) (value : α) :
    Except UsageError (Option α) :=
  if old.isSome then .error (.repeated option) else .ok (some value)

/-- Turn a switch on. -/
def turnOn (s : Switch) (old : Bool) : Except UsageError Bool :=
  if old then .error (.repeated s.word) else .ok true

/-- Ask for one more thing. -/
def add (a : Arguments) : Item → Except UsageError Arguments
  | .file path => .ok { a with files := a.files ++ [path] }
  | .setting s value => match s with
    | .project => return { a with project := ← once s.word a.project value }
    | .target => return { a with target := ← once s.word a.target value }
    | .outDir => return { a with outDir := ← once s.word a.outDir value }
  | .switch s => match s with
    | .noEmit => return { a with noEmit := ← turnOn s a.noEmit }
    | .stdout => return { a with stdout := ← turnOn s a.stdout }
    | .version => return { a with version := ← turnOn s a.version }
  | .pretty value => return { a with pretty := ← once "--pretty" a.pretty value }
  | .help => .ok { a with help := true }

/-- All that is asked for, unless something is asked for twice. -/
def ofItems (items : List Item) : Except UsageError Arguments := items.foldlM add empty

/-- The arguments on the command line. -/
def ofWords (words : List String) : Except UsageError Arguments := items words >>= ofItems

end Arguments

end Lockstep.CommandLine
