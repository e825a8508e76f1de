import Lockstep.Source.Trivia
import Lockstep.Text.Extent

/-!
# The cursor over a source text

A cursor splits a text in two: the characters it has passed, nearest first, and those still ahead.
Offsets count bytes, so a cursor always sits at a character boundary. Steps move it forward over
trivia and literal tokens; `jumpTo` is the only move that goes backwards.

A step that fails leaves the cursor where it stopped: a scan keeps the trivia that it had passed
before it met a comment that nothing closes.
-/

namespace Lockstep.Source

open Text

/-- A place in a text. -/
structure Cursor where
  /-- The characters before the place, nearest first. -/
  passed : List Char
  /-- The characters after the place. -/
  ahead : List Char
  /-- The number of bytes before the place. -/
  offset : Nat
  offset_eq : offset = byteLength passed

namespace Cursor

/-- Why a step fails. -/
inductive Error where
  /-- Another text than the expected token is ahead. -/
  | mismatch (expected found : String) (pos : Nat)
  | unclosedComment (pos : Nat)
  /-- No character starts at that offset. -/
  | outOfBounds (pos length : Nat)
  deriving DecidableEq, Repr

def Error.pos : Error → Nat
  | .mismatch _ _ pos | .unclosedComment pos | .outOfBounds pos _ => pos

def Error.message : Error → String
  | .mismatch expected found pos =>
    "expected `" ++ expected ++ "` at offset " ++ toString pos ++
      " but found `" ++ found ++ "`"
  | .unclosedComment pos => s!"unterminated comment starting at offset {pos}"
  | .outOfBounds pos length => s!"position {pos} is outside the source text (length {length})"

/-- The start of a text. -/
def ofText (text : String) : Cursor := ⟨[], text.toList, 0, rfl⟩

/-- The whole text. -/
def text (c : Cursor) : List Char := c.passed.reverse ++ c.ahead

/-- The length of the whole text in bytes. -/
def length (c : Cursor) : Nat := c.offset + byteLength c.ahead

def atEnd (c : Cursor) : Bool := c.ahead.isEmpty

/-- Move forward over so many characters. -/
def pass (c : Cursor) (n : Nat) : Cursor where
  passed := (c.ahead.take n).reverse ++ c.passed
  ahead := c.ahead.drop n
  offset := c.offset + byteLength (c.ahead.take n)
  offset_eq := by simp [c.offset_eq, Nat.add_comm]

/-- Move back over so many characters. -/
def retreat (c : Cursor) (n : Nat) : Cursor where
  passed := c.passed.drop n
  ahead := (c.passed.take n).reverse ++ c.ahead
  offset := c.offset - byteLength (c.passed.take n)
  offset_eq := by
    have := byteLength_take_add_drop n c.passed
    have := c.offset_eq
    omega

@[simp] theorem text_pass (c : Cursor) (n : Nat) : (c.pass n).text = c.text := by
  simp [text, pass]

@[simp] theorem text_retreat (c : Cursor) (n : Nat) : (c.retreat n).text = c.text := by
  simp only [text, retreat]
  rw [← List.append_assoc, ← List.reverse_append, List.take_append_drop]

/-- The place at an offset, if a character starts or the text ends there. -/
def at? (c : Cursor) (pos : Nat) : Option Cursor :=
  if c.offset ≤ pos then (charsIn? c.ahead (pos - c.offset)).map c.pass
  else (charsIn? c.passed (c.offset - pos)).map c.retreat

/-- The end of the text. -/
def toEnd (c : Cursor) : Cursor := c.pass c.ahead.length

/-- The part of the text that an extent covers, if it lies inside the text and cuts no
character. -/
def slice? (c : Cursor) (e : Extent) : Option String :=
  if e.pos ≤ e.stop then do
    let start ← c.at? e.start
    let count ← charsIn? start.ahead e.length
    some (String.ofList (start.ahead.take count))
  else none

/-! ## Looking ahead -/

/-- Whether the text ahead begins with a line break, possibly after blanks. -/
def atLineBreak (c : Cursor) : Bool := startsWithLineBreak c.ahead

/-- Whether a line starts here. -/
def atLineStart (c : Cursor) : Bool :=
  match c.passed with
  | [] => true
  | last :: _ => isLineBreak last

def startsWith (c : Cursor) (token : String) : Bool := token.toList.isPrefixOf c.ahead

/-- The most characters that an excerpt quotes. -/
def maxExcerpt : Nat := 24

/-- What a report quotes of the text ahead: so many characters, at least one and at most
`maxExcerpt`, of the rest of the line. -/
def excerpt (c : Cursor) (wanted : Nat) : String :=
  let count := max 1 (min wanted maxExcerpt)
  let found := (c.ahead.take count).takeWhile (!isLineBreak ·)
  if found.isEmpty && c.atEnd then "<end of file>" else String.ofList found

/-- Whether, so many bytes ahead, a white space or a comment begins. -/
def triviaFollows (c : Cursor) (bytes : Nat) : Bool :=
  match charsIn? c.ahead bytes with
  | none => false
  | some n =>
    match c.ahead.drop n with
    | '/' :: '/' :: _ | '/' :: '*' :: _ => true
    | first :: _ => isSpace first
    | [] => false

/-! ## Steps -/

/-- A step of the cursor. -/
abbrev Walk := EStateM Error Cursor

/-- A run of trivia in its place. -/
structure TriviaRun where
  kind : TriviaKind
  /-- The offset of its first byte. -/
  start : Nat
  /-- The offset past its last byte. -/
  stop : Nat
  deriving DecidableEq, Repr

/-- The run of trivia ahead, if there is one. -/
def peek : Walk (Option TriviaRun) := fun c =>
  match Trivia.next c.ahead with
  | .run kind n => .ok (some ⟨kind, c.offset, (c.pass n).offset⟩) c
  | .unclosed => .error (.unclosedComment c.offset) c
  | .absent => .ok none c

/-- Go to an offset, forwards or backwards. -/
def jumpTo (pos : Nat) : Walk Unit := fun c =>
  match c.at? pos with
  | some target => .ok () target
  | none => .error (.outOfBounds pos c.length) c

/-- Pass the trivia ahead and return its text. With a limit, no run that starts at or after that
offset is passed. -/
def skipTrivia (limit : Option Nat) : Walk String := fun c =>
  let lead := Trivia.lead (limit.map (· - c.offset)) c.ahead
  let after := c.pass lead.length
  if lead.unclosed then .error (.unclosedComment after.offset) after
  else .ok (String.ofList (c.ahead.take lead.length)) after

/-- The number of blanks ahead. -/
def blanksAhead (c : Cursor) : Nat := (c.ahead.takeWhile isBlank).length

/-- Pass the blanks ahead and return them. -/
def skipBlanks : Walk String := fun c =>
  .ok (String.ofList (c.ahead.takeWhile isBlank)) (c.pass c.blanksAhead)

/-- Pass blanks and one line break, if the rest of the line holds nothing else. Returns whether
anything was passed. -/
def skipLineRest : Walk Bool := fun c =>
  let after := c.pass c.blanksAhead
  match Trivia.next after.ahead with
  | .run .lineBreak n => .ok true (after.pass n)
  | .unclosed => .error (.unclosedComment after.offset) after
  | _ => if after.atEnd then .ok (c.blanksAhead != 0) after else .ok false c

/-- Pass a token that has to be ahead. -/
def expect (token : String) : Walk Unit := fun c =>
  if c.startsWith token then .ok () (c.pass token.length)
  else .error (.mismatch token (c.excerpt (byteLength token.toList)) c.offset) c

/-- Whether what starts at an offset may be met here: at that offset, or after trivia that begins
there. -/
def hasReached (c : Cursor) (start : Nat) : Bool :=
  c.offset == start || decide (start < c.offset) &&
    match c.at? start with
    | none => false
    | some probe =>
      match skipTrivia (some c.offset) probe with
      | .ok _ after => c.offset ≤ after.offset
      | .error .. => false

end Cursor

end Lockstep.Source
