import Lockstep.Target.NumberLiteral
import Lockstep.Text.Surrogate

/-!
# String and character literals

The body of a literal is read as a list of pieces: characters that stand for themselves, and
escapes. Each target then writes the pieces its own way.

- `Piece.read?`: the pieces of a body.
- `Piece.render?`: the body of the target for them.
- `stringLiteral?`, `characterLiteral?`: whole literals.
-/

namespace Lockstep.Target

open Text

/-- How a literal is quoted. -/
inductive Quote where
  | double
  | single
  /-- A character literal that becomes a string. -/
  | singleAsDouble
  deriving DecidableEq, Repr

/-- A part of the body of a literal. -/
inductive Piece where
  /-- A character that stands for itself. -/
  | plain (c : Char)
  /-- A backslash and a character. -/
  | simple (c : Char)
  /-- An escape of one to three octal digits. -/
  | octal (digits : List Char)
  /-- A code unit given by its number. -/
  | unit (value : Nat)
  deriving DecidableEq, Repr

namespace Piece

/-- The code unit that four digits stand for; a plus sign may stand for the first. -/
def unit? : List Char → Option Nat
  | '+' :: ds => ofHex? ds
  | ds => ofHex? ds

/-- How many octal digits an escape may have, by the first of them. -/
def octalLimit (first : Char) : Nat := if first ≤ '3' then 3 else 2

/-- Whether a backslash before the character is an escape on its own. -/
def isSimple (c : Char) : Bool := ['b', 'f', 't', 'n', 'r', 's', '"', '\'', '\\'].contains c

/-- The piece after a backslash, and what follows. -/
def escape? : List Char → Option (Piece × List Char)
  | [] => none
  | c :: rest =>
    if c == 'u' then
      let digits := rest.dropWhile (· == 'u')
      if digits.length < 4 then none
      else (unit? (digits.take 4)).map fun v => (.unit v, digits.drop 4)
    else if Number.isOctalDigit c then
      let digits := ((c :: rest).take (octalLimit c)).takeWhile Number.isOctalDigit
      some (.octal digits, (c :: rest).drop digits.length)
    else if isSimple c then some (.simple c, rest)
    else none

theorem escape?_length {cs rest : List Char} {p : Piece} (h : escape? cs = some (p, rest)) :
    rest.length < cs.length := by
  unfold escape? at h
  split at h
  · cases h
  · rename_i c tail
    dsimp only at h
    split at h
    · split at h
      · cases h
      · obtain ⟨_, _, h⟩ := Option.map_eq_some_iff.1 h
        cases h
        have := (List.dropWhile_suffix (· == 'u') (l := tail)).length_le
        simp only [List.length_drop, List.length_cons]
        omega
    · split at h
      · rename_i hoct
        cases h
        have hpos : 0 < octalLimit c := by unfold octalLimit; split <;> decide
        obtain ⟨n, hn⟩ : ∃ n, octalLimit c = n + 1 := ⟨_, (Nat.succ_pred (by omega)).symm⟩
        rw [hn, List.take_succ_cons, List.takeWhile_cons, if_pos hoct]
        simp only [List.length_cons, List.length_drop]
        omega
      · split at h
        · cases h
          exact Nat.lt_succ_self _
        · cases h

/-- The pieces of a body, if all its escapes are escapes of Java. -/
def read? (cs : List Char) : Option (List Piece) :=
  match cs with
  | [] => some []
  | '\\' :: rest =>
    match _h : escape? rest with
    | some (p, after) => (read? after).map (p :: ·)
    | none => none
  | c :: rest => (read? rest).map (.plain c :: ·)
  termination_by cs.length
  decreasing_by
    · have := escape?_length _h
      simp only [List.length_cons]
      omega
    · simp

/-! ## Writing the pieces -/

/-- The escape of the target for a code point. -/
def codePoint : Target → Nat → List Char
  | .csharp, v => ['\\', 'u'] ++ padded 4 (upperHex v)
  | .swift, v => ['\\', 'u', '\x7b'] ++ upperHex v ++ ['\x7d']
  | .cpp, v =>
    if 0xffff < v then ['\\', 'U'] ++ padded 8 (upperHex v)
    else ['\\', 'u'] ++ padded 4 (upperHex v)

/-- A character that stands for itself: quotes have to be escaped where the quotes change. -/
def renderPlain (quote : Quote) (c : Char) : List Char :=
  if quote == .singleAsDouble && c == '"' then ['\\', '"'] else [c]

/-- A backslash and a character. -/
def renderSimple (t : Target) (quote : Quote) (c : Char) : List Char :=
  if c == 's' then [' ']
  else if c == 'b' && t == .swift then codePoint .swift 8
  else if c == 'f' && t == .swift then codePoint .swift 12
  else if c == '\'' && quote == .singleAsDouble then ['\'']
  else ['\\', c]

/-- Octal escapes stay what they are in C++, and become code points elsewhere. -/
def renderOctal : Target → List Char → List Char
  | .cpp, ds => '\\' :: ds
  | t, ds => codePoint t (ofDigits 8 ds)

/-- The body of the target for the pieces of a body. Where code points are written, the halves of a
surrogate pair have to be beside each other. -/
def render? (t : Target) (quote : Quote) : List Piece → Option (List Char)
  | [] => some []
  | .plain c :: rest => (render? t quote rest).map (renderPlain quote c ++ ·)
  | .simple c :: rest => (render? t quote rest).map (renderSimple t quote c ++ ·)
  | .octal ds :: rest => (render? t quote rest).map (renderOctal t ds ++ ·)
  | .unit v :: rest =>
    if t == .csharp || !isSurrogate v then
      (render? t quote rest).map (codePoint t v ++ ·)
    else if isHighSurrogate v then
      match rest with
      | .unit low :: rest =>
        if isLowSurrogate low then
          (render? t quote rest).map (codePoint t (pairValue v low) ++ ·)
        else none
      | _ => none
    else none

end Piece

/-- The body of the target for the body of a literal. -/
def literalBody? (t : Target) (quote : Quote) (body : List Char) : Option (List Char) :=
  (Piece.read? body).bind (Piece.render? t quote)

/-- What stands between two quotes at the ends of a token. -/
def unquote? (quote : Char) : List Char → Option (List Char)
  | [] => none
  | c :: rest => if c == quote && rest.getLast? == some quote then some rest.dropLast else none

/-- The literal of the target for a string literal; text blocks have none. -/
def stringLiteral? (t : Target) (token : List Char) : Option (List Char) := do
  if ['"', '"', '"'].isPrefixOf token then none
  else
    let body ← literalBody? t .double (← unquote? '"' token)
    match t with
    | .cpp => some (['u', '"'] ++ body ++ ['"'])
    | .csharp | .swift => some (['"'] ++ body ++ ['"'])

/-- The literal of the target for a character literal. -/
def characterLiteral? (t : Target) (token : List Char) : Option (List Char) := do
  let body ← unquote? '\'' token
  match t with
  | .csharp => some (['\''] ++ (← literalBody? t .single body) ++ ['\''])
  | .cpp => some (['u', '\''] ++ (← literalBody? t .single body) ++ ['\''])
  | .swift => some (['"'] ++ (← literalBody? t .singleAsDouble body) ++ ['"'])

end Lockstep.Target
