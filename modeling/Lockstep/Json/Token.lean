import Lockstep.Json.Number
import Lockstep.Text.Surrogate

/-!
# JSON tokens

The tokens of a JSON text. White space separates them; strings may hold any character but control
characters. A string stands for a text only if each escaped half of a surrogate pair is beside its
other half.

- `Json.tokens?`: the tokens of a text.
- `Scalar.value?`: what a token stands for by itself.
-/

namespace Lockstep.Json

open Text

/-! ## Strings -/

/-- A character of a string, or a code unit given by its number. -/
inductive Piece where
  | char (c : Char)
  | unit (value : Nat)
  deriving DecidableEq, Repr

/-- The character that a backslash before `c` stands for. -/
def escape? : Char → Option Char
  | '"' => some '"'
  | '\\' => some '\\'
  | '/' => some '/'
  | 'b' => some '\x08'
  | 'f' => some '\x0c'
  | 'n' => some '\n'
  | 'r' => some '\r'
  | 't' => some '\t'
  | _ => none

/-- The pieces of a string up to its closing quote, and what follows. -/
def pieces? : List Char → Option (List Piece × List Char)
  | '"' :: rest => some ([], rest)
  | '\\' :: 'u' :: a :: b :: c :: d :: rest => do
    let unit ← ofHex? [a, b, c, d]
    let (pieces, rest) ← pieces? rest
    some (.unit unit :: pieces, rest)
  | '\\' :: c :: rest => do
    let c ← escape? c
    let (pieces, rest) ← pieces? rest
    some (.char c :: pieces, rest)
  | c :: rest =>
    if c.toNat < 0x20 then none
    else do
      let (pieces, rest) ← pieces? rest
      some (.char c :: pieces, rest)
  | [] => none

/-- The characters of a string; halves of surrogate pairs have to be beside each other. -/
def join? : List Piece → Option (List Char)
  | [] => some []
  | .char c :: rest => (join? rest).map (c :: ·)
  | .unit unit :: rest =>
    if isHighSurrogate unit then
      match rest with
      | .unit low :: rest =>
        if isLowSurrogate low then (join? rest).map (Char.ofNat (pairValue unit low) :: ·)
        else none
      | _ => none
    else if isLowSurrogate unit then none
    else (join? rest).map (Char.ofNat unit :: ·)

theorem pieces?_length {cs : List Char} {pieces : List Piece} {rest : List Char}
    (h : pieces? cs = some (pieces, rest)) : rest.length < cs.length := by
  fun_induction pieces? cs generalizing pieces rest with
  | case1 => cases h; simp
  | case2 a b c d tail ih =>
    simp only [Option.bind_eq_bind, Option.bind_eq_some_iff, Option.some.injEq, Prod.mk.injEq,
      Prod.exists] at h
    obtain ⟨_, _, _, _, h, _, rfl⟩ := h
    have := ih h
    simp only [List.length_cons]
    omega
  | case3 c tail _ ih =>
    simp only [Option.bind_eq_bind, Option.bind_eq_some_iff, Option.some.injEq, Prod.mk.injEq,
      Prod.exists] at h
    obtain ⟨_, _, _, _, h, _, rfl⟩ := h
    have := ih h
    simp only [List.length_cons]
    omega
  | case4 => cases h
  | case5 c tail _ _ _ _ ih =>
    simp only [Option.bind_eq_bind, Option.bind_eq_some_iff, Option.some.injEq, Prod.mk.injEq,
      Prod.exists] at h
    obtain ⟨_, _, h, _, rfl⟩ := h
    have := ih h
    simp only [List.length_cons]
    omega
  | case6 => cases h

/-- The text that a string stands for. -/
def textOfPieces? (pieces : List Piece) : Option String := (join? pieces).map String.ofList

/-! ## Tokens -/

/-- A value that holds no other, as it is spelled. -/
inductive Scalar where
  | null
  | bool (value : Bool)
  | number (value : Numeral)
  | string (pieces : List Piece)
  deriving Inhabited, Repr

/-- What is spelled, unless a number is too large or half of a surrogate pair stands alone. -/
def Scalar.value? : Scalar → Option Json
  | .null => some .null
  | .bool value => some (.bool value)
  | .number value => value.value?
  | .string pieces => (textOfPieces? pieces).map Json.string

/-- A token: a mark, or a value that holds no other. -/
inductive Token where
  | openObject | closeObject
  | openArray | closeArray
  | colon | comma
  | scalar (value : Scalar)
  deriving Inhabited, Repr

/-- White space between tokens. -/
def isSeparator (c : Char) : Bool := c == ' ' || c == '\t' || c == '\n' || c == '\r'

/-- The token at the head of a text, which must not begin with white space. -/
def Token.next? : List Char → Option (Token × List Char)
  | '\x7b' :: rest => some (.openObject, rest)
  | '\x7d' :: rest => some (.closeObject, rest)
  | '[' :: rest => some (.openArray, rest)
  | ']' :: rest => some (.closeArray, rest)
  | ':' :: rest => some (.colon, rest)
  | ',' :: rest => some (.comma, rest)
  | '"' :: rest => (pieces? rest).map fun (pieces, rest) => (.scalar (.string pieces), rest)
  | 'n' :: 'u' :: 'l' :: 'l' :: rest => some (.scalar .null, rest)
  | 't' :: 'r' :: 'u' :: 'e' :: rest => some (.scalar (.bool true), rest)
  | 'f' :: 'a' :: 'l' :: 's' :: 'e' :: rest => some (.scalar (.bool false), rest)
  | cs => (numeral? cs).map fun (n, rest) => (.scalar (.number n), rest)

theorem Token.next?_length {cs rest : List Char} {t : Token} (h : next? cs = some (t, rest)) :
    rest.length < cs.length := by
  fun_cases Token.next? cs
  all_goals simp only [Token.next?] at h
  case case7 tail =>
    obtain ⟨⟨_, _⟩, hp, h⟩ := Option.map_eq_some_iff.1 h
    cases h
    have := pieces?_length hp
    simp only [List.length_cons]
    omega
  case case11 =>
    obtain ⟨⟨_, _⟩, hn, h⟩ := Option.map_eq_some_iff.1 h
    cases h
    exact numeral?_length hn
  all_goals
    cases h
    simp only [List.length_cons]
    omega

/-- The tokens of a text. -/
def tokens? (cs : List Char) : Option (List Token) :=
  match _hs : cs.dropWhile isSeparator with
  | [] => some []
  | c :: rest =>
    match _ht : Token.next? (c :: rest) with
    | none => none
    | some (t, after) => (tokens? after).map (t :: ·)
  termination_by cs.length
  decreasing_by
    have := Token.next?_length _ht
    have := (List.dropWhile_suffix isSeparator (l := cs)).length_le
    rw [_hs] at this
    omega

end Lockstep.Json
