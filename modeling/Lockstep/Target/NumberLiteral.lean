import Lockstep.Target.Basic
import Lockstep.Text.Digits

/-!
# Number literals

A number literal of Java has a mark for its base, a body and a suffix. Each target keeps as much of
that spelling as it allows, and gives the same value in another spelling otherwise.

- `Number.ofToken`: the parts of a literal.
- `numberLiteral`: the literal of a target.
-/

namespace Lockstep.Target

/-- The base that the body of a number is written in. -/
inductive Radix where
  | decimal | hex | binary | octal
  deriving DecidableEq, Repr

/-- The parts of a number literal. -/
structure Number where
  radix : Radix
  /-- The mark of the base as it is written; none for decimal and octal numbers. -/
  mark : List Char
  body : List Char
  suffix : Option Char
  deriving DecidableEq, Repr

namespace Number

/-- The base, its mark and what follows. -/
def splitMark : List Char → Radix × List Char × List Char
  | '0' :: 'x' :: rest => (.hex, ['0', 'x'], rest)
  | '0' :: 'X' :: rest => (.hex, ['0', 'X'], rest)
  | '0' :: 'b' :: rest => (.binary, ['0', 'b'], rest)
  | '0' :: 'B' :: rest => (.binary, ['0', 'B'], rest)
  | cs => (.decimal, [], cs)

def hasBinaryExponent (cs : List Char) : Bool := cs.any fun c => c == 'p' || c == 'P'

def isLongSuffix (c : Char) : Bool := c == 'l' || c == 'L'

def isFloatSuffix (c : Char) : Bool := c == 'f' || c == 'F' || c == 'd' || c == 'D'

/-- Whether a number in that base may end with the suffix. The letters for floating point are
digits of a number in base 16, unless it has an exponent. -/
def allowsSuffix (radix : Radix) (digits : List Char) (c : Char) : Bool :=
  if radix == .hex && !hasBinaryExponent digits then isLongSuffix c
  else isLongSuffix c || isFloatSuffix c

/-- Body and suffix of a number. -/
def splitSuffix (radix : Radix) (digits : List Char) : List Char × Option Char :=
  match digits.getLast? with
  | some c => if allowsSuffix radix digits c then (digits.dropLast, some c) else (digits, none)
  | none => (digits, none)

/-- Whether the body has a point or a decimal exponent. -/
def hasFraction (body : List Char) : Bool := body.any fun c => c == '.' || c == 'e' || c == 'E'

/-- Whether the number is a floating point number. -/
def isFloat (n : Number) : Bool :=
  match n.radix with
  | .decimal => hasFraction n.body || n.suffix.any isFloatSuffix
  | .hex => hasBinaryExponent n.body
  | .binary | .octal => false

def isOctalDigit (c : Char) : Bool := '0' ≤ c && c ≤ '7'

/-- Whether a number without a mark is octal: an integer that starts with a zero and goes on with
octal digits. -/
def isOctal (n : Number) : Bool :=
  n.radix == .decimal && !n.isFloat && 1 < n.body.length && n.body.head? == some '0' &&
    n.body.all fun c => isOctalDigit c || c == '_'

/-- The parts of a literal. -/
def ofToken (token : List Char) : Number :=
  let (radix, mark, digits) := splitMark token
  let (body, suffix) := splitSuffix radix digits
  let n : Number := ⟨radix, mark, body, suffix⟩
  if n.isOctal then { n with radix := .octal } else n

/-- The digits of an octal number without leading zeros. -/
def octalDigits (n : Number) : List Char := (n.body.dropWhile (· == '0')).dropWhile (· == '_')

/-- The value of an octal number. -/
def octalValue (n : Number) : Nat :=
  Text.ofDigits 8 (n.octalDigits.filter (· != '_'))

/-- A digit after a point that nothing or an exponent follows. -/
def completeFraction : List Char → List Char
  | [] => []
  | '.' :: rest =>
    match rest with
    | [] => ['.', '0']
    | c :: _ => if c == 'e' || c == 'E' then '.' :: '0' :: rest else '.' :: rest
  | c :: rest => c :: completeFraction rest

def suffixText (n : Number) : List Char := n.suffix.toList

/-! ## The targets -/

/-- Octal numbers become numbers in base 16, as long as 64 bits hold them; there is no floating
point in base 16. -/
def csharp? (token : List Char) (n : Number) : Option (List Char) :=
  match n.radix with
  | .octal =>
    if n.octalValue < UInt64.size then
      some (['0', 'x'] ++ Text.upperHex n.octalValue ++ n.suffixText)
    else none
  | .decimal => some (completeFraction n.body ++ n.suffixText)
  | .hex => if n.isFloat then none else some token
  | .binary => some token

/-- There are no suffixes, and a number with a fraction starts with a digit. -/
def swift (n : Number) : List Char :=
  match n.radix with
  | .hex => ['0', 'x'] ++ n.body
  | .binary => ['0', 'b'] ++ n.body
  | .octal => if n.octalDigits.isEmpty then ['0'] else ['0', 'o'] ++ n.octalDigits
  | .decimal =>
    let body := completeFraction n.body
    let body := if body.head? == some '.' then '0' :: body else body
    if n.isFloat && !hasFraction n.body then body ++ ['.', '0'] else body

/-- Body and suffix in C++, where a suffix for floating point follows a fraction or an exponent. -/
def cppParts (body : List Char) (hasFraction : Bool) : Option Char → List Char × List Char
  | some 'l' | some 'L' => (body, ['L', 'L'])
  | some 'f' => if hasFraction then (body, ['f']) else (body ++ ['.', '0'], ['f'])
  | some 'F' => if hasFraction then (body, ['F']) else (body ++ ['.', '0'], ['f'])
  | some 'd' | some 'D' => if hasFraction then (body, []) else (body ++ ['.', '0'], [])
  | _ => (body, [])

/-- Digits are separated by apostrophes. -/
def cpp (n : Number) : List Char :=
  let body := n.body.map fun c => if c == '_' then '\'' else c
  let (body, suffix) := cppParts body (hasFraction n.body) n.suffix
  n.mark ++ body ++ suffix

end Number

/-- The literal of the target for a number literal, if there is one. -/
def numberLiteral? (t : Target) (token : List Char) : Option (List Char) :=
  let n := Number.ofToken token
  match t with
  | .csharp => n.csharp? token
  | .swift => some n.swift
  | .cpp => some n.cpp

end Lockstep.Target
