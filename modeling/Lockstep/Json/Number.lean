import Lockstep.Json.Value
import Lockstep.Text.Digits

/-!
# Numbers in JSON

A number is written as a whole part with a sign, a fraction and an exponent. It is read as a product
of a natural number below 2⁶⁴ and a power of ten, and refused if that lies beyond the numbers of
double precision.

- `Json.numeral?`: the number at the head of a text.
- `Numeral.value?`: what a number stands for.
-/

namespace Lockstep.Json

open Text

/-- The parts of a number as they are spelled. -/
structure Numeral where
  sign : List Char
  whole : List Char
  /-- With its point; empty if there is none. -/
  fraction : List Char
  /-- With its mark and its sign; empty if there is none. -/
  exponent : List Char
  deriving DecidableEq, Inhabited, Repr

/-! ## Spelling -/

/-- Leading digits, and what follows them. -/
def digits (cs : List Char) : List Char × List Char :=
  (cs.takeWhile Char.isDigit, cs.dropWhile Char.isDigit)

/-- One digit at least, and what follows. -/
def digits? (cs : List Char) : Option (List Char × List Char) :=
  if (digits cs).1.isEmpty then none else some (digits cs)

/-- The whole part of a number: no leading zeros. -/
def whole? : List Char → Option (List Char × List Char)
  | '0' :: rest => some (['0'], rest)
  | cs => digits? cs

/-- The fraction of a number, with its point. -/
def fraction? : List Char → Option (List Char × List Char)
  | '.' :: rest => (digits? rest).map fun (ds, rest) => ('.' :: ds, rest)
  | cs => some ([], cs)

/-- The exponent of a number, with its mark and its sign. -/
def exponent? : List Char → Option (List Char × List Char)
  | c :: rest =>
    if c == 'e' || c == 'E' then
      match rest with
      | sign :: digits =>
        if sign == '+' || sign == '-' then
          (digits? digits).map fun (ds, rest) => (c :: sign :: ds, rest)
        else (digits? rest).map fun (ds, rest) => (c :: ds, rest)
      | [] => none
    else some ([], c :: rest)
  | [] => some ([], [])

/-- A minus sign, if there is one, and what follows. -/
def minus : List Char → List Char × List Char
  | '-' :: rest => (['-'], rest)
  | cs => ([], cs)

/-- A number at the head of a text. -/
def numeral? (cs : List Char) : Option (Numeral × List Char) := do
  let (whole, rest) ← whole? (minus cs).2
  let (fraction, rest) ← fraction? rest
  let (exponent, rest) ← exponent? rest
  some (⟨(minus cs).1, whole, fraction, exponent⟩, rest)

theorem minus_length (cs : List Char) : (minus cs).2.length ≤ cs.length := by
  unfold minus
  split <;> simp

theorem digits?_length {cs ds rest : List Char} (h : digits? cs = some (ds, rest)) :
    rest.length < cs.length := by
  unfold digits? at h
  split at h
  · cases h
  · rename_i hne
    cases h
    have := congrArg List.length (List.takeWhile_append_dropWhile (p := Char.isDigit) (l := cs))
    rw [List.length_append] at this
    have : 0 < (cs.takeWhile Char.isDigit).length := by
      simpa [digits, List.isEmpty_iff, List.length_pos_iff] using hne
    omega

theorem whole?_length {cs ds rest : List Char} (h : whole? cs = some (ds, rest)) :
    rest.length < cs.length := by
  unfold whole? at h
  split at h
  · cases h; simp
  · exact digits?_length h

theorem fraction?_length {cs ds rest : List Char} (h : fraction? cs = some (ds, rest)) :
    rest.length ≤ cs.length := by
  unfold fraction? at h
  split at h
  · obtain ⟨⟨_, _⟩, hd, h⟩ := Option.map_eq_some_iff.1 h
    cases h
    have := digits?_length hd
    simp only [List.length_cons]
    omega
  · cases h; exact Nat.le_refl _

theorem exponent?_length {cs ds rest : List Char} (h : exponent? cs = some (ds, rest)) :
    rest.length ≤ cs.length := by
  unfold exponent? at h
  split at h
  · split at h
    · split at h
      · split at h
        · obtain ⟨⟨_, _⟩, hd, h⟩ := Option.map_eq_some_iff.1 h
          cases h
          have := digits?_length hd
          simp only [List.length_cons]
          omega
        · obtain ⟨⟨_, _⟩, hd, h⟩ := Option.map_eq_some_iff.1 h
          cases h
          have := digits?_length hd
          simp only [List.length_cons] at this ⊢
          omega
      · cases h
    · cases h; exact Nat.le_refl _
  · cases h; exact Nat.le_refl _

theorem numeral?_length {cs rest : List Char} {n : Numeral} (h : numeral? cs = some (n, rest)) :
    rest.length < cs.length := by
  simp only [numeral?, Option.bind_eq_bind, Option.bind_eq_some_iff, Prod.exists] at h
  obtain ⟨_, _, hw, _, _, hf, _, _, he, h⟩ := h
  cases h
  have := minus_length cs
  have := whole?_length hw
  have := fraction?_length hf
  have := exponent?_length he
  omega

/-! ## Range -/

/-- Append digits to a number as long as it stays below 2⁶⁴. The second part is how many digits are
left over. -/
def appendDigits (n : Nat) : List Char → Nat × Nat
  | [] => (n, 0)
  | c :: cs =>
    if n * 10 + digitValue c < UInt64.size then appendDigits (n * 10 + digitValue c) cs
    else (n, cs.length + 1)

/-- The nearest number of 53 binary digits followed by zeros; the even one of two. -/
def nearestDouble (n : Nat) : Nat :=
  let unit := 1 <<< (n.log2 - 52)
  let quotient := n / unit
  let twice := 2 * (n % unit)
  if twice < unit || (twice == unit && quotient % 2 == 0) then quotient * unit
  else (quotient + 1) * unit

namespace Numeral

/-- The power of ten that the exponent gives. -/
def power (n : Numeral) : Int :=
  match n.exponent with
  | _ :: '-' :: ds => -(ofDigits 10 ds : Int)
  | _ :: '+' :: ds => ofDigits 10 ds
  | _ :: ds => ofDigits 10 ds
  | [] => 0

/-- The number without its sign, as a product of a natural number below 2⁶⁴ and a power of ten.
Whole digits that are left over count for the power, decimals that are left over are dropped. -/
def scaled (n : Numeral) : Nat × Int :=
  let whole := appendDigits 0 n.whole
  let decimals := n.fraction.drop 1
  let all := appendDigits whole.1 decimals
  (all.1, n.power + whole.2 - (decimals.length - all.2 : Nat))

/-- Whether the number is one of double precision: both factors and their product are rounded. -/
def fits (n : Numeral) : Bool :=
  let (factor, power) := n.scaled
  factor == 0 || power < 0 ||
    (power ≤ 308 &&
      nearestDouble factor * nearestDouble (Nat.pow 10 power.toNat) < 1 <<< 1024 - 1 <<< 970)

/-- What the number stands for, unless it is too large. -/
def value? (n : Numeral) : Option Json :=
  if !n.fits then none
  else if n.sign.isEmpty && n.fraction.isEmpty && n.exponent.isEmpty then
    some (.nat (ofDigits 10 n.whole))
  else some (.number (String.ofList (n.sign ++ n.whole ++ n.fraction ++ n.exponent)))

end Numeral

theorem appendDigits_lt {n : Nat} (h : n < UInt64.size) (cs : List Char) :
    (appendDigits n cs).1 < UInt64.size := by
  induction cs generalizing n with
  | nil => exact h
  | cons c cs ih =>
    unfold appendDigits
    split
    · exact ih ‹_›
    · exact h

/-- No more digits are left over than there are. -/
theorem appendDigits_le_length (n : Nat) (cs : List Char) :
    (appendDigits n cs).2 ≤ cs.length := by
  induction cs generalizing n with
  | nil => exact Nat.le_refl _
  | cons c cs ih =>
    unfold appendDigits
    split
    · exact Nat.le_succ_of_le (ih _)
    · exact Nat.le_refl _

/-- A number of no more than 53 binary digits is its own nearest. -/
theorem nearestDouble_of_lt {n : Nat} (h : n < 1 <<< 53) : nearestDouble n = n := by
  rw [Nat.one_shiftLeft] at h
  have : n.log2 - 52 = 0 := by
    by_cases hn : n = 0
    · simp [hn]
    · have := (Nat.log2_lt hn).2 h
      omega
  simp [nearestDouble, this, Nat.mod_one]

end Lockstep.Json
