/-!
# Numbers as digits

Digits of numbers in bases 8, 10 and 16, read and written.

- `ofDigits`: the number that digits stand for, in a base of at most ten.
- `ofHex?`: the number that digits in base 16 stand for.
- `lowerHex`, `upperHex`: the digits of a number in base 16.
- `padded`: digits with zeros before them.
-/

namespace Lockstep.Text

/-- The value of a digit below ten. -/
def digitValue (c : Char) : Nat := c.toNat - '0'.toNat

/-- The number that digits stand for. -/
def ofDigits (base : Nat) (ds : List Char) : Nat :=
  ds.foldl (fun n c => n * base + digitValue c) 0

/-- The value of a digit in base 16. -/
def hexValue? (c : Char) : Option Nat :=
  if '0' ≤ c ∧ c ≤ '9' then some (digitValue c)
  else if 'a' ≤ c ∧ c ≤ 'f' then some (c.toNat - 'a'.toNat + 10)
  else if 'A' ≤ c ∧ c ≤ 'F' then some (c.toNat - 'A'.toNat + 10)
  else none

/-- The number that digits in base 16 stand for. -/
def ofHex? (ds : List Char) : Option Nat :=
  ds.foldlM (fun n c => (hexValue? c).map (n * 16 + ·)) 0

/-- The digits of a number in base 16, in lower case. -/
def lowerHex (n : Nat) : List Char := Nat.toDigits 16 n

/-- The digits of a number in base 16, in upper case. -/
def upperHex (n : Nat) : List Char := (lowerHex n).map Char.toUpper

/-- Digits with as many zeros before them as make up the width. -/
def padded (width : Nat) (ds : List Char) : List Char :=
  List.replicate (width - ds.length) '0' ++ ds

theorem padded_length (width : Nat) (ds : List Char) :
    (padded width ds).length = max width ds.length := by
  simp only [padded, List.length_append, List.length_replicate]
  omega

theorem ofDigits_append_singleton (base : Nat) (ds : List Char) (c : Char) :
    ofDigits base (ds ++ [c]) = ofDigits base ds * base + digitValue c := by
  simp [ofDigits]

/-- Each digit that `lowerHex` may write is read as what it stands for. -/
theorem hexValue?_digitChar {n : Nat} (h : n < 16) : hexValue? (Nat.digitChar n) = some n := by
  have : ∀ m : Fin 16, hexValue? (Nat.digitChar m.val) = some m.val := by decide
  exact this ⟨n, h⟩

end Lockstep.Text
