/-!
# Surrogate pairs

A code point above `ffff` takes two code units of UTF-16: a high half and then a low half.

- `pairValue`: the code point of a pair.
-/

namespace Lockstep.Text

/-- Whether a code unit is the first half of a pair. -/
def isHighSurrogate (v : Nat) : Bool := 0xd800 ≤ v && v < 0xdc00

/-- Whether a code unit is the second half of a pair. -/
def isLowSurrogate (v : Nat) : Bool := 0xdc00 ≤ v && v < 0xe000

def isSurrogate (v : Nat) : Bool := isHighSurrogate v || isLowSurrogate v

/-- The halves of pairs are the values from `d800` to `dfff`. -/
theorem isSurrogate_eq_false_iff {v : Nat} : isSurrogate v = false ↔ v < 0xd800 ∨ 0xe000 ≤ v := by
  simp only [isSurrogate, isHighSurrogate, isLowSurrogate, Bool.or_eq_false_iff,
    Bool.and_eq_false_iff, decide_eq_false_iff_not]
  omega

/-- The code point of a pair. -/
def pairValue (high low : Nat) : Nat := 0x10000 + (high - 0xd800) * 0x400 + (low - 0xdc00)

/-- A pair stands for a code point above those of a single unit. -/
theorem pairValue_bounds {high low : Nat} (hh : isHighSurrogate high = true)
    (hl : isLowSurrogate low = true) :
    0x10000 ≤ pairValue high low ∧ pairValue high low < 0x110000 := by
  simp only [isHighSurrogate, isLowSurrogate, Bool.and_eq_true, decide_eq_true_eq] at hh hl
  unfold pairValue
  omega

/-- The code point of a pair is not a half of one. -/
theorem isSurrogate_pairValue {high low : Nat} (hh : isHighSurrogate high = true)
    (hl : isLowSurrogate low = true) : isSurrogate (pairValue high low) = false :=
  isSurrogate_eq_false_iff.2 (.inr (Nat.le_trans (by decide) (pairValue_bounds hh hl).1))

/-- Different pairs stand for different code points. -/
theorem pairValue_inj {high low high' low' : Nat} (hh : isHighSurrogate high = true)
    (hl : isLowSurrogate low = true) (hh' : isHighSurrogate high' = true)
    (hl' : isLowSurrogate low' = true) (h : pairValue high low = pairValue high' low') :
    high = high' ∧ low = low' := by
  simp only [isHighSurrogate, isLowSurrogate, Bool.and_eq_true, decide_eq_true_eq] at *
  unfold pairValue at h
  omega

end Lockstep.Text
