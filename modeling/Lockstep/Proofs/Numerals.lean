import Lockstep.Proofs.NumberTokens
import Mathlib.Algebra.Field.Rat
import Mathlib.Data.List.Chain

/-!
# Numerals

The number literals of all the languages have the same parts: the mark of a base, digits, digits
after a point, an exponent and a suffix. The languages differ in the parts that they allow, in where
they allow separators between digits, and in what a zero at the front means.

- `Numeral.read`: the parts of a literal.
- `NumberRules`, `NumberRules.Accepts`: the numerals of a language.
- `NumberRules.denotes?`: whether a literal is an integer, and the number that it denotes.
- `Numeral.read_spelling`: parts that are spelled are read again.
-/

namespace Lockstep.Target

open Text

section

variable {p : Char → Prop} [DecidablePred p]

-- What holds of some characters is decided by looking at these, and not at all that there are.

instance (priority := 2000) decidableForallMem (cs : List Char) : Decidable (∀ c ∈ cs, p c) :=
  List.decidableBAll p cs

instance (priority := 2000) decidableExistsMem (cs : List Char) : Decidable (∃ c ∈ cs, p c) :=
  List.decidableBEx p cs

instance (priority := 2000) decidableForallMem? (c? : Option Char) : Decidable (∀ c ∈ c?, p c) :=
  Option.decidableForallMem c?

end

/-! ## Parts -/

structure Exponent where
  letter : Char
  sign : List Char
  digits : List Char
  deriving DecidableEq, Repr

/-- The parts of a number literal as they are spelled. Digits are written with the separators
between them. -/
structure Numeral where
  mark : List Char
  whole : List Char
  /-- What follows the point, if there is one. -/
  fraction : Option (List Char)
  exponent : Option Exponent
  suffix : List Char
  deriving DecidableEq, Repr

/-- A digit or a separator. -/
def isRowChar (hex : Bool) (c : Char) : Bool :=
  (if hex then (hexValue? c).isSome else c.isDigit) || c == '_' || c == '\''

/-- The letters of the marks of bases. -/
def markChars : List Char := ['x', 'X', 'b', 'B', 'o', 'O']

namespace Numeral

variable {n : Numeral} {token : List Char}

def isHex (n : Numeral) : Bool := Target.isHex n.mark

def fractionSpelling (n : Numeral) : List Char := n.fraction.elim [] ('.' :: ·)

def exponentSpelling (n : Numeral) : List Char :=
  n.exponent.elim [] fun e => e.letter :: (e.sign ++ e.digits)

/-- Everything but the mark and the suffix. -/
def body (n : Numeral) : List Char := n.whole ++ (n.fractionSpelling ++ n.exponentSpelling)

def spelling (n : Numeral) : List Char := n.mark ++ (n.body ++ n.suffix)

theorem body_eq (hfraction : n.fraction = none) (hexponent : n.exponent = none) :
    n.body = n.whole := by
  rw [body, fractionSpelling, exponentSpelling, hfraction, hexponent]
  exact List.append_nil n.whole

/-! ## Reading -/

/-- The mark of a base, and what follows. -/
def readMark : List Char → List Char × List Char
  | '0' :: c :: rest => if markChars.contains c then (['0', c], rest) else ([], '0' :: c :: rest)
  | cs => ([], cs)

def readFraction (hex : Bool) : List Char → Option (List Char) × List Char
  | '.' :: rest => (some (rest.takeWhile (isRowChar hex)), rest.dropWhile (isRowChar hex))
  | cs => (none, cs)

def readExponent (hex : Bool) : List Char → Option Exponent × List Char
  | [] => (none, [])
  | c :: rest =>
    if isExponent hex c then
      let digits := rest.dropWhile isSign
      (some ⟨c, rest.takeWhile isSign, digits.takeWhile (isRowChar false)⟩,
        digits.dropWhile (isRowChar false))
    else (none, c :: rest)

/-- The parts of a literal. Whatever is left over is the suffix. -/
def read (token : List Char) : Numeral :=
  let (mark, body) := readMark token
  let hex := Target.isHex mark
  let (fraction, rest) := readFraction hex (body.dropWhile (isRowChar hex))
  let (exponent, suffix) := readExponent hex rest
  ⟨mark, body.takeWhile (isRowChar hex), fraction, exponent, suffix⟩

/-- What the parts have to be like so that they are read again. -/
structure IsReadable (n : Numeral) : Prop where
  mark : n.mark = [] ∨ ∃ c ∈ markChars, n.mark = ['0', c]
  whole : ∀ c ∈ n.whole, isRowChar n.isHex c = true
  fraction : ∀ row ∈ n.fraction, ∀ c ∈ row, isRowChar n.isHex c = true
  exponent : ∀ e ∈ n.exponent, isExponent n.isHex e.letter = true ∧
    (∀ c ∈ e.sign, isSign c = true) ∧ e.digits ≠ [] ∧ ∀ c ∈ e.digits, isRowChar false c = true
  suffix : ∀ c ∈ n.suffix.head?, isRowChar (n.isHex && n.exponent.isNone) c = false ∧
    (n.exponent = none → isExponent n.isHex c = false ∧ c ∉ '.' :: markChars)

/-- A row of digits is cut off from what follows. -/
theorem row_append {p : Char → Bool} {row rest : List Char} (hrow : ∀ c ∈ row, p c = true)
    (hrest : ∀ c ∈ rest.head?, p c = false) :
    (row ++ rest).takeWhile p = row ∧ (row ++ rest).dropWhile p = rest := by
  rw [List.takeWhile_append_of_pos hrow, List.dropWhile_append_of_pos hrow]
  cases rest with
  | nil => exact ⟨List.append_nil row, rfl⟩
  | cons c cs =>
    have hc : ¬p c = true := by simp [hrest c rfl]
    rw [List.takeWhile_cons_of_neg hc, List.dropWhile_cons_of_neg hc, List.append_nil]
    exact ⟨rfl, rfl⟩

/-- Nothing is lost. -/
theorem spelling_read (token : List Char) : (read token).spelling = token := by
  have hmark (cs : List Char) : (readMark cs).1 ++ (readMark cs).2 = cs := by
    fun_cases readMark cs <;> rfl
  have hfraction (hex : Bool) (cs : List Char) :
      (readFraction hex cs).1.elim [] ('.' :: ·) ++ (readFraction hex cs).2 = cs := by
    fun_cases readFraction hex cs with
    | case1 rest => exact congrArg ('.' :: ·) List.takeWhile_append_dropWhile
    | case2 => rfl
  have hexponent (hex : Bool) (cs : List Char) :
      (readExponent hex cs).1.elim [] (fun e => e.letter :: (e.sign ++ e.digits)) ++
        (readExponent hex cs).2 = cs := by
    fun_cases readExponent hex cs with
    | case1 => rfl
    | case2 c rest hc digits =>
      show c :: (rest.takeWhile isSign ++ digits.takeWhile (isRowChar false)) ++
        digits.dropWhile (isRowChar false) = c :: rest
      rw [List.cons_append, List.append_assoc, List.takeWhile_append_dropWhile,
        List.takeWhile_append_dropWhile]
    | case3 => rfl
  simp only [read, spelling, body, fractionSpelling, exponentSpelling, List.append_assoc]
  rw [hexponent, hfraction, List.takeWhile_append_dropWhile, hmark]

theorem readExponent_append {hex : Bool} {e? : Option Exponent} {suffix : List Char}
    (h : ∀ e ∈ e?, isExponent hex e.letter = true ∧ (∀ c ∈ e.sign, isSign c = true) ∧
      e.digits ≠ [] ∧ ∀ c ∈ e.digits, isRowChar false c = true)
    (hsuffix : ∀ c ∈ suffix.head?, isRowChar (hex && e?.isNone) c = false ∧
      (e? = none → isExponent hex c = false)) :
    readExponent hex (e?.elim [] (fun e => e.letter :: (e.sign ++ e.digits)) ++ suffix) =
      (e?, suffix) := by
  cases e? with
  | none =>
    cases suffix with
    | nil => rfl
    | cons c cs =>
      have hc : ¬isExponent hex c = true := by simp [(hsuffix c rfl).2 rfl]
      exact if_neg hc
  | some e =>
    obtain ⟨hletter, hsign, hne, hdigits⟩ := h e rfl
    have hrow (c : Char) (hc : c ∈ suffix.head?) : isRowChar false c = false := by
      simpa using (hsuffix c hc).1
    have hstops : ∀ c ∈ (e.digits ++ suffix).head?, isSign c = false := by
      intro c hc
      rw [List.head?_append_of_ne_nil _ hne] at hc
      have hdigit := hdigits c (List.mem_of_mem_head? hc)
      refine Bool.eq_false_iff.2 fun hsigned => ?_
      simp only [isSign, Bool.or_eq_true, beq_iff_eq] at hsigned
      rcases hsigned with rfl | rfl <;> cases hdigit
    obtain ⟨hsigns, hafter⟩ := row_append hsign hstops
    obtain ⟨htaken, hleft⟩ := row_append hdigits hrow
    show readExponent hex (e.letter :: (e.sign ++ e.digits ++ suffix)) = (some e, suffix)
    rw [List.append_assoc, readExponent, if_pos hletter]
    simp only [hsigns, hafter, htaken, hleft]

theorem readFraction_append {hex : Bool} {row? : Option (List Char)} {rest : List Char}
    (h : ∀ row ∈ row?, ∀ c ∈ row, isRowChar hex c = true)
    (hrest : ∀ c ∈ rest.head?, (row?.isSome = true → isRowChar hex c = false) ∧
      (row? = none → c ≠ '.')) :
    readFraction hex (row?.elim [] ('.' :: ·) ++ rest) = (row?, rest) := by
  cases row? with
  | none =>
    rw [Option.elim_none, List.nil_append]
    fun_cases readFraction hex rest with
    | case1 => exact absurd rfl ((hrest '.' rfl).2 rfl)
    | case2 => rfl
  | some row =>
    obtain ⟨htaken, hleft⟩ := row_append (h row rfl) fun c hc => (hrest c hc).1 rfl
    show readFraction hex ('.' :: (row ++ rest)) = (some row, rest)
    rw [readFraction, htaken, hleft]

theorem readMark_eq {cs : List Char}
    (h : cs.head? = some '0' → ∀ c ∈ cs.tail.head?, c ∉ markChars) : readMark cs = ([], cs) := by
  fun_cases readMark cs with
  | case1 c rest hc => exact absurd (List.contains_iff_mem.1 hc) (h rfl c rfl)
  | case2 => rfl
  | case3 => rfl

/-- What follows the digits after a point. -/
theorem IsReadable.head?_exponent (h : n.IsReadable) :
    ∀ c ∈ (n.exponentSpelling ++ n.suffix).head?,
      isRowChar n.isHex c = false ∧ c ∉ '.' :: markChars := by
  intro c hc
  cases he : n.exponent with
  | none =>
    have hsuffix := h.suffix c
    rw [he] at hsuffix
    rw [exponentSpelling, he] at hc
    simpa using And.intro (hsuffix hc).1 ((hsuffix hc).2 rfl).2
  | some e =>
    rw [exponentSpelling, he] at hc
    cases hc
    have hletter := (h.exponent e he).1
    generalize n.isHex = hex at hletter ⊢
    cases hex <;>
    · simp only [isExponent, Bool.false_eq_true, if_true, if_false, Bool.or_eq_true, beq_iff_eq]
        at hletter
      rcases hletter with hletter | hletter <;> rw [hletter] <;> decide

/-- What follows the digits before a point. -/
theorem IsReadable.head?_fraction (h : n.IsReadable) :
    ∀ c ∈ (n.fractionSpelling ++ (n.exponentSpelling ++ n.suffix)).head?,
      isRowChar n.isHex c = false ∧ c ∉ markChars := by
  intro c hc
  cases hrow : n.fraction with
  | none =>
    rw [fractionSpelling, hrow] at hc
    exact (h.head?_exponent c hc).imp_right fun hno hmem => hno (List.mem_cons_of_mem _ hmem)
  | some row =>
    rw [fractionSpelling, hrow] at hc
    cases hc
    cases n.isHex <;> decide

theorem IsReadable.readMark_spelling (h : n.IsReadable) :
    readMark n.spelling = (n.mark, n.body ++ n.suffix) := by
  rcases h.mark with hmark | ⟨c, hc, hmark⟩
  · have hhex : n.isHex = false := by
      rw [isHex, hmark]
      rfl
    have hwhole := h.whole
    have hrest := h.head?_fraction
    rw [hhex] at hwhole hrest
    rw [spelling, hmark, List.nil_append, body, List.append_assoc, List.append_assoc]
    refine readMark_eq fun hzero c hc hmem => ?_
    cases hrow : n.whole with
    | nil =>
      rw [hrow, List.nil_append] at hzero
      cases (hrest '0' hzero).1
    | cons d row =>
      rw [hrow] at hc hwhole
      cases row with
      | nil => exact (hrest c hc).2 hmem
      | cons f row =>
        cases hc
        have hall : ∀ c ∈ markChars, isRowChar false c = false := by decide
        have hdigit := hwhole c (List.mem_cons_of_mem d List.mem_cons_self)
        rw [hall c hmem] at hdigit
        cases hdigit
  · rw [spelling, hmark]
    exact if_pos (List.contains_iff_mem.2 hc)

/-- Parts that are spelled are read again. -/
theorem read_spelling (h : n.IsReadable) : read n.spelling = n := by
  obtain ⟨htaken, hleft⟩ := row_append h.whole fun c hc => (h.head?_fraction c hc).1
  have hfraction := readFraction_append h.fraction fun c hc =>
    have hafter := h.head?_exponent c hc
    ⟨fun _ => hafter.1, fun _ hpoint => hafter.2 (hpoint ▸ List.mem_cons_self)⟩
  have hexponent := readExponent_append h.exponent fun c hc =>
    ⟨(h.suffix c hc).1, fun he => ((h.suffix c hc).2 he).1⟩
  rw [isHex] at htaken hleft hfraction hexponent
  simp only [read, h.readMark_spelling, body, List.append_assoc, htaken, hleft]
  rw [fractionSpelling, hfraction]
  simp only [exponentSpelling, hexponent]

end Numeral

/-! ## Values -/

/-- The values of the digits in a row. -/
def rowDigits (row : List Char) : List Nat := row.filterMap hexValue?

def rowValue (base : Nat) (row : List Char) : Nat :=
  (rowDigits row).foldl (fun n d => n * base + d) 0

/-- The number that digits before and after a point stand for. -/
def pointValue (base : Nat) (whole fraction : List Char) : ℚ :=
  rowValue base (whole ++ fraction) / base ^ (rowDigits fraction).length

namespace Numeral

/-- Begins with a zero that has digits behind it. -/
def isOctal (n : Numeral) : Bool := n.whole.head? == some '0' && 1 < n.whole.length

def exponentValue (n : Numeral) : Int :=
  n.exponent.elim 0 fun e =>
    if e.sign == ['-'] then -(rowValue 10 e.digits) else rowValue 10 e.digits

end Numeral

/-! ## Languages -/

/-- What a language allows in numerals. -/
structure NumberRules where
  /-- The letters of its marks. -/
  marks : List Char
  separator : Char
  /-- Whether separators are where they may be in a row of digits, behind a mark or not. -/
  separates : Bool → List Char → Bool
  /-- An integer that begins with a zero is one in base 8. -/
  zeroIsOctal : Bool
  emptyWhole : Bool
  emptyFraction : Bool
  hexFloats : Bool
  integerSuffixes : List (List Char)
  floatSuffixes : List (List Char)
  /-- A suffix for floating point may follow an integer, and makes it a floating point number. -/
  suffixMakesFloat : Bool
  /-- The greatest integer that there is for the base and suffix. -/
  limit? : Nat → List Char → Option Nat
  mem_markChars : ∀ c ∈ marks, c ∈ markChars := by decide
  separator_eq : separator = '_' ∨ separator = '\'' := by decide
  head?_integerSuffix : ∀ s ∈ integerSuffixes, ∀ c ∈ s.head?, c ∈ ['l', 'L', 'u', 'U'] := by decide
  head?_floatSuffix : ∀ s ∈ floatSuffixes, ∀ c ∈ s.head?,
    c ∈ ['f', 'F', 'd', 'D', 'm', 'M', 'l', 'L'] := by decide

namespace NumberRules

def java : NumberRules where
  marks := ['x', 'X', 'b', 'B']
  separator := '_'
  separates _ row := row.head? != some '_' && row.getLast? != some '_'
  zeroIsOctal := true
  emptyWhole := true
  emptyFraction := true
  hexFloats := true
  integerSuffixes := [['l'], ['L']]
  floatSuffixes := [['f'], ['F'], ['d'], ['D']]
  suffixMakesFloat := true
  limit? base suffix := some <|
    if base = 10 then if suffix = [] then 2 ^ 31 else 2 ^ 63
    else if suffix = [] then 2 ^ 32 - 1 else 2 ^ 64 - 1

def csharp : NumberRules where
  marks := ['x', 'X', 'b', 'B']
  separator := '_'
  separates marked row := (marked || row.head? != some '_') && row.getLast? != some '_'
  zeroIsOctal := false
  emptyWhole := true
  emptyFraction := false
  hexFloats := false
  integerSuffixes := [['u'], ['U'], ['l'], ['L'], ['u', 'l'], ['u', 'L'], ['U', 'l'], ['U', 'L'],
    ['l', 'u'], ['l', 'U'], ['L', 'u'], ['L', 'U']]
  floatSuffixes := [['f'], ['F'], ['d'], ['D'], ['m'], ['M']]
  suffixMakesFloat := true
  limit? _ _ := some (2 ^ 64 - 1)

def swift : NumberRules where
  marks := ['x', 'b', 'o']
  separator := '_'
  separates _ row := row.head? != some '_'
  zeroIsOctal := false
  emptyWhole := false
  emptyFraction := false
  hexFloats := true
  integerSuffixes := []
  floatSuffixes := []
  suffixMakesFloat := false
  limit? _ _ := none

/-- Separators of C++ stand alone between digits. -/
def cpp : NumberRules where
  marks := ['x', 'X', 'b', 'B']
  separator := '\''
  separates _ row := row.head? != some '\'' && row.getLast? != some '\'' &&
    decide (row.IsChain fun c d => c = '\'' → d ≠ '\'')
  zeroIsOctal := true
  emptyWhole := true
  emptyFraction := true
  hexFloats := true
  integerSuffixes := [['u'], ['U'], ['l'], ['L'], ['l', 'l'], ['L', 'L'], ['u', 'l'], ['u', 'L'],
    ['U', 'l'], ['U', 'L'], ['l', 'u'], ['l', 'U'], ['L', 'u'], ['L', 'U'], ['u', 'l', 'l'],
    ['u', 'L', 'L'], ['U', 'l', 'l'], ['U', 'L', 'L'], ['l', 'l', 'u'], ['l', 'l', 'U'],
    ['L', 'L', 'u'], ['L', 'L', 'U']]
  floatSuffixes := [['f'], ['F'], ['l'], ['L']]
  suffixMakesFloat := false
  limit? _ _ := none

variable {r : NumberRules} {n : Numeral}

def isInteger (r : NumberRules) (n : Numeral) : Bool :=
  n.fraction.isNone && n.exponent.isNone &&
    !(r.suffixMakesFloat && n.mark.isEmpty && r.floatSuffixes.contains n.suffix)

def base (r : NumberRules) (n : Numeral) : Nat :=
  if n.isHex then 16
  else if n.mark = ['0', 'b'] ∨ n.mark = ['0', 'B'] then 2
  else if n.mark = ['0', 'o'] ∨ n.mark = ['0', 'O'] then 8
  else if r.zeroIsOctal && r.isInteger n && n.isOctal then 8
  else 10

/-- The number that a numeral denotes. -/
def value (r : NumberRules) (n : Numeral) : ℚ :=
  pointValue (r.base n) n.whole (n.fraction.getD []) *
    (if n.isHex then 2 else 10) ^ n.exponentValue

/-- Digits of a base, with separators where they may be. -/
structure IsRow (r : NumberRules) (base : Nat) (marked : Bool) (row : List Char) : Prop where
  ne_nil : row ≠ []
  separates : r.separates marked row = true
  digits : ∀ c ∈ row, c = r.separator ∨ (hexValue? c).any (· < base) = true

instance (r : NumberRules) (base : Nat) (marked : Bool) (row : List Char) :
    Decidable (r.IsRow base marked row) :=
  decidable_of_iff (row ≠ [] ∧ r.separates marked row = true ∧
      ∀ c ∈ row, c = r.separator ∨ (hexValue? c).any (· < base) = true)
    ⟨fun ⟨h, h', h''⟩ => ⟨h, h', h''⟩, fun ⟨h, h', h''⟩ => ⟨h, h', h''⟩⟩

/-- The language has the numeral. -/
structure Accepts (r : NumberRules) (n : Numeral) : Prop where
  mark : n.mark = [] ∨ ∃ c ∈ r.marks, n.mark = ['0', c]
  whole : r.IsRow (r.base n) (!n.mark.isEmpty) n.whole ∨
    n.whole = [] ∧ r.emptyWhole = true ∧ n.fraction.any (!·.isEmpty) = true
  fraction : ∀ row ∈ n.fraction,
    r.IsRow (r.base n) false row ∨ row = [] ∧ r.emptyFraction = true
  exponent : ∀ e ∈ n.exponent, isExponent n.isHex e.letter = true ∧
    e.sign ∈ [[], ['+'], ['-']] ∧ r.IsRow 10 false e.digits
  marked : r.isInteger n = true ∨ n.mark = [] ∨
    r.hexFloats = true ∧ n.isHex = true ∧ n.exponent.isSome = true
  suffix : n.suffix = [] ∨
    n.suffix ∈ if r.isInteger n then r.integerSuffixes else r.floatSuffixes
  limit : r.isInteger n = true →
    ∀ limit ∈ r.limit? (r.base n) n.suffix, rowValue (r.base n) n.whole ≤ limit

instance (r : NumberRules) (n : Numeral) : Decidable (r.Accepts n) :=
  decidable_of_iff (_ ∧ _ ∧ _ ∧ _ ∧ _ ∧ _ ∧ _)
    ⟨fun ⟨h₁, h₂, h₃, h₄, h₅, h₆, h₇⟩ => ⟨h₁, h₂, h₃, h₄, h₅, h₆, h₇⟩,
      fun ⟨h₁, h₂, h₃, h₄, h₅, h₆, h₇⟩ => ⟨h₁, h₂, h₃, h₄, h₅, h₆, h₇⟩⟩

/-- Whether a literal is an integer, and the number that it denotes, if the language has it. -/
def denotes? (r : NumberRules) (token : List Char) : Option (Bool × ℚ) :=
  if r.Accepts (Numeral.read token) then
    some (r.isInteger (Numeral.read token), r.value (Numeral.read token))
  else none

/-! ## Reading numerals that a language has -/

theorem isDigit_of_hexValue? {c : Char} {base : Nat} (hbase : base ≤ 10)
    (h : (hexValue? c).any (· < base) = true) : c.isDigit = true := by
  obtain ⟨d, hd, hlt⟩ := (Option.any_eq_true ..).1 h
  have hten : d < 10 := Nat.lt_of_lt_of_le (of_decide_eq_true hlt) hbase
  unfold hexValue? at hd
  split at hd
  · next hc => exact Char.isDigit_iff_toNat.2 hc
  · split at hd
    · cases hd
      omega
    · split at hd
      · cases hd
        omega
      · cases hd

theorem base_le (r : NumberRules) (n : Numeral) : r.base n ≤ if n.isHex then 16 else 10 := by
  unfold base
  split_ifs <;> omega

theorem base_pos (r : NumberRules) (n : Numeral) : 0 < r.base n := by
  unfold base
  split_ifs <;> decide

/-- The characters of a row are digits and separators, however they are read. -/
theorem IsRow.isRowChar {hex marked : Bool} {base : Nat} {row : List Char}
    (h : r.IsRow base marked row) (hbase : base ≤ if hex then 16 else 10) :
    ∀ c ∈ row, isRowChar hex c = true := by
  intro c hc
  rcases h.digits c hc with rfl | hdigit
  · rcases r.separator_eq with hsep | hsep <;> rw [hsep] <;> cases hex <;> rfl
  · have hchar : (if hex then (hexValue? c).isSome else c.isDigit) = true := by
      cases hex with
      | true => exact Option.isSome_of_any hdigit
      | false => exact isDigit_of_hexValue? hbase hdigit
    rw [Target.isRowChar, hchar]
    rfl

/-- An integer is a row of digits with a mark and a suffix. -/
theorem isInteger_parts (h : r.isInteger n = true) :
    n.fraction = none ∧ n.exponent = none ∧ n.body = n.whole := by
  simp only [isInteger, Bool.and_eq_true, Option.isNone_iff_eq_none] at h
  obtain ⟨⟨hfraction, hexponent⟩, -⟩ := h
  exact ⟨hfraction, hexponent, Numeral.body_eq hfraction hexponent⟩

theorem isHex_eq_false (h : n.mark = []) : n.isHex = false := by
  rw [Numeral.isHex, h]
  rfl

/-- The base without a mark. -/
theorem base_eq (h : n.mark = []) :
    r.base n = if r.zeroIsOctal && r.isInteger n && n.isOctal then 8 else 10 := by
  rw [base, isHex_eq_false h, h]
  rfl

/-- The base of a mark that Java has, too. -/
theorem base_marked (h : ∃ c ∈ ['x', 'X', 'b', 'B'], n.mark = ['0', c]) :
    r.base n = if n.isHex then 16 else 2 := by
  obtain ⟨c, hc, hmark⟩ := h
  rw [base, Numeral.isHex, hmark]
  simp only [List.mem_cons, List.not_mem_nil, or_false] at hc
  rcases hc with rfl | rfl | rfl | rfl <;> rfl

/-- A floating point number with a mark has an exponent. -/
theorem Accepts.of_isFloat (h : r.Accepts n) (hfloat : r.isInteger n = false) :
    n.mark = [] ∨ n.exponent.isSome = true := by
  rcases h.marked with hinteger | hmark | ⟨-, -, hsome⟩
  · rw [hfloat] at hinteger
    cases hinteger
  · exact .inl hmark
  · exact .inr hsome

/-- Behind an exponent, what is no digit is read as a suffix. -/
theorem suffix_of_exponent (he : n.exponent.isSome = true) {c : Char}
    (hrow : Target.isRowChar false c = false) :
    Target.isRowChar (n.isHex && n.exponent.isNone) c = false ∧
      (n.exponent = none → isExponent n.isHex c = false ∧ c ∉ '.' :: markChars) := by
  rw [Option.isNone_eq_false_iff.2 he, Bool.and_false]
  refine ⟨hrow, fun hnone => ?_⟩
  rw [hnone] at he
  cases he

/-- Behind a floating point number, what is no part of a number without a mark is read as a
suffix. -/
theorem Accepts.suffix_of_isFloat (h : r.Accepts n) (hfloat : r.isInteger n = false) {c : Char}
    (hrow : Target.isRowChar false c = false)
    (hplain : isExponent false c = false ∧ c ∉ '.' :: markChars) :
    Target.isRowChar (n.isHex && n.exponent.isNone) c = false ∧
      (n.exponent = none → isExponent n.isHex c = false ∧ c ∉ '.' :: markChars) := by
  rcases h.of_isFloat hfloat with hmark | hsome
  · rw [isHex_eq_false hmark]
    exact ⟨hrow, fun _ => hplain⟩
  · exact suffix_of_exponent hsome hrow

/-- A language has no numeral that is not read as it is spelled. -/
theorem Accepts.isReadable (h : r.Accepts n) : n.IsReadable where
  mark := h.mark.imp_right fun ⟨c, hc, hmark⟩ => ⟨c, r.mem_markChars c hc, hmark⟩
  whole := by
    rcases h.whole with hrow | ⟨hempty, -⟩
    · exact hrow.isRowChar (r.base_le n)
    · rw [hempty]
      exact nofun
  fraction row hrow := by
    rcases h.fraction row hrow with hrow | ⟨rfl, -⟩
    · exact hrow.isRowChar (r.base_le n)
    · exact nofun
  exponent e he := by
    obtain ⟨hletter, hsign, hrow⟩ := h.exponent e he
    refine ⟨hletter, fun c hc => ?_, hrow.ne_nil, hrow.isRowChar (Nat.le_refl _)⟩
    have hall : ∀ s ∈ [[], ['+'], ['-']], ∀ c ∈ s, isSign c = true := by decide
    exact hall _ hsign c hc
  suffix c hc := by
    have hsuffix : n.suffix ∈ if r.isInteger n then r.integerSuffixes else r.floatSuffixes := by
      refine h.suffix.resolve_left fun hnil => ?_
      rw [hnil] at hc
      cases hc
    cases hinteger : r.isInteger n with
    | true =>
      rw [hinteger, if_pos rfl] at hsuffix
      have hall : ∀ c ∈ ['l', 'L', 'u', 'U'], ∀ hex : Bool, Target.isRowChar hex c = false ∧
          isExponent hex c = false ∧ c ∉ '.' :: markChars := by decide
      have hc := hall c (r.head?_integerSuffix _ hsuffix c hc)
      exact ⟨(hc _).1, fun _ => (hc _).2⟩
    | false =>
      rw [hinteger, if_neg Bool.false_ne_true] at hsuffix
      have hall : ∀ c ∈ ['f', 'F', 'd', 'D', 'm', 'M', 'l', 'L'], Target.isRowChar false c = false ∧
          isExponent false c = false ∧ c ∉ '.' :: markChars := by decide
      obtain ⟨hrow, hplain⟩ := hall c (r.head?_floatSuffix _ hsuffix c hc)
      exact h.suffix_of_isFloat hinteger hrow hplain

/-- A numeral that the language has is one of its literals. -/
theorem denotes?_spelling (h : r.Accepts n) :
    r.denotes? n.spelling = some (r.isInteger n, r.value n) := by
  rw [denotes?, Numeral.read_spelling h.isReadable, if_pos h]

theorem denotes?_eq_some {token : List Char} {d : Bool × ℚ} (h : r.denotes? token = some d) :
    ∃ n, r.Accepts n ∧ n.spelling = token ∧ (r.isInteger n, r.value n) = d := by
  unfold denotes? at h
  split at h
  · next haccepts => exact ⟨_, haccepts, Numeral.spelling_read token, Option.some.inj h⟩
  · cases h

end NumberRules

end Lockstep.Target
