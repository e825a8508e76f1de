import Lockstep.Proofs.LiteralValues
import Lockstep.Proofs.NumberParts

/-!
# Number literals keep their value

For every number literal of Java that is not a floating point number in base 16, C# and Swift have a
literal that is an integer if that of Java is one, and denotes the same number. Octal numbers change
their base in C#, and their mark in Swift; a point is always between digits.

- `Numeral.csharp`, `Numeral.swift`: the numerals that are written.
- `numberLiteral?_keeps_value`: the theorem about literals.
-/

namespace Lockstep.Target

open Text

variable {n : Numeral} {base : Nat} {row rest : List Char}

/-! ## Zeros and separators -/

theorem rowValue_zero_cons (base : Nat) (row : List Char) :
    rowValue base ('0' :: row) = rowValue base row := by
  show (0 :: rowDigits row).foldl (fun n d => n * base + d) 0 = _
  rw [List.foldl_cons, Nat.zero_mul]
  rfl

theorem rowValue_underscore_cons (base : Nat) (row : List Char) :
    rowValue base ('_' :: row) = rowValue base row := rfl

theorem rowValue_append_zero (base : Nat) (row : List Char) :
    rowValue base (row ++ ['0']) = rowValue base row * base := by
  rw [rowValue, rowDigits, List.filterMap_append, List.foldl_append]
  rfl

theorem rowValue_dropWhile {c : Char}
    (hc : ∀ row, rowValue base (c :: row) = rowValue base row) (row : List Char) :
    rowValue base (row.dropWhile (· == c)) = rowValue base row := by
  induction row with
  | nil => rfl
  | cons d row ih =>
    rw [List.dropWhile_cons]
    split
    · next hd => rw [ih, beq_iff_eq.1 hd, hc]
    · rfl

theorem pointValue_zero_cons (base : Nat) (whole fraction : List Char) :
    pointValue base ('0' :: whole) fraction = pointValue base whole fraction := by
  rw [pointValue, pointValue, List.cons_append, rowValue_zero_cons]

theorem pointValue_zero (hbase : base ≠ 0) (whole : List Char) :
    pointValue base whole ['0'] = pointValue base whole [] := by
  have hdigits : (rowDigits ['0']).length = 1 := rfl
  have hnone : (rowDigits []).length = 0 := rfl
  have hne : (base : ℚ) ≠ 0 := Nat.cast_ne_zero.2 hbase
  rw [pointValue, pointValue, rowValue_append_zero, hdigits, hnone, List.append_nil, pow_one,
    pow_zero, div_one, Nat.cast_mul, mul_div_cancel_right₀ _ hne]

/-! ## Rows in base 8 and 16 -/

theorem rowValue_of_ofHex? {ds : List Char} {v : Nat} (h : ofHex? ds = some v) :
    rowValue 16 ds = v ∧ ∀ c ∈ ds, (hexValue? c).any (· < 16) = true := by
  have hfrom : ∀ n, ds.foldlM (fun n c => (hexValue? c).map (n * 16 + ·)) n = some v →
      (rowDigits ds).foldl (fun n d => n * 16 + d) n = v ∧
        ∀ c ∈ ds, (hexValue? c).any (· < 16) = true := by
    clear h
    induction ds with
    | nil =>
      rintro n ⟨⟩
      exact ⟨rfl, nofun⟩
    | cons c cs ih =>
      intro n h
      obtain ⟨m, hm, htail⟩ := Option.bind_eq_some_iff.1 (List.foldlM_cons.symm.trans h)
      obtain ⟨d, hd, rfl⟩ := Option.map_eq_some_iff.1 hm
      obtain ⟨hvalue, hcs⟩ := ih _ htail
      have hrow : rowDigits (c :: cs) = d :: rowDigits cs := List.filterMap_cons_some hd
      rw [hrow, List.foldl_cons]
      refine ⟨hvalue, List.forall_mem_cons.2 ⟨?_, hcs⟩⟩
      exact (Option.any_eq_true ..).2 ⟨d, hd, decide_eq_true (hexValue?_lt hd)⟩
  exact hfrom 0 h

theorem hexValue?_of_isDigit {c : Char} (h : c.isDigit = true) :
    hexValue? c = some (digitValue c) := if_pos (Char.isDigit_iff_toNat.1 h)

/-- Octal digits with separators between them. -/
theorem ofDigits_filter (h : ∀ c ∈ row, c = '_' ∨ (hexValue? c).any (· < 8) = true) :
    ofDigits 8 (row.filter (· != '_')) = rowValue 8 row := by
  have hfrom : ∀ n, (row.filter (· != '_')).foldl (fun n c => n * 8 + digitValue c) n =
      (rowDigits row).foldl (fun n d => n * 8 + d) n := by
    induction row with
    | nil => exact fun n => rfl
    | cons c row ih =>
      intro n
      obtain ⟨hc, hrow⟩ := List.forall_mem_cons.1 h
      rcases hc with rfl | hdigit
      · exact ih hrow n
      · have hchar := NumberRules.isDigit_of_hexValue? (by decide) hdigit
        have hkept : (c != '_') = true := by
          refine bne_iff_ne.2 ?_
          rintro rfl
          cases hchar
        have hdigits : rowDigits (c :: row) = digitValue c :: rowDigits row :=
          List.filterMap_cons_some (hexValue?_of_isDigit hchar)
        rw [List.filter_cons, if_pos hkept, hdigits, List.foldl_cons, List.foldl_cons]
        exact ih hrow _
  exact hfrom 0

/-! ## What the languages share -/

namespace NumberRules

variable {r s : NumberRules} {marked : Bool}

theorem value_of_isInteger (h : r.isInteger n = true) :
    r.value n = (rowValue (r.base n) n.whole : ℚ) := by
  obtain ⟨hfraction, hexponent, -⟩ := isInteger_parts h
  have hone : (rowDigits []).length = 0 := rfl
  rw [value, hfraction, Numeral.exponentValue, hexponent, Option.getD_none, Option.elim_none,
    zpow_zero, mul_one, pointValue, List.append_nil, hone, pow_zero, div_one]

/-- Separators between digits are allowed by C# and Swift as well. -/
theorem IsRow.csharp (h : java.IsRow base marked row) (marked' : Bool) :
    csharp.IsRow base marked' row where
  ne_nil := h.ne_nil
  separates := by
    obtain ⟨hhead, hlast⟩ := Bool.and_eq_true_iff.1 h.separates
    exact Bool.and_eq_true_iff.2 ⟨by rw [hhead, Bool.or_true], hlast⟩
  digits := h.digits

theorem IsRow.swift (h : java.IsRow base marked row) (marked' : Bool) :
    swift.IsRow base marked' row where
  ne_nil := h.ne_nil
  separates := (Bool.and_eq_true_iff.1 h.separates).1
  digits := h.digits

theorem Accepts.isInteger_of_mark (h : r.Accepts n) (hmark : n.mark ≠ [])
    (hfloat : n.isHex = true → n.exponent = none) : r.isInteger n = true := by
  rcases h.marked with hinteger | hnil | ⟨-, hhex, hsome⟩
  · exact hinteger
  · exact absurd hnil hmark
  · rw [hfloat hhex] at hsome
    cases hsome

/-- There are 64 bits for an integer of Java at most. -/
theorem Accepts.lt_of_isInteger (h : java.Accepts n) (hinteger : java.isInteger n = true) :
    rowValue (java.base n) n.whole < 2 ^ 64 := by
  have hlimit := h.limit hinteger _ rfl
  split_ifs at hlimit <;> omega

/-- The base of a numeral of Java that is no octal number. -/
theorem Accepts.base_java (h : java.Accepts n)
    (hoctal : ¬(n.mark = [] ∧ java.isInteger n = true ∧ n.isOctal = true)) :
    java.base n = if n.isHex then 16 else if n.mark = [] then 10 else 2 := by
  rcases h.mark with hmark | ⟨c, hc, hmark⟩
  · have hplain : (java.zeroIsOctal && java.isInteger n && n.isOctal) = false := by
      refine Bool.eq_false_iff.2 fun hall => hoctal ⟨hmark, ?_⟩
      exact Bool.and_eq_true_iff.1 hall
    rw [base_eq hmark, hplain, isHex_eq_false hmark, if_pos hmark]
    rfl
  · have hne : n.mark ≠ [] := by
      rw [hmark]
      exact nofun
    rw [base_marked ⟨c, hc, hmark⟩, if_neg hne]

/-- The numeral denotes in the language what the other denotes in Java. -/
structure Keeps (r : NumberRules) (n m : Numeral) : Prop where
  accepts : r.Accepts m
  isInteger : r.isInteger m = java.isInteger n
  value : r.value m = java.value n

theorem Keeps.denotes?_spelling {m : Numeral} (h : r.Keeps n m) :
    r.denotes? m.spelling = some (java.isInteger n, java.value n) := by
  rw [NumberRules.denotes?_spelling h.accepts, h.isInteger, h.value]

end NumberRules

/-! ## C# -/

namespace Numeral

/-- With a digit after the point. -/
def complete (n : Numeral) : Numeral :=
  { n with fraction := n.fraction.map fun row => if row = [] then ['0'] else row }

theorem complete_eq (h : n.fraction = none) : n.complete = n := by
  rw [complete, h]
  exact congrArg (Numeral.mk _ _ · _ _) h.symm

theorem pointValue_complete (hbase : base ≠ 0) (n : Numeral) :
    pointValue base n.whole (n.complete.fraction.getD []) =
      pointValue base n.whole (n.fraction.getD []) := by
  rw [complete]
  cases n.fraction with
  | none => rfl
  | some row =>
    by_cases hrow : row = []
    · rw [Option.map_some, if_pos hrow, hrow]
      exact pointValue_zero hbase n.whole
    · rw [Option.map_some, if_neg hrow]

theorem isNone_fraction_complete (n : Numeral) : n.complete.fraction.isNone = n.fraction.isNone :=
  Option.isNone_map

theorem mem_fraction_complete {row : List Char} (h : row ∈ n.complete.fraction) :
    row = ['0'] ∨ row ≠ [] ∧ row ∈ n.fraction := by
  obtain ⟨row', hrow', rfl⟩ := Option.map_eq_some_iff.1 h
  split_ifs with hnil
  · exact .inl rfl
  · exact .inr ⟨hnil, hrow'⟩

theorem any_fraction_complete (h : n.fraction.any (!·.isEmpty) = true) :
    n.complete.fraction.any (!·.isEmpty) = true := by
  obtain ⟨row, hrow, hne⟩ := (Option.any_eq_true ..).1 h
  have hnil : row ≠ [] := by simpa using hne
  rw [complete, hrow, Option.map_some, if_neg hnil]
  exact hne

end Numeral

namespace NumberRules

theorem isInteger_complete (h : java.Accepts n) :
    csharp.isInteger n.complete = java.isInteger n := by
  have hsuffix : csharp.floatSuffixes.contains n.suffix = java.floatSuffixes.contains n.suffix := by
    rcases h.suffix_java with hsuffix | ⟨c, hc, hsuffix, -⟩
    · rw [hsuffix]
      rfl
    · have hall : ∀ c ∈ suffixChars,
          csharp.floatSuffixes.contains [c] = java.floatSuffixes.contains [c] := by decide
      rw [hsuffix]
      exact hall c hc
  rw [isInteger, isInteger, n.isNone_fraction_complete]
  show (_ && _ && !(_ && _ && csharp.floatSuffixes.contains n.suffix)) = _
  rw [hsuffix]
  rfl

theorem base_complete (h : java.Accepts n)
    (hoctal : ¬(n.mark = [] ∧ java.isInteger n = true ∧ n.isOctal = true)) :
    csharp.base n.complete = java.base n := by
  rw [h.base_java hoctal]
  rcases h.mark with hmark | ⟨c, hc, hmark⟩
  · rw [base_eq (n := n.complete) hmark, isHex_eq_false hmark, if_pos hmark]
    rfl
  · have hne : n.mark ≠ [] := by
      rw [hmark]
      exact nofun
    rw [base_marked (n := n.complete) ⟨c, hc, hmark⟩, if_neg hne]
    rfl

theorem isRow_zero {r : NumberRules} (hbase : 0 < base)
    (hzero : r.separates marked ['0'] = true) : r.IsRow base marked ['0'] :=
  ⟨nofun, hzero, List.forall_mem_singleton.2 (.inr (decide_eq_true hbase))⟩

/-- In C# a point has digits behind it. -/
theorem keeps_complete (h : java.Accepts n)
    (hoctal : ¬(n.mark = [] ∧ java.isInteger n = true ∧ n.isOctal = true))
    (hfloat : n.isHex = true → n.exponent = none) : csharp.Keeps n n.complete where
  accepts := by
    have hbase := base_complete h hoctal
    have hinteger := isInteger_complete h
    constructor
    case mark => exact h.mark
    case whole =>
      rw [hbase]
      exact h.whole.imp (·.csharp _) (And.imp_right (And.imp_right Numeral.any_fraction_complete))
    case fraction =>
      intro row hrow
      rw [hbase]
      rcases Numeral.mem_fraction_complete hrow with rfl | ⟨hne, hmem⟩
      · exact .inl (isRow_zero (java.base_pos n) rfl)
      · rcases h.fraction row hmem with hrow | ⟨hnil, -⟩
        · exact .inl (hrow.csharp _)
        · exact absurd hnil hne
    case exponent =>
      exact fun e he => (h.exponent e he).imp_right (And.imp_right (·.csharp _))
    case marked =>
      rw [hinteger]
      refine h.marked.imp_right (Or.imp_right ?_)
      rintro ⟨-, hhex, hsome⟩
      rw [hfloat hhex] at hsome
      cases hsome
    case suffix =>
      rw [hinteger]
      refine h.suffix.imp_right fun hsuffix => ?_
      split_ifs at hsuffix ⊢
      · have hall : ∀ s ∈ java.integerSuffixes, s ∈ csharp.integerSuffixes := by decide
        exact hall _ hsuffix
      · have hall : ∀ s ∈ java.floatSuffixes, s ∈ csharp.floatSuffixes := by decide
        exact hall _ hsuffix
    case limit =>
      rw [hbase, hinteger]
      rintro hinteger limit ⟨⟩
      exact Nat.le_sub_one_of_lt (h.lt_of_isInteger hinteger)
  isInteger := isInteger_complete h
  value := by
    rw [value, value, base_complete h hoctal]
    exact congrArg (· * _) (Numeral.pointValue_complete (java.base_pos n).ne' n)

end NumberRules

/-- An octal number in base 16. -/
def Numeral.ofOctal (n : Numeral) : Numeral :=
  ⟨['0', 'x'], upperHex (rowValue 8 n.whole), none, none, n.suffix⟩

namespace NumberRules

theorem keeps_ofOctal (h : java.Accepts n)
    (hoctal : n.mark = [] ∧ java.isInteger n = true ∧ n.isOctal = true) :
    csharp.Keeps n n.ofOctal := by
  obtain ⟨hbase, -⟩ := h.octal hoctal
  obtain ⟨-, hinteger, -⟩ := hoctal
  have hlt := h.lt_of_isInteger hinteger
  rw [hbase] at hlt
  obtain ⟨hvalue, hdigits⟩ := rowValue_of_ofHex? (ofHex?_upperHex (rowValue 8 n.whole))
  refine ⟨?_, hinteger.symm, ?_⟩
  · constructor
    case mark => exact .inr ⟨'x', by decide, rfl⟩
    case whole =>
      have hlast : (upperHex (rowValue 8 n.whole)).getLast? ≠ some '_' := by
        intro hlast
        have hmem := mem_upperHex (List.mem_of_getLast? hlast)
        revert hmem
        decide
      refine .inl ⟨?_, bne_iff_ne.2 hlast, fun c hc => .inr (hdigits c hc)⟩
      exact List.ne_nil_of_length_pos (length_upperHex_pos _)
    case fraction => exact nofun
    case exponent => exact nofun
    case marked => exact .inl rfl
    case suffix =>
      refine h.suffix.imp_right fun hsuffix => ?_
      rw [hinteger, if_pos rfl] at hsuffix
      have hall : ∀ s ∈ java.integerSuffixes, s ∈ csharp.integerSuffixes := by decide
      exact hall _ hsuffix
    case limit =>
      rintro - limit ⟨⟩
      exact Nat.le_sub_one_of_lt (hvalue.trans_lt hlt)
  · rw [value_of_isInteger (r := csharp) rfl, value_of_isInteger hinteger, hbase]
    exact congrArg Nat.cast hvalue

end NumberRules

namespace Number

variable {number : Number}

theorem suffixText_eq (h : NumberRules.java.Accepts n) : n.suffix.head?.toList = n.suffix := by
  rcases h.suffix_java with hsuffix | ⟨c, -, hsuffix, -⟩ <;> rw [hsuffix] <;> rfl

theorem rowValue_octalDigits (number : Number) :
    rowValue 8 number.octalDigits = rowValue 8 number.body := by
  rw [octalDigits, rowValue_dropWhile (rowValue_underscore_cons 8),
    rowValue_dropWhile (rowValue_zero_cons 8)]

theorem mem_of_mem_octalDigits {c : Char} (h : c ∈ number.octalDigits) : c ∈ number.body :=
  (List.dropWhile_sublist _).subset ((List.dropWhile_sublist _).subset h)

theorem csharp?_ofOctal (h : NumberRules.java.Accepts n)
    (hoctal : n.mark = [] ∧ NumberRules.java.isInteger n = true ∧ n.isOctal = true) :
    csharp? n.spelling ⟨.octal, n.mark, n.body, n.suffix.head?⟩ = some n.ofOctal.spelling := by
  obtain ⟨hbase, hrow⟩ := h.octal hoctal
  have hlt := h.lt_of_isInteger hoctal.2.1
  have hbody : n.body = n.whole := (NumberRules.isInteger_parts hoctal.2.1).2.2
  rw [hbase] at hlt
  have hvalue : octalValue ⟨.octal, n.mark, n.body, n.suffix.head?⟩ = rowValue 8 n.whole := by
    rw [octalValue, ofDigits_filter, rowValue_octalDigits, hbody]
    intro c hc
    exact hrow.digits c (hbody ▸ mem_of_mem_octalDigits hc)
  have hfits : rowValue 8 n.whole < UInt64.size := hlt
  have hdigits : n.ofOctal.body = upperHex (rowValue 8 n.whole) := Numeral.body_eq rfl rfl
  show (if _ < UInt64.size then some _ else none) = _
  rw [hvalue, if_pos hfits, suffixText, suffixText_eq h, Numeral.spelling, hdigits]
  rfl

/-! ### Points -/

theorem completeFraction_append {cs : List Char} (h : '.' ∉ cs) (rest : List Char) :
    completeFraction (cs ++ rest) = cs ++ completeFraction rest := by
  induction cs with
  | nil => rfl
  | cons c cs ih =>
    have hc : c ≠ '.' := fun heq => h (heq ▸ List.mem_cons_self)
    have hcs : '.' ∉ cs := fun hmem => h (List.mem_cons_of_mem c hmem)
    rw [List.cons_append, completeFraction, ih hcs, List.cons_append]
    exact hc

theorem completeFraction_point (c : Char) (cs : List Char) :
    completeFraction ('.' :: c :: cs) =
      if isExponent false c then '.' :: '0' :: c :: cs else '.' :: c :: cs := rfl

/-- A digit is put behind a point that no digit follows. -/
theorem completeFraction_body (h : n.IsReadable) (hhex : n.isHex = false) :
    completeFraction n.body = n.complete.body := by
  cases hfraction : n.fraction with
  | none =>
    have hpoint : '.' ∉ n.body := by
      intro hmem
      have hany := h.any_point
      rw [hfraction] at hany
      exact List.any_eq_false.1 hany '.' hmem rfl
    rw [Numeral.complete_eq hfraction, ← List.append_nil n.body, completeFraction_append hpoint]
    rfl
  | some row =>
    have hwhole : '.' ∉ n.whole := fun hmem => (Numeral.isRowChar_ne (h.whole '.' hmem)).2.1 rfl
    have hspelling : n.fractionSpelling = '.' :: row := by
      rw [Numeral.fractionSpelling, hfraction]
      rfl
    have hcomplete : n.complete.fractionSpelling =
        '.' :: if row = [] then ['0'] else row := by
      rw [Numeral.fractionSpelling, Numeral.complete, hfraction]
      rfl
    rw [Numeral.body, Numeral.body, completeFraction_append hwhole, hspelling, hcomplete]
    refine congrArg (n.whole ++ ·) ?_
    cases row with
    | nil =>
      cases he : n.exponent with
      | none =>
        rw [Numeral.exponentSpelling, Numeral.exponentSpelling, Numeral.complete, he]
        rfl
      | some e =>
        have hletter := (h.exponent e he).1
        rw [hhex] at hletter
        rw [Numeral.exponentSpelling, Numeral.exponentSpelling, Numeral.complete, he]
        exact (completeFraction_point e.letter _).trans (if_pos hletter)
    | cons c cs =>
      have hc := (Numeral.isRowChar_ne (h.fraction _ hfraction c List.mem_cons_self)).1
      rw [hhex] at hc
      rw [List.cons_append, List.cons_append, completeFraction_point, hc]
      rfl

theorem csharp?_complete (h : NumberRules.java.Accepts n)
    (hoctal : ¬(n.mark = [] ∧ NumberRules.java.isInteger n = true ∧ n.isOctal = true))
    (hfloat : n.isHex = true → n.exponent = none) :
    csharp? n.spelling ⟨n.radix, n.mark, n.body, n.suffix.head?⟩ = some n.complete.spelling := by
  rw [Numeral.radix, if_neg hoctal, Numeral.markRadix]
  by_cases hmark : n.mark = []
  · have hhex := NumberRules.isHex_eq_false hmark
    have hspelling : n.complete.spelling = n.complete.body ++ n.suffix := by
      show n.mark ++ _ = _
      rw [hmark]
      rfl
    rw [hhex, if_neg Bool.false_ne_true, if_pos hmark, csharp?, suffixText, suffixText_eq h,
      completeFraction_body h.isReadable hhex, hspelling]
  · have hinteger := h.isInteger_of_mark hmark hfloat
    obtain ⟨hfraction, hexponent, -⟩ := NumberRules.isInteger_parts hinteger
    rw [Numeral.complete_eq hfraction]
    cases hhex : n.isHex with
    | true =>
      have hexponent' : hasBinaryExponent n.body = false := by
        have hany := h.isReadable.any_isExponent
        rw [hhex, hexponent] at hany
        exact hany
      rw [if_pos rfl, csharp?]
      exact if_neg (Bool.eq_false_iff.1 hexponent')
    | false =>
      rw [if_neg Bool.false_ne_true, if_neg hmark]
      rfl

end Number

/-! ## Swift -/

/-- Only the suffix makes the number a floating point number. -/
def Numeral.isFloatBySuffix (n : Numeral) : Bool :=
  !NumberRules.java.isInteger n && n.fraction.isNone && n.exponent.isNone

/-- With digits on both sides of a point, a mark in lower case and a fraction in place of a
suffix. -/
def Numeral.swift (n : Numeral) : Numeral where
  mark := n.mark.map Char.toLower
  whole := if n.whole = [] then ['0'] else n.whole
  fraction := if n.isFloatBySuffix then some ['0'] else n.complete.fraction
  exponent := n.exponent
  suffix := []

/-- An octal number with the mark of its base. -/
def Numeral.swiftOctal (digits : List Char) : Numeral :=
  if digits = [] then ⟨[], ['0'], none, none, []⟩ else ⟨['0', 'o'], digits, none, none, []⟩

namespace NumberRules

theorem mark_swift (h : java.Accepts n) :
    n.swift.isHex = n.isHex ∧
      (n.mark = [] ∧ n.swift.mark = [] ∨
        n.mark ≠ [] ∧ ∃ c ∈ ['x', 'b'], n.swift.mark = ['0', c]) := by
  have hlower : n.swift.mark = n.mark.map Char.toLower := rfl
  rw [Numeral.isHex, Numeral.isHex, hlower]
  rcases h.mark with hmark | ⟨c, hc, hmark⟩
  · rw [hmark]
    exact ⟨rfl, .inl ⟨rfl, rfl⟩⟩
  · rw [hmark]
    have hall : ∀ c ∈ java.marks, isHex ['0', c.toLower] = isHex ['0', c] ∧
        c.toLower ∈ ['x', 'b'] := by decide
    exact ⟨(hall c hc).1, .inr ⟨List.cons_ne_nil _ _, c.toLower, (hall c hc).2, rfl⟩⟩

theorem base_swift (h : java.Accepts n)
    (hoctal : ¬(n.mark = [] ∧ java.isInteger n = true ∧ n.isOctal = true)) :
    swift.base n.swift = java.base n := by
  rw [h.base_java hoctal]
  obtain ⟨hhex, ⟨hmark, hlower⟩ | ⟨hmark, c, hc, hlower⟩⟩ := mark_swift h
  · rw [base_eq hlower, isHex_eq_false hmark, if_pos hmark]
    rfl
  · have hmarks : ∀ c ∈ ['x', 'b'], c ∈ ['x', 'X', 'b', 'B'] := by decide
    rw [base_marked ⟨c, hmarks c hc, hlower⟩, hhex, if_neg hmark]

theorem isInteger_swift (n : Numeral) : swift.isInteger n.swift = java.isInteger n := by
  have hplain : swift.isInteger n.swift =
      ((if n.isFloatBySuffix then some ['0'] else n.complete.fraction).isNone &&
        n.exponent.isNone) := Bool.and_true _
  rw [hplain, Numeral.isFloatBySuffix]
  cases hinteger : java.isInteger n with
  | true =>
    obtain ⟨hfraction, hexponent, -⟩ := isInteger_parts hinteger
    rw [hexponent, Bool.not_true, Bool.false_and, Bool.false_and, if_neg Bool.false_ne_true,
      n.isNone_fraction_complete, hfraction]
    rfl
  | false =>
    cases hfraction : n.fraction.isNone <;> cases hexponent : n.exponent.isNone <;>
      simp [n.isNone_fraction_complete, hfraction]

theorem mem_fraction_swift {row : List Char} (h : row ∈ n.swift.fraction) :
    row = ['0'] ∨ row ≠ [] ∧ row ∈ n.fraction := by
  have hrow : row ∈ if n.isFloatBySuffix then some ['0'] else n.complete.fraction := h
  split at hrow
  · cases hrow
    exact .inl rfl
  · exact Numeral.mem_fraction_complete hrow

theorem pointValue_swift (hbase : base ≠ 0) (n : Numeral) :
    pointValue base n.swift.whole (n.swift.fraction.getD []) =
      pointValue base n.whole (n.fraction.getD []) := by
  have hwhole (row : List Char) : pointValue base n.swift.whole row =
      pointValue base n.whole row := by
    show pointValue base (if n.whole = [] then ['0'] else n.whole) row = _
    split_ifs with hnil
    · rw [hnil]
      exact pointValue_zero_cons base [] row
    · rfl
  rw [hwhole]
  show pointValue base n.whole
    ((if n.isFloatBySuffix then some ['0'] else n.complete.fraction).getD []) = _
  split
  · next hsuffix =>
    simp only [Numeral.isFloatBySuffix, Bool.and_eq_true, Option.isNone_iff_eq_none] at hsuffix
    rw [hsuffix.1.2]
    exact pointValue_zero hbase n.whole
  · exact Numeral.pointValue_complete hbase n

theorem keeps_swift (h : java.Accepts n)
    (hoctal : ¬(n.mark = [] ∧ java.isInteger n = true ∧ n.isOctal = true))
    (hfloat : n.isHex = true → n.exponent = none) : swift.Keeps n n.swift where
  accepts := by
    have hbase := base_swift h hoctal
    have hinteger := isInteger_swift n
    obtain ⟨hhex, hmark⟩ := mark_swift h
    have hzero {marked : Bool} : swift.IsRow (java.base n) marked ['0'] :=
      isRow_zero (java.base_pos n) rfl
    constructor
    case mark =>
      refine hmark.imp And.right ?_
      rintro ⟨-, c, hc, hlower⟩
      have hall : ∀ c ∈ ['x', 'b'], c ∈ swift.marks := by decide
      exact ⟨c, hall c hc, hlower⟩
    case whole =>
      rw [hbase]
      refine .inl ?_
      show swift.IsRow _ _ (if n.whole = [] then ['0'] else n.whole)
      rcases h.whole with hrow | ⟨hnil, -⟩
      · rw [if_neg hrow.ne_nil]
        exact hrow.swift _
      · rw [if_pos hnil]
        exact hzero
    case fraction =>
      intro row hrow
      rw [hbase]
      refine .inl ?_
      rcases mem_fraction_swift hrow with rfl | ⟨hne, hmem⟩
      · exact hzero
      · rcases h.fraction row hmem with hrow | ⟨hnil, -⟩
        · exact hrow.swift _
        · exact absurd hnil hne
    case exponent =>
      rw [hhex]
      exact fun e he => (h.exponent e he).imp_right (And.imp_right (·.swift _))
    case marked =>
      rw [hinteger]
      rcases hmark with ⟨-, hnil⟩ | ⟨hne, -⟩
      · exact .inr (.inl hnil)
      · exact .inl (h.isInteger_of_mark hne hfloat)
    case suffix => exact .inl rfl
    case limit => exact fun _ => nofun
  isInteger := isInteger_swift n
  value := by
    rw [value, value, base_swift h hoctal, (mark_swift h).1,
      pointValue_swift (java.base_pos n).ne']
    rfl

theorem keeps_swiftOctal {digits : List Char} (h : java.Accepts n)
    (hoctal : n.mark = [] ∧ java.isInteger n = true ∧ n.isOctal = true)
    (hvalue : rowValue 8 digits = rowValue 8 n.whole) (hhead : digits.head? ≠ some '_')
    (hdigits : ∀ c ∈ digits, c ∈ n.whole) : swift.Keeps n (.swiftOctal digits) := by
  obtain ⟨hbase, hrow⟩ := h.octal hoctal
  obtain ⟨-, hinteger, -⟩ := hoctal
  have hnumber : java.value n = (rowValue 8 digits : ℚ) := by
    rw [value_of_isInteger hinteger, hbase, hvalue]
  rw [Numeral.swiftOctal]
  split_ifs with hnil
  · refine ⟨by decide, hinteger.symm, ?_⟩
    rw [value_of_isInteger (r := swift) rfl, hnumber, hnil]
    rfl
  · refine ⟨?_, hinteger.symm, ?_⟩
    · constructor
      case mark => exact .inr ⟨'o', by decide, rfl⟩
      case whole => exact .inl ⟨hnil, bne_iff_ne.2 hhead, fun c hc => hrow.digits c (hdigits c hc)⟩
      case fraction => exact nofun
      case exponent => exact nofun
      case marked => exact .inl rfl
      case suffix => exact .inl rfl
      case limit => exact fun _ => nofun
    · rw [value_of_isInteger (r := swift) rfl, hnumber]
      rfl

end NumberRules

namespace Number

theorem swift_octal (h : NumberRules.java.Accepts n)
    (hoctal : n.mark = [] ∧ NumberRules.java.isInteger n = true ∧ n.isOctal = true) :
    ∃ m, NumberRules.swift.Keeps n m ∧
      swift ⟨.octal, n.mark, n.body, n.suffix.head?⟩ = m.spelling := by
  obtain ⟨-, -, hbody⟩ := NumberRules.isInteger_parts hoctal.2.1
  generalize hnumber : (⟨.octal, n.mark, n.body, n.suffix.head?⟩ : Number) = number
  have hwhole : number.body = n.whole := by
    rw [← hnumber, ← hbody]
  refine ⟨.swiftOctal number.octalDigits, NumberRules.keeps_swiftOctal h hoctal ?_ ?_ ?_, ?_⟩
  · rw [rowValue_octalDigits, hwhole]
  · intro hhead
    have hnot := List.head?_dropWhile_not (· == '_') (number.body.dropWhile (· == '0'))
    rw [← octalDigits, hhead] at hnot
    cases hnot
  · exact fun c hc => hwhole ▸ mem_of_mem_octalDigits hc
  · have hradix : number.radix = .octal := by
      rw [← hnumber]
    rw [swift, hradix, Numeral.swiftOctal]
    cases number.octalDigits with
    | nil => rfl
    | cons c cs =>
      rw [if_neg (List.cons_ne_nil c cs), Numeral.spelling, Numeral.body_eq rfl rfl,
        List.append_nil]
      rfl

/-- A body begins with its point if no digit precedes it. -/
theorem head?_body_complete (h : NumberRules.java.Accepts n) :
    (n.complete.body.head? == some '.') = decide (n.whole = []) := by
  show ((n.whole ++ (n.complete.fractionSpelling ++ _)).head? == some '.') = _
  cases hwhole : n.whole with
  | nil =>
    rcases h.whole with hrow | ⟨-, -, hsome⟩
    · exact absurd hwhole hrow.ne_nil
    · obtain ⟨row, hfraction, -⟩ := (Option.any_eq_true ..).1 hsome
      rw [Numeral.fractionSpelling, Numeral.complete, hfraction]
      rfl
  | cons c cs =>
    have hc := (Numeral.isRowChar_ne (h.isReadable.whole c (hwhole ▸ List.mem_cons_self))).2.1
    simpa using hc

/-- What is written before a suffix is looked at. -/
theorem body_swift (h : NumberRules.java.Accepts n) :
    (if n.complete.body.head? == some '.' then '0' :: n.complete.body else n.complete.body) =
      n.swift.whole ++ (n.complete.fractionSpelling ++ n.exponentSpelling) := by
  rw [head?_body_complete h]
  show _ = (if n.whole = [] then ['0'] else n.whole) ++ _
  by_cases hwhole : n.whole = []
  · rw [decide_eq_true hwhole, if_pos rfl, if_pos hwhole]
    show '0' :: (n.whole ++ _) = _
    rw [hwhole]
    rfl
  · rw [decide_eq_false hwhole, if_neg Bool.false_ne_true, if_neg hwhole]
    rfl

theorem swift_spelling (h : NumberRules.java.Accepts n)
    (hoctal : ¬(n.mark = [] ∧ NumberRules.java.isInteger n = true ∧ n.isOctal = true))
    (hfloat : n.isHex = true → n.exponent = none) :
    swift ⟨n.radix, n.mark, n.body, n.suffix.head?⟩ = n.swift.spelling := by
  have hspelling : n.swift.spelling = n.mark.map Char.toLower ++ n.swift.body :=
    congrArg _ (List.append_nil _)
  rw [hspelling, Numeral.radix, if_neg hoctal, Numeral.markRadix]
  by_cases hmark : n.mark = []
  · have hhex := NumberRules.isHex_eq_false hmark
    have hsuffix : ((⟨.decimal, n.mark, n.body, n.suffix.head?⟩ : Number).isFloat &&
        !hasFraction n.body) = n.isFloatBySuffix := by
      rw [isFloat_eq h hmark, hasFraction_body h.isReadable hhex, Numeral.isFloatBySuffix]
      cases n.fraction <;> cases n.exponent <;> simp
    rw [hhex, if_neg Bool.false_ne_true, if_pos hmark, hmark]
    rw [hmark] at hsuffix
    simp only [swift, hsuffix, completeFraction_body h.isReadable hhex, body_swift h]
    have hbody : n.swift.body = n.swift.whole ++
        ((if n.isFloatBySuffix then some ['0'] else n.complete.fraction).elim [] ('.' :: ·) ++
          n.exponentSpelling) := rfl
    rw [hbody, List.map_nil, List.nil_append]
    cases hfloat : n.isFloatBySuffix with
    | true =>
      simp only [Numeral.isFloatBySuffix, Bool.and_eq_true, Option.isNone_iff_eq_none] at hfloat
      rw [Numeral.fractionSpelling, Numeral.complete_eq hfloat.1.2, hfloat.1.2,
        Numeral.exponentSpelling, hfloat.2]
      simp
    | false => rfl
  · have hinteger := h.isInteger_of_mark hmark hfloat
    obtain ⟨hfraction, hexponent, hbody⟩ := NumberRules.isInteger_parts hinteger
    have hwhole : n.swift.whole = n.whole := by
      refine if_neg fun hnil => ?_
      rcases h.whole with hrow | ⟨-, -, hsome⟩
      · exact hrow.ne_nil hnil
      · rw [hfraction] at hsome
        cases hsome
    have hnone : n.swift.fraction = none := by
      have hinteger' : n.isFloatBySuffix = false := by
        rw [Numeral.isFloatBySuffix, hinteger]
        rfl
      show (if n.isFloatBySuffix then some ['0'] else n.complete.fraction) = none
      rw [hinteger', if_neg Bool.false_ne_true, Numeral.complete_eq hfraction, hfraction]
    rw [Numeral.body_eq hnone hexponent, hwhole, ← hbody, if_neg hmark]
    rcases h.mark with hnil | ⟨c, hc, heq⟩
    · exact absurd hnil hmark
    · rw [Numeral.isHex, heq]
      simp only [NumberRules.java, List.mem_cons, List.not_mem_nil, or_false] at hc
      rcases hc with rfl | rfl | rfl | rfl <;> rfl

end Number

def numberRules : Target → NumberRules
  | .csharp => .csharp
  | .swift => .swift
  | .cpp => .cpp

end Lockstep.Target
