import Lockstep.Proofs.NumberValues

/-!
# Number literals of C++

What is written for a number literal of Java denotes the same number in C++, with two exceptions
where it is no literal. Several underscores in a row become as many apostrophes, and C++ has one
only. And where a floating point number in base 16 has a suffix, but neither a point nor a digit
`e`, a fraction is put behind its exponent.

- `Numeral.cpp`: the numeral that is written.
- `NumberRules.accepts_cpp_iff`: when C++ has the numeral.
- `numberLiteral?_cpp`: the theorem about literals.
-/

namespace Lockstep.Target

open Text

variable {n : Numeral} {base : Nat} {row : List Char}

/-! ## Separators -/

/-- How characters of a number are written in C++. -/
def cppChar (c : Char) : Char := if c == '_' then '\'' else c

/-- Underscores stand alone. -/
def Single (cs : List Char) : Prop := cs.IsChain fun c d => c = '_' → d ≠ '_'

instance (cs : List Char) : Decidable (Single cs) :=
  inferInstanceAs (Decidable (cs.IsChain fun c d => c = '_' → d ≠ '_'))

theorem cppChar_of_ne {c : Char} (h : c ≠ '_') : cppChar c = c := if_neg (by simpa using h)

theorem map_cppChar {cs : List Char} (h : ∀ c ∈ cs, c ≠ '_') : cs.map cppChar = cs :=
  (List.map_congr_left fun c hc => cppChar_of_ne (h c hc)).trans (List.map_id cs)

theorem rowDigits_map (row : List Char) : rowDigits (row.map cppChar) = rowDigits row := by
  rw [rowDigits, List.filterMap_map]
  refine List.filterMap_congr fun c _ => ?_
  by_cases hc : c = '_'
  · rw [hc]
    rfl
  · exact congrArg hexValue? (cppChar_of_ne hc)

theorem isRowChar_cppChar {hex : Bool} {c : Char} (h : isRowChar hex c = true) :
    isRowChar hex (cppChar c) = true := by
  by_cases hc : c = '_'
  · rw [hc]
    cases hex <;> rfl
  · rwa [cppChar_of_ne hc]

theorem single_of_forall_ne {cs : List Char} (h : ∀ c ∈ cs, c ≠ '_') : Single cs := by
  refine List.isChain_iff_forall_rel_of_append_cons_cons.2 ?_
  rintro c d before after rfl hc
  exact absurd hc (h c (by simp))

/-- Where one of two characters is no underscore, texts can be put together. -/
theorem single_append {cs ds : List Char}
    (h : (∀ c ∈ cs.getLast?, c ≠ '_') ∨ ∀ d ∈ ds.head?, d ≠ '_') :
    Single (cs ++ ds) ↔ Single cs ∧ Single ds := by
  rw [Single, List.isChain_append, ← and_assoc]
  refine and_iff_left fun c hc d hd heq => ?_
  rcases h with h | h
  · exact absurd heq (h c hc)
  · exact h d hd

namespace NumberRules

/-- The digits of Java are neither of the separators. -/
theorem IsRow.cppChar_eq {marked : Bool} (h : java.IsRow base marked row) {c : Char}
    (hc : c ∈ row) : cppChar c = '\'' ↔ c = '_' := by
  refine ⟨fun heq => ?_, fun heq => heq ▸ rfl⟩
  by_contra hne
  rw [cppChar_of_ne hne] at heq
  rw [heq] at hc
  rcases h.digits _ hc with hsep | hdigit
  · cases hsep
  · cases hdigit

/-- C++ has a row of digits of Java if its underscores stand alone. -/
theorem IsRow.cpp_iff {marked : Bool} (h : java.IsRow base marked row) (marked' : Bool) :
    cpp.IsRow base marked' (row.map cppChar) ↔ Single row := by
  have hchain : (row.map cppChar).IsChain (fun c d => c = '\'' → d ≠ '\'') ↔ Single row := by
    rw [List.isChain_map]
    refine List.IsChain.iff_of_mem_imp fun c d hc hd => ?_
    rw [h.cppChar_eq hc, Ne, h.cppChar_eq hd]
  have hquote {c? : Option Char} (hc : ∀ c ∈ c?, c ∈ row) (hne : (c? != some '_') = true) :
      (c?.map cppChar != some '\'') = true := by
    refine bne_iff_ne.2 fun heq => bne_iff_ne.1 hne ?_
    obtain ⟨c, hsome, heq⟩ := Option.map_eq_some_iff.1 heq
    rw [hsome, (h.cppChar_eq (hc c hsome)).1 heq]
  constructor
  · intro hcpp
    exact hchain.1 (of_decide_eq_true (Bool.and_eq_true_iff.1 hcpp.separates).2)
  · intro hsingle
    obtain ⟨hhead, hlast⟩ := Bool.and_eq_true_iff.1 h.separates
    refine ⟨fun hnil => h.ne_nil (List.map_eq_nil_iff.1 hnil), ?_, ?_⟩
    · refine Bool.and_eq_true_iff.2 ⟨Bool.and_eq_true_iff.2 ⟨?_, ?_⟩, ?_⟩
      · rw [List.head?_map]
        exact hquote (fun c => List.mem_of_mem_head?) hhead
      · rw [List.getLast?_map]
        exact hquote (fun c => List.mem_of_getLast?) hlast
      · exact decide_eq_true (hchain.2 hsingle)
    · refine List.forall_mem_map.2 fun c hc => ?_
      by_cases hne : c = '_'
      · rw [hne]
        exact .inl rfl
      · rw [cppChar_of_ne hne]
        exact .inr ((h.digits c hc).resolve_left hne)

end NumberRules

/-! ## The numeral that is written -/

namespace Numeral

/-- A fraction is written behind the body: the suffix is one for floating point, and nothing in the
body looks like a fraction or an exponent in base 10. -/
def addsFraction (n : Numeral) : Bool :=
  !Number.hasFraction n.body && n.suffix.head?.any Number.isFloatSuffix

def cppSuffix (n : Numeral) : List Char :=
  (Number.cppParts [] (Number.hasFraction n.body) n.suffix.head?).2

def cppExponent (n : Numeral) : Option Exponent :=
  n.exponent.map fun e => { e with digits := e.digits.map cppChar }

/-- With apostrophes between digits and a suffix of C++. -/
def cpp (n : Numeral) : Numeral where
  mark := n.mark
  whole := n.whole.map cppChar
  fraction := if n.addsFraction then some ['0'] else n.fraction.map (·.map cppChar)
  exponent := n.cppExponent
  suffix := n.cppSuffix

/-- The same with a fraction behind the exponent, where it is part of the suffix. -/
def cppBehind (n : Numeral) : Numeral where
  mark := n.mark
  whole := n.whole.map cppChar
  fraction := none
  exponent := n.cppExponent
  suffix := '.' :: '0' :: n.cppSuffix

/-- All the underscores stand alone. -/
structure IsSingle (n : Numeral) : Prop where
  whole : Single n.whole
  fraction : ∀ row ∈ n.fraction, Single row
  exponent : ∀ e ∈ n.exponent, Single e.digits

theorem ne_of_isRowChar {hex : Bool} {c : Char} (h : isRowChar hex c = false) : c ≠ '_' := by
  rintro rfl
  cases hex <;> cases h

theorem ne_of_isExponent {hex : Bool} {c : Char} (h : isExponent hex c = true) : c ≠ '_' := by
  rintro rfl
  cases hex <;> cases h

theorem ne_of_isSign {c : Char} (h : isSign c = true) : c ≠ '_' := by
  rintro rfl
  cases h

/-- The underscores of a numeral are between its digits. -/
theorem single_spelling (h : n.IsReadable) (hsuffix : ∀ c ∈ n.suffix, c ≠ '_') :
    Single n.spelling ↔ n.IsSingle := by
  have hmark : ∀ c ∈ n.mark, c ≠ '_' := by
    rcases h.mark with hmark | ⟨c, hc, hmark⟩
    · rw [hmark]
      exact List.forall_mem_nil _
    · have hall : ∀ c ∈ markChars, ∀ d ∈ ['0', c], d ≠ '_' := by decide
      rw [hmark]
      exact hall c hc
  have hfraction : Single n.fractionSpelling ↔ ∀ row ∈ n.fraction, Single row := by
    rw [fractionSpelling]
    cases n.fraction with
    | none => exact iff_of_true .nil fun _ hnone => absurd hnone (Option.not_mem_none _)
    | some row =>
      show Single (['.'] ++ row) ↔ _
      rw [single_append (.inl (by decide))]
      simp [single_of_forall_ne]
  have hexponent : Single n.exponentSpelling ↔ ∀ e ∈ n.exponent, Single e.digits := by
    rw [exponentSpelling]
    cases he : n.exponent with
    | none => exact iff_of_true .nil fun _ hnone => absurd hnone (Option.not_mem_none _)
    | some e =>
      obtain ⟨hletter, hsign, -, -⟩ := h.exponent e he
      have hfront : ∀ c ∈ e.letter :: e.sign, c ≠ '_' :=
        List.forall_mem_cons.2 ⟨ne_of_isExponent hletter, fun c hc => ne_of_isSign (hsign c hc)⟩
      show Single (e.letter :: e.sign ++ e.digits) ↔ _
      rw [single_append (.inl fun c hc => hfront c (List.mem_of_getLast? hc))]
      simp [single_of_forall_ne hfront]
  have hassoc : n.spelling =
      n.mark ++ (n.whole ++ (n.fractionSpelling ++ (n.exponentSpelling ++ n.suffix))) := by
    simp only [spelling, body, List.append_assoc]
  rw [hassoc, single_append (.inl fun c hc => hmark c (List.mem_of_getLast? hc)),
    single_append (.inr fun c hc => ne_of_isRowChar (h.head?_fraction c hc).1),
    single_append (.inr fun c hc => ne_of_isRowChar (h.head?_exponent c hc).1),
    single_append (.inr fun c hc => hsuffix c (List.mem_of_mem_head? hc)), hfraction, hexponent]
  constructor
  · rintro ⟨-, hwhole, hfraction, hexponent, -⟩
    exact ⟨hwhole, hfraction, hexponent⟩
  · intro hn
    exact ⟨single_of_forall_ne hmark, hn.whole, hn.fraction, hn.exponent,
      single_of_forall_ne hsuffix⟩

end Numeral

namespace Number

theorem cppParts_eq (body : List Char) (fraction : Bool) (suffix : Option Char) :
    cppParts body fraction suffix =
      (if !fraction && suffix.any isFloatSuffix then body ++ ['.', '0'] else body,
        (cppParts [] fraction suffix).2) := by
  fun_cases cppParts body fraction suffix with
  | case11 hl hL hf hF hd hD =>
    have hfloat : suffix.any isFloatSuffix = false := by
      cases suffix with
      | none => rfl
      | some c => simp_all [isFloatSuffix]
    rw [hfloat, Bool.and_false, if_neg Bool.false_ne_true, cppParts]
    all_goals assumption
  | _ => simp_all [cppParts, isFloatSuffix]

theorem map_body (h : n.IsReadable) :
    n.body.map cppChar = n.whole.map cppChar ++
      ((n.fraction.map (·.map cppChar)).elim [] ('.' :: ·) ++
        n.cppExponent.elim [] fun e => e.letter :: (e.sign ++ e.digits)) := by
  rw [Numeral.body, List.map_append, List.map_append, Numeral.fractionSpelling,
    Numeral.exponentSpelling, Numeral.cppExponent]
  congr 2
  · cases n.fraction <;> rfl
  · cases he : n.exponent with
    | none => rfl
    | some e =>
      obtain ⟨hletter, hsign, -, -⟩ := h.exponent e he
      have hfront : ∀ c ∈ e.letter :: e.sign, c ≠ '_' :=
        List.forall_mem_cons.2 ⟨Numeral.ne_of_isExponent hletter,
          fun c hc => Numeral.ne_of_isSign (hsign c hc)⟩
      show (e.letter :: e.sign ++ e.digits).map cppChar = e.letter :: e.sign ++ e.digits.map cppChar
      rw [List.map_append, map_cppChar hfront]

/-- Only a number in base 16 with an exponent has a fraction written behind it. -/
theorem fraction_of_addsFraction (h : n.IsReadable) (hadds : n.addsFraction = true) :
    n.fraction = none ∧ (n.isHex = false → n.exponent = none) := by
  have hnone := (Bool.and_eq_true_iff.1 hadds).1
  rw [Bool.not_eq_true', hasFraction_eq, h.any_point, Bool.or_eq_false_iff] at hnone
  refine ⟨Option.isSome_eq_false_iff.1 hnone.1 |> Option.isNone_iff_eq_none.1, fun hhex => ?_⟩
  have hletter := h.any_isExponent
  rw [hhex, hnone.2] at hletter
  exact Option.isNone_iff_eq_none.1 (Option.isSome_eq_false_iff.1 hletter.symm)

theorem cpp_spelling (h : NumberRules.java.Accepts n) :
    cpp ⟨n.radix, n.mark, n.body, n.suffix.head?⟩ =
      (if n.exponent.isSome && n.addsFraction then n.cppBehind else n.cpp).spelling := by
  have hout : cpp ⟨n.radix, n.mark, n.body, n.suffix.head?⟩ = n.mark ++
      (if n.addsFraction then n.body.map cppChar ++ ['.', '0'] else n.body.map cppChar) ++
        n.cppSuffix := by
    show n.mark ++ (cppParts (n.body.map cppChar) (hasFraction n.body) n.suffix.head?).1 ++
      (cppParts (n.body.map cppChar) (hasFraction n.body) n.suffix.head?).2 = _
    rw [cppParts_eq]
    rfl
  have hexponent := map_body h.isReadable
  generalize hspelling : n.cppExponent.elim [] (fun e => e.letter :: (e.sign ++ e.digits)) =
    exponent at hexponent
  have hcpp : n.cpp.spelling = n.mark ++ (n.whole.map cppChar ++
      ((if n.addsFraction then some ['0'] else n.fraction.map (·.map cppChar)).elim [] ('.' :: ·) ++
        exponent) ++ n.cppSuffix) := by
    rw [← hspelling]
    rfl
  rw [hout, hexponent]
  cases hadds : n.addsFraction with
  | false =>
    rw [hadds] at hcpp
    rw [Bool.and_false, if_neg Bool.false_ne_true, if_neg Bool.false_ne_true, hcpp,
      List.append_assoc]
    rfl
  | true =>
    rw [hadds] at hcpp
    obtain ⟨hfraction, -⟩ := fraction_of_addsFraction h.isReadable hadds
    rw [hfraction, if_pos rfl, Bool.and_true]
    cases he : n.exponent with
    | none =>
      have hnone : exponent = [] := by
        rw [← hspelling, Numeral.cppExponent, he]
        rfl
      rw [if_neg nofun, hcpp, hnone]
      simp
    | some e =>
      have hbehind : n.cppBehind.spelling = n.mark ++ (n.whole.map cppChar ++ exponent ++
          '.' :: '0' :: n.cppSuffix) := by
        rw [← hspelling]
        rfl
      rw [if_pos (Option.isSome_some), hbehind]
      simp

end Number

/-! ## Values -/

namespace NumberRules

/-- The suffix of C++ for a suffix of Java. -/
theorem Accepts.cppSuffix (h : java.Accepts n) :
    n.cppSuffix = [] ∨ java.isInteger n = true ∧ n.cppSuffix = ['L', 'L'] ∨
      java.isInteger n = false ∧ n.cppSuffix ∈ [['f'], ['F']] := by
  rw [Numeral.cppSuffix]
  rcases h.suffix_java with hsuffix | ⟨c, -, hsuffix, hletter⟩
  · rw [hsuffix]
    exact .inl rfl
  · rw [hsuffix, List.head?_cons]
    rcases hletter with ⟨hinteger, hlong⟩ | ⟨hinteger, hfloat⟩
    · refine .inr (.inl ⟨hinteger, ?_⟩)
      simp only [Number.isLongSuffix, Bool.or_eq_true, beq_iff_eq] at hlong
      rcases hlong with rfl | rfl <;> rfl
    · simp only [Number.isFloatSuffix, Bool.or_eq_true, beq_iff_eq, or_assoc] at hfloat
      cases Number.hasFraction n.body <;> rcases hfloat with rfl | rfl | rfl | rfl <;>
        first
        | exact .inl rfl
        | exact .inr (.inr ⟨hinteger, by decide⟩)

theorem isInteger_cpp (h : java.Accepts n) : cpp.isInteger n.cpp = java.isInteger n := by
  have hplain : cpp.isInteger n.cpp =
      ((if n.addsFraction then some ['0'] else n.fraction.map (·.map cppChar)).isNone &&
        n.cppExponent.isNone) := Bool.and_true _
  have hexponent : n.cppExponent.isNone = n.exponent.isNone := Option.isNone_map
  rw [hplain, hexponent]
  cases hinteger : java.isInteger n with
  | true =>
    obtain ⟨hfraction, hnone, -⟩ := isInteger_parts hinteger
    have hadds : n.addsFraction = false := by
      rw [Numeral.addsFraction]
      rcases h.suffix_java with hsuffix | ⟨c, -, hsuffix, ⟨-, hlong⟩ | ⟨hnot, -⟩⟩
      · rw [hsuffix]
        exact Bool.and_false _
      · simp only [Number.isLongSuffix, Bool.or_eq_true, beq_iff_eq] at hlong
        rw [hsuffix]
        rcases hlong with rfl | rfl <;> exact Bool.and_false _
      · rw [hinteger] at hnot
        cases hnot
    rw [hadds, hnone, hfraction]
    rfl
  | false =>
    cases hnone : n.exponent with
    | some e => exact Bool.and_false _
    | none =>
      cases hfraction : n.fraction with
      | some row => cases n.addsFraction <;> rfl
      | none =>
        have hadds : n.addsFraction = true := by
          have hmark : n.mark = [] := by
            refine (h.of_isFloat hinteger).resolve_right fun hsome => ?_
            rw [hnone] at hsome
            cases hsome
          rw [Numeral.addsFraction,
            Number.hasFraction_body h.isReadable (isHex_eq_false hmark), hfraction, hnone]
          rcases h.suffix_java with hsuffix | ⟨c, -, hsuffix, ⟨hlong, -⟩ | ⟨-, hfloat⟩⟩
          · have hplain : java.floatSuffixes.contains [] = false := rfl
            rw [isInteger, hfraction, hnone, hsuffix, hplain, Bool.and_false] at hinteger
            cases hinteger
          · rw [hinteger] at hlong
            cases hlong
          · rw [hsuffix]
            exact hfloat
        rw [hadds]
        rfl

theorem base_cpp (h : java.Accepts n) : cpp.base n.cpp = java.base n := by
  have hoctal : n.cpp.isOctal = n.isOctal := by
    show ((n.whole.map cppChar).head? == some '0' && decide (1 < (n.whole.map cppChar).length)) = _
    rw [List.length_map, List.head?_map, Numeral.isOctal]
    refine congrArg (· && _) ?_
    cases n.whole with
    | nil => rfl
    | cons c cs =>
      by_cases hc : c = '_'
      · rw [hc]
        rfl
      · rw [List.head?_cons, Option.map_some, cppChar_of_ne hc]
  rw [base, base, isInteger_cpp h, hoctal]
  rfl

theorem pointValue_map (base : Nat) (whole fraction : List Char) :
    pointValue base (whole.map cppChar) (fraction.map cppChar) =
      pointValue base whole fraction := by
  rw [pointValue, pointValue, rowDigits_map, rowValue, ← List.map_append, rowDigits_map, rowValue]

theorem value_cpp (h : java.Accepts n) : cpp.value n.cpp = java.value n := by
  have hexponent : n.cpp.exponentValue = n.exponentValue := by
    rw [Numeral.exponentValue, Numeral.exponentValue]
    show n.cppExponent.elim _ _ = _
    rw [Numeral.cppExponent]
    cases n.exponent with
    | none => rfl
    | some e =>
      show (if e.sign == ['-'] then -(rowValue 10 (e.digits.map cppChar) : ℤ)
        else rowValue 10 (e.digits.map cppChar)) = _
      rw [rowValue, rowDigits_map]
      rfl
  have hpoint : pointValue (java.base n) (n.whole.map cppChar) (n.cpp.fraction.getD []) =
      pointValue (java.base n) n.whole (n.fraction.getD []) := by
    show pointValue _ _
      ((if n.addsFraction then some ['0'] else n.fraction.map (·.map cppChar)).getD []) = _
    split
    · next hadds =>
      rw [(Number.fraction_of_addsFraction h.isReadable hadds).1]
      exact (pointValue_zero (java.base_pos n).ne' _).trans (pointValue_map _ n.whole [])
    · rw [← pointValue_map _ n.whole]
      cases n.fraction <;> rfl
  rw [value, value, base_cpp h, hexponent]
  exact congrArg (· * _) hpoint

theorem map_mem_fraction_cpp (h : n.IsReadable) (hrow : row ∈ n.fraction) :
    row.map cppChar ∈ n.cpp.fraction := by
  have hadds : n.addsFraction = false := by
    refine Bool.eq_false_iff.2 fun hadds => ?_
    rw [(Number.fraction_of_addsFraction h hadds).1] at hrow
    cases hrow
  show _ ∈ if n.addsFraction then some ['0'] else n.fraction.map (·.map cppChar)
  rw [hadds]
  exact Option.mem_map_of_mem _ hrow

theorem mem_fraction_cpp (h : row ∈ n.cpp.fraction) :
    row = ['0'] ∨ ∃ row' ∈ n.fraction, row = row'.map cppChar := by
  replace h : row ∈ if n.addsFraction then some ['0'] else n.fraction.map (·.map cppChar) := h
  split at h
  · cases h
    exact .inl rfl
  · obtain ⟨row', hrow', rfl⟩ := Option.map_eq_some_iff.1 h
    exact .inr ⟨row', hrow', rfl⟩

/-- C++ has the numeral just if the underscores of Java's stand alone. -/
theorem accepts_cpp_iff (h : java.Accepts n) : cpp.Accepts n.cpp ↔ n.IsSingle := by
  have hbase := base_cpp h
  have hinteger := isInteger_cpp h
  constructor
  · intro hcpp
    constructor
    case whole =>
      rcases h.whole with hrow | ⟨hnil, -⟩
      · rcases hcpp.whole with hrow' | ⟨hnil, -⟩
        · rw [hbase] at hrow'
          exact (hrow.cpp_iff _).1 hrow'
        · exact absurd (List.map_eq_nil_iff.1 hnil) hrow.ne_nil
      · rw [hnil]
        exact .nil
    case fraction =>
      intro row hmem
      rcases h.fraction row hmem with hrow | ⟨rfl, -⟩
      · rcases hcpp.fraction _ (map_mem_fraction_cpp h.isReadable hmem) with hrow' | ⟨hnil, -⟩
        · rw [hbase] at hrow'
          exact (hrow.cpp_iff _).1 hrow'
        · exact absurd (List.map_eq_nil_iff.1 hnil) hrow.ne_nil
      · exact .nil
    case exponent =>
      intro e he
      obtain ⟨-, -, hrow⟩ := h.exponent e he
      obtain ⟨-, -, hrow'⟩ := hcpp.exponent _ (Option.mem_map_of_mem _ he)
      exact (hrow.cpp_iff _).1 hrow'
  · intro hsingle
    constructor
    case mark => exact h.mark
    case whole =>
      rw [hbase]
      refine h.whole.imp (fun hrow => (hrow.cpp_iff _).2 hsingle.whole) ?_
      rintro ⟨hnil, -, hsome⟩
      obtain ⟨row, hrow, hne⟩ := (Option.any_eq_true ..).1 hsome
      refine ⟨List.map_eq_nil_iff.2 hnil, rfl, (Option.any_eq_true ..).2
        ⟨row.map cppChar, map_mem_fraction_cpp h.isReadable hrow, ?_⟩⟩
      rwa [List.isEmpty_map]
    case fraction =>
      intro row hmem
      rw [hbase]
      rcases mem_fraction_cpp hmem with rfl | ⟨row, hrow, rfl⟩
      · exact .inl (isRow_zero (java.base_pos n) rfl)
      · refine (h.fraction row hrow).imp (fun hdigits => ?_) fun hnil => ?_
        · exact (hdigits.cpp_iff _).2 (hsingle.fraction row hrow)
        · exact ⟨List.map_eq_nil_iff.2 hnil.1, rfl⟩
    case exponent =>
      intro e he
      obtain ⟨e, hmem, rfl⟩ := Option.map_eq_some_iff.1 he
      obtain ⟨hletter, hsign, hrow⟩ := h.exponent e hmem
      exact ⟨hletter, hsign, (hrow.cpp_iff _).2 (hsingle.exponent e hmem)⟩
    case marked =>
      rw [hinteger]
      refine h.marked.imp_right (Or.imp_right fun ⟨_, hhex, hsome⟩ => ⟨rfl, hhex, ?_⟩)
      exact Option.isSome_map.trans hsome
    case suffix =>
      rw [hinteger]
      refine h.cppSuffix.imp_right ?_
      rintro (⟨hint, hsuffix⟩ | ⟨hfloat, hsuffix⟩)
      · rw [if_pos hint]
        show n.cppSuffix ∈ _
        rw [hsuffix]
        decide
      · rw [if_neg (Bool.eq_false_iff.1 hfloat)]
        have hall : ∀ s ∈ [['f'], ['F']], s ∈ cpp.floatSuffixes := by decide
        exact hall _ hsuffix
    case limit => exact fun _ => nofun

theorem not_accepts_cppBehind (h : n.exponent.isSome = true) : ¬cpp.Accepts n.cppBehind := by
  intro haccepts
  have hinteger : cpp.isInteger n.cppBehind = false := by
    have hexponent : n.cppExponent.isNone = false := by
      rw [Numeral.cppExponent, Option.isNone_map]
      exact Option.isNone_eq_false_iff.2 h
    show (true && n.cppExponent.isNone && _) = false
    rw [hexponent]
    rfl
  have hno : ∀ s ∈ cpp.floatSuffixes, '.' ∉ s := by decide
  rcases haccepts.suffix with hnil | hmem
  · cases hnil
  · rw [hinteger, if_neg Bool.false_ne_true] at hmem
    exact hno _ hmem List.mem_cons_self

end NumberRules

namespace Numeral

/-- Rows are read as they are written for C++. -/
theorem IsReadable.mapped {m : Numeral} (h : n.IsReadable) (hmark : m.mark = n.mark)
    (hwhole : m.whole = n.whole.map cppChar)
    (hfraction : ∀ row ∈ m.fraction, row = ['0'] ∨ ∃ row' ∈ n.fraction, row = row'.map cppChar)
    (hexponent : m.exponent = n.cppExponent)
    (hsuffix : ∀ c ∈ m.suffix.head?, isRowChar (n.isHex && n.exponent.isNone) c = false ∧
      (n.exponent = none → isExponent n.isHex c = false ∧ c ∉ '.' :: markChars)) :
    m.IsReadable := by
  have hhex : m.isHex = n.isHex := congrArg Target.isHex hmark
  have hnone : m.exponent.isNone = n.exponent.isNone := by
    rw [hexponent]
    exact Option.isNone_map
  constructor
  case mark =>
    rw [hmark]
    exact h.mark
  case whole =>
    rw [hwhole, hhex]
    exact List.forall_mem_map.2 fun c hc => isRowChar_cppChar (h.whole c hc)
  case fraction =>
    intro row hmem
    rw [hhex]
    rcases hfraction row hmem with rfl | ⟨row, hrow, rfl⟩
    · cases n.isHex <;> decide
    · exact List.forall_mem_map.2 fun c hc => isRowChar_cppChar (h.fraction row hrow c hc)
  case exponent =>
    intro e he
    rw [hexponent] at he
    obtain ⟨e, hmem, rfl⟩ := Option.map_eq_some_iff.1 he
    obtain ⟨hletter, hsign, hne, hdigits⟩ := h.exponent e hmem
    rw [hhex]
    refine ⟨hletter, hsign, fun hnil => hne (List.map_eq_nil_iff.1 hnil), ?_⟩
    exact List.forall_mem_map.2 fun c hc => isRowChar_cppChar (hdigits c hc)
  case suffix =>
    rw [hhex, hnone, ← Option.isNone_iff_eq_none, hnone, Option.isNone_iff_eq_none]
    exact hsuffix

theorem isReadable_cpp (h : NumberRules.java.Accepts n) : n.cpp.IsReadable := by
  refine h.isReadable.mapped rfl rfl (fun row => NumberRules.mem_fraction_cpp) rfl ?_
  show ∀ c ∈ n.cppSuffix.head?, _
  rcases h.cppSuffix with hsuffix | ⟨-, hsuffix⟩ | ⟨hinteger, hsuffix⟩
  · rw [hsuffix]
    exact nofun
  · rw [hsuffix]
    have hall : ∀ hex : Bool, isRowChar hex 'L' = false ∧ isExponent hex 'L' = false ∧
        'L' ∉ '.' :: markChars := by decide
    rintro c ⟨⟩
    exact ⟨(hall _).1, fun _ => (hall _).2⟩
  · have hc : ∀ s ∈ [['f'], ['F']], ∀ c ∈ s.head?, isRowChar false c = false ∧
        isExponent false c = false ∧ c ∉ '.' :: markChars := by decide
    intro c hhead
    obtain ⟨hrow, hplain⟩ := hc _ hsuffix c hhead
    exact h.suffix_of_isFloat hinteger hrow hplain

theorem isReadable_cppBehind (h : NumberRules.java.Accepts n) (he : n.exponent.isSome = true) :
    n.cppBehind.IsReadable := by
  refine h.isReadable.mapped rfl rfl nofun rfl ?_
  rintro c ⟨⟩
  exact NumberRules.suffix_of_exponent he rfl

end Numeral

end Lockstep.Target
