import Lockstep.Proofs.Numerals

/-!
# How numerals of Java are taken apart

A rendering splits a number literal into base, mark, body and suffix by looking at single
characters. For the numerals of Java these are the parts that the numeral is spelled with.

- `Number.ofToken_spelling`: the parts of a numeral of Java.
-/

namespace Lockstep.Target

open Text

variable {n : Numeral}

/-! ## The characters of a body -/

namespace Numeral

theorem isRowChar_ne {hex : Bool} {c : Char} (h : isRowChar hex c = true) :
    isExponent hex c = false ∧ c ≠ '.' ∧ isSign c = false := by
  refine ⟨Bool.eq_false_iff.2 fun hletter => ?_, ?_, Bool.eq_false_iff.2 fun hsign => ?_⟩
  · cases hex <;>
    · simp only [isExponent, Bool.false_eq_true, if_true, if_false, Bool.or_eq_true, beq_iff_eq]
        at hletter
      rcases hletter with rfl | rfl <;> cases h
  · rintro rfl
    cases hex <;> cases h
  · simp only [isSign, Bool.or_eq_true, beq_iff_eq] at hsign
    rcases hsign with rfl | rfl <;> cases hex <;> cases h

/-- Only an exponent has the letter of one. -/
theorem IsReadable.any_isExponent (h : n.IsReadable) :
    n.body.any (isExponent n.isHex) = n.exponent.isSome := by
  have hrow {row : List Char} (hrow : ∀ c ∈ row, isRowChar n.isHex c = true) :
      row.any (isExponent n.isHex) = false :=
    List.any_eq_false.2 fun c hc => by simp [(isRowChar_ne (hrow c hc)).1]
  have hfraction : n.fractionSpelling.any (isExponent n.isHex) = false := by
    rw [fractionSpelling]
    cases hf : n.fraction with
    | none => rfl
    | some row =>
      show (isExponent n.isHex '.' || row.any _) = false
      rw [hrow (h.fraction row hf)]
      cases n.isHex <;> rfl
  rw [body, List.any_append, List.any_append, hrow h.whole, hfraction, exponentSpelling]
  cases he : n.exponent with
  | none => rfl
  | some e =>
    show (isExponent n.isHex e.letter || _) = true
    rw [(h.exponent e he).1]
    rfl

/-- Only a fraction has a point. -/
theorem IsReadable.any_point (h : n.IsReadable) :
    n.body.any (· == '.') = n.fraction.isSome := by
  have hrow {hex : Bool} {row : List Char} (hrow : ∀ c ∈ row, isRowChar hex c = true) :
      row.any (· == '.') = false :=
    List.any_eq_false.2 fun c hc => by simp [(isRowChar_ne (hrow c hc)).2.1]
  have hexponent : n.exponentSpelling.any (· == '.') = false := by
    rw [exponentSpelling]
    cases he : n.exponent with
    | none => rfl
    | some e =>
      obtain ⟨hletter, hsign, -, hdigits⟩ := h.exponent e he
      have hpoint : (e.letter == '.') = false := by
        refine beq_false_of_ne fun heq => ?_
        rw [heq] at hletter
        revert hletter
        cases n.isHex <;> decide
      have hsigns : e.sign.any (· == '.') = false := by
        refine List.any_eq_false.2 fun c hc heq => ?_
        rw [beq_iff_eq.1 heq] at hc
        cases hsign '.' hc
      show (e.letter == '.' || (e.sign ++ e.digits).any _) = false
      rw [hpoint, List.any_append, hsigns, hrow hdigits]
      rfl
  rw [body, List.any_append, List.any_append, hrow h.whole, hexponent, fractionSpelling]
  cases n.fraction <;> rfl

end Numeral

namespace NumberRules

/-- A row of Java ends with a digit. -/
theorem IsRow.getLast?_java {base : Nat} {marked : Bool} {row : List Char}
    (h : java.IsRow base marked row) :
    ∀ c ∈ row.getLast?, (hexValue? c).any (· < base) = true := by
  intro c hc
  refine (h.digits c (List.mem_of_getLast? hc)).resolve_left ?_
  rintro rfl
  have hlast := (Bool.and_eq_true_iff.1 h.separates).2
  rw [hc] at hlast
  cases hlast

/-- A body of Java ends with a digit or with its point. -/
theorem Accepts.getLast?_body (h : java.Accepts n) :
    ∀ c ∈ n.body.getLast?, c = '.' ∨
      (hexValue? c).any (· < if n.isHex && n.exponent.isNone then 16 else 10) = true := by
  intro c hc
  rw [Numeral.body] at hc
  have hrow {marked : Bool} {row : List Char} (hrow : java.IsRow (java.base n) marked row)
      (hnone : n.exponent = none) (hlast : c ∈ row.getLast?) :
      (hexValue? c).any (· < if n.isHex && n.exponent.isNone then 16 else 10) = true := by
    obtain ⟨d, hd, hlt⟩ := (Option.any_eq_true ..).1 (hrow.getLast?_java c hlast)
    refine (Option.any_eq_true ..).2 ⟨d, hd, decide_eq_true ?_⟩
    rw [hnone, Option.isNone_none, Bool.and_true]
    exact Nat.lt_of_lt_of_le (of_decide_eq_true hlt) (java.base_le n)
  cases he : n.exponent with
  | some e =>
    obtain ⟨-, -, hdigits⟩ := h.exponent e he
    have hspelling : n.exponentSpelling = (e.letter :: e.sign) ++ e.digits := by
      rw [Numeral.exponentSpelling, he]
      rfl
    have hne : n.exponentSpelling ≠ [] := by
      rw [hspelling]
      exact List.cons_ne_nil _ _
    rw [List.getLast?_append_of_ne_nil _ (List.append_ne_nil_of_right_ne_nil _ hne),
      List.getLast?_append_of_ne_nil _ hne, hspelling,
      List.getLast?_append_of_ne_nil _ hdigits.ne_nil] at hc
    rw [Option.isNone_some, Bool.and_false]
    exact .inr (hdigits.getLast?_java c hc)
  | none =>
    have hexponent : n.exponentSpelling = [] := by
      rw [Numeral.exponentSpelling, he]
      rfl
    rw [← he]
    rw [hexponent, List.append_nil] at hc
    cases hf : n.fraction with
    | some row =>
      have hspelling : n.fractionSpelling = ['.'] ++ row := by
        rw [Numeral.fractionSpelling, hf]
        rfl
      have hne : n.fractionSpelling ≠ [] := by
        rw [hspelling]
        exact List.cons_ne_nil _ _
      rw [List.getLast?_append_of_ne_nil _ hne, hspelling] at hc
      rcases h.fraction row hf with hdigits | ⟨rfl, -⟩
      · rw [List.getLast?_append_of_ne_nil _ hdigits.ne_nil] at hc
        exact .inr (hrow hdigits he hc)
      · cases hc
        exact .inl rfl
    | none =>
      rw [Numeral.fractionSpelling, hf, Option.elim_none, List.append_nil] at hc
      rcases h.whole with hdigits | ⟨-, -, hfraction⟩
      · exact .inr (hrow hdigits he hc)
      · rw [hf] at hfraction
        cases hfraction

/-- The suffix of a numeral of Java is one letter. -/
theorem Accepts.suffix_java (h : java.Accepts n) :
    n.suffix = [] ∨ ∃ c ∈ suffixChars, n.suffix = [c] ∧
      (java.isInteger n = true ∧ Number.isLongSuffix c = true ∨
        java.isInteger n = false ∧ Number.isFloatSuffix c = true) := by
  refine h.suffix.imp_right fun hsuffix => ?_
  cases hinteger : java.isInteger n with
  | true =>
    rw [hinteger, if_pos rfl] at hsuffix
    have hall : ∀ s ∈ java.integerSuffixes, ∃ c ∈ suffixChars, s = [c] ∧
        Number.isLongSuffix c = true := by decide
    obtain ⟨c, hc, heq, hlong⟩ := hall _ hsuffix
    exact ⟨c, hc, heq, .inl ⟨rfl, hlong⟩⟩
  | false =>
    rw [hinteger, if_neg Bool.false_ne_true] at hsuffix
    have hall : ∀ s ∈ java.floatSuffixes, ∃ c ∈ suffixChars, s = [c] ∧
        Number.isFloatSuffix c = true := by decide
    obtain ⟨c, hc, heq, hfloat⟩ := hall _ hsuffix
    exact ⟨c, hc, heq, .inr ⟨rfl, hfloat⟩⟩

/-- The digits of an octal number. -/
theorem Accepts.octal (h : java.Accepts n)
    (hoctal : n.mark = [] ∧ java.isInteger n = true ∧ n.isOctal = true) :
    java.base n = 8 ∧ java.IsRow 8 false n.whole := by
  obtain ⟨hmark, hinteger, hzero⟩ := hoctal
  have hbase : java.base n = 8 := by
    rw [base_eq hmark, hinteger, hzero]
    rfl
  refine ⟨hbase, ?_⟩
  rcases h.whole with hrow | ⟨hempty, -⟩
  · rwa [hbase, hmark] at hrow
  · rw [Numeral.isOctal, hempty] at hzero
    cases hzero

end NumberRules

/-! ## The parts -/

/-- The base that a mark stands for. -/
def Numeral.markRadix (n : Numeral) : Radix :=
  if n.isHex then .hex else if n.mark = [] then .decimal else .binary

def Numeral.radix (n : Numeral) : Radix :=
  if n.mark = [] ∧ NumberRules.java.isInteger n = true ∧ n.isOctal = true then .octal
  else n.markRadix

namespace Number

theorem splitMark_eq {cs : List Char} (h : Numeral.readMark cs = ([], cs)) :
    splitMark cs = (.decimal, [], cs) := by
  fun_cases splitMark cs with
  | case1 | case2 | case3 | case4 => cases h
  | case5 => rfl

theorem splitMark_spelling (h : NumberRules.java.Accepts n) :
    splitMark n.spelling = (n.markRadix, n.mark, n.body ++ n.suffix) := by
  rw [Numeral.markRadix, Numeral.isHex]
  rcases h.mark with hmark | ⟨c, hc, hmark⟩
  · have hread := h.isReadable.readMark_spelling
    rw [Numeral.spelling, hmark] at *
    exact splitMark_eq hread
  · rw [Numeral.spelling, hmark]
    have hall : c = 'x' ∨ c = 'X' ∨ c = 'b' ∨ c = 'B' := by simpa [NumberRules.java] using hc
    rcases hall with rfl | rfl | rfl | rfl <;> rfl

/-- The letters of a suffix for floating point are digits of a number in base 16 without
exponent. -/
theorem allowsSuffix_markRadix {cs : List Char}
    (hcs : n.isHex = true → hasBinaryExponent cs = n.exponent.isSome) (c : Char) :
    allowsSuffix n.markRadix cs c =
      (isLongSuffix c || isFloatSuffix c && !(n.isHex && n.exponent.isNone)) := by
  rw [allowsSuffix, Numeral.markRadix]
  cases hn : n.isHex with
  | true =>
    rw [hcs hn]
    cases n.exponent <;> simp
  | false => cases n.mark <;> simp

/-- What a body ends with is no suffix. -/
theorem isSuffix_eq_false {c : Char} {base : Nat}
    (h : c = '.' ∨ (hexValue? c).any (· < base) = true) :
    isLongSuffix c = false ∧ (base ≤ 10 → isFloatSuffix c = false) := by
  refine ⟨Bool.eq_false_iff.2 fun hlong => ?_, fun hten => Bool.eq_false_iff.2 fun hfloat => ?_⟩
  · simp only [isLongSuffix, Bool.or_eq_true, beq_iff_eq] at hlong
    rcases hlong with rfl | rfl <;> rcases h with h | h <;> cases h
  · have hletter (d : Char) (hd : d ∈ ['f', 'F', 'd', 'D']) :
        ∃ v, hexValue? d = some v ∧ 10 < v := by
      have hall : ∀ d ∈ ['f', 'F', 'd', 'D'], (hexValue? d).any (10 < ·) = true := by decide
      obtain ⟨v, hv, hlt⟩ := (Option.any_eq_true ..).1 (hall d hd)
      exact ⟨v, hv, of_decide_eq_true hlt⟩
    obtain ⟨v, hv, hlt⟩ := hletter c (by simpa [isFloatSuffix, or_assoc] using hfloat)
    rcases h with rfl | hdigit
    · cases hv
    · rw [hv] at hdigit
      have hbase : v < base := of_decide_eq_true hdigit
      omega

theorem splitSuffix_spelling (h : NumberRules.java.Accepts n) :
    splitSuffix n.markRadix (n.body ++ n.suffix) = (n.body, n.suffix.head?) := by
  have hexponent {cs : List Char} (hcs : cs.any (isExponent true) = false) (hn : n.isHex = true) :
      hasBinaryExponent (n.body ++ cs) = n.exponent.isSome := by
    have hany := h.isReadable.any_isExponent
    rw [hn] at hany
    show (n.body ++ cs).any (isExponent true) = _
    rw [List.any_append, hany, hcs, Bool.or_false]
  rcases h.suffix_java with hsuffix | ⟨c, hc, hsuffix, hletter⟩
  · rw [hsuffix, List.head?_nil, splitSuffix]
    split
    · next c hc =>
      obtain ⟨hlong, hfloat⟩ := isSuffix_eq_false (h.getLast?_body c (List.append_nil n.body ▸ hc))
      rw [allowsSuffix_markRadix (hexponent rfl), hlong, Bool.false_or]
      cases hhex : n.isHex && n.exponent.isNone with
      | true => simp
      | false =>
        rw [hhex] at hfloat
        rw [hfloat (Nat.le_refl 10)]
        simp
    · rw [List.append_nil]
  · have hallowed : allowsSuffix n.markRadix (n.body ++ [c]) c = true := by
      have hall : ∀ c ∈ suffixChars, [c].any (isExponent true) = false := by decide
      rw [allowsSuffix_markRadix (hexponent (hall c hc))]
      rcases hletter with ⟨-, hlong⟩ | ⟨hinteger, hfloat⟩
      · rw [hlong, Bool.true_or]
      · have hnot : (n.isHex && n.exponent.isNone) = false := by
          rcases h.of_isFloat hinteger with hmark | hsome
          · rw [NumberRules.isHex_eq_false hmark, Bool.false_and]
          · rw [Option.isNone_eq_false_iff.2 hsome, Bool.and_false]
        rw [hfloat, hnot, Bool.not_false, Bool.and_self, Bool.or_true]
    rw [hsuffix, List.head?_cons, splitSuffix, List.getLast?_concat]
    simp only [hallowed, if_true, List.dropLast_concat]

theorem hasFraction_eq (cs : List Char) :
    hasFraction cs = (cs.any (· == '.') || cs.any (isExponent false)) := by
  induction cs with
  | nil => rfl
  | cons c cs ih =>
    show (c == '.' || c == 'e' || c == 'E' || hasFraction cs) = _
    rw [ih, List.any_cons, List.any_cons, isExponent, if_neg Bool.false_ne_true]
    ac_rfl

theorem hasFraction_body (h : n.IsReadable) (hhex : n.isHex = false) :
    hasFraction n.body = (n.fraction.isSome || n.exponent.isSome) := by
  have hletter := h.any_isExponent
  rw [hhex] at hletter
  rw [hasFraction_eq, h.any_point, hletter]

theorem isFloat_eq (h : NumberRules.java.Accepts n) (hmark : n.mark = []) :
    (⟨.decimal, n.mark, n.body, n.suffix.head?⟩ : Number).isFloat =
      !NumberRules.java.isInteger n := by
  have hsuffix : n.suffix.head?.any isFloatSuffix =
      NumberRules.java.floatSuffixes.contains n.suffix := by
    rcases h.suffix_java with hsuffix | ⟨c, hc, hsuffix, -⟩
    · rw [hsuffix]
      rfl
    · have hall : ∀ c ∈ suffixChars,
          isFloatSuffix c = NumberRules.java.floatSuffixes.contains [c] := by decide
      rw [hsuffix]
      exact hall c hc
  show (hasFraction n.body || n.suffix.head?.any isFloatSuffix) = _
  rw [hasFraction_body h.isReadable (NumberRules.isHex_eq_false hmark), hsuffix,
    NumberRules.isInteger, hmark]
  cases n.fraction <;> cases n.exponent <;> simp [NumberRules.java]

theorem isOctalDigit_of_hexValue? {c : Char} (h : (hexValue? c).any (· < 8) = true) :
    isOctalDigit c = true := by
  have hall : ∀ c ∈ digitChars, (hexValue? c).any (· < 8) = true → isOctalDigit c = true := by
    decide
  exact hall c (mem_digitChars (NumberRules.isDigit_of_hexValue? (by decide) h)) h

theorem isOctal_eq (h : NumberRules.java.Accepts n) :
    (⟨n.markRadix, n.mark, n.body, n.suffix.head?⟩ : Number).isOctal =
      decide (n.mark = [] ∧ NumberRules.java.isInteger n = true ∧ n.isOctal = true) := by
  by_cases hmark : n.mark = []
  · have hradix : n.markRadix = .decimal := by
      rw [Numeral.markRadix, NumberRules.isHex_eq_false hmark, if_neg Bool.false_ne_true,
        if_pos hmark]
    rw [isOctal, hradix, isFloat_eq h hmark]
    cases hinteger : NumberRules.java.isInteger n with
    | false => simp
    | true =>
      have hdigits (hn : n.isOctal = true) :
          (n.whole.all fun c => isOctalDigit c || c == '_') = true := by
        obtain ⟨-, hrow⟩ := h.octal ⟨hmark, hinteger, hn⟩
        refine List.all_eq_true.2 fun c hc => ?_
        rcases hrow.digits c hc with rfl | hdigit
        · rfl
        · rw [isOctalDigit_of_hexValue? hdigit, Bool.true_or]
      have hall : (decide (1 < n.whole.length) && n.whole.head? == some '0' &&
          n.whole.all fun c => isOctalDigit c || c == '_') = n.isOctal := by
        rw [Bool.and_comm (decide _)]
        change (n.isOctal && _) = n.isOctal
        cases hn : n.isOctal with
        | false => rfl
        | true => exact hdigits hn
      rw [(NumberRules.isInteger_parts hinteger).2.2]
      simp only [hmark, true_and, Bool.decide_eq_true]
      exact hall
  · have hradix : (n.markRadix == .decimal) = false := by
      rw [Numeral.markRadix, if_neg hmark]
      split_ifs <;> rfl
    simp [isOctal, hradix, hmark]

/-- The parts of a literal of Java are those that the numeral is spelled with. -/
theorem ofToken_spelling (h : NumberRules.java.Accepts n) :
    ofToken n.spelling = ⟨n.radix, n.mark, n.body, n.suffix.head?⟩ := by
  simp only [ofToken, splitMark_spelling h, splitSuffix_spelling h, isOctal_eq h, Numeral.radix]
  split_ifs <;> simp_all

end Number

end Lockstep.Target
