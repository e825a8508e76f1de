import Lockstep.Proofs.SingleTokens
import Lockstep.Target.NumberLiteral

/-!
# Number literals are tokens

A number literal is read as one token, whatever follows an operand (`IsNumber.isPart`), and the
literal that a target has for it is a number again (`isNumber_of_numberLiteral?`).

- `NumberState`: what the characters of a number so far ask for.
- `IsNumber`: the text is a number and complete.
-/

namespace Lockstep.Text

theorem mem_lowerHex {n : Nat} {c : Char} (h : c ∈ lowerHex n) :
    ∃ d : Fin 16, c = Nat.digitChar d := by
  induction n using Nat.strongRecOn with
  | ind n ih =>
    rw [lowerHex, Nat.toDigits_eq_if (by decide)] at h
    split at h
    · next hlt => exact ⟨⟨n, hlt⟩, List.mem_singleton.1 h⟩
    · next hle =>
      rcases List.mem_append.1 h with h | h
      · exact ih (n / 16) (by omega) h
      · exact ⟨⟨n % 16, Nat.mod_lt n (by decide)⟩, List.mem_singleton.1 h⟩

def upperHexChars : List Char :=
  ['0', '1', '2', '3', '4', '5', '6', '7', '8', '9', 'A', 'B', 'C', 'D', 'E', 'F']

theorem mem_upperHex {n : Nat} {c : Char} (h : c ∈ upperHex n) :
    c ∈ upperHexChars := by
  obtain ⟨d, hd, rfl⟩ := List.mem_map.1 h
  obtain ⟨n, rfl⟩ := mem_lowerHex hd
  have hall : ∀ n : Fin 16, (Nat.digitChar n).toUpper ∈ upperHexChars := by
    decide
  exact hall n

end Lockstep.Text

namespace Lockstep.Target

open Source Text

variable {t : Target} {word rest : List Char} {hex : Bool}

/-! ## Numbers as tokens -/

/-- What the characters of a number so far ask for. -/
inductive NumberState where
  | body
  /-- After the letter of an exponent: a sign or a digit. -/
  | exponent
  /-- After the sign of an exponent: a digit. -/
  | sign
  deriving DecidableEq, Repr

namespace NumberState

def next? (hex : Bool) : NumberState → Char → Option NumberState
  | .body, c =>
    if isNumberChar c then some (if isExponent hex c then .exponent else .body) else none
  | .exponent, c => if isSign c then some .sign else if c.isDigit then some .body else none
  | .sign, c => if c.isDigit then some .body else none

/-- The state after further characters, if they may stand in a number. -/
def after? (hex : Bool) (s : NumberState) (cs : List Char) : Option NumberState :=
  cs.foldlM (next? hex) s

end NumberState

/-- The text is a number that is complete. -/
structure IsNumber (word : List Char) : Prop where
  starts : startsNumber word = true
  complete : NumberState.after? (isHex word) .body word = some .body

/-- Characters that may be put at the end of a number. -/
def extendsNumber (hex : Bool) (c : Char) : Bool :=
  isNumberChar c && !isExponent hex c && c != 'x' && c != 'X'

namespace NumberState

variable {s s' : NumberState} {xs ys : List Char} {c : Char}

theorem after?_append (h : after? hex s xs = some s') (ys : List Char) :
    after? hex s (xs ++ ys) = after? hex s' ys := by
  rw [after?, List.foldlM_append]
  exact congrArg (· >>= _) h

theorem after?_cons (h : next? hex s c = some s') (cs : List Char) :
    after? hex s (c :: cs) = after? hex s' cs := by
  rw [after?, List.foldlM_cons, h]
  rfl

/-- A character goes on with the number, if it is in one. -/
theorem exists_next? (h : after? hex s (c :: xs) = some s') :
    ∃ mid, next? hex s c = some mid ∧ after? hex mid xs = some s' := by
  rw [after?, List.foldlM_cons] at h
  exact Option.bind_eq_some_iff.1 h

theorem after?_extends (h : ∀ c ∈ xs, extendsNumber hex c = true) :
    after? hex .body xs = some .body := by
  induction xs with
  | nil => rfl
  | cons c xs ih =>
    have hc := h c List.mem_cons_self
    simp only [extendsNumber, Bool.and_eq_true, Bool.not_eq_true'] at hc
    obtain ⟨⟨⟨hchar, hexponent⟩, _⟩, _⟩ := hc
    have hnext : next? hex .body c = some .body := by
      rw [next?, if_pos hchar, hexponent, if_neg Bool.false_ne_true]
    rw [after?_cons hnext, ih fun d hd => h d (List.mem_cons_of_mem c hd)]

/-- A letter at the end of a number is no part of an exponent. -/
theorem after?_of_append_singleton (hc : c.isDigit = false)
    (h : after? hex .body (xs ++ [c]) = some .body) : after? hex .body xs = some .body := by
  rw [after?, List.foldlM_append] at h
  obtain ⟨mid, hmid, h⟩ := Option.bind_eq_some_iff.1 h
  obtain ⟨last, hlast, hend⟩ := exists_next? h
  cases hend
  cases mid with
  | body => exact hmid
  | exponent =>
    simp only [next?, hc] at hlast
    split at hlast <;> cases hlast
  | sign =>
    simp only [next?, hc] at hlast
    cases hlast

end NumberState

theorem isNumberChar_of_isDigit {c : Char} (h : c.isDigit = true) (hex : Bool) :
    isNumberChar c = true ∧ isExponent hex c = false := by
  have hall : ∀ d ∈ digitChars, isNumberChar d = true ∧ isExponent hex d = false := by
    cases hex <;> exact List.all_iff_forall_prop.1 (by decide)
  exact hall c (mem_digitChars h)

theorem isExponent_of_isSign {c : Char} (h : isSign c = true) : isExponent hex c = false := by
  simp only [isSign, Bool.or_eq_true, beq_iff_eq] at h
  rcases h with rfl | rfl <;> cases hex <;> rfl

theorem startsNumber_append (h : startsNumber word = true) (rest : List Char) :
    startsNumber (word ++ rest) = true := by
  cases word with
  | nil => cases h
  | cons c cs =>
    simp only [startsNumber, List.cons_append, Bool.or_eq_true, Bool.and_eq_true] at h ⊢
    refine h.imp_right (And.imp_right fun hdigit => ?_)
    cases cs with
    | nil => cases hdigit
    | cons d cs => exact hdigit

theorem isHex_cons (c : Char) (cs : List Char) :
    isHex (c :: cs) = (c == '0' && cs.head?.any fun d => d == 'x' || d == 'X') := by
  unfold isHex
  split
  · next heq =>
    cases heq
    rfl
  · next hne =>
    by_cases hc : c = '0'
    · cases cs with
      | nil => exact (Bool.and_false _).symm
      | cons d cs => exact absurd (by rw [hc]) (hne d cs)
    · rw [beq_false_of_ne hc]
      rfl

theorem isHex_append (hword : word ≠ []) (hrest : ∀ c ∈ rest.head?, c ≠ 'x' ∧ c ≠ 'X') :
    isHex (word ++ rest) = isHex word := by
  match word with
  | [] => exact absurd rfl hword
  | c :: d :: cs => rw [List.cons_append, isHex_cons, isHex_cons]; rfl
  | [c] =>
    rw [List.cons_append, isHex_cons, isHex_cons]
    cases rest with
    | nil => rfl
    | cons d rest =>
      obtain ⟨hlower, hupper⟩ := hrest d rfl
      simp [hlower, hupper]

/-- What a step takes is counted. -/
theorem NumberState.counts {s mid : NumberState} {c : Char}
    (h : next? hex s c = some mid) :
    (isNumberChar c || s == .exponent && isSign c) = true ∧
      isExponent hex c = (mid == .exponent) := by
  cases s with
  | body =>
    simp only [next?] at h
    split at h
    · next hchar =>
      cases h
      refine ⟨by rw [hchar]; rfl, ?_⟩
      cases hexponent : isExponent hex c <;> rfl
    · cases h
  | exponent =>
    simp only [next?] at h
    split at h
    · next hsign =>
      cases h
      exact ⟨by rw [hsign]; exact Bool.or_true _, isExponent_of_isSign hsign⟩
    · split at h
      · next hdigit =>
        cases h
        obtain ⟨hchar, hexponent⟩ := isNumberChar_of_isDigit hdigit hex
        exact ⟨by rw [hchar]; rfl, hexponent⟩
      · cases h
  | sign =>
    simp only [next?] at h
    split at h
    · next hdigit =>
      cases h
      obtain ⟨hchar, hexponent⟩ := isNumberChar_of_isDigit hdigit hex
      exact ⟨by rw [hchar]; rfl, hexponent⟩
    · cases h

theorem numberLength_append {s : NumberState} (hrest : EndsOperand rest)
    (h : s.after? hex word = some .body) :
    numberLength hex (s == .exponent) (word ++ rest) = word.length := by
  induction word generalizing s with
  | nil =>
    cases h
    cases rest with
    | nil => rfl
    | cons c rest =>
      obtain ⟨_, _, _, _, _, hchar⟩ := isPart_eq_false_of_mem_endChars (hrest c rfl)
      rw [List.nil_append, numberLength, hchar]
      rfl
  | cons c cs ih =>
    obtain ⟨mid, hnext, htail⟩ := NumberState.exists_next? h
    obtain ⟨hcount, hexponent⟩ := NumberState.counts hnext
    rw [List.cons_append, numberLength, if_pos hcount, hexponent, ih htail, List.length_cons]

namespace IsNumber

theorem ne_nil (h : IsNumber word) : word ≠ [] := by
  rintro rfl
  cases h.starts

theorem noBreak_of_after? {s s' : NumberState} (h : s.after? hex word = some s') :
    ∀ c ∈ word, isLineBreak c = false := by
  induction word generalizing s with
  | nil => exact nofun
  | cons c cs ih =>
    obtain ⟨mid, hnext, htail⟩ := NumberState.exists_next? h
    refine List.forall_mem_cons.2 ⟨Bool.eq_false_iff.2 fun hbreak => ?_, ih htail⟩
    have hcount := (NumberState.counts hnext).1
    simp only [isLineBreak, Bool.or_eq_true, beq_iff_eq] at hbreak
    rcases hbreak with rfl | rfl <;> cases s <;> cases hcount

/-- A number begins with a digit or with a point. -/
theorem exists_head (h : IsNumber word) : ∃ c cs, word = c :: cs ∧ c ∈ digitChars ++ ['.'] := by
  have hstarts := h.starts
  cases word with
  | nil => cases hstarts
  | cons c cs =>
    refine ⟨c, cs, rfl, ?_⟩
    simp only [startsNumber, Bool.or_eq_true, Bool.and_eq_true, beq_iff_eq] at hstarts
    rcases hstarts with hdigit | ⟨rfl, _⟩
    · exact List.mem_append_left ['.'] (mem_digitChars hdigit)
    · decide

theorem opens (h : IsNumber word) : OpensOperand word := by
  obtain ⟨c, cs, rfl, hc⟩ := h.exists_head
  have hno : ∀ c ∈ digitChars ++ ['.'], c ∉ endChars := List.all_iff_forall_prop.1 (by decide)
  exact ⟨c, cs, rfl, hno c hc⟩

theorem isPart (h : IsNumber word) : IsPart t word where
  opens := h.opens
  noBreak := noBreak_of_after? h.complete
  head? rest hrest := by
    have hhex : isHex (word ++ rest) = isHex word := by
      refine isHex_append h.ne_nil fun c hc => ?_
      have hno : ∀ c ∈ endChars, c ≠ 'x' ∧ c ≠ 'X' := List.all_iff_forall_prop.1 (by decide)
      exact hno c (hrest c hc)
    have hlen := numberLength_append hrest h.complete
    have hstarts := startsNumber_append h.starts rest
    have hno : ∀ c ∈ digitChars ++ ['.'], c ∉ ['(', ')', ','] ∧ isQuote c = false :=
      List.all_iff_forall_prop.1 (by decide)
    obtain ⟨c, cs, rfl, hc⟩ := h.exists_head
    obtain ⟨hparen, hquote⟩ := hno c hc
    rw [← hhex] at hlen
    refine head?_part hparen ?_
    rw [List.cons_append] at hstarts hlen ⊢
    rw [partLength?, hquote, if_neg Bool.false_ne_true, if_pos hstarts]
    exact congrArg some hlen

/-! ## Changes that keep a number one -/

theorem append (h : IsNumber word)
    (hrest : ∀ c ∈ rest, extendsNumber (isHex word) c = true) : IsNumber (word ++ rest) := by
  have hhex : isHex (word ++ rest) = isHex word := by
    refine isHex_append h.ne_nil fun c hc => ?_
    have := hrest c (List.mem_of_mem_head? hc)
    simp only [extendsNumber, Bool.and_eq_true, bne_iff_ne] at this
    exact ⟨this.1.2, this.2⟩
  refine ⟨startsNumber_append h.starts rest, ?_⟩
  rw [hhex, NumberState.after?_append h.complete]
  exact NumberState.after?_extends hrest

/-- A suffix can be left out. -/
theorem of_append_singleton {c : Char} (h : IsNumber (word ++ [c])) (hdigit : c.isDigit = false)
    (hc : c ≠ 'x' ∧ c ≠ 'X') : IsNumber word := by
  have hstarts : startsNumber word = true := by
    have hstarts := h.starts
    match word with
    | [] => simp [startsNumber, hdigit] at hstarts
    | [a] => simpa [startsNumber, hdigit] using hstarts
    | a :: b :: cs => exact hstarts
  have hne : word ≠ [] := by
    rintro rfl
    cases hstarts
  have hhex : isHex (word ++ [c]) = isHex word := by
    refine isHex_append hne fun d hd => ?_
    cases hd
    exact hc
  have hcomplete := h.complete
  rw [hhex] at hcomplete
  exact ⟨hstarts, NumberState.after?_of_append_singleton hdigit hcomplete⟩

theorem after?_completeFraction {s s' : NumberState} (h : s.after? false word = some s') :
    s.after? false (Number.completeFraction word) = some s' := by
  have hpoint {s mid : NumberState} (h : s.next? false '.' = some mid) : mid = .body := by
    cases s <;> cases h
    rfl
  fun_induction Number.completeFraction word generalizing s with
  | case1 => exact h
  | case2 =>
    obtain ⟨mid, hnext, htail⟩ := NumberState.exists_next? h
    rw [NumberState.after?_cons hnext]
    cases hpoint hnext
    exact htail
  | case3 c cs =>
    obtain ⟨mid, hnext, htail⟩ := NumberState.exists_next? h
    rw [NumberState.after?_cons hnext]
    cases hpoint hnext
    exact htail
  | case4 => exact h
  | case5 c cs _ ih =>
    obtain ⟨mid, hnext, htail⟩ := NumberState.exists_next? h
    rw [NumberState.after?_cons hnext, ih htail]

theorem startsNumber_completeFraction (h : startsNumber word = true) :
    startsNumber (Number.completeFraction word) = true := by
  fun_cases Number.completeFraction word with
  | case1 => cases h
  | case2 => rfl
  | case3 => rfl
  | case4 => exact h
  | case5 c cs hc =>
    simp only [startsNumber, Bool.or_eq_true, Bool.and_eq_true, beq_iff_eq] at h ⊢
    exact h.imp_right fun hpoint => (hc hpoint.1).elim

theorem head?_completeFraction (cs : List Char) :
    (Number.completeFraction cs).head? = cs.head? := by
  fun_cases Number.completeFraction cs <;> rfl

theorem isHex_completeFraction : isHex (Number.completeFraction word) = isHex word := by
  fun_cases Number.completeFraction word with
  | case5 c cs _ => rw [isHex_cons, isHex_cons, head?_completeFraction]
  | _ => rfl

theorem completeFraction (h : IsNumber word) (hhex : isHex word = false) :
    IsNumber (Number.completeFraction word) := by
  refine ⟨startsNumber_completeFraction h.starts, ?_⟩
  have hcomplete := h.complete
  rw [hhex] at hcomplete
  rw [isHex_completeFraction, hhex]
  exact after?_completeFraction hcomplete

/-- Other separators make no difference. -/
theorem separated (h : IsNumber word) :
    IsNumber (word.map fun c => if c == '_' then '\'' else c) := by
  generalize hf : (fun c => if c == '_' then '\'' else c) = f
  have hsame (P : Char → Bool) (hP : P '\'' = P '_') (c : Char) : P (f c) = P c := by
    subst hf
    dsimp only
    split
    · next hc => rw [beq_iff_eq.1 hc, hP]
    · rfl
  have hnext (hex : Bool) (s : NumberState) (c : Char) : s.next? hex (f c) = s.next? hex c := by
    subst hf
    dsimp only
    split
    · next hc =>
      rw [beq_iff_eq.1 hc]
      cases s <;> cases hex <;> rfl
    · rfl
  have hdigit := hsame Char.isDigit rfl
  have hstarts : startsNumber (word.map f) = startsNumber word := by
    cases word with
    | nil => rfl
    | cons c cs =>
      simp only [List.map_cons, startsNumber, hdigit, hsame (· == '.') rfl, List.head?_map,
        Option.any_map]
  have hhex : isHex (word.map f) = isHex word := by
    cases word with
    | nil => rfl
    | cons c cs =>
      simp only [List.map_cons, isHex_cons, hsame (· == '0') rfl, hsame (· == 'x') rfl,
        hsame (· == 'X') rfl, List.head?_map, Option.any_map]
  refine ⟨hstarts.trans h.starts, ?_⟩
  rw [hhex, NumberState.after?, List.foldlM_map]
  simp only [hnext]
  exact h.complete

end IsNumber

/-! ## The parts of a literal -/

/-- The letters that a number may end with. -/
def suffixChars : List Char := ['l', 'L', 'f', 'F', 'd', 'D']

namespace Number

variable {token digits mark body : List Char} {radix : Radix} {suffix : Option Char}

/-- How the parts of a number make up its token. -/
structure PartsOf (n : Number) (token : List Char) : Prop where
  token_eq : token = n.mark ++ n.body ++ n.suffixText
  suffix : ∀ c ∈ n.suffix, c ∈ suffixChars
  hex : n.radix = .hex → n.mark = ['0', 'x'] ∨ n.mark = ['0', 'X']
  binary : n.radix = .binary → n.mark = ['0', 'b'] ∨ n.mark = ['0', 'B']
  decimal : n.radix = .decimal ∨ n.radix = .octal → n.mark = [] ∧ isHex token = false
  octal : n.radix = .octal → ∀ c ∈ n.body, isOctalDigit c = true ∨ c = '_'

theorem splitMark_spec (h : splitMark token = (radix, mark, digits)) :
    token = mark ++ digits ∧ (radix = .hex → mark = ['0', 'x'] ∨ mark = ['0', 'X']) ∧
      (radix = .binary → mark = ['0', 'b'] ∨ mark = ['0', 'B']) ∧ radix ≠ .octal ∧
      (radix = .decimal → mark = [] ∧ isHex token = false) := by
  unfold splitMark at h
  split at h
  · cases h
    exact ⟨rfl, fun _ => .inl rfl, nofun, nofun, nofun⟩
  · cases h
    exact ⟨rfl, fun _ => .inr rfl, nofun, nofun, nofun⟩
  · cases h
    exact ⟨rfl, nofun, fun _ => .inl rfl, nofun, nofun⟩
  · cases h
    exact ⟨rfl, nofun, fun _ => .inr rfl, nofun, nofun⟩
  · next hlower hupper _ _ =>
    cases h
    refine ⟨rfl, nofun, nofun, nofun, fun _ => ⟨rfl, ?_⟩⟩
    match token with
    | [] => rfl
    | [c] => rw [isHex_cons]; exact Bool.and_false _
    | c :: d :: cs =>
      refine Bool.eq_false_iff.2 fun hhex => ?_
      simp only [isHex_cons, List.head?_cons, Option.any_some, Bool.and_eq_true, Bool.or_eq_true,
        beq_iff_eq] at hhex
      obtain ⟨rfl, rfl | rfl⟩ := hhex
      · exact hlower cs rfl
      · exact hupper cs rfl

theorem splitSuffix_spec (h : splitSuffix radix digits = (body, suffix)) :
    digits = body ++ suffix.toList ∧ ∀ c ∈ suffix, c ∈ suffixChars := by
  unfold splitSuffix at h
  split at h
  · next c hlast =>
    split at h
    · next hallows =>
      obtain ⟨ds, rfl⟩ := List.getLast?_eq_some_iff.1 hlast
      rw [List.dropLast_concat] at h
      cases h
      refine ⟨rfl, fun d hd => ?_⟩
      cases hd
      have hletter : isLongSuffix c = true ∨ isFloatSuffix c = true := by
        unfold allowsSuffix at hallows
        split at hallows
        · exact .inl hallows
        · exact Bool.or_eq_true_iff.1 hallows
      simp only [isLongSuffix, isFloatSuffix, Bool.or_eq_true, beq_iff_eq] at hletter
      rcases hletter with (rfl | rfl) | ((rfl | rfl) | rfl) | rfl <;> decide
    · cases h
      exact ⟨(List.append_nil _).symm, nofun⟩
  · cases h
    exact ⟨(List.append_nil _).symm, nofun⟩

theorem partsOf_ofToken (token : List Char) : (ofToken token).PartsOf token := by
  obtain ⟨radix, mark, digits, hmark⟩ : ∃ radix mark digits,
      splitMark token = (radix, mark, digits) := ⟨_, _, _, rfl⟩
  obtain ⟨body, suffix, hsuffix⟩ : ∃ body suffix, splitSuffix radix digits = (body, suffix) :=
    ⟨_, _, rfl⟩
  obtain ⟨rfl, hhex, hbinary, hoctal, hdecimal⟩ := splitMark_spec hmark
  obtain ⟨rfl, hletter⟩ := splitSuffix_spec hsuffix
  simp only [ofToken, hmark, hsuffix]
  split
  · next hisOctal =>
    simp only [isOctal, Bool.and_eq_true, beq_iff_eq, List.all_eq_true, Bool.or_eq_true]
      at hisOctal
    obtain ⟨⟨⟨⟨hradix, _⟩, _⟩, _⟩, hall⟩ := hisOctal
    exact ⟨(List.append_assoc ..).symm, hletter, nofun, nofun, fun _ => hdecimal hradix,
      fun _ => hall⟩
  · exact ⟨(List.append_assoc ..).symm, hletter, hhex, hbinary,
      fun h => hdecimal (h.resolve_right hoctal), fun h => absurd h hoctal⟩

namespace PartsOf

variable {n : Number} {out : List Char}

theorem extendsNumber_of_mem {c : Char} (h : c ∈ ['.', '0'] ++ suffixChars) (hex : Bool) :
    extendsNumber hex c = true := by
  have hall : ∀ c ∈ ['.', '0'] ++ suffixChars, extendsNumber hex c = true := by
    cases hex <;> exact List.all_iff_forall_prop.1 (by decide)
  exact hall c h

theorem extendsNumber_of_isDigit {c : Char} (h : c.isDigit = true) (hex : Bool) :
    extendsNumber hex c = true := by
  have hall : ∀ d ∈ digitChars, extendsNumber hex d = true := by
    cases hex <;> exact List.all_iff_forall_prop.1 (by decide)
  exact hall c (mem_digitChars h)

theorem isDigit_of_isOctalDigit {c : Char} (h : isOctalDigit c = true) : c.isDigit = true := by
  simp only [isOctalDigit, Bool.and_eq_true, decide_eq_true_eq] at h
  refine Char.isDigit_iff_toNat.2 ⟨h.1, Nat.le_trans h.2 (by decide)⟩

theorem extends_suffixText (h : n.PartsOf token) (hex : Bool) :
    ∀ c ∈ n.suffixText, extendsNumber hex c = true := by
  intro c hc
  exact extendsNumber_of_mem (List.mem_append_right _ (h.suffix c (Option.mem_toList.1 hc))) hex

/-- Without its suffix it is a number still. -/
theorem isNumber (h : n.PartsOf token) (htoken : IsNumber token) : IsNumber (n.mark ++ n.body) := by
  rw [h.token_eq] at htoken
  cases hsuffix : n.suffix with
  | none =>
    rw [suffixText, hsuffix, Option.toList_none, List.append_nil] at htoken
    exact htoken
  | some c =>
    rw [suffixText, hsuffix, Option.toList_some] at htoken
    have hletter : ∀ c ∈ suffixChars, c.isDigit = false ∧ c ≠ 'x' ∧ c ≠ 'X' :=
      List.all_iff_forall_prop.1 (by decide)
    obtain ⟨hdigit, hmark⟩ := hletter c (h.suffix c hsuffix)
    exact htoken.of_append_singleton hdigit hmark

theorem isNumber_body (h : n.PartsOf token) (htoken : IsNumber token)
    (hradix : n.radix = .decimal ∨ n.radix = .octal) :
    IsNumber n.body ∧ isHex n.body = false := by
  obtain ⟨hmark, hhex⟩ := h.decimal hradix
  have hbody := h.isNumber htoken
  rw [hmark, List.nil_append] at hbody
  refine ⟨hbody, ?_⟩
  have hno : ∀ c ∈ suffixChars, c ≠ 'x' ∧ c ≠ 'X' := List.all_iff_forall_prop.1 (by decide)
  rw [h.token_eq, hmark, List.nil_append, isHex_append hbody.ne_nil] at hhex
  · exact hhex
  · exact fun c hc => hno c (h.suffix c (Option.mem_toList.1 (List.mem_of_mem_head? hc)))

theorem isNumber_csharp? (h : n.PartsOf token) (htoken : IsNumber token)
    (hout : n.csharp? token = some out) : IsNumber out := by
  unfold csharp? at hout
  split at hout
  · split at hout
    · cases hout
      have hmark : IsNumber ['0', 'x'] := ⟨rfl, rfl⟩
      have hall : ∀ c ∈ upperHexChars, extendsNumber true c = true :=
        List.all_iff_forall_prop.1 (by decide)
      exact (hmark.append fun c hc => hall c (mem_upperHex hc)).append (h.extends_suffixText _)
    · cases hout
  · next hradix =>
    cases hout
    obtain ⟨hbody, hhex⟩ := h.isNumber_body htoken (.inl hradix)
    exact (hbody.completeFraction hhex).append (h.extends_suffixText _)
  · split at hout
    · cases hout
    · cases hout
      exact htoken
  · cases hout
    exact htoken

theorem isNumber_swift (h : n.PartsOf token) (htoken : IsNumber token) : IsNumber n.swift := by
  have hnumber := h.isNumber htoken
  unfold swift
  split
  · next hradix =>
    rcases h.hex hradix with hmark | hmark
    · rwa [hmark] at hnumber
    · rw [hmark] at hnumber
      exact ⟨rfl, hnumber.complete⟩
  · next hradix =>
    rcases h.binary hradix with hmark | hmark
    · rwa [hmark] at hnumber
    · rw [hmark] at hnumber
      exact ⟨rfl, hnumber.complete⟩
  · next hradix =>
    split
    · exact ⟨rfl, rfl⟩
    · have hmark : IsNumber ['0', 'o'] := ⟨rfl, rfl⟩
      refine hmark.append fun c hc => ?_
      have hbody : c ∈ n.body :=
        (List.dropWhile_sublist _).subset ((List.dropWhile_sublist _).subset hc)
      rcases h.octal hradix c hbody with hoctal | rfl
      · exact extendsNumber_of_isDigit (isDigit_of_isOctalDigit hoctal) _
      · rfl
  · next hradix =>
    obtain ⟨hbody, hhex⟩ := h.isNumber_body htoken (.inl hradix)
    have hfraction := hbody.completeFraction hhex
    have hstart : IsNumber (if (completeFraction n.body).head? == some '.' then
        '0' :: completeFraction n.body else completeFraction n.body) := by
      split
      · next hpoint =>
        obtain ⟨cs, hcs⟩ := List.head?_eq_some_iff.1 (beq_iff_eq.1 hpoint)
        rw [hcs] at hfraction ⊢
        exact ⟨rfl, hfraction.complete⟩
      · exact hfraction
    dsimp only
    split
    · exact hstart.append fun c hc => extendsNumber_of_mem (List.mem_append_left _ hc) _
    · exact hstart

theorem cppParts_spec (body : List Char) (fraction : Bool) (suffix : Option Char) :
    ∃ rest, (cppParts body fraction suffix).1 ++ (cppParts body fraction suffix).2 = body ++ rest ∧
      ∀ c ∈ rest, c ∈ ['.', '0'] ++ suffixChars := by
  unfold cppParts
  split
  · exact ⟨['L', 'L'], rfl, by simp [suffixChars]⟩
  · exact ⟨['L', 'L'], rfl, by simp [suffixChars]⟩
  · cases fraction
    · exact ⟨['.', '0', 'f'], List.append_assoc .., by simp [suffixChars]⟩
    · exact ⟨['f'], rfl, by simp [suffixChars]⟩
  · cases fraction
    · exact ⟨['.', '0', 'f'], List.append_assoc .., by simp [suffixChars]⟩
    · exact ⟨['F'], rfl, by simp [suffixChars]⟩
  · cases fraction
    · exact ⟨['.', '0'], List.append_nil _, by simp⟩
    · exact ⟨[], rfl, nofun⟩
  · cases fraction
    · exact ⟨['.', '0'], List.append_nil _, by simp⟩
    · exact ⟨[], rfl, nofun⟩
  · exact ⟨[], rfl, nofun⟩

theorem isNumber_cpp (h : n.PartsOf token) (htoken : IsNumber token) : IsNumber n.cpp := by
  have hnumber := (h.isNumber htoken).separated
  have hmark : n.mark.map (fun c => if c == '_' then '\'' else c) = n.mark := by
    cases hradix : n.radix with
    | hex => rcases h.hex hradix with hmark | hmark <;> rw [hmark] <;> rfl
    | binary => rcases h.binary hradix with hmark | hmark <;> rw [hmark] <;> rfl
    | decimal => rw [(h.decimal (.inl hradix)).1]; rfl
    | octal => rw [(h.decimal (.inr hradix)).1]; rfl
  rw [List.map_append, hmark] at hnumber
  obtain ⟨rest, hparts, hrest⟩ := cppParts_spec (n.body.map fun c => if c == '_' then '\'' else c)
    (hasFraction n.body) n.suffix
  simp only [cpp]
  rw [List.append_assoc, hparts, ← List.append_assoc]
  exact hnumber.append fun c hc => extendsNumber_of_mem (hrest c hc) _

end PartsOf

end Number

/-- What is written for a number literal is a number. -/
theorem isNumber_of_numberLiteral? {token out : List Char} (h : IsNumber token)
    (hout : numberLiteral? t token = some out) : IsNumber out := by
  have hparts := Number.partsOf_ofToken token
  cases t with
  | csharp => exact hparts.isNumber_csharp? h hout
  | swift =>
    cases hout
    exact hparts.isNumber_swift h
  | cpp =>
    cases hout
    exact hparts.isNumber_cpp h

end Lockstep.Target
