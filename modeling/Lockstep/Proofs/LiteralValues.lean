import Lockstep.Proofs.LiteralUnits
import Lockstep.Render.Expr

/-!
# Literals keep their value

A string or character literal of Java becomes a literal of C# or Swift that denotes the same code
units. In Swift this fails for half of a surrogate pair without the other half, and then there is no
literal. The value changes in one case: where an octal escape goes on with a digit that is spelled
as a Unicode escape, the rendering ends the octal escape too early.

- `csharpEscape?`, `swiftEscape?`, `bodyUnits?`: what literals of the targets denote.
- `bodyUnits?_render?`: the pieces of a body keep their value.
- `render?_swift_eq_none_iff`: when there is no literal in Swift.
- `LiteralKind.render_keeps_units`: the theorem about literals.
-/

namespace Lockstep

open Target Text

namespace Target

/-! ## What literals of the targets denote -/

/-- A backslash with one of the characters, before what follows. -/
def simpleEscape? (escapes : List Char) (c : Char) (rest : List Char) :
    Option (List Nat × List Char) :=
  if escapes.contains c then (simpleValue? c).map fun v => ([v], rest) else none

/-- What an escape of C# denotes, after its backslash, and what follows. -/
def csharpEscape? : List Char → Option (List Nat × List Char)
  | [] => none
  | 'u' :: rest =>
    if rest.length < 4 then none
    else (ofHex? (rest.take 4)).map fun v => ([v], rest.drop 4)
  | c :: rest => simpleEscape? ['b', 't', 'n', 'f', 'r', '"', '\'', '\\'] c rest

/-- What an escape of Swift denotes, after its backslash, and what follows. The number in braces is
that of a character. -/
def swiftEscape? : List Char → Option (List Nat × List Char)
  | [] => none
  | 'u' :: '\x7b' :: rest =>
    let digits := rest.takeWhile (· != '\x7d')
    match ofHex? digits, rest.drop digits.length with
    | some v, '\x7d' :: after =>
      if 1 ≤ digits.length && digits.length ≤ 8 && v < 0x110000 && !isSurrogate v then
        some (utf16 v, after)
      else none
    | _, _ => none
  | c :: rest => simpleEscape? ['t', 'n', 'r', '"', '\'', '\\'] c rest

/-- What an escape of C# or Swift denotes. -/
def escapeUnits? : Target → List Char → Option (List Nat × List Char)
  | .csharp, cs => csharpEscape? cs
  | .swift, cs => swiftEscape? cs
  | .cpp, _ => none

theorem eq_of_simpleEscape? {escapes rest after : List Char} {c : Char} {units : List Nat}
    (h : simpleEscape? escapes c rest = some (units, after)) : after = rest := by
  unfold simpleEscape? at h
  split at h
  · obtain ⟨_, _, ⟨⟩⟩ := Option.map_eq_some_iff.1 h
    rfl
  · cases h

theorem csharpEscape?_length {cs after : List Char} {units : List Nat}
    (h : csharpEscape? cs = some (units, after)) : after.length < cs.length := by
  unfold csharpEscape? at h
  split at h
  · cases h
  · split at h
    · cases h
    · obtain ⟨_, _, ⟨⟩⟩ := Option.map_eq_some_iff.1 h
      simp only [List.length_drop, List.length_cons]
      omega
  · rw [eq_of_simpleEscape? h]
    exact Nat.lt_succ_self _

theorem swiftEscape?_length {cs after : List Char} {units : List Nat}
    (h : swiftEscape? cs = some (units, after)) : after.length < cs.length := by
  unfold swiftEscape? at h
  split at h
  · cases h
  · dsimp only at h
    split at h
    · next hafter =>
      split at h
      · cases h
        have hlength := congrArg List.length hafter
        simp only [List.length_drop, List.length_cons] at hlength ⊢
        omega
      · cases h
    · cases h
  · rw [eq_of_simpleEscape? h]
    exact Nat.lt_succ_self _

theorem escapeUnits?_length {t : Target} {cs after : List Char} {units : List Nat}
    (h : escapeUnits? t cs = some (units, after)) : after.length < cs.length := by
  cases t with
  | csharp => exact csharpEscape?_length h
  | swift => exact swiftEscape?_length h
  | cpp => cases h

/-- The code units that the body of a literal of C# or Swift denotes, if all its escapes are
escapes of the target and it does not end early. -/
def bodyUnits? (t : Target) (quote : Char) (cs : List Char) : Option (List Nat) :=
  match cs with
  | [] => some []
  | '\\' :: rest =>
    match _h : escapeUnits? t rest with
    | some (units, after) => (bodyUnits? t quote after).map (units ++ ·)
    | none => none
  | c :: rest =>
    if c == quote || isLineBreak c then none
    else (bodyUnits? t quote rest).map (utf16 c.toNat ++ ·)
  termination_by cs.length
  decreasing_by
    · have := escapeUnits?_length _h
      simp only [List.length_cons]
      omega
    · simp

/-- The quotes of a literal of the target. -/
def quoteOf : Target → Tree.LiteralKind → Char
  | .csharp, .character => '\''
  | _, _ => '"'

/-! ## Numbers in base 16 -/

theorem ofHex?_upperHex (n : Nat) : ofHex? (upperHex n) = some n := by
  have hdigit (d : Nat) (hd : d < 16) : hexValue? (Nat.digitChar d).toUpper = some d := by
    have hall : ∀ d : Fin 16, hexValue? (Nat.digitChar d).toUpper = some d.val := by decide
    exact hall ⟨d, hd⟩
  induction n using Nat.strongRecOn with
  | ind n ih =>
    rw [upperHex, lowerHex, Nat.toDigits_eq_if (by decide)]
    split
    · next hlt =>
      rw [List.map_singleton, ofHex?, List.foldlM_cons, hdigit n hlt, Option.map_some,
        Nat.zero_mul, Nat.zero_add]
      rfl
    · next hle =>
      have hfront : ofHex? ((Nat.toDigits 16 (n / 16)).map Char.toUpper) = some (n / 16) :=
        ih (n / 16) (by omega)
      rw [List.map_append, List.map_singleton, ofHex?, List.foldlM_append, ← ofHex?, hfront]
      show Option.bind ((hexValue? _).map (n / 16 * 16 + ·)) pure = some n
      rw [hdigit (n % 16) (Nat.mod_lt n (by decide)), Option.map_some, Option.bind_some]
      exact congrArg some (Nat.div_add_mod' n 16)

theorem ofHex?_padded (width n : Nat) : ofHex? (padded width (upperHex n)) = some n := by
  rw [padded]
  generalize width - (upperHex n).length = zeros
  induction zeros with
  | zero => exact ofHex?_upperHex n
  | succ zeros ih =>
    rw [List.replicate_succ, List.cons_append, ofHex?, List.foldlM_cons]
    exact ih

theorem length_upperHex_le {n k : Nat} (hk : 0 < k) (h : n < 16 ^ k) : (upperHex n).length ≤ k := by
  rw [upperHex, lowerHex, List.length_map]
  exact (Nat.length_toDigits_le_iff (by decide) hk).2 h

theorem length_upperHex_pos (n : Nat) : 0 < (upperHex n).length := by
  rw [upperHex, lowerHex, List.length_map]
  exact Nat.length_toDigits_pos

/-! ## What is written for a code point -/

variable {t : Target} {text : List Char} {v : Nat} {quote : Char}

/-- The target has an escape for the code point. -/
def HasCodePoint : Target → Nat → Prop
  | .csharp, v => v < 0x10000
  | .swift, v => v < 0x110000 ∧ isSurrogate v = false
  | .cpp, _ => False

theorem csharpEscape?_codePoint (h : v < 0x10000) :
    csharpEscape? ('u' :: padded 4 (upperHex v) ++ text) = some ([v], text) := by
  have hlength : (padded 4 (upperHex v)).length = 4 := by
    rw [padded_length, Nat.max_eq_left (length_upperHex_le (by decide) h)]
  obtain ⟨hfour, htake, hdrop⟩ := four_append hlength text
  rw [List.cons_append, csharpEscape?, if_neg hfour, htake, hdrop, ofHex?_padded, Option.map_some]

theorem swiftEscape?_codePoint (h : v < 0x110000) (hv : isSurrogate v = false) :
    swiftEscape? ('u' :: '\x7b' :: (upperHex v ++ '\x7d' :: text)) = some (utf16 v, text) := by
  have hdigits : ∀ c ∈ upperHex v, (c != '\x7d') = true := by
    intro c hc
    have hall : upperHexChars.all (· != '\x7d') = true := by decide
    exact List.all_eq_true.1 hall c (mem_upperHex hc)
  have htake : (upperHex v ++ '\x7d' :: text).takeWhile (· != '\x7d') = upperHex v := by
    rw [List.takeWhile_append_of_pos hdigits, List.takeWhile_cons_of_neg (by decide),
      List.append_nil]
  have hlength : (upperHex v).length ≤ 8 := length_upperHex_le (by decide) (by omega)
  have hpos : 1 ≤ (upperHex v).length := length_upperHex_pos v
  simp only [swiftEscape?, htake, ofHex?_upperHex, List.drop_left, hpos, hlength, h, hv,
    decide_true, Bool.and_self, Bool.not_false, if_true]

theorem bodyUnits?_escape {units : List Nat} {cs after : List Char}
    (h : escapeUnits? t cs = some (units, after)) :
    bodyUnits? t quote ('\\' :: cs) = (bodyUnits? t quote after).map (units ++ ·) := by
  rw [bodyUnits?]
  split
  · next hp =>
    rw [h] at hp
    cases hp
    rfl
  · next hp =>
    rw [h] at hp
    cases hp

theorem bodyUnits?_plain {c : Char} (hslash : c ≠ '\\') (hquote : c ≠ quote)
    (hbreak : isLineBreak c = false) :
    bodyUnits? t quote (c :: text) = (bodyUnits? t quote text).map (utf16 c.toNat ++ ·) := by
  rw [bodyUnits?]
  · rw [beq_false_of_ne hquote, hbreak, Bool.or_self, if_neg Bool.false_ne_true]
  · exact hslash

theorem bodyUnits?_codePoint (h : HasCodePoint t v) :
    bodyUnits? t quote (Piece.codePoint t v ++ text) =
      (bodyUnits? t quote text).map (utf16 v ++ ·) := by
  cases t with
  | csharp =>
    have hunits : utf16 v = [v] := if_pos h
    rw [hunits]
    exact bodyUnits?_escape (csharpEscape?_codePoint h)
  | swift =>
    have hescape : swiftEscape? ('u' :: '\x7b' :: (upperHex v ++ '\x7d' :: text)) = _ :=
      swiftEscape?_codePoint h.1 h.2
    rw [Piece.codePoint]
    simp only [List.cons_append, List.append_assoc, List.nil_append]
    exact bodyUnits?_escape hescape
  | cpp => exact h.elim

/-! ## Pieces keep their value -/

namespace Piece

variable {q : Quote} {p : Piece} {ps : List Piece} {out : List Char}

def units : Piece → List Nat
  | .plain c => utf16 c.toNat
  | .simple c => (simpleValue? c).toList
  | .octal digits => [ofDigits 8 digits]
  | .unit v => [v]

/-- What is known of the pieces of a body with these quotes. -/
def IsRead (quote : Char) : Piece → Prop
  | .plain c => c ≠ quote ∧ c ≠ '\\' ∧ isLineBreak c = false
  | .simple c => (simpleValue? c).isSome = true
  | .octal digits => ofDigits 8 digits < 0x200
  | .unit v => v < 0x10000

theorem bodyUnits?_renderPlain {c : Char} (h : (Piece.plain c).IsRead (source q)) (ht : t ≠ .cpp) :
    bodyUnits? t (written q) (renderPlain q c ++ text) =
      (bodyUnits? t (written q) text).map (units (.plain c) ++ ·) := by
  obtain ⟨hquote, hslash, hbreak⟩ := h
  unfold renderPlain
  split
  · next hc =>
    obtain ⟨_, rfl⟩ : _ ∧ c = '"' := by simpa using hc
    refine bodyUnits?_escape ?_
    cases t with
    | csharp | swift => rfl
    | cpp => exact absurd rfl ht
  · next hc =>
    refine bodyUnits?_plain hslash ?_ hbreak
    cases q with
    | double => exact hquote
    | single => exact hquote
    | singleAsDouble => exact fun heq => hc (by rw [heq]; rfl)

/-- The escapes of a backslash and a character that the targets share with Java. -/
theorem escapeUnits?_simple {c : Char} {v : Nat} (h : simpleValue? c = some v) (hs : c ≠ 's')
    (hb : t = .swift → c ≠ 'b') (hf : t = .swift → c ≠ 'f') (ht : t ≠ .cpp) :
    escapeUnits? t (c :: text) = some ([v], text) := by
  unfold simpleValue? at h
  split at h <;> cases h <;> cases t <;>
    first
    | rfl
    | exact absurd rfl hs
    | exact absurd rfl (hb rfl)
    | exact absurd rfl (hf rfl)
    | exact absurd rfl ht

theorem bodyUnits?_renderSimple {c : Char} (h : (Piece.simple c).IsRead (source q))
    (ht : t ≠ .cpp) :
    bodyUnits? t (written q) (renderSimple t q c ++ text) =
      (bodyUnits? t (written q) text).map (units (.simple c) ++ ·) := by
  obtain ⟨v, hv⟩ := Option.isSome_iff_exists.1 h
  rw [units, hv]
  unfold renderSimple
  split
  · next hc =>
    obtain rfl := beq_iff_eq.1 hc
    cases hv
    exact bodyUnits?_plain (by decide) (by cases q <;> decide) rfl
  · next hs =>
    have hs : c ≠ 's' := fun heq => hs (beq_iff_eq.2 heq)
    split
    · next hc =>
      obtain ⟨rfl, rfl⟩ : c = 'b' ∧ t = .swift := by simpa using hc
      cases hv
      exact bodyUnits?_codePoint ⟨by decide, rfl⟩
    · next hb =>
      split
      · next hc =>
        obtain ⟨rfl, rfl⟩ : c = 'f' ∧ t = .swift := by simpa using hc
        cases hv
        exact bodyUnits?_codePoint ⟨by decide, rfl⟩
      · next hf =>
        split
        · next hc =>
          obtain ⟨rfl, rfl⟩ : c = '\'' ∧ q = .singleAsDouble := by simpa using hc
          cases hv
          exact bodyUnits?_plain (by decide) (by decide) rfl
        · refine bodyUnits?_escape (escapeUnits?_simple hv hs ?_ ?_ ht)
          · rintro rfl rfl
            exact hb rfl
          · rintro rfl rfl
            exact hf rfl

theorem renderOctal_eq (ht : t ≠ .cpp) (digits : List Char) :
    renderOctal t digits = codePoint t (ofDigits 8 digits) := by
  cases t with
  | csharp | swift => rfl
  | cpp => exact absurd rfl ht

theorem hasCodePoint_of_lt (ht : t ≠ .cpp) (hv : v < 0x200) : HasCodePoint t v ∧ utf16 v = [v] := by
  have hunits : utf16 v = [v] := if_pos (by omega)
  refine ⟨?_, hunits⟩
  cases t with
  | csharp => exact Nat.lt_trans hv (by decide)
  | swift =>
    have hbelow : v < 0xd800 := Nat.lt_trans hv (by decide)
    exact ⟨Nat.lt_trans hv (by decide), isSurrogate_eq_false_iff.2 (.inl hbelow)⟩
  | cpp => exact absurd rfl ht

/-- What is written for the pieces of a body denotes what they denote. -/
theorem bodyUnits?_render? (ht : t ≠ .cpp) (h : render? t q ps = some out)
    (hps : ∀ p ∈ ps, p.IsRead (source q)) :
    bodyUnits? t (written q) out = some (ps.flatMap units) := by
  fun_induction render? t q ps generalizing out with
  | case1 =>
    cases h
    rw [bodyUnits?]
    rfl
  | case2 c rest ih =>
    obtain ⟨body, hbody, rfl⟩ := Option.map_eq_some_iff.1 h
    obtain ⟨hp, hrest⟩ := List.forall_mem_cons.1 hps
    rw [bodyUnits?_renderPlain hp ht, ih hbody hrest]
    rfl
  | case3 c rest ih =>
    obtain ⟨body, hbody, rfl⟩ := Option.map_eq_some_iff.1 h
    obtain ⟨hp, hrest⟩ := List.forall_mem_cons.1 hps
    rw [bodyUnits?_renderSimple hp ht, ih hbody hrest]
    rfl
  | case4 digits rest ih =>
    obtain ⟨body, hbody, rfl⟩ := Option.map_eq_some_iff.1 h
    obtain ⟨hp, hrest⟩ := List.forall_mem_cons.1 hps
    obtain ⟨hpoint, hunits⟩ := hasCodePoint_of_lt ht hp
    rw [renderOctal_eq ht, bodyUnits?_codePoint hpoint, ih hbody hrest, hunits]
    rfl
  | case5 v rest hc ih =>
    obtain ⟨body, hbody, rfl⟩ := Option.map_eq_some_iff.1 h
    obtain ⟨hp, hrest⟩ := List.forall_mem_cons.1 hps
    have hv : v < 0x10000 := hp
    have hunits : utf16 v = [v] := if_pos hv
    have hpoint : HasCodePoint t v := by
      cases t with
      | csharp => exact hv
      | swift => exact ⟨Nat.lt_trans hv (by decide), by simpa using hc⟩
      | cpp => exact absurd rfl ht
    rw [bodyUnits?_codePoint hpoint, ih hbody hrest, hunits]
    rfl
  | case6 v hc hhigh low rest hlow ih =>
    obtain ⟨body, hbody, rfl⟩ := Option.map_eq_some_iff.1 h
    obtain ⟨-, htail⟩ := List.forall_mem_cons.1 hps
    obtain ⟨-, hrest⟩ := List.forall_mem_cons.1 htail
    have hpoint : HasCodePoint t (pairValue v low) := by
      cases t with
      | csharp => exact absurd rfl hc
      | swift => exact ⟨(pairValue_bounds hhigh hlow).2, isSurrogate_pairValue hhigh hlow⟩
      | cpp => exact absurd rfl ht
    rw [bodyUnits?_codePoint hpoint, ih hbody hrest, utf16_pairValue hhigh hlow]
    rfl
  | case7 => cases h
  | case8 => cases h
  | case9 => cases h

theorem exists_render?_csharp (q : Quote) (ps : List Piece) :
    ∃ out, render? .csharp q ps = some out := by
  induction ps with
  | nil => exact ⟨[], rfl⟩
  | cons p ps ih =>
    obtain ⟨out, hout⟩ := ih
    cases p with
    | plain | simple | octal =>
      rw [render?, hout]
      exact ⟨_, rfl⟩
    | unit =>
      rw [render?.eq_def]
      simp [hout]

/-- The code unit of a Unicode escape. -/
def escaped? : Piece → Option Nat
  | .unit v => some v
  | _ => none

end Piece

/-! ## Surrogate pairs -/

/-- Of the code units that are spelled as Unicode escapes, in their order, with `none` for what else
there is: some half of a surrogate pair is not beside the other half. -/
def HasLoneHalf (escapes : List (Option Nat)) : Prop :=
  ∃ before v after, escapes = before ++ some v :: after ∧
    (isHighSurrogate v = true ∧
        (∀ low, after.head? = some (some low) → isLowSurrogate low = false) ∨
      isLowSurrogate v = true ∧
        ∀ high, before.getLast? = some (some high) → isHighSurrogate high = false)

section

variable {escape : Option Nat} {escapes : List (Option Nat)} {high low : Nat}

/-- No code unit is both halves. -/
theorem not_both_surrogates (v : Nat) : isHighSurrogate v = false ∨ isLowSurrogate v = false := by
  simp only [isHighSurrogate, isLowSurrogate, Bool.and_eq_false_iff, decide_eq_false_iff_not]
  omega

/-- A lone half stays alone behind others, if the last of these is no first half. -/
theorem HasLoneHalf.append (h : HasLoneHalf escapes) (front : List (Option Nat))
    (hfront : ∀ high, front.getLast? = some (some high) → isHighSurrogate high = false) :
    HasLoneHalf (front ++ escapes) := by
  obtain ⟨before, v, after, rfl, halone⟩ := h
  refine ⟨front ++ before, v, after, (List.append_assoc ..).symm, halone.imp_right ?_⟩
  rintro ⟨hlow, hbefore⟩
  refine ⟨hlow, fun high hlast => ?_⟩
  rw [List.getLast?_append] at hlast
  cases hb : before.getLast? with
  | none => exact hfront high (by rwa [hb] at hlast)
  | some last =>
    rw [hb] at hlast
    exact hbefore high (hb.trans hlast)

theorem hasLoneHalf_cons (h : ∀ v ∈ escape, isSurrogate v = false) :
    HasLoneHalf (escape :: escapes) ↔ HasLoneHalf escapes := by
  refine ⟨?_, fun hlone => hlone.append [escape] ?_⟩
  · rintro ⟨before, v, after, heq, halone⟩
    rcases List.cons_eq_append_iff.1 heq with ⟨rfl, hfirst⟩ | ⟨before, rfl, rfl⟩
    · cases hfirst
      obtain ⟨hhigh, hlow⟩ := Bool.or_eq_false_iff.1 (h v rfl)
      rw [hhigh, hlow] at halone
      simp at halone
    · refine ⟨before, v, after, rfl, halone.imp_right ?_⟩
      rintro ⟨hlow, hbefore⟩
      refine ⟨hlow, fun high hlast => hbefore high ?_⟩
      rw [List.getLast?_cons, hlast]
      rfl
  · rintro high ⟨⟩
    exact (Bool.or_eq_false_iff.1 (h high rfl)).1

theorem hasLoneHalf_none : HasLoneHalf (none :: escapes) ↔ HasLoneHalf escapes :=
  hasLoneHalf_cons nofun

theorem hasLoneHalf_pair (hh : isHighSurrogate high = true) (hl : isLowSurrogate low = true) :
    HasLoneHalf (some high :: some low :: escapes) ↔ HasLoneHalf escapes := by
  have hnotLow : isLowSurrogate high = false :=
    (not_both_surrogates high).resolve_left (by simp [hh])
  have hnotHigh : isHighSurrogate low = false :=
    (not_both_surrogates low).resolve_right (by simp [hl])
  refine ⟨?_, fun hlone => hlone.append [some high, some low] ?_⟩
  · rintro ⟨before, v, after, heq, halone⟩
    rcases List.cons_eq_append_iff.1 heq with ⟨rfl, hfirst⟩ | ⟨before, rfl, htail⟩
    · cases hfirst
      rcases halone with ⟨-, hafter⟩ | ⟨hlow, -⟩
      · rw [hafter low rfl] at hl
        cases hl
      · rw [hnotLow] at hlow
        cases hlow
    · rcases List.cons_eq_append_iff.1 htail with ⟨rfl, hfirst⟩ | ⟨before, rfl, rfl⟩
      · cases hfirst
        rcases halone with ⟨hhigh, -⟩ | ⟨-, hbefore⟩
        · rw [hnotHigh] at hhigh
          cases hhigh
        · rw [hbefore high rfl] at hh
          cases hh
      · refine ⟨before, v, after, rfl, halone.imp_right ?_⟩
        rintro ⟨hlow, hbefore⟩
        refine ⟨hlow, fun high hlast => hbefore high ?_⟩
        rw [List.getLast?_cons, List.getLast?_cons, hlast]
        rfl
  · rintro last ⟨⟩
    exact hnotHigh

end

/-- Swift has no body for pieces with a lone half of a surrogate pair, and only for these. -/
theorem Piece.render?_swift_eq_none_iff {q : Quote} (ps : List Piece) :
    render? .swift q ps = none ↔ HasLoneHalf (ps.map escaped?) := by
  fun_induction render? .swift q ps with
  | case1 =>
    constructor
    · rintro ⟨⟩
    · rintro ⟨before, v, after, heq, -⟩
      cases before <;> cases heq
  | case2 c rest ih | case3 c rest ih | case4 c rest ih =>
    rw [Option.map_eq_none_iff, ih, List.map_cons]
    exact hasLoneHalf_none.symm
  | case5 v rest hc ih =>
    have hv : isSurrogate v = false := by simpa using hc
    rw [Option.map_eq_none_iff, ih, List.map_cons]
    exact (hasLoneHalf_cons fun u hu => Option.some.inj hu ▸ hv).symm
  | case6 v hc hhigh low rest hlow ih =>
    rw [Option.map_eq_none_iff, ih, List.map_cons, List.map_cons]
    exact (hasLoneHalf_pair hhigh hlow).symm
  | case7 v hc hhigh low rest hlow =>
    refine ⟨fun _ => ⟨[], v, _, rfl, .inl ⟨hhigh, ?_⟩⟩, fun _ => rfl⟩
    rintro u ⟨⟩
    simpa using hlow
  | case8 v rest hc hhigh hnone =>
    refine ⟨fun _ => ⟨[], v, _, rfl, .inl ⟨hhigh, fun low hlow => ?_⟩⟩, fun _ => rfl⟩
    cases rest with
    | nil => cases hlow
    | cons p rest =>
      cases p with
      | unit u => exact absurd rfl (hnone u rest)
      | plain | simple | octal => cases hlow
  | case9 v rest hc hhigh =>
    have hlow : isLowSurrogate v = true := by
      simpa [isSurrogate, hhigh] using hc
    refine ⟨fun _ => ⟨[], v, _, rfl, .inr ⟨hlow, ?_⟩⟩, fun _ => rfl⟩
    rintro high ⟨⟩

/-! ## Literals -/

variable {es : List Element}

theorem ofDigits_octal_lt {digits : List Char} (h : ∀ c ∈ digits, Number.isOctalDigit c = true) :
    ofDigits 8 digits < 8 ^ digits.length := by
  have hfrom : ∀ n, digits.foldl (fun n c => n * 8 + digitValue c) n <
      (n + 1) * 8 ^ digits.length := by
    induction digits with
    | nil => simp
    | cons c cs ih =>
      intro n
      obtain ⟨hc, hcs⟩ := List.forall_mem_cons.1 h
      have hdigit : digitValue c < 8 := by
        rw [Number.isOctalDigit, Bool.and_eq_true, decide_eq_true_eq, decide_eq_true_eq] at hc
        exact Nat.lt_of_le_of_lt (toNat_sub_le hc.2) (by decide)
      calc (c :: cs).foldl (fun n c => n * 8 + digitValue c) n
        _ < (n * 8 + digitValue c + 1) * 8 ^ cs.length := ih hcs _
        _ ≤ (n + 1) * 8 ^ (c :: cs).length := digit_mul_pow_le hdigit n cs.length
  have hzero := hfrom 0
  rwa [Nat.zero_add, Nat.one_mul] at hzero

theorem Element.length_octal_le {first : Char} {more : List Char}
    (h : (octal first more).IsValid quote) : (first :: more).length ≤ 3 := by
  have hlength : more.length ≤ moreOctal first := h.2
  unfold moreOctal at hlength
  rw [List.length_cons]
  split at hlength <;> omega

/-- The pieces that an element is read as denote what the element does. -/
theorem Element.units_piece {e : Element} (h : e.IsValid quote) :
    e.piece.IsRead quote ∧ e.piece.units = e.units ∧ e.piece.escaped? = e.unit? := by
  cases e with
  | plain c => exact ⟨h, rfl, rfl⟩
  | simple c => exact ⟨h, rfl, rfl⟩
  | octal first more =>
    refine ⟨?_, rfl, rfl⟩
    calc ofDigits 8 (first :: more) < 8 ^ (first :: more).length := ofDigits_octal_lt h.1
      _ ≤ 8 ^ 3 := Nat.pow_le_pow_right (by decide) (length_octal_le h)
  | unicode more digits =>
    obtain ⟨hlength, v, hvalue, -⟩ := h
    have hv := ofHex?_lt hvalue
    rw [hlength] at hv
    rw [piece, units, unit?, hvalue]
    exact ⟨hv, rfl, rfl⟩

/-- A body is read as pieces that denote what its elements do. -/
theorem IsBody.literalBody? (h : IsBody quote es) (t : Target) (q : Quote) :
    literalBody? t q (spelling es) = Piece.render? t q (es.map Element.piece) := by
  rw [Target.literalBody?, Piece.read?_spelling h]
  rfl

/-- The pieces of a body denote what its elements do. -/
theorem IsBody.units_pieces (h : IsBody quote es) :
    (∀ p ∈ es.map Element.piece, p.IsRead quote) ∧
      (es.map Element.piece).map Piece.escaped? = es.map Element.unit? ∧
      (es.map Element.piece).flatMap Piece.units = es.flatMap Element.units := by
  have hpieces (e : Element) (he : e ∈ es) := Element.units_piece (h.valid e he)
  refine ⟨List.forall_mem_map.2 fun e he => (hpieces e he).1, ?_, ?_⟩
  · rw [List.map_map]
    exact List.map_congr_left fun e he => (hpieces e he).2.2
  · rw [List.flatMap_map, List.flatMap_def, List.flatMap_def]
    exact congrArg _ (List.map_congr_left fun e he => (hpieces e he).2.1)

theorem IsBody.body_keeps_units {q : Quote} (h : IsBody (Piece.source q) es) :
    (∃ out, Target.literalBody? .csharp q (spelling es) = some out) ∧
      (Target.literalBody? .swift q (spelling es) = none ↔
        HasLoneHalf (es.map Element.unit?)) ∧
      ∀ t out, t ≠ .cpp → Target.literalBody? t q (spelling es) = some out →
        bodyUnits? t (Piece.written q) out = some (es.flatMap Element.units) := by
  obtain ⟨hread, hescapes, hunits⟩ := h.units_pieces
  simp only [h.literalBody?]
  refine ⟨Piece.exists_render?_csharp q _, ?_, fun t out ht hout => ?_⟩
  · rw [Piece.render?_swift_eq_none_iff, hescapes]
  · rw [← hunits]
    exact Piece.bodyUnits?_render? ht hout hread

end Target

namespace Tree

/-- The token is a string or character literal of Java with these elements. -/
inductive IsTextLiteral : LiteralKind → List Element → String → Prop where
  | string : IsBody '"' es →
      IsTextLiteral .string es (String.ofList ('"' :: (spelling es ++ ['"'])))
  | character : IsBody '\'' es →
      IsTextLiteral .character es (String.ofList ('\'' :: (spelling es ++ ['\''])))

/-- No body begins with its quote. -/
theorem head?_spelling_ne {quote : Char} {es : List Element} (h : IsBody quote es)
    (hquote : quote ≠ '\\') : ∀ c ∈ (spelling es).head?, c ≠ quote := by
  cases es with
  | nil => exact nofun
  | cons e es =>
    have he := h.valid e List.mem_cons_self
    cases e with
    | plain c =>
      rintro d ⟨⟩
      exact he.1
    | simple | octal | unicode =>
      rintro d ⟨⟩
      exact hquote.symm

/-- A string literal is no text block. -/
theorem isPrefixOf_quoted {es : List Element} (h : IsBody '"' es) :
    ['"', '"', '"'].isPrefixOf ('"' :: (spelling es ++ ['"'])) = false := by
  have hhead := head?_spelling_ne h (by decide)
  cases hbody : spelling es with
  | nil => rfl
  | cons c cs =>
    have hc : ('"' == c) = false := by
      refine beq_false_of_ne fun heq => ?_
      exact hhead c (by rw [hbody]; rfl) heq.symm
    simp [List.isPrefixOf, hc]

theorem stringLiteral?_eq {t : Target} {es : List Element} (h : IsBody '"' es) (ht : t ≠ .cpp) :
    stringLiteral? t ('"' :: (spelling es ++ ['"'])) =
      (literalBody? t .double (spelling es)).map fun body => '"' :: (body ++ ['"']) := by
  rw [stringLiteral?, isPrefixOf_quoted h, if_neg Bool.false_ne_true, unquote?_quoted]
  cases t with
  | cpp => exact absurd rfl ht
  | csharp | swift => exact Option.map_eq_bind.symm

theorem characterLiteral?_csharp (body : List Char) :
    characterLiteral? .csharp ('\'' :: (body ++ ['\''])) =
      (literalBody? .csharp .single body).map fun body => '\'' :: (body ++ ['\'']) := by
  rw [characterLiteral?, unquote?_quoted]
  exact Option.map_eq_bind.symm

theorem characterLiteral?_swift (body : List Char) :
    characterLiteral? .swift ('\'' :: (body ++ ['\''])) =
      (literalBody? .swift .singleAsDouble body).map fun body => '"' :: (body ++ ['"']) := by
  rw [characterLiteral?, unquote?_quoted]
  exact Option.map_eq_bind.symm

/-- What a literal becomes is the body that is written for it, in quotes. -/
theorem IsTextLiteral.render?_eq {kind : LiteralKind} {es : List Element} {token : String}
    {t : Target} (h : IsTextLiteral kind es token) (ht : t ≠ .cpp) :
    ∃ q, IsBody (Piece.source q) es ∧ Piece.written q = quoteOf t kind ∧
      kind.render? t token = (literalBody? t q (spelling es)).map fun body =>
        String.ofList (quoteOf t kind :: (body ++ [quoteOf t kind])) := by
  cases h with
  | string hbody =>
    refine ⟨.double, hbody, by cases t <;> rfl, ?_⟩
    simp only [LiteralKind.render?, String.toList_ofList, stringLiteral?_eq hbody ht,
      Option.map_map]
    cases t <;> rfl
  | character hbody =>
    cases t with
    | csharp =>
      refine ⟨.single, hbody, rfl, ?_⟩
      simp only [LiteralKind.render?, String.toList_ofList, characterLiteral?_csharp,
        Option.map_map]
      rfl
    | swift =>
      refine ⟨.singleAsDouble, hbody, rfl, ?_⟩
      simp only [LiteralKind.render?, String.toList_ofList, characterLiteral?_swift,
        Option.map_map]
      rfl
    | cpp => exact absurd rfl ht

/-- C# has a literal for every string or character literal, and Swift for those without a lone half
of a surrogate pair. It denotes what the elements of the literal denote one by one, and that is what
Java reads, unless an octal escape could go on with a digit that is spelled as a Unicode escape. -/
theorem LiteralKind.render_keeps_units {kind : LiteralKind} {es : List Element} {token : String}
    (h : IsTextLiteral kind es token) :
    (∃ out, kind.render? .csharp token = some out) ∧
      (kind.render? .swift token = none ↔ HasLoneHalf (es.map Element.unit?)) ∧
      (∀ t out, t ≠ .cpp → kind.render? t token = some out →
        ∃ body, out = String.ofList (quoteOf t kind :: (body ++ [quoteOf t kind])) ∧
          bodyUnits? t (quoteOf t kind) body = some (es.flatMap Element.units)) ∧
      (OctalsEndBefore Element.hidesOctalDigit es →
        javaUnits? (spelling es) = some (es.flatMap Element.units)) := by
  refine ⟨?_, ?_, fun t out ht hout => ?_, fun hhidden => ?_⟩
  · obtain ⟨q, hbody, -, heq⟩ := h.render?_eq (t := .csharp) nofun
    obtain ⟨out, hout⟩ := hbody.body_keeps_units.1
    exact ⟨_, heq.trans (congrArg _ hout)⟩
  · obtain ⟨q, hbody, -, heq⟩ := h.render?_eq (t := .swift) nofun
    rw [heq, Option.map_eq_none_iff]
    exact hbody.body_keeps_units.2.1
  · obtain ⟨q, hbody, hquote, heq⟩ := h.render?_eq ht
    obtain ⟨body, hwritten, rfl⟩ := Option.map_eq_some_iff.1 (heq.symm.trans hout)
    refine ⟨body, rfl, ?_⟩
    rw [← hquote]
    exact hbody.body_keeps_units.2.2 t body ht hwritten
  · cases h with
    | string hbody => exact javaUnits?_spelling hbody hhidden
    | character hbody => exact javaUnits?_spelling hbody hhidden

/-- A bell and a character that takes a pair. -/
theorem LiteralKind.render_keeps_units_pair :
    ∃ body, LiteralKind.string.render? .swift "\"\\7\\uuD83D\\uDE00\"" =
        some (String.ofList ('"' :: (body ++ ['"']))) ∧
      bodyUnits? .swift '"' body = some [7, 0xd83d, 0xde00] ∧
      javaUnits? "\\7\\uuD83D\\uDE00".toList = some [7, 0xd83d, 0xde00] := by
  let es : List Element :=
    [.octal '7' [], .unicode 1 ['D', '8', '3', 'D'], .unicode 0 ['D', 'E', '0', '0']]
  have hvalid : ∀ e ∈ es, e.IsValid '"' := by
    refine List.forall_mem_cons.2 ⟨⟨List.forall_mem_singleton.2 rfl, by decide⟩,
      List.forall_mem_cons.2 ⟨?_, ?_⟩⟩
    · exact ⟨rfl, 0xd83d, by decide, by decide⟩
    · exact List.forall_mem_singleton.2 ⟨rfl, 0xde00, by decide, by decide⟩
  have hends {kind : Element → Bool} (h : kind (.unicode 1 ['D', '8', '3', 'D']) = false) :
      OctalsEndBefore kind es := by
    refine .cons (fun _ => ?_) (.cons nofun (.cons nofun .nil))
    rintro next ⟨⟩
    exact h
  have hliteral : IsTextLiteral .string es "\"\\7\\uuD83D\\uDE00\"" :=
    .string ⟨hvalid, hends rfl⟩
  obtain ⟨-, -, htarget, hjava⟩ := LiteralKind.render_keeps_units hliteral
  have hout : LiteralKind.string.render? .swift "\"\\7\\uuD83D\\uDE00\"" =
      some "\"\\u\x7b7\x7d\\u\x7b1F600\x7d\"" := by decide +kernel
  obtain ⟨body, hbody, hunits⟩ := htarget .swift _ nofun hout
  exact ⟨body, hout.trans (congrArg some hbody), hunits, hjava (hends (by decide))⟩

/-- The octal escape ends too early: Java reads a tab, and the rendering is a control character with
a digit after it. -/
theorem LiteralKind.render_splits_octal :
    IsTextLiteral .string [.octal '1' [], .unicode 0 ['0', '0', '3', '1']] "\"\\1\\u0031\"" ∧
      javaUnits? "\\1\\u0031".toList = some [9] ∧
      LiteralKind.string.render? .csharp "\"\\1\\u0031\"" = some "\"\\u0001\\u0031\"" ∧
      bodyUnits? .csharp '"' "\\u0001\\u0031".toList = some [1, 49] := by
  refine ⟨.string ⟨?_, ?_⟩, by decide +kernel, by decide +kernel, by decide +kernel⟩
  · refine List.forall_mem_cons.2 ⟨⟨List.forall_mem_singleton.2 rfl, by decide⟩,
      List.forall_mem_singleton.2 ?_⟩
    exact ⟨rfl, 49, by decide, by decide⟩
  · refine .cons (fun _ => ?_) (.cons nofun .nil)
    rintro next ⟨⟩
    rfl

end Tree

end Lockstep
