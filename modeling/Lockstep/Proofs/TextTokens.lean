import Lockstep.Proofs.NumberTokens
import Lockstep.Target.TextLiteral

/-!
# String and character literals are tokens

What is written for the body of a literal contains no quote that would end the literal early: the
characters that stand for themselves are no quotes, and whatever else is written begins with a
backslash. So the literal of a target is read as one token (`isPart_of_stringLiteral?`,
`isPart_of_characterLiteral?`).

- `staysQuoted`: no character of a text ends a literal.
- `Piece.Fits`: the pieces that such a text is read as.
-/

namespace Lockstep.Target

open Source Text

variable {t : Target} {quote : Char} {xs ys body : List Char}

/-- Whether the text is within a literal as a whole: none of its characters ends the literal, or
the line. -/
def staysQuoted (quote : Char) : List Char → Bool
  | [] => true
  | ['\\'] => false
  | '\\' :: c :: cs => !isLineBreak c && staysQuoted quote cs
  | c :: cs => c != quote && !isLineBreak c && staysQuoted quote cs

/-- The token is a literal with these quotes. -/
def IsQuoted (quote : Char) (token : List Char) : Prop :=
  ∃ body, token = quote :: (body ++ [quote]) ∧ staysQuoted quote body = true

/-! ## Texts in quotes -/

theorem staysQuoted_cons {c : Char} (hc : c ≠ '\\') :
    staysQuoted quote (c :: xs) = (c != quote && !isLineBreak c && staysQuoted quote xs) := by
  rw [staysQuoted]
  · exact fun h => absurd h hc
  · exact fun _ _ h => absurd h hc

/-- A character that is no case of an escape. -/
private theorem ne_backslash {c : Char} (hlast : c = '\\' → xs = [] → False)
    (hescape : ∀ d ds, c = '\\' → xs = d :: ds → False) : c ≠ '\\' := by
  rintro rfl
  cases xs with
  | nil => exact hlast rfl rfl
  | cons d ds => exact hescape d ds rfl rfl

theorem staysQuoted_append (h : staysQuoted quote xs = true) (h' : staysQuoted quote ys = true) :
    staysQuoted quote (xs ++ ys) = true := by
  fun_induction staysQuoted quote xs with
  | case1 => exact h'
  | case2 => cases h
  | case3 c cs ih =>
    obtain ⟨hc, hcs⟩ := Bool.and_eq_true_iff.1 h
    simp only [List.cons_append, staysQuoted, hc, ih hcs, Bool.and_self]
  | case4 c cs hlast hescape ih =>
    obtain ⟨hc, hcs⟩ := Bool.and_eq_true_iff.1 h
    rw [List.cons_append, staysQuoted_cons (ne_backslash hlast hescape), hc, ih hcs]
    rfl

theorem noBreak_of_staysQuoted (h : staysQuoted quote xs = true) :
    ∀ c ∈ xs, isLineBreak c = false := by
  fun_induction staysQuoted quote xs with
  | case1 => exact nofun
  | case2 => cases h
  | case3 c cs ih =>
    obtain ⟨hc, hcs⟩ := Bool.and_eq_true_iff.1 h
    exact List.forall_mem_cons.2 ⟨rfl, List.forall_mem_cons.2 ⟨by simpa using hc, ih hcs⟩⟩
  | case4 c cs _ _ ih =>
    obtain ⟨hc, hcs⟩ := Bool.and_eq_true_iff.1 h
    obtain ⟨_, hbreak⟩ := Bool.and_eq_true_iff.1 hc
    exact List.forall_mem_cons.2 ⟨by simpa using hbreak, ih hcs⟩

theorem quotedLength?_cons {c : Char} (hc : c ≠ '\\') :
    quotedLength? quote (c :: xs) =
      if c == quote then some 1 else (quotedLength? quote xs).map (· + 1) := by
  rw [quotedLength?]
  exact fun _ _ h => absurd h hc

/-- A literal goes on up to its closing quote. -/
theorem quotedLength?_append (hquote : quote ≠ '\\') (h : staysQuoted quote xs = true) :
    quotedLength? quote (xs ++ quote :: ys) = some (xs.length + 1) := by
  fun_induction staysQuoted quote xs with
  | case1 =>
    rw [List.nil_append, quotedLength?_cons hquote, beq_self_eq_true]
    rfl
  | case2 => cases h
  | case3 c cs ih =>
    rw [List.cons_append, List.cons_append, quotedLength?, ih (Bool.and_eq_true_iff.1 h).2]
    rfl
  | case4 c cs hlast hescape ih =>
    obtain ⟨hc, hcs⟩ := Bool.and_eq_true_iff.1 h
    obtain ⟨hne, _⟩ := Bool.and_eq_true_iff.1 hc
    rw [List.cons_append, quotedLength?_cons (ne_backslash hlast hescape),
      beq_false_of_ne (bne_iff_ne.1 hne), ih hcs]
    rfl

/-- Characters that stand for themselves. -/
theorem staysQuoted_of_forall
    (h : ∀ c ∈ xs, c ≠ quote ∧ c ≠ '\\' ∧ isLineBreak c = false) :
    staysQuoted quote xs = true := by
  induction xs with
  | nil => rfl
  | cons c cs ih =>
    obtain ⟨⟨hquote, hslash, hbreak⟩, htail⟩ := List.forall_mem_cons.1 h
    rw [staysQuoted_cons hslash, hbreak, ih htail, bne_iff_ne.2 hquote]
    rfl

theorem staysQuoted_of_append (h : staysQuoted quote (xs ++ ys) = true)
    (hxs : ∀ c ∈ xs, c ≠ '\\') : staysQuoted quote ys = true := by
  induction xs with
  | nil => exact h
  | cons c cs ih =>
    obtain ⟨hc, htail⟩ := List.forall_mem_cons.1 hxs
    rw [List.cons_append, staysQuoted_cons hc] at h
    exact ih (Bool.and_eq_true_iff.1 h).2 htail

theorem eq_of_isQuote (h : isQuote quote = true) : quote = '"' ∨ quote = '\'' := by
  simpa only [isQuote, Bool.or_eq_true, beq_iff_eq] using h

/-- A text in quotes is a part of an operand. -/
theorem isPart_quoted (hquote : isQuote quote = true) (h : staysQuoted quote body = true) :
    IsPart t (quote :: (body ++ [quote])) where
  opens := by
    refine ⟨quote, _, rfl, ?_⟩
    rcases eq_of_isQuote hquote with rfl | rfl <;> decide
  noBreak := by
    have hbreak : isLineBreak quote = false := by
      rcases eq_of_isQuote hquote with rfl | rfl <;> rfl
    refine List.forall_mem_cons.2 ⟨hbreak, List.forall_mem_append.2 ⟨noBreak_of_staysQuoted h, ?_⟩⟩
    exact List.forall_mem_singleton.2 hbreak
  head? rest _ := by
    have hslash : quote ≠ '\\' := by
      rcases eq_of_isQuote hquote with rfl | rfl <;> decide
    refine head?_part ?_ ?_
    · rcases eq_of_isQuote hquote with rfl | rfl <;> decide
    · rw [List.cons_append, partLength?, if_pos hquote, List.append_assoc, List.singleton_append,
        quotedLength?_append hslash h]
      simp

/-- In C++ there is a letter before the quotes. -/
theorem isPart_prefixed (hquote : isQuote quote = true) (h : staysQuoted quote body = true) :
    IsPart .cpp ('u' :: quote :: (body ++ [quote])) where
  opens := ⟨'u', _, rfl, by decide⟩
  noBreak := List.forall_mem_cons.2 ⟨rfl, (isPart_quoted (t := .cpp) hquote h).noBreak⟩
  head? rest _ := by
    have hslash : quote ≠ '\\' := by
      rcases eq_of_isQuote hquote with rfl | rfl <;> decide
    refine head?_part (by decide) ?_
    have hlen : quotedLength? quote (body ++ quote :: rest) = some (body.length + 1) :=
      quotedLength?_append hslash h
    have hu : isQuote 'u' = false := rfl
    simp only [List.cons_append, List.append_assoc, List.nil_append, partLength?, startsNumber, hu]
    simp [hquote, hlen]

/-! ## Reading the pieces -/

namespace Piece

/-- What is known of the pieces of a literal with these quotes. -/
def Fits (quote : Char) : Piece → Prop
  | .plain c => c ≠ quote ∧ c ≠ '\\' ∧ isLineBreak c = false
  | .simple c => isSimple c = true
  | .octal digits => digits ≠ [] ∧ ∀ d ∈ digits, Number.isOctalDigit d = true
  | .unit _ => True

variable {p : Piece} {ps : List Piece} {cs after : List Char}

theorem ne_of_hexValue? {ds : List Char} {n v : Nat}
    (h : ds.foldlM (fun n c => (hexValue? c).map (n * 16 + ·)) n = some v) :
    ∀ c ∈ ds, c ≠ '\\' := by
  induction ds generalizing n with
  | nil => exact nofun
  | cons d ds ih =>
    obtain ⟨m, hd, htail⟩ := Option.bind_eq_some_iff.1 (List.foldlM_cons.symm.trans h)
    refine List.forall_mem_cons.2 ⟨?_, ih htail⟩
    rintro rfl
    cases hd

theorem ne_of_unit? {v : Nat} (h : unit? cs = some v) : ∀ c ∈ cs, c ≠ '\\' := by
  unfold unit? at h
  split at h
  · exact List.forall_mem_cons.2 ⟨by decide, ne_of_hexValue? h⟩
  · exact ne_of_hexValue? h

/-- What follows the digits of a code unit. -/
theorem staysQuoted_after_unit {v : Nat}
    (h : unit? ((cs.dropWhile (· == 'u')).take 4) = some v) (hcs : staysQuoted quote cs = true) :
    staysQuoted quote ((cs.dropWhile (· == 'u')).drop 4) = true := by
  have hsplit : cs = (cs.takeWhile (· == 'u') ++ (cs.dropWhile (· == 'u')).take 4) ++
      (cs.dropWhile (· == 'u')).drop 4 := by
    rw [List.append_assoc, List.take_append_drop, List.takeWhile_append_dropWhile]
  rw [hsplit] at hcs
  refine staysQuoted_of_append hcs (List.forall_mem_append.2 ⟨fun d hd => ?_, ne_of_unit? h⟩)
  have hu := List.all_eq_true.1 List.all_takeWhile d hd
  rw [beq_iff_eq.1 hu]
  decide

/-- Octal digits, and what follows them. -/
theorem fits_octal {c : Char} {digits : List Char} (hc : Number.isOctalDigit c = true)
    (hcs : staysQuoted quote cs = true)
    (hdigits : ((c :: cs).take (octalLimit c)).takeWhile Number.isOctalDigit = digits) :
    (Piece.octal digits).Fits quote ∧
      staysQuoted quote ((c :: cs).drop digits.length) = true := by
  obtain ⟨n, hn⟩ : ∃ n, octalLimit c = n + 1 := by
    unfold octalLimit
    split <;> exact ⟨_, rfl⟩
  rw [hn, List.take_succ_cons, List.takeWhile_cons_of_pos hc] at hdigits
  subst hdigits
  have hds := List.all_eq_true.1 (List.all_takeWhile (p := Number.isOctalDigit) (l := cs.take n))
  obtain ⟨tail, htail⟩ := (List.takeWhile_prefix Number.isOctalDigit (l := cs.take n)).trans
    (List.take_prefix n cs)
  refine ⟨⟨List.cons_ne_nil _ _, List.forall_mem_cons.2 ⟨hc, hds⟩⟩, ?_⟩
  generalize (cs.take n).takeWhile Number.isOctalDigit = ds at hds htail
  subst htail
  rw [List.length_cons, List.drop_succ_cons, List.drop_left]
  refine staysQuoted_of_append hcs fun d hd => ?_
  rintro rfl
  exact Bool.false_ne_true (hds _ hd)

theorem fits_of_escape? (h : escape? cs = some (p, after))
    (hcs : staysQuoted quote ('\\' :: cs) = true) :
    p.Fits quote ∧ staysQuoted quote after = true := by
  unfold escape? at h
  split at h
  · cases h
  · next c rest =>
    replace hcs : staysQuoted quote rest = true := (Bool.and_eq_true_iff.1 hcs).2
    dsimp only at h
    split at h
    · split at h
      · cases h
      · obtain ⟨v, hv, heq⟩ := Option.map_eq_some_iff.1 h
        cases heq
        exact ⟨trivial, staysQuoted_after_unit hv hcs⟩
    · split at h
      · next hoctal =>
        cases h
        exact fits_octal hoctal hcs rfl
      · split at h
        · next hsimple =>
          cases h
          exact ⟨hsimple, hcs⟩
        · cases h

/-- The pieces of a body that ends no literal. -/
theorem fits_of_read? (h : read? body = some ps)
    (hbody : staysQuoted quote body = true) : ∀ p ∈ ps, p.Fits quote := by
  fun_induction read? body generalizing ps with
  | case1 =>
    cases h
    exact nofun
  | case2 rest p after hescape ih =>
    obtain ⟨qs, hqs, rfl⟩ := Option.map_eq_some_iff.1 h
    obtain ⟨hp, hafter⟩ := fits_of_escape? hescape hbody
    exact List.forall_mem_cons.2 ⟨hp, ih hqs hafter⟩
  | case3 => cases h
  | case4 c rest hne ih =>
    obtain ⟨qs, hqs, rfl⟩ := Option.map_eq_some_iff.1 h
    have hslash : c ≠ '\\' := hne
    rw [staysQuoted_cons hslash] at hbody
    obtain ⟨hc, hrest⟩ := Bool.and_eq_true_iff.1 hbody
    obtain ⟨hquote, hbreak⟩ := Bool.and_eq_true_iff.1 hc
    refine List.forall_mem_cons.2 ⟨⟨bne_iff_ne.1 hquote, hslash, ?_⟩, ih hqs hrest⟩
    simpa using hbreak

/-! ## Writing the pieces -/

/-- The quotes of a literal in the source. -/
def source : Quote → Char
  | .double => '"'
  | .single | .singleAsDouble => '\''

/-- The quotes of the literal that is written for it. -/
def written : Quote → Char
  | .double | .singleAsDouble => '"'
  | .single => '\''

variable {q : Quote}

/-- A backslash protects the next character; the others stand for themselves. -/
theorem staysQuoted_escape {c : Char} (hc : isLineBreak c = false)
    (h : ∀ d ∈ xs, d ≠ quote ∧ d ≠ '\\' ∧ isLineBreak d = false) :
    staysQuoted quote ('\\' :: c :: xs) = true := by
  rw [staysQuoted, hc, staysQuoted_of_forall h]
  rfl

theorem staysQuoted_codePoint (t : Target) (q : Quote) (v : Nat) :
    staysQuoted (written q) (codePoint t v) = true := by
  have hall : ∀ d ∈ upperHexChars ++ ['\x7b', '\x7d'],
      d ≠ written q ∧ d ≠ '\\' ∧ isLineBreak d = false := by
    cases q <;> exact List.all_iff_forall_prop.1 (by decide)
  have hhex : ∀ d ∈ upperHex v, d ∈ upperHexChars ++ ['\x7b', '\x7d'] := fun d hd =>
    List.mem_append_left _ (mem_upperHex hd)
  have hpadded (width : Nat) : ∀ d ∈ padded width (upperHex v),
      d ∈ upperHexChars ++ ['\x7b', '\x7d'] := by
    refine List.forall_mem_append.2 ⟨fun d hd => ?_, hhex⟩
    rw [(List.mem_replicate.1 hd).2]
    decide
  unfold codePoint
  split
  · exact staysQuoted_escape rfl fun d hd => hall d (hpadded 4 d hd)
  · refine staysQuoted_escape rfl fun d hd => hall d ?_
    refine List.forall_mem_cons.2 ⟨by decide, List.forall_mem_append.2 ⟨hhex, ?_⟩⟩ d hd
    exact List.forall_mem_singleton.2 (by decide)
  · split
    · exact staysQuoted_escape rfl fun d hd => hall d (hpadded 8 d hd)
    · exact staysQuoted_escape rfl fun d hd => hall d (hpadded 4 d hd)

theorem staysQuoted_renderPlain {c : Char} (h : (Piece.plain c).Fits (source q)) :
    staysQuoted (written q) (renderPlain q c) = true := by
  obtain ⟨hquote, hslash, hbreak⟩ := h
  unfold renderPlain
  split
  · exact staysQuoted_escape rfl nofun
  · next hc =>
    refine staysQuoted_of_forall (List.forall_mem_singleton.2 ⟨?_, hslash, hbreak⟩)
    cases q with
    | double => exact hquote
    | single => exact hquote
    | singleAsDouble => exact fun heq => hc (by rw [heq]; rfl)

theorem staysQuoted_renderSimple {c : Char} (h : (Piece.simple c).Fits (source q)) :
    staysQuoted (written q) (renderSimple t q c) = true := by
  unfold renderSimple
  split
  · cases q <;> rfl
  · split
    · exact staysQuoted_codePoint .swift q 8
    · split
      · exact staysQuoted_codePoint .swift q 12
      · split
        · next hc =>
          obtain ⟨_, hq⟩ := Bool.and_eq_true_iff.1 hc
          rw [beq_iff_eq.1 hq]
          rfl
        · refine staysQuoted_escape ?_ nofun
          have hall : ∀ d ∈ ['b', 'f', 't', 'n', 'r', 's', '"', '\'', '\\'],
              isLineBreak d = false := List.all_iff_forall_prop.1 (by decide)
          exact hall c (List.contains_iff_mem.1 h)

theorem staysQuoted_renderOctal {digits : List Char} (h : (Piece.octal digits).Fits (source q)) :
    staysQuoted (written q) (renderOctal t digits) = true := by
  obtain ⟨hne, hdigits⟩ := h
  unfold renderOctal
  split
  · cases digits with
    | nil => exact absurd rfl hne
    | cons d ds =>
      have hall : ∀ d ∈ digitChars, d ≠ written q ∧ d ≠ '\\' ∧ isLineBreak d = false := by
        cases q <;> exact List.all_iff_forall_prop.1 (by decide)
      have hmem : ∀ c ∈ d :: ds, c ≠ written q ∧ c ≠ '\\' ∧ isLineBreak c = false := fun c hc =>
        hall c (mem_digitChars (Number.PartsOf.isDigit_of_isOctalDigit (hdigits c hc)))
      obtain ⟨⟨_, _, hbreak⟩, htail⟩ := List.forall_mem_cons.1 hmem
      exact staysQuoted_escape hbreak htail
  · exact staysQuoted_codePoint _ q _

theorem staysQuoted_render? {out : List Char} (h : render? t q ps = some out)
    (hps : ∀ p ∈ ps, p.Fits (source q)) : staysQuoted (written q) out = true := by
  fun_induction render? t q ps generalizing out with
  | case1 =>
    cases h
    rfl
  | case2 c rest ih =>
    obtain ⟨body, hbody, rfl⟩ := Option.map_eq_some_iff.1 h
    obtain ⟨hp, hrest⟩ := List.forall_mem_cons.1 hps
    exact staysQuoted_append (staysQuoted_renderPlain hp) (ih hbody hrest)
  | case3 c rest ih =>
    obtain ⟨body, hbody, rfl⟩ := Option.map_eq_some_iff.1 h
    obtain ⟨hp, hrest⟩ := List.forall_mem_cons.1 hps
    exact staysQuoted_append (staysQuoted_renderSimple hp) (ih hbody hrest)
  | case4 ds rest ih =>
    obtain ⟨body, hbody, rfl⟩ := Option.map_eq_some_iff.1 h
    obtain ⟨hp, hrest⟩ := List.forall_mem_cons.1 hps
    exact staysQuoted_append (staysQuoted_renderOctal hp) (ih hbody hrest)
  | case5 v rest _ ih =>
    obtain ⟨body, hbody, rfl⟩ := Option.map_eq_some_iff.1 h
    obtain ⟨_, hrest⟩ := List.forall_mem_cons.1 hps
    exact staysQuoted_append (staysQuoted_codePoint t q v) (ih hbody hrest)
  | case6 v _ _ low rest _ ih =>
    obtain ⟨body, hbody, rfl⟩ := Option.map_eq_some_iff.1 h
    obtain ⟨_, htail⟩ := List.forall_mem_cons.1 hps
    obtain ⟨_, hrest⟩ := List.forall_mem_cons.1 htail
    exact staysQuoted_append (staysQuoted_codePoint t q _) (ih hbody hrest)
  | case7 => cases h
  | case8 => cases h
  | case9 => cases h

end Piece

theorem staysQuoted_literalBody? {q : Quote} {out : List Char}
    (h : literalBody? t q body = some out) (hbody : staysQuoted (Piece.source q) body = true) :
    staysQuoted (Piece.written q) out = true := by
  obtain ⟨ps, hread, hrender⟩ := Option.bind_eq_some_iff.1 h
  exact Piece.staysQuoted_render? hrender (Piece.fits_of_read? hread hbody)

/-! ## Literals -/

theorem unquote?_quoted (quote : Char) (body : List Char) :
    unquote? quote (quote :: (body ++ [quote])) = some body := by
  simp [unquote?]

/-- What is written for a string literal is a part of an operand. -/
theorem isPart_of_stringLiteral? {token out : List Char} (h : IsQuoted '"' token)
    (hout : stringLiteral? t token = some out) : IsPart t out := by
  obtain ⟨body, rfl, hbody⟩ := h
  unfold stringLiteral? at hout
  split at hout
  · cases hout
  · obtain ⟨inner, hinner, hout⟩ := Option.bind_eq_some_iff.1 hout
    rw [unquote?_quoted] at hinner
    cases hinner
    obtain ⟨text, htext, hout⟩ := Option.bind_eq_some_iff.1 hout
    have hstays := staysQuoted_literalBody? htext hbody
    cases t with
    | csharp | swift =>
      cases hout
      exact isPart_quoted rfl hstays
    | cpp =>
      cases hout
      exact isPart_prefixed rfl hstays

/-- What is written for a character literal is a part of an operand. -/
theorem isPart_of_characterLiteral? {token out : List Char} (h : IsQuoted '\'' token)
    (hout : characterLiteral? t token = some out) : IsPart t out := by
  obtain ⟨body, rfl, hbody⟩ := h
  obtain ⟨inner, hinner, hout⟩ := Option.bind_eq_some_iff.1 hout
  rw [unquote?_quoted] at hinner
  cases hinner
  cases t with
  | csharp =>
    obtain ⟨text, htext, hout⟩ := Option.bind_eq_some_iff.1 hout
    cases hout
    exact isPart_quoted rfl (staysQuoted_literalBody? htext hbody)
  | swift =>
    obtain ⟨text, htext, hout⟩ := Option.bind_eq_some_iff.1 hout
    cases hout
    exact isPart_quoted rfl (staysQuoted_literalBody? htext hbody)
  | cpp =>
    obtain ⟨text, htext, hout⟩ := Option.bind_eq_some_iff.1 hout
    cases hout
    exact isPart_prefixed rfl (staysQuoted_literalBody? htext hbody)

end Lockstep.Target
