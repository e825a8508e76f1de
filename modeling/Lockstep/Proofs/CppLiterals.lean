import Lockstep.Proofs.LiteralValues
import Mathlib.Data.List.Chain

/-!
# String and character literals of C++

An octal escape is written for C++ as it is spelled in Java. Java reads at most two digits of it if
the first is above 3, while C++ reads up to three whatever the first is. So what is written keeps
its value just as long as no octal escape of fewer than three digits is right before a further octal
digit.

- `cppEscape?`, `cppUnits?`: what the body of a literal of C++ denotes.
- `Element.readsOn`: C++ may read more digits than the escape has.
- `Piece.cppUnits?_render?`: when the pieces of a body keep their value.
- `LiteralKind.render_keeps_cpp_units`: the theorem about literals.
-/

namespace Lockstep

open Target Text

namespace Target

/-! ## What literals of C++ denote -/

/-- The character whose number the digits are, as many of them as the escape has. -/
def numberedEscape? (width : Nat) (cs : List Char) : Option (List Nat × List Char) :=
  if cs.length < width then none
  else (ofHex? (cs.take width)).bind fun v =>
    if v < 0x110000 && !isSurrogate v then some (utf16 v, cs.drop width) else none

/-- What an escape of C++ denotes, after its backslash, and what follows. -/
def cppEscape? : List Char → Option (List Nat × List Char)
  | [] => none
  | c :: rest =>
    if c == 'u' then numberedEscape? 4 rest
    else if c == 'U' then numberedEscape? 8 rest
    else if Number.isOctalDigit c then
      let digits := ((c :: rest).take 3).takeWhile Number.isOctalDigit
      some ([ofDigits 8 digits], (c :: rest).drop digits.length)
    else simpleEscape? ['b', 't', 'n', 'f', 'r', '"', '\'', '\\'] c rest

theorem numberedEscape?_length {width : Nat} {cs after : List Char} {units : List Nat}
    (h : numberedEscape? width cs = some (units, after)) : after.length ≤ cs.length := by
  unfold numberedEscape? at h
  split at h
  · cases h
  · obtain ⟨v, -, h⟩ := Option.bind_eq_some_iff.1 h
    split at h
    · cases h
      rw [List.length_drop]
      exact Nat.sub_le ..
    · cases h

theorem cppEscape?_length {cs after : List Char} {units : List Nat}
    (h : cppEscape? cs = some (units, after)) : after.length < cs.length := by
  unfold cppEscape? at h
  split at h
  · cases h
  · next c rest =>
    split at h
    · exact Nat.lt_succ_of_le (numberedEscape?_length h)
    · split at h
      · exact Nat.lt_succ_of_le (numberedEscape?_length h)
      · split at h
        · next hoctal =>
          cases h
          rw [List.take_succ_cons, List.takeWhile_cons_of_pos hoctal, List.length_cons,
            List.drop_succ_cons, List.length_drop, List.length_cons]
          omega
        · rw [eq_of_simpleEscape? h]
          exact Nat.lt_succ_self _

/-- The code units that the body of a literal of C++ denotes, if all its escapes are escapes of C++
and it does not end early. -/
def cppUnits? (quote : Char) (cs : List Char) : Option (List Nat) :=
  match cs with
  | [] => some []
  | '\\' :: rest =>
    match _h : cppEscape? rest with
    | some (units, after) => (cppUnits? quote after).map (units ++ ·)
    | none => none
  | c :: rest =>
    if c == quote || isLineBreak c then none
    else (cppUnits? quote rest).map (utf16 c.toNat ++ ·)
  termination_by cs.length
  decreasing_by
    · have := cppEscape?_length _h
      simp only [List.length_cons]
      omega
    · simp

variable {text : List Char} {quote : Char} {v : Nat}

theorem cppUnits?_escape {units : List Nat} {cs after : List Char}
    (h : cppEscape? cs = some (units, after)) :
    cppUnits? quote ('\\' :: cs) = (cppUnits? quote after).map (units ++ ·) := by
  rw [cppUnits?]
  split
  · next hp =>
    rw [h] at hp
    cases hp
    rfl
  · next hp =>
    rw [h] at hp
    cases hp

theorem cppUnits?_plain {c : Char} (hslash : c ≠ '\\') (hquote : c ≠ quote)
    (hbreak : isLineBreak c = false) :
    cppUnits? quote (c :: text) = (cppUnits? quote text).map (utf16 c.toNat ++ ·) := by
  rw [cppUnits?]
  · rw [beq_false_of_ne hquote, hbreak, Bool.or_self, if_neg Bool.false_ne_true]
  · exact hslash

theorem numberedEscape?_padded {width : Nat} (hwidth : 0 < width) (hfits : v < 16 ^ width)
    (hpoint : v < 0x110000) (hv : isSurrogate v = false) :
    numberedEscape? width (padded width (upperHex v) ++ text) = some (utf16 v, text) := by
  have hlength : (padded width (upperHex v)).length = width := by
    rw [padded_length, Nat.max_eq_left (length_upperHex_le hwidth hfits)]
  have hlong : ¬(padded width (upperHex v) ++ text).length < width := by
    rw [List.length_append, hlength]
    omega
  rw [numberedEscape?, if_neg hlong, List.take_left' hlength, List.drop_left' hlength,
    ofHex?_padded, Option.bind_some, hv, decide_eq_true hpoint]
  rfl

/-- What is written for a code point denotes it. -/
theorem cppUnits?_codePoint (hpoint : v < 0x110000) (hv : isSurrogate v = false) :
    cppUnits? quote (Piece.codePoint .cpp v ++ text) =
      (cppUnits? quote text).map (utf16 v ++ ·) := by
  rw [Piece.codePoint]
  by_cases hlong : 0xffff < v
  · have hescape : cppEscape? ('U' :: (padded 8 (upperHex v) ++ text)) = some (utf16 v, text) :=
      numberedEscape?_padded (by decide) (by omega) hpoint hv
    rw [if_pos hlong]
    exact cppUnits?_escape hescape
  · have hescape : cppEscape? ('u' :: (padded 4 (upperHex v) ++ text)) = some (utf16 v, text) :=
      numberedEscape?_padded (by decide) (by omega) hpoint hv
    rw [if_neg hlong]
    exact cppUnits?_escape hescape

/-! ## Octal escapes -/

/-- An escape that begins with an octal digit takes all the octal digits up to the third. -/
theorem cppUnits?_digits {digits run : List Char} (hne : digits ≠ [])
    (hdigits : ∀ c ∈ digits, Number.isOctalDigit c = true)
    (hrun : ((digits ++ text).take 3).takeWhile Number.isOctalDigit = run) :
    cppUnits? quote ('\\' :: (digits ++ text)) =
      (cppUnits? quote ((digits ++ text).drop run.length)).map (ofDigits 8 run :: ·) := by
  obtain ⟨c, cs, rfl⟩ := List.exists_cons_of_ne_nil hne
  have hoctal := hdigits c List.mem_cons_self
  have hletter : (c == 'u') = false ∧ (c == 'U') = false := by
    constructor <;>
    · refine beq_false_of_ne ?_
      rintro rfl
      cases hoctal
  rw [List.cons_append] at hrun ⊢
  have hescape : cppEscape? (c :: (cs ++ text)) =
      some ([ofDigits 8 run], (c :: (cs ++ text)).drop run.length) := by
    simp only [cppEscape?, hletter.1, hletter.2, Bool.false_eq_true, if_false, hoctal, if_true,
      hrun]
  exact cppUnits?_escape hescape

/-- Three octal digits are an escape, and fewer are if no octal digit follows. -/
theorem cppUnits?_octal {digits : List Char} (hne : digits ≠ [])
    (hdigits : ∀ c ∈ digits, Number.isOctalDigit c = true) (hlength : digits.length ≤ 3)
    (hnext : digits.length < 3 → ∀ c ∈ text.head?, Number.isOctalDigit c = false) :
    cppUnits? quote ('\\' :: (digits ++ text)) =
      (cppUnits? quote text).map (ofDigits 8 digits :: ·) := by
  rw [cppUnits?_digits hne hdigits (takeWhile_take_append hdigits hlength hnext), List.drop_left]

theorem ofDigits_le_append (ds es : List Char) : ofDigits 8 ds ≤ ofDigits 8 (ds ++ es) := by
  induction es using List.reverseRecOn with
  | nil => rw [List.append_nil]
  | append_singleton es c ih =>
    rw [← List.append_assoc, ofDigits_append_singleton]
    omega

/-- With an octal digit behind it, an escape of fewer than three denotes more than its digits. -/
theorem cppUnits?_octal_ne {digits : List Char} {c : Char} {units : List Nat} (hne : digits ≠ [])
    (hdigits : ∀ c ∈ digits, Number.isOctalDigit c = true) (hshort : digits.length < 3)
    (hc : Number.isOctalDigit c = true) (hpos : 0 < ofDigits 8 digits) :
    cppUnits? quote ('\\' :: (digits ++ c :: text)) ≠ some (ofDigits 8 digits :: units) := by
  intro h
  obtain ⟨n, hn⟩ : ∃ n, 3 - digits.length = n + 1 := ⟨3 - digits.length - 1, by omega⟩
  have hrun : ((digits ++ c :: text).take 3).takeWhile Number.isOctalDigit =
      digits ++ [c] ++ (text.take n).takeWhile Number.isOctalDigit := by
    rw [List.take_append, List.take_of_length_le (Nat.le_of_lt hshort), hn, List.take_succ_cons,
      List.takeWhile_append_of_pos hdigits, List.takeWhile_cons_of_pos hc, List.append_assoc,
      List.singleton_append]
  obtain ⟨rest, -, hrest⟩ :=
    Option.map_eq_some_iff.1 ((cppUnits?_digits hne hdigits hrun).symm.trans h)
  have hvalue : _ = ofDigits 8 digits := (List.cons.inj hrest).1
  have hless : ofDigits 8 (digits ++ [c]) ≤ ofDigits 8 digits :=
    hvalue ▸ ofDigits_le_append _ _
  rw [ofDigits_append_singleton] at hless
  omega

/-! ## Pieces -/

namespace Piece

variable {q : Quote} {p r : Piece} {ps : List Piece} {out : List Char}

/-- C++ reads on behind the escape, if an octal digit follows. -/
def readsOn : Piece → Bool
  | .octal digits => digits.length < 3
  | _ => false

def isOctalDigit : Piece → Bool
  | .plain c => Number.isOctalDigit c
  | _ => false

/-- What is known of an octal escape that was read. -/
def HasDigits : Piece → Prop
  | .octal digits => digits ≠ [] ∧ (∀ c ∈ digits, Number.isOctalDigit c = true) ∧ digits.length ≤ 3
  | _ => True

/-- What is written begins with an octal digit just if the pieces do. -/
theorem head?_render? (h : render? .cpp q ps = some out) :
    out.head?.any Number.isOctalDigit = ps.head?.any isOctalDigit := by
  have hfront {front body : List Char} (hne : ∃ d, front.head? = some d ∧
      Number.isOctalDigit d = false) : (front ++ body).head?.any Number.isOctalDigit = false := by
    obtain ⟨d, hd, hdigit⟩ := hne
    rw [List.head?_append, hd]
    exact hdigit
  have hpoint (v : Nat) :
      ∃ d, (codePoint .cpp v).head? = some d ∧ Number.isOctalDigit d = false := by
    refine ⟨'\\', ?_, rfl⟩
    rw [codePoint]
    split <;> rfl
  fun_induction render? .cpp q ps with
  | case1 =>
    cases h
    rfl
  | case2 c rest =>
    obtain ⟨body, -, rfl⟩ := Option.map_eq_some_iff.1 h
    unfold renderPlain
    split
    · next hc =>
      obtain ⟨-, rfl⟩ : _ ∧ c = '"' := by simpa using hc
      rfl
    · rfl
  | case3 c rest =>
    obtain ⟨body, -, rfl⟩ := Option.map_eq_some_iff.1 h
    refine hfront ?_
    unfold renderSimple
    split_ifs <;> exact ⟨_, rfl, rfl⟩
  | case4 digits rest =>
    obtain ⟨body, -, rfl⟩ := Option.map_eq_some_iff.1 h
    exact hfront ⟨_, rfl, rfl⟩
  | case5 v rest =>
    obtain ⟨body, -, rfl⟩ := Option.map_eq_some_iff.1 h
    exact hfront (hpoint v)
  | case6 v _ _ low rest =>
    obtain ⟨body, -, rfl⟩ := Option.map_eq_some_iff.1 h
    exact hfront (hpoint (pairValue v low))
  | case7 => cases h
  | case8 => cases h
  | case9 => cases h

theorem cppUnits?_renderSimple {c : Char} (h : (Piece.simple c).IsRead (source q))
    (hq : q ≠ .singleAsDouble) :
    cppUnits? (written q) (renderSimple .cpp q c ++ text) =
      (cppUnits? (written q) text).map (units (.simple c) ++ ·) := by
  obtain ⟨v, hv⟩ := Option.isSome_iff_exists.1 h
  rw [units, hv]
  unfold simpleValue? at hv
  split at hv <;> cases hv
  case h_6 => exact cppUnits?_plain (by decide) (by cases q <;> decide) rfl
  all_goals
    cases q with
    | singleAsDouble => exact absurd rfl hq
    | double | single => exact cppUnits?_escape rfl

/-- What is written for the pieces of a body denotes what they denote just if C++ reads on behind no
octal escape. -/
theorem cppUnits?_render? (hq : q ≠ .singleAsDouble) (h : render? .cpp q ps = some out)
    (hps : ∀ p ∈ ps, p.IsRead (source q) ∧ p.HasDigits)
    (hpos : ps.IsChain fun p r => p.readsOn = true → r.isOctalDigit = true → p.units ≠ [0]) :
    cppUnits? (written q) out = some (ps.flatMap units) ↔
      ps.IsChain fun p r => p.readsOn = true → r.isOctalDigit = false := by
  have hpass {u v : List Nat} {found : Option (List Nat)} :
      found.map (u ++ ·) = some (u ++ v) ↔ found = some v := by
    rw [Option.map_eq_some_iff]
    simp
  have hcut {p : Piece} {rest : List Piece} (hp : p.readsOn = false) :
      ∀ r ∈ rest.head?, p.readsOn = true → r.isOctalDigit = false := by
    intro r _ hreads
    rw [hp] at hreads
    cases hreads
  fun_induction render? .cpp q ps generalizing out with
  | case1 =>
    cases h
    rw [cppUnits?]
    exact iff_of_true rfl .nil
  | case2 c rest ih =>
    obtain ⟨body, hbody, rfl⟩ := Option.map_eq_some_iff.1 h
    obtain ⟨⟨⟨hquote, hslash, hbreak⟩, -⟩, hrest⟩ := List.forall_mem_cons.1 hps
    have hwritten : renderPlain q c = [c] ∧ c ≠ written q := by
      cases q with
      | singleAsDouble => exact absurd rfl hq
      | double | single => exact ⟨rfl, hquote⟩
    rw [hwritten.1, List.singleton_append, cppUnits?_plain hslash hwritten.2 hbreak,
      List.flatMap_cons, units, hpass, List.isChain_cons]
    exact (ih hbody hrest hpos.tail).trans (and_iff_right (hcut rfl)).symm
  | case3 c rest ih =>
    obtain ⟨body, hbody, rfl⟩ := Option.map_eq_some_iff.1 h
    obtain ⟨⟨hp, -⟩, hrest⟩ := List.forall_mem_cons.1 hps
    rw [cppUnits?_renderSimple hp hq, List.flatMap_cons, hpass, List.isChain_cons]
    exact (ih hbody hrest hpos.tail).trans (and_iff_right (hcut rfl)).symm
  | case4 digits rest ih =>
    obtain ⟨body, hbody, rfl⟩ := Option.map_eq_some_iff.1 h
    obtain ⟨⟨-, hne, hdigits, hlength⟩, hrest⟩ := List.forall_mem_cons.1 hps
    have hstep : renderOctal .cpp digits ++ body = '\\' :: (digits ++ body) := rfl
    have hhead := head?_render? hbody
    rw [hstep, List.flatMap_cons, units, List.isChain_cons]
    by_cases hends : digits.length < 3 → rest.head?.any isOctalDigit = false
    · have hnext : digits.length < 3 → ∀ c ∈ body.head?, Number.isOctalDigit c = false :=
        fun hshort => (Option.any_eq_false ..).1 (hhead.trans (hends hshort))
      have hchain : ∀ r ∈ rest.head?, (octal digits).readsOn = true → r.isOctalDigit = false :=
        fun r hr hreads => (Option.any_eq_false ..).1 (hends (of_decide_eq_true hreads)) r hr
      rw [cppUnits?_octal hne hdigits hlength hnext, and_iff_right hchain]
      exact (hpass (u := [ofDigits 8 digits])).trans (ih hbody hrest hpos.tail)
    · obtain ⟨hshort, hnext⟩ := Classical.not_imp.1 hends
      rw [Bool.not_eq_false] at hnext
      have hreads : (octal digits).readsOn = true := decide_eq_true hshort
      obtain ⟨r, hr, hdigit⟩ := (Option.any_eq_true ..).1 hnext
      obtain ⟨c, hc, hoctal⟩ := (Option.any_eq_true ..).1 (hhead.trans hnext)
      obtain ⟨after, rfl⟩ := List.head?_eq_some_iff.1 hc
      have hvalue : [ofDigits 8 digits] ≠ [0] := (List.isChain_cons.1 hpos).1 r hr hreads hdigit
      refine iff_of_false (cppUnits?_octal_ne hne hdigits hshort hoctal ?_) fun hchain => ?_
      · exact Nat.pos_of_ne_zero fun hzero => hvalue (congrArg ([·]) hzero)
      · rw [hchain.1 r hr hreads] at hdigit
        cases hdigit
  | case5 v rest hc ih =>
    obtain ⟨body, hbody, rfl⟩ := Option.map_eq_some_iff.1 h
    obtain ⟨⟨hp, -⟩, hrest⟩ := List.forall_mem_cons.1 hps
    have hv : v < 0x10000 := hp
    have hunits : utf16 v = [v] := if_pos hv
    have hsurrogate : isSurrogate v = false := by simpa using hc
    rw [cppUnits?_codePoint (Nat.lt_trans hv (by decide)) hsurrogate, hunits, List.flatMap_cons,
      units, hpass, List.isChain_cons]
    exact (ih hbody hrest hpos.tail).trans (and_iff_right (hcut rfl)).symm
  | case6 v hc hhigh low rest hlow ih =>
    obtain ⟨body, hbody, rfl⟩ := Option.map_eq_some_iff.1 h
    obtain ⟨-, htail⟩ := List.forall_mem_cons.1 hps
    obtain ⟨-, hrest⟩ := List.forall_mem_cons.1 htail
    have hlt := (pairValue_bounds hhigh hlow).2
    have hsurrogate := isSurrogate_pairValue hhigh hlow
    have hunits : (Piece.unit v :: .unit low :: rest).flatMap units =
        [v, low] ++ rest.flatMap units := rfl
    rw [cppUnits?_codePoint hlt hsurrogate, utf16_pairValue hhigh hlow, hunits, hpass,
      List.isChain_cons, List.isChain_cons]
    exact (ih hbody hrest hpos.tail.tail).trans
      ((and_iff_right (hcut rfl)).trans (and_iff_right (hcut rfl))).symm
  | case7 => cases h
  | case8 => cases h
  | case9 => cases h

/-- C++ has a body for the same pieces as Swift. -/
theorem render?_cpp_eq_none_iff (ps : List Piece) :
    render? .cpp q ps = none ↔ render? .swift q ps = none := by
  fun_induction render? .swift q ps with
  | case1 => exact iff_of_false (Option.some_ne_none _) (Option.some_ne_none _)
  | case2 c rest ih | case3 c rest ih | case4 c rest ih =>
    rw [render?, Option.map_eq_none_iff, Option.map_eq_none_iff, ih]
  | case5 v rest hc ih =>
    have hv : isSurrogate v = false := by simpa using hc
    rw [render?.eq_def]
    simp [hv, ih]
  | case6 v hc hhigh low rest hlow ih =>
    have hv : isSurrogate v = true := by simpa using hc
    rw [render?.eq_def]
    simp [hv, hhigh, hlow, ih]
  | case7 v hc hhigh low rest hlow =>
    have hv : isSurrogate v = true := by simpa using hc
    rw [render?.eq_def]
    simp [hv, hhigh, hlow]
  | case8 v rest hc hhigh hnone =>
    have hv : isSurrogate v = true := by simpa using hc
    rw [render?.eq_def]
    simp [hv, hhigh]
  | case9 v rest hc hhigh =>
    have hv : isSurrogate v = true := by simpa using hc
    rw [render?.eq_def]
    simp [hv, hhigh]

end Piece

/-! ## Literals -/

/-- C++ may read more digits than the escape has. -/
def Element.readsOn : Element → Bool
  | .octal _ more => more.length < 2
  | _ => false

/-- C++ reads no digit after an octal escape as a part of it. -/
def OctalsEnd (es : List Element) : Prop :=
  es.IsChain fun e f => e.readsOn = true → f.isOctalDigit = false

variable {es : List Element}

/-- The pieces that an element is read as are written as C++ reads the element. -/
theorem Element.hasDigits_piece {e : Element} (h : e.IsValid quote) :
    e.piece.HasDigits ∧ e.piece.readsOn = e.readsOn ∧ e.piece.isOctalDigit = e.isOctalDigit := by
  cases e with
  | plain | simple | unicode => exact ⟨trivial, rfl, rfl⟩
  | octal first more =>
    refine ⟨⟨List.cons_ne_nil _ _, h.1, length_octal_le h⟩, ?_, rfl⟩
    refine decide_eq_decide.2 ?_
    rw [List.length_cons]
    omega

/-- An octal escape that is as long as it can be, and yet too short for C++, begins with a digit
above 3. -/
theorem Element.units_ne_zero {e : Element} (hreads : e.readsOn = true)
    (hroom : e.hasRoom = false) : e.units ≠ [0] := by
  cases e with
  | plain | simple | unicode => cases hreads
  | octal first more =>
    have hshort : more.length < 2 := of_decide_eq_true hreads
    have hfull : ¬more.length < moreOctal first := of_decide_eq_false hroom
    have hfirst : ¬first ≤ '3' := by
      intro hle
      rw [moreOctal, if_pos hle] at hfull
      exact hfull hshort
    have hpos : 0 < digitValue first := by
      have hlt := UInt32.lt_iff_toNat_lt.1 (Char.not_le.1 hfirst)
      exact Nat.sub_pos_of_lt (Nat.lt_trans (by decide) hlt)
    have hvalue : digitValue first ≤ ofDigits 8 (first :: more) := by
      simpa [ofDigits] using ofDigits_le_append [first] more
    intro hzero
    have : ofDigits 8 (first :: more) = 0 := List.head_eq_of_cons_eq hzero
    omega

theorem IsBody.body_keeps_cpp_units {q : Quote} (h : IsBody (Piece.source q) es)
    (hq : q ≠ .singleAsDouble) :
    (Target.literalBody? .cpp q (spelling es) = none ↔ HasLoneHalf (es.map Element.unit?)) ∧
      ∀ out, Target.literalBody? .cpp q (spelling es) = some out →
        (cppUnits? (Piece.written q) out = some (es.flatMap Element.units) ↔ OctalsEnd es) := by
  obtain ⟨hread, hescapes, hunits⟩ := h.units_pieces
  have hpieces (e : Element) (he : e ∈ es) := Element.hasDigits_piece (h.valid e he)
  simp only [h.literalBody?]
  refine ⟨?_, fun out hout => ?_⟩
  · rw [Piece.render?_cpp_eq_none_iff, Piece.render?_swift_eq_none_iff, hescapes]
  · have hreads : ∀ p ∈ es.map Element.piece, p.IsRead (Piece.source q) ∧ p.HasDigits :=
      fun p hp => ⟨hread p hp, List.forall_mem_map.2 (fun e he => (hpieces e he).1) p hp⟩
    have hpos : (es.map Element.piece).IsChain fun p r =>
        p.readsOn = true → r.isOctalDigit = true → p.units ≠ [0] := by
      refine (List.isChain_map _).2 (List.isChain_iff_forall_rel_of_append_cons_cons.2 ?_)
      rintro e f before after heq hreads hdigit
      have he : e ∈ es := by simp [heq]
      have hf : f ∈ es := by simp [heq]
      rw [(hpieces e he).2.1] at hreads
      rw [(hpieces f hf).2.2] at hdigit
      rw [(Element.units_piece (h.valid e he)).2.1]
      refine Element.units_ne_zero hreads (Bool.eq_false_iff.2 fun hroom => ?_)
      rw [h.longest before e f after heq hroom] at hdigit
      cases hdigit
    rw [← hunits, Piece.cppUnits?_render? hq hout hreads hpos, List.isChain_map]
    refine List.IsChain.iff_of_mem_imp fun e f he hf => ?_
    rw [(hpieces e he).2.1, (hpieces f hf).2.2]

end Target

namespace Tree

/-- What a literal becomes in C++: the body that is written for it, in quotes and marked as
UTF-16. -/
theorem IsTextLiteral.render?_cpp {kind : LiteralKind} {es : List Element} {token : String}
    (h : IsTextLiteral kind es token) :
    ∃ q, q ≠ .singleAsDouble ∧ IsBody (Piece.source q) es ∧
      token = String.ofList (Piece.source q :: (spelling es ++ [Piece.source q])) ∧
      kind.render? .cpp token = (literalBody? .cpp q (spelling es)).map fun body =>
        String.ofList ('u' :: Piece.source q :: (body ++ [Piece.source q])) := by
  cases h with
  | string hbody =>
    refine ⟨.double, by decide, hbody, rfl, ?_⟩
    have hliteral : stringLiteral? .cpp ('"' :: (spelling es ++ ['"'])) =
        (literalBody? .cpp .double (spelling es)).map fun body =>
          'u' :: '"' :: (body ++ ['"']) := by
      rw [stringLiteral?, isPrefixOf_quoted hbody, if_neg Bool.false_ne_true, unquote?_quoted]
      exact Option.map_eq_bind.symm
    rw [LiteralKind.render?, String.toList_ofList, hliteral, Option.map_map]
    rfl
  | character hbody =>
    refine ⟨.single, by decide, hbody, rfl, ?_⟩
    have hliteral : characterLiteral? .cpp ('\'' :: (spelling es ++ ['\''])) =
        (literalBody? .cpp .single (spelling es)).map fun body =>
          'u' :: '\'' :: (body ++ ['\'']) := by
      rw [characterLiteral?, unquote?_quoted]
      exact Option.map_eq_bind.symm
    rw [LiteralKind.render?, String.toList_ofList, hliteral, Option.map_map]
    rfl

/-- C++ has a literal for every string or character literal without a lone half of a surrogate
pair. It denotes what the elements of the literal denote one by one just if no octal escape of fewer
than three digits is right before an octal digit. What they denote is what Java reads, unless an
octal escape could go on with a digit that is spelled as a Unicode escape. -/
theorem LiteralKind.render_keeps_cpp_units {kind : LiteralKind} {es : List Element} {token : String}
    (h : IsTextLiteral kind es token) :
    (kind.render? .cpp token = none ↔ HasLoneHalf (es.map Element.unit?)) ∧
      (∀ out, kind.render? .cpp token = some out →
        ∃ quote body, token = String.ofList (quote :: (spelling es ++ [quote])) ∧
          out = String.ofList ('u' :: quote :: (body ++ [quote])) ∧
          (cppUnits? quote body = some (es.flatMap Element.units) ↔ OctalsEnd es)) ∧
      (OctalsEndBefore Element.hidesOctalDigit es →
        javaUnits? (spelling es) = some (es.flatMap Element.units)) := by
  obtain ⟨q, hq, hbody, htoken, heq⟩ := h.render?_cpp
  obtain ⟨hnone, hunits⟩ := hbody.body_keeps_cpp_units hq
  refine ⟨?_, fun out hout => ?_, javaUnits?_spelling hbody⟩
  · rw [heq, Option.map_eq_none_iff, hnone]
  · obtain ⟨body, hwritten, rfl⟩ := Option.map_eq_some_iff.1 (heq.symm.trans hout)
    refine ⟨Piece.source q, body, htoken, rfl, ?_⟩
    have hquote : Piece.written q = Piece.source q := by
      cases q with
      | singleAsDouble => exact absurd rfl hq
      | double | single => rfl
    rw [← hquote]
    exact hunits body hwritten

/-- A line feed before a letter. -/
theorem LiteralKind.render_keeps_cpp_units_letter :
    ∃ quote body, LiteralKind.string.render? .cpp "\"\\12a\"" =
        some (String.ofList ('u' :: quote :: (body ++ [quote]))) ∧
      cppUnits? quote body = some [10, 97] ∧ javaUnits? "\\12a".toList = some [10, 97] := by
  let es : List Element := [.octal '1' ['2'], .plain 'a']
  have hvalid : ∀ e ∈ es, e.IsValid '"' := by
    refine List.forall_mem_cons.2
      ⟨⟨List.all_eq_true.1 rfl, by decide⟩, List.forall_mem_singleton.2 ?_⟩
    exact ⟨by decide, by decide, by decide⟩
  have hends {kind : Element → Bool} (h : kind (.plain 'a') = false) : OctalsEndBefore kind es := by
    refine .cons (fun _ => ?_) (.cons nofun .nil)
    rintro next ⟨⟩
    exact h
  obtain ⟨-, hcpp, hjava⟩ := LiteralKind.render_keeps_cpp_units (.string ⟨hvalid, hends rfl⟩)
  have hout : LiteralKind.string.render? .cpp "\"\\12a\"" = some "u\"\\12a\"" := by decide +kernel
  obtain ⟨quote, body, -, hbody, hunits⟩ := hcpp _ hout
  refine ⟨quote, body, hout.trans (congrArg some hbody), hunits.2 ?_, hjava (hends rfl)⟩
  exact .cons_cons (fun _ => rfl) (.singleton _)

/-- Java ends the escape after two digits, since the first is above 3, and C++ goes on with the
digit behind it. -/
theorem LiteralKind.render_joins_octal :
    IsTextLiteral .string [.octal '4' ['0'], .plain '0'] "\"\\400\"" ∧
      javaUnits? "\\400".toList = some [32, 48] ∧
      LiteralKind.string.render? .cpp "\"\\400\"" = some "u\"\\400\"" ∧
      cppUnits? '"' "\\400".toList = some [256] := by
  refine ⟨.string ⟨?_, ?_⟩, by decide +kernel, by decide +kernel, by decide +kernel⟩
  · refine List.forall_mem_cons.2
      ⟨⟨List.all_eq_true.1 rfl, by decide⟩, List.forall_mem_singleton.2 ?_⟩
    exact ⟨by decide, by decide, by decide⟩
  · exact .cons nofun (.cons nofun .nil)

end Tree

end Lockstep
