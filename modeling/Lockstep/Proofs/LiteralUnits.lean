import Lockstep.Proofs.TextTokens
import Mathlib.Algebra.Group.Nat.Defs

/-!
# What string and character literals denote

A literal of Java denotes code units of UTF-16. These are found in two rounds: first Unicode escapes
are translated, wherever they are, and then the other escapes are read. A rendering reads a body
once, escape by escape. Both come to the same code units, unless an octal escape could go on with a
digit that is itself spelled as a Unicode escape (`javaUnits?_spelling`).

- `Element`, `IsBody`: how Java spells the body of a literal.
- `inputUnits?`, `unescape?`, `javaUnits?`: what a body denotes.
- `Element.units`: what its elements denote one by one.
- `Piece.read?_spelling`: a body is read element by element.
-/

namespace Lockstep.Target

open Text

/-! ## Code units -/

/-- The code units of UTF-16 for a code point. -/
def utf16 (v : Nat) : List Nat :=
  if v < 0x10000 then [v]
  else [0xd800 + (v - 0x10000) / 0x400, 0xdc00 + (v - 0x10000) % 0x400]

theorem utf16_pairValue {high low : Nat} (hh : isHighSurrogate high = true)
    (hl : isLowSurrogate low = true) : utf16 (pairValue high low) = [high, low] := by
  have hbounds := (pairValue_bounds hh hl).1
  simp only [isHighSurrogate, isLowSurrogate, Bool.and_eq_true, decide_eq_true_eq] at hh hl
  have hrest : pairValue high low - 0x10000 = (high - 0xd800) * 0x400 + (low - 0xdc00) := by
    unfold pairValue
    omega
  have hhigh : 0xd800 + (pairValue high low - 0x10000) / 0x400 = high := by omega
  have hlow : 0xdc00 + (pairValue high low - 0x10000) % 0x400 = low := by omega
  rw [utf16, if_neg (Nat.not_lt.2 hbounds), hhigh, hlow]

/-- A code unit of a character is the character, or half of a pair. -/
theorem mem_utf16 {v u : Nat} (h : u ∈ utf16 v) : u = v ∨ 0xd800 ≤ u := by
  unfold utf16 at h
  split at h
  · exact .inl (List.mem_singleton.1 h)
  · right
    rcases List.mem_cons.1 h with rfl | h
    · omega
    · rw [List.mem_singleton.1 h]
      omega

/-- Whether the code unit is an octal digit. -/
def isOctalUnit (v : Nat) : Bool := 48 ≤ v && v ≤ 55

/-- The code unit that a backslash and the character stand for. -/
def simpleValue? : Char → Option Nat
  | 'b' => some 8
  | 't' => some 9
  | 'n' => some 10
  | 'f' => some 12
  | 'r' => some 13
  | 's' => some 32
  | '"' => some 34
  | '\'' => some 39
  | '\\' => some 92
  | _ => none

/-! ## Bodies of Java -/

/-- A part of the body of a literal, as Java spells it. -/
inductive Element where
  | plain (c : Char)
  | simple (c : Char)
  | octal (first : Char) (more : List Char)
  /-- A Unicode escape, with so many letters `u` beside the first. -/
  | unicode (more : Nat) (digits : List Char)
  deriving DecidableEq, Repr

/-- How many digits an octal escape may have after the first. -/
def moreOctal (first : Char) : Nat := if first ≤ '3' then 2 else 1

namespace Element

def spelling : Element → List Char
  | .plain c => [c]
  | .simple c => ['\\', c]
  | .octal first more => '\\' :: first :: more
  | .unicode more digits => '\\' :: 'u' :: (List.replicate more 'u' ++ digits)

/-- The element may stand between the quotes. A Unicode escape must not denote a backslash, the
quote or the end of a line, since it is translated before the literal is looked at. -/
def IsValid (quote : Char) : Element → Prop
  | .plain c => c ≠ quote ∧ c ≠ '\\' ∧ isLineBreak c = false
  | .simple c => (simpleValue? c).isSome = true
  | .octal first more => (∀ c ∈ first :: more, Number.isOctalDigit c = true) ∧
      more.length ≤ moreOctal first
  | .unicode _ digits => digits.length = 4 ∧
      ∃ v, ofHex? digits = some v ∧ v ∉ [92, quote.toNat, 10, 13]

/-- An octal escape that could have one more digit. -/
def hasRoom : Element → Bool
  | .octal first more => more.length < moreOctal first
  | _ => false

/-- An octal digit that stands for itself. -/
def isOctalDigit : Element → Bool
  | .plain c => Number.isOctalDigit c
  | _ => false

/-- The code unit of a Unicode escape. -/
def unit? : Element → Option Nat
  | .unicode _ digits => ofHex? digits
  | _ => none

/-- An octal digit that is spelled as a Unicode escape. -/
def hidesOctalDigit (e : Element) : Bool := e.unit?.any isOctalUnit

/-- What the element denotes on its own. -/
def units : Element → List Nat
  | .plain c => utf16 c.toNat
  | .simple c => (simpleValue? c).toList
  | .octal first more => [ofDigits 8 (first :: more)]
  | .unicode _ digits => (ofHex? digits).toList

/-- What the element is read as. -/
def piece : Element → Piece
  | .plain c => .plain c
  | .simple c => .simple c
  | .octal first more => .octal (first :: more)
  | .unicode _ digits => .unit ((ofHex? digits).getD 0)

end Element

def spelling (es : List Element) : List Char := es.flatMap Element.spelling

theorem spelling_cons (e : Element) (es : List Element) :
    spelling (e :: es) = e.spelling ++ spelling es := List.flatMap_cons

/-- No octal escape that could have one more digit is right before an element of that kind. -/
def OctalsEndBefore (kind : Element → Bool) (es : List Element) : Prop :=
  ∀ before octal next after, es = before ++ octal :: next :: after → octal.hasRoom = true →
    kind next = false

/-- The elements make up the body of a literal. Octal escapes are as long as they can be. -/
structure IsBody (quote : Char) (es : List Element) : Prop where
  valid : ∀ e ∈ es, e.IsValid quote
  longest : OctalsEndBefore Element.isOctalDigit es

namespace OctalsEndBefore

variable {kind : Element → Bool} {e : Element} {es : List Element}

theorem nil : OctalsEndBefore kind [] := by
  rintro (_ | _) octal next after ⟨⟩

theorem cons (hfirst : e.hasRoom = true → ∀ next ∈ es.head?, kind next = false)
    (h : OctalsEndBefore kind es) : OctalsEndBefore kind (e :: es) := by
  rintro (_ | ⟨first, before⟩) octal next after heq hroom
  · cases heq
    exact hfirst hroom next rfl
  · cases heq
    exact h before octal next after rfl hroom

theorem tail (h : OctalsEndBefore kind (e :: es)) : OctalsEndBefore kind es :=
  fun before octal next after heq => h (e :: before) octal next after (congrArg (e :: ·) heq)

theorem head (h : OctalsEndBefore kind (e :: es)) (hroom : e.hasRoom = true) :
    ∀ next ∈ es.head?, kind next = false := by
  intro next hnext
  cases es with
  | nil => cases hnext
  | cons f es =>
    obtain rfl : f = next := Option.some.inj hnext
    exact h [] e f es rfl hroom

end OctalsEndBefore

theorem IsBody.tail {quote : Char} {e : Element} {es : List Element} (h : IsBody quote (e :: es)) :
    IsBody quote es :=
  ⟨fun f hf => h.valid f (List.mem_cons_of_mem e hf), h.longest.tail⟩

/-! ## What a body denotes -/

/-- The code units of a text when its Unicode escapes are translated. A backslash after a backslash
begins no such escape. -/
def inputUnits? : List Char → Option (List Nat)
  | [] => some []
  | '\\' :: 'u' :: rest =>
    let digits := rest.dropWhile (· == 'u')
    if digits.length < 4 then none
    else (ofHex? (digits.take 4)).bind fun v => (inputUnits? (digits.drop 4)).map (v :: ·)
  | '\\' :: c :: rest => (inputUnits? rest).map (92 :: utf16 c.toNat ++ ·)
  | c :: rest => (inputUnits? rest).map (utf16 c.toNat ++ ·)
  termination_by cs => cs.length
  decreasing_by
    · have := (List.dropWhile_suffix (· == 'u') (l := rest)).length_le
      simp only [List.length_drop, List.length_cons]
      omega
    · simp only [List.length_cons]
      omega
    · simp

/-- The octal digits at the front, as many as an escape may have. -/
def octalRun (units : List Nat) : List Nat :=
  (units.take (if units.head?.any (· ≤ 51) then 3 else 2)).takeWhile isOctalUnit

/-- The code units that are left when escapes are read. -/
def unescape? (units : List Nat) : Option (List Nat) :=
  match units with
  | [] => some []
  | v :: rest =>
    if v != 92 then (unescape? rest).map (v :: ·)
    else match rest with
      | [] => none
      | c :: after =>
        if isOctalUnit c then
          let digits := octalRun (c :: after)
          (unescape? ((c :: after).drop digits.length)).map
            (digits.foldl (fun n d => n * 8 + (d - 48)) 0 :: ·)
        else (simpleValue? (Char.ofNat c)).bind fun v => (unescape? after).map (v :: ·)
  termination_by units.length
  decreasing_by
    · simp
    · simp only [List.length_drop, List.length_cons]
      omega
    · simp only [List.length_cons]
      omega

/-- The code units that the body of a literal denotes. -/
def javaUnits? (body : List Char) : Option (List Nat) := (inputUnits? body).bind unescape?

/-! ## Digits -/

theorem toNat_sub_le {first last c : Char} (h : c ≤ last) :
    c.toNat - first.toNat ≤ last.toNat - first.toNat :=
  Nat.sub_le_sub_right (UInt32.le_iff_toNat_le.1 h) _

theorem hexValue?_lt {c : Char} {d : Nat} (h : hexValue? c = some d) : d < 16 := by
  have letter {first last : Char} (hc : c ≤ last) (hlast : last.toNat - first.toNat < 6) :
      c.toNat - first.toNat + 10 < 16 :=
    Nat.add_lt_add_right (Nat.lt_of_le_of_lt (toNat_sub_le hc) hlast) 10
  unfold hexValue? at h
  split at h
  · next hc =>
    cases h
    exact Nat.lt_of_le_of_lt (toNat_sub_le hc.2) (by decide)
  · split at h
    · next hc =>
      cases h
      exact letter hc.2 (by decide)
    · split at h
      · next hc =>
        cases h
        exact letter hc.2 (by decide)
      · cases h

/-- One more digit keeps a number below the bound that its first digits set. -/
theorem digit_mul_pow_le {base d : Nat} (hd : d < base) (n k : Nat) :
    (n * base + d + 1) * base ^ k ≤ (n + 1) * base ^ (k + 1) := by
  have hdigit : n * base + d + 1 ≤ (n + 1) * base := by
    rw [Nat.succ_mul]
    omega
  calc (n * base + d + 1) * base ^ k ≤ (n + 1) * base * base ^ k := Nat.mul_le_mul_right _ hdigit
    _ = (n + 1) * base ^ (k + 1) := by rw [Nat.pow_succ', Nat.mul_assoc]

theorem ofHex?_lt {digits : List Char} {v : Nat} (h : ofHex? digits = some v) :
    v < 16 ^ digits.length := by
  have hfrom : ∀ n, digits.foldlM (fun n c => (hexValue? c).map (n * 16 + ·)) n = some v →
      v < (n + 1) * 16 ^ digits.length := by
    clear h
    induction digits with
    | nil =>
      rintro n ⟨⟩
      simp
    | cons c cs ih =>
      intro n h
      obtain ⟨m, hm, htail⟩ := Option.bind_eq_some_iff.1 (List.foldlM_cons.symm.trans h)
      obtain ⟨d, hd, rfl⟩ := Option.map_eq_some_iff.1 hm
      calc v < (n * 16 + d + 1) * 16 ^ cs.length := ih _ htail
        _ ≤ (n + 1) * 16 ^ (c :: cs).length := digit_mul_pow_le (hexValue?_lt hd) n cs.length
  simpa using hfrom 0 h

/-- What is taken of a text, up to a bound, if it cannot be longer. -/
theorem takeWhile_take_append {α : Type} {p : α → Bool} {xs ys : List α} {n : Nat}
    (hxs : ∀ x ∈ xs, p x = true) (hn : xs.length ≤ n)
    (hys : xs.length < n → ∀ y ∈ ys.head?, p y = false) :
    ((xs ++ ys).take n).takeWhile p = xs := by
  rw [List.take_append, List.take_of_length_le hn, List.takeWhile_append_of_pos hxs]
  rcases Nat.lt_or_eq_of_le hn with hlt | heq
  · cases ys with
    | nil => simp
    | cons y ys =>
      obtain ⟨m, hm⟩ : ∃ m, n - xs.length = m + 1 := ⟨n - xs.length - 1, by omega⟩
      have hy : ¬p y = true := by simp [hys hlt y rfl]
      rw [hm, List.take_succ_cons, List.takeWhile_cons_of_neg hy, List.append_nil]
  · rw [heq, Nat.sub_self, List.take_zero, List.takeWhile_nil, List.append_nil]

/-- Four digits are cut off from what follows. -/
theorem four_append {digits : List Char} (h : digits.length = 4) (text : List Char) :
    ¬(digits ++ text).length < 4 ∧ (digits ++ text).take 4 = digits ∧
      (digits ++ text).drop 4 = text := by
  refine ⟨?_, List.take_left' h, List.drop_left' h⟩
  rw [List.length_append, h]
  omega

/-! ## Bodies are read element by element -/

variable {quote : Char} {text : List Char} {es : List Element}

theorem of_simpleValue? {c : Char} (h : (simpleValue? c).isSome = true) :
    c ≠ 'u' ∧ Number.isOctalDigit c = false ∧ Piece.isSimple c = true := by
  unfold simpleValue? at h
  split at h <;> first | decide | cases h

/-- Letters before hexadecimal digits are passed. -/
theorem dropWhile_u {digits : List Char} {v : Nat} (hlength : digits.length = 4)
    (hvalue : ofHex? digits = some v) (more : Nat) :
    (List.replicate more 'u' ++ digits ++ text).dropWhile (· == 'u') = digits ++ text := by
  have hu : ∀ c ∈ List.replicate more 'u', (c == 'u') = true := fun c hc => by
    rw [(List.mem_replicate.1 hc).2, beq_self_eq_true]
  rw [List.append_assoc, List.dropWhile_append_of_pos hu]
  cases digits with
  | nil => cases hlength
  | cons c cs =>
    obtain ⟨m, hm, -⟩ := Option.bind_eq_some_iff.1 (List.foldlM_cons.symm.trans hvalue)
    refine List.dropWhile_cons_of_neg fun hc => ?_
    rw [beq_iff_eq.1 hc] at hm
    cases hm

namespace Piece

theorem read?_plain {c : Char} (hc : c ≠ '\\') :
    read? (c :: text) = (read? text).map (.plain c :: ·) := by
  rw [read?]
  exact hc

theorem read?_escape {p : Piece} {cs after : List Char} (h : escape? cs = some (p, after)) :
    read? ('\\' :: cs) = (read? after).map (p :: ·) := by
  rw [read?]
  split
  · next hp =>
    rw [h] at hp
    cases hp
    rfl
  · next hp =>
    rw [h] at hp
    cases hp

theorem escape?_simple {c : Char} (h : (simpleValue? c).isSome = true) :
    escape? (c :: text) = some (.simple c, text) := by
  obtain ⟨hu, hoctal, hsimple⟩ := of_simpleValue? h
  simp only [escape?, beq_false_of_ne hu, Bool.false_eq_true, if_false, hoctal, hsimple, if_true]

theorem escape?_octal {first : Char} {more : List Char}
    (hdigits : ∀ c ∈ first :: more, Number.isOctalDigit c = true)
    (hlength : more.length ≤ moreOctal first)
    (hnext : more.length < moreOctal first → ∀ c ∈ text.head?, Number.isOctalDigit c = false) :
    escape? (first :: more ++ text) = some (.octal (first :: more), text) := by
  have hfirst := hdigits first List.mem_cons_self
  have hlimit : octalLimit first = moreOctal first + 1 := by
    unfold octalLimit moreOctal
    split <;> rfl
  have hu : (first == 'u') = false := by
    refine beq_false_of_ne ?_
    rintro rfl
    cases hfirst
  have hrun : ((first :: more ++ text).take (octalLimit first)).takeWhile Number.isOctalDigit =
      first :: more := by
    rw [hlimit]
    exact takeWhile_take_append hdigits (Nat.succ_le_succ hlength)
      fun hlt => hnext (Nat.lt_of_succ_lt_succ hlt)
  have hdrop : (first :: more ++ text).drop (first :: more).length = text := List.drop_left
  rw [List.cons_append] at hrun hdrop ⊢
  simp only [escape?, hu, Bool.false_eq_true, if_false, hfirst, if_true, hrun, hdrop]

theorem escape?_unicode {digits : List Char} {v : Nat} (hlength : digits.length = 4)
    (hvalue : ofHex? digits = some v) (more : Nat) :
    escape? ('u' :: (List.replicate more 'u' ++ digits) ++ text) = some (.unit v, text) := by
  have hunit : unit? digits = some v := by
    cases digits with
    | nil => cases hlength
    | cons c cs =>
      rw [unit?]
      · exact hvalue
      · rintro ds heq
        cases heq
        cases hvalue
  obtain ⟨hfour, htake, hdrop⟩ := four_append hlength text
  simp only [escape?, List.cons_append, beq_self_eq_true, if_true, dropWhile_u hlength hvalue,
    hfour, if_false, htake, hunit, hdrop, Option.map_some]

/-- An element is read, if no digit after it belongs to it. -/
theorem read?_append {e : Element} (hvalid : e.IsValid quote)
    (hnext : e.hasRoom = true → ∀ c ∈ text.head?, Number.isOctalDigit c = false) :
    read? (e.spelling ++ text) = (read? text).map (e.piece :: ·) := by
  cases e with
  | plain c => exact read?_plain hvalid.2.1
  | simple c => exact read?_escape (escape?_simple hvalid)
  | octal first more =>
    obtain ⟨hdigits, hlength⟩ := hvalid
    exact read?_escape (escape?_octal hdigits hlength fun hlt => hnext (decide_eq_true hlt))
  | unicode more digits =>
    obtain ⟨hlength, v, hvalue, -⟩ := hvalid
    rw [Element.piece, hvalue]
    exact read?_escape (escape?_unicode hlength hvalue more)

end Piece

theorem Element.head?_spelling {e : Element} (h : e.isOctalDigit = false) :
    ∀ c ∈ (e.spelling ++ text).head?, Number.isOctalDigit c = false := by
  cases e <;> rintro c ⟨⟩
  · exact h
  all_goals rfl

/-- A body is read element by element. -/
theorem Piece.read?_spelling (h : IsBody quote es) :
    Piece.read? (spelling es) = some (es.map Element.piece) := by
  induction es with
  | nil =>
    rw [show spelling [] = [] from rfl, Piece.read?]
    rfl
  | cons e es ih =>
    have hnext : e.hasRoom = true → ∀ c ∈ (spelling es).head?, Number.isOctalDigit c = false := by
      intro hroom
      cases es with
      | nil => rintro c ⟨⟩
      | cons f es => exact f.head?_spelling (h.longest.head hroom f rfl)
    rw [spelling_cons, Piece.read?_append (h.valid e List.mem_cons_self) hnext, ih h.tail]
    rfl

/-! ## What an element denotes in Java -/

namespace Element

/-- The code units of an element when Unicode escapes are translated. -/
def input : Element → List Nat
  | .plain c => utf16 c.toNat
  | .simple c => 92 :: utf16 c.toNat
  | .octal first more => 92 :: (first :: more).map Char.toNat
  | .unicode _ digits => (ofHex? digits).toList

end Element

theorem isOctalUnit_toNat (c : Char) : isOctalUnit c.toNat = Number.isOctalDigit c := by
  simp only [isOctalUnit, Number.isOctalDigit, Char.le_def, UInt32.le_iff_toNat_le,
    Char.toNat_val]
  rfl

theorem utf16_octalDigit {c : Char} (h : Number.isOctalDigit c = true) :
    utf16 c.toNat = [c.toNat] := by
  rw [← isOctalUnit_toNat, isOctalUnit, Bool.and_eq_true, decide_eq_true_eq, decide_eq_true_eq] at h
  exact if_pos (by omega)

theorem inputUnits?_plain {c : Char} (hc : c ≠ '\\') :
    inputUnits? (c :: text) = (inputUnits? text).map (utf16 c.toNat ++ ·) := by
  rw [inputUnits?]
  · exact fun _ h _ => hc h
  · exact fun _ _ h _ => hc h

theorem inputUnits?_octalDigits {digits : List Char}
    (h : ∀ c ∈ digits, Number.isOctalDigit c = true) :
    inputUnits? (digits ++ text) = (inputUnits? text).map (digits.map Char.toNat ++ ·) := by
  induction digits with
  | nil => simp
  | cons c cs ih =>
    obtain ⟨hc, hcs⟩ := List.forall_mem_cons.1 h
    have hslash : c ≠ '\\' := by
      rintro rfl
      cases hc
    rw [List.cons_append, inputUnits?_plain hslash, ih hcs, utf16_octalDigit hc, Option.map_map]
    rfl

/-- A backslash with a character that is no letter `u`. -/
theorem inputUnits?_escape {c : Char} (hc : c ≠ 'u') :
    inputUnits? ('\\' :: c :: text) = (inputUnits? text).map (92 :: utf16 c.toNat ++ ·) := by
  rw [inputUnits?]
  exact hc

theorem inputUnits?_append {e : Element} (h : e.IsValid quote) :
    inputUnits? (e.spelling ++ text) = (inputUnits? text).map (e.input ++ ·) := by
  cases e with
  | plain c => exact inputUnits?_plain h.2.1
  | simple c => exact inputUnits?_escape (of_simpleValue? h).1
  | octal first more =>
    obtain ⟨hfirst, hmore⟩ := List.forall_mem_cons.1 h.1
    have hu : first ≠ 'u' := by
      rintro rfl
      cases hfirst
    have hfront : inputUnits? ('\\' :: first :: (more ++ text)) = _ := inputUnits?_escape hu
    rw [inputUnits?_octalDigits hmore, utf16_octalDigit hfirst, Option.map_map] at hfront
    exact hfront
  | unicode more digits =>
    obtain ⟨hlength, v, hvalue, -⟩ := h
    obtain ⟨hfour, htake, hdrop⟩ := four_append hlength text
    rw [Element.spelling, Element.input, List.cons_append, List.cons_append, inputUnits?]
    simp only [dropWhile_u hlength hvalue, hfour, if_false, htake, hdrop, hvalue]
    rfl

/-! ### Escapes -/

variable {us : List Nat}

theorem unescape?_plain {vs : List Nat} (h : ∀ v ∈ vs, v ≠ 92) :
    unescape? (vs ++ us) = (unescape? us).map (vs ++ ·) := by
  induction vs with
  | nil => simp
  | cons v vs ih =>
    obtain ⟨hv, hvs⟩ := List.forall_mem_cons.1 h
    rw [List.cons_append, unescape?.eq_def]
    simp only [bne_iff_ne.2 hv, if_true, ih hvs, Option.map_map]
    rfl

theorem unescape?_octal {first : Char} {more : List Char}
    (hdigits : ∀ c ∈ first :: more, Number.isOctalDigit c = true)
    (hlength : more.length ≤ moreOctal first)
    (hnext : more.length < moreOctal first → ∀ v ∈ us.head?, isOctalUnit v = false) :
    unescape? (92 :: ((first :: more).map Char.toNat ++ us)) =
      (unescape? us).map (ofDigits 8 (first :: more) :: ·) := by
  have hunits : ∀ v ∈ (first :: more).map Char.toNat, isOctalUnit v = true := by
    refine List.forall_mem_map.2 fun c hc => ?_
    rw [isOctalUnit_toNat]
    exact hdigits c hc
  have hlimit : (if ((first :: more).map Char.toNat ++ us).head?.any (· ≤ 51) then 3 else 2) =
      moreOctal first + 1 := by
    have hle : (decide (first.toNat ≤ 51) = true) ↔ first ≤ '3' := by
      rw [decide_eq_true_eq, Char.le_def, UInt32.le_iff_toNat_le]
      rfl
    by_cases h3 : first ≤ '3'
    · rw [moreOctal, if_pos h3]
      exact if_pos (hle.2 h3)
    · rw [moreOctal, if_neg h3]
      exact if_neg (mt hle.1 h3)
  have hrun : octalRun ((first :: more).map Char.toNat ++ us) =
      (first :: more).map Char.toNat := by
    rw [octalRun, hlimit]
    refine takeWhile_take_append hunits ?_ ?_
    · simpa using hlength
    · simpa using hnext
  have hdrop : ((first :: more).map Char.toNat ++ us).drop
      ((first :: more).map Char.toNat).length = us := List.drop_left
  have hvalue : ((first :: more).map Char.toNat).foldl (fun n d => n * 8 + (d - 48)) 0 =
      ofDigits 8 (first :: more) := List.foldl_map
  have hfirst := hunits first.toNat List.mem_cons_self
  rw [List.map_cons, List.cons_append] at hrun hdrop ⊢
  rw [List.map_cons] at hvalue
  rw [unescape?.eq_def]
  simp only [bne_self_eq_false, Bool.false_eq_true, if_false, hfirst, if_true, hrun, hdrop, hvalue]

theorem unescape?_simple {c : Char} {v : Nat} (h : simpleValue? c = some v) :
    unescape? (92 :: (utf16 c.toNat ++ us)) = (unescape? us).map (v :: ·) := by
  have hunit : utf16 c.toNat = [c.toNat] ∧ Number.isOctalDigit c = false := by
    unfold simpleValue? at h
    split at h <;> first | decide | cases h
  rw [hunit.1, unescape?.eq_def]
  simp only [bne_self_eq_false, Bool.false_eq_true, if_false, List.singleton_append,
    isOctalUnit_toNat, hunit.2, Char.ofNat_toNat, h, Option.bind_some]

theorem ne_backslash_of_mem_utf16 {c : Char} (hc : c ≠ '\\') : ∀ v ∈ utf16 c.toNat, v ≠ 92 := by
  rintro v hv rfl
  rcases mem_utf16 hv with h | h
  · exact hc (Char.toNat_inj.1 h.symm)
  · omega

/-- The escapes of an element are read, if no digit after it belongs to it. -/
theorem unescape?_append {e : Element} (hvalid : e.IsValid quote)
    (hnext : e.hasRoom = true → ∀ v ∈ us.head?, isOctalUnit v = false) :
    unescape? (e.input ++ us) = (unescape? us).map (e.units ++ ·) := by
  cases e with
  | plain c => exact unescape?_plain (ne_backslash_of_mem_utf16 hvalid.2.1)
  | simple c =>
    obtain ⟨v, hv⟩ := Option.isSome_iff_exists.1 hvalid
    rw [Element.units, hv]
    exact unescape?_simple hv
  | octal first more =>
    obtain ⟨hdigits, hlength⟩ := hvalid
    exact unescape?_octal hdigits hlength fun hlt => hnext (decide_eq_true hlt)
  | unicode more digits =>
    obtain ⟨-, v, hvalue, hv⟩ := hvalid
    refine unescape?_plain ?_
    rw [Element.input, hvalue]
    refine List.forall_mem_singleton.2 ?_
    rintro rfl
    exact hv List.mem_cons_self

/-- What an element begins with, if it is no octal digit, however spelled. -/
theorem Element.head?_input {e : Element} (hvalid : e.IsValid quote)
    (hplain : e.isOctalDigit = false) (hhidden : e.hidesOctalDigit = false) :
    ∀ v ∈ (e.input ++ us).head?, isOctalUnit v = false := by
  cases e with
  | plain c =>
    rw [Element.input, utf16]
    split
    · rintro v ⟨⟩
      rw [isOctalUnit_toNat]
      exact hplain
    · rintro v ⟨⟩
      simp only [isOctalUnit, Bool.and_eq_false_iff, decide_eq_false_iff_not]
      omega
  | simple c =>
    rintro v ⟨⟩
    rfl
  | octal first more =>
    rintro v ⟨⟩
    rfl
  | unicode more digits =>
    obtain ⟨-, u, hvalue, -⟩ := hvalid
    rw [Element.input, hvalue]
    rw [Element.hidesOctalDigit, Element.unit?, hvalue] at hhidden
    rintro v ⟨⟩
    exact hhidden

/-- Java reads a body as what its elements denote one by one, unless an octal escape could go on
with a digit that is spelled as a Unicode escape. -/
theorem javaUnits?_spelling (h : IsBody quote es)
    (hhidden : OctalsEndBefore Element.hidesOctalDigit es) :
    javaUnits? (spelling es) = some (es.flatMap Element.units) := by
  have hinput : inputUnits? (spelling es) = some (es.flatMap Element.input) := by
    clear hhidden
    induction es with
    | nil =>
      rw [show spelling [] = [] from rfl, inputUnits?]
      rfl
    | cons e es ih =>
      rw [spelling_cons, inputUnits?_append (h.valid e List.mem_cons_self), ih h.tail]
      rfl
  rw [javaUnits?, hinput, Option.bind_some]
  clear hinput
  induction es with
  | nil => rw [List.flatMap_nil, unescape?.eq_def, List.flatMap_nil]
  | cons e es ih =>
    have hnext : e.hasRoom = true →
        ∀ v ∈ (es.flatMap Element.input).head?, isOctalUnit v = false := by
      intro hroom
      cases es with
      | nil => rintro v ⟨⟩
      | cons f es =>
        have hf := h.valid f (List.mem_cons_of_mem e List.mem_cons_self)
        exact f.head?_input hf (h.longest.head hroom f rfl) (hhidden.head hroom f rfl)
    rw [List.flatMap_cons, unescape?_append (h.valid e List.mem_cons_self) hnext,
      ih h.tail hhidden.tail, List.flatMap_cons]
    rfl

end Lockstep.Target
