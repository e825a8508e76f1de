import Lockstep.Json.Printer
import Lockstep.Json.Reader
import Mathlib.Data.List.Basic
import Mathlib.Data.Nat.Notation

/-!
# JSON text is read back

The text of a value is read as the value, unless a number in it is spelled in a way of its own or
more containers are nested than the reader takes. The text is cut into the tokens it was made of,
the tokens bring back the containers, and these the values.

- `Json.IsPlain`: the values whose numbers are natural numbers of 32 bits.
- `Json.tokens?_chars`: the tokens of a text.
- `Json.foldlM_tokens`: the containers that the tokens make.
- `Json.parse?_text`: the value that is read.
-/

namespace Lockstep.Json

open Text

/-! ## Numbers -/

/-- A natural number as it is written. -/
def Numeral.ofNat (n : Nat) : Numeral := ⟨[], Nat.toDigits 10 n, [], []⟩

/-- Nothing that would be read as a part of a number comes first. -/
def Ends (rest : List Char) : Prop :=
  ∀ c ∈ rest.head?, c.isDigit = false ∧ c ≠ '.' ∧ c ≠ 'e' ∧ c ≠ 'E'

theorem isDigit_toDigits (n : Nat) : ∀ c ∈ Nat.toDigits 10 n, c.isDigit = true :=
  fun _ hc => Nat.isDigit_of_mem_toDigits (by decide) (by decide) hc

/-- No number but zero is written with a leading zero. -/
theorem head_toDigits {n : Nat} (h : 0 < n) : ∃ c ds, Nat.toDigits 10 n = c :: ds ∧ c ≠ '0' := by
  induction n using Nat.strongRecOn with
  | ind n ih =>
    rw [Nat.toDigits_eq_if (by decide)]
    split
    · next hlt =>
      refine ⟨_, [], rfl, ?_⟩
      have hall : ∀ m : Fin 10, 0 < m.val → Nat.digitChar m.val ≠ '0' := by decide
      exact hall ⟨n, hlt⟩ h
    · next hle =>
      obtain ⟨c, ds, hds, hc⟩ := ih (n / 10) (by omega) (by omega)
      exact ⟨c, ds ++ [Nat.digitChar (n % 10)], by rw [hds]; rfl, hc⟩

theorem digits_append {ds rest : List Char} (hds : ∀ c ∈ ds, c.isDigit = true)
    (hrest : Ends rest) : digits (ds ++ rest) = (ds, rest) := by
  have hstop : rest.takeWhile Char.isDigit = [] ∧ rest.dropWhile Char.isDigit = rest := by
    cases rest with
    | nil => exact ⟨rfl, rfl⟩
    | cons c rest =>
      obtain ⟨hdigit, -⟩ := hrest c rfl
      simp [hdigit]
  rw [digits, List.takeWhile_append_of_pos hds, List.dropWhile_append_of_pos hds, hstop.1, hstop.2,
    List.append_nil]

theorem whole?_toDigits (n : Nat) {rest : List Char} (hrest : Ends rest) :
    whole? (Nat.toDigits 10 n ++ rest) = some (Nat.toDigits 10 n, rest) := by
  rcases Nat.eq_zero_or_pos n with rfl | hpos
  · rfl
  · have hdigits := digits_append (isDigit_toDigits n) hrest
    obtain ⟨c, ds, hds, hc⟩ := head_toDigits hpos
    rw [hds] at hdigits ⊢
    rw [List.cons_append] at hdigits ⊢
    unfold whole?
    split
    · next heq => exact absurd (List.cons.inj heq).1 hc
    · rw [digits?, hdigits]
      rfl

theorem numeral?_toDigits (n : Nat) {rest : List Char} (hrest : Ends rest) :
    numeral? (Nat.toDigits 10 n ++ rest) = some (.ofNat n, rest) := by
  have hminus : minus (Nat.toDigits 10 n ++ rest) = ([], Nat.toDigits 10 n ++ rest) := by
    unfold minus
    split
    · next heq =>
      cases hds : Nat.toDigits 10 n with
      | nil => exact absurd hds Nat.toDigits_ne_nil
      | cons c ds =>
        rw [hds] at heq
        have hdigit := isDigit_toDigits n c (hds ▸ List.mem_cons_self)
        rw [(List.cons.inj heq).1] at hdigit
        cases hdigit
    · rfl
  have hfraction : fraction? rest = some ([], rest) := by
    unfold fraction?
    split
    · next heq => exact absurd rfl (hrest _ rfl).2.1
    · rfl
  have hexponent : exponent? rest = some ([], rest) := by
    unfold exponent?
    split
    · next c rest =>
      obtain ⟨-, -, he, hE⟩ := hrest c rfl
      simp [he, hE]
    · rfl
  rw [numeral?, hminus]
  simp only [whole?_toDigits n hrest, hfraction, hexponent, Option.bind_eq_bind, Option.bind_some]
  rfl

theorem ofDigits_toDigits (n : Nat) : ofDigits 10 (Nat.toDigits 10 n) = n := by
  have hvalue : Nat.ofDigitChars 10 (Nat.toDigits 10 n) 0 = n :=
    Nat.ofDigitChars_toDigits (by decide) (by decide)
  rw [Nat.ofDigitChars] at hvalue
  simpa only [ofDigits, digitValue, Nat.mul_comm] using hvalue

/-- Digits whose number stays below the bound are all appended. -/
theorem appendDigits_eq {n : Nat} {ds : List Char}
    (h : ds.foldl (fun n c => n * 10 + digitValue c) n < UInt64.size) :
    appendDigits n ds = (ds.foldl (fun n c => n * 10 + digitValue c) n, 0) := by
  have hle (ds : List Char) (n : Nat) :
      n ≤ ds.foldl (fun n c => n * 10 + digitValue c) n := by
    induction ds generalizing n with
    | nil => exact Nat.le_refl n
    | cons c ds ih => exact Nat.le_trans (by omega) (ih (n * 10 + digitValue c))
  induction ds generalizing n with
  | nil => rfl
  | cons c ds ih =>
    rw [appendDigits, if_pos (Nat.lt_of_le_of_lt (hle ds _) h)]
    exact ih h

/-- A number of 32 bits is read as the number that it is. -/
theorem Numeral.value?_ofNat {n : Nat} (h : n < UInt32.size) :
    (ofNat n).value? = some (.nat n) := by
  have hlt : (Nat.toDigits 10 n).foldl (fun n c => n * 10 + digitValue c) 0 = n :=
    ofDigits_toDigits n
  have hwhole : appendDigits 0 (Nat.toDigits 10 n) = (n, 0) := by
    rw [appendDigits_eq (by rw [hlt]; exact Nat.lt_trans h (by decide)), hlt]
  have hscaled : (ofNat n).scaled = (n, 0) := by
    simp only [scaled, ofNat, hwhole]
    rfl
  have hbound : n < 1 <<< 1024 - 1 <<< 970 := Nat.lt_trans h (by decide +kernel)
  have hfits : (ofNat n).fits = true := by
    have hten : nearestDouble (Nat.pow 10 (0 : Int).toNat) = 1 := rfl
    rw [fits, hscaled]
    simp only [nearestDouble_of_lt (Nat.lt_trans h (by decide)), hten, Nat.mul_one,
      Bool.or_eq_true, Bool.and_eq_true, decide_eq_true_eq]
    exact .inr ⟨by decide, hbound⟩
  rw [value?, hfits]
  simp [ofNat, ofDigits_toDigits]

/-! ## Strings -/

/-- How a character of a string is written: itself, or its number if it is a control character
without an escape of its own. -/
def piece (c : Char) : Piece :=
  if c.toNat < 0x20 ∧ c ∉ ['\n', '\r', '\t'] then .unit c.toNat else .char c

/-- The characters of a string between its quotes. -/
def stringChars (value : String) : List Char := value.toList.flatMap fun c => (escaped c).toList

/-- The number of a control character has four digits. -/
theorem padded_lowerHex {n : Nat} (h : n < 0x20) :
    ∃ a b c d, padded 4 (lowerHex n) = [a, b, c, d] ∧ ofHex? [a, b, c, d] = some n := by
  have hall : ∀ m : Fin 0x20, (padded 4 (lowerHex m.val)).length = 4 ∧
      ofHex? (padded 4 (lowerHex m.val)) = some m.val := by decide
  obtain ⟨hlength, hvalue⟩ := hall ⟨n, h⟩
  obtain ⟨a, b, c, d, heq⟩ := List.length_eq_four.1 hlength
  exact ⟨a, b, c, d, heq, heq ▸ hvalue⟩

/-- How a character is escaped: by a letter, by its number, or not at all. -/
theorem escaped_cases (c : Char) :
    (∃ d, d ≠ 'u' ∧ escape? d = some c ∧ (escaped c).toList = ['\\', d] ∧ piece c = .char c) ∨
    (c.toNat < 0x20 ∧ (escaped c).toList = '\\' :: 'u' :: padded 4 (lowerHex c.toNat) ∧
      piece c = .unit c.toNat) ∨
    (c ≠ '"' ∧ c ≠ '\\' ∧ ¬ c.toNat < 0x20 ∧ (escaped c).toList = [c] ∧ piece c = .char c) := by
  by_cases hletter : c ∈ ['"', '\\', '\n', '\r', '\t']
  · simp only [List.mem_cons, List.not_mem_nil, or_false] at hletter
    rcases hletter with rfl | rfl | rfl | rfl | rfl
    · exact .inl ⟨'"', by decide, rfl, rfl, rfl⟩
    · exact .inl ⟨'\\', by decide, rfl, rfl, rfl⟩
    · exact .inl ⟨'n', by decide, rfl, rfl, rfl⟩
    · exact .inl ⟨'r', by decide, rfl, rfl, rfl⟩
    · exact .inl ⟨'t', by decide, rfl, rfl, rfl⟩
  · simp only [List.mem_cons, List.not_mem_nil, or_false, not_or] at hletter
    obtain ⟨hquote, hslash, hn, hr, ht⟩ := hletter
    by_cases hcontrol : c.toNat < 0x20
    · refine .inr (.inl ⟨hcontrol, ?_, ?_⟩)
      · simp [escaped, hquote, hslash, hn, hr, ht, hcontrol]
      · simp [piece, hn, hr, ht, hcontrol]
    · refine .inr (.inr ⟨hquote, hslash, hcontrol, ?_, ?_⟩)
      · simp [escaped, hquote, hslash, hn, hr, ht, hcontrol]
      · simp [piece, hcontrol]

theorem pieces?_escaped (c : Char) (cs : List Char) :
    pieces? ((escaped c).toList ++ cs) =
      (pieces? cs).map fun (pieces, rest) => (piece c :: pieces, rest) := by
  rcases escaped_cases c with ⟨d, hd, hescape, hchars, hpiece⟩ | ⟨hcontrol, hchars, hpiece⟩ |
    ⟨hquote, hslash, hcontrol, hchars, hpiece⟩ <;> rw [hchars, hpiece]
  · show pieces? ('\\' :: d :: cs) = _
    rw [pieces?, hescape]
    · cases pieces? cs <;> rfl
    · exact fun _ _ _ _ _ hu _ => hd hu
  · obtain ⟨x₁, x₂, x₃, x₄, hdigits, hvalue⟩ := padded_lowerHex hcontrol
    rw [hdigits]
    show pieces? ('\\' :: 'u' :: x₁ :: x₂ :: x₃ :: x₄ :: cs) = _
    rw [pieces?, hvalue]
    cases pieces? cs <;> rfl
  · show pieces? (c :: cs) = _
    rw [pieces?, if_neg hcontrol]
    · cases pieces? cs <;> rfl
    · exact hquote
    · exact fun _ _ _ _ _ hc _ => hslash hc
    · exact fun _ _ hc _ => hslash hc

theorem pieces?_stringChars (value : String) (rest : List Char) :
    pieces? (stringChars value ++ '"' :: rest) = some (value.toList.map piece, rest) := by
  unfold stringChars
  induction value.toList with
  | nil => rfl
  | cons c cs ih =>
    rw [List.flatMap_cons, List.append_assoc, pieces?_escaped, ih]
    rfl

theorem textOfPieces?_map_piece (value : String) :
    textOfPieces? (value.toList.map piece) = some value := by
  have hjoin (cs : List Char) : join? (cs.map piece) = some cs := by
    induction cs with
    | nil => rfl
    | cons c cs ih =>
      rw [List.map_cons, piece]
      split
      · next hcontrol =>
        have hhigh : isHighSurrogate c.toNat = false := by
          simp only [isHighSurrogate, Bool.and_eq_false_iff, decide_eq_false_iff_not]
          omega
        have hlow : isLowSurrogate c.toNat = false := by
          simp only [isLowSurrogate, Bool.and_eq_false_iff, decide_eq_false_iff_not]
          omega
        unfold join?
        simp only [hhigh, hlow, Bool.false_eq_true, if_false, ih, Option.map_some, Char.ofNat_toNat]
      · rw [join?, ih]
        rfl
  rw [textOfPieces?, hjoin, Option.map_some, String.ofList_toList]

/-! ## Tokens -/

/-- The numbers in the value are natural numbers of 32 bits. -/
inductive IsPlain : Json → Prop where
  | null : IsPlain .null
  | bool (value : Bool) : IsPlain (.bool value)
  | nat : n < UInt32.size → IsPlain (.nat n)
  | string (value : String) : IsPlain (.string value)
  | array : (∀ v ∈ items, IsPlain v) → IsPlain (.array items)
  | object {members : List (String × Json)} : (∀ m ∈ members, IsPlain m.2) →
      IsPlain (.object members)

mutual

/-- The characters of the text of a value. -/
def chars : Json → List Char
  | .null => "null".toList
  | .bool value => (if value then "true" else "false").toList
  | .nat n => Nat.toDigits 10 n
  | .number spelling => spelling.toList
  | .string value => '"' :: (stringChars value ++ ['"'])
  | .array items => '[' :: (itemChars true items ++ [']'])
  | .object members => '\x7b' :: (memberChars true members ++ ['\x7d'])

def itemChars (isFirst : Bool) : List Json → List Char
  | [] => []
  | item :: items => (if isFirst then [] else [',']) ++ (chars item ++ itemChars false items)

def memberChars (isFirst : Bool) : List (String × Json) → List Char
  | [] => []
  | (name, value) :: members =>
    (if isFirst then [] else [',']) ++
      ('"' :: (stringChars name ++ '"' :: ':' :: (chars value ++ memberChars false members)))

end

mutual

/-- The tokens of the text of a value; none of a number that is spelled in a way of its own. -/
def tokens : Json → List Token
  | .null => [.scalar .null]
  | .bool value => [.scalar (.bool value)]
  | .nat n => [.scalar (.number (.ofNat n))]
  | .number _ => []
  | .string value => [.scalar (.string (value.toList.map piece))]
  | .array items => .openArray :: (itemTokens true items ++ [.closeArray])
  | .object members => .openObject :: (memberTokens true members ++ [.closeObject])

def itemTokens (isFirst : Bool) : List Json → List Token
  | [] => []
  | item :: items => (if isFirst then [] else [.comma]) ++ (tokens item ++ itemTokens false items)

def memberTokens (isFirst : Bool) : List (String × Json) → List Token
  | [] => []
  | (name, value) :: members =>
    (if isFirst then [] else [.comma]) ++ (.scalar (.string (name.toList.map piece)) :: .colon ::
      (tokens value ++ memberTokens false members))

end

/-! ### Writing -/

theorem writeString_toList (out value : String) :
    (writeString out value).toList = out.toList ++ '"' :: (stringChars value ++ ['"']) := by
  have hfold (cs : List Char) (out : String) :
      (cs.foldl (fun out c => out ++ escaped c) out).toList =
        out.toList ++ cs.flatMap fun c => (escaped c).toList := by
    induction cs generalizing out with
    | nil => exact (List.append_nil _).symm
    | cons c cs ih =>
      rw [List.foldl_cons, ih, String.toList_append, List.append_assoc, List.flatMap_cons]
  rw [writeString, String.foldl_eq_foldl_toList, String.toList_push, hfold, String.toList_push]
  simp only [stringChars, List.append_assoc, List.cons_append, List.nil_append]

mutual

theorem write_toList (v : Json) (out : String) :
    (write out v).toList = out.toList ++ v.chars := by
  match v with
  | .null => rw [write, chars, String.toList_append]
  | .bool value => rw [write, chars, String.toList_append]
  | .nat n => rw [write, chars, String.toList_append, Nat.toString_eq_repr, Nat.toList_repr]
  | .number spelling => rw [write, chars, String.toList_append]
  | .string value => rw [write, chars, writeString_toList]
  | .array items =>
    rw [write, chars, String.toList_push, writeItems_toList, String.toList_push]
    simp only [List.append_assoc, List.cons_append, List.nil_append]
  | .object members =>
    rw [write, chars, String.toList_push, writeMembers_toList, String.toList_push]
    simp only [List.append_assoc, List.cons_append, List.nil_append]

theorem writeItems_toList (items : List Json) (out : String) (isFirst : Bool) :
    (writeItems out isFirst items).toList = out.toList ++ itemChars isFirst items := by
  match items with
  | [] => rw [writeItems, itemChars, List.append_nil]
  | item :: items =>
    rw [writeItems, itemChars, writeItems_toList, write_toList]
    cases isFirst <;> simp [String.toList_push]

theorem writeMembers_toList (members : List (String × Json)) (out : String) (isFirst : Bool) :
    (writeMembers out isFirst members).toList = out.toList ++ memberChars isFirst members := by
  match members with
  | [] => rw [writeMembers, memberChars, List.append_nil]
  | (name, value) :: members =>
    rw [writeMembers, memberChars, writeMembers_toList, write_toList, String.toList_push,
      writeString_toList]
    cases isFirst <;> simp [String.toList_push]

end

/-! ### Reading -/

theorem tokens?_cons {t : Token} {c : Char} {cs after : List Char}
    (hc : isSeparator c = false) (h : Token.next? (c :: cs) = some (t, after)) :
    tokens? (c :: cs) = (tokens? after).map (t :: ·) := by
  have hdrop : (c :: cs).dropWhile isSeparator = c :: cs := by simp [hc]
  rw [tokens?]
  split
  · next hs =>
    rw [hdrop] at hs
    cases hs
  · next hs =>
    rw [hdrop] at hs
    cases hs
    split
    · next ht =>
      rw [h] at ht
      cases ht
    · next ht =>
      rw [h] at ht
      cases ht
      rfl

/-- At the head of the text the tokens stand. -/
def Splits (cs : List Char) (ts : List Token) (rest : List Char) : Prop :=
  tokens? (cs ++ rest) = (tokens? rest).map (ts ++ ·)

namespace Splits

variable {cs cs' rest : List Char} {ts ts' : List Token}

theorem append (h : Splits cs ts (cs' ++ rest)) (h' : Splits cs' ts' rest) :
    Splits (cs ++ cs') (ts ++ ts') rest := by
  rw [Splits, List.append_assoc, h, h']
  cases tokens? rest with
  | none => rfl
  | some all => exact congrArg some (List.append_assoc ..).symm

theorem one {t : Token} {c : Char} (hc : isSeparator c = false)
    (h : Token.next? (c :: (cs ++ rest)) = some (t, rest)) : Splits (c :: cs) [t] rest :=
  tokens?_cons hc h

theorem string (value : String) :
    Splits ('"' :: (stringChars value ++ ['"'])) [.scalar (.string (value.toList.map piece))]
      rest := by
  apply one rfl
  rw [List.append_assoc, List.singleton_append, Token.next?, pieces?_stringChars]
  rfl

theorem nat (n : Nat) (hrest : Ends rest) :
    Splits (Nat.toDigits 10 n) [.scalar (.number (.ofNat n))] rest := by
  have hnumeral := numeral?_toDigits n hrest
  have hdigit := isDigit_toDigits n
  cases hds : Nat.toDigits 10 n with
  | nil => exact absurd hds Nat.toDigits_ne_nil
  | cons c ds =>
    rw [hds] at hnumeral hdigit
    have hc := hdigit c List.mem_cons_self
    have hno (d : Char) (hd : d.isDigit = false) : c ≠ d := by
      rintro rfl
      rw [hc] at hd
      cases hd
    apply one
    · simp [isSeparator, hno]
    · rw [List.cons_append] at hnumeral
      rw [Token.next?, hnumeral]
      · rfl
      all_goals
        intro _ heq
        exact hno _ (by decide) (List.cons.inj heq).1

theorem mark {t : Token} {c : Char} (hc : isSeparator c = false)
    (h : Token.next? (c :: rest) = some (t, rest)) : Splits [c] [t] rest := one hc h

theorem comma : Splits [','] [.comma] rest := mark rfl rfl

theorem colon : Splits [':'] [.colon] rest := mark rfl rfl

/-- Items, up to the sign that closes the array. -/
theorem items {items : List Json}
    (h : ∀ v ∈ items, ∀ rest, Ends rest → Splits v.chars v.tokens rest) (isFirst : Bool) :
    Splits (itemChars isFirst items ++ [']']) (itemTokens isFirst items ++ [.closeArray]) rest := by
  induction items generalizing isFirst with
  | nil => exact mark rfl rfl
  | cons v items ih =>
    obtain ⟨hv, hitems⟩ := List.forall_mem_cons.1 h
    have hends : Ends ((itemChars false items ++ [']']) ++ rest) := by
      cases items <;> exact fun _ hc => Option.some.inj hc ▸ by decide
    have hboth := (hv _ hends).append (ih hitems false)
    cases isFirst with
    | true => simpa [itemChars, itemTokens] using hboth
    | false => simpa [itemChars, itemTokens] using comma.append hboth

/-- Members, up to the sign that closes the object. -/
theorem members {members : List (String × Json)}
    (h : ∀ m ∈ members, ∀ rest, Ends rest → Splits m.2.chars m.2.tokens rest) (isFirst : Bool) :
    Splits (memberChars isFirst members ++ ['\x7d'])
      (memberTokens isFirst members ++ [.closeObject]) rest := by
  induction members generalizing isFirst with
  | nil => exact mark rfl rfl
  | cons m members ih =>
    obtain ⟨name, v⟩ := m
    obtain ⟨hv, hmembers⟩ := List.forall_mem_cons.1 h
    have hends : Ends ((memberChars false members ++ ['\x7d']) ++ rest) := by
      cases members <;> exact fun _ hc => Option.some.inj hc ▸ by decide
    have hboth := (hv _ hends).append (ih hmembers false)
    have hall := (string name).append (colon.append hboth)
    cases isFirst with
    | true => simpa [memberChars, memberTokens] using hall
    | false => simpa [memberChars, memberTokens] using comma.append hall

end Splits

/-- The text of a value is cut into its tokens. -/
theorem IsPlain.splits {v : Json} (h : v.IsPlain) : ∀ {rest}, Ends rest →
    Splits v.chars v.tokens rest := by
  induction h with
  | null => exact fun _ => .one rfl rfl
  | bool value => cases value <;> exact fun _ => .one rfl rfl
  | nat _ => exact fun hrest => .nat _ hrest
  | string value => exact fun _ => .string value
  | array _ ih =>
    intro rest _
    exact Splits.append (.mark rfl rfl) (.items (fun v hv _ => ih v hv) true)
  | object _ ih =>
    intro rest _
    exact Splits.append (.mark rfl rfl) (.members (fun m hm _ => ih m hm) true)

theorem tokens?_chars {v : Json} (h : v.IsPlain) : tokens? v.chars = some v.tokens := by
  have hall : Splits v.chars v.tokens [] := h.splits nofun
  have hnil : tokens? [] = some [] := by
    rw [tokens?]
    rfl
  rw [Splits, List.append_nil, hnil, Option.map_some, List.append_nil] at hall
  exact hall

/-! ## Containers -/

mutual

/-- The value by its containers, as it is written. -/
def written : Json → Written
  | .null => .scalar .null
  | .bool value => .scalar (.bool value)
  | .nat n => .scalar (.number (.ofNat n))
  | .number _ => .scalar .null
  | .string value => .scalar (.string (value.toList.map piece))
  | .array items => .array (writtenItems items)
  | .object members => .object (writtenMembers members)

def writtenItems : List Json → List Written
  | [] => []
  | item :: items => written item :: writtenItems items

def writtenMembers : List (String × Json) → List (List Piece × Written)
  | [] => []
  | (name, value) :: members => (name.toList.map piece, written value) :: writtenMembers members

end

/-- From a place where a value must follow, the tokens lead to the value. -/
def Builds (v : Json) : Prop :=
  ∀ outer, v.tokens.foldlM State.next? (.value outer) = some (.complete outer v.written)

/-- From an item on, the tokens lead to the end of the array. -/
theorem foldlM_items {items : List Json} (h : ∀ v ∈ items, v.Builds) (outer : List Place)
    (before : List Written) (w : Written) :
    (itemTokens false items ++ [Token.closeArray]).foldlM State.next?
      (.complete (.item before :: outer) w) =
        some (.complete outer (.array ((w :: before).reverse ++ writtenItems items))) := by
  induction items generalizing before w with
  | nil => simp [itemTokens, writtenItems, State.next?, State.continue?]
  | cons v items ih =>
    obtain ⟨hv, hitems⟩ := List.forall_mem_cons.1 h
    have hrest := ih hitems (w :: before) v.written
    rw [List.reverse_cons, List.append_assoc] at hrest
    simp only [itemTokens, writtenItems, Bool.false_eq_true, if_false, List.cons_append,
      List.nil_append, List.append_assoc, List.foldlM_cons, State.next?, State.continue?,
      Option.bind_eq_bind, Option.bind_some, List.foldlM_append, hv _] at hrest ⊢
    exact hrest

/-- From a member on, the tokens lead to the end of the object. -/
theorem foldlM_members {members : List (String × Json)} (h : ∀ m ∈ members, m.2.Builds)
    (outer : List Place) (before : List (List Piece × Written)) (name : List Piece) (w : Written) :
    (memberTokens false members ++ [Token.closeObject]).foldlM State.next?
      (.complete (.member before name :: outer) w) =
        some (.complete outer
          (.object (((name, w) :: before).reverse ++ writtenMembers members))) := by
  induction members generalizing before name w with
  | nil => simp [memberTokens, writtenMembers, State.next?, State.continue?]
  | cons m members ih =>
    obtain ⟨other, v⟩ := m
    obtain ⟨hv, hmembers⟩ := List.forall_mem_cons.1 h
    have hrest := ih hmembers ((name, w) :: before) (other.toList.map piece) v.written
    rw [List.reverse_cons, List.append_assoc] at hrest
    simp only [memberTokens, writtenMembers, Bool.false_eq_true, if_false, List.cons_append,
      List.nil_append, List.append_assoc, List.foldlM_cons, State.next?, State.continue?,
      Option.bind_eq_bind, Option.bind_some, List.foldlM_append, hv _] at hrest ⊢
    exact hrest

/-- In an array that has just been opened, a value begins the first item. -/
theorem IsPlain.foldlM_firstItem {v : Json} (h : v.IsPlain) (outer : List Place)
    (ts : List Token) : (v.tokens ++ ts).foldlM State.next? (.firstItem outer) =
      (v.tokens ++ ts).foldlM State.next? (.value (.item [] :: outer)) := by
  cases h <;> simp only [tokens] <;> rfl

/-- The tokens of a value lead to the value. -/
theorem foldlM_tokens {v : Json} (h : v.IsPlain) : v.Builds := by
  induction h with
  | null | bool | nat | string => exact fun _ => by simp only [tokens, written]; rfl
  | @array items hplain ih =>
    intro outer
    rw [tokens, written]
    cases items with
    | nil => rfl
    | cons v items =>
      obtain ⟨hv, hitems⟩ := List.forall_mem_cons.1 ih
      have hfirst := (hplain v List.mem_cons_self).foldlM_firstItem outer
        (itemTokens false items ++ [Token.closeArray])
      have hrest := foldlM_items hitems outer [] v.written
      have hvalue : (v.tokens ++ (itemTokens false items ++ [Token.closeArray])).foldlM State.next?
          (.value (.item [] :: outer)) =
            (itemTokens false items ++ [Token.closeArray]).foldlM State.next?
              (.complete (.item [] :: outer) v.written) := by
        rw [List.foldlM_append, hv]
        rfl
      have hopen : State.next? (.value outer) .openArray = some (.firstItem outer) := rfl
      rw [List.foldlM_cons, hopen, itemTokens, writtenItems, if_pos rfl, List.nil_append,
        List.append_assoc]
      exact hfirst.trans (hvalue.trans hrest)
  | @object members _ ih =>
    intro outer
    rw [tokens, written]
    cases members with
    | nil => rfl
    | cons m members =>
      obtain ⟨name, v⟩ := m
      obtain ⟨hv, hmembers⟩ := List.forall_mem_cons.1 ih
      have hrest := foldlM_members hmembers outer [] (name.toList.map piece) v.written
      simp only [memberTokens, writtenMembers, if_true, List.nil_append, List.cons_append,
        List.append_assoc, List.foldlM_cons, State.next?, State.begin?, Option.bind_eq_bind,
        Option.bind_some, List.foldlM_append, hv _] at hrest ⊢
      exact hrest

/-- The text of a value is read by its containers. -/
theorem written?_text {v : Json} (h : v.IsPlain) : written? v.text = some v.written := by
  have hchars : v.text.toList = v.chars := write_toList v ""
  rw [written?, hchars, tokens?_chars h]
  simp only [Option.bind_eq_bind, Option.bind_some, foldlM_tokens h []]
  rfl

/-! ## Values -/

mutual

/-- How many containers are nested in the value. -/
def depth : Json → Nat
  | .array items => itemsDepth items + 1
  | .object members => membersDepth members + 1
  | _ => 0

def itemsDepth : List Json → Nat
  | [] => 0
  | item :: items => max (depth item) (itemsDepth items)

def membersDepth : List (String × Json) → Nat
  | [] => 0
  | (_, value) :: members => max (depth value) (membersDepth members)

end

/-- No more containers are nested in the value than the limit says, if there is one. -/
def Within (limit : Option Nat) (v : Json) : Prop := ∀ most ∈ limit, v.depth ≤ most

instance (limit : Option Nat) (v : Json) : Decidable (Within limit v) :=
  inferInstanceAs (Decidable (∀ most ∈ limit, v.depth ≤ most))

theorem itemsDepth_le {items : List Json} {most : Nat} :
    itemsDepth items ≤ most ↔ ∀ v ∈ items, v.depth ≤ most := by
  induction items with
  | nil => simp [itemsDepth]
  | cons v items ih => rw [itemsDepth, Nat.max_le, ih, List.forall_mem_cons]

theorem membersDepth_le {members : List (String × Json)} {most : Nat} :
    membersDepth members ≤ most ↔ ∀ m ∈ members, m.2.depth ≤ most := by
  induction members with
  | nil => simp [membersDepth]
  | cons m members ih => rw [membersDepth, Nat.max_le, ih, List.forall_mem_cons]

namespace Within

variable {limit : Option Nat}

/-- Around a container there is one more. -/
theorem container {inner : Nat} : (∀ most ∈ limit, inner + 1 ≤ most) ↔
    (limit == some 0) = false ∧ ∀ most ∈ limit.map (· - 1), inner ≤ most := by
  cases limit with
  | none => exact ⟨fun _ => ⟨rfl, nofun⟩, fun _ => nofun⟩
  | some most => cases most <;> simp

theorem array {items : List Json} : Within limit (.array items) ↔
    (limit == some 0) = false ∧ ∀ v ∈ items, Within (limit.map (· - 1)) v := by
  refine container.trans (and_congr_right fun _ => ?_)
  exact ⟨fun h v hv most hmost => itemsDepth_le.1 (h most hmost) v hv,
    fun h most hmost => itemsDepth_le.2 fun v hv => h v hv most hmost⟩

theorem object {members : List (String × Json)} : Within limit (.object members) ↔
    (limit == some 0) = false ∧ ∀ m ∈ members, Within (limit.map (· - 1)) m.2 := by
  refine container.trans (and_congr_right fun _ => ?_)
  exact ⟨fun h m hm most hmost => membersDepth_le.1 (h most hmost) m hm,
    fun h most hmost => membersDepth_le.2 fun m hm => h m hm most hmost⟩

end Within

/-- The value is what is read of its containers, unless more of them are nested than may be. -/
def IsRead (shape : Shape) (v : Json) : Prop :=
  ∀ limit, v.written.value? limit shape = if Within limit v then some v else none

namespace IsRead

variable {limit : Option Nat} {shape : Shape}

/-- What is read one after another is read if each of it is. -/
theorem bind_all {α β γ : Type} {p : α → Prop} [DecidablePred p] {x : α} {xs : List α} {y : β}
    {ys : γ} (f : β → γ → γ) : ((if p x then some y else none).bind fun y =>
      (if ∀ z ∈ xs, p z then some ys else none).bind fun ys => some (f y ys)) =
        if ∀ z ∈ x :: xs, p z then some (f y ys) else none := by
  by_cases hone : p x
  · rw [if_pos hone]
    by_cases hmore : ∀ z ∈ xs, p z
    · rw [if_pos hmore, if_pos (List.forall_mem_cons.2 ⟨hone, hmore⟩)]
      rfl
    · rw [if_neg hmore, if_neg fun hall => hmore (List.forall_mem_cons.1 hall).2]
      rfl
  · rw [if_neg hone, if_neg fun hall => hone (List.forall_mem_cons.1 hall).1]
    rfl

theorem itemValues?_eq {items : List Json} (htail : shape.tail = shape)
    (h : ∀ v ∈ items, IsRead shape.head v) : itemValues? limit shape (writtenItems items) =
      if ∀ v ∈ items, Within limit v then some items else none := by
  induction items with
  | nil => rfl
  | cons v items ih =>
    obtain ⟨hv, hitems⟩ := List.forall_mem_cons.1 h
    rw [writtenItems, itemValues?, hv, htail, ih hitems]
    exact bind_all (p := Within limit) List.cons

theorem memberValues?_eq {members : List (String × Json)} (h : ∀ m ∈ members,
    ∃ field, shape.member? m.1 = some field ∧ IsRead field m.2) :
    memberValues? limit shape (writtenMembers members) =
      if ∀ m ∈ members, Within limit m.2 then some members else none := by
  induction members with
  | nil => rfl
  | cons m members ih =>
    obtain ⟨name, v⟩ := m
    obtain ⟨⟨field, hfield, hv⟩, hmembers⟩ := List.forall_mem_cons.1 h
    rw [writtenMembers, memberValues?, textOfPieces?_map_piece]
    simp only [Option.bind_eq_bind, Option.bind_some, hfield, ih hmembers]
    rw [hv]
    exact bind_all (p := fun m : String × Json => Within limit m.2) (x := (name, v))
      fun v members => (name, v) :: members

/-- A container is read if there may be one and what is in it is read. -/
theorem container {α : Type} {make : α → Json} {x : α} {inner : Prop} [Decidable inner]
    (h : Within limit (make x) ↔ (limit == some 0) = false ∧ inner) :
    (if limit == some 0 then none else (if inner then some x else none).map make) =
      if Within limit (make x) then some (make x) else none := by
  cases hzero : limit == some 0 with
  | true =>
    have hnot : ¬ Within limit (make x) := fun hwithin => by
      rw [hzero] at h
      cases (h.1 hwithin).1
    rw [if_pos rfl, if_neg hnot]
  | false =>
    rw [if_neg (by nofun)]
    by_cases hinner : inner
    · rw [if_pos hinner, if_pos (h.2 ⟨hzero, hinner⟩), Option.map_some]
    · rw [if_neg hinner, if_neg fun hwithin => hinner (h.1 hwithin).2, Option.map_none]

/-- Each item is read alike. -/
theorem array {items : List Json} (htail : shape.tail = shape)
    (h : ∀ v ∈ items, IsRead shape.head v) : IsRead shape (.array items) := by
  intro limit
  rw [written, Written.value?, itemValues?_eq htail h]
  exact container Within.array

/-- Each member is read as the field of its name. -/
theorem object {members : List (String × Json)} (h : ∀ m ∈ members,
    ∃ field, shape.member? m.1 = some field ∧ IsRead field m.2) :
    IsRead shape (.object members) := by
  intro limit
  rw [written, Written.value?, memberValues?_eq h]
  exact container Within.object

end IsRead

theorem within_of_depth {limit : Option Nat} {v : Json} (h : v.depth = 0) : Within limit v :=
  fun _ _ => h ▸ Nat.zero_le _

/-- A value can be read as a whole. -/
@[simp]
theorem IsPlain.isRead {v : Json} (h : v.IsPlain) : IsRead .whole v := by
  induction h with
  | null | bool => exact fun _ => (if_pos (within_of_depth rfl)).symm
  | nat h => exact fun _ => (Numeral.value?_ofNat h).trans (if_pos (within_of_depth rfl)).symm
  | string value =>
    intro limit
    rw [if_pos (within_of_depth rfl)]
    exact congrArg (Option.map Json.string) (textOfPieces?_map_piece value)
  | array _ ih => exact .array rfl ih
  | object _ ih => exact .object fun m hm => ⟨.whole, rfl, ih m hm⟩

/-- What is read of the text of a value is the value, unless it is nested too deep. -/
theorem parse?_text {v : Json} {shape : Shape} (h : v.IsPlain) (hread : IsRead shape v)
    (limit : Option Nat) :
    parse? limit shape v.text = if Within limit v then some v else none := by
  rw [parse?, written?_text h]
  exact hread limit

end Lockstep.Json
