import Lockstep.Proofs.Lexing
import Lockstep.Target.Reserved

/-!
# Single tokens

A token that is written is read as that token if what follows it cannot be part of it.

- `Reads.operator`, `Reads.openParen`, …: operators and punctuation.
- `IsPart`: what is read as one part of an operand, whatever follows an operand.
- `IsWord`: words; identifiers are words of every target (`isWord_escaped`).
-/

namespace Lockstep.Target

open Source Text Lockstep.Tree

variable {t : Target} {text rest : List Char} {op : BinaryOp}

/-! ## Operators and parentheses -/

/-- The characters that may go on the token of an operator. -/
def extendChars : List Char := ['=', '<', '>', '&', '|']

theorem isPart_eq_false_of_mem_endChars {c : Char} (h : c ∈ endChars) :
    isQuote c = false ∧ c.isDigit = false ∧ (c == '.') = false ∧ (c == 'u') = false ∧
      isWordChar c = false ∧ isNumberChar c = false := by
  have hall : ∀ c ∈ endChars, isQuote c = false ∧ c.isDigit = false ∧ (c == '.') = false ∧
      (c == 'u') = false ∧ isWordChar c = false ∧ isNumberChar c = false :=
    List.all_iff_forall_prop.1 (by decide)
  exact hall c h

theorem partLength?_of_mem_endChars {c : Char} (h : c ∈ endChars) :
    partLength? t (c :: rest) = accessLength? (c :: rest) := by
  obtain ⟨hquote, hdigit, hpoint, hprefix, hword, _⟩ := isPart_eq_false_of_mem_endChars h
  simp only [partLength?, startsNumber, hquote, hdigit, hpoint, hprefix, hword, Bool.false_and,
    Bool.and_false, Bool.or_false, Bool.false_eq_true, if_false]

theorem operator?_append (hop : (t.binaryToken? op).isSome)
    (hrest : ∀ c ∈ rest.head?, c ∉ extendChars) :
    operator? t (op.token.toList ++ rest) = some op := by
  cases rest with
  | nil => cases t <;> cases op <;> first | rfl | cases hop
  | cons c rest =>
    have hne (d : Char) (hd : d ∈ extendChars) : (d == c) = false :=
      beq_false_of_ne fun h => hrest c rfl (h ▸ hd)
    have heq := hne '=' (by decide)
    have hlt := hne '<' (by decide)
    have hgt := hne '>' (by decide)
    have hand := hne '&' (by decide)
    have hor := hne '|' (by decide)
    cases op <;>
      simp [operator?, longestFirst, List.find?, BinaryOp.token, List.isPrefixOf, hop, heq, hlt,
        hgt, hand, hor]

theorem accessLength?_operator (hrest : ∀ c ∈ rest.head?, c ∉ extendChars) :
    accessLength? (op.token.toList ++ rest) = none := by
  cases op with
  | minus =>
    cases rest with
    | nil => rfl
    | cons c rest =>
      have hc : c ≠ '>' := fun h => hrest c rfl (by rw [h]; decide)
      simp [BinaryOp.token, accessLength?, hc]
  | _ => rfl

theorem exists_head_operator (op : BinaryOp) : ∃ c cs, op.token.toList = c :: cs ∧ c ∈ endChars ∧
    c ∉ ['(', ')', ','] ∧ isSpace c = false := by
  cases op <;> exact ⟨_, _, rfl, by decide, by decide, by decide⟩

/-- What begins neither with a parenthesis nor with a comma is a part or an operator. -/
theorem head?_cons {c : Char} (hc : c ∉ ['(', ')', ',']) :
    Lexeme.head? t (c :: rest) =
      match partLength? t (c :: rest) with
      | some n => some (.part ((c :: rest).take n), n)
      | none => (operator? t (c :: rest)).map fun op => (.operator op, op.token.toList.length) := by
  unfold Lexeme.head?
  split
  · simp_all
  · simp_all
  · simp_all
  · rfl

theorem head?_operator (hop : (t.binaryToken? op).isSome)
    (hrest : ∀ c ∈ rest.head?, c ∉ extendChars) :
    Lexeme.head? t (op.token.toList ++ rest) = some (.operator op, op.token.toList.length) := by
  have hoperator := operator?_append hop hrest
  have haccess : accessLength? (op.token.toList ++ rest) = none := accessLength?_operator hrest
  obtain ⟨c, cs, htoken, hend, hc, _⟩ := exists_head_operator op
  rw [htoken, List.cons_append] at hoperator haccess ⊢
  rw [head?_cons hc, partLength?_of_mem_endChars hend, haccess, hoperator, Option.map_some, htoken]

/-! ## Single tokens -/

theorem next?_append {word : List Char} (hword : ∀ c ∈ word, isLineBreak c = false) :
    Lexeme.next? t (word ++ rest) =
      Lexeme.head? t (word ++ rest.takeWhile (!isLineBreak ·)) := by
  rw [Lexeme.next?, List.takeWhile_append_of_pos]
  intro c hc
  rw [hword c hc]
  rfl

theorem head?_takeWhile {P : Char → Prop} (h : ∀ c ∈ rest.head?, P c) :
    ∀ c ∈ (rest.takeWhile (!isLineBreak ·)).head?, P c := by
  intro c hc
  cases rest with
  | nil => cases hc
  | cons d rest =>
    rw [List.takeWhile_cons] at hc
    split at hc
    · cases hc
      exact h _ rfl
    · cases hc

/-- What the reading of a part does not depend on. -/
structure IsPart (t : Target) (word : List Char) : Prop where
  opens : OpensOperand word
  noBreak : ∀ c ∈ word, isLineBreak c = false
  head? : ∀ rest, EndsOperand rest →
    Lexeme.head? t (word ++ rest) = some (.part word, word.length)

theorem isSpace_eq_false {c : Char} (h : c ∉ endChars) : isSpace c = false ∧ c ≠ '/' := by
  simp only [endChars, List.mem_cons, List.not_mem_nil, or_false, not_or] at h
  simp [isSpace, isBlank, isLineBreak, h]

theorem OpensOperand.absent (h : OpensOperand text) : Trivia.next text = .absent := by
  obtain ⟨c, cs, rfl, hc⟩ := h
  obtain ⟨hspace, hslash⟩ := isSpace_eq_false hc
  exact Trivia.next_cons_absent hspace hslash

theorem head?_part {c : Char} {cs : List Char} (hc : c ∉ ['(', ')', ','])
    (hlen : partLength? t (c :: cs ++ rest) = some (c :: cs).length) :
    Lexeme.head? t (c :: cs ++ rest) = some (.part (c :: cs), (c :: cs).length) := by
  rw [List.cons_append] at hlen ⊢
  rw [head?_cons hc, hlen, ← List.cons_append]
  simp only [List.take_left]

/-- A part is told from a parenthesis by its first character. -/
theorem OpensOperand.head? {word : List Char} (h : OpensOperand word)
    (hparen : word.head? ≠ some '(') (hlen : partLength? t (word ++ rest) = some word.length) :
    Lexeme.head? t (word ++ rest) = some (.part word, word.length) := by
  obtain ⟨c, cs, rfl, hc⟩ := h
  refine head?_part ?_ hlen
  simp only [List.mem_cons, List.not_mem_nil, or_false, not_or]
  refine ⟨fun h => hparen (by rw [h]; rfl), ?_, ?_⟩
  · rintro rfl
    exact hc (by decide)
  · rintro rfl
    exact hc (by decide)

theorem OpensOperand.append (h : OpensOperand text) (rest : List Char) :
    OpensOperand (text ++ rest) := by
  obtain ⟨c, cs, rfl, hc⟩ := h
  exact ⟨c, cs ++ rest, rfl, hc⟩

namespace Reads

theorem openParen (rest : List Char) : Reads t [.openParen] ['('] rest := by
  have hbreak : ∀ c ∈ ['('], isLineBreak c = false := List.forall_mem_singleton.2 rfl
  exact .single (Trivia.next_cons_absent rfl (by decide)) (next?_append hbreak)

theorem closeParen (rest : List Char) : Reads t [.closeParen] [')'] rest := by
  have hbreak : ∀ c ∈ [')'], isLineBreak c = false := List.forall_mem_singleton.2 rfl
  exact .single (Trivia.next_cons_absent rfl (by decide)) (next?_append hbreak)

theorem comma (rest : List Char) : Reads t [.comma] [','] rest := by
  have hbreak : ∀ c ∈ [','], isLineBreak c = false := List.forall_mem_singleton.2 rfl
  exact .single (Trivia.next_cons_absent rfl (by decide)) (next?_append hbreak)

/-- An operator, if neither a comment begins with it nor a longer operator. -/
theorem operator (hop : (t.binaryToken? op).isSome)
    (habsent : Trivia.next (op.token.toList ++ rest) = .absent)
    (hrest : ∀ c ∈ rest.head?, c ∉ extendChars) :
    Reads t [.operator op] op.token.toList rest := by
  refine .single habsent ?_
  have hbreak : ∀ c ∈ op.token.toList, isLineBreak c = false := by
    cases op <;> exact List.all_iff_forall_prop.1 (by decide)
  rw [next?_append hbreak]
  exact head?_operator hop (head?_takeWhile hrest)

theorem part {word : List Char} (h : IsPart t word) (hrest : EndsOperand rest) :
    Reads t [.part word] word rest := by
  refine .single (h.opens.append rest).absent ?_
  rw [next?_append h.noBreak]
  exact h.head? _ (head?_takeWhile hrest)

end Reads

/-! ## Words -/

theorem partLength?_word {c : Char} {cs : List Char} (hword : ∀ d ∈ c :: cs, isWordChar d = true)
    (hdigit : c.isDigit = false)
    (hrest : ∀ d ∈ rest.head?, isWordChar d = false ∧ isQuote d = false) :
    partLength? t (c :: (cs ++ rest)) = some (cs.length + 1) := by
  have hquote {d : Char} (h : isWordChar d = true) : isQuote d = false := by
    cases hd : isQuote d with
    | false => rfl
    | true =>
      simp only [isQuote, Bool.or_eq_true, beq_iff_eq] at hd
      rcases hd with rfl | rfl <;> exact absurd h (by decide)
  have hpoint : (c == '.') = false := by
    refine beq_false_of_ne fun h => ?_
    subst h
    exact absurd (hword '.' List.mem_cons_self) (by decide)
  have hprefix : (cs ++ rest).head?.any isQuote = false := by
    cases cs with
    | nil =>
      cases rest with
      | nil => rfl
      | cons d rest => exact (hrest d rfl).2
    | cons d cs => exact hquote (hword d (List.mem_cons_of_mem _ List.mem_cons_self))
  have htake : (c :: (cs ++ rest)).takeWhile isWordChar = c :: cs := by
    rw [← List.cons_append, List.takeWhile_append_of_pos hword]
    cases rest with
    | nil => rw [List.takeWhile_nil, List.append_nil]
    | cons d rest => rw [List.takeWhile_cons_of_neg (by simp [(hrest d rfl).1]), List.append_nil]
  have hhead := hword c List.mem_cons_self
  simp only [partLength?, startsNumber, hquote hhead, hdigit, hpoint, hprefix, hhead, htake,
    Bool.false_and, Bool.and_false, Bool.or_false, Bool.false_eq_true, if_false, if_true,
    List.length_cons]

/-- A word: it does not start with a digit. -/
def IsWord (word : List Char) : Prop :=
  ∃ c cs, word = c :: cs ∧ c.isDigit = false ∧ ∀ d ∈ c :: cs, isWordChar d = true

/-- Whether the text goes on with no character of a word. -/
def EndsWord (rest : List Char) : Prop :=
  ∀ c ∈ rest.head?, isWordChar c = false ∧ isQuote c = false

theorem EndsOperand.endsWord (h : EndsOperand rest) : EndsWord rest := by
  intro c hc
  obtain ⟨hquote, _, _, _, hword, _⟩ := isPart_eq_false_of_mem_endChars (h c hc)
  exact ⟨hword, hquote⟩

namespace IsWord

theorem ne_of_isWordChar {c d : Char} (hc : isWordChar c = true) (hd : isWordChar d = false) :
    c ≠ d := by
  rintro rfl
  exact Bool.noConfusion (hc.symm.trans hd)

theorem opens (h : IsWord word) : OpensOperand word := by
  obtain ⟨c, cs, rfl, _, hall⟩ := h
  refine ⟨c, cs, rfl, fun hc => ?_⟩
  obtain ⟨_, _, _, _, hword, _⟩ := isPart_eq_false_of_mem_endChars hc
  exact Bool.noConfusion (hword.symm.trans (hall c List.mem_cons_self))

theorem noBreak (h : IsWord word) : ∀ c ∈ word, isLineBreak c = false := by
  obtain ⟨c, cs, rfl, _, hall⟩ := h
  intro d hd
  have hlf := ne_of_isWordChar (hall d hd) (d := '\n') (by decide)
  have hcr := ne_of_isWordChar (hall d hd) (d := '\r') (by decide)
  simp [isLineBreak, hlf, hcr]

theorem head? (h : IsWord word) (hrest : EndsWord rest) :
    Lexeme.head? t (word ++ rest) = some (.part word, word.length) := by
  refine h.opens.head? ?_ ?_
  · obtain ⟨c, cs, rfl, _, hall⟩ := h
    intro hhead
    cases hhead
    exact Bool.noConfusion (hall '(' List.mem_cons_self)
  · obtain ⟨c, cs, rfl, hdigit, hall⟩ := h
    exact partLength?_word hall hdigit hrest

theorem isPart (h : IsWord word) : IsPart t word where
  opens := h.opens
  noBreak := h.noBreak
  head? _ hrest := h.head? hrest.endsWord

/-- A word of a longer name, which may end otherwise than an operand. -/
theorem reads (h : IsWord word) (hrest : EndsWord rest) : Reads t [.part word] word rest := by
  refine .single (h.opens.append rest).absent ?_
  rw [next?_append h.noBreak]
  exact h.head? (head?_takeWhile hrest)

end IsWord

theorem isWordChar_of_isIdentifierPart {c : Char} (h : isIdentifierPart c = true) :
    isWordChar c = true := by
  simp [isWordChar, h]

theorem isDigit_of_isIdentifierStart {c : Char} (h : isIdentifierStart c = true) :
    c.isDigit = false := by
  have hno : ∀ d ∈ digitChars, isIdentifierStart d = false :=
    List.all_iff_forall_prop.1 (by decide)
  refine Bool.eq_false_iff.2 fun hdigit => ?_
  exact Bool.noConfusion (h.symm.trans (hno c (mem_digitChars hdigit)))

theorem IsWord.ofIdentifier {cs : List Char} (h : isIdentifier cs = true) : IsWord cs := by
  cases cs with
  | nil => cases h
  | cons c cs =>
    have hstart := (Bool.and_eq_true_iff.1 h).1
    exact ⟨c, cs, rfl, isDigit_of_isIdentifierStart hstart, fun d hd =>
      isWordChar_of_isIdentifierPart (isIdentifierPart_of_mem h d hd)⟩

/-- A word goes on with further characters of words. -/
theorem IsWord.append {cs : List Char} (h : IsWord word)
    (hcs : ∀ c ∈ cs, isWordChar c = true) : IsWord (word ++ cs) := by
  obtain ⟨c, tail, rfl, hdigit, hall⟩ := h
  exact ⟨c, tail ++ cs, rfl, hdigit, List.forall_mem_append.2 ⟨hall, hcs⟩⟩

/-- Identifiers are words of the target. -/
theorem isWord_escaped {identifier : String} (h : isIdentifier identifier.toList = true) :
    IsWord (t.escaped identifier).toList := by
  have hword := IsWord.ofIdentifier h
  have hall : ∀ c ∈ identifier.toList, isWordChar c = true := by
    obtain ⟨_, _, heq, _, hall⟩ := hword
    rwa [heq]
  unfold escaped
  split
  · split
    · rw [String.toList_append]
      exact ⟨'@', _, rfl, rfl, List.forall_mem_cons.2 ⟨rfl, hall⟩⟩
    · rw [String.toList_append, String.toList_append]
      have htick : IsWord "`".toList := ⟨'`', [], rfl, rfl, List.forall_mem_singleton.2 rfl⟩
      exact (htick.append hall).append (List.forall_mem_singleton.2 rfl)
    · rw [String.toList_append]
      exact hword.append (List.forall_mem_singleton.2 rfl)
  · exact hword

/-- The signs between the words of a name. -/
def accessSigns : List (List Char) := [['.'], [':', ':'], ['-', '>']]

theorem partLength?_access {sign : List Char} (h : sign ∈ accessSigns)
    (hrest : ∀ c ∈ rest.head?, c.isDigit = false) :
    partLength? t (sign ++ rest) = some sign.length := by
  have hpoint : rest.head?.any Char.isDigit = false := by
    cases hhead : rest.head? with
    | none => rfl
    | some c => exact hrest c hhead
  have hno : ∀ c ∈ ['.', ':', '-'], isWordChar c = false :=
    List.all_iff_forall_prop.1 (by decide)
  simp only [accessSigns, List.mem_cons, List.not_mem_nil, or_false] at h
  rcases h with rfl | rfl | rfl
  · simp [partLength?, startsNumber, isQuote, accessLength?, hpoint, hno '.']
  · simp [partLength?, startsNumber, isQuote, accessLength?, hno ':']
  · simp [partLength?, startsNumber, isQuote, accessLength?, hno '-']

/-- A word ends before such a sign, and so do trivia. -/
theorem endsWord_access {sign : List Char} (h : sign ∈ accessSigns) (rest : List Char) :
    EndsWord (sign ++ rest) ∧ Trivia.next (sign ++ rest) = .absent := by
  have hall : ∀ sign ∈ accessSigns, ∃ c cs, sign = c :: cs ∧ (isWordChar c = false ∧
      isQuote c = false) ∧ isSpace c = false ∧ c ≠ '/' := by
    simp only [accessSigns, List.forall_mem_cons, List.cons.injEq]
    exact ⟨⟨_, _, ⟨rfl, rfl⟩, by decide⟩, ⟨_, _, ⟨rfl, rfl⟩, by decide⟩,
      ⟨_, _, ⟨rfl, rfl⟩, by decide⟩, nofun⟩
  obtain ⟨c, cs, rfl, hword, hspace, hslash⟩ := hall sign h
  refine ⟨fun d hd => ?_, Trivia.next_cons_absent hspace hslash⟩
  cases hd
  exact hword

theorem Reads.access {sign : List Char} (h : sign ∈ accessSigns)
    (hrest : ∀ c ∈ rest.head?, c.isDigit = false) : Reads t [.part sign] sign rest := by
  have hlen := partLength?_access (t := t) h (head?_takeWhile hrest)
  have hsign : (∀ c ∈ sign, isLineBreak c = false) ∧
      ∃ c cs, sign = c :: cs ∧ c ∉ ['(', ')', ','] := by
    simp only [accessSigns, List.mem_cons, List.not_mem_nil, or_false] at h
    rcases h with rfl | rfl | rfl <;>
      exact ⟨List.all_iff_forall_prop.1 (by decide), _, _, rfl, by decide⟩
  obtain ⟨hbreak, hhead⟩ := hsign
  refine .single (endsWord_access h rest).2 ?_
  rw [next?_append hbreak]
  obtain ⟨c, cs, rfl, hc⟩ := hhead
  exact head?_part hc hlen

end Lockstep.Target
