import Lockstep.Proofs.Grouping
import Lockstep.Proofs.WrittenTrivia
import Lockstep.Text.Identifier
import Mathlib.Data.Bool.AllAny

/-!
# Reading the tokens of a target

The text of an infix expression is read from left to right: runs of trivia are dropped, and where
none begins the longest token is taken. What is read so far does not depend on how the text goes on
as long as the next character cannot be part of the token.

- `Lexeme.next?`: the token at the head of a text.
- `Reads`: the tokens of a text.
- `Reads.unique`: a text has no other tokens.
- `Reads.indented`: indentation changes no token.
-/

namespace Lockstep.Target

open Output Source Text Lockstep.Tree

/-! ## Characters -/

/-- The characters that an operand ends before. -/
def endChars : List Char :=
  [' ', '\t', '\x0c', '\n', '\r', '*', '/', '%', '+', '-', '<', '>', '=', '!', '&', '^', '|', ')',
    ',']

/-- Whether the text goes on with none of the characters of an operand. -/
def EndsOperand (rest : List Char) : Prop := ∀ c ∈ rest.head?, c ∈ endChars

/-- Whether the text goes on with an operand, or with a parenthesis before one. -/
def OpensOperand (rest : List Char) : Prop := ∃ c cs, rest = c :: cs ∧ c ∉ endChars

/-- The characters of a word, with those that escape it. -/
def isWordChar (c : Char) : Bool := isIdentifierPart c || c == '@' || c == '`'

def isQuote (c : Char) : Bool := c == '"' || c == '\''

def isNumberChar (c : Char) : Bool := c.isAlphanum || c == '_' || c == '.' || c == '\''

def isSign (c : Char) : Bool := c == '+' || c == '-'

/-- The letters that an exponent begins with; in base 16 the others are digits. -/
def isExponent (hex : Bool) (c : Char) : Bool :=
  if hex then c == 'p' || c == 'P' else c == 'e' || c == 'E'

def digitChars : List Char := ['0', '1', '2', '3', '4', '5', '6', '7', '8', '9']

theorem mem_digitChars {c : Char} (h : c.isDigit = true) : c ∈ digitChars := by
  obtain ⟨hlow, hhigh⟩ := Char.isDigit_iff_toNat.1 h
  have hall : ∀ n : Fin 10, Char.ofNat (48 + n) ∈ digitChars := by decide
  change 48 ≤ c.toNat at hlow
  have hc : Char.ofNat (48 + (c.toNat - 48)) = c := by
    rw [Nat.add_sub_cancel' hlow, Char.ofNat_toNat]
  rw [← hc]
  exact hall ⟨c.toNat - 48, Nat.sub_lt_left_of_lt_add hlow (Nat.lt_succ_of_le hhigh)⟩

/-! ## Tokens -/

/-- Whether a number is one in base 16. -/
def isHex : List Char → Bool
  | '0' :: c :: _ => c == 'x' || c == 'X'
  | _ => false

/-- How far a number goes. Signs belong to it after the letter of an exponent. -/
def numberLength (hex : Bool) : (afterExponent : Bool) → List Char → Nat
  | _, [] => 0
  | afterExponent, c :: cs =>
    if isNumberChar c || afterExponent && isSign c then numberLength hex (isExponent hex c) cs + 1
    else 0

/-- How far a literal goes after its opening quote. -/
def quotedLength? (quote : Char) : List Char → Option Nat
  | '\\' :: _ :: cs => (quotedLength? quote cs).map (· + 2)
  | c :: cs => if c == quote then some 1 else (quotedLength? quote cs).map (· + 1)
  | [] => none

/-- How far the sign between two words of a name goes. -/
def accessLength? : List Char → Option Nat
  | '.' :: _ => some 1
  | ':' :: ':' :: _ | '-' :: '>' :: _ => some 2
  | _ => none

/-- Whether a number begins here. -/
def startsNumber : List Char → Bool
  | [] => false
  | c :: rest => c.isDigit || c == '.' && rest.head?.any Char.isDigit

/-- How far a word, a literal or a sign between words goes. -/
def partLength? (t : Target) (cs : List Char) : Option Nat :=
  match cs with
  | [] => none
  | c :: rest =>
    if isQuote c then (quotedLength? c rest).map (· + 1)
    else if startsNumber cs then some (numberLength (isHex cs) false cs)
    else if t == .cpp && c == 'u' && rest.head?.any isQuote then
      (quotedLength? (rest.headD c) rest.tail).map (· + 2)
    else if isWordChar c then some (cs.takeWhile isWordChar).length
    else accessLength? cs

/-- The operators, those with longer tokens first. -/
def longestFirst : List BinaryOp :=
  [.shiftRightUnsigned, .shiftLeft, .shiftRight, .lessEq, .greaterEq, .equal, .notEqual, .and, .or,
    .times, .divide, .remainder, .plus, .minus, .less, .greater, .bitAnd, .bitXor, .bitOr]

/-- The operator at the head of a text. -/
def operator? (t : Target) (cs : List Char) : Option BinaryOp :=
  longestFirst.find? fun op => (t.binaryToken? op).isSome && op.token.toList.isPrefixOf cs

namespace Lexeme

/-- The token at the head of a line, with its length. -/
def head? (t : Target) (cs : List Char) : Option (Lexeme × Nat) :=
  match cs with
  | '(' :: _ => some (.openParen, 1)
  | ')' :: _ => some (.closeParen, 1)
  | ',' :: _ => some (.comma, 1)
  | _ =>
    match partLength? t cs with
    | some n => some (.part (cs.take n), n)
    | none => (operator? t cs).map fun op => (.operator op, op.token.toList.length)

/-- The token at the head of a text; no token goes beyond its line. -/
def next? (t : Target) (cs : List Char) : Option (Lexeme × Nat) :=
  head? t (cs.takeWhile (!isLineBreak ·))

theorem next?_nil (t : Target) : next? t [] = none := by
  have hop : operator? t [] = none :=
    List.find?_eq_none.2 fun op _ => by cases op <;> simp [BinaryOp.token]
  simp only [next?, List.takeWhile_nil, head?, partLength?, hop, Option.map_none]

end Lexeme

/-- The text consists of the tokens, with runs of trivia before and after them; `rest` is what comes
after it. -/
inductive Reads (t : Target) : List Lexeme → List Char → List Char → Prop where
  | nil : Reads t [] [] rest
  | trivia : Trivia.next (run ++ (text ++ rest)) = .run kind run.length → Reads t ts text rest →
      Reads t ts (run ++ text) rest
  | token : Trivia.next (word ++ (text ++ rest)) = .absent →
      Lexeme.next? t (word ++ (text ++ rest)) = some (tok, word.length) → Reads t ts text rest →
      Reads t (tok :: ts) (word ++ text) rest

variable {t : Target} {ts us : List Lexeme} {text text' rest : List Char} {op : BinaryOp}

namespace Reads

theorem append (h : Reads t ts text (text' ++ rest)) (h' : Reads t us text' rest) :
    Reads t (ts ++ us) (text ++ text') rest := by
  generalize hr : text' ++ rest = r at h
  induction h with
  | nil => exact h'
  | trivia hrun _ ih =>
    subst hr
    rw [List.append_assoc]
    exact .trivia (by rwa [List.append_assoc]) (ih rfl)
  | token habsent htok _ ih =>
    subst hr
    rw [List.append_assoc]
    exact .token (by rwa [List.append_assoc]) (by rwa [List.append_assoc]) (ih rfl)

theorem ofRuns (h : Trivia.Runs text rest) : Reads t [] text rest := by
  induction h with
  | nil => exact .nil
  | cons hrun _ ih => exact .trivia hrun ih

theorem single {word : List Char} {tok : Lexeme} (habsent : Trivia.next (word ++ rest) = .absent)
    (htok : Lexeme.next? t (word ++ rest) = some (tok, word.length)) :
    Reads t [tok] word rest := by
  have h : Reads t [tok] (word ++ []) rest := .token habsent htok .nil
  rwa [List.append_nil] at h

theorem eq_nil (h : Reads t ts [] []) : ts = [] := by
  generalize htext : ([] : List Char) = text at h
  cases h with
  | nil => rfl
  | trivia hrun _ =>
    obtain ⟨rfl, rfl⟩ := List.append_eq_nil_iff.1 htext.symm
    cases hrun
  | token _ htok _ =>
    obtain ⟨rfl, rfl⟩ := List.append_eq_nil_iff.1 htext.symm
    exact nomatch (Lexeme.next?_nil t).symm.trans htok

/-- A text has no other tokens. -/
theorem unique (h : Reads t ts text []) (h' : Reads t us text []) : ts = us := by
  generalize hr : ([] : List Char) = rest at h
  induction h generalizing us with
  | nil => exact h'.eq_nil.symm
  | @trivia run text rest kind ts hrun _ ih =>
    subst hr
    generalize htext : run ++ text = whole at h'
    cases h' with
    | nil =>
      obtain ⟨rfl, rfl⟩ := List.append_eq_nil_iff.1 htext
      cases hrun
    | trivia hrun' h' =>
      rw [← List.append_assoc, htext, List.append_assoc, hrun'] at hrun
      injection hrun with _ hlen
      obtain ⟨rfl, rfl⟩ := List.append_inj htext hlen.symm
      exact ih h' rfl
    | token habsent =>
      rw [← List.append_assoc, htext, List.append_assoc, habsent] at hrun
      cases hrun
  | @token word text rest tok ts habsent htok _ ih =>
    subst hr
    generalize htext : word ++ text = whole at h'
    cases h' with
    | nil =>
      obtain ⟨rfl, rfl⟩ := List.append_eq_nil_iff.1 htext
      exact nomatch (Lexeme.next?_nil t).symm.trans htok
    | trivia hrun =>
      rw [← List.append_assoc, htext, List.append_assoc, hrun] at habsent
      cases habsent
    | token _ htok' h' =>
      rw [← List.append_assoc, htext, List.append_assoc, htok'] at htok
      injection htok with htok
      injection htok with htok hlen
      obtain ⟨rfl, rfl⟩ := List.append_inj htext hlen.symm
      rw [htok, ih h' rfl]

end Reads

/-! ## Indentation -/

theorem numberLength_le (hex afterExponent : Bool) (cs : List Char) :
    numberLength hex afterExponent cs ≤ cs.length := by
  induction cs generalizing afterExponent with
  | nil => exact Nat.le_refl 0
  | cons c cs ih =>
    rw [numberLength]
    split
    · exact Nat.succ_le_succ (ih _)
    · exact Nat.zero_le _

theorem quotedLength?_le {quote : Char} {cs : List Char} {n : Nat}
    (h : quotedLength? quote cs = some n) : n ≤ cs.length := by
  fun_induction quotedLength? quote cs generalizing n with
  | case1 c cs ih =>
    obtain ⟨m, hm, rfl⟩ := Option.map_eq_some_iff.1 h
    exact Nat.succ_le_succ (Nat.succ_le_succ (ih hm))
  | case2 =>
    cases h
    exact Nat.succ_le_succ (Nat.zero_le _)
  | case3 c cs _ _ ih =>
    obtain ⟨m, hm, rfl⟩ := Option.map_eq_some_iff.1 h
    exact Nat.succ_le_succ (ih hm)
  | case4 => cases h

theorem accessLength?_le {cs : List Char} {n : Nat} (h : accessLength? cs = some n) :
    n ≤ cs.length := by
  unfold accessLength? at h
  split at h <;> cases h <;> simp only [List.length_cons] <;> omega

theorem partLength?_le {cs : List Char} {n : Nat} (h : partLength? t cs = some n) :
    n ≤ cs.length := by
  cases cs with
  | nil => cases h
  | cons c cs =>
    simp only [partLength?] at h
    split at h
    · obtain ⟨m, hm, rfl⟩ := Option.map_eq_some_iff.1 h
      exact Nat.succ_le_succ (quotedLength?_le hm)
    · split at h
      · cases h
        exact numberLength_le _ _ _
      · split at h
        · next hprefix =>
          obtain ⟨m, hm, rfl⟩ := Option.map_eq_some_iff.1 h
          cases cs with
          | nil => simp at hprefix
          | cons d cs => exact Nat.succ_le_succ (Nat.succ_le_succ (quotedLength?_le hm))
        · split at h
          · cases h
            exact (List.takeWhile_prefix _).length_le
          · exact accessLength?_le h

theorem Lexeme.head?_le {cs : List Char} {tok : Lexeme} {n : Nat}
    (h : head? t cs = some (tok, n)) : n ≤ cs.length := by
  unfold head? at h
  split at h
  · cases h
    exact Nat.succ_le_succ (Nat.zero_le _)
  · cases h
    exact Nat.succ_le_succ (Nat.zero_le _)
  · cases h
    exact Nat.succ_le_succ (Nat.zero_le _)
  · split at h
    · next hpart =>
      cases h
      exact partLength?_le hpart
    · obtain ⟨op, hop, heq⟩ := Option.map_eq_some_iff.1 h
      cases heq
      have hmatch := List.find?_some hop
      obtain ⟨_, hprefix⟩ := Bool.and_eq_true_iff.1 hmatch
      exact (List.isPrefixOf_iff_prefix.1 hprefix).length_le

/-- A token has no line break in it. -/
theorem Lexeme.noBreak_of_next? {word : List Char} {tok : Lexeme}
    (h : next? t (word ++ rest) = some (tok, word.length)) :
    ∀ c ∈ word, isLineBreak c = false := by
  intro c hc
  have hword : word <+: (word ++ rest).takeWhile (!isLineBreak ·) :=
    List.prefix_of_prefix_length_le (List.prefix_append word rest) (List.takeWhile_prefix _)
      (head?_le h)
  simpa using List.all_eq_true.1 List.all_takeWhile c (hword.subset hc)

theorem takeWhile_indented (w : Nat) (cs : List Char) :
    (Output.indented w false cs).takeWhile (!isLineBreak ·) = cs.takeWhile (!isLineBreak ·) := by
  induction cs with
  | nil => rfl
  | cons c cs ih =>
    rw [Output.indented]
    split
    · next hbreak => rw [List.takeWhile_cons, List.takeWhile_cons, hbreak]; rfl
    · rw [if_neg Bool.false_ne_true, List.takeWhile_cons, List.takeWhile_cons, ih]

namespace Reads

/-- Blanks before a text make no difference. -/
theorem blanks {bs : List Char} (h : Reads t ts text []) (hbs : ∀ c ∈ bs, isBlank c = true) :
    Reads t ts (bs ++ text) [] := by
  cases bs with
  | nil => exact h
  | cons b bs =>
    by_cases htext : ∀ c ∈ text.head?, isBlank c = false
    · have hrun : Trivia.IsRun .blanks (b :: bs) (text ++ []) :=
        .blanks nofun hbs (by rwa [List.append_nil])
      exact .trivia hrun.next_eq h
    · -- the run of blanks at the head of the text grows
      have hblank : ∃ c cs, text = c :: cs ∧ isBlank c = true := by
        cases text with
        | nil => exact absurd nofun htext
        | cons c cs =>
          refine ⟨c, cs, rfl, ?_⟩
          simpa using htext
      obtain ⟨c, cs, htext, hc⟩ := hblank
      generalize hr : ([] : List Char) = rest at h
      cases h with
      | nil => cases htext
      | @trivia run text' _ _ _ hrun h =>
        subst hr
        have hkind := hrun
        rw [List.append_nil, htext, Trivia.next_of_isBlank hc] at hkind
        injection hkind with hkind
        subst hkind
        cases Trivia.isRun_of_next hrun with
        | blanks hne hrun htail =>
          have hall : Trivia.IsRun .blanks (b :: bs ++ run) (text' ++ []) :=
            .blanks nofun (List.forall_mem_append.2 ⟨hbs, hrun⟩) htail
          rw [← List.append_assoc]
          exact .trivia hall.next_eq h
      | token habsent =>
        subst hr
        rw [List.append_nil, htext, Trivia.next_of_isBlank hc] at habsent
        cases habsent

/-- The indentation before the text makes no difference. -/
theorem startLine {w : Nat} (h : Reads t ts (Output.indented w false text) [])
    (lineStart : Bool) : Reads t ts (Output.indented w lineStart text) [] := by
  cases lineStart with
  | false => exact h
  | true =>
    rcases Trivia.indented_true w text with heq | heq
    · exact heq ▸ h
    · rw [heq]
      exact h.blanks fun c hc => by rw [(List.mem_replicate.1 hc).2]; rfl

/-- Indentation changes no token. -/
theorem indented (h : Reads t ts text []) (w : Nat) (lineStart : Bool) :
    Reads t ts (Output.indented w lineStart text) [] := by
  generalize hr : ([] : List Char) = rest at h
  induction h generalizing lineStart with
  | nil => exact .nil
  | @trivia run text _ _ _ hrun _ ih =>
    subst hr
    have hnext := Trivia.next_indented hrun w
    apply startLine
    rw [List.append_nil, Output.indented_append] at hnext
    rw [Output.indented_append]
    exact .trivia (by rwa [List.append_nil]) (ih _ rfl)
  | @token word text _ _ _ habsent htok _ ih =>
    subst hr
    obtain ⟨hindent, hend⟩ := Trivia.indented_of_noBreak (Lexeme.noBreak_of_next? htok) w
    have hwhole : Output.indented w false (word ++ text) =
        word ++ Output.indented w false text := by
      rw [Output.indented_append, hindent, hend]
    have hline := takeWhile_indented w (word ++ text)
    apply startLine
    rw [List.append_nil] at habsent htok
    rw [hwhole]
    refine .token ?_ ?_ (ih false rfl)
    · rw [List.append_nil, ← hwhole]
      exact Trivia.next_indented_absent habsent w
    · rw [List.append_nil, ← hwhole, Lexeme.next?, hline]
      exact htok

end Reads

end Lockstep.Target
