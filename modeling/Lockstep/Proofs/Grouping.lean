import Lockstep.Target.Operators
import Lockstep.Target.Profile

/-!
# How a target groups operators

The grammar of infix expressions that the tables of a target describe: how strongly an operator
binds, that operators of one strength group from the left, and that some of them do not chain at
all. Where a target has no unsigned right shift, a call of a function stands for it.

- `Lexeme`: the tokens of infix expressions.
- `Groups`: a list of tokens is read as a tree.
- `Groups.unique`: it is read as no other tree.
-/

namespace Lockstep.Target

open Lockstep.Tree

/-- A token of an infix expression. -/
inductive Lexeme where
  /-- A word, a literal, or a sign between the words of a name. -/
  | part (text : List Char)
  | operator (op : BinaryOp)
  | openParen
  | closeParen
  | comma
  deriving DecidableEq, Repr

/-- How an infix expression is grouped. -/
inductive Grouping where
  /-- An operand without operators. -/
  | leaf (parts : List (List Char))
  | binary (op : BinaryOp) (left right : Grouping)
  deriving DecidableEq, Repr

/-- How strongly the left operand of an operator has to bind. -/
def leftStrength (t : Target) (op : BinaryOp) : Nat :=
  if t.nonAssociative op then t.precedence op + 1 else t.precedence op

theorem precedence_le_leftStrength (t : Target) (op : BinaryOp) :
    t.precedence op ≤ t.leftStrength op := by
  unfold leftStrength
  split
  · exact Nat.le_succ _
  · exact Nat.le_refl _

/-- The tokens are an expression whose operators outside of parentheses bind as strongly as the
bound says or more strongly. -/
inductive Groups (t : Target) : Nat → List Lexeme → Grouping → Prop where
  | leaf : parts ≠ [] → Groups t n (parts.map .part) (.leaf parts)
  | paren : Groups t 0 ts g → Groups t n (.openParen :: ts ++ [.closeParen]) g
  /-- A call stands for the shift that the target has no operator for. -/
  | call : t.binaryToken? .shiftRightUnsigned = none → Groups t 0 ts g → Groups t 0 ts' g' →
      Groups t n
        (.part unsignedShiftFunction.toList :: .openParen :: ts ++ .comma :: ts' ++ [.closeParen])
        (.binary .shiftRightUnsigned g g')
  | binary : (t.binaryToken? op).isSome → n ≤ t.precedence op →
      Groups t (t.leftStrength op) ts g → Groups t (t.precedence op + 1) ts' g' →
      Groups t n (ts ++ .operator op :: ts') (.binary op g g')

/-! ## Depth -/

namespace Lexeme

/-- How many parentheses are open after the tokens. -/
def depth : List Lexeme → Int
  | [] => 0
  | .openParen :: ts => depth ts + 1
  | .closeParen :: ts => depth ts - 1
  | .part _ :: ts | .operator _ :: ts | .comma :: ts => depth ts

@[simp] theorem depth_append (ts us : List Lexeme) : depth (ts ++ us) = depth ts + depth us := by
  induction ts with
  | nil => simp [depth]
  | cons tok ts ih => cases tok <;> simp only [List.cons_append, depth, ih] <;> omega

@[simp] theorem depth_parts (parts : List (List Char)) : depth (parts.map .part) = 0 := by
  induction parts with
  | nil => rfl
  | cons part parts ih => exact ih

end Lexeme

open Lexeme

variable {t : Target} {n m : Nat} {ts us p q : List Lexeme} {g g' : Grouping} {op : BinaryOp}

/-- Two ways to split a list at an element. -/
theorem append_cons_cases {α : Type} {xs ys us vs : List α} {x u : α}
    (h : xs ++ x :: ys = us ++ u :: vs) :
    (∃ rest, xs = us ++ u :: rest ∧ vs = rest ++ x :: ys) ∨ (xs = us ∧ x = u ∧ ys = vs) ∨
      ∃ rest, us = xs ++ x :: rest ∧ ys = rest ++ u :: vs := by
  induction xs generalizing us with
  | nil =>
    cases us with
    | nil =>
      cases h
      exact .inr (.inl ⟨rfl, rfl, rfl⟩)
    | cons v us =>
      cases h
      exact .inr (.inr ⟨us, rfl, rfl⟩)
  | cons y xs ih =>
    cases us with
    | nil =>
      cases h
      exact .inl ⟨xs, rfl, rfl⟩
    | cons v us =>
      obtain ⟨rfl, htail⟩ := List.cons.inj h
      rcases ih htail with ⟨rest, rfl, rfl⟩ | ⟨rfl, rfl, rfl⟩ | ⟨rest, rfl, rfl⟩
      · exact .inl ⟨rest, rfl, rfl⟩
      · exact .inr (.inl ⟨rfl, rfl, rfl⟩)
      · exact .inr (.inr ⟨rest, rfl, rfl⟩)

/-- Every parenthesis that is closed has been opened, and all of them are closed in the end. -/
structure Balanced (ts : List Lexeme) : Prop where
  total : depth ts = 0
  nonneg : ∀ p q, ts = p ++ q → 0 ≤ depth p

namespace Balanced

/-- A token that is no parenthesis. -/
theorem single {tok : Lexeme} (h : depth [tok] = 0) : Balanced [tok] := by
  refine ⟨h, fun p q hsplit => ?_⟩
  cases p with
  | nil => exact Int.le_refl 0
  | cons x p =>
    obtain ⟨rfl, hrest⟩ := List.cons.inj hsplit
    obtain ⟨rfl, rfl⟩ := List.append_eq_nil_iff.1 hrest.symm
    exact Int.le_of_eq h.symm

theorem append (h : Balanced ts) (h' : Balanced us) : Balanced (ts ++ us) := by
  refine ⟨by rw [depth_append, h.total, h'.total]; rfl, fun p q hsplit => ?_⟩
  rcases List.append_eq_append_iff.1 hsplit with ⟨r, rfl, hr⟩ | ⟨r, hr, rfl⟩
  · rw [depth_append, h.total, Int.zero_add]
    exact h'.nonneg r q hr
  · exact h.nonneg p r hr

theorem enclosed (h : Balanced ts) : Balanced (.openParen :: ts ++ [.closeParen]) := by
  refine ⟨by simp only [depth_append, depth, h.total]; rfl, fun p q hsplit => ?_⟩
  cases p with
  | nil => exact Int.le_refl 0
  | cons x p =>
    obtain ⟨rfl, hrest⟩ := List.cons.inj hsplit
    change 0 ≤ depth p + 1
    rcases List.append_eq_append_iff.1 hrest with ⟨r, rfl, hr⟩ | ⟨r, hr, rfl⟩
    · rw [depth_append, h.total]
      rcases List.cons_eq_append_iff.1 hr with ⟨rfl, _⟩ | ⟨r', rfl, hr'⟩
      · decide
      · obtain ⟨rfl, rfl⟩ := List.append_eq_nil_iff.1 hr'.symm
        decide
    · have := h.nonneg p r hr
      omega

/-- Inside of parentheses everything is deeper than outside. -/
theorem depth_pos (h : Balanced ts) (hsplit : .openParen :: ts ++ [.closeParen] = p ++ tok :: q)
    (htok : depth [tok] = 0) : 0 < depth p := by
  cases p with
  | nil =>
    cases hsplit
    cases htok
  | cons x p =>
    obtain ⟨rfl, hrest⟩ := List.cons.inj hsplit
    change 0 < depth p + 1
    rcases append_cons_cases hrest with ⟨r, hr, _⟩ | ⟨_, rfl, _⟩ | ⟨r, _, hr⟩
    · have := h.nonneg p (tok :: r) hr
      omega
    · cases htok
    · cases r <;> cases hr

/-- The same behind a word. -/
theorem depth_pos_call (h : Balanced ts)
    (hsplit : .part word :: (.openParen :: ts ++ [.closeParen]) = p ++ tok :: q)
    (htok : depth [tok] = 0) (hword : tok ≠ .part word) : 0 < depth p := by
  cases p with
  | nil =>
    cases hsplit
    exact absurd rfl hword
  | cons x p =>
    obtain ⟨rfl, hrest⟩ := List.cons.inj hsplit
    exact h.depth_pos (p := p) hrest htok

end Balanced

namespace Groups

theorem balanced (h : Groups t n ts g) : Balanced ts := by
  induction h with
  | leaf =>
    refine ⟨depth_parts _, fun p q hsplit => ?_⟩
    obtain ⟨xs, _, _, rfl, _⟩ := List.map_eq_append_iff.1 hsplit
    exact Int.le_of_eq (depth_parts xs).symm
  | paren _ ih => exact ih.enclosed
  | call _ _ _ ih ih' =>
    have hword : Balanced [.part unsignedShiftFunction.toList] := .single rfl
    have hcomma : Balanced [.comma] := .single rfl
    exact hword.append (ih.append (hcomma.append ih')).enclosed
  | @binary op _ _ _ _ _ _ _ _ _ ih ih' =>
    have hop : Balanced [.operator op] := .single rfl
    exact ih.append (hop.append ih')

/-- What a call encloses. -/
theorem balanced_arguments (h : Groups t n ts g) (h' : Groups t m us g') :
    Balanced (ts ++ .comma :: us) := by
  have hcomma : Balanced [.comma] := .single rfl
  exact h.balanced.append (hcomma.append h'.balanced)

/-- A comma is inside of the parentheses of a call. -/
theorem depth_pos_of_comma (h : Groups t n ts g) (hsplit : ts = p ++ .comma :: q) :
    0 < depth p := by
  induction h generalizing p q with
  | leaf =>
    obtain ⟨_, _, _, _, h⟩ := List.map_eq_append_iff.1 hsplit
    obtain ⟨_, _, _, h, _⟩ := List.map_eq_cons_iff.1 h
    cases h
  | paren h _ => exact h.balanced.depth_pos hsplit rfl
  | call _ h h' => exact (h.balanced_arguments h').depth_pos_call hsplit rfl nofun
  | binary _ _ h _ ih ih' =>
    rcases append_cons_cases hsplit with ⟨r, hr, _⟩ | ⟨_, hx, _⟩ | ⟨r, rfl, hr⟩
    · exact ih hr
    · cases hx
    · have := ih' hr
      simp only [depth_append, depth, h.balanced.total]
      omega

/-- An operator outside of parentheses binds as strongly as the bound says. -/
theorem le_precedence (h : Groups t n ts g) (hsplit : ts = p ++ .operator op :: q)
    (hdepth : depth p = 0) : n ≤ t.precedence op := by
  induction h generalizing p q with
  | leaf =>
    obtain ⟨_, _, _, _, h⟩ := List.map_eq_append_iff.1 hsplit
    obtain ⟨_, _, _, h, _⟩ := List.map_eq_cons_iff.1 h
    cases h
  | paren h _ =>
    have := h.balanced.depth_pos hsplit rfl
    omega
  | call _ h h' =>
    have := (h.balanced_arguments h').depth_pos_call hsplit rfl nofun
    omega
  | @binary op' _ _ _ _ _ _ hn h _ ih ih' =>
    rcases append_cons_cases hsplit with ⟨r, hr, _⟩ | ⟨_, hx, _⟩ | ⟨r, rfl, hr⟩
    · have := ih hr hdepth
      have := t.precedence_le_leftStrength op'
      omega
    · cases hx
      exact hn
    · simp only [depth_append, depth, h.balanced.total] at hdepth
      have := ih' hr (by omega)
      omega

/-! ## One reading -/

/-- The tokens of an operand without operators are words and literals. -/
theorem parts_ne {parts : List (List Char)} (htok : ∀ text, tok ≠ .part text) :
    parts.map Lexeme.part ≠ p ++ tok :: q := by
  intro hsplit
  obtain ⟨_, _, _, _, h⟩ := List.map_eq_append_iff.1 hsplit
  obtain ⟨text, _, _, h, _⟩ := List.map_eq_cons_iff.1 h
  exact htok text h.symm

/-- Nothing outside of the outer parentheses is an operator. -/
theorem paren_ne_binary (h : Groups t n ts g) (hp : Balanced p) :
    .openParen :: ts ++ [.closeParen] ≠ p ++ .operator op :: q := by
  intro hsplit
  have := h.balanced.depth_pos hsplit rfl
  rw [hp.total] at this
  exact Int.lt_irrefl 0 this

theorem call_ne_binary (h : Groups t n ts g) (h' : Groups t m us g') (hp : Balanced p) :
    .part word :: (.openParen :: (ts ++ .comma :: us) ++ [.closeParen]) ≠
      p ++ .operator op :: q := by
  intro hsplit
  have := (h.balanced_arguments h').depth_pos_call hsplit rfl nofun
  rw [hp.total] at this
  exact Int.lt_irrefl 0 this

/-- The comma of a call is the first outside of further parentheses. -/
theorem arguments_eq {vs ws : List Lexeme} {g₁ : Grouping} (h : Groups t n ts g)
    (h₁ : Groups t m vs g₁) (heq : ts ++ .comma :: us = vs ++ .comma :: ws) :
    ts = vs ∧ us = ws := by
  rcases append_cons_cases heq with ⟨r, hr, _⟩ | ⟨hts, _, hus⟩ | ⟨r, hr, _⟩
  · have := h.depth_pos_of_comma hr
    rw [h₁.balanced.total] at this
    exact absurd this (Int.lt_irrefl 0)
  · exact ⟨hts, hus⟩
  · have := h₁.depth_pos_of_comma hr
    rw [h.balanced.total] at this
    exact absurd this (Int.lt_irrefl 0)

/-- Of operators that could be the root of the tree, the later one binds more strongly than the
earlier. -/
theorem root_lt {vs ws : List Lexeme} {op' : BinaryOp} {g₁ : Grouping}
    (hright : Groups t (t.precedence op + 1) us g)
    (hleft : Groups t (t.leftStrength op') vs g₁) (hts : Balanced ts)
    (hvs : vs = ts ++ .operator op :: r) (hus : us = r ++ .operator op' :: ws) : False := by
  have hr : depth r = 0 := by
    have := hleft.balanced.total
    rw [hvs, depth_append, hts.total, Int.zero_add] at this
    exact this
  have h₁ := hleft.le_precedence hvs hts.total
  have h₂ := hright.le_precedence hus hr
  have := t.precedence_le_leftStrength op'
  omega

/-- The tokens have one reading, whatever the bound. -/
theorem unique (h : Groups t n ts g) (h' : Groups t m ts g') : g = g' := by
  induction h generalizing m g' with
  | @leaf parts n hne =>
    generalize hts : parts.map Lexeme.part = us at h'
    cases h' with
    | leaf => rw [(List.map_inj_right fun _ _ h => Lexeme.part.inj h).1 hts]
    | paren => exact absurd hts (parts_ne (p := []) nofun)
    | call => exact absurd hts (parts_ne (p := [_]) nofun)
    | binary => exact absurd hts (parts_ne nofun)
  | @paren ts g n h ih =>
    generalize hts : Lexeme.openParen :: ts ++ [.closeParen] = us at h'
    cases h' with
    | leaf => exact absurd hts.symm (parts_ne (p := []) nofun)
    | paren h' =>
      have hts := List.append_cancel_right (List.cons.inj hts).2
      exact ih (hts ▸ h')
    | call => cases hts
    | binary _ _ h₁ _ => exact absurd hts (h.paren_ne_binary h₁.balanced)
  | @call ts₁ g₁ ts₂ g₂ n hnone h₁ h₂ ih₁ ih₂ =>
    generalize hts : Lexeme.part unsignedShiftFunction.toList :: .openParen :: ts₁ ++
      .comma :: ts₂ ++ [.closeParen] = us at h'
    cases h' with
    | leaf => exact absurd hts.symm (parts_ne (p := [_]) nofun)
    | paren => cases hts
    | call _ h₁' h₂' =>
      have hargs := List.append_cancel_right (List.cons.inj (List.cons.inj hts).2).2
      obtain ⟨rfl, rfl⟩ := h₁.arguments_eq h₁' hargs
      rw [ih₁ h₁', ih₂ h₂']
    | binary _ _ h₁' _ => exact absurd hts (h₁.call_ne_binary h₂ h₁'.balanced)
  | @binary op n ts₁ g₁ ts₂ g₂ hop hn h₁ h₂ ih₁ ih₂ =>
    generalize hts : ts₁ ++ Lexeme.operator op :: ts₂ = us at h'
    cases h' with
    | leaf => exact absurd hts.symm (parts_ne nofun)
    | paren h' => exact absurd hts.symm (h'.paren_ne_binary h₁.balanced)
    | call _ h₁' h₂' => exact absurd hts.symm (h₁'.call_ne_binary h₂' h₁.balanced)
    | binary _ _ h₁' h₂' =>
      rcases append_cons_cases hts with ⟨r, hr, hr'⟩ | ⟨rfl, hop, rfl⟩ | ⟨r, hr, hr'⟩
      · exact (root_lt h₂' h₁ h₁'.balanced hr hr').elim
      · cases hop
        rw [ih₁ h₁', ih₂ h₂']
      · exact (root_lt h₂ h₁' h₁.balanced hr hr').elim

end Groups

end Lockstep.Target
