import Lockstep.Proofs.Grouping
import Lockstep.Tree.Expr

/-!
# How operators and type tests are grouped

Infix expressions with tests of types among their operators, by the precedences of a language.
Operands are taken as a whole; what matters is which signs stand between them. A test is an operator
with a type behind it.

- `Grammar.java`, `Grammar.swift`: the precedences of languages.
- `Grouped`: a list of signs is read as a tree of operands.
- `Grouped.unique`: it is read as no other tree.
- `Shaped`: the signs belong to the tree, whatever the precedences are.
- `grouped_binary_iff`, `grouped_test_iff`, …: when signs that belong to a tree are read as it.
-/

namespace Lockstep.Target

open Lockstep.Tree

/-! ## Grammars -/

/-- The precedences of the infix operators of a language. -/
structure Grammar where
  hasOperator : BinaryOp → Bool
  /-- How strongly an operator binds. -/
  strength : BinaryOp → Nat
  /-- Whether operators of that strength group from the left; else they do not chain. -/
  chains : BinaryOp → Bool
  /-- How strongly a test of a type binds. -/
  test : Nat

namespace Grammar

/-- Java and C# test types as they compare. -/
def java : Grammar where
  hasOperator _ := true
  strength := BinaryOp.precedence
  chains _ := true
  test := BinaryOp.less.precedence

/-- The precedence groups of Swift. -/
inductive SwiftGroup where
  | logicalDisjunction | logicalConjunction | comparison | casting | addition | multiplication
  | bitwiseShift
  deriving DecidableEq, Repr

namespace SwiftGroup

/-- The place of a group among the groups, the loosest first. -/
def rank : SwiftGroup → Nat
  | .logicalDisjunction => 1
  | .logicalConjunction => 2
  | .comparison => 3
  | .casting => 4
  | .addition => 5
  | .multiplication => 6
  | .bitwiseShift => 7

/-- Whether the operators of the group are left-associative; else they have no associativity. -/
def chains : SwiftGroup → Bool
  | .comparison | .bitwiseShift => false
  | _ => true

/-- The group of an operator. -/
def of : BinaryOp → SwiftGroup
  | .shiftLeft | .shiftRight | .shiftRightUnsigned => .bitwiseShift
  | .times | .divide | .remainder | .bitAnd => .multiplication
  | .plus | .minus | .bitOr | .bitXor => .addition
  | .less | .greater | .lessEq | .greaterEq | .equal | .notEqual => .comparison
  | .and => .logicalConjunction
  | .or => .logicalDisjunction

end SwiftGroup

/-- Swift as it declares its operators; it has no unsigned right shift. -/
def swift : Grammar where
  hasOperator op := op != .shiftRightUnsigned
  strength op := (SwiftGroup.of op).rank
  chains op := (SwiftGroup.of op).chains
  test := SwiftGroup.casting.rank

/-- The same precedences, with operators of one strength grouped from the left. -/
def chaining (g : Grammar) : Grammar := { g with chains := fun _ => true }

/-- How strongly the left operand of an operator has to bind. -/
def left (g : Grammar) (op : BinaryOp) : Nat :=
  if g.chains op then g.strength op else g.strength op + 1

theorem strength_le_left (g : Grammar) (op : BinaryOp) : g.strength op ≤ g.left op := by
  unfold left
  split
  · exact Nat.le_refl _
  · exact Nat.le_succ _

end Grammar

/-! ## Signs and trees -/

/-- A sign of an infix expression. -/
inductive Sign where
  | operand (e : Expr)
  | type (type : TypeRef)
  | operator (op : BinaryOp)
  /-- The word between a value and a type. -/
  | test
  /-- The function that stands for a shift. -/
  | function
  | openParen
  | closeParen
  | comma

/-- How operands are grouped. -/
inductive OperandTree where
  | leaf (e : Expr)
  | binary (op : BinaryOp) (left right : OperandTree)
  | test (value : OperandTree) (type : TypeRef)

/-- Whether an expression binds less strongly than any operator. -/
def isLoose : Expr → Bool
  | .assign .. | .conditional .. => true
  | _ => false

/-- The signs are an expression whose operators outside of parentheses bind as strongly as the bound
says or more strongly. -/
inductive Grouped (g : Grammar) : Nat → List Sign → OperandTree → Prop where
  | leaf : (isLoose e = true → n = 0) → Grouped g n [.operand e] (.leaf e)
  | paren : Grouped g 0 ts a → Grouped g n (.openParen :: ts ++ [.closeParen]) a
  /-- A call stands for the shift that the language has no operator for. -/
  | call : g.hasOperator .shiftRightUnsigned = false → Grouped g 0 ts a → Grouped g 0 us b →
      Grouped g n (.function :: .openParen :: ts ++ .comma :: us ++ [.closeParen])
        (.binary .shiftRightUnsigned a b)
  | binary : g.hasOperator op = true → n ≤ g.strength op → Grouped g (g.left op) ts a →
      Grouped g (g.strength op + 1) us b → Grouped g n (ts ++ .operator op :: us) (.binary op a b)
  /-- A test is no operand of what binds more strongly, on neither side. -/
  | test : n ≤ g.test → Grouped g g.test ts a →
      Grouped g n (ts ++ [.test, .type type]) (.test a type)

variable {g : Grammar} {n m : Nat} {ts us p q : List Sign} {a b : OperandTree} {op : BinaryOp}
  {tok : Sign} {type : TypeRef}

/-! ## Depth and weight -/

namespace Sign

/-- The sign as a token, as far as parentheses are concerned. -/
def lexeme : Sign → Lexeme
  | .operand _ | .type _ | .test | .function => .part []
  | .operator op => .operator op
  | .openParen => .openParen
  | .closeParen => .closeParen
  | .comma => .comma

/-- How many parentheses are open after the signs. -/
def depth (ts : List Sign) : Int := Lexeme.depth (ts.map lexeme)

@[simp] theorem depth_append (ts us : List Sign) : depth (ts ++ us) = depth ts + depth us := by
  simp [depth]

/-- Every parenthesis that is closed has been opened, and all of them are closed in the end. -/
def Closed (ts : List Sign) : Prop := Balanced (ts.map lexeme)

/-- Whether the sign stands between two parts of an expression. -/
def isJoint : Sign → Bool
  | .operator _ | .test => true
  | _ => false

theorem depth_joint (h : tok.isJoint = true) : depth [tok] = 0 := by
  cases tok <;> first | rfl | cases h

/-- What a sign adds to the tree of an expression. An operator weighs as much as the function and the
comma of a call. -/
def weight : Sign → Nat
  | .operand _ | .test | .function | .comma => 1
  | .operator _ => 2
  | .type _ | .openParen | .closeParen => 0

def weights : List Sign → Nat
  | [] => 0
  | tok :: ts => tok.weight + weights ts

@[simp] theorem weights_nil : weights [] = 0 := rfl

@[simp] theorem weights_cons (tok : Sign) (ts : List Sign) :
    weights (tok :: ts) = tok.weight + weights ts := rfl

@[simp] theorem weights_append (ts us : List Sign) :
    weights (ts ++ us) = weights ts + weights us := by
  induction ts with
  | nil => simp
  | cons tok ts ih => simp [ih, Nat.add_assoc]

namespace Closed

theorem total (h : Closed ts) : depth ts = 0 := Balanced.total h

theorem single (h : depth [tok] = 0) : Closed [tok] := Balanced.single h

theorem append (h : Closed ts) (h' : Closed us) : Closed (ts ++ us) := by
  unfold Closed
  rw [List.map_append]
  exact Balanced.append h h'

theorem enclosed (h : Closed ts) : Closed (.openParen :: ts ++ [.closeParen]) := by
  have := Balanced.enclosed h
  simpa [Closed, lexeme] using this

/-- Inside of parentheses everything is deeper than outside. -/
theorem depth_pos (h : Closed ts) (hsplit : .openParen :: ts ++ [.closeParen] = p ++ tok :: q)
    (htok : depth [tok] = 0) : 0 < depth p := by
  have hsplit' := congrArg (List.map lexeme) hsplit
  simp only [List.map_append, List.map_cons, List.map_nil] at hsplit'
  exact Balanced.depth_pos h hsplit' htok

/-- The same behind the function of a call. -/
theorem depth_pos_call (h : Closed ts)
    (hsplit : .function :: (.openParen :: ts ++ [.closeParen]) = p ++ tok :: q)
    (htok : depth [tok] = 0) (hne : tok ≠ .function) : 0 < depth p := by
  cases p with
  | nil =>
    cases hsplit
    exact absurd rfl hne
  | cons x p =>
    obtain ⟨rfl, hrest⟩ := List.cons.inj hsplit
    have := h.depth_pos hrest htok
    simpa [depth, lexeme, Lexeme.depth] using this

end Closed

end Sign

open Sign

/-- Signs are split at one place by what stands before it, if the signs split at have a weight. -/
theorem split_eq {xs ys us vs : List Sign} {x u : Sign} (h : xs ++ x :: ys = us ++ u :: vs)
    (hx : 0 < x.weight) (hu : 0 < u.weight) (hweight : weights xs = weights us) :
    xs = us ∧ x = u ∧ ys = vs := by
  rcases append_cons_cases h with ⟨rest, rfl, _⟩ | heq | ⟨rest, rfl, _⟩
  · simp only [weights_append, weights_cons] at hweight
    omega
  · exact heq
  · simp only [weights_append, weights_cons] at hweight
    omega

/-! ## Signs of a tree -/

/-- The weight of the signs of a tree. -/
def OperandTree.weight : OperandTree → Nat
  | .leaf _ => 1
  | .binary _ a b => a.weight + 2 + b.weight
  | .test a _ => a.weight + 1

/-- The signs have the parentheses and the weight of signs of the tree. -/
structure Shaped (ts : List Sign) (a : OperandTree) : Prop where
  closed : Closed ts
  weight : weights ts = a.weight

namespace Shaped

theorem leaf (e : Expr) : Shaped [.operand e] (.leaf e) := ⟨.single rfl, rfl⟩

theorem paren (h : Shaped ts a) : Shaped (.openParen :: ts ++ [.closeParen]) a :=
  ⟨h.closed.enclosed, by simp [h.weight, Sign.weight]⟩

theorem binary (h : Shaped ts a) (h' : Shaped us b) :
    Shaped (ts ++ .operator op :: us) (.binary op a b) := by
  have hop : Closed [.operator op] := .single rfl
  refine ⟨h.closed.append (hop.append h'.closed), ?_⟩
  simp only [weights_append, weights_cons, h.weight, h'.weight, Sign.weight, OperandTree.weight]
  omega

/-- What a call encloses. -/
theorem closed_arguments (h : Closed ts) (h' : Closed us) :
    Closed (ts ++ .comma :: us) := by
  have hcomma : Closed [.comma] := .single rfl
  exact h.append (hcomma.append h')

theorem call (h : Shaped ts a) (h' : Shaped us b) :
    Shaped (.function :: .openParen :: ts ++ .comma :: us ++ [.closeParen]) (.binary op a b) := by
  have hword : Closed [.function] := .single rfl
  refine ⟨hword.append (closed_arguments h.closed h'.closed).enclosed, ?_⟩
  simp only [List.cons_append, weights_append, weights_cons, h.weight, h'.weight, Sign.weight,
    OperandTree.weight, weights_nil]
  omega

theorem test (h : Shaped ts a) : Shaped (ts ++ [.test, .type type]) (.test a type) := by
  have htest : Closed [.test] := .single rfl
  have htype : Closed [.type type] := .single rfl
  refine ⟨h.closed.append (htest.append htype), ?_⟩
  simp [h.weight, Sign.weight, OperandTree.weight]

end Shaped

namespace Grouped

theorem shaped (h : Grouped g n ts a) : Shaped ts a := by
  induction h with
  | leaf => exact .leaf _
  | paren _ ih => exact ih.paren
  | call _ _ _ ih ih' => exact ih.call ih'
  | binary _ _ _ _ ih ih' => exact ih.binary ih'
  | test _ _ ih => exact ih.test

theorem mono (h : Grouped g n ts a) (hm : m ≤ n) : Grouped g m ts a := by
  cases h with
  | leaf he => exact .leaf fun hloose => Nat.le_zero.1 (he hloose ▸ hm)
  | paren h => exact .paren h
  | call hop h h' => exact .call hop h h'
  | binary hop hn h h' => exact .binary hop (Nat.le_trans hm hn) h h'
  | test hn h => exact .test (Nat.le_trans hm hn) h

/-- What is read by a grammar is read by one in which more operators chain. -/
theorem chaining (h : Grouped g n ts a) : Grouped g.chaining n ts a := by
  induction h with
  | leaf he => exact .leaf he
  | paren _ ih => exact .paren ih
  | call hop _ _ ih ih' => exact .call hop ih ih'
  | binary hop hn _ _ ih ih' => exact .binary hop hn (ih.mono (g.strength_le_left _)) ih'
  | test hn _ ih => exact .test hn ih

/-! ## One reading -/

/-- How strongly a sign between two parts binds. -/
def jointStrength (g : Grammar) : Sign → Nat
  | .operator op => g.strength op
  | _ => g.test

theorem jointStrength_le_left (g : Grammar) (op : BinaryOp) :
    jointStrength g (.operator op) ≤ g.left op := g.strength_le_left op

/-- A single sign is split at itself only. -/
theorem eq_of_singleton {tok' : Sign} (h : [tok'] = p ++ tok :: q) : tok' = tok := by
  rcases List.append_eq_singleton_iff.1 h.symm with ⟨rfl, h⟩ | ⟨rfl, h⟩
  · exact (List.cons.inj h).1
  · cases h

/-- An operand is no sign between two parts. -/
theorem leaf_ne {e : Expr} (htok : tok.isJoint = true) : [.operand e] ≠ p ++ tok :: q := by
  intro hsplit
  obtain rfl := eq_of_singleton hsplit
  cases htok

/-- Outside of parentheses a sign between two parts binds as strongly as the bound says. -/
theorem le_jointStrength (h : Grouped g n ts a) (hsplit : ts = p ++ tok :: q)
    (htok : tok.isJoint = true) (hdepth : depth p = 0) : n ≤ jointStrength g tok := by
  have hflat := depth_joint htok
  induction h generalizing p q with
  | leaf => exact absurd hsplit (leaf_ne htok)
  | paren h _ =>
    have := h.shaped.closed.depth_pos hsplit hflat
    omega
  | call _ h h' =>
    have hne : tok ≠ .function := by
      rintro rfl
      cases htok
    have := (Shaped.closed_arguments h.shaped.closed h'.shaped.closed).depth_pos_call hsplit hflat hne
    omega
  | @binary op n ts a us b _ hn h _ ih ih' =>
    rcases append_cons_cases hsplit with ⟨r, hr, _⟩ | ⟨_, rfl, _⟩ | ⟨r, rfl, hr⟩
    · exact Nat.le_trans (Nat.le_trans hn (g.strength_le_left op)) (ih hr hdepth)
    · exact hn
    · have hop : depth [.operator op] = 0 := rfl
      rw [← List.singleton_append, depth_append, depth_append, h.shaped.closed.total, hop] at hdepth
      have := ih' hr (by omega)
      omega
  | @test n ts a type hn h ih =>
    rcases append_cons_cases hsplit with ⟨r, hr, _⟩ | ⟨_, rfl, _⟩ | ⟨r, _, hr⟩
    · exact Nat.le_trans hn (ih hr hdepth)
    · exact hn
    · obtain rfl := eq_of_singleton hr
      cases htok

/-- A comma is inside of the parentheses of a call. -/
theorem depth_pos_of_comma (h : Grouped g n ts a) (hsplit : ts = p ++ .comma :: q) :
    0 < depth p := by
  induction h generalizing p q with
  | leaf =>
    cases eq_of_singleton hsplit
  | paren h _ => exact h.shaped.closed.depth_pos hsplit rfl
  | call _ h h' =>
    exact (Shaped.closed_arguments h.shaped.closed h'.shaped.closed).depth_pos_call hsplit rfl nofun
  | @binary op n ts a us b _ _ h _ ih ih' =>
    rcases append_cons_cases hsplit with ⟨r, hr, _⟩ | ⟨_, hx, _⟩ | ⟨r, rfl, hr⟩
    · exact ih hr
    · cases hx
    · have hpos := ih' hr
      have hop : depth [.operator op] = 0 := rfl
      rw [← List.singleton_append, depth_append, depth_append, h.shaped.closed.total, hop]
      omega
  | test _ _ ih =>
    rcases append_cons_cases hsplit with ⟨r, hr, _⟩ | ⟨_, hx, _⟩ | ⟨r, _, hr⟩
    · exact ih hr
    · cases hx
    · cases eq_of_singleton hr

/-- Nothing outside of the outer parentheses stands between two parts. -/
theorem paren_ne (h : Closed ts) (hp : Closed p) (htok : tok.isJoint = true) :
    .openParen :: ts ++ [.closeParen] ≠ p ++ tok :: q := by
  intro hsplit
  have := h.depth_pos hsplit (depth_joint htok)
  rw [hp.total] at this
  exact Int.lt_irrefl 0 this

theorem call_ne (h : Closed ts) (hp : Closed p) (htok : tok.isJoint = true) :
    .function :: (.openParen :: ts ++ [.closeParen]) ≠ p ++ tok :: q := by
  intro hsplit
  have hne : tok ≠ .function := by
    rintro rfl
    cases htok
  have := h.depth_pos_call hsplit (depth_joint htok) hne
  rw [hp.total] at this
  exact Int.lt_irrefl 0 this

/-- The comma of a call is the first outside of further parentheses. -/
theorem arguments_eq {vs ws : List Sign} {c : OperandTree} (h : Grouped g n ts a)
    (h' : Grouped g m vs c) (heq : ts ++ .comma :: us = vs ++ .comma :: ws) :
    ts = vs ∧ us = ws := by
  rcases append_cons_cases heq with ⟨r, hr, _⟩ | ⟨hts, _, hus⟩ | ⟨r, hr, _⟩
  · have := h.depth_pos_of_comma hr
    rw [h'.shaped.closed.total] at this
    exact absurd this (Int.lt_irrefl 0)
  · exact ⟨hts, hus⟩
  · have := h'.depth_pos_of_comma hr
    rw [h.shaped.closed.total] at this
    exact absurd this (Int.lt_irrefl 0)

/-- Of an operator and a later sign that could both be the root of the tree, the later one binds more
strongly. -/
theorem root_lt {vs r ws : List Sign} (hright : Grouped g (g.strength op + 1) us b)
    (hleft : Grouped g m vs a) (hm : jointStrength g tok ≤ m) (htok : tok.isJoint = true)
    (hts : Closed ts) (hvs : vs = ts ++ .operator op :: r) (hus : us = r ++ tok :: ws) : False := by
  have hr : depth r = 0 := by
    have htotal := hleft.shaped.closed.total
    have hop : depth [.operator op] = 0 := rfl
    rw [hvs, ← List.singleton_append, depth_append, depth_append, hts.total, hop] at htotal
    omega
  have h₁ : m ≤ g.strength op := hleft.le_jointStrength hvs rfl hts.total
  have h₂ := hright.le_jointStrength hus htok hr
  omega

/-- An expression with an operator is not one that ends with a test. -/
theorem binary_ne_test {vs : List Sign} {c : OperandTree} (hright : Grouped g (g.strength op + 1) us b)
    (h : Closed ts) (h' : Grouped g g.test vs c) :
    ts ++ .operator op :: us ≠ vs ++ [.test, .type type] := by
  intro heq
  rcases append_cons_cases heq with ⟨r, _, hr⟩ | ⟨_, hx, _⟩ | ⟨r, hvs, hus⟩
  · cases eq_of_singleton hr
  · cases hx
  · exact root_lt hright h' (Nat.le_refl _) rfl h hvs hus

/-- The signs have one reading, whatever the bound. -/
theorem unique (h : Grouped g n ts a) (h' : Grouped g m ts b) : a = b := by
  induction h generalizing m b with
  | @leaf e n _ =>
    generalize hts : [Sign.operand e] = us at h'
    cases h' with
    | leaf =>
      cases hts
      rfl
    | paren => cases hts
    | call => cases hts
    | binary => exact absurd hts (leaf_ne rfl)
    | test => exact absurd hts (leaf_ne rfl)
  | @paren ts a n h ih =>
    generalize hts : Sign.openParen :: ts ++ [.closeParen] = us at h'
    cases h' with
    | leaf => cases hts
    | paren h' =>
      have hts := List.append_cancel_right (List.cons.inj hts).2
      exact ih (hts ▸ h')
    | call => cases hts
    | binary _ _ h₁ _ => exact absurd hts (paren_ne h.shaped.closed h₁.shaped.closed rfl)
    | test _ h₁ => exact absurd hts (paren_ne h.shaped.closed h₁.shaped.closed rfl)
  | @call ts₁ a₁ ts₂ a₂ n hnone h₁ h₂ ih₁ ih₂ =>
    have hclosed := Shaped.closed_arguments h₁.shaped.closed h₂.shaped.closed
    generalize hts : Sign.function :: .openParen :: ts₁ ++ .comma :: ts₂ ++ [.closeParen] = us at h'
    cases h' with
    | leaf => cases hts
    | paren => cases hts
    | call _ h₁' h₂' =>
      have hargs := List.append_cancel_right (List.cons.inj (List.cons.inj hts).2).2
      obtain ⟨rfl, rfl⟩ := h₁.arguments_eq h₁' hargs
      rw [ih₁ h₁', ih₂ h₂']
    | binary _ _ h₁' _ => exact absurd hts (call_ne hclosed h₁'.shaped.closed rfl)
    | test _ h₁' => exact absurd hts (call_ne hclosed h₁'.shaped.closed rfl)
  | @binary op n ts₁ a₁ ts₂ a₂ hop hn h₁ h₂ ih₁ ih₂ =>
    generalize hts : ts₁ ++ Sign.operator op :: ts₂ = us at h'
    cases h' with
    | leaf => exact absurd hts.symm (leaf_ne rfl)
    | paren h' => exact absurd hts.symm (paren_ne h'.shaped.closed h₁.shaped.closed rfl)
    | call _ h₁' h₂' =>
      have hclosed := Shaped.closed_arguments h₁'.shaped.closed h₂'.shaped.closed
      exact absurd hts.symm (call_ne hclosed h₁.shaped.closed rfl)
    | binary _ _ h₁' h₂' =>
      rcases append_cons_cases hts with ⟨r, hr, hr'⟩ | ⟨rfl, hop, rfl⟩ | ⟨r, hr, hr'⟩
      · exact (root_lt h₂' h₁ (jointStrength_le_left g op) rfl h₁'.shaped.closed hr hr').elim
      · cases hop
        rw [ih₁ h₁', ih₂ h₂']
      · exact (root_lt h₂ h₁' (jointStrength_le_left g _) rfl h₁.shaped.closed hr hr').elim
    | test _ h₁' => exact absurd hts (binary_ne_test h₂ h₁.shaped.closed h₁')
  | @test n ts₁ a₁ type _ h₁ ih =>
    generalize hts : ts₁ ++ [Sign.test, .type type] = us at h'
    cases h' with
    | leaf => exact absurd hts.symm (leaf_ne rfl)
    | paren h' => exact absurd hts.symm (paren_ne h'.shaped.closed h₁.shaped.closed rfl)
    | call _ h₁' h₂' =>
      have hclosed := Shaped.closed_arguments h₁'.shaped.closed h₂'.shaped.closed
      exact absurd hts.symm (call_ne hclosed h₁.shaped.closed rfl)
    | binary _ _ h₁' h₂' => exact absurd hts.symm (binary_ne_test h₂' h₁'.shaped.closed h₁)
    | test _ h₁' =>
      obtain ⟨rfl, htype⟩ := List.append_inj' hts rfl
      cases htype
      rw [ih h₁']

/-- The one reading. -/
theorem iff_eq (h : Grouped g n ts a) (b : OperandTree) : Grouped g n ts b ↔ b = a :=
  ⟨fun h' => h'.unique h, fun heq => heq ▸ h⟩

end Grouped

/-! ## Signs that belong to a tree -/

section

variable (g)

/-- Parentheses make an operand of any expression. -/
theorem grouped_paren_iff (h : Closed ts) :
    Grouped g n (.openParen :: ts ++ [.closeParen]) a ↔ Grouped g 0 ts a := by
  refine ⟨fun h' => ?_, .paren⟩
  generalize hts : Sign.openParen :: ts ++ [.closeParen] = us at h'
  cases h' with
  | leaf => cases hts
  | paren h' =>
    have hts := List.append_cancel_right (List.cons.inj hts).2
    exact hts ▸ h'
  | call => cases hts
  | binary _ _ h₁ _ => exact absurd hts (Grouped.paren_ne h h₁.shaped.closed rfl)
  | test _ h₁ => exact absurd hts (Grouped.paren_ne h h₁.shaped.closed rfl)

theorem grouped_binary_iff (hop : g.hasOperator op = true) (h : Shaped ts a) :
    Grouped g n (ts ++ .operator op :: us) (.binary op a b) ↔
      n ≤ g.strength op ∧ Grouped g (g.left op) ts a ∧ Grouped g (g.strength op + 1) us b := by
  refine ⟨fun h' => ?_, fun ⟨hn, h₁, h₂⟩ => .binary hop hn h₁ h₂⟩
  generalize hts : ts ++ Sign.operator op :: us = vs at h'
  cases h' with
  | paren h' => exact absurd hts.symm (Grouped.paren_ne h'.shaped.closed h.closed rfl)
  | call hnone =>
    rw [hnone] at hop
    cases hop
  | binary _ hn h₁ h₂ =>
    have hweight := h.weight.trans h₁.shaped.weight.symm
    obtain ⟨rfl, -, rfl⟩ := split_eq hts (Nat.succ_pos 1) (Nat.succ_pos 1) hweight
    exact ⟨hn, h₁, h₂⟩

theorem grouped_call_iff (hop : g.hasOperator .shiftRightUnsigned = false) (h : Shaped ts a) :
    Grouped g n (.function :: .openParen :: ts ++ .comma :: us ++ [.closeParen])
        (.binary .shiftRightUnsigned a b) ↔ Grouped g 0 ts a ∧ Grouped g 0 us b := by
  refine ⟨fun hg => ?_, fun ⟨h₁, h₂⟩ => .call hop h₁ h₂⟩
  generalize hts : Sign.function :: .openParen :: ts ++ .comma :: us ++ [.closeParen] = vs at hg
  cases hg with
  | paren => cases hts
  | call _ h₁ h₂ =>
    have hargs := List.append_cancel_right (List.cons.inj (List.cons.inj hts).2).2
    have hweight := h.weight.trans h₁.shaped.weight.symm
    obtain ⟨rfl, -, rfl⟩ := split_eq hargs Nat.one_pos Nat.one_pos hweight
    exact ⟨h₁, h₂⟩
  | binary hsome =>
    rw [hop] at hsome
    cases hsome

theorem grouped_test_iff (h : Closed ts) :
    Grouped g n (ts ++ [.test, .type type]) (.test a type) ↔
      n ≤ g.test ∧ Grouped g g.test ts a := by
  refine ⟨fun h' => ?_, fun ⟨hn, h₁⟩ => .test hn h₁⟩
  generalize hts : ts ++ [Sign.test, .type type] = vs at h'
  cases h' with
  | paren h' => exact absurd hts.symm (Grouped.paren_ne h'.shaped.closed h rfl)
  | test hn h₁ =>
    obtain ⟨rfl, -⟩ := List.append_inj' hts rfl
    exact ⟨hn, h₁⟩

end

end Lockstep.Target
