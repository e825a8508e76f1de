import Lockstep.Proofs.InfixGrouping
import Lockstep.Proofs.TestGrouping

/-!
# The signs between operands

What the output for an infix expression looks like if its operands are taken as a whole, and when a
language reads it as the tree it was made from. Operands that are infix expressions themselves are
put in parentheses where the table of the target asks for it; all other operands are written as they
are, and so are chains. So two conditions are left over: operators that do not chain in the language
must be kept apart (`Expr.Apart`), and tests of types must bind strongly enough as operands, and so
must their own (`Expr.OperandsFit`).

- `Expr.signs`, `Expr.tree`: the signs of the output, and the tree of the source.
- `Agrees`: the table of a target orders operators as the language does.
- `Expr.grouped_iff`: when the signs are read as the tree.
-/

namespace Lockstep

open Render Target Text

namespace Tree

/-! ## Signs and trees of expressions -/

/-- Signs that are put in parentheses if need be. -/
def enclosed (wrap : Bool) (ts : List Sign) : List Sign :=
  if wrap then .openParen :: ts ++ [.closeParen] else ts

theorem enclosed_false (ts : List Sign) : enclosed false ts = ts := rfl

/-- Two operands with the operator between them, or as the arguments of a call. -/
def joined (t : Target) (op : BinaryOp) (ts us : List Sign) : List Sign :=
  if (t.binaryToken? op).isSome then ts ++ .operator op :: us
  else .function :: .openParen :: ts ++ .comma :: us ++ [.closeParen]

mutual

/-- The signs of the output for an expression. -/
def Expr.signs (t : Target) : Expr → List Sign
  | .parenthesized _ inner => .openParen :: inner.signs t ++ [.closeParen]
  | .binary _ left op right more =>
    Expr.chainSigns t op (t.nonAssociative op && !more.isEmpty)
      (joined t op (enclosed (left.wraps t op true) (left.signs t))
        (enclosed (right.wraps t op false) (right.signs t))) more
  | .instanceOf _ left type => left.signs t ++ [.test, .type type]
  | e => [.operand e]

/-- The signs of a chain; `ts` are those of the operands before. -/
def Expr.chainSigns (t : Target) (op : BinaryOp) (grouped : Bool) (ts : List Sign) :
    List Expr → List Sign
  | [] => ts
  | e :: es =>
    Expr.chainSigns t op grouped
      (joined t op (enclosed grouped ts) (enclosed (e.wraps t op false) (e.signs t))) es

end

mutual

/-- How the operands of an expression are grouped in Java; parentheses are left out. -/
def Expr.tree : Expr → OperandTree
  | .parenthesized _ inner => inner.tree
  | .binary _ left op right more => Expr.chainTree op (.binary op left.tree right.tree) more
  | .instanceOf _ left type => .test left.tree type
  | e => .leaf e

/-- The tree of a chain; `a` is that of the operands before. -/
def Expr.chainTree (op : BinaryOp) (a : OperandTree) : List Expr → OperandTree
  | [] => a
  | e :: es => Expr.chainTree op (.binary op a e.tree) es

end

mutual

/-- The infix expressions in an expression, itself included, with their operands. -/
def Expr.infixNodes : Expr → List Expr
  | .parenthesized extent inner => .parenthesized extent inner :: inner.infixNodes
  | .binary extent left op right more =>
    .binary extent left op right more ::
      (left.infixNodes ++ right.infixNodes ++ Expr.allInfixNodes more)
  | .instanceOf extent left type => .instanceOf extent left type :: left.infixNodes
  | e => [e]

def Expr.allInfixNodes : List Expr → List Expr
  | [] => []
  | e :: es => e.infixNodes ++ Expr.allInfixNodes es

end

/-- The property holds of all infix expressions in an expression, and of their operands. -/
def Expr.Each (P : Expr → Prop) (e : Expr) : Prop := ∀ x ∈ e.infixNodes, P x

section

variable {P : Expr → Prop} {extent : Extent} {inner left right : Expr} {more es : List Expr}
  {op : BinaryOp} {type : TypeRef}

theorem Expr.forall_allInfixNodes :
    (∀ x ∈ Expr.allInfixNodes es, P x) ↔ ∀ e ∈ es, e.Each P := by
  induction es with
  | nil => exact ⟨fun _ => List.forall_mem_nil _, fun _ => List.forall_mem_nil _⟩
  | cons e es ih => rw [Expr.allInfixNodes, List.forall_mem_append, List.forall_mem_cons, ih]; rfl

@[simp]
theorem Expr.each_name {n : Name} : (Expr.name n).Each P ↔ P (.name n) := List.forall_mem_singleton

@[simp]
theorem Expr.each_parenthesized :
    (Expr.parenthesized extent inner).Each P ↔
      P (.parenthesized extent inner) ∧ inner.Each P := by
  rw [Expr.Each, Expr.infixNodes, List.forall_mem_cons]; rfl

@[simp]
theorem Expr.each_binary :
    (Expr.binary extent left op right more).Each P ↔
      P (.binary extent left op right more) ∧ left.Each P ∧ right.Each P ∧ ∀ e ∈ more, e.Each P := by
  rw [Expr.Each, Expr.infixNodes, List.forall_mem_cons, List.forall_mem_append,
    List.forall_mem_append, Expr.forall_allInfixNodes, and_assoc]
  rfl

@[simp]
theorem Expr.each_instanceOf :
    (Expr.instanceOf extent left type).Each P ↔
      P (.instanceOf extent left type) ∧ left.Each P := by
  rw [Expr.Each, Expr.infixNodes, List.forall_mem_cons]; rfl

end

/-! ## Conditions -/

/-- The expression binds as strongly as the bound says. -/
def Expr.Binds (g : Grammar) (n : Nat) : Expr → Prop
  | .binary _ _ op .. => g.hasOperator op = true → n ≤ g.strength op
  | .instanceOf .. => n ≤ g.test
  | e => isLoose e = true → n = 0

/-- The expression binds as strongly as the bound says, unless it is an infix expression: those are
put in parentheses if need be. -/
def Expr.BindsAlone (g : Grammar) (n : Nat) : Expr → Prop
  | .binary .. => True
  | e => e.Binds g n

/-- Whether the expression is one of these operators between operands. -/
def Expr.isOneOf (ops : BinaryOp → Bool) : Expr → Bool
  | .binary _ _ op .. => ops op
  | _ => false

/-- There is no chain of these operators, neither as a single node nor with one of them on the
left. -/
def Expr.Apart (ops : BinaryOp → Bool) : Expr → Prop
  | .binary _ left op _ more => ops op = true → more = [] ∧ left.isOneOf ops = false
  | _ => True

/-- All that is written as an operand as it is binds strongly enough to be one. -/
def Expr.OperandsFit (g : Grammar) : Expr → Prop
  | .binary _ left op right more => g.hasOperator op = true →
    left.BindsAlone g (g.left op) ∧ ∀ e ∈ right :: more, e.BindsAlone g (g.strength op + 1)
  | .instanceOf _ left _ => left.Binds g g.test
  | _ => True

end Tree

open Lockstep.Tree

namespace Target

/-- The table of the target orders operators as the language does. The operators in `ops` do not
chain in the language, and the table does not say so. -/
structure Agrees (t : Target) (g : Grammar) (ops : BinaryOp → Bool) : Prop where
  hasOperator : ∀ op, g.hasOperator op = (t.binaryToken? op).isSome
  lt_iff : ∀ op op', g.hasOperator op = true → g.hasOperator op' = true →
    (t.precedence op < t.precedence op' ↔ g.strength op < g.strength op')
  ops_iff : ∀ op, g.hasOperator op = true →
    (ops op = true ↔ g.chains op = false ∧ t.nonAssociative op = false)
  ops_level : ∀ op op', ops op = true → g.hasOperator op' = true →
    (ops op' = true ↔ g.strength op' = g.strength op)
  ops_hasOperator : ∀ op, ops op = true → g.hasOperator op = true

/-- The operators of C# bind as those of Java. -/
theorem agrees_csharp : Agrees .csharp .java fun _ => false where
  hasOperator op := by cases op <;> rfl
  lt_iff op op' _ _ := by cases op <;> cases op' <;> decide
  ops_iff op _ := by cases op <;> decide
  ops_level op op' h := nomatch h
  ops_hasOperator op h := nomatch h

/-- The shifts of Swift do not chain. -/
def isShift : BinaryOp → Bool
  | .shiftLeft | .shiftRight => true
  | _ => false

theorem agrees_swift : Agrees .swift .swift isShift where
  hasOperator op := by cases op <;> rfl
  lt_iff op op' h h' := by revert h h'; cases op <;> cases op' <;> decide
  ops_iff op h := by revert h; cases op <;> decide
  ops_level op op' h h' := by revert h h'; cases op <;> cases op' <;> decide
  ops_hasOperator op h := by revert h; cases op <;> decide

/-- If they did, the table would say all there is to say. -/
theorem agrees_swift_chaining : Agrees .swift Grammar.swift.chaining fun _ => false where
  hasOperator := agrees_swift.hasOperator
  lt_iff := agrees_swift.lt_iff
  ops_iff op _ := by cases op <;> decide
  ops_level op op' h := nomatch h
  ops_hasOperator op h := nomatch h

end Target

namespace Tree

variable {t : Target} {g : Grammar} {ops : BinaryOp → Bool} {ts us : List Sign}
  {a b : OperandTree} {op : BinaryOp} {n : Nat}

/-! ## The signs belong to the tree -/

theorem shaped_enclosed (wrap : Bool) (h : Shaped ts a) : Shaped (enclosed wrap ts) a := by
  cases wrap with
  | true => exact h.paren
  | false => exact h

theorem shaped_joined (t : Target) (op : BinaryOp) (h : Shaped ts a) (h' : Shaped us b) :
    Shaped (joined t op ts us) (.binary op a b) := by
  unfold joined
  split
  · exact h.binary h'
  · exact h.call h'

mutual

theorem Expr.shaped (t : Target) (e : Expr) : Shaped (e.signs t) e.tree := by
  match e with
  | .parenthesized _ inner => exact (Expr.shaped t inner).paren
  | .binary _ left op right more =>
    exact Expr.shaped_chain t more (shaped_joined t op (shaped_enclosed _ (Expr.shaped t left))
      (shaped_enclosed _ (Expr.shaped t right)))
  | .instanceOf _ left type => exact (Expr.shaped t left).test
  | .name _ | .literal .. | .boolean .. | .null _ | .this .. | .unary .. | .step .. | .assign ..
  | .conditional .. | .call .. | .superCall .. | .field .. | .superField .. | .index ..
  | .create .. | .cast .. | .other .. => exact .leaf _

theorem Expr.shaped_chain (t : Target) (es : List Expr) {op : BinaryOp} {grouped : Bool}
    {ts : List Sign} {a : OperandTree} (h : Shaped ts a) :
    Shaped (Expr.chainSigns t op grouped ts es) (Expr.chainTree op a es) := by
  match es with
  | [] => exact h
  | e :: es =>
    exact Expr.shaped_chain t es
      (shaped_joined t op (shaped_enclosed _ h) (shaped_enclosed _ (Expr.shaped t e)))

end

/-! ## When the signs are read as the tree -/

/-- The signs of the expression are read as its tree where it binds strongly enough, provided that
all infix expressions in it have the property. -/
def Expr.ReadsIf (t : Target) (g : Grammar) (P : Expr → Prop) (e : Expr) : Prop :=
  ∀ n, Grouped g n (e.signs t) e.tree ↔ e.Binds g n ∧ e.Each P

theorem grouped_enclosed_iff (wrap : Bool) (h : Shaped ts a) :
    Grouped g n (enclosed wrap ts) a ↔ Grouped g (if wrap then 0 else n) ts a := by
  cases wrap with
  | true => exact grouped_paren_iff g h.closed
  | false => exact Iff.rfl

theorem grouped_leaf_iff {e : Expr} :
    Grouped g n [.operand e] (.leaf e) ↔ (isLoose e = true → n = 0) := by
  refine ⟨fun h => ?_, .leaf⟩
  generalize hts : [Sign.operand e] = us at h
  cases h with
  | leaf he => exact he
  | paren => cases hts

theorem binds_zero (e : Expr) : e.Binds g 0 := by
  cases e <;> simp [Expr.Binds]

/-- Where all operators chain there is nothing to keep apart. -/
theorem Expr.apart_none (e : Expr) : e.Apart fun _ => false := by
  cases e <;> simp [Expr.Apart]

theorem Expr.Binds.alone {e : Expr} (h : e.Binds g n) : e.BindsAlone g n := by
  cases e with
  | binary => trivial
  | _ => exact h

theorem Expr.BindsAlone.mono {e : Expr} {m : Nat} (h : e.BindsAlone g n) (hm : m ≤ n) :
    e.BindsAlone g m := by
  cases e with
  | binary => trivial
  | instanceOf => exact Nat.le_trans hm h
  | _ => exact fun he => Nat.le_zero.1 (h he ▸ hm)

/-- Operands that fit still do where more operators chain. -/
theorem Expr.OperandsFit.chaining {e : Expr} (h : e.OperandsFit g) : e.OperandsFit g.chaining := by
  cases e with
  | binary extent left op right more =>
    intro hop
    obtain ⟨hleft, hright⟩ := h hop
    exact ⟨hleft.mono (g.strength_le_left op), hright⟩
  | _ => exact h

/-- Calls are not chained. -/
theorem nonAssociative_eq_false (h : t.binaryToken? op = none) : t.nonAssociative op = false := by
  cases binaryToken?_eq_none h
  cases t <;> rfl

/-- The arguments of a call are not put in parentheses. -/
theorem wraps_eq_false (h : t.binaryToken? op = none) (e : Expr) (isLeft : Bool) :
    e.wraps t op isLeft = false := by
  cases e <;> simp [Expr.wraps, needsParentheses, h]

/-- What is put in parentheses may bind as it likes. -/
theorem bound_le_iff {wraps : Bool} {bound k : Nat} :
    (if wraps then 0 else bound) ≤ k ↔ wraps = true ∨ bound ≤ k := by
  cases wraps <;> simp

section

variable (h : Agrees t g ops)
include h

theorem joined_operator (hop : g.hasOperator op = true) :
    joined t op ts us = ts ++ .operator op :: us := by
  unfold joined
  rw [← h.hasOperator, if_pos hop]

theorem joined_call (hop : g.hasOperator op = false) :
    joined t op ts us = .function :: .openParen :: ts ++ .comma :: us ++ [.closeParen] := by
  unfold joined
  rw [← h.hasOperator, hop, if_neg Bool.false_ne_true]

/-- Where the language has no operator, the target has no token. -/
theorem binaryToken?_of_hasOperator (hop : g.hasOperator op = false) : t.binaryToken? op = none := by
  rwa [h.hasOperator, Option.isSome_eq_false_iff, Option.isNone_iff_eq_none] at hop

theorem ops_eq_false (hop : g.hasOperator op = false) : ops op = false :=
  Bool.eq_false_iff.2 fun hb => Bool.eq_false_iff.1 hop (h.ops_hasOperator op hb)

/-- Operators of one strength are so in the table as well. -/
theorem precedence_eq_iff {op' : BinaryOp} (hop : g.hasOperator op = true)
    (hop' : g.hasOperator op' = true) :
    t.precedence op' = t.precedence op ↔ g.strength op' = g.strength op := by
  have h₁ := h.lt_iff op op' hop hop'
  have h₂ := h.lt_iff op' op hop' hop
  omega

/-- An infix expression is put in parentheses if it binds less strongly, or as strongly on the right
or where the table says that the operator does not chain. -/
theorem wraps_iff (hop : g.hasOperator op = true) {extent : Extent} {left right : Expr}
    {op' : BinaryOp} {more : List Expr} {isLeft : Bool} (hop' : g.hasOperator op' = true) :
    (Expr.binary extent left op' right more).wraps t op isLeft = true ↔
      g.strength op' < g.strength op ∨
        g.strength op' = g.strength op ∧ (isLeft = false ∨ t.nonAssociative op = true) := by
  have htoken : (t.binaryToken? op).isNone = false := by
    rw [Option.isNone_eq_false_iff, ← h.hasOperator]
    exact hop
  have hlt := h.lt_iff op' op hop' hop
  have heq := precedence_eq_iff h hop hop'
  simp only [Expr.wraps, needsParentheses, htoken, Bool.false_eq_true, if_false]
  split
  · next hlevel =>
    have hstrength := heq.1 (beq_iff_eq.1 hlevel)
    simp [hstrength]
  · next hlevel =>
    have hstrength : ¬ g.strength op' = g.strength op := fun hs => hlevel (beq_iff_eq.2 (heq.2 hs))
    simp [hlt, hstrength]

/-- An infix expression to the right of an operator is put in parentheses unless it binds more
strongly. -/
theorem grouped_right_iff (hop : g.hasOperator op = true) {e : Expr} {P : Expr → Prop}
    (he : e.ReadsIf t g P) :
    Grouped g (g.strength op + 1) (enclosed (e.wraps t op false) (e.signs t)) e.tree ↔
      e.BindsAlone g (g.strength op + 1) ∧ e.Each P := by
  rw [grouped_enclosed_iff _ (e.shaped t), he]
  cases e with
  | binary extent left op' right more =>
    refine and_congr_left fun _ => iff_of_true (fun hop' => ?_) trivial
    rw [bound_le_iff, wraps_iff h hop hop']
    simp only [true_or, and_true]
    omega
  | _ => exact Iff.rfl

/-- An infix expression to the left of an operator is put in parentheses unless it binds more
strongly, or as strongly and the table says that the operator chains. -/
theorem grouped_left_iff (hop : g.hasOperator op = true) {e : Expr} {P : Expr → Prop}
    (he : e.ReadsIf t g P) :
    Grouped g (g.left op) (enclosed (e.wraps t op true) (e.signs t)) e.tree ↔
      (ops op = true → e.isOneOf ops = false) ∧ e.BindsAlone g (g.left op) ∧ e.Each P := by
  rw [grouped_enclosed_iff _ (e.shaped t), he, ← and_assoc]
  refine and_congr_left fun _ => ?_
  cases e with
  | binary extent left op' right more =>
    refine Iff.trans ?_ (and_iff_left trivial).symm
    cases hop' : g.hasOperator op' with
    | true =>
      have hbound : (if (Expr.binary extent left op' right more).wraps t op true then 0
          else g.left op) ≤ g.strength op' ↔ (ops op = true → ops op' = false) := by
        have hlevel (hb : ops op = true) := h.ops_level op op' hb hop'
        rw [bound_le_iff, wraps_iff h hop hop', ← Bool.not_eq_true (ops op'), imp_congr_right fun hb =>
          not_congr (hlevel hb), h.ops_iff op hop]
        unfold Grammar.left
        cases g.chains op <;> cases t.nonAssociative op <;> simp <;> omega
      exact Iff.trans (forall_prop_of_true hop') hbound
    | false =>
      exact iff_of_true (fun hcontra => (Bool.eq_false_iff.1 hop' hcontra).elim) fun _ =>
        ops_eq_false h hop'
  | _ => simp [Expr.isOneOf, Expr.BindsAlone, Expr.wraps]

/-! ### Chains -/

/-- A link of a chain as the left operand of the next. -/
theorem grouped_link_iff (hop : g.hasOperator op = true) (grouped : Bool) (hts : Shaped ts a)
    (hus : Shaped us b) :
    Grouped g (g.left op) (enclosed grouped (joined t op ts us)) (.binary op a b) ↔
      (grouped = true ∨ g.chains op = true) ∧ Grouped g (g.left op) ts a ∧
        Grouped g (g.strength op + 1) us b := by
  have hbound : (if grouped then 0 else g.left op) ≤ g.strength op ↔
      grouped = true ∨ g.chains op = true := by
    cases grouped <;> cases hchains : g.chains op <;> simp [Grammar.left, hchains]
  rw [grouped_enclosed_iff _ (shaped_joined t op hts hus), joined_operator h hop,
    grouped_binary_iff g hop hts, hbound]

/-- A chain is read as its tree if all operands fit, and if the links after the first two operands
are grouped or the operator chains. -/
theorem grouped_chain_iff (hop : g.hasOperator op = true) {P : Expr → Prop} (grouped : Bool)
    {es : List Expr}
    (hes : ∀ e ∈ es, e.ReadsIf t g P) (hts : Shaped ts a) (hne : es ≠ []) :
    Grouped g n (Expr.chainSigns t op grouped ts es) (Expr.chainTree op a es) ↔
      n ≤ g.strength op ∧ Grouped g (g.left op) (enclosed grouped ts) a ∧
        (∀ e ∈ es, e.BindsAlone g (g.strength op + 1) ∧ e.Each P) ∧
        (1 < es.length → grouped = true ∨ g.chains op = true) := by
  induction es generalizing ts a with
  | nil => exact absurd rfl hne
  | cons e es ih =>
    obtain ⟨he, hes⟩ := List.forall_mem_cons.1 hes
    have hright := grouped_right_iff h hop he
    have henclosed := shaped_enclosed grouped hts
    rw [Expr.chainSigns, Expr.chainTree]
    cases es with
    | nil =>
      rw [Expr.chainSigns, Expr.chainTree, joined_operator h hop,
        grouped_binary_iff g hop henclosed, hright]
      simp
    | cons e' es =>
      have hoperand := shaped_enclosed (e.wraps t op false) (e.shaped t)
      rw [ih hes (shaped_joined t op henclosed hoperand) (List.cons_ne_nil e' es),
        grouped_link_iff h hop grouped henclosed hoperand, hright,
        List.forall_mem_cons (a := e)]
      have hlong : 1 < (e :: e' :: es).length := by simp
      constructor
      · rintro ⟨hn, ⟨hchains, hleft, he⟩, hes, -⟩
        exact ⟨hn, hleft, ⟨he, hes⟩, fun _ => hchains⟩
      · rintro ⟨hn, hleft, ⟨he, hes⟩, hchains⟩
        exact ⟨hn, ⟨hchains hlong, hleft, he⟩, hes, fun _ => hchains hlong⟩

/-- Calls ask nothing of their arguments. -/
theorem grouped_calls_iff (hop : g.hasOperator op = false) {P : Expr → Prop} {es : List Expr}
    (hes : ∀ e ∈ es, e.ReadsIf t g P) (hts : Shaped ts a) (hus : Shaped us b) :
    Grouped g n (Expr.chainSigns t op false (joined t op ts us) es)
        (Expr.chainTree op (.binary op a b) es) ↔
      Grouped g 0 ts a ∧ Grouped g 0 us b ∧ ∀ e ∈ es, e.Each P := by
  have htoken := binaryToken?_of_hasOperator h hop
  obtain rfl := binaryToken?_eq_none htoken
  induction es generalizing ts us a b n with
  | nil =>
    rw [Expr.chainSigns, Expr.chainTree, joined_call h hop, grouped_call_iff g hop hts]
    simp
  | cons e es ih =>
    obtain ⟨he, hes⟩ := List.forall_mem_cons.1 hes
    have hwraps := wraps_eq_false htoken e false
    have hlinks := shaped_joined t .shiftRightUnsigned hts hus
    have hrest := ih (n := n) hes hlinks (e.shaped t)
    have hoperand : Grouped g 0 (e.signs t) e.tree ↔ e.Each P :=
      (he 0).trans (and_iff_right (binds_zero e))
    rw [Expr.chainSigns, Expr.chainTree, hwraps, enclosed_false, enclosed_false]
    refine Iff.trans hrest ?_
    rw [joined_call h hop, grouped_call_iff g hop hts, hoperand, List.forall_mem_cons, and_assoc]

/-! ### Expressions -/

section

variable {P : Expr → Prop} {extent : Extent} {left right : Expr} {more : List Expr}

theorem Expr.grouped_operator_iff (hop : g.hasOperator op = true)
    (hleft : left.ReadsIf t g P) (hright : right.ReadsIf t g P)
    (hmore : ∀ e ∈ more, e.ReadsIf t g P) :
    Grouped g n ((Expr.binary extent left op right more).signs t)
        (Expr.binary extent left op right more).tree ↔
      n ≤ g.strength op ∧ ((Expr.binary extent left op right more).Apart ops ∧
        (Expr.binary extent left op right more).OperandsFit g) ∧
        left.Each P ∧ right.Each P ∧ ∀ e ∈ more, e.Each P := by
  have hl := shaped_enclosed (left.wraps t op true) (left.shaped t)
  have hr := shaped_enclosed (right.wraps t op false) (right.shaped t)
  have hl' := grouped_left_iff h hop hleft
  have hr' := grouped_right_iff h hop hright
  simp only [Expr.signs, Expr.tree, Expr.Apart, Expr.OperandsFit, hop, true_imp_iff,
    List.forall_mem_cons]
  cases more with
  | nil =>
    rw [Expr.chainSigns, Expr.chainTree, joined_operator h hop, grouped_binary_iff g hop hl, hl',
      hr']
    constructor
    · rintro ⟨hn, ⟨hops, hbinds, hleft⟩, hbinds', hright⟩
      exact ⟨hn, ⟨fun hb => ⟨rfl, hops hb⟩, hbinds, hbinds', List.forall_mem_nil _⟩, hleft, hright,
        List.forall_mem_nil _⟩
    · rintro ⟨hn, ⟨hops, hbinds, hbinds', -⟩, hleft, hright, -⟩
      exact ⟨hn, ⟨fun hb => (hops hb).2, hbinds, hleft⟩, hbinds', hright⟩
  | cons e es =>
    have hgrouped : (t.nonAssociative op && !(e :: es).isEmpty) = t.nonAssociative op :=
      Bool.and_true _
    have hapart : (t.nonAssociative op = true ∨ g.chains op = true) ↔ ops op = false := by
      rw [← Bool.not_eq_true, h.ops_iff op hop]
      cases t.nonAssociative op <;> cases g.chains op <;> simp
    rw [hgrouped, grouped_chain_iff h hop _ hmore (shaped_joined t op hl hr) (List.cons_ne_nil e es),
      grouped_link_iff h hop _ hl hr, hl', hr', hapart]
    constructor
    · rintro ⟨hn, ⟨hnot, ⟨-, hbinds, hleft⟩, hbinds', hright⟩, hmore, -⟩
      have hops (hb : ops op = true) : False := Bool.eq_false_iff.1 hnot hb
      exact ⟨hn, ⟨fun hb => (hops hb).elim, hbinds, hbinds', fun e he => (hmore e he).1⟩, hleft,
        hright, fun e he => (hmore e he).2⟩
    · rintro ⟨hn, ⟨hops, hbinds, hbinds', hfit⟩, hleft, hright, hmore⟩
      have hnot : ops op = false := Bool.eq_false_iff.2 fun hb => List.cons_ne_nil e es (hops hb).1
      exact ⟨hn, ⟨hnot, ⟨fun hb => (hops hb).2, hbinds, hleft⟩, hbinds', hright⟩,
        fun e he => ⟨hfit e he, hmore e he⟩, fun _ => hnot⟩

theorem Expr.grouped_function_iff (hop : g.hasOperator op = false)
    (hleft : left.ReadsIf t g P) (hright : right.ReadsIf t g P)
    (hmore : ∀ e ∈ more, e.ReadsIf t g P) :
    Grouped g n ((Expr.binary extent left op right more).signs t)
        (Expr.binary extent left op right more).tree ↔
      left.Each P ∧ right.Each P ∧ ∀ e ∈ more, e.Each P := by
  have hgrouped := nonAssociative_eq_false (binaryToken?_of_hasOperator h hop)
  have hoperand {e : Expr} {isLeft : Bool} (he : e.ReadsIf t g P) :
      Grouped g 0 (enclosed (e.wraps t op isLeft) (e.signs t)) e.tree ↔ e.Each P := by
    rw [grouped_enclosed_iff _ (e.shaped t), ite_self, he, and_iff_right (binds_zero e)]
  rw [Expr.signs, Expr.tree, hgrouped, Bool.false_and, grouped_calls_iff h hop hmore
    (shaped_enclosed _ (left.shaped t)) (shaped_enclosed _ (right.shaped t)), hoperand hleft,
    hoperand hright]

end

end

mutual

/-- The signs of the output for an expression are read as its tree exactly if its operands fit and
operators that do not chain are kept apart. -/
theorem Expr.grouped_iff (h : Agrees t g ops) (e : Expr) (n : Nat) :
    Grouped g n (e.signs t) e.tree ↔
      e.Binds g n ∧ e.Each fun x => x.Apart ops ∧ x.OperandsFit g := by
  match e with
  | .parenthesized _ inner =>
    rw [Expr.signs, Expr.tree, grouped_paren_iff g (inner.shaped t).closed,
      Expr.grouped_iff h inner 0, Expr.each_parenthesized]
    exact ⟨fun hi => ⟨nofun, ⟨trivial, trivial⟩, hi.2⟩, fun hp => ⟨binds_zero inner, hp.2.2⟩⟩
  | .binary extent left op right more =>
    have hleft := fun n => Expr.grouped_iff h left n
    have hright := fun n => Expr.grouped_iff h right n
    have hmore := Expr.all_grouped_iff h more
    rw [Expr.each_binary]
    cases hop : g.hasOperator op with
    | true =>
      rw [Expr.grouped_operator_iff h hop hleft hright hmore]
      simp only [Expr.Binds, hop, true_imp_iff]
    | false =>
      have hnot := ops_eq_false h hop
      rw [Expr.grouped_function_iff h hop hleft hright hmore]
      simp [Expr.Binds, Expr.Apart, Expr.OperandsFit, hop, hnot]
  | .instanceOf _ left type =>
    rw [Expr.signs, Expr.tree, grouped_test_iff g (left.shaped t).closed, Expr.grouped_iff h left,
      Expr.each_instanceOf]
    simp [Expr.Binds, Expr.Apart, Expr.OperandsFit]
  | .name _ | .literal .. | .boolean .. | .null _ | .this .. | .unary .. | .step .. | .assign ..
  | .conditional .. | .call .. | .superCall .. | .field .. | .superField .. | .index ..
  | .create .. | .cast .. | .other .. =>
    refine grouped_leaf_iff.trans (and_iff_left ?_).symm
    exact List.forall_mem_singleton.2 ⟨trivial, trivial⟩

theorem Expr.all_grouped_iff (h : Agrees t g ops) (es : List Expr) :
    ∀ e ∈ es, ∀ n, Grouped g n (e.signs t) e.tree ↔
      e.Binds g n ∧ e.Each fun x => x.Apart ops ∧ x.OperandsFit g := by
  match es with
  | [] => exact List.forall_mem_nil _
  | e :: es =>
    exact List.forall_mem_cons.2 ⟨fun n => Expr.grouped_iff h e n, Expr.all_grouped_iff h es⟩

end

/-- If the operands fit, the signs have no other reading, whether they have this one or not. -/
theorem Expr.eq_tree_of_grouped (h : Agrees t g.chaining fun _ => false) {e : Expr}
    (he : e.Each (·.OperandsFit g.chaining)) (hn : Grouped g n (e.signs t) a) : a = e.tree := by
  have hapart : e.Each fun x => x.Apart (fun _ => false) ∧ x.OperandsFit g.chaining := by
    intro x hx
    exact ⟨Expr.apart_none x, he x hx⟩
  exact hn.chaining.unique ((e.grouped_iff h 0).2 ⟨binds_zero e, hapart⟩)

end Tree

end Lockstep
