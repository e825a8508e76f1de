import Lockstep.Proofs.Spelling
import Lockstep.Proofs.TextTokens

/-!
# The grouping of infix expressions

The output for an infix expression is read as the expression, by the grammar that the tables of the
target describe: parentheses are put in where they are needed, the links of chains are grouped where
the target does not chain, and calls stand for shifts (`Expr.render_readsAs`).

- `Expr.IsInfix`: operators between names and literals.
- `Expr.grouping`: how such an expression is grouped in the source.
- `SpellsTree`: what the output of a script is read as, and how strongly it binds.
-/

namespace Lockstep

open Render Target Text Config

/-- The text is read as the tree. -/
def Target.ReadsAs (t : Target) (text : List Char) (g : Grouping) : Prop :=
  ∃ ts, Reads t ts text [] ∧ Groups t 0 ts g

namespace Tree

/-! ## Infix expressions -/

/-- The words of a name, with the signs between them. -/
def Name.parts (t : Target) : Name → List (List Char)
  | .simple n => [(t.escaped n.identifier).toList]
  | .qualified _ qualifier n binding =>
    qualifier.parts t ++ [(nameAccess t binding).toList, (t.escaped n.identifier).toList]

/-- The words of the name are identifiers. -/
def Name.IsProper : Name → Prop
  | .simple n => isIdentifier n.identifier.toList = true
  | .qualified _ qualifier n _ => qualifier.IsProper ∧ isIdentifier n.identifier.toList = true

/-- The token is a literal of that kind. -/
def LiteralKind.IsProper : LiteralKind → (token : List Char) → Prop
  | .number, token => IsNumber token
  | .string, token => IsQuoted '"' token
  | .character, token => IsQuoted '\'' token

/-- The word for a value. -/
def booleanWord (value : Bool) : String := if value then "true" else "false"

mutual

/-- Names and literals with operators between them, and parentheses. -/
def Expr.IsInfix : Expr → Prop
  | .name n => n.IsProper
  | .literal kind _ token => kind.IsProper token.toList
  | .boolean .. | .null _ => True
  | .parenthesized _ inner => inner.IsInfix
  | .binary _ left _ right more => left.IsInfix ∧ right.IsInfix ∧ Expr.AllInfix more
  | _ => False

def Expr.AllInfix : List Expr → Prop
  | [] => True
  | e :: es => e.IsInfix ∧ Expr.AllInfix es

end

mutual

/-- The tree of an infix expression: chains are grouped from the left, and parentheses are left
out. -/
def Expr.grouping (t : Target) : Expr → Grouping
  | .name n => .leaf (n.parts t)
  | .literal kind _ token => .leaf [((kind.render? t token).getD "").toList]
  | .boolean _ value => .leaf [(booleanWord value).toList]
  | .null _ => .leaf [t.profile.nullWord.toList]
  | .parenthesized _ inner => inner.grouping t
  | .binary _ left op right more =>
    Expr.chainGrouping t op (.binary op (left.grouping t) (right.grouping t)) more
  | _ => .leaf []

/-- The tree of a chain; `g` is that of the operands before. -/
def Expr.chainGrouping (t : Target) (op : BinaryOp) (g : Grouping) : List Expr → Grouping
  | [] => g
  | e :: es => Expr.chainGrouping t op (.binary op g (e.grouping t)) es

end

/-- How strongly the output for an expression binds. -/
def Expr.strength (t : Target) : Expr → Nat
  | .binary _ _ op .. => t.precedence op
  | _ => callPrecedence

/-! ## Trees that are spelt -/

/-- The output of the script is read as the tree, and its operators outside of parentheses bind as
strongly as `n` says. -/
def SpellsTree (t : Target) (xs : Script) (n : Nat) (g : Grouping) : Prop :=
  ∃ ts, Spells t .beforeOperand xs ts .afterOperand ∧ ∀ m ≤ n, Groups t m ts g

variable {t : Target} {xs ys : Script} {n m k : Nat} {g g' : Grouping} {op : BinaryOp}

namespace SpellsTree

theorem node {kind : Kind} {extent : Extent} (h : SpellsTree t xs n g) :
    SpellsTree t (Script.node t kind extent xs) n g := by
  obtain ⟨ts, hspells, hgroups⟩ := h
  exact ⟨ts, hspells.node, hgroups⟩

theorem leaf {parts : List (List Char)} (hne : parts ≠ [])
    (h : Spells t .beforeOperand xs (parts.map .part) .afterOperand) :
    SpellsTree t xs n (.leaf parts) := ⟨_, h, fun _ _ => .leaf hne⟩

theorem part {token text : String} (hne : token.toList ≠ []) (h : IsPart t text.toList) :
    SpellsTree t [.swap token text] n (.leaf [text.toList]) :=
  leaf (List.cons_ne_nil _ _) (.part hne h)

/-- Parentheses of the source. -/
theorem kept (h : SpellsTree t xs n g) :
    SpellsTree t ([Script.keep "(", .copyTrivia] ++ xs ++ [.copyTrivia, Script.keep ")"]) m g := by
  obtain ⟨ts, hspells, hgroups⟩ := h
  exact ⟨_, (Spells.keepOpen.append hspells).append .keepClose,
    fun _ _ => .paren (hgroups 0 (Nat.zero_le n))⟩

/-- Parentheses that are put in. -/
theorem enclosed (h : SpellsTree t xs n g) :
    SpellsTree t ([.emit "("] ++ xs ++ [.emit ")"]) m g := by
  obtain ⟨ts, hspells, hgroups⟩ := h
  exact ⟨_, (Spells.emitOpen.append hspells).append .emitClose,
    fun _ _ => .paren (hgroups 0 (Nat.zero_le n))⟩

/-- Two operands, if they bind strongly enough. -/
theorem binary (hop : (t.binaryToken? op).isSome) (h : SpellsTree t xs (t.leftStrength op) g)
    (h' : SpellsTree t ys (t.precedence op + 1) g') :
    SpellsTree t (xs ++ [Script.operator t op.token op.token false] ++ ys) (t.precedence op)
      (.binary op g g') := by
  obtain ⟨ts, hspells, hgroups⟩ := h
  obtain ⟨us, hspells', hgroups'⟩ := h'
  refine ⟨ts ++ [.operator op] ++ us, (hspells.append (.operator hop)).append hspells', ?_⟩
  intro m hm
  rw [List.append_assoc]
  exact .binary hop hm (hgroups _ (Nat.le_refl _)) (hgroups' _ (Nat.le_refl _))

/-- A call of the function that stands for a shift. -/
theorem call {token : String} (hnone : t.binaryToken? .shiftRightUnsigned = none)
    (hne : token.toList ≠ []) (h : SpellsTree t xs n g) (h' : SpellsTree t ys m g') :
    SpellsTree t ([.emit unsignedShiftFunction, .emit "("] ++ xs ++
      [.skipBlanks, .copyTrivia, .swap token ",", .copyTrivia] ++ ys ++ [.emit ")"]) k
      (.binary .shiftRightUnsigned g g') := by
  obtain ⟨ts, hspells, hgroups⟩ := h
  obtain ⟨us, hspells', hgroups'⟩ := h'
  refine ⟨_, (((Spells.emitFunction.append hspells).append (.comma hne)).append hspells').append
    .emitClose, fun l _ => ?_⟩
  have hcall := Groups.call (n := l) hnone (hgroups 0 (Nat.zero_le n)) (hgroups' 0 (Nat.zero_le m))
  simpa only [List.append_assoc, List.cons_append, List.nil_append] using hcall

end SpellsTree

/-! ## Chains -/

theorem binaryToken?_eq {token : String} (h : t.binaryToken? op = some token) :
    token = op.token := by
  cases t <;> cases op <;> cases h <;> rfl

/-- A call binds more strongly than every operator. -/
theorem precedence_lt (hop : (t.binaryToken? op).isSome) : t.precedence op < callPrecedence := by
  cases t <;> cases op <;> first | decide | cases hop

theorem binaryToken?_eq_none (h : t.binaryToken? op = none) : op = .shiftRightUnsigned := by
  cases t <;> cases op <;> first | rfl | cases h

/-- What an operand that is put in parentheses if need be has to bind like. -/
theorem strength_of_wraps {e : Expr} {isLeft : Bool} (hop : (t.binaryToken? op).isSome)
    (h : e.wraps t op isLeft = false) :
    (if isLeft then t.leftStrength op else t.precedence op + 1) ≤ e.strength t := by
  have hleft : (if isLeft then t.leftStrength op else t.precedence op + 1) ≤
      t.precedence op + 1 := by
    unfold leftStrength
    split
    · split <;> omega
    · exact Nat.le_refl _
  cases e with
  | binary _ _ child =>
    simp only [Expr.wraps, needsParentheses, Option.isNone_eq_false_iff.2 hop, Bool.false_eq_true,
      if_false] at h
    split at h
    · next heq =>
      obtain ⟨hside, hassoc⟩ := Bool.or_eq_false_iff.1 h
      rw [Bool.not_eq_false'] at hside
      refine Nat.le_of_eq ?_
      rw [if_pos hside, leftStrength, hassoc, if_neg Bool.false_ne_true, Expr.strength,
        beq_iff_eq.1 heq]
    · next hne =>
      refine Nat.le_trans hleft ?_
      simp only [beq_iff_eq, decide_eq_false_iff_not] at hne h
      rw [Expr.strength]
      omega
  | _ => exact Nat.le_trans hleft (precedence_lt hop)

namespace SpellsTree

variable {s : Settings}

theorem mono (h : SpellsTree t xs n g) (hm : m ≤ n) : SpellsTree t xs m g := by
  obtain ⟨ts, hspells, hgroups⟩ := h
  exact ⟨ts, hspells, fun k hk => hgroups k (Nat.le_trans hk hm)⟩

theorem operand {e : Expr} (hop : (t.binaryToken? op).isSome)
    (h : SpellsTree t xs (e.strength t) g) (isLeft : Bool) :
    SpellsTree t (wrapped (e.wraps t op isLeft) xs)
      (if isLeft then t.leftStrength op else t.precedence op + 1) g := by
  cases hwraps : e.wraps t op isLeft with
  | true => exact h.enclosed
  | false => exact h.mono (strength_of_wraps hop hwraps)

/-- Equal scripts can be put behind each other in any order. -/
theorem append_flatMap {α : Type} (as : List α) (xs : Script) :
    xs ++ (as.flatMap fun _ => xs) = (as.flatMap fun _ => xs) ++ xs := by
  induction as with
  | nil => simp
  | cons a as ih => rw [List.flatMap_cons, List.append_assoc, ← ih]

/-- A chain of an operator: if its links are grouped, each is put in parentheses. -/
theorem chain {more : List Expr} {grouped : Bool} (hop : (s.target.binaryToken? op).isSome)
    (hgrouped : grouped = false → more ≠ [] → s.target.nonAssociative op = false)
    (h : SpellsTree s.target xs (s.target.precedence op) g)
    (hmore : ∀ e ∈ more,
      SpellsTree s.target (e.script s) (e.strength s.target) (e.grouping s.target)) :
    SpellsTree s.target
      ((if grouped then (Expr.operandScripts s op more).map fun _ => .emit "(" else []) ++ xs ++
        chainScript s.target op.token op.token grouped (Expr.operandScripts s op more))
      (s.target.precedence op) (Expr.chainGrouping s.target op g more) := by
  induction more generalizing xs g with
  | nil => simpa [Expr.operandScripts, chainScript, Expr.chainGrouping] using h
  | cons e es ih =>
    obtain ⟨he, hes⟩ := List.forall_mem_cons.1 hmore
    have hlink : SpellsTree s.target (wrapped grouped xs) (s.target.leftStrength op) g := by
      cases hb : grouped with
      | true => exact h.enclosed
      | false =>
        have hassoc := hgrouped hb (List.cons_ne_nil e es)
        rw [leftStrength, hassoc, if_neg Bool.false_ne_true]
        exact h
    have hrest := ih (fun hb _ => hgrouped hb (List.cons_ne_nil e es))
      (hlink.binary hop (he.operand hop false)) hes
    cases grouped with
    | true =>
      have hopen := append_flatMap (Expr.operandScripts s op es) [Step.emit "("]
      simp only [List.map_eq_flatMap] at hrest ⊢
      simpa only [if_true, wrapped, Expr.operandScripts, chainScript, Expr.chainGrouping,
        List.flatMap_cons, hopen, List.append_assoc] using hrest
    | false =>
      simpa only [Bool.false_eq_true, if_false, wrapped, Expr.operandScripts, chainScript,
        Expr.chainGrouping, List.nil_append, List.append_assoc] using hrest

theorem nestedCalls_cons (token : String) (left x : Script) (xs : List Script) :
    nestedCalls token left (x :: xs) =
      nestedCalls token ([.emit unsignedShiftFunction, .emit "("] ++ left ++
        [.skipBlanks, .copyTrivia, .swap token ",", .copyTrivia] ++ x ++ [.emit ")"]) xs := by
  have hopen := append_flatMap xs [.emit unsignedShiftFunction, .emit "("]
  simp only [nestedCalls, callOperands, List.flatMap_cons, hopen, List.append_assoc]

/-- Nested calls. -/
theorem calls {more : List Expr} {token : String} (hne : token.toList ≠ [])
    (hnone : t.binaryToken? .shiftRightUnsigned = none) (h : SpellsTree t xs callPrecedence g)
    (hmore : ∀ e ∈ more, SpellsTree t (e.script s) (e.strength t) (e.grouping t)) :
    SpellsTree t (nestedCalls token xs (Expr.scripts s more)) callPrecedence
      (Expr.chainGrouping t .shiftRightUnsigned g more) := by
  induction more generalizing xs g with
  | nil => simpa [Expr.scripts, nestedCalls, callOperands, Expr.chainGrouping] using h
  | cons e es ih =>
    obtain ⟨he, hes⟩ := List.forall_mem_cons.1 hmore
    simp only [Expr.scripts, nestedCalls_cons, Expr.chainGrouping]
    exact ih (h.call hnone hne he) hes

end SpellsTree

/-! ## Expressions -/

theorem Name.parts_ne_nil (t : Target) (n : Name) : n.parts t ≠ [] := by
  cases n with
  | simple n => exact List.cons_ne_nil _ _
  | qualified => exact List.append_ne_nil_of_right_ne_nil _ (List.cons_ne_nil _ _)

theorem accessSign_mem (t : Target) (isStatic : Bool) :
    (t.memberAccess isStatic).toList ∈ accessSigns := by
  cases t <;> cases isStatic <;> decide

theorem nameAccess_mem (t : Target) (binding : Option MemberBinding) :
    (nameAccess t binding).toList ∈ accessSigns := by
  cases binding with
  | none => exact accessSign_mem t true
  | some binding => exact accessSign_mem t binding.isStatic

theorem SimpleName.spells (s : Settings) (n : SimpleName)
    (h : isIdentifier n.identifier.toList = true) :
    Spells s.target .beforeWord (n.script s) [.part (s.target.escaped n.identifier).toList]
      .afterWord :=
  .node (.word (ne_nil_of_isIdentifier h) (isWord_escaped h))

theorem Name.spells (s : Settings) (n : Name) (h : n.IsProper) :
    Spells s.target .beforeWord (n.script s) ((n.parts s.target).map .part) .afterWord := by
  induction n with
  | simple n => exact n.spells s h
  | qualified extent qualifier n binding ih =>
    obtain ⟨hqualifier, hn⟩ := h
    have haccess := Spells.access (t := s.target) (nameAccess_mem s.target binding)
    have hparts := ((ih hqualifier).append haccess).append (n.spells s hn)
    rw [Name.parts, List.map_append]
    rw [List.append_assoc (List.map _ _)] at hparts
    exact .node hparts

theorem LiteralKind.isPart {kind : LiteralKind} {token text : String}
    (h : kind.IsProper token.toList) (htext : kind.render? t token = some text) :
    IsPart t text.toList ∧ token.toList ≠ [] := by
  obtain ⟨out, hout, rfl⟩ := Option.map_eq_some_iff.1 htext
  rw [String.toList_ofList]
  cases kind with
  | number => exact ⟨(isNumber_of_numberLiteral? h hout).isPart, h.ne_nil⟩
  | string =>
    refine ⟨isPart_of_stringLiteral? h hout, ?_⟩
    obtain ⟨body, heq, _⟩ := h
    rw [heq]
    exact List.cons_ne_nil _ _
  | character =>
    refine ⟨isPart_of_characterLiteral? h hout, ?_⟩
    obtain ⟨body, heq, _⟩ := h
    rw [heq]
    exact List.cons_ne_nil _ _

mutual

theorem Expr.spellsTree (s : Settings) : (e : Expr) → e.IsInfix →
    SpellsTree s.target (e.script s) (e.strength s.target) (e.grouping s.target)
  | .name n, h => by
    rw [Expr.script, Expr.grouping]
    refine .leaf (n.parts_ne_nil s.target) ?_
    exact (n.spells s h).weaken (fun h => ⟨h.1, h.2.1⟩) (·.endsWord)
  | .literal kind extent token, h => by
    rw [Expr.script, Expr.grouping]
    refine .node ?_
    unfold literalScript
    split
    · next text htext =>
      obtain ⟨hpart, hne⟩ := LiteralKind.isPart h htext
      rw [htext, Option.getD_some]
      exact .part hne hpart
    · exact .leaf (List.cons_ne_nil _ _) .refuse
  | .boolean extent value, _ => by
    rw [Expr.script, Expr.grouping]
    have hword : IsWord (booleanWord value).toList := by
      cases value <;> exact .ofIdentifier (by decide)
    have hne : (booleanWord value).toList ≠ [] := by
      cases value <;> decide
    exact .node (.part hne hword.isPart)
  | .null extent, _ => by
    rw [Expr.script, Expr.grouping]
    have hword : IsWord s.target.profile.nullWord.toList := by
      cases s.target <;> exact .ofIdentifier (by decide)
    exact .node (.part nofun hword.isPart)
  | .parenthesized extent inner, h => by
    rw [Expr.script, Expr.grouping]
    exact .node (inner.spellsTree s h).kept
  | .binary extent left op right more, h => by
    obtain ⟨hleft, hright, hmore⟩ := h
    have hl := left.spellsTree s hleft
    have hr := right.spellsTree s hright
    have hm := Expr.allSpellTrees s more hmore
    rw [Expr.script, Expr.grouping]
    refine .node ?_
    split
    · next replacement htoken =>
      have hop : (s.target.binaryToken? op).isSome := by rw [htoken]; rfl
      rw [binaryToken?_eq htoken]
      have hgrouped : (s.target.nonAssociative op && !(Expr.operandScripts s op more).isEmpty) =
          false → more ≠ [] → s.target.nonAssociative op = false := by
        intro hb hne
        cases more with
        | nil => exact absurd rfl hne
        | cons e es => simpa [Expr.operandScripts] using hb
      have hlinks := SpellsTree.binary hop (hl.operand hop true) (hr.operand hop false)
      have hchain := SpellsTree.chain hop hgrouped hlinks hm
      simp only [List.append_assoc] at hchain
      simpa only [binaryScript, List.append_assoc, Expr.strength] using hchain
    · next hnone =>
      cases binaryToken?_eq_none hnone
      have hstrength : s.target.precedence .shiftRightUnsigned = callPrecedence := by
        unfold precedence
        rw [hnone]
        rfl
      rw [SpellsTree.nestedCalls_cons, Expr.strength, hstrength]
      exact .calls nofun hnone (hl.call hnone nofun hr) hm

theorem Expr.allSpellTrees (s : Settings) : (es : List Expr) → Expr.AllInfix es →
    ∀ e ∈ es, SpellsTree s.target (e.script s) (e.strength s.target) (e.grouping s.target)
  | [], _ => nofun
  | e :: es, h => List.forall_mem_cons.2 ⟨e.spellsTree s h.1, Expr.allSpellTrees s es h.2⟩

end

/-- The output for an infix expression is read as the expression, and as no other tree. -/
theorem Expr.render_readsAs (s : Settings) {e : Expr} {ctx ctx' : Context} (he : e.IsInfix)
    (hrun : Node.render s (.expr e) ctx = .ok () ctx') :
    ∃ text, ctx'.writer.current = ctx.writer.current ++ String.ofList text ∧
      ∀ g, s.target.ReadsAs text g ↔ g = e.grouping s.target := by
  obtain ⟨ts, hspells, hgroups⟩ := e.spellsTree s he
  obtain ⟨text, hwriter, htext⟩ := hspells hrun
  obtain ⟨_, hreads⟩ := htext [] nofun
  refine ⟨_, by rw [hwriter, Output.Writer.current_added], fun g => ⟨?_, ?_⟩⟩
  · rintro ⟨us, hus, hg⟩
    cases (hreads.indented _ _).unique hus
    exact hg.unique (hgroups 0 (Nat.zero_le _))
  · rintro rfl
    exact ⟨ts, hreads.indented _ _, hgroups 0 (Nat.zero_le _)⟩

/-- A sum that is shifted: in Swift the shift would come first. -/
theorem Expr.render_readsAs_shift :
    ∃ after, Node.render (.ofTarget .swift) (.expr (.binary ⟨0, 10⟩
        (.binary ⟨0, 5⟩ (.name (.simple ⟨⟨0, 1⟩, "a"⟩)) .plus (.name (.simple ⟨⟨4, 5⟩, "b"⟩)) [])
        .shiftLeft (.name (.simple ⟨⟨9, 10⟩, "c"⟩)) [])) (.start "a + b << c" true) = .ok () after ∧
      after.writer.current = "(a + b) << c" ∧
      ∀ g, Target.swift.ReadsAs "(a + b) << c".toList g ↔
        g = .binary .shiftLeft (.binary .plus (.leaf [['a']]) (.leaf [['b']])) (.leaf [['c']]) := by
  have hout : runsTo (Node.render (.ofTarget .swift) (.expr (.binary ⟨0, 10⟩
      (.binary ⟨0, 5⟩ (.name (.simple ⟨⟨0, 1⟩, "a"⟩)) .plus (.name (.simple ⟨⟨4, 5⟩, "b"⟩)) [])
      .shiftLeft (.name (.simple ⟨⟨9, 10⟩, "c"⟩)) []))) (.start "a + b << c" true) =
      some "(a + b) << c" := by decide +kernel
  obtain ⟨after, hrun, hout⟩ := runsTo_ok hout
  have ha : isIdentifier "a".toList = true := by decide
  have hb : isIdentifier "b".toList = true := by decide
  have hc : isIdentifier "c".toList = true := by decide
  obtain ⟨text, hcurrent, hreads⟩ := Expr.render_readsAs (.ofTarget .swift)
    (show Expr.IsInfix (.binary _ (.binary _ (.name (.simple ⟨_, "a"⟩)) _
      (.name (.simple ⟨_, "b"⟩)) []) _ (.name (.simple ⟨_, "c"⟩)) []) from
        ⟨⟨ha, hb, trivial⟩, hc, trivial⟩) hrun
  have htext : text = "(a + b) << c".toList := by
    rw [← hout, hcurrent]
    simp [Output.Writer.current, Context.start, Output.Writer.new, Output.Sink.new]
  rw [htext] at hreads
  exact ⟨after, hrun, hout, hreads⟩

end Tree

end Lockstep
