import Mathlib.Data.List.Forall2
import Lockstep.Proofs.FileCourse
import Lockstep.Proofs.OperandSigns

/-!
# How the output groups operands

A script that runs through writes the signs of its expression, so what was found about signs holds of
outputs: how shifts are grouped in Swift, and what becomes of tests of types among operators.

- `SpellsSigns`: a text is made of signs.
- `WritesSigns`: the signs that a script writes.
- `Expr.writesSigns`: the script of an expression writes the signs of the expression.
- `Expr.render_shifts`: when the shifts in an output are grouped as in the source.
- `Expr.render_tests`: when the tests of types are.
-/

namespace Lockstep

open Config Output Render Source Target Text

namespace Tree

/-! ## Signs that are written -/

/-- The text is what the script writes at some place. -/
def MayWrite (xs : Script) (text : String) : Prop :=
  ∃ ctx after : Context, Step.runAll xs ctx = .ok () after ∧
    after.writer = ctx.writer.added text.toList

/-- How a sign is spelled; an operand or a type by what its script writes. -/
inductive SignSpelled (s : Settings) : Sign → String → Prop where
  | operand {e : Expr} {text : String} : MayWrite (e.script s) text →
      SignSpelled s (.operand e) text
  | type {type : TypeRef} {text : String} : MayWrite (type.script s) text →
      SignSpelled s (.type type) text
  | operator (op : BinaryOp) : SignSpelled s (.operator op) op.token
  | test {word : String} : s.target.profile.instanceOfWord = some word → SignSpelled s .test word
  | function : SignSpelled s .function unsignedShiftFunction
  | openParen : SignSpelled s .openParen "("
  | closeParen : SignSpelled s .closeParen ")"
  | comma : SignSpelled s .comma ","

/-- The text is made of the signs, with white space and comments around them. -/
def SpellsSigns (s : Settings) (ts : List Sign) (text : List Char) : Prop :=
  ∃ tokens, List.Forall₂ (SignSpelled s) ts tokens ∧ Spelled tokens text

/-- If the script runs through, it writes the signs. -/
def WritesSigns (s : Settings) (xs : Script) (ts : List Sign) : Prop :=
  ∀ ⦃ctx after : Context⦄, Step.runAll xs ctx = .ok () after →
    ∃ text, after.writer = ctx.writer.added text ∧ SpellsSigns s ts text

variable {s : Settings} {t : Target} {xs ys : Script} {ts us : List Sign} {op : BinaryOp}
  {tok : Sign}

namespace SpellsSigns

variable {text text' gap rest : List Char} {token : String}

theorem nil : SpellsSigns s [] [] := ⟨[], .nil, .nil⟩

theorem append (h : SpellsSigns s ts text) (h' : SpellsSigns s us text') :
    SpellsSigns s (ts ++ us) (text ++ text') := by
  obtain ⟨tokens, hsigns, htext⟩ := h
  obtain ⟨tokens', hsigns', htext'⟩ := h'
  exact ⟨tokens ++ tokens', List.rel_append hsigns hsigns', htext.append htext'⟩

theorem single (h : SignSpelled s tok token) : SpellsSigns s [tok] token.toList :=
  ⟨[token], .cons h .nil, .single token⟩

theorem ofGap (h : Spelled [] text) : SpellsSigns s [] text := ⟨[], .nil, h⟩

theorem trivia (h : Trivia.Runs gap rest) : SpellsSigns s [] gap := by
  have hgap : Spelled [] (gap ++ []) := .trivia h .nil
  rw [List.append_nil] at hgap
  exact .ofGap hgap

/-- A space that is put in is white space. -/
theorem pad (needed : Bool) : SpellsSigns s [] (Render.pad needed) := by
  cases needed with
  | true =>
    have hspace : Trivia.Runs " ".toList [] := .single rfl
    exact .trivia hspace
  | false => exact .nil

end SpellsSigns

namespace WritesSigns

variable {token text : String}

theorem append (h : WritesSigns s xs ts) (h' : WritesSigns s ys us) :
    WritesSigns s (xs ++ ys) (ts ++ us) := by
  intro ctx after hrun
  obtain ⟨mid, hxs, hys⟩ := runAll_append_ok.1 hrun
  obtain ⟨text, hmid, htext⟩ := h hxs
  obtain ⟨text', hafter, htext'⟩ := h' hys
  exact ⟨text ++ text', by rw [hafter, hmid, Writer.added_append], htext.append htext'⟩

theorem node {kind : Kind} {extent : Extent} (h : WritesSigns s xs ts) :
    WritesSigns s (Script.node t kind extent xs) ts :=
  fun _ _ hrun => h (runAll_node_ok hrun)

theorem refuse {refusal : Refusal} {kind : Kind} {extent : Extent} :
    WritesSigns s (Script.refuse t refusal kind extent) ts := by
  intro ctx after h
  cases runAll_singleton_ok.1 h

theorem copyTrivia : WritesSigns s [.copyTrivia] [] := by
  intro ctx after hrun
  obtain ⟨_, _, hcopy, h⟩ := bind_ok.1 (runAll_singleton_ok.1 hrun)
  cases h
  obtain ⟨_, gap, hgap, rfl⟩ := copyTriviaUntil_spelled hcopy
  exact ⟨gap, rfl, .ofGap hgap⟩

theorem skipBlanks : WritesSigns s [.skipBlanks] [] := by
  intro ctx after hrun
  obtain ⟨_, _, -, -, rfl⟩ := skipBlanks_ok (runAll_singleton_ok.1 hrun)
  exact ⟨[], rfl, .nil⟩

theorem swap (h : SignSpelled s tok text) : WritesSigns s [.swap token text] [tok] := by
  intro ctx after hrun
  obtain ⟨_, -, rfl⟩ := swap_ok (runAll_singleton_ok.1 hrun)
  exact ⟨text.toList, rfl, .single h⟩

theorem emit (h : SignSpelled s tok text) : WritesSigns s [.emit text] [tok] := by
  intro ctx after hrun
  rw [write_ok (runAll_singleton_ok.1 hrun)]
  exact ⟨text.toList, rfl, .single h⟩

/-- An operator, with the spaces that are put in around it. -/
theorem operator {spaced : Bool} (op : BinaryOp) :
    WritesSigns s [Script.operator t token op.token spaced] [.operator op] := by
  intro ctx after hrun
  obtain ⟨_, move, rfl⟩ := swapOperator_ok (runAll_singleton_ok.1 hrun)
  have hbefore := (SpellsSigns.trivia (s := s) move.runs_before).append
    (.pad (move.padsBefore (t == .swift) spaced))
  have hafter := (SpellsSigns.trivia (s := s) move.runs_after).append
    (.pad (move.padsAfter (t == .swift) spaced))
  have htext := (hbefore.append (.single (.operator op))).append hafter
  simp only [← List.append_assoc] at htext
  exact ⟨_, rfl, htext⟩

/-- Parentheses of the source. -/
theorem kept (h : WritesSigns s xs ts) :
    WritesSigns s ([Script.keep "(", .copyTrivia] ++ xs ++ [.copyTrivia, Script.keep ")"])
      (.openParen :: ts ++ [.closeParen]) := by
  have hopen : WritesSigns s [Script.keep "(", .copyTrivia] [.openParen] :=
    (swap .openParen).append copyTrivia
  have hclose : WritesSigns s [.copyTrivia, Script.keep ")"] [.closeParen] :=
    copyTrivia.append (swap .closeParen)
  exact (hopen.append h).append hclose

/-- Parentheses that are put in if need be. -/
theorem enclosed (wrap : Bool) (h : WritesSigns s xs ts) :
    WritesSigns s (wrapped wrap xs) (Tree.enclosed wrap ts) := by
  cases wrap with
  | true => exact ((emit .openParen).append h).append (emit .closeParen)
  | false => exact h

/-- A sign that is spelled by whatever the script writes. -/
theorem ofScript (h : ∀ text, MayWrite xs text → SignSpelled s tok text) :
    WritesSigns s xs [tok] := by
  intro ctx after hrun
  obtain ⟨text, hwriter⟩ := Step.runAll_adds _ hrun
  have hspelled := h (String.ofList text) ⟨ctx, after, hrun, by rw [String.toList_ofList, hwriter]⟩
  have hsigns := SpellsSigns.single hspelled
  rw [String.toList_ofList] at hsigns
  exact ⟨text, hwriter, hsigns⟩

theorem leaf (e : Expr) : WritesSigns s (e.script s) [.operand e] := ofScript fun _ => .operand

theorem type (type : TypeRef) : WritesSigns s (type.script s) [.type type] :=
  ofScript fun _ => .type

/-- Two operands. -/
theorem binary (hop : (t.binaryToken? op).isSome) (h : WritesSigns s xs ts)
    (h' : WritesSigns s ys us) :
    WritesSigns s (xs ++ [Script.operator t op.token op.token false] ++ ys)
      (joined t op ts us) := by
  have hoperator : WritesSigns s [Script.operator t op.token op.token false] [.operator op] :=
    operator op
  have hall := (h.append hoperator).append h'
  rw [joined, if_pos hop]
  rwa [List.append_assoc ts, List.singleton_append] at hall

/-- A call of the function that stands for a shift. -/
theorem call (hop : t.binaryToken? op = none) (h : WritesSigns s xs ts)
    (h' : WritesSigns s ys us) :
    WritesSigns s ([.emit unsignedShiftFunction, .emit "("] ++ xs ++
      [.skipBlanks, .copyTrivia, .swap token ",", .copyTrivia] ++ ys ++ [.emit ")"])
      (joined t op ts us) := by
  have hfunction : WritesSigns s [.emit unsignedShiftFunction, .emit "("] [.function, .openParen] :=
    (emit .function).append (emit .openParen)
  have hcomma : WritesSigns s [.skipBlanks, .copyTrivia, .swap token ",", .copyTrivia] [.comma] :=
    (skipBlanks.append copyTrivia).append ((swap .comma).append copyTrivia)
  have hall := (((hfunction.append h).append hcomma).append h').append (emit .closeParen)
  rw [joined, hop, Option.isSome_none, if_neg Bool.false_ne_true]
  simpa only [List.append_assoc, List.cons_append, List.nil_append] using hall

/-- A chain of an operator: if its links are grouped, each is put in parentheses. -/
theorem chain (hop : (s.target.binaryToken? op).isSome) (grouped : Bool) {more : List Expr}
    (h : WritesSigns s xs ts) (hmore : ∀ e ∈ more, WritesSigns s (e.script s) (e.signs s.target)) :
    WritesSigns s
      ((if grouped then (Expr.operandScripts s op more).map fun _ => .emit "(" else []) ++ xs ++
        chainScript s.target op.token op.token grouped (Expr.operandScripts s op more))
      (Expr.chainSigns s.target op grouped ts more) := by
  induction more generalizing xs ts with
  | nil => simpa [Expr.operandScripts, chainScript, Expr.chainSigns] using h
  | cons e es ih =>
    obtain ⟨he, hes⟩ := List.forall_mem_cons.1 hmore
    have hoperand := he.enclosed (e.wraps s.target op false)
    have hrest := ih ((h.enclosed grouped).binary hop hoperand) hes
    cases grouped with
    | true =>
      have hopen := SpellsTree.append_flatMap (Expr.operandScripts s op es) [Step.emit "("]
      simp only [List.map_eq_flatMap] at hrest ⊢
      simpa only [if_true, wrapped, Expr.operandScripts, chainScript, Expr.chainSigns,
        List.flatMap_cons, hopen, List.append_assoc] using hrest
    | false =>
      simpa only [Bool.false_eq_true, if_false, wrapped, Expr.operandScripts, chainScript,
        Expr.chainSigns, List.nil_append, List.append_assoc] using hrest

/-- Nested calls: their arguments are not put in parentheses. -/
theorem calls (hop : s.target.binaryToken? op = none) {more : List Expr}
    (h : WritesSigns s xs ts) (hmore : ∀ e ∈ more, WritesSigns s (e.script s) (e.signs s.target)) :
    WritesSigns s (nestedCalls token xs (Expr.scripts s more))
      (Expr.chainSigns s.target op false ts more) := by
  induction more generalizing xs ts with
  | nil => simpa [Expr.scripts, nestedCalls, callOperands, Expr.chainSigns] using h
  | cons e es ih =>
    obtain ⟨he, hes⟩ := List.forall_mem_cons.1 hmore
    simp only [Expr.scripts, SpellsTree.nestedCalls_cons, Expr.chainSigns, wraps_eq_false hop,
      enclosed_false]
    exact ih (h.call hop he) hes

end WritesSigns

mutual

/-- The script of an expression writes the signs of the expression. -/
theorem Expr.writesSigns (s : Settings) (e : Expr) :
    WritesSigns s (e.script s) (e.signs s.target) := by
  match e with
  | .parenthesized extent inner =>
    rw [Expr.script, Expr.signs]
    exact .node (Expr.writesSigns s inner).kept
  | .binary extent left op right more =>
    have hleft := Expr.writesSigns s left
    have hright := Expr.writesSigns s right
    have hmore := Expr.all_writesSigns s more
    have hempty : (Expr.operandScripts s op more).isEmpty = more.isEmpty := by
      cases more <;> rfl
    rw [Expr.script, Expr.signs]
    refine .node ?_
    split
    · next replacement htoken =>
      have hop : (s.target.binaryToken? op).isSome := by rw [htoken]; rfl
      rw [binaryToken?_eq htoken]
      have hlinks := WritesSigns.binary hop (hleft.enclosed (left.wraps s.target op true))
        (hright.enclosed (right.wraps s.target op false))
      have hchain := WritesSigns.chain hop (s.target.nonAssociative op && !more.isEmpty) hlinks hmore
      simp only [List.append_assoc] at hchain
      simpa only [binaryScript, hempty, List.append_assoc] using hchain
    · next hnone =>
      rw [SpellsTree.nestedCalls_cons, nonAssociative_eq_false hnone, Bool.false_and,
        wraps_eq_false hnone, wraps_eq_false hnone]
      exact (hleft.call hnone hright).calls hnone hmore
  | .instanceOf extent left type =>
    rw [Expr.script, Expr.signs]
    refine .node ?_
    split
    · exact .refuse
    · next word hword =>
      have htest : WritesSigns s [.copyTrivia, .swap "instanceof" word, .copyTrivia] [.test] :=
        WritesSigns.copyTrivia.append ((WritesSigns.swap (.test hword)).append .copyTrivia)
      have hall := ((Expr.writesSigns s left).append htest).append (.type type)
      rwa [List.append_assoc (left.signs s.target)] at hall
  | .name _ | .literal .. | .boolean .. | .null _ | .this .. | .unary .. | .step .. | .assign ..
  | .conditional .. | .call .. | .superCall .. | .field .. | .superField .. | .index ..
  | .create .. | .cast .. | .other .. => exact .leaf _

theorem Expr.all_writesSigns (s : Settings) (es : List Expr) :
    ∀ e ∈ es, WritesSigns s (e.script s) (e.signs s.target) := by
  match es with
  | [] => exact List.forall_mem_nil _
  | e :: es => exact List.forall_mem_cons.2 ⟨Expr.writesSigns s e, Expr.all_writesSigns s es⟩

end

/-! ## Shifts in Swift -/

section

variable {e : Expr} {a : OperandTree} {ctx ctx' : Context}

theorem Expr.grouped_swift_tree_iff (e : Expr) :
    Grouped .swift 0 (e.signs .swift) e.tree ↔
      e.Each (·.Apart isShift) ∧ e.Each (·.OperandsFit .swift) := by
  rw [e.grouped_iff agrees_swift 0, and_iff_right (binds_zero e)]
  exact forall₂_and

/-- If its operands fit, an output with a chain of shifts is not read at all. -/
theorem Expr.grouped_swift_iff (he : e.Each (·.OperandsFit .swift)) :
    Grouped .swift 0 (e.signs .swift) a ↔ e.Each (·.Apart isShift) ∧ a = e.tree := by
  constructor
  · intro ha
    have hfit : e.Each (·.OperandsFit Grammar.swift.chaining) :=
      fun x hx => Expr.OperandsFit.chaining (he x hx)
    obtain rfl := e.eq_tree_of_grouped agrees_swift_chaining hfit ha
    exact ⟨(e.grouped_swift_tree_iff.1 ha).1, rfl⟩
  · rintro ⟨hapart, rfl⟩
    exact e.grouped_swift_tree_iff.2 ⟨hapart, he⟩

/-- Swift groups an output as the source is grouped exactly if no shifts are chained there and the
operands fit. If they do, it reads no output in another way, and one with a chain of shifts not at
all. -/
theorem Expr.render_shifts (ht : s.target = .swift)
    (hrun : Node.render s (.expr e) ctx = .ok () ctx') :
    ∃ text, ctx'.writer = ctx.writer.added text ∧ SpellsSigns s (e.signs .swift) text ∧
      (Grouped .swift 0 (e.signs .swift) e.tree ↔
        e.Each (·.Apart isShift) ∧ e.Each (·.OperandsFit .swift)) ∧
      (e.Each (·.OperandsFit .swift) → ∀ a, Grouped .swift 0 (e.signs .swift) a ↔
        e.Each (·.Apart isShift) ∧ a = e.tree) := by
  obtain ⟨text, hwriter, hspells⟩ := e.writesSigns s hrun
  rw [ht] at hspells
  exact ⟨text, hwriter, hspells, e.grouped_swift_tree_iff, fun he a => Expr.grouped_swift_iff he⟩

/-- Parentheses keep two shifts apart. -/
theorem Expr.render_shifts_parenthesized :
    let name (n : String) (pos : UInt32) : Expr := .name (.simple ⟨⟨pos, pos + 1⟩, n⟩)
    let e : Expr := .binary ⟨0, 13⟩
      (.parenthesized ⟨0, 8⟩ (.binary ⟨1, 7⟩ (name "a" 1) .shiftLeft (name "b" 6) [])) .shiftRight
      (name "c" 12) []
    ∃ after, Node.render (.ofTarget .swift) (.expr e) (.start "(a << b) >> c" true) = .ok () after ∧
      after.writer.current = "(a << b) >> c" ∧
      ∀ a, Grouped .swift 0 (e.signs .swift) a ↔ a = .binary .shiftRight
        (.binary .shiftLeft (.leaf (name "a" 1)) (.leaf (name "b" 6))) (.leaf (name "c" 12)) := by
  intro name e
  obtain ⟨after, hrun, hout⟩ := runsTo_ok (by decide +kernel :
    runsTo (Node.render (.ofTarget .swift) (.expr e)) (.start "(a << b) >> c" true) =
      some "(a << b) >> c")
  obtain ⟨text, -, -, -, hread⟩ := Expr.render_shifts rfl hrun
  refine ⟨after, hrun, hout, fun a => (hread ?_ a).trans (and_iff_right ?_)⟩
  · simp [e, name, Expr.OperandsFit, Expr.BindsAlone, Expr.Binds, isLoose]
  · simp [e, name, Expr.Apart, Expr.isOneOf]

/-- A chain of shifts is rendered as it is, whether it is one node or two, and Swift does not read
it. -/
theorem Expr.render_chains_shifts :
    let name (n : String) (pos : UInt32) : Expr := .name (.simple ⟨⟨pos, pos + 1⟩, n⟩)
    let chain : Expr := .binary ⟨0, 11⟩ (name "a" 0) .shiftLeft (name "b" 5) [name "c" 10]
    let nested : Expr := .binary ⟨0, 11⟩
      (.binary ⟨0, 6⟩ (name "a" 0) .shiftLeft (name "b" 5) []) .shiftLeft (name "c" 10) []
    ∀ e ∈ [chain, nested],
      renderNode (.ofTarget .swift) "a << b << c" true (.expr e) = ⟨none, "a << b << c"⟩ ∧
        e.signs .swift = [.operand (name "a" 0), .operator .shiftLeft, .operand (name "b" 5),
          .operator .shiftLeft, .operand (name "c" 10)] ∧
        ∀ a, ¬ Grouped .swift 0 (e.signs .swift) a := by
  intro name chain nested
  have unread (e : Expr) (he : e.Each (·.OperandsFit .swift)) (hchained : ¬ e.Each (·.Apart isShift))
      (a : OperandTree) : ¬ Grouped .swift 0 (e.signs .swift) a :=
    fun ha => hchained ((Expr.grouped_swift_iff he).1 ha).1
  refine List.forall_mem_cons.2 ⟨⟨by decide +kernel, rfl, unread chain ?_ ?_⟩,
    List.forall_mem_singleton.2 ⟨by decide +kernel, rfl, unread nested ?_ ?_⟩⟩
  all_goals simp [chain, nested, name, Expr.OperandsFit, Expr.BindsAlone, Expr.Binds, isLoose,
    Expr.Apart, Expr.isOneOf, isShift]

end

/-! ## Tests of types -/

/-- Whether the expression is a test of a type. -/
def Expr.isTest : Expr → Bool
  | .instanceOf .. => true
  | _ => false

/-- The operands are such as the grammar of Java has them. -/
def Expr.IsProduced : Expr → Prop
  | .binary _ left op right more =>
    left.Binds .java op.precedence ∧ ∀ e ∈ right :: more, e.Binds .java (op.precedence + 1)
  | .instanceOf _ left _ => left.Binds .java Grammar.java.test
  | _ => True

def isBitwise : BinaryOp → Bool
  | .bitAnd | .bitXor | .bitOr => true
  | _ => false

def isRelational : BinaryOp → Bool
  | .less | .greater | .lessEq | .greaterEq => true
  | _ => false

/-- No test is an operand of a bitwise operator, and no comparison is tested. -/
def Expr.TestsApart : Expr → Prop
  | .binary _ left op right more =>
    isBitwise op = true → ∀ e ∈ left :: right :: more, e.isTest = false
  | .instanceOf _ left _ => left.isOneOf isRelational = false
  | _ => True

theorem precedence_pos (op : BinaryOp) : 0 < op.precedence := by
  cases op <;> decide

/-- In Swift an operand that Java takes is one unless it is a test that an operator binds more
strongly than. -/
theorem Expr.bindsAlone_swift_iff {e : Expr} {op : BinaryOp} {n m : Nat}
    (h : e.Binds .java n) (hn : 0 < n)
    (hop : n ≤ Grammar.java.test → (m ≤ Grammar.swift.test ↔ isBitwise op = false)) :
    e.BindsAlone Grammar.swift.chaining m ↔ (isBitwise op = true → e.isTest = false) := by
  cases e with
  | binary => exact iff_of_true trivial fun _ => rfl
  | instanceOf =>
    refine (hop h).trans ?_
    cases isBitwise op <;> simp [Expr.isTest]
  | assign | conditional =>
    have hzero : n = 0 := h rfl
    omega
  | _ => exact iff_of_true (fun hloose => by cases hloose) fun _ => rfl

namespace Expr.IsProduced

variable {e left right : Expr} {extent : Extent} {more : List Expr}

/-- In C# an operand that Java takes is one. -/
theorem operandsFit_java (h : e.IsProduced) : e.OperandsFit .java := by
  cases e with
  | binary extent left op right more =>
    exact fun _ => ⟨h.1.alone, fun e he => (h.2 e he).alone⟩
  | instanceOf extent left type => exact h
  | _ => trivial

/-- In Swift the operands of an operator fit unless it is bitwise and one of them is a test. -/
theorem operandsFit_binary_iff (h : (Expr.binary extent left op right more).IsProduced) :
    (Expr.binary extent left op right more).OperandsFit Grammar.swift.chaining ↔
      (Expr.binary extent left op right more).TestsApart := by
  obtain ⟨hleft, hright⟩ := h
  by_cases hshift : op = .shiftRightUnsigned
  · subst hshift
    exact iff_of_true nofun nofun
  have hop : Grammar.swift.chaining.hasOperator op = true := bne_iff_ne.2 hshift
  have hl : left.BindsAlone Grammar.swift.chaining (Grammar.swift.strength op) ↔
      (isBitwise op = true → left.isTest = false) :=
    bindsAlone_swift_iff hleft (precedence_pos op) (by cases op <;> decide)
  have hr (e : Expr) (he : e ∈ right :: more) :
      e.BindsAlone Grammar.swift.chaining (Grammar.swift.strength op + 1) ↔
        (isBitwise op = true → e.isTest = false) :=
    bindsAlone_swift_iff (hright e he) (Nat.succ_pos _) (by cases op <;> decide)
  constructor
  · intro hfit hb e he
    obtain ⟨hfitLeft, hfitRight⟩ := hfit hop
    rcases List.mem_cons.1 he with rfl | he
    · exact hl.1 hfitLeft hb
    · exact (hr e he).1 (hfitRight e he) hb
  · intro hapart _
    refine ⟨hl.2 fun hb => hapart hb left List.mem_cons_self, fun e he => (hr e he).2 fun hb => ?_⟩
    exact hapart hb e (List.mem_cons_of_mem left he)

/-- In Swift operands that Java takes are operands if tests are kept apart. -/
theorem operandsFit_swift_iff (h : e.IsProduced) :
    e.OperandsFit Grammar.swift.chaining ↔ e.TestsApart := by
  cases e with
  | binary extent left op right more => exact operandsFit_binary_iff h
  | instanceOf extent left type =>
    cases left with
    | binary _ _ op =>
      have hop : Grammar.java.test ≤ op.precedence := h rfl
      revert hop
      change _ → ((_ → Grammar.swift.test ≤ Grammar.swift.strength op) ↔ isRelational op = false)
      cases op <;> decide
    | instanceOf => exact iff_of_true (Nat.le_refl _) rfl
    | assign | conditional => exact absurd (h rfl) (by decide)
    | _ => exact iff_of_true (fun hloose => by cases hloose) rfl
  | _ => exact Iff.rfl

end Expr.IsProduced

section

variable {e : Expr} {ctx ctx' : Context}

/-- C# reads the output for what Java produces as the source is read. -/
theorem Expr.grouped_csharp_iff (he : e.Each (·.IsProduced)) (a : OperandTree) :
    Grouped .java 0 (e.signs .csharp) a ↔ a = e.tree := by
  refine Grouped.iff_eq ((e.grouped_iff agrees_csharp 0).2 ⟨binds_zero e, fun x hx => ?_⟩) a
  exact ⟨Expr.apart_none x, Expr.IsProduced.operandsFit_java (he x hx)⟩

theorem Expr.grouped_swift_precedences_iff (he : e.Each (·.IsProduced)) :
    Grouped Grammar.swift.chaining 0 (e.signs .swift) e.tree ↔ e.Each (·.TestsApart) := by
  rw [e.grouped_iff agrees_swift_chaining 0, and_iff_right (binds_zero e)]
  refine forall₂_congr fun x hx => ?_
  exact (and_iff_right (Expr.apart_none x)).trans (Expr.IsProduced.operandsFit_swift_iff (he x hx))

/-- Tests of types in an output stay the operands that they are in the source: always in C#, and by
the precedences of Swift exactly if no test is an operand of a bitwise operator, and no comparison
is tested. -/
theorem Expr.render_tests (he : e.Each (·.IsProduced))
    (hrun : Node.render s (.expr e) ctx = .ok () ctx') :
    ∃ text, ctx'.writer = ctx.writer.added text ∧ SpellsSigns s (e.signs s.target) text ∧
      (s.target = .csharp → ∀ a, Grouped .java 0 (e.signs s.target) a ↔ a = e.tree) ∧
      (s.target = .swift →
        ((∀ a, Grouped Grammar.swift.chaining 0 (e.signs s.target) a ↔ a = e.tree) ↔
          e.Each (·.TestsApart))) := by
  obtain ⟨text, hwriter, hspells⟩ := e.writesSigns s hrun
  refine ⟨text, hwriter, hspells, fun ht => ?_, fun ht => ?_⟩
  · rw [ht]
    exact Expr.grouped_csharp_iff he
  · rw [ht, ← Expr.grouped_swift_precedences_iff he]
    exact ⟨fun h => (h e.tree).2 rfl, fun h a => h.iff_eq a⟩

/-- A test to the right of a bitwise operator. -/
def Expr.orTest : Expr :=
  .binary ⟨0, 18⟩ (.name (.simple ⟨⟨0, 1⟩, "c"⟩)) .bitOr
    (.instanceOf ⟨4, 18⟩ (.name (.simple ⟨⟨4, 5⟩, "a"⟩))
      (.named ⟨17, 18⟩ (.simple ⟨⟨17, 18⟩, "B"⟩) none)) []

/-- C# tests the operand. -/
theorem Expr.render_tests_orTest :
    ∃ after, Node.render (.ofTarget .csharp) (.expr .orTest) (.start "c | a instanceof B" true) =
        .ok () after ∧
      after.writer.current = "c | a is B" ∧
      ∀ a, Grouped .java 0 (Expr.orTest.signs .csharp) a ↔ a = Expr.orTest.tree := by
  obtain ⟨after, hrun, hout⟩ := runsTo_ok (by decide +kernel :
    runsTo (Node.render (.ofTarget .csharp) (.expr .orTest)) (.start "c | a instanceof B" true) =
      some "c | a is B")
  have hproduced : Expr.orTest.Each (·.IsProduced) := by
    simp [Expr.orTest, Expr.IsProduced, Expr.Binds, isLoose, Grammar.java, BinaryOp.precedence]
  obtain ⟨text, -, -, hcsharp, -⟩ := Expr.render_tests hproduced hrun
  exact ⟨after, hrun, hout, hcsharp rfl⟩

/-- Swift tests the value of the bitwise operator instead. -/
theorem Expr.render_regroups_test :
    renderNode (.ofTarget .swift) "c | a instanceof B" true (.expr .orTest) =
        ⟨none, "c | a is B"⟩ ∧
      ∃ c a type, Expr.orTest.tree = .binary .bitOr (.leaf c) (.test (.leaf a) type) ∧
        ∀ b, Grouped .swift 0 (Expr.orTest.signs .swift) b ↔
          b = .test (.binary .bitOr (.leaf c) (.leaf a)) type := by
  refine ⟨by decide +kernel, _, _, _, rfl, Grouped.iff_eq ?_⟩
  have hc (e : Expr) (n : Nat) (he : isLoose e = false) : Grouped .swift n [.operand e] (.leaf e) :=
    .leaf (by simp [he])
  exact .test (Nat.zero_le _) (.binary rfl (by decide) (hc _ _ rfl) (hc _ _ rfl))

end

end Tree

end Lockstep
