import Lockstep.Proofs.OperandSigns
import Lockstep.Proofs.OutputChunks

/-!
# The operators of Swift

Swift tells operators apart by what stands around them: operators that touch are one, and one with
white space or a comment behind it does not stand before an operand. The output has the spaces of
the source around its operators, and where the sides of an operator between operands are unlike, one
is put in; nothing is done for operators that stand before their operands. So whether the operators
of an output stay apart is read off the places of the operands in the source (`Expr.KeepsApart`).

- `Expr.swiftTokens`: the tokens of the output for an expression.
- `Expr.chunked`: the script of an expression writes its tokens.
- `Expr.render_operators`: when the operators of an output stay apart.
-/

namespace Lockstep

open Config Output Render Source Target Text

namespace Tree

/-! ## The tokens of an expression -/

def SimpleName.asToken (s : Settings) (n : SimpleName) : Token :=
  .part n.extent.start (n.script s)

def TypeRef.asToken (s : Settings) (type : TypeRef) : Token :=
  .part type.extent.start (type.script s)

/-- An expression that is taken as a whole. -/
def Expr.asToken (s : Settings) (e : Expr) : Token :=
  .part e.extent.start (e.script s)

/-- Two operands with the operator between them, or as the arguments of a call. -/
def Token.joined (op : BinaryOp) (ts us : List Token) : List Token :=
  if (Target.swift.binaryToken? op).isSome then ts ++ .operator op.token :: us
  else .word unsignedShiftFunction :: .word "(" :: (ts ++ .word "," :: (us ++ [.word ")"]))

/-- An assignment, or one by a function that reads the variable once more. -/
def Token.assigned (op : AssignOp) (ts us : List Token) : List Token :=
  if (Target.swift.assignToken? op).isSome then ts ++ .operator op.token :: us
  else ts ++ .operator "=" :: .word unsignedShiftFunction :: .word "(" ::
    (ts ++ .word "," :: (us ++ [.word ")"]))

mutual

/-- The tokens of the output for an expression. What has no operators in it is one of them. -/
def Expr.swiftTokens (s : Settings) : Expr → List Token
  | .parenthesized _ inner => .word "(" :: inner.swiftTokens s ++ [.word ")"]
  | .binary _ left op right more =>
    Expr.chainTokens s op (Target.swift.nonAssociative op && !more.isEmpty)
      (Token.joined op (Token.enclosed (left.wraps .swift op true) (left.swiftTokens s))
        (Token.enclosed (right.wraps .swift op false) (right.swiftTokens s))) more
  | .unary _ op operand => .unary op :: operand.swiftTokens s
  | .assign _ left op right => Token.assigned op (left.swiftTokens s) (right.swiftTokens s)
  | .conditional _ condition positive negative =>
    condition.swiftTokens s ++ .operator "?" ::
      (positive.swiftTokens s ++ .operator ":" :: negative.swiftTokens s)
  | .call _ receiver _ n arguments _ =>
    Expr.receiverTokens s receiver ++ n.asToken s ::
      Token.arguments (Expr.argumentTokens s arguments)
  | .superCall _ _ _ n arguments _ =>
    .word "super" :: .word "." :: n.asToken s ::
      Token.arguments (Expr.argumentTokens s arguments)
  | .field _ object n _ => object.swiftTokens s ++ [.word ".", n.asToken s]
  | .index _ array position =>
    array.swiftTokens s ++ .word "[" :: (position.swiftTokens s ++ [.word "]"])
  | .create _ _ _ type arguments _ =>
    type.asToken s :: Token.arguments (Expr.argumentTokens s arguments)
  | .instanceOf _ left type => left.swiftTokens s ++ [.word "is", type.asToken s]
  -- Swift has neither casts nor postfix operators, so that what is left has none.
  | e => [e.asToken s]

/-- The tokens of a chain; `ts` are those of the operands before. -/
def Expr.chainTokens (s : Settings) (op : BinaryOp) (grouped : Bool) (ts : List Token) :
    List Expr → List Token
  | [] => ts
  | e :: es =>
    Expr.chainTokens s op grouped
      (Token.joined op (Token.enclosed grouped ts)
        (Token.enclosed (e.wraps .swift op false) (e.swiftTokens s))) es

def Expr.argumentTokens (s : Settings) : List Expr → List (List Token)
  | [] => []
  | e :: es => e.swiftTokens s :: Expr.argumentTokens s es

/-- The object that a method is called on. -/
def Expr.receiverTokens (s : Settings) : Option Expr → List Token
  | none => []
  | some e => e.swiftTokens s ++ [.word "."]

end

theorem Token.joined_operator {op : BinaryOp} (hop : op ≠ .shiftRightUnsigned)
    (ts us : List Token) : Token.joined op ts us = ts ++ .operator op.token :: us := by
  cases op <;> first | rfl | exact absurd rfl hop

theorem Token.assigned_operator {op : AssignOp} (hop : op ≠ .shiftRightUnsigned)
    (ts us : List Token) : Token.assigned op ts us = ts ++ .operator op.token :: us := by
  cases op <;> first | rfl | exact absurd rfl hop

/-! ## Where operators stay apart -/

/-- An operand may follow an operator: it does not begin with a prefix operator, or the source has
something on one side of the operator, which stands between the two places. -/
def MayFollow (x : Extent) (token : String) (y : Extent) (ts : List Token) : Prop :=
  Token.leads ts = true → y.start ≠ x.stop.toNat + byteLength token.toList

/-- The expression may follow the operator as its right operand; a call has no operator. -/
def Expr.LinksTo (s : Settings) (x : Extent) (op : BinaryOp) (e : Expr) : Prop :=
  op ≠ .shiftRightUnsigned →
    MayFollow x op.token e.extent (Token.enclosed (e.wraps .swift op false) (e.swiftTokens s))

mutual

/-- Nothing stands in the source between a prefix operator and its operand, which does not begin
with another, and what begins with a prefix operator may follow the operator before it. -/
def Expr.KeepsApart (s : Settings) : Expr → Prop
  | .parenthesized _ inner => inner.KeepsApart s
  | .binary _ left op right more =>
    (left.KeepsApart s ∧ right.KeepsApart s ∧ right.LinksTo s left.extent op) ∧
      Expr.LinksApart s op right.extent more
  | .unary extent op operand =>
    operand.KeepsApart s ∧ Token.leads (operand.swiftTokens s) = false ∧
      operand.extent.start = extent.start + byteLength op.token.toList
  | .assign _ left op right =>
    left.KeepsApart s ∧ right.KeepsApart s ∧ (op ≠ .shiftRightUnsigned →
      MayFollow left.extent op.token right.extent (right.swiftTokens s))
  | .conditional _ condition positive negative =>
    condition.KeepsApart s ∧ positive.KeepsApart s ∧ negative.KeepsApart s
  | .call _ receiver _ _ arguments _ =>
    Expr.ReceiverApart s receiver ∧ Expr.AllKeepApart s arguments
  | .superCall _ _ _ _ arguments _ => Expr.AllKeepApart s arguments
  | .field _ object _ _ => object.KeepsApart s
  | .index _ array position => array.KeepsApart s ∧ position.KeepsApart s
  | .create _ _ _ _ arguments _ => Expr.AllKeepApart s arguments
  | .instanceOf _ left _ => left.KeepsApart s
  | _ => True

/-- The further operands of a chain; the one before lies at `x`. -/
def Expr.LinksApart (s : Settings) (op : BinaryOp) (x : Extent) : List Expr → Prop
  | [] => True
  | e :: es => (e.KeepsApart s ∧ e.LinksTo s x op) ∧ Expr.LinksApart s op e.extent es

def Expr.AllKeepApart (s : Settings) : List Expr → Prop
  | [] => True
  | e :: es => e.KeepsApart s ∧ Expr.AllKeepApart s es

def Expr.ReceiverApart (s : Settings) : Option Expr → Prop
  | none => True
  | some e => e.KeepsApart s

end

theorem Expr.argumentTokens_eq_map (s : Settings) (es : List Expr) :
    Expr.argumentTokens s es = es.map (Expr.swiftTokens s) := by
  induction es with
  | nil => rfl
  | cons e es ih => rw [Expr.argumentTokens, ih, List.map_cons]

theorem Expr.allKeepApart_iff {s : Settings} {es : List Expr} :
    Expr.AllKeepApart s es ↔ ∀ e ∈ es, e.KeepsApart s := by
  induction es with
  | nil => exact iff_of_true trivial (List.forall_mem_nil _)
  | cons e es ih => rw [Expr.AllKeepApart, List.forall_mem_cons, ih]

end Tree

namespace Render

open Lockstep.Tree

/-! ## Scripts of expressions -/

namespace Chunked

variable {s : Settings} {src : List Char} {a : Stance} {xs ys : Script} {f g : Layout}
  {fs gs : List Layout} {ts us : List Token} {P Q : Prop} {op : BinaryOp} {x y : Extent}

/-- An operator of the source. -/
theorem link (token : String) (hne : fs ≠ []) (hx : Layout.StopAt fs x.stop.toNat)
    (hy : g.extent? = some y) (h : Chunked src .ready xs fs ts P)
    (h' : Chunked src .ready ys [g] us Q) :
    Chunked src .ready (xs ++ ([Script.operator .swift token token false] ++ ys))
      (fs ++ [.token token, g]) (ts ++ .operator token :: us) (P ∧ Q ∧ MayFollow x token y us) := by
  refine (operator token token false hne hx hy h h').congr ?_
  simp only [MayFollow, Bool.false_eq_true, false_or]

/-- A sign after which a part begins. -/
theorem between (token text : String) (h : Chunked src .ready ys (g :: gs) ts P) :
    Chunked src .done ([.copyTrivia, .swap token text, .copyTrivia] ++ ys)
      (.token token :: g :: gs) (.word text :: ts) P :=
  copyTrivia (swap token text (copyTrivia h))

/-- A chain of an operator: if its links are grouped, each is put in parentheses. -/
theorem chain (ht : s.target = .swift) (hop : op ≠ .shiftRightUnsigned) (grouped : Bool)
    {more : List Expr} (hne : fs ≠ []) (hx : Layout.StopAt fs x.stop.toNat)
    (h : Chunked src .ready xs fs ts P)
    (hmore : ∀ e ∈ more, Chunked src .ready (e.script s) [e.layout] (e.swiftTokens s)
      (e.KeepsApart s)) :
    Chunked src .ready
      ((if grouped then (Expr.operandScripts s op more).map fun _ => .emit "(" else []) ++ xs ++
        chainScript .swift op.token op.token grouped (Expr.operandScripts s op more))
      (fs ++ Expr.linkLayouts op more) (Expr.chainTokens s op grouped ts more)
      (P ∧ Expr.LinksApart s op x more) := by
  induction more generalizing xs fs ts P x with
  | nil =>
    refine Chunked.congr ?_ (and_iff_left trivial).symm
    simpa [Expr.operandScripts, chainScript, Expr.linkLayouts, Expr.chainTokens] using h
  | cons e es ih =>
    obtain ⟨he, hes⟩ := List.forall_mem_cons.1 hmore
    have hoperand := he.enclosed (e.wraps .swift op false) (List.cons_ne_nil _ _)
    have hlink := (h.enclosed grouped hne).link op.token hne hx e.extent?_layout hoperand
    have hstop : Layout.StopAt (fs ++ [.token op.token, e.layout]) e.extent.stop.toNat := by
      rw [← List.singleton_append, ← List.append_assoc]
      exact Layout.stopAt_append (List.append_ne_nil_of_left_ne_nil hne _) e.extent?_layout
    have hrest := ih (List.append_ne_nil_of_left_ne_nil hne _) hstop hlink hes
    rw [← Token.joined_operator hop] at hrest
    refine Chunked.congr ?_ (and_assoc.trans (and_congr_right fun _ => and_congr_left fun _ =>
      and_congr_right fun _ => (imp_iff_right hop).symm))
    cases grouped with
    | true =>
      have hopen := SpellsTree.append_flatMap (Expr.operandScripts s op es) [Step.emit "("]
      simp only [List.map_eq_flatMap] at hrest ⊢
      simpa only [if_true, wrapped, Expr.operandScripts, chainScript, Expr.chainTokens,
        Expr.linkLayouts, List.flatMap_cons, hopen, ht, List.append_assoc, List.cons_append,
        List.nil_append] using hrest
    | false =>
      simpa only [Bool.false_eq_true, if_false, wrapped, Expr.operandScripts, chainScript,
        Expr.chainTokens, Expr.linkLayouts, ht, List.append_assoc, List.cons_append,
        List.nil_append] using hrest

/-- A call of the function that stands for a shift. -/
theorem call (token : String) (hne : fs ≠ []) (h : Chunked src .ready xs fs ts P)
    (h' : Chunked src .ready ys [g] us Q) :
    Chunked src .ready
      ([.emit unsignedShiftFunction, .emit "("] ++ xs ++
        [.skipBlanks, .copyTrivia, .swap token ",", .copyTrivia] ++ ys ++ [.emit ")"])
      (fs ++ [.token token, g]) (Token.joined .shiftRightUnsigned ts us) (P ∧ Q) := by
  have hcomma := skipBlanks (between token ","
    (h'.emitLast ")" fun _ => List.cons_ne_nil _ _))
  have hall := emit unsignedShiftFunction (emit "(" (h.append (fun _ => hne) hcomma))
  simp only [List.append_assoc]
  exact hall

/-- Nested calls: their arguments are not put in parentheses. -/
theorem calls {more : List Expr} (hne : fs ≠ []) (h : Chunked src .ready xs fs ts P)
    (hmore : ∀ e ∈ more, Chunked src .ready (e.script s) [e.layout] (e.swiftTokens s)
      (e.KeepsApart s)) :
    Chunked src .ready
      (nestedCalls BinaryOp.shiftRightUnsigned.token xs (Expr.scripts s more))
      (fs ++ Expr.linkLayouts .shiftRightUnsigned more)
      (Expr.chainTokens s .shiftRightUnsigned false ts more)
      (P ∧ Expr.LinksApart s .shiftRightUnsigned x more) := by
  induction more generalizing xs fs ts P x with
  | nil =>
    refine Chunked.congr ?_ (and_iff_left trivial).symm
    simpa [Expr.scripts, nestedCalls, callOperands, Expr.linkLayouts, Expr.chainTokens] using h
  | cons e es ih =>
    obtain ⟨he, hes⟩ := List.forall_mem_cons.1 hmore
    have hcall := h.call BinaryOp.shiftRightUnsigned.token hne he
    have hrest := ih (x := e.extent) (List.append_ne_nil_of_left_ne_nil hne _) hcall hes
    have hwraps : e.wraps .swift .shiftRightUnsigned false = false := wraps_eq_false rfl e false
    refine Chunked.congr ?_ (and_assoc.trans (and_congr_right fun _ => and_congr_left fun _ =>
      (and_iff_left fun hop => absurd rfl hop).symm))
    rw [List.append_assoc fs] at hrest
    simp only [Expr.scripts, SpellsTree.nestedCalls_cons, Expr.chainTokens, hwraps]
    exact hrest

/-- An assignment by a function reads the variable once more. -/
theorem assignCall (token : String) (hx : f.extent? = some x) (hy : g.extent? = some y)
    (h : Chunked src .ready xs [f] ts P) (h' : Chunked src .ready ys [g] us Q) :
    Chunked src .ready (assignByCall .swift token x.start xs ys) [f, .token token, g]
      (ts ++ .operator "=" :: .word unsignedShiftFunction :: .word "(" ::
        (ts ++ .word "," :: (us ++ [.word ")"]))) (P ∧ Q) := by
  intro ctx after d htext hat hrun
  have hf : f.FaithfulTo src := by
    obtain ⟨stop, hf, -⟩ := hat
    exact ⟨_, stop, htext, hf⟩
  have hright := emitSpaced "," (h'.emitLast ")" fun _ => List.cons_ne_nil _ _)
  have hvalue := emit unsignedShiftFunction (emit "(" (revisit hf hx h hright))
  have hall := operator token "=" false (List.cons_ne_nil _ _) (Layout.stopAt_singleton hx) hy h
    hvalue
  refine (hall.congr ?_) htext hat ?_
  · simp [Token.leads]
  · simp only [assignByCall, List.append_assoc] at hrun
    exact hrun

/-- A name or a type with arguments behind it. -/
theorem invocation {es : List Expr} (h : Chunked src .ready xs [f] ts True)
    (hes : ∀ e ∈ es, Chunked src .ready (e.script s) [e.layout] (e.swiftTokens s)
      (e.KeepsApart s)) :
    Chunked src .ready (xs ++ ([.copyTrivia] ++ Script.arguments (Expr.scripts s es)))
      (f :: argumentLayouts (Expr.layouts es))
      (ts ++ Token.arguments (Expr.argumentTokens s es)) (Expr.AllKeepApart s es) := by
  rw [Expr.scripts_eq_map, Expr.layouts_eq_map, Expr.argumentTokens_eq_map]
  have harguments := copyTrivia (arguments hes)
  exact (h.append (fun _ => List.cons_ne_nil _ _) harguments).congr
    ((and_iff_right trivial).trans Expr.allKeepApart_iff.symm)

end Chunked

end Render

namespace Tree

variable {s : Settings} {src : List Char}

theorem swift_memberAccess (isStatic : Bool) : Target.swift.memberAccess isStatic = "." := by
  cases isStatic <;> rfl

theorem swift_memberAccess? (binding : Option MemberBinding) :
    memberAccess? .swift binding = some "." := by
  cases binding with
  | none => rfl
  | some binding => exact congrArg some (swift_memberAccess binding.isStatic)

/-- Names have no operators in them. -/
theorem SimpleName.chunked (s : Settings) (n : SimpleName) :
    Chunked src .ready (n.script s) [n.layout] [n.asToken s] True := .part rfl (n.walks s)

theorem TypeRef.chunked (s : Settings) (type : TypeRef) :
    Chunked src .ready (type.script s) [type.layout] [type.asToken s] True :=
  .part type.extent?_layout (type.walks s (.inl trivial))

/-- An expression that has no operators in it. -/
theorem Expr.chunked_part (e : Expr) :
    Chunked src .ready (e.script s) [e.layout] [e.asToken s] True :=
  .part e.extent?_layout (e.walks s (.inl trivial))

mutual

/-- The script of an expression writes its tokens, and they stay apart exactly if the expression
keeps its operators apart. -/
theorem Expr.chunked (ht : s.target = .swift) (e : Expr) :
    Chunked src .ready (e.script s) [e.layout] (e.swiftTokens s) (e.KeepsApart s) := by
  match e with
  | .parenthesized extent inner =>
    have hinner := (inner.chunked ht).followed (fun _ => List.cons_ne_nil _ _) (.sign ")" ")")
    rw [Expr.script, List.append_assoc]
    exact .node (.swap "(" "(" (.copyTrivia hinner))
  | .unary extent op operand =>
    rw [Expr.script, ht]
    split
    · next replacement htoken =>
      obtain rfl : op.token = replacement := by cases op <;> cases htoken <;> rfl
      exact .unary operand.extent?_layout (operand.chunked ht)
    · exact .node .refuse
  | .binary extent left op right more =>
    have hmore := Expr.all_chunked ht more
    rw [Expr.script, ht]
    refine .node ?_
    split
    · next replacement htoken =>
      obtain rfl := binaryToken?_eq htoken
      have hop : op ≠ .shiftRightUnsigned := by rintro rfl; cases htoken
      have hleft := (left.chunked ht).enclosed (left.wraps .swift op true) (List.cons_ne_nil _ _)
      have hright :=
        (right.chunked ht).enclosed (right.wraps .swift op false) (List.cons_ne_nil _ _)
      have hlink := hleft.link op.token (List.cons_ne_nil _ _)
        (Layout.stopAt_singleton left.extent?_layout) right.extent?_layout hright
      have hstop : Layout.StopAt ([left.layout, .token op.token] ++ [right.layout])
          right.extent.stop.toNat :=
        Layout.stopAt_append (List.cons_ne_nil _ _) right.extent?_layout
      have hchain := Chunked.chain ht hop (Target.swift.nonAssociative op && !more.isEmpty)
        (List.cons_ne_nil _ _) hstop hlink hmore
      have hempty : (Expr.operandScripts s op more).isEmpty = more.isEmpty := by
        cases more <;> rfl
      rw [← Token.joined_operator hop] at hchain
      refine Chunked.congr ?_ (and_congr_left fun _ => and_congr_right fun _ =>
        and_congr_right fun _ => (imp_iff_right hop).symm)
      simp only [binaryScript, hempty, List.append_assoc] at hchain ⊢
      exact hchain
    · next hnone =>
      obtain rfl := binaryToken?_eq_none hnone
      have hcall := (left.chunked ht).call BinaryOp.shiftRightUnsigned.token (List.cons_ne_nil _ _)
        (right.chunked ht)
      have hcalls := hcall.calls (x := right.extent) (List.cons_ne_nil _ _) hmore
      rw [SpellsTree.nestedCalls_cons, Expr.swiftTokens, wraps_eq_false hnone, wraps_eq_false hnone]
      exact hcalls.congr (and_congr_left fun _ => and_congr_right fun _ =>
        (and_iff_left fun hop => absurd rfl hop).symm)
  | .assign extent left op right =>
    rw [Expr.script, ht]
    refine .node ?_
    split
    · next replacement htoken =>
      obtain rfl : op.token = replacement := by cases op <;> cases htoken <;> rfl
      have hop : op ≠ .shiftRightUnsigned := by rintro rfl; cases htoken
      have hlink := (left.chunked ht).link op.token (List.cons_ne_nil _ _)
        (Layout.stopAt_singleton left.extent?_layout) right.extent?_layout (right.chunked ht)
      rw [List.append_assoc, Expr.swiftTokens, Token.assigned_operator hop]
      exact hlink.congr (and_congr_right fun _ => and_congr_right fun _ => (imp_iff_right hop).symm)
    · next hnone =>
      obtain rfl : op = .shiftRightUnsigned := by cases op <;> first | rfl | cases hnone
      split
      · have hcall := Chunked.assignCall AssignOp.shiftRightUnsigned.token left.extent?_layout
          right.extent?_layout (left.chunked ht) (right.chunked ht)
        exact hcall.congr (and_congr_right fun _ => (and_iff_left fun hop => absurd rfl hop).symm)
      · exact .refuse
  | .conditional extent condition positive negative =>
    have hpositive := (positive.chunked ht).operator ":" ":" true (List.cons_ne_nil _ _)
      (Layout.stopAt_singleton positive.extent?_layout) negative.extent?_layout
      (negative.chunked ht)
    have hall := (condition.chunked ht).operator "?" "?" true (List.cons_ne_nil _ _)
      (Layout.stopAt_singleton condition.extent?_layout) positive.extent?_layout hpositive
    rw [Expr.script, ht]
    simp only [List.append_assoc]
    exact .node (hall.congr (by simp [Expr.KeepsApart]))
  | .call extent receiver typeArguments n arguments none => exact .node .refuse
  | .call extent receiver typeArguments n arguments (some binding) =>
    rw [Expr.script, Expr.layout, ht, swift_memberAccess]
    refine .node ?_
    split
    · exact .refuse
    · next hempty =>
      have hcall := (n.chunked s).invocation (Expr.all_chunked ht arguments)
      rw [typeArgumentLayouts_eq_nil hempty]
      simp only [List.append_assoc]
      match receiver with
      | none => exact hcall.congr (and_iff_right trivial).symm
      | some e =>
        have hmember := Chunked.between "." "." hcall
        have hall := (e.chunked ht).append (fun _ => List.cons_ne_nil _ _) hmember
        rw [Expr.swiftTokens, Expr.receiverTokens, List.append_assoc]
        simp only [Expr.receiverScript, List.append_assoc]
        exact hall
  | .superCall extent (some qualifier) typeArguments n arguments binding => exact .node .refuse
  | .superCall extent none typeArguments n arguments none => exact .node .refuse
  | .superCall extent none typeArguments n arguments (some binding) =>
    rw [Expr.script, Expr.layout, ht, swift_memberAccess]
    refine .node ?_
    simp only [Option.isSome_none, Bool.false_eq_true, if_false]
    split
    · exact .refuse
    · next hempty =>
      have hcall := (n.chunked s).invocation (Expr.all_chunked ht arguments)
      rw [typeArgumentLayouts_eq_nil hempty]
      simp only [memberScript, List.append_assoc]
      exact .swap "super" "super" (.between "." "." hcall)
  | .field extent object n binding =>
    rw [Expr.script, ht, swift_memberAccess?]
    exact .node ((object.chunked ht).followed (fun _ => List.cons_ne_nil _ _)
      (.between "." "." (n.chunked s)))
  | .index extent array position =>
    have hposition := (position.chunked ht).followed (fun _ => List.cons_ne_nil _ _) (.sign "]" "]")
    have hall := (array.chunked ht).append (fun _ => List.cons_ne_nil _ _)
      (.between "[" "[" hposition)
    rw [Expr.script]
    simp only [List.append_assoc]
    exact .node hall
  | .create extent (some outer) typeArguments type arguments body => exact .node .refuse
  | .create extent none typeArguments type arguments body =>
    rw [Expr.script, Expr.layout, ht]
    refine .node ?_
    simp only [Option.isSome_none, Bool.false_eq_true, if_false]
    split
    · exact .refuse
    · next hempty =>
      rw [typeArgumentLayouts_eq_nil hempty]
      match body with
      | some body => exact .refuse
      | none =>
        have hcall := (type.chunked s).invocation (Expr.all_chunked ht arguments)
        rw [Option.toList_none, List.map_nil, List.append_nil]
        simp only [List.append_assoc]
        exact .newWord hcall
  | .instanceOf extent left type =>
    have hall := (left.chunked ht).followed (fun _ => List.cons_ne_nil _ _)
      (.between "instanceof" "is" (type.chunked s))
    rw [Expr.script, ht]
    simp only [List.append_assoc]
    exact .node hall
  | .name _ | .literal .. | .boolean .. | .null _ | .this .. | .step .. | .superField .. | .cast ..
  | .other .. => exact Expr.chunked_part _

theorem Expr.all_chunked (ht : s.target = .swift) (es : List Expr) :
    ∀ e ∈ es, Chunked src .ready (e.script s) [e.layout] (e.swiftTokens s) (e.KeepsApart s) := by
  match es with
  | [] => exact List.forall_mem_nil _
  | e :: es => exact List.forall_mem_cons.2 ⟨e.chunked ht, Expr.all_chunked ht es⟩

end

/-! ## The operators of an output -/

/-- The output in Swift for an expression that lies in the source consists of its tokens, and their
operators stay apart exactly if the expression keeps them apart in the source. -/
theorem Expr.render_operators (ht : s.target = .swift) {e : Expr} {ctx ctx' : Context} {d : Cursor}
    (hlies : e.layout.Lies ctx.cursor d) (hrun : Node.render s (.expr e) ctx = .ok () ctx') :
    ctx'.cursor = d ∧ ∃ chunks : List Chunk,
      ctx'.writer = ctx.writer.added (chunks.flatMap Chunk.text) ∧
      chunks.filterMap Chunk.token? = e.swiftTokens s ∧
      (∀ c ∈ chunks, c.IsSpelled ctx.cursor.text) ∧
      (chunks.IsChain Chunk.Clears ↔ e.KeepsApart s) := by
  have hat : Stance.ready.At [e.layout] ctx.cursor d := ⟨d, hlies, rfl⟩
  obtain ⟨hd, chunks, hwriter, hsegment⟩ := e.chunked ht rfl hat hrun
  exact ⟨hd, chunks, hwriter, hsegment.tokens, hsegment.spelled, hsegment.apart⟩

/-- An operator with a space on one side gets one on the other, so that a sign may follow. -/
theorem Expr.render_operators_product :
    let name (n : String) (pos : UInt32) : Expr := .name (.simple ⟨⟨pos, pos + 1⟩, n⟩)
    let e : Expr := .binary ⟨0, 5⟩ (name "a" 0) .times (.unary ⟨3, 5⟩ .minus (name "b" 4)) []
    ∃ after, Node.render (.ofTarget .swift) (.expr e) (.start "a *-b" true) = .ok () after ∧
      after.writer.current = "a * -b" ∧
      ∃ chunks : List Chunk,
        after.writer = (Context.start "a *-b" true).writer.added (chunks.flatMap Chunk.text) ∧
        chunks.filterMap Chunk.token? = e.swiftTokens (.ofTarget .swift) ∧
        chunks.IsChain Chunk.Clears := by
  intro name e
  obtain ⟨after, hrun, hout⟩ := runsTo_ok (by decide +kernel :
    runsTo (Node.render (.ofTarget .swift) (.expr e)) (.start "a *-b" true) = some "a * -b")
  have passes (n m : Nat) := ((Cursor.ofText "a *-b").pass n).passes_pass m
  have hblank : Trivia.Runs " ".toList "*-b".toList := .single rfl
  have hsign : Layout.Lies (.node ⟨3, 5⟩ [.token "-", (name "b" 4).layout])
      ((Cursor.ofText "a *-b").pass 3) ((Cursor.ofText "a *-b").pass 5) :=
    ⟨rfl, rfl, rfl, _, ⟨rfl, passes 3 1⟩, [], _, _, .refl _, .nil,
      ⟨rfl, rfl, rfl, _, ⟨rfl, passes 4 1⟩, rfl⟩, rfl⟩
  have hlies : e.layout.Lies (Cursor.ofText "a *-b") ((Cursor.ofText "a *-b").pass 5) :=
    ⟨rfl, rfl, rfl, _, ⟨rfl, rfl, rfl, _, ⟨rfl, passes 0 1⟩, rfl⟩, " ".toList, _, _, passes 1 1,
      hblank, ⟨rfl, passes 2 1⟩, [], _, _, .refl _, .nil, hsign, rfl⟩
  obtain ⟨-, chunks, hwriter, htokens, -, hapart⟩ := Expr.render_operators rfl hlies hrun
  refine ⟨after, hrun, hout, chunks, hwriter, htokens, hapart.2 ?_⟩
  have hplace : (name "b" 4).extent.start = 3 + byteLength "-".toList := by decide +kernel
  have hfollows : (3 : Nat) ≠ 1 + byteLength "*".toList := by decide +kernel
  exact ⟨⟨trivial, ⟨trivial, rfl, hplace⟩, fun _ _ => hfollows⟩, trivial⟩

/-- A binary operator before a sign, a sign before a space, and two signs: the output is what the
source is, and in Swift the operators are others. -/
theorem Expr.render_joins_operators :
    let name (n : String) (pos : UInt32) : Expr := .name (.simple ⟨⟨pos, pos + 1⟩, n⟩)
    let part (n : String) (pos : UInt32) : Chunk :=
      .token ((name n pos).asToken (.ofTarget .swift)) n.toList
    let product : Expr :=
      .binary ⟨0, 4⟩ (name "a" 0) .times (.unary ⟨2, 4⟩ .minus (name "b" 3)) []
    let sign : Expr := .unary ⟨0, 3⟩ .minus (name "b" 2)
    let twice : Expr := .unary ⟨0, 3⟩ .not (.unary ⟨1, 3⟩ .not (name "a" 2))
    ∀ x ∈ [("a*-b", product, [part "a" 0, .token (.operator "*") ['*'],
          .token (.unary .minus) ['-'], part "b" 3]),
        ("- b", sign, [.token (.unary .minus) ['-'], .gap [' '], part "b" 2]),
        ("!!a", twice, [.token (.unary .not) ['!'], .token (.unary .not) ['!'], part "a" 2])],
      renderNode (.ofTarget .swift) x.1 true (.expr x.2.1) = ⟨none, x.1⟩ ∧
        x.2.2.flatMap Chunk.text = x.1.toList ∧
        x.2.2.filterMap Chunk.token? = x.2.1.swiftTokens (.ofTarget .swift) ∧
        ¬ x.2.2.IsChain Chunk.Clears := by
  intro name part product sign twice
  rw [List.forall_mem_cons, List.forall_mem_cons, List.forall_mem_singleton]
  refine ⟨⟨by decide +kernel, by decide +kernel, rfl, ?_⟩,
    ⟨by decide +kernel, by decide +kernel, rfl, ?_⟩, by decide +kernel, by decide +kernel, rfl, ?_⟩
  all_goals simp [part, Chunk.Clears]

end Tree

end Lockstep
