import Lockstep.Proofs.NodeWalk

/-!
# Rendering as an edit of the source

What is written in C# for an expression or a statement is its source with tokens replaced one by
one. The edits of a tree are listed by recursion over it (`Expr.edits`, `Stmt.edits`); they say
which spelling a token gets and where parentheses are put in. Everything between them is trivia,
which is kept as it stands.

- `Edit`: a part of the source and what is written for it.
- `InPlace`: a script passes and writes what the edits say, and copies the trivia between them.
- `Node.render_edits`: the theorem about nodes.
-/

namespace Lockstep.Tree

open Target Text

/-- A part of the source with what is written for it in C#. -/
inductive Edit where
  /-- White space and comments, kept. -/
  | trivia (text : List Char)
  /-- A token that is kept. -/
  | token (text : String)
  | name (identifier : String)
  | literal (kind : LiteralKind) (spelling : String)
  | primitive (p : Primitive)
  | superWord
  | instanceOfWord
  | openParen
  | closeParen
  deriving DecidableEq

namespace Edit

/-- What stands in the source. -/
def source : Edit → List Char
  | .trivia text => text
  | .token text => text.toList
  | .name identifier => identifier.toList
  | .literal _ spelling => spelling.toList
  | .primitive p => p.keyword.toList
  | .superWord => "super".toList
  | .instanceOfWord => "instanceof".toList
  | .openParen | .closeParen => []

/-- What is written. -/
def output : Edit → List Char
  | .trivia text => text
  | .token text => text.toList
  | .name identifier => (Target.csharp.escaped identifier).toList
  | .literal kind spelling => ((kind.render? .csharp spelling).getD spelling).toList
  | .primitive p => (Target.csharp.primitiveType p).toList
  | .superWord => "base".toList
  | .instanceOfWord => "is".toList
  | .openParen => "(".toList
  | .closeParen => ")".toList

def isTrivia : Edit → Bool
  | .trivia _ => true
  | _ => false

/-- Edits with commas between them. -/
def separated : List (List Edit) → List Edit
  | [] => []
  | [es] => es
  | es :: rest => es ++ .token "," :: separated rest

/-- Arguments in parentheses. -/
def arguments (args : List (List Edit)) : List Edit :=
  .token "(" :: separated args ++ [.token ")"]

/-- Parentheses that the source does not have. -/
def wrapped (wrap : Bool) (es : List Edit) : List Edit :=
  if wrap then .openParen :: es ++ [.closeParen] else es

end Edit

/-! ## The edits of a tree -/

def SimpleName.edits (n : SimpleName) : List Edit := [.name n.identifier]

def Name.edits : Name → List Edit
  | .simple n => n.edits
  | .qualified _ qualifier n _ => qualifier.edits ++ .token "." :: n.edits

/-- So many pairs of brackets. -/
def bracketEdits (count : Nat) : List Edit :=
  (List.replicate count [Edit.token "[", .token "]"]).flatten

/-- Of types that are not rendered there are no edits. -/
def TypeRef.edits : TypeRef → List Edit
  | .primitive _ p => [.primitive p]
  | .named _ n _ => n.edits
  | .array _ element dimensions => element.edits ++ bracketEdits dimensions.toNat
  | .parameterized .. | .wildcard _ => []

mutual

/-- An operand of a binary operator is put in parentheses where C# would group it otherwise. Of
expressions that are not rendered there are no edits. -/
def Expr.edits : Expr → List Edit
  | .name n => n.edits
  | .literal kind _ token => [.literal kind token]
  | .boolean _ value => [.token (if value then "true" else "false")]
  | .null _ => [.token "null"]
  | .this .. => [.token "this"]
  | .parenthesized _ inner => .token "(" :: inner.edits ++ [.token ")"]
  | .binary _ left op right more =>
    Edit.wrapped (left.wraps .csharp op true) left.edits ++ .token op.token ::
      Edit.wrapped (right.wraps .csharp op false) right.edits ++ Expr.linkEdits op more
  | .unary _ op operand => .token op.token :: operand.edits
  | .step _ operand op => operand.edits ++ [.token op.token]
  | .assign _ left op right => left.edits ++ .token op.token :: right.edits
  | .conditional _ condition positive negative =>
    condition.edits ++ .token "?" :: positive.edits ++ .token ":" :: negative.edits
  | .call _ receiver _ n arguments _ =>
    Expr.receiverEdits receiver ++ n.edits ++ Edit.arguments (Expr.allEdits arguments)
  | .superCall _ _ _ n arguments _ =>
    .superWord :: .token "." :: n.edits ++ Edit.arguments (Expr.allEdits arguments)
  | .field _ object n _ => object.edits ++ .token "." :: n.edits
  | .superField _ _ n _ => .superWord :: .token "." :: n.edits
  | .index _ array position => array.edits ++ .token "[" :: position.edits ++ [.token "]"]
  | .create _ _ _ type arguments _ =>
    .token "new" :: type.edits ++ Edit.arguments (Expr.allEdits arguments)
  | .cast _ type operand => .token "(" :: type.edits ++ .token ")" :: operand.edits
  | .instanceOf _ left type => left.edits ++ .instanceOfWord :: type.edits
  | .other .. => []

def Expr.allEdits : List Expr → List (List Edit)
  | [] => []
  | e :: es => e.edits :: Expr.allEdits es

/-- The further operands of a chain, each after its operator. -/
def Expr.linkEdits (op : BinaryOp) : List Expr → List Edit
  | [] => []
  | e :: es =>
    .token op.token :: Edit.wrapped (e.wraps .csharp op false) e.edits ++ Expr.linkEdits op es

/-- An object with the full stop after it. -/
def Expr.receiverEdits : Option Expr → List Edit
  | none => []
  | some e => e.edits ++ [.token "."]

end

/-- An initial value with the sign before it. -/
def initialEdits : Option Expr → List Edit
  | none => []
  | some e => .token "=" :: e.edits

def Fragment.edits (f : Fragment) : List Edit := f.name.edits ++ initialEdits f.initial

/-- A condition in parentheses. -/
def conditionEdits (condition : Expr) : List Edit :=
  .token "(" :: condition.edits ++ [.token ")"]

mutual

/-- Modifiers are left out: their trivia need not stay in place. -/
def Stmt.edits : Stmt → List Edit
  | .block _ statements => .token "\x7b" :: Stmt.allEdits statements ++ [.token "\x7d"]
  | .expression _ e => e.edits ++ [.token ";"]
  | .declare _ _ type fragments =>
    type.edits ++ Edit.separated (fragments.map Fragment.edits) ++ [.token ";"]
  | .returns _ value => .token "return" :: (value.elim [] Expr.edits) ++ [.token ";"]
  | .ifElse _ condition positive negative =>
    .token "if" :: conditionEdits condition ++ positive.edits ++ Stmt.elseEdits negative
  | .whileLoop _ condition body => .token "while" :: conditionEdits condition ++ body.edits
  | .doLoop _ body condition =>
    .token "do" :: body.edits ++ .token "while" :: conditionEdits condition ++ [.token ";"]
  | .empty _ => [.token ";"]
  | .jump word .. => [.token word.token, .token ";"]
  | .throws _ value => .token "throw" :: value.edits ++ [.token ";"]
  | .other .. => []

def Stmt.allEdits : List Stmt → List Edit
  | [] => []
  | stmt :: stmts => stmt.edits ++ Stmt.allEdits stmts

def Stmt.elseEdits : Option Stmt → List Edit
  | none => []
  | some stmt => .token "else" :: stmt.edits

end

end Lockstep.Tree

namespace Lockstep.Render

open Output Source Target Text Lockstep.Tree

/-- The script passes and writes what the edits say, one after another; besides it only copies
trivia. Only if `requires` holds may it note that a namespace is needed. -/
inductive InPlace (requires : Prop) : Script → List Edit → Prop where
  | nil : InPlace requires [] []
  | append : InPlace requires xs es → InPlace requires ys es' →
      InPlace requires (xs ++ ys) (es ++ es')
  | refuse : InPlace requires [.refuse e] es
  | enter : InPlace requires xs es → InPlace requires (.enter kind extent :: xs) es
  | swap (edit : Edit) : edit.isTrivia = false → edit.source = token.toList →
      edit.output = text.toList → InPlace requires [.swap token text] [edit]
  | emit (edit : Edit) : edit.isTrivia = false → edit.source = [] → edit.output = text.toList →
      InPlace requires [.emit text] [edit]
  | operator : InPlace requires [.operator token token false spaced] [.token token]
  | copyTrivia : InPlace requires [.copyTrivia] []
  | require : requires → InPlace requires [.require name] []
  | times : InPlace requires xs es → InPlace requires [.times n xs] (List.replicate n es).flatten
  | within : InPlace requires xs es → InPlace requires [.within declaration xs] es

variable {requires : Prop} {xs : Script} {es : List Edit} {ctx ctx' : Context}

/-- The cursor has passed the sources of the edits, their outputs have been written, and what they
call trivia is trivia. -/
structure Edited (ctx : Context) (edits : List Edit) (ctx' : Context) : Prop where
  passes : ctx.cursor.Passes (edits.flatMap Edit.source) ctx'.cursor
  writer_eq : ctx'.writer = ctx.writer.added (edits.flatMap Edit.output)
  runs : ∀ text, .trivia text ∈ edits → ∃ rest, Trivia.Runs text rest

namespace Edited

variable {edits edits' : List Edit} {mid : Context}

theorem refl (ctx : Context) : Edited ctx [] ctx :=
  ⟨.refl _, (Writer.added_nil _).symm, nofun⟩

theorem trans (h : Edited ctx edits mid) (h' : Edited mid edits' ctx') :
    Edited ctx (edits ++ edits') ctx' where
  passes := by
    rw [List.flatMap_append]
    exact h.passes.trans h'.passes
  writer_eq := by rw [List.flatMap_append, Writer.added_append, ← h.writer_eq, h'.writer_eq]
  runs text htext := by
    rcases List.mem_append.1 htext with htext | htext
    · exact h.runs text htext
    · exact h'.runs text htext

theorem trivia {text : List Char} {cursor : Cursor} (hpass : ctx.cursor.Passes text cursor)
    (hruns : Trivia.Runs text cursor.ahead) :
    Edited ctx [.trivia text] (ctx.moved cursor text) where
  passes := by
    rw [List.flatMap_singleton]
    exact hpass
  writer_eq := by
    rw [List.flatMap_singleton]
    rfl
  runs text' htext := by
    cases List.mem_singleton.1 htext
    exact ⟨_, hruns⟩

theorem single {edit : Edit} {cursor : Cursor} (hedit : edit.isTrivia = false)
    (hpass : ctx.cursor.Passes edit.source cursor) :
    Edited ctx [edit] (ctx.moved cursor edit.output) where
  passes := by
    rw [List.flatMap_singleton]
    exact hpass
  writer_eq := by
    rw [List.flatMap_singleton]
    rfl
  runs text htext := by
    cases List.mem_singleton.1 htext
    cases hedit

end Edited

/-- A run that succeeds makes the edits, with trivia between them. -/
theorem InPlace.edited (h : InPlace requires xs es) (hrun : Step.runAll xs ctx = .ok () ctx') :
    ∃ edits, edits.filter (!·.isTrivia) = es ∧ Edited ctx edits ctx' := by
  induction h generalizing ctx ctx' with
  | nil =>
    cases runAll_nil_ok.1 hrun
    exact ⟨[], rfl, .refl ctx⟩
  | append _ _ ih₁ ih₂ =>
    obtain ⟨mid, hrun₁, hrun₂⟩ := runAll_append_ok.1 hrun
    obtain ⟨edits₁, rfl, hedits₁⟩ := ih₁ hrun₁
    obtain ⟨edits₂, rfl, hedits₂⟩ := ih₂ hrun₂
    exact ⟨edits₁ ++ edits₂, List.filter_append .., hedits₁.trans hedits₂⟩
  | refuse => cases runAll_singleton_ok.1 hrun
  | enter _ ih =>
    obtain ⟨mid, henter, hrun⟩ := runAll_cons_ok.1 hrun
    cases enter_ok henter
    exact ih hrun
  | swap edit hedit hsource houtput =>
    obtain ⟨cursor, hpass, rfl⟩ := swap_ok (runAll_singleton_ok.1 hrun)
    rw [← hsource] at hpass
    rw [← houtput]
    exact ⟨[edit], by simp [hedit], .single hedit hpass⟩
  | emit edit hedit hsource houtput =>
    rw [write_ok (runAll_singleton_ok.1 hrun), ← houtput]
    exact ⟨[edit], by simp [hedit], .single hedit (hsource ▸ .refl _)⟩
  | @operator token spaced =>
    obtain ⟨cursor, move, rfl⟩ := swapOperator_ok (runAll_singleton_ok.1 hrun)
    have hbefore := Edited.trivia move.passes_before move.runs_before
    have htoken : Edited (ctx.moved move.start move.before) [.token token] _ :=
      .single rfl move.passes_token
    have hafter : Edited ((ctx.moved move.start move.before).moved move.stop token.toList)
        [.trivia move.after] _ := .trivia move.passes_after move.runs_after
    rw [move.written_unbalanced, ← Context.moved_moved ctx move.start,
      ← Context.moved_moved _ move.stop]
    exact ⟨_, rfl, (hbefore.trans htoken).trans hafter⟩
  | copyTrivia =>
    obtain ⟨text, cursor, hpass, hruns, -, rfl⟩ :=
      Step.run_copyTrivia_ok (runAll_singleton_ok.1 hrun)
    exact ⟨[.trivia text], rfl, .trivia hpass hruns⟩
  | require =>
    cases require_ok (runAll_singleton_ok.1 hrun)
    exact ⟨[], rfl, .refl _, (Writer.added_nil _).symm, nofun⟩
  | @times xs _ n _ ih =>
    replace hrun : repeated (Step.runAll xs) n ctx = .ok () ctx' := runAll_singleton_ok.1 hrun
    induction n generalizing ctx with
    | zero =>
      cases repeated_zero_ok.1 hrun
      exact ⟨[], rfl, .refl _⟩
    | succ n ihn =>
      obtain ⟨mid, hfirst, hrest⟩ := repeated_succ_ok.1 hrun
      obtain ⟨edits₁, hes₁, hedits₁⟩ := ih hfirst
      obtain ⟨edits₂, hes₂, hedits₂⟩ := ihn hrest
      refine ⟨edits₁ ++ edits₂, ?_, hedits₁.trans hedits₂⟩
      rw [List.filter_append, hes₁, hes₂, List.replicate_succ, List.flatten_cons]
  | within _ ih =>
    obtain ⟨mid, hsteps, rfl⟩ := inDeclaration_ok (runAll_singleton_ok.1 hrun)
    obtain ⟨edits, hes, hedits⟩ := ih hsteps
    exact ⟨edits, hes, hedits.passes, hedits.writer_eq, hedits.runs⟩

namespace InPlace

variable {es' : List Edit} {ys : Script} {kind : Kind} {extent : Extent}

theorem cons {x : Step} (h : InPlace requires [x] es) (h' : InPlace requires ys es') :
    InPlace requires (x :: ys) (es ++ es') := h.append h'

/-- A token that is kept. -/
theorem keep (token : String) : InPlace requires [.swap token token] [.token token] :=
  .swap _ rfl rfl rfl

theorem node {target : Target} (h : InPlace requires xs es) :
    InPlace requires (Script.node target kind extent xs) es := by
  unfold Script.node
  split
  · exact .enter h
  · exact .refuse

/-- A token with trivia before it. -/
theorem spaced (token : String) :
    InPlace requires [.copyTrivia, .swap token token] [.token token] :=
  .cons .copyTrivia (.keep token)

/-- A token with trivia on both sides. -/
theorem between (token : String) :
    InPlace requires [.copyTrivia, .swap token token, .copyTrivia] [.token token] :=
  .cons .copyTrivia (.cons (.keep token) .copyTrivia)

/-- A token with trivia after it. -/
theorem before (token : String) :
    InPlace requires [.swap token token, .copyTrivia] [.token token] :=
  .cons (.keep token) .copyTrivia

theorem wrapped (wrap : Bool) (h : InPlace requires xs es) :
    InPlace requires (Tree.wrapped wrap xs) (Edit.wrapped wrap es) := by
  cases wrap with
  | false => exact h
  | true =>
    have hopen : InPlace requires [.emit "("] [.openParen] := .emit _ rfl rfl rfl
    exact (hopen.append h).append (.emit .closeParen rfl rfl rfl)

variable {ι : Type} {items : List ι} {script : ι → Script} {edits : ι → List Edit}

theorem commaSeparated (h : ∀ x ∈ items, InPlace requires (script x) (edits x)) :
    InPlace requires (Script.commaSeparated (items.map script))
      (Edit.separated (items.map edits)) := by
  induction items with
  | nil => exact .nil
  | cons x rest ih =>
    have hfirst := InPlace.copyTrivia.append (h x List.mem_cons_self)
    have hrest := ih fun z hz => h z (List.mem_cons_of_mem x hz)
    cases rest with
    | nil => exact hfirst
    | cons y rest =>
      have hpair := (hfirst.append (spaced ",")).append hrest
      rw [List.append_assoc ([] ++ edits x)] at hpair
      exact hpair

theorem arguments (h : ∀ x ∈ items, InPlace requires (script x) (edits x)) :
    InPlace requires (Script.arguments (items.map script)) (Edit.arguments (items.map edits)) :=
  ((keep "(").append (commaSeparated h)).append (spaced ")")

end InPlace

end Lockstep.Render

namespace Lockstep.Tree

open Config Output Render Source Target

/-! ## The tables of C# -/

theorem csharp_memberAccess (isStatic : Bool) : Target.csharp.memberAccess isStatic = "." := by
  cases isStatic <;> rfl

theorem csharp_nameAccess (binding : Option MemberBinding) :
    nameAccess .csharp binding = "." := by
  cases binding with
  | none => rfl
  | some binding => exact csharp_memberAccess binding.isStatic

theorem csharp_memberAccess? (binding : Option MemberBinding) :
    memberAccess? .csharp binding = some "." := by
  cases binding with
  | none => rfl
  | some binding => exact congrArg some (csharp_memberAccess binding.isStatic)

/-! ## Names and types -/

/-- The use of a type needs a namespace only if `requires` holds. -/
def NeedsOnlyIf (s : Settings) (requires : Prop) : Prop :=
  ∀ name, (s.implicitImport? name).isSome = true → requires

variable {s : Settings} {requires : Prop}

theorem SimpleName.inPlace (ht : s.target = .csharp) (n : SimpleName) :
    InPlace requires (n.script s) n.edits := by
  rw [SimpleName.script, ht]
  exact .node (.swap (.name n.identifier) rfl rfl rfl)

theorem Name.inPlace (ht : s.target = .csharp) (n : Name) :
    InPlace requires (n.script s) n.edits := by
  induction n with
  | simple n => exact n.inPlace ht
  | qualified extent qualifier n binding ih =>
    rw [Name.script, Name.edits, ht, csharp_nameAccess, List.append_assoc]
    exact .node (ih.append ((InPlace.between ".").append (n.inPlace ht)))

theorem TypeRef.inPlace (ht : s.target = .csharp) (hr : NeedsOnlyIf s requires) (type : TypeRef)
    (h : type.KeepsNames .csharp) : InPlace requires (type.script s) type.edits := by
  match type with
  | .primitive extent p =>
    rw [TypeRef.script, ht]
    exact .node (.swap (.primitive p) rfl rfl rfl)
  | .named extent n none => exact .node (n.inPlace ht)
  | .named extent n (some binding) =>
    have hrequire : InPlace requires (binding.requirement s) [] := by
      unfold TypeBinding.requirement
      split
      · next name hname => exact .require (hr _ (Option.isSome_of_eq_some hname))
      · exact .nil
    rw [TypeRef.script, namedScript, ht, h binding rfl]
    exact .node (hrequire.append (n.inPlace ht))
  | .array extent element dimensions =>
    rw [TypeRef.script, ht]
    have hbrackets : InPlace requires [.times dimensions.toNat brackets]
        (bracketEdits dimensions.toNat) := .times ((InPlace.spaced "[").append (.spaced "]"))
    exact .node ((element.inPlace ht hr h).append hbrackets)
  | .parameterized extent base arguments => exact .node .refuse
  | .wildcard extent => exact .node .refuse

/-! ## Expressions -/

theorem Expr.allEdits_eq_map (es : List Expr) : Expr.allEdits es = es.map Expr.edits := by
  induction es with
  | nil => rfl
  | cons e es ih => rw [Expr.allEdits, ih, List.map_cons]

theorem memberScript_inPlace (ht : s.target = .csharp) (n : SimpleName) :
    InPlace requires (memberScript s "." n) (.token "." :: n.edits) :=
  (InPlace.between ".").append (n.inPlace ht)

theorem operator_inPlace (token : String) (spaced : Bool) :
    InPlace requires [Script.operator .csharp token token spaced] [.token token] := .operator

mutual

theorem Expr.inPlace (ht : s.target = .csharp) (hr : NeedsOnlyIf s requires) (e : Expr)
    (h : e.KeepsNames .csharp) :
    InPlace requires (e.script s) e.edits := by
  match e with
  | .name n => exact n.inPlace ht
  | .literal kind extent token =>
    rw [Expr.script, Expr.edits, literalScript, ht]
    split
    · next text htext =>
      have houtput : (Edit.literal kind token).output = text.toList := by
        rw [Edit.output, htext, Option.getD_some]
      exact .node (.swap _ rfl rfl houtput)
    · exact .node .refuse
  | .boolean extent value => exact .node (.keep _)
  | .null extent =>
    rw [Expr.script, ht]
    exact .node (.keep "null")
  | .this extent none =>
    rw [Expr.script, ht]
    exact .node (.keep "this")
  | .this extent (some qualifier) => exact .node .refuse
  | .parenthesized extent inner =>
    rw [Expr.script, Expr.edits]
    exact .node (((InPlace.before "(").append (inner.inPlace ht hr h)).append (.spaced ")"))
  | .binary extent left op right more =>
    have htoken : Target.csharp.binaryToken? op = some op.token := by cases op <;> rfl
    have hassoc : Target.csharp.nonAssociative op = false := by cases op <;> rfl
    have hleft := InPlace.wrapped (left.wraps .csharp op true) (left.inPlace ht hr h.1)
    have hright := InPlace.wrapped (right.wraps .csharp op false) (right.inPlace ht hr h.2.1)
    rw [Expr.script, Expr.edits, ht, htoken]
    simp only [binaryScript, hassoc, Bool.false_and, Bool.false_eq_true, if_false, List.nil_append]
    simp only [List.append_assoc]
    exact .node (hleft.append ((operator_inPlace op.token false).append
      (hright.append (Expr.linksInPlace ht hr op more h.2.2))))
  | .unary extent op operand =>
    have htoken : Target.csharp.unaryToken? op = some op.token := by cases op <;> rfl
    rw [Expr.script, Expr.edits, ht, htoken]
    exact .node ((InPlace.before op.token).append (operand.inPlace ht hr h))
  | .step extent operand op =>
    have htoken : Target.csharp.stepToken? op = some op.token := by cases op <;> rfl
    rw [Expr.script, Expr.edits, ht, htoken]
    exact .node ((operand.inPlace ht hr h).append (.spaced op.token))
  | .assign extent left op right =>
    have htoken : Target.csharp.assignToken? op = some op.token := by cases op <;> rfl
    rw [Expr.script, Expr.edits, ht, htoken]
    simp only [List.append_assoc]
    exact .node ((left.inPlace ht hr h.1).append
      ((operator_inPlace op.token false).append (right.inPlace ht hr h.2)))
  | .conditional extent condition positive negative =>
    rw [Expr.script, Expr.edits, ht]
    simp only [List.append_assoc]
    exact .node ((condition.inPlace ht hr h.1).append ((operator_inPlace "?" true).append
      ((positive.inPlace ht hr h.2.1).append ((operator_inPlace ":" true).append
        (negative.inPlace ht hr h.2.2)))))
  | .call extent receiver typeArguments n arguments none => exact .node .refuse
  | .call extent receiver typeArguments n arguments (some binding) =>
    rw [Expr.script, Expr.edits, Expr.allEdits_eq_map, Expr.scripts_eq_map, ht,
      csharp_memberAccess]
    split
    · exact .node .refuse
    · have hargs := InPlace.arguments (Expr.allInPlace ht hr arguments h.2.2)
      have hreceiver := (Expr.receiverInPlace ht hr receiver h.1).append (n.inPlace ht)
      rw [List.append_assoc _ _ (Script.arguments _)]
      exact .node (hreceiver.append (InPlace.copyTrivia.append hargs))
  | .superCall extent (some qualifier) typeArguments n arguments binding =>
    exact .node .refuse
  | .superCall extent none typeArguments n arguments none => exact .node .refuse
  | .superCall extent none typeArguments n arguments (some binding) =>
    rw [Expr.script, Expr.edits, Expr.allEdits_eq_map, Expr.scripts_eq_map, ht,
      csharp_memberAccess]
    simp only [Option.isSome_none, Bool.false_eq_true, if_false]
    split
    · exact .node .refuse
    · have hsuper : InPlace requires [.swap "super" "base"] [.superWord] := .swap _ rfl rfl rfl
      have hargs := InPlace.arguments (Expr.allInPlace ht hr arguments h.2)
      have hmember := hsuper.append (memberScript_inPlace ht n)
      exact .node ((hmember.append .copyTrivia).append hargs)
  | .field extent object n binding =>
    rw [Expr.script, Expr.edits, ht, csharp_memberAccess?]
    exact .node ((object.inPlace ht hr h).append (memberScript_inPlace ht n))
  | .superField extent qualifier n binding =>
    rw [Expr.script, Expr.edits, ht, csharp_memberAccess?]
    split
    · exact .node .refuse
    · have hsuper : InPlace requires [.swap "super" "base"] [.superWord] := .swap _ rfl rfl rfl
      exact .node (hsuper.append (memberScript_inPlace ht n))
  | .index extent array position =>
    rw [Expr.script, Expr.edits]
    simp only [List.append_assoc]
    exact .node ((array.inPlace ht hr h.1).append ((InPlace.between "[").append
      ((position.inPlace ht hr h.2).append (.spaced "]"))))
  | .create extent outer typeArguments type arguments body =>
    rw [Expr.script, Expr.edits, Expr.allEdits_eq_map, Expr.scripts_eq_map, ht]
    split
    · exact .node .refuse
    · split
      · exact .node .refuse
      · split
        · exact .node .refuse
        · have hargs := InPlace.arguments (Expr.allInPlace ht hr arguments h.2.2.2)
          simp only [List.append_assoc]
          exact .node ((InPlace.before "new").append ((type.inPlace ht hr h.2.2.1).append
            (InPlace.copyTrivia.append hargs)))
  | .cast extent type operand =>
    rw [Expr.script, Expr.edits]
    simp only [List.append_assoc]
    exact .node ((InPlace.before "(").append ((type.inPlace ht hr h.1).append
      ((InPlace.between ")").append (operand.inPlace ht hr h.2))))
  | .instanceOf extent left type =>
    have hword : InPlace requires [.copyTrivia, .swap "instanceof" "is", .copyTrivia]
        [.instanceOfWord] :=
      .cons .copyTrivia (.cons (.swap .instanceOfWord rfl rfl rfl) .copyTrivia)
    rw [Expr.script, Expr.edits, ht]
    simp only [List.append_assoc]
    exact .node ((left.inPlace ht hr h.1).append (hword.append (type.inPlace ht hr h.2)))
  | .other form extent => exact .node .refuse

theorem Expr.linksInPlace (ht : s.target = .csharp) (hr : NeedsOnlyIf s requires)
    (op : BinaryOp) (more : List Expr) (h : Expr.AllKeepNames .csharp more) :
    InPlace requires (chainScript .csharp op.token op.token false (Expr.operandScripts s op more))
      (Expr.linkEdits op more) := by
  match more with
  | [] => exact .nil
  | e :: es =>
    have hoperand := InPlace.wrapped (e.wraps .csharp op false) (e.inPlace ht hr h.1)
    rw [Expr.operandScripts, Expr.linkEdits, ht]
    exact (((InPlace.nil).append (operator_inPlace op.token false)).append hoperand).append
      (Expr.linksInPlace ht hr op es h.2)

theorem Expr.receiverInPlace (ht : s.target = .csharp) (hr : NeedsOnlyIf s requires)
    (receiver : Option Expr) (h : Expr.OptionKeepsNames .csharp receiver) :
    InPlace requires (Expr.receiverScript s "." receiver) (Expr.receiverEdits receiver) := by
  match receiver with
  | none => exact .nil
  | some e => exact (e.inPlace ht hr h).append (.between ".")

theorem Expr.allInPlace (ht : s.target = .csharp) (hr : NeedsOnlyIf s requires) (es : List Expr)
    (h : Expr.AllKeepNames .csharp es) : ∀ e ∈ es, InPlace requires (e.script s) e.edits := by
  match es with
  | [] => exact nofun
  | e :: es => exact List.forall_mem_cons.2 ⟨e.inPlace ht hr h.1, Expr.allInPlace ht hr es h.2⟩

end

/-! ## Statements -/

mutual

/-- No type in the statement is replaced by a type of C#, and no declaration in it has modifiers. -/
def Stmt.StaysInPlace : Stmt → Prop
  | .block _ statements => Stmt.AllStayInPlace statements
  | .expression _ e | .throws _ e => e.KeepsNames .csharp
  | .declare _ modifiers type fragments =>
    modifiers = [] ∧ type.KeepsNames .csharp ∧
      ∀ f ∈ fragments, Expr.OptionKeepsNames .csharp f.initial
  | .returns _ value => Expr.OptionKeepsNames .csharp value
  | .ifElse _ condition positive negative =>
    condition.KeepsNames .csharp ∧ positive.StaysInPlace ∧ Stmt.OptionStaysInPlace negative
  | .whileLoop _ condition body | .doLoop _ body condition =>
    condition.KeepsNames .csharp ∧ body.StaysInPlace
  | .empty _ | .jump .. | .other .. => True

def Stmt.AllStayInPlace : List Stmt → Prop
  | [] => True
  | stmt :: stmts => stmt.StaysInPlace ∧ Stmt.AllStayInPlace stmts

def Stmt.OptionStaysInPlace : Option Stmt → Prop
  | none => True
  | some stmt => stmt.StaysInPlace

end

theorem terminator_inPlace : InPlace requires (Script.terminator .csharp) [.token ";"] :=
  .spaced ";"

theorem Fragment.inPlace (ht : s.target = .csharp) (hr : NeedsOnlyIf s requires) (f : Fragment)
    (h : Expr.OptionKeepsNames .csharp f.initial) : InPlace requires (f.body s none) f.edits := by
  unfold Fragment.body
  split
  · exact .refuse
  · rw [ht]
    have hname : InPlace requires (f.name.script s ++ []) (f.name.edits ++ []) :=
      (f.name.inPlace ht).append .nil
    refine hname.append ?_
    cases hf : f.initial with
    | none => exact .nil
    | some e =>
      rw [hf] at h
      exact (operator_inPlace "=" false).append (e.inPlace ht hr h)

theorem conditionScript_inPlace (ht : s.target = .csharp) (hr : NeedsOnlyIf s requires)
    (condition : Expr) (h : condition.KeepsNames .csharp) :
    InPlace requires (conditionScript s condition) (conditionEdits condition) :=
  ((InPlace.between "(").append (condition.inPlace ht hr h)).append (.spaced ")")

theorem checkBody_inPlace (word : String) (body : Stmt) :
    InPlace requires (checkBody .csharp word body) [] := .nil

mutual

theorem Stmt.inPlace (ht : s.target = .csharp) (hr : NeedsOnlyIf s requires) (stmt : Stmt)
    (h : stmt.StaysInPlace) :
    InPlace requires (stmt.script s) stmt.edits := by
  match stmt with
  | .block extent statements =>
    rw [Stmt.script, Stmt.edits]
    exact .node (((InPlace.keep "\x7b").append (Stmt.allInPlace ht hr statements h)).append
      (.spaced "\x7d"))
  | .expression extent e =>
    rw [Stmt.script, Stmt.edits, ht]
    exact .node ((e.inPlace ht hr h).append terminator_inPlace)
  | .declare extent modifiers type fragments =>
    obtain ⟨rfl, htype, hfragments⟩ := h
    rw [Stmt.script, Stmt.edits, variablesScript, ht]
    have hmodifiers : InPlace requires (modifiersScript s .localVariable []) [] :=
      .within .copyTrivia
    have hvariables := InPlace.commaSeparated (ι := Fragment)
      fun f hf => f.inPlace ht hr (hfragments f hf)
    exact .node ((hmodifiers.append ((type.inPlace ht hr htype).append hvariables)).append
      terminator_inPlace)
  | .returns extent none =>
    rw [Stmt.script, ht]
    exact .node ((InPlace.keep "return").append terminator_inPlace)
  | .returns extent (some value) =>
    rw [Stmt.script, Stmt.edits, ht]
    exact .node (((InPlace.keep "return").append (InPlace.copyTrivia.append
      (value.inPlace ht hr h))).append terminator_inPlace)
  | .ifElse extent condition positive negative =>
    rw [Stmt.script, Stmt.edits, ht]
    simp only [List.append_assoc]
    exact .node ((InPlace.keep "if").append ((conditionScript_inPlace ht hr condition h.1).append
      ((checkBody_inPlace "if" positive).append (InPlace.copyTrivia.append
        ((positive.inPlace ht hr h.2.1).append (Stmt.elseInPlace ht hr negative h.2.2))))))
  | .whileLoop extent condition body =>
    rw [Stmt.script, Stmt.edits, ht]
    simp only [List.append_assoc]
    exact .node ((InPlace.keep "while").append ((conditionScript_inPlace ht hr condition h.1).append
      ((checkBody_inPlace "while" body).append (InPlace.copyTrivia.append
        (body.inPlace ht hr h.2)))))
  | .doLoop extent body condition =>
    rw [Stmt.script, Stmt.edits, ht]
    simp only [List.append_assoc]
    exact .node ((InPlace.keep "do").append ((checkBody_inPlace "do" body).append
      (InPlace.copyTrivia.append ((body.inPlace ht hr h.2).append ((InPlace.spaced "while").append
        ((conditionScript_inPlace ht hr condition h.1).append terminator_inPlace))))))
  | .empty extent =>
    rw [Stmt.script, ht]
    exact .node (.keep ";")
  | .jump word extent none =>
    rw [Stmt.script, ht]
    exact .node ((InPlace.keep word.token).append terminator_inPlace)
  | .jump word extent (some label) => exact .node .refuse
  | .throws extent value =>
    rw [Stmt.script, Stmt.edits, ht]
    exact .node (((InPlace.before "throw").append (value.inPlace ht hr h)).append
      terminator_inPlace)
  | .other form extent => exact .node .refuse

theorem Stmt.allInPlace (ht : s.target = .csharp) (hr : NeedsOnlyIf s requires) (stmts : List Stmt)
    (h : Stmt.AllStayInPlace stmts) :
    InPlace requires (Stmt.scripts s stmts) (Stmt.allEdits stmts) := by
  match stmts with
  | [] => exact .nil
  | stmt :: rest =>
    exact (InPlace.copyTrivia.append (stmt.inPlace ht hr h.1)).append
      (Stmt.allInPlace ht hr rest h.2)

theorem Stmt.elseInPlace (ht : s.target = .csharp) (hr : NeedsOnlyIf s requires)
    (negative : Option Stmt) (h : Stmt.OptionStaysInPlace negative) :
    InPlace requires (Stmt.elseScript s negative) (Stmt.elseEdits negative) := by
  match negative with
  | none => exact .nil
  | some stmt =>
    rw [Stmt.elseScript, Stmt.elseEdits, ht]
    have hcheck :
        InPlace requires (if stmt.isIf then [] else checkBody .csharp "else" stmt) [] := by
      split
      · exact .nil
      · exact checkBody_inPlace "else" stmt
    exact ((InPlace.spaced "else").append hcheck).append
      (InPlace.copyTrivia.append (stmt.inPlace ht hr h))

end

/-! ## Nodes -/

/-- No type in the node is replaced by a type of C#, and no declaration in it has modifiers. -/
def Node.StaysInPlace : Node → Prop
  | .expr e => e.KeepsNames .csharp
  | .stmt t => t.StaysInPlace
  | _ => False

/-- The edits of an expression or a statement. -/
def Node.edits : Node → List Edit
  | .expr e => e.edits
  | .stmt t => t.edits
  | _ => []

/-- What is written in C# for an expression or a statement is its source, edited in place: the
edits other than trivia are those of the tree, and the trivia between them are kept. -/
theorem Node.render_edits (ht : s.target = .csharp) {node : Node} (h : node.StaysInPlace)
    {ctx ctx' : Context} (hindent : ctx.writer.indentation = 0)
    (hrun : node.render s ctx = .ok () ctx') :
    ∃ edits : List Edit,
      ctx.cursor.Passes (edits.flatMap Edit.source) ctx'.cursor ∧
      ctx'.writer.current = ctx.writer.current ++ String.ofList (edits.flatMap Edit.output) ∧
      edits.filter (!·.isTrivia) = node.edits ∧
      ∀ text, .trivia text ∈ edits → ∃ rest, Trivia.Runs text rest := by
  obtain ⟨xs, hxs, hplace⟩ :
      ∃ xs, Step.runAll xs ctx = .ok () ctx' ∧ InPlace True xs node.edits := by
    cases node with
    | expr e => exact ⟨e.script s, hrun, e.inPlace ht (fun _ _ => trivial) h⟩
    | stmt t => exact ⟨t.script s, hrun, t.inPlace ht (fun _ _ => trivial) h⟩
    | _ => exact h.elim
  obtain ⟨edits, hedits, hpasses, hwriter, hruns⟩ := hplace.edited hxs
  refine ⟨edits, hpasses, ?_, hedits, hruns⟩
  rw [hwriter, Writer.current_added_of_indentation_eq_zero hindent]

/-- The edits that a return statement undergoes: a word that is reserved and a number in base 8. -/
theorem Node.render_edits_return :
    ∃ after, ∃ edits : List Edit, Node.render (.ofTarget .csharp)
        (.stmt (.returns ⟨0, 27⟩ (some (.binary ⟨7, 26⟩ (.name (.simple ⟨⟨7, 13⟩, "object"⟩)) .plus
          (.literal .number ⟨23, 26⟩ "010") []))))
        (.start "return object /* b */+ 010;" true) = .ok () after ∧
      (Cursor.ofText "return object /* b */+ 010;").Passes (edits.flatMap Edit.source)
        after.cursor ∧
      after.writer.current = "" ++ String.ofList (edits.flatMap Edit.output) ∧
      edits.filter (!·.isTrivia) =
        [.token "return", .name "object", .token "+", .literal .number "010", .token ";"] := by
  obtain ⟨after, hrun, _⟩ := runFrom_ok
    (by decide +kernel : runFrom "return object /* b */+ 010;" true
      (Node.render (.ofTarget .csharp) (.stmt (.returns ⟨0, 27⟩ (some (.binary ⟨7, 26⟩
        (.name (.simple ⟨⟨7, 13⟩, "object"⟩)) .plus (.literal .number ⟨23, 26⟩ "010") []))))) =
      ⟨none, "return @object /* b */+ 0x8;"⟩)
  have hplace : Node.StaysInPlace (.stmt (.returns ⟨0, 27⟩ (some (.binary ⟨7, 26⟩
      (.name (.simple ⟨⟨7, 13⟩, "object"⟩)) .plus (.literal .number ⟨23, 26⟩ "010") [])))) :=
    ⟨trivial, trivial, trivial⟩
  obtain ⟨edits, hpasses, hwritten, hedits, _⟩ := Node.render_edits rfl hplace rfl hrun
  exact ⟨after, edits, hrun, hpasses, hwritten, hedits⟩

end Lockstep.Tree
