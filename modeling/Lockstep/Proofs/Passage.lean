import Lockstep.Proofs.NodeLayout
import Lockstep.Proofs.Walk
import Lockstep.Render.Stmt

/-!
# Relations on scripts that follow the layouts

The script of a node is put together from few kinds of steps, in the order of its layout. `Passage`
lists what a relation between scripts and layouts has to be closed under to hold of every node, so
that the recursion over the trees is made once (`TypeRef.passes`, `Expr.passes`, `Stmt.passes`).

Where a target leaves out a part of the source, a relation may have a condition; the parts that are
left out of a node are listed by `TypeRef.omissions`, `Expr.omissions` and `Stmt.omissions`.
-/

namespace Lockstep.Tree

open Config Target Text

/-! ## What is left out -/

/-- A part of a source that is passed as a whole, or in which trivia are passed and not copied. -/
inductive Omission where
  /-- From `new` to the type. -/
  | newGap (extent : Extent)
  /-- Between a step that becomes an assignment and its operand. -/
  | stepGap (extent : Extent)
  /-- The brackets of an array type, from the end of the element type on. -/
  | brackets (extent : Extent)
  /-- A type that is replaced by one of the target. -/
  | wellKnown (extent : Extent)
  /-- An annotation. -/
  | mark (extent : Extent)
  deriving DecidableEq, Repr

namespace Omission

def extent : Omission → Extent
  | .newGap extent | .stepGap extent | .brackets extent | .wellKnown extent
  | .mark extent => extent

/-- The part is passed as a whole, whatever it holds. -/
def Replaces : Omission → Prop
  | .wellKnown _ | .mark _ => True
  | .newGap _ | .stepGap _ | .brackets _ => False

end Omission

/-- Types that are not rendered leave out nothing. -/
def TypeRef.omissions (target : Target) : TypeRef → List Omission
  | .named extent _ binding =>
    if (binding.bind (target.wellKnownType? ·.qualifiedName)).isSome then [.wellKnown extent]
    else []
  | .array extent element _ =>
    (if target == .swift then [.brackets ⟨element.extent.stop, extent.stop⟩] else []) ++
      element.omissions target
  | .primitive .. | .parameterized .. | .wildcard _ => []

mutual

def Expr.omissions (target : Target) : Expr → List Omission
  | .name _ | .literal .. | .boolean .. | .null _ | .this .. | .superField .. | .other .. => []
  | .parenthesized _ inner => inner.omissions target
  | .binary _ left _ right more =>
    left.omissions target ++ right.omissions target ++ Expr.allOmissions target more
  | .unary _ _ operand | .step _ operand _ => operand.omissions target
  | .assign _ left _ right => left.omissions target ++ right.omissions target
  | .conditional _ condition positive negative =>
    condition.omissions target ++ positive.omissions target ++ negative.omissions target
  | .call _ receiver _ _ arguments _ =>
    Expr.optionOmissions target receiver ++ Expr.allOmissions target arguments
  | .superCall _ _ _ _ arguments _ => Expr.allOmissions target arguments
  | .field _ object _ _ => object.omissions target
  | .index _ array position => array.omissions target ++ position.omissions target
  | .create extent _ _ type arguments _ =>
    (if target == .swift then [.newGap ⟨extent.pos, type.extent.pos⟩] else []) ++
      type.omissions target ++ Expr.allOmissions target arguments
  | .cast _ type operand => type.omissions target ++ operand.omissions target
  | .instanceOf _ left type => left.omissions target ++ type.omissions target

def Expr.allOmissions (target : Target) : List Expr → List Omission
  | [] => []
  | e :: es => e.omissions target ++ Expr.allOmissions target es

def Expr.optionOmissions (target : Target) : Option Expr → List Omission
  | none => []
  | some e => e.omissions target

end

/-- What an expression leaves out that is a statement of its own. -/
def stepOmissions (target : Target) : Expr → List Omission
  | .unary extent .increment operand | .unary extent .decrement operand =>
    if target == .swift then [.stepGap ⟨extent.pos, operand.extent.pos⟩] else []
  | .step extent operand _ =>
    if target == .swift then [.stepGap ⟨operand.extent.stop, extent.stop⟩] else []
  | _ => []

def Modifier.omissions : Modifier → List Omission
  | .word .. => []
  | .annotated mark => [.mark mark.extent]

def Fragment.omissions (target : Target) (f : Fragment) : List Omission :=
  Expr.optionOmissions target f.initial

mutual

def Stmt.omissions (target : Target) : Stmt → List Omission
  | .block _ statements => Stmt.allOmissions target statements
  | .expression _ e => stepOmissions target e ++ e.omissions target
  | .declare _ modifiers type fragments =>
    modifiers.flatMap Modifier.omissions ++ type.omissions target ++
      fragments.flatMap (Fragment.omissions target)
  | .returns _ value => Expr.optionOmissions target value
  | .ifElse _ condition positive negative =>
    condition.omissions target ++ positive.omissions target ++ Stmt.elseOmissions target negative
  | .whileLoop _ condition body | .doLoop _ body condition =>
    condition.omissions target ++ body.omissions target
  | .throws _ value => value.omissions target
  | .empty _ | .jump .. | .other .. => []

def Stmt.allOmissions (target : Target) : List Stmt → List Omission
  | [] => []
  | stmt :: stmts => stmt.omissions target ++ Stmt.allOmissions target stmts

def Stmt.elseOmissions (target : Target) : Option Stmt → List Omission
  | none => []
  | some stmt => stmt.omissions target

end

mutual

/-- The declarations of variables in a statement. -/
def Stmt.declarations : Stmt → List (TypeRef × List Fragment)
  | .block _ statements => Stmt.allDeclarations statements
  | .declare _ _ type fragments => [(type, fragments)]
  | .ifElse _ _ positive negative => positive.declarations ++ Stmt.elseDeclarations negative
  | .whileLoop _ _ body | .doLoop _ body _ => body.declarations
  | .expression .. | .returns .. | .empty _ | .jump .. | .throws .. | .other .. => []

def Stmt.allDeclarations : List Stmt → List (TypeRef × List Fragment)
  | [] => []
  | stmt :: stmts => stmt.declarations ++ Stmt.allDeclarations stmts

def Stmt.elseDeclarations : Option Stmt → List (TypeRef × List Fragment)
  | none => []
  | some stmt => stmt.declarations

end

/-! ## Scripts of lists -/

theorem Expr.scripts_eq_map (s : Settings) (es : List Expr) :
    Expr.scripts s es = es.map (Expr.script s) := by
  induction es with
  | nil => rfl
  | cons e es ih => rw [Expr.scripts, ih, List.map_cons]

theorem Expr.operandScripts_eq_map (s : Settings) (op : BinaryOp) (es : List Expr) :
    Expr.operandScripts s op es =
      es.map fun e => wrapped (e.wraps s.target op false) (e.script s) := by
  induction es with
  | nil => rfl
  | cons e es ih => rw [Expr.operandScripts, ih, List.map_cons]

/-- An initial value with the sign before it. -/
def initialScript (s : Settings) : Option Expr → Render.Script
  | some e => [Render.Script.operator s.target "=" "=" false] ++ e.script s
  | none => []

end Lockstep.Tree

namespace Lockstep

open Config Render Target Text

namespace Render

/-! ## Sequences -/

/-- What follows the first of several scripts with commas between them. -/
def Script.afterFirst : List Script → Script
  | [] => []
  | x :: rest => [.copyTrivia, keep ","] ++ commaSeparated (x :: rest)

theorem Script.commaSeparated_cons (x : Script) (rest : List Script) :
    commaSeparated (x :: rest) = .copyTrivia :: x ++ afterFirst rest := by
  cases rest with
  | nil => exact (List.append_nil _).symm
  | cons y rest => exact List.append_assoc ..

/-- The relation holds of the steps that pass a token or trivia and of nodes, and of what is put
together from them. -/
structure Sequence (R : Stance → Script → List Tree.Layout → Stance → Prop) : Prop where
  nil {a : Stance} : R a [] [] a
  append {a b c : Stance} {xs ys : Script} {fs gs : List Tree.Layout} :
    R a xs fs b → R b ys gs c → R a (xs ++ ys) (fs ++ gs) c
  refuse {e : RenderError} {f : Tree.Layout} {b : Stance} :
    e.IsRefusal → R .ready [.refuse e] [f] b
  entered {target : Target} {kind : Tree.Kind} {extent : Extent} {body : Script}
    {f : Tree.Layout} {b : Stance} : f.extent? = some extent → R .ready body [f] b →
    R .ready (Script.node target kind extent body) [f] b
  parts {extent : Extent} {xs : Script} {fs : List Tree.Layout} {b : Stance} :
    fs ≠ [] → b ≠ .ready → R .ready xs fs b → R .ready xs [.node extent fs] b
  swap {token text : String} : R .ready [.swap token text] [.token token] .done
  emit {a : Stance} {text : String} : R a [.emit text] [] a
  copyTrivia {a : Stance} : R a [.copyTrivia] [] .ready

namespace Sequence

variable {R : Stance → Script → List Tree.Layout → Stance → Prop} (p : Sequence R)
  {a b c : Stance} {xs : Script} {f g : Tree.Layout} {fs gs : List Tree.Layout}
  {target : Target} {kind : Tree.Kind} {extent : Extent} {body : Script}

include p

theorem cons {x : Step} (h : R a [x] fs b) (h' : R b xs gs c) : R a (x :: xs) (fs ++ gs) c :=
  p.append h h'

theorem node (hne : fs ≠ []) (h : R .ready body fs .done) :
    R .ready (Script.node target kind extent body) [.node extent fs] .done :=
  p.entered rfl (p.parts hne Stance.done_ne_ready h)

/-- A node that is a single token. -/
theorem leaf {token text : String} :
    R .ready (Script.node target kind extent [.swap token text]) [.node extent [.token token]]
      .done :=
  p.node (List.cons_ne_nil _ _) p.swap

theorem refused {refusal : Refusal} {kind' : Tree.Kind} {extent' : Extent}
    (hf : f.extent? = some extent) :
    R .ready (Script.node target kind extent (Script.refuse target refusal kind' extent')) [f]
      .done :=
  p.entered hf (p.refuse trivial)

theorem unbound {name : String} {extent' : Extent} (hf : f.extent? = some extent) :
    R .ready (Script.node target kind extent (Script.missingBinding name extent')) [f] .done :=
  p.entered hf (p.refuse trivial)

theorem word (token text : String) : R .ready [.swap token text] [.token token] .done :=
  p.swap

/-- A token after trivia. -/
theorem spaced (token text : String) : R a [.copyTrivia, .swap token text] [.token token] .done :=
  p.cons p.copyTrivia p.swap

/-- A token with trivia on both sides. -/
theorem between (token text : String) :
    R a [.copyTrivia, .swap token text, .copyTrivia] [.token token] .ready :=
  p.cons p.copyTrivia (p.cons p.swap p.copyTrivia)

/-- A token with trivia after it. -/
theorem before (token text : String) :
    R .ready [.swap token text, .copyTrivia] [.token token] .ready :=
  p.cons p.swap p.copyTrivia

theorem terminator (target : Target) : R a (Script.terminator target) [.token ";"] .done :=
  p.spaced ";" _

variable {ι : Type} {items : List ι} {script : ι → Script} {layout : ι → Tree.Layout}

theorem commaSeparated (h : ∀ x ∈ items, R .ready (script x) [layout x] .done) :
    R .done (Script.commaSeparated (items.map script))
      (Tree.Layout.separated (items.map layout)) .done := by
  induction items with
  | nil => exact p.nil
  | cons x rest ih =>
    have hfirst : R .done (.copyTrivia :: script x) [layout x] .done :=
      p.cons p.copyTrivia (h x List.mem_cons_self)
    have hrest := ih fun z hz => h z (List.mem_cons_of_mem x hz)
    cases rest with
    | nil => exact hfirst
    | cons y rest => exact p.append (p.append hfirst (p.spaced "," ",")) hrest

/-- What follows the first of several scripts. -/
theorem afterFirst (h : ∀ x ∈ items, R .ready (script x) [layout x] .done) :
    R .done (Script.afterFirst (items.map script))
      (Tree.Layout.afterFirst (items.map layout)) .done := by
  cases items with
  | nil => exact p.nil
  | cons x rest => exact p.append (p.spaced "," ",") (p.commaSeparated h)

theorem arguments (h : ∀ x ∈ items, R .ready (script x) [layout x] .done) :
    R .ready (Script.arguments (items.map script))
      (Tree.argumentLayouts (items.map layout)) .done :=
  p.append (p.append p.swap (p.commaSeparated h)) (p.spaced ")" ")")

/-- A declaration of which the modifiers and the variables are passed. -/
theorem declaration {ys : Script} (h : R .ready xs fs .ready) (h' : R .ready ys (f :: gs) .done) :
    R .ready (xs ++ (ys ++ Script.terminator target))
      [.node extent (fs ++ f :: (gs ++ [.token ";"]))] .done :=
  p.parts (List.append_ne_nil_of_right_ne_nil _ (List.cons_ne_nil _ _)) Stance.done_ne_ready
    (p.append h (p.append h' (p.terminator target)))

/-- A script that only writes passes nothing. -/
theorem emits (h : ∀ x ∈ xs, ∃ text, x = .emit text) : R a xs [] a := by
  induction xs with
  | nil => exact p.nil
  | cons x xs ih =>
    obtain ⟨text, rfl⟩ := h x List.mem_cons_self
    exact p.cons p.emit (ih fun y hy => h y (List.mem_cons_of_mem _ hy))

theorem wrapped (wrap : Bool) (h : R .ready xs [f] .done) :
    R .ready (Tree.wrapped wrap xs) [f] .done := by
  unfold Tree.wrapped
  split
  · exact p.append (p.append p.emit h) p.emit
  · exact h

end Sequence

/-! ## Passages -/

/-- The relation holds of all steps that the scripts of nodes are made of, and of what is put
together from them. -/
structure Passage (s : Settings) (R : Stance → Script → List Tree.Layout → Stance → Prop)
    (omits : Tree.Omission → Prop) (declares : Tree.TypeRef → List Tree.Fragment → Prop) : Prop
    extends Sequence R where
  halt {e : RenderError} {a : Stance} : e.IsRefusal → R a [.refuse e] [] a
  operator {a : Stance} {token text : String} {balanced spaced : Bool} :
    R a [.operator token text balanced spaced] [.token token] .ready
  modifier {target : Target} {word : Tree.ModifierWord} {extent : Extent} :
    R .ready [.modifier target word extent] [.token word.token] .loose
  require {a : Stance} {name : String} : R a [.require name] [] a
  skipBlanks {a : Stance} : a ≠ .ready → R a [.skipBlanks] [] .loose
  skipLineRest {a : Stance} : a ≠ .ready → R a [.skipLineRest] [] .loose
  loosen {a : Stance} {xs : Script} {fs : List Tree.Layout} : R a xs fs .done → R a xs fs .loose
  within {a b : Stance} {declaration : Declaration} {xs : Script} {fs : List Tree.Layout} :
    R a xs fs b → R a [.within declaration xs] fs b
  times {a : Stance} {n : Nat} {xs : Script} {fs : List Tree.Layout} :
    R a xs fs a → R a [.times n xs] (List.replicate n fs).flatten a
  /-- A type of the target takes the place of a type. -/
  replaceType {x : Extent} {name : Tree.Name} {text : String} : omits (.wellKnown x) →
    R .ready [.replace x text] [.node x [name.layout]] .done
  replaceMark {x : Extent} {name : Tree.Name} {text : String} : omits (.mark x) →
    R .ready [.replace x text] [.node x [.token "@", name.layout]] .done
  newWord {extent x : Extent} {xs : Script} {f : Tree.Layout} {fs : List Tree.Layout} :
    omits (.newGap ⟨extent.pos, x.pos⟩) → f.extent? = some x → R .ready xs (f :: fs) .done →
    R .ready ([Script.drop "new", .skipTrivia] ++ xs) [.node extent (.token "new" :: f :: fs)]
      .done
  stepBefore {extent x : Extent} {token : String} {xs : Script} {f : Tree.Layout} :
    omits (.stepGap ⟨extent.pos, x.pos⟩) → f.extent? = some x → R .ready xs [f] .done →
    R .ready ([Script.drop token, .skipTrivia] ++ xs) [.node extent [.token token, f]] .done
  stepAfter {extent x : Extent} {token text : String} {xs : Script} {f : Tree.Layout} :
    omits (.stepGap ⟨x.stop, extent.stop⟩) → f.extent? = some x → R .ready xs [f] .done →
    R .ready (xs ++ [.skipTrivia, .swap token text]) [.node extent [f, .token token]] .done
  brackets {extent x : Extent} {n : Nat} {xs : Script} {f : Tree.Layout} :
    omits (.brackets ⟨x.stop, extent.stop⟩) → f.extent? = some x → R .ready xs [f] .done →
    R .ready (xs ++ [.times n Tree.closingBracket]) [.node extent (f :: Tree.bracketLayouts n)]
      .done
  /-- The left side of an assignment is read once more. -/
  assign {target : Target} {token : String} {extent x : Extent} {left right : Script}
    {f g : Tree.Layout} : f.extent? = some x → R .ready left [f] .done →
    R .ready right [g] .done →
    R .ready (Tree.assignByCall target token x.start left right)
      [.node extent [f, .token token, g]] .done
  /-- The type of a declaration may be rendered after the names. -/
  declared {extent : Extent} (modifiers : List Tree.Modifier) {xs : Script}
    {fs : List Tree.Layout} {type : Tree.TypeRef} {fragments : List Tree.Fragment} :
    declares type fragments → R .ready xs fs .ready → R .ready (type.script s) [type.layout] .done →
    (∀ f ∈ fragments,
      R .done (Tree.initialScript s f.initial) (Tree.initialLayouts f.initial) .done) →
    R .ready (xs ++ (Tree.variablesScript s modifiers type fragments ++
        Script.terminator s.target))
      [.node extent (fs ++ type.layout ::
        (Tree.Layout.separated (fragments.map Tree.Fragment.layout) ++ [.token ";"]))] .done

namespace Passage

variable {s : Settings} {R : Stance → Script → List Tree.Layout → Stance → Prop}
  {omits : Tree.Omission → Prop} {declares : Tree.TypeRef → List Tree.Fragment → Prop}
  (p : Passage s R omits declares) {f g : Tree.Layout} {target : Target}
  {ι : Type} {items : List ι} {script : ι → Script} {layout : ι → Tree.Layout}

include p

theorem chain {token text : String} {grouped : Bool}
    (h : ∀ x ∈ items, R .ready (script x) [layout x] .done) :
    R .done (Tree.chainScript target token text grouped (items.map script))
      (Tree.Layout.links token (items.map layout)) .done := by
  induction items with
  | nil => exact p.nil
  | cons x rest ih =>
    have hclose : R .done (if grouped then [.emit ")"] else []) [] .done := by
      split
      · exact p.emit
      · exact p.nil
    have hlink : R .done [Script.operator target token text false] [.token token] .ready :=
      p.operator
    have hx := h x List.mem_cons_self
    have hrest := ih fun y hy => h y (List.mem_cons_of_mem x hy)
    exact p.append (p.append (p.append hclose hlink) hx) hrest

theorem callOperands {token : String} (h : ∀ x ∈ items, R .ready (script x) [layout x] .done) :
    R .done (Tree.callOperands token (items.map script))
      (Tree.Layout.links token (items.map layout)) .done := by
  induction items with
  | nil => exact p.nil
  | cons x rest ih =>
    have hcomma := p.cons (p.skipBlanks Stance.done_ne_ready) (p.between token ",")
    have hx := h x List.mem_cons_self
    have hrest := ih fun y hy => h y (List.mem_cons_of_mem x hy)
    exact p.append (p.append (p.append hcomma hx) p.emit) hrest

/-- A chain of operands with an operator between them. -/
theorem binary {op : Tree.BinaryOp} {text : String} {left right : Script}
    (hleft : R .ready left [f] .done) (hright : R .ready right [g] .done)
    (h : ∀ x ∈ items, R .ready (script x) [layout x] .done) :
    R .ready (Tree.binaryScript target op text left right (items.map script))
      (f :: .token op.token :: g :: Tree.Layout.links op.token (items.map layout)) .done := by
  unfold Tree.binaryScript
  generalize (target.nonAssociative op && !(items.map script).isEmpty) = grouped
  have hopen : R .ready
      (if grouped then (items.map script).map fun _ => .emit "(" else []) [] .ready := by
    split
    · refine p.emits fun x hx => ?_
      obtain ⟨_, _, rfl⟩ := List.mem_map.1 hx
      exact ⟨_, rfl⟩
    · exact p.nil
  have hop : R .done [Script.operator target op.token text false] [.token op.token] .ready :=
    p.operator
  exact p.append (p.append (p.append (p.append hopen hleft) hop) hright) (p.chain h)

/-- A chain of operands as calls of a function. -/
theorem nestedCalls {token : String} {left : Script} (hleft : R .ready left [f] .done)
    (h : ∀ x ∈ items, R .ready (script x) [layout x] .done) :
    R .ready (Tree.nestedCalls token left (items.map script))
      (f :: Tree.Layout.links token (items.map layout)) .done := by
  have hopen : R .ready
      ((items.map script).flatMap fun _ => [.emit unsignedShiftFunction, .emit "("]) []
      .ready := by
    refine p.emits fun x hx => ?_
    obtain ⟨_, _, hx⟩ := List.mem_flatMap.1 hx
    simp only [List.mem_cons, List.not_mem_nil, or_false] at hx
    rcases hx with rfl | rfl
    · exact ⟨_, rfl⟩
    · exact ⟨_, rfl⟩
  exact p.append (p.append hopen hleft) (p.callOperands h)

end Passage

end Render

namespace Tree

variable {s : Settings} {R : Stance → Script → List Layout → Stance → Prop}
  {omits : Omission → Prop} {declares : TypeRef → List Fragment → Prop}

/-! ## Names and types -/

theorem SimpleName.passes (s : Settings) (p : Sequence R) (n : SimpleName) :
    R .ready (n.script s) [n.layout] .done :=
  p.leaf

theorem Name.passes (s : Settings) (p : Sequence R) (n : Name) :
    R .ready (n.script s) [n.layout] .done := by
  induction n with
  | simple n => exact n.passes s p
  | qualified extent qualifier n binding ih =>
    exact p.node (List.cons_ne_nil _ _)
      (p.append (p.append ih (p.between "." _)) (n.passes s p))

theorem Layout.passes_brackets (p : Passage s R omits declares) (n : Nat) :
    R .done [.times n brackets] (bracketLayouts n) .done :=
  p.times (p.append (p.between "[" "[") p.swap)

/-- Opening brackets that have no counterpart in the source. -/
theorem Layout.passes_openBrackets (p : Passage s R omits declares) (n : Nat) :
    R .ready [.times n [.emit "["]] [] .ready := by
  have h : R .ready [.times n [.emit "["]] (List.replicate n ([] : List Layout)).flatten .ready :=
    p.times p.emit
  rwa [List.flatten_replicate_nil] at h

theorem TypeBinding.passes (p : Passage s R omits declares) (binding : TypeBinding)
    {a : Stance} : R a (binding.requirement s) [] a := by
  unfold TypeBinding.requirement
  split
  · exact p.require
  · exact p.nil

theorem TypeRef.passes (p : Passage s R omits declares) (type : TypeRef)
    (h : ∀ o ∈ type.omissions s.target, omits o) :
    R .ready (type.script s) [type.layout] .done := by
  match type with
  | .primitive extent word => exact p.leaf
  | .named extent n none => exact p.node (List.cons_ne_nil _ _) (n.passes s p.toSequence)
  | .named extent n (some binding) =>
    refine p.entered rfl (p.append (binding.passes p) ?_)
    split
    · next builtin hbuiltin =>
      refine p.replaceType (h _ ?_)
      rw [TypeRef.omissions, Option.bind_some, hbuiltin]
      exact List.mem_singleton_self _
    · exact p.parts (List.cons_ne_nil _ _) Stance.done_ne_ready (n.passes s p.toSequence)
  | .array extent element dimensions =>
    rw [TypeRef.omissions, List.forall_mem_append] at h
    have helement := element.passes p h.2
    rw [TypeRef.layout, TypeRef.script, arrayScript]
    split
    · next hswift =>
      rw [if_pos hswift] at h
      have hopen := p.append (Layout.passes_openBrackets p dimensions.toNat) helement
      exact p.entered rfl
        (p.brackets (h.1 _ (List.mem_singleton_self _)) element.extent?_layout hopen)
    · exact p.node (List.cons_ne_nil _ _)
        (p.append helement (Layout.passes_brackets p dimensions.toNat))
  | .parameterized extent base arguments => exact p.refused rfl
  | .wildcard extent => exact p.refused rfl

/-! ## Expressions -/

theorem SimpleName.passes_member (s : Settings) (p : Sequence R) (access : String)
    (n : SimpleName) : R .done (memberScript s access n) [.token ".", n.layout] .done :=
  p.append (p.between "." access) (n.passes s p)

mutual

theorem Expr.passes (p : Passage s R omits declares) (e : Expr)
    (h : ∀ o ∈ e.omissions s.target, omits o) : R .ready (e.script s) [e.layout] .done := by
  match e with
  | .name n => exact n.passes s p.toSequence
  | .literal kind extent token =>
    rw [Expr.script, Expr.layout, literalScript]
    split
    · exact p.leaf
    · exact p.refused rfl
  | .boolean extent value => exact p.leaf
  | .null extent => exact p.leaf
  | .this extent none => exact p.leaf
  | .this extent (some qualifier) => exact p.refused rfl
  | .parenthesized extent inner =>
    rw [Expr.script, Expr.layout]
    exact p.node (List.cons_ne_nil _ _)
      (p.append (p.append (p.before "(" "(") (inner.passes p h)) (p.spaced ")" ")"))
  | .binary extent left op right more =>
    rw [Expr.omissions, List.forall_mem_append, List.forall_mem_append] at h
    obtain ⟨⟨hleft, hright⟩, hmore⟩ := h
    rw [Expr.script, Expr.layout, Expr.linkLayouts_eq]
    refine p.node (List.cons_ne_nil _ _) ?_
    split
    · rw [Expr.operandScripts_eq_map]
      exact p.binary (p.wrapped _ (left.passes p hleft)) (p.wrapped _ (right.passes p hright))
        fun x hx => p.wrapped _ (Expr.allPass p more hmore x hx)
    · rw [Expr.scripts_eq_map, ← List.map_cons]
      exact p.nestedCalls (left.passes p hleft)
        (List.forall_mem_cons.2 ⟨right.passes p hright, Expr.allPass p more hmore⟩)
  | .unary extent op operand =>
    rw [Expr.script, Expr.layout]
    split
    · exact p.node (List.cons_ne_nil _ _)
        (p.append (p.before op.token _) (operand.passes p h))
    · exact p.refused rfl
  | .step extent operand op =>
    rw [Expr.script, Expr.layout]
    split
    · exact p.node (List.cons_ne_nil _ _)
        (p.append (operand.passes p h) (p.spaced op.token _))
    · exact p.refused rfl
  | .assign extent left op right =>
    rw [Expr.omissions, List.forall_mem_append] at h
    have hleft := left.passes p h.1
    have hright := right.passes p h.2
    rw [Expr.script, Expr.layout]
    split
    · next replacement _ =>
      have hop : R .done [Script.operator s.target op.token replacement false] [.token op.token]
          .ready := p.operator
      exact p.node (List.cons_ne_nil _ _) (p.append (p.append hleft hop) hright)
    · split
      · exact p.entered rfl (p.assign left.extent?_layout hleft hright)
      · exact p.refused rfl
  | .conditional extent condition positive negative =>
    rw [Expr.omissions, List.forall_mem_append, List.forall_mem_append] at h
    obtain ⟨⟨hcondition, hpositive⟩, hnegative⟩ := h
    rw [Expr.script, Expr.layout]
    have hmark (token : String) : R .done [Script.operator s.target token token true]
        [.token token] .ready := p.operator
    have hhead := p.append (condition.passes p hcondition) (hmark "?")
    have hmid := p.append (p.append hhead (positive.passes p hpositive)) (hmark ":")
    exact p.node (List.cons_ne_nil _ _) (p.append hmid (negative.passes p hnegative))
  | .call extent receiver typeArguments n arguments none => exact p.unbound rfl
  | .call extent receiver typeArguments n arguments (some binding) =>
    rw [Expr.omissions, List.forall_mem_append] at h
    rw [Expr.script, Expr.layout, Expr.layouts_eq_map, Expr.scripts_eq_map]
    split
    · exact p.refused rfl
    · next hempty =>
      rw [typeArgumentLayouts_eq_nil hempty, List.append_nil,
        List.append_assoc _ _ (Script.arguments _), List.append_assoc _ (n.script s)]
      have harguments := p.append (p.copyTrivia (a := .done))
        (p.arguments (Expr.allPass p arguments h.2))
      have hcall := p.append (n.passes s p.toSequence) harguments
      exact p.node (by simp) (p.append (Expr.receiverPasses p receiver h.1) hcall)
  | .superCall extent (some qualifier) typeArguments n arguments binding => exact p.refused rfl
  | .superCall extent none typeArguments n arguments none => exact p.unbound rfl
  | .superCall extent none typeArguments n arguments (some binding) =>
    rw [Expr.script, Expr.layout, Expr.layouts_eq_map, Expr.scripts_eq_map]
    simp only [Option.isSome_none, Bool.false_eq_true, if_false]
    split
    · exact p.refused rfl
    · next hempty =>
      rw [typeArgumentLayouts_eq_nil hempty]
      split
      · exact p.refused rfl
      · next word _ =>
        have hname := p.append (p.word "super" word)
          (n.passes_member s p.toSequence (s.target.memberAccess binding.isStatic))
        have hcall := p.append (p.append hname p.copyTrivia)
          (p.arguments (Expr.allPass p arguments h))
        exact p.node (List.cons_ne_nil _ _) hcall
  | .field extent object n binding =>
    rw [Expr.script, Expr.layout]
    split
    · exact p.unbound rfl
    · exact p.node (List.cons_ne_nil _ _)
        (p.append (object.passes p h) (n.passes_member s p.toSequence _))
  | .superField extent (some qualifier) n binding => exact p.refused rfl
  | .superField extent none n binding =>
    rw [Expr.script, Expr.layout]
    simp only [Option.isSome_none, Bool.false_eq_true, if_false]
    split
    · exact p.refused rfl
    · next word _ =>
      split
      · exact p.unbound rfl
      · next access _ =>
        have hmember := p.append (p.word "super" word) (n.passes_member s p.toSequence access)
        exact p.node (List.cons_ne_nil _ _) hmember
  | .index extent array position =>
    rw [Expr.omissions, List.forall_mem_append] at h
    rw [Expr.script, Expr.layout]
    have hopen := p.append (array.passes p h.1) (p.between "[" "[")
    exact p.node (List.cons_ne_nil _ _)
      (p.append (p.append hopen (position.passes p h.2)) (p.spaced "]" "]"))
  | .create extent (some outer) typeArguments type arguments body => exact p.refused rfl
  | .create extent none typeArguments type arguments body =>
    rw [Expr.omissions, List.forall_mem_append, List.forall_mem_append] at h
    obtain ⟨⟨hnew, htype⟩, harguments⟩ := h
    rw [Expr.script, Expr.layout, Expr.layouts_eq_map, Expr.scripts_eq_map]
    simp only [Option.isSome_none, Bool.false_eq_true, if_false]
    split
    · exact p.refused rfl
    · next hempty =>
      rw [typeArgumentLayouts_eq_nil hempty]
      match body with
      | some body => exact p.refused rfl
      | none =>
        rw [Option.toList_none, List.map_nil, List.append_nil, List.append_assoc,
          List.append_assoc, Expr.receiverLayouts, List.nil_append]
        have hcall := p.append (type.passes p htype)
          (p.append p.copyTrivia (p.arguments (Expr.allPass p arguments harguments)))
        refine p.entered rfl ?_
        rw [Option.isSome_none, if_neg Bool.false_ne_true]
        split
        · next hswift =>
          rw [if_pos hswift] at hnew
          exact p.newWord (hnew _ (List.mem_singleton_self _)) type.extent?_layout hcall
        · have hnew : R .ready [Script.keep "new", .copyTrivia] [.token "new"] .ready :=
            p.before "new" "new"
          exact p.parts (List.cons_ne_nil _ _) Stance.done_ne_ready (p.append hnew hcall)
  | .cast extent type operand =>
    rw [Expr.omissions, List.forall_mem_append] at h
    rw [Expr.script, Expr.layout]
    have hopen := p.append (p.before "(" "(") (type.passes p h.1)
    exact p.node (List.cons_ne_nil _ _)
      (p.append (p.append hopen (p.between ")" ")")) (operand.passes p h.2))
  | .instanceOf extent left type =>
    rw [Expr.omissions, List.forall_mem_append] at h
    rw [Expr.script, Expr.layout]
    split
    · exact p.refused rfl
    · exact p.node (List.cons_ne_nil _ _)
        (p.append (p.append (left.passes p h.1) (p.between "instanceof" _)) (type.passes p h.2))
  | .other form extent => exact p.refused rfl

theorem Expr.receiverPasses (p : Passage s R omits declares) {access : String}
    (receiver : Option Expr) (h : ∀ o ∈ Expr.optionOmissions s.target receiver, omits o) :
    R .ready (Expr.receiverScript s access receiver) (Expr.receiverLayouts receiver) .ready := by
  match receiver with
  | none => exact p.nil
  | some e => exact p.append (e.passes p h) (p.between "." access)

theorem Expr.allPass (p : Passage s R omits declares) (es : List Expr)
    (h : ∀ o ∈ Expr.allOmissions s.target es, omits o) :
    ∀ e ∈ es, R .ready (e.script s) [e.layout] .done := by
  match es with
  | [] => exact nofun
  | e :: es =>
    rw [Expr.allOmissions, List.forall_mem_append] at h
    exact List.forall_mem_cons.2 ⟨e.passes p h.1, Expr.allPass p es h.2⟩

end

/-! ## Modifiers and variables -/

theorem Modifier.passes (p : Passage s R omits declares) (m : Modifier)
    (h : ∀ o ∈ m.omissions, omits o) : R .ready (m.script s) [m.layout] .loose := by
  cases m with
  | word extent w =>
    exact p.entered rfl (p.parts (List.cons_ne_nil _ _) Stance.loose_ne_ready p.modifier)
  | annotated mark =>
    refine p.entered mark.extent?_layout ?_
    unfold markScript
    split
    · exact p.refuse trivial
    · next hform =>
      have hmark {text : String} : R .ready [.replace mark.extent text] [mark.layout] .done := by
        rw [mark.layout_of_marker (by simpa using hform)]
        exact p.replaceMark (h _ (List.mem_singleton_self _))
      split
      · exact p.refuse trivial
      · exact p.append (p.append hmark (p.skipLineRest Stance.done_ne_ready))
          (p.skipBlanks Stance.loose_ne_ready)
      · exact p.loosen hmark

theorem Modifier.allPass (p : Passage s R omits declares) (declaration : Declaration)
    (modifiers : List Modifier) (h : ∀ o ∈ modifiers.flatMap Modifier.omissions, omits o)
    {a : Stance} : R a (modifiersScript s declaration modifiers) (modifiers.map Modifier.layout)
      .ready := by
  refine p.within ?_
  induction modifiers generalizing a with
  | nil => exact p.copyTrivia
  | cons m rest ih =>
    rw [List.flatMap_cons, List.forall_mem_append] at h
    rw [List.flatMap_cons, List.append_assoc]
    exact p.append (p.append p.copyTrivia (m.passes p h.1)) (ih h.2)

/-- A variable, with the type of the declaration if it is rendered after the name. -/
theorem Fragment.passes (p : Sequence R) {type : Option TypeRef} (f : Fragment)
    (htype : ∀ t, type = some t → R .done [.revisit t.extent.start (t.script s)] [] .done)
    (hinitial : R .done (initialScript s f.initial) (initialLayouts f.initial) .done) :
    R .ready (f.body s type) [f.layout] .done := by
  unfold Fragment.body
  split
  · exact p.refuse trivial
  · next hdimensions =>
    have hzero : f.extraDimensions = 0 := by simpa using hdimensions
    rw [f.layout_of_plain hzero]
    have hname := f.name.passes s p
    cases type with
    | none =>
      exact p.parts (List.cons_ne_nil _ _) Stance.done_ne_ready
        (p.append (p.append hname p.nil) hinitial)
    | some t =>
      have hcolon : R .done [.emit ": "] [] .done := p.emit
      have hafter := p.append hname (p.append hcolon (htype t rfl))
      exact p.parts (List.cons_ne_nil _ _) Stance.done_ne_ready (p.append hafter hinitial)

theorem Fragment.initial_passes (p : Passage s R omits declares) (f : Fragment)
    (h : ∀ o ∈ f.omissions s.target, omits o) :
    R .done (initialScript s f.initial) (initialLayouts f.initial) .done := by
  unfold Fragment.omissions at h
  cases hinitial : f.initial with
  | none => exact p.nil
  | some e =>
    rw [hinitial] at h
    exact p.append p.operator (e.passes p h)

/-! ## Statements -/

theorem swiftStep_passes (p : Passage s R omits declares) (e : Expr) (hswift : s.target = .swift)
    (h : ∀ o ∈ stepOmissions s.target e ++ e.omissions s.target, omits o) :
    R .ready (swiftStep s e) [e.layout] .done := by
  rw [List.forall_mem_append] at h
  obtain ⟨hstep, h⟩ := h
  have hgap {o : Omission} (ho : ∀ o' ∈ (if s.target == .swift then [o] else []), omits o') :
      omits o := by
    rw [hswift] at ho
    exact ho o (List.mem_singleton_self o)
  unfold swiftStep
  split
  · next extent operand =>
    exact p.stepBefore (hgap hstep) operand.extent?_layout
      (p.append (operand.passes p h) p.emit)
  · next extent operand =>
    exact p.stepBefore (hgap hstep) operand.extent?_layout
      (p.append (operand.passes p h) p.emit)
  · next extent operand =>
    exact p.stepAfter (hgap hstep) operand.extent?_layout (operand.passes p h)
  · next extent operand =>
    exact p.stepAfter (hgap hstep) operand.extent?_layout (operand.passes p h)
  · exact e.passes p h

theorem Expr.passes_condition (p : Passage s R omits declares) (condition : Expr)
    (h : ∀ o ∈ condition.omissions s.target, omits o) {a : Stance} :
    R a (conditionScript s condition) [.token "(", condition.layout, .token ")"] .done :=
  p.append (p.append (p.between "(" "(") (condition.passes p h)) (p.spaced ")" ")")

theorem Stmt.passes_check (p : Passage s R omits declares) (target : Target) (word : String)
    (body : Stmt) {a : Stance} : R a (checkBody target word body) [] a := by
  unfold checkBody
  split
  · exact p.halt trivial
  · exact p.nil

mutual

theorem Stmt.passes (p : Passage s R omits declares) (stmt : Stmt)
    (h : ∀ o ∈ stmt.omissions s.target, omits o)
    (hdeclares : ∀ d ∈ stmt.declarations, declares d.1 d.2) :
    R .ready (stmt.script s) [stmt.layout] .done := by
  match stmt with
  | .block extent statements =>
    rw [Stmt.script, Stmt.layout]
    exact p.node (List.cons_ne_nil _ _)
      (p.append (p.append p.swap (Stmt.allPass p statements h hdeclares))
        (p.spaced "\x7d" "\x7d"))
  | .expression extent e =>
    rw [Stmt.script, Stmt.layout]
    have he : R .ready (if s.target == .swift then swiftStep s e else e.script s) [e.layout]
        .done := by
      split
      · next hswift => exact swiftStep_passes p e (beq_iff_eq.1 hswift) h
      · rw [Stmt.omissions, List.forall_mem_append] at h
        exact e.passes p h.2
    exact p.node (List.cons_ne_nil _ _) (p.append he (p.terminator s.target))
  | .declare extent modifiers type fragments =>
    rw [Stmt.omissions, List.forall_mem_append, List.forall_mem_append] at h
    obtain ⟨⟨hmodifiers, htype⟩, hfragments⟩ := h
    rw [Stmt.script, Stmt.layout]
    rw [List.append_assoc (modifiersScript _ _ _)]
    have hinitial : ∀ f ∈ fragments,
        R .done (initialScript s f.initial) (initialLayouts f.initial) .done := fun f hf =>
      f.initial_passes p fun o ho => hfragments o (List.mem_flatMap.2 ⟨f, hf, ho⟩)
    exact p.entered rfl (p.declared modifiers (hdeclares _ (List.mem_singleton_self _))
      (Modifier.allPass p .localVariable modifiers hmodifiers) (type.passes p htype) hinitial)
  | .returns extent none =>
    exact p.node (List.cons_ne_nil _ _) (p.append p.swap (p.terminator s.target))
  | .returns extent (some value) =>
    have hvalue := p.append (p.copyTrivia (a := .done)) (value.passes p h)
    exact p.node (List.cons_ne_nil _ _)
      (p.append (p.append p.swap hvalue) (p.terminator s.target))
  | .ifElse extent condition positive negative =>
    rw [Stmt.omissions, List.forall_mem_append, List.forall_mem_append] at h
    rw [Stmt.declarations, List.forall_mem_append] at hdeclares
    obtain ⟨⟨hcondition, hpositive⟩, hnegative⟩ := h
    rw [Stmt.script, Stmt.layout]
    have hhead := p.append (p.word "if" "if") (condition.passes_condition p hcondition)
    have hcheck := p.append (p.append hhead (positive.passes_check p s.target "if")) p.copyTrivia
    exact p.node (List.cons_ne_nil _ _)
      (p.append (p.append hcheck (positive.passes p hpositive hdeclares.1))
        (Stmt.elsePasses p negative hnegative hdeclares.2))
  | .whileLoop extent condition body =>
    rw [Stmt.omissions, List.forall_mem_append] at h
    rw [Stmt.script, Stmt.layout]
    have hhead := p.append (p.word "while" "while") (condition.passes_condition p h.1)
    have hcheck := p.append (p.append hhead (body.passes_check p s.target "while")) p.copyTrivia
    exact p.node (List.cons_ne_nil _ _) (p.append hcheck (body.passes p h.2 hdeclares))
  | .doLoop extent body condition =>
    rw [Stmt.omissions, List.forall_mem_append] at h
    rw [Stmt.script, Stmt.layout]
    have hcheck := p.append
      (p.append (p.word "do" (if s.target == .swift then "repeat" else "do"))
        (body.passes_check p s.target "do")) p.copyTrivia
    have hbody := p.append (p.append hcheck (body.passes p h.2 hdeclares))
      (p.spaced "while" "while")
    exact p.node (List.cons_ne_nil _ _)
      (p.append (p.append hbody (condition.passes_condition p h.1)) (p.terminator s.target))
  | .empty extent => exact p.leaf
  | .jump word extent none =>
    exact p.node (List.cons_ne_nil _ _) (p.append p.swap (p.terminator s.target))
  | .jump word extent (some label) => exact p.refused rfl
  | .throws extent value =>
    rw [Stmt.script, Stmt.layout]
    exact p.node (List.cons_ne_nil _ _)
      (p.append (p.append (p.before "throw" "throw") (value.passes p h)) (p.terminator s.target))
  | .other form extent => exact p.refused rfl

theorem Stmt.allPass (p : Passage s R omits declares) (stmts : List Stmt)
    (h : ∀ o ∈ Stmt.allOmissions s.target stmts, omits o)
    (hdeclares : ∀ d ∈ Stmt.allDeclarations stmts, declares d.1 d.2) :
    R .done (Stmt.scripts s stmts) (Stmt.layouts stmts) .done := by
  match stmts with
  | [] => exact p.nil
  | stmt :: rest =>
    rw [Stmt.allOmissions, List.forall_mem_append] at h
    rw [Stmt.allDeclarations, List.forall_mem_append] at hdeclares
    exact p.append (p.append p.copyTrivia (stmt.passes p h.1 hdeclares.1))
      (Stmt.allPass p rest h.2 hdeclares.2)

theorem Stmt.elsePasses (p : Passage s R omits declares) (negative : Option Stmt)
    (h : ∀ o ∈ Stmt.elseOmissions s.target negative, omits o)
    (hdeclares : ∀ d ∈ Stmt.elseDeclarations negative, declares d.1 d.2) :
    R .done (Stmt.elseScript s negative) (Stmt.elseLayouts negative) .done := by
  match negative with
  | none => exact p.nil
  | some stmt =>
    rw [Stmt.elseScript, Stmt.elseLayouts]
    have hcheck : R .done (if stmt.isIf then [] else checkBody s.target "else" stmt) []
        .done := by
      split
      · exact p.nil
      · exact stmt.passes_check p s.target "else"
    exact p.append (p.append (p.spaced "else" "else") hcheck)
      (p.append p.copyTrivia (stmt.passes p h hdeclares))

end

end Tree

end Lockstep
