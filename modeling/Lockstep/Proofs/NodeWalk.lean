import Lockstep.Proofs.Passage

/-!
# The script of a node walks its layout

For each target the script of an expression, a type or a statement passes the tokens of its layout
in their order, unless it stops with a refusal (`Expr.walks`, `TypeRef.walks`, `Stmt.walks`). For
scripts that walk are closed under all that the scripts of nodes are made of (`walks_passage`); what
a target does otherwise shows only in the texts that are written.

- `TypeRef.KeepsNames`, `Expr.KeepsNames`: no type is replaced by a type of the target as a whole.
-/

namespace Lockstep

open Config Render Target Text

namespace Render

variable {replaces : Prop} {known fs : List Tree.Layout} {a b : Stance} {f : Tree.Layout}
  {body : Script} {target : Target} {kind : Tree.Kind} {extent : Extent}

/-! ## Sequences -/

/-- The script of a node walks what its body walks. -/
theorem Walks.entered (hf : f.extent? = some extent) (h : Walks replaces known .ready body [f] b) :
    Walks replaces known .ready (Script.node target kind extent body) [f] b := by
  unfold Script.node
  split
  · exact .enter hf h
  · exact .refuse trivial

theorem Walks.node (hb : b ≠ .ready) (h : Walks replaces (fs ++ known) .ready body fs b) :
    Walks replaces known .ready (Script.node target kind extent body) [.node extent fs] b :=
  .entered rfl (.parts hb h)

/-- The parts of a node need not be known. -/
theorem Walks.whole (hb : b ≠ .ready) (h : Walks replaces known .ready body fs b) :
    Walks replaces known .ready body [.node extent fs] b :=
  .parts hb (h.mono (List.subset_append_right fs known))

theorem walks_sequence : Sequence (Walks replaces known) where
  nil := .nil
  append := .append
  refuse := .refuse
  entered := .entered
  parts _ := .whole
  swap := .swap
  emit := .emit
  copyTrivia := .copyTrivia

/-! ## Variables -/

/-- The type and the variables of a declaration of which the type may be visited again. -/
theorem Walks.variables {s : Settings} {type : Tree.TypeRef} {fragments : List Tree.Fragment}
    (modifiers : List Tree.Modifier) (hr : replaces) (hknown : type.layout ∈ known)
    (htype : Walks replaces known .ready (type.script s) [type.layout] .done)
    (hinitial : ∀ f ∈ fragments, Walks replaces known .done (Tree.initialScript s f.initial)
      (Tree.initialLayouts f.initial) .done) :
    Walks replaces known .ready (Tree.variablesScript s modifiers type fragments)
      (type.layout :: Tree.Layout.separated (fragments.map Tree.Fragment.layout)) .done := by
  unfold Tree.variablesScript
  split
  · have hword {word : String} : Walks replaces known .ready [.replace type.extent word]
        [type.layout] .done := .replace hr type.extent?_layout
    refine hword.append (walks_sequence.commaSeparated fun f hf =>
      f.passes walks_sequence ?_ (hinitial f hf))
    rintro _ ⟨⟩
    exact .revisit hknown type.extent?_layout htype
  · exact htype.append (walks_sequence.commaSeparated fun f hf =>
      f.passes walks_sequence nofun (hinitial f hf))

/-! ## Nodes -/

theorem closingBracket_walk (n : Nat) :
    Walks replaces known .done [.times n Tree.closingBracket] (Tree.bracketLayouts n) .done :=
  .times (.cons .skipTrivia (.cons .swap (.cons .skipTrivia .swap)))

/-- An assignment that reads its left side once more. -/
theorem Walks.assignByCall {token : String} {left right : Script} {g : Tree.Layout}
    (hf : f.extent? = some extent) (hknown : f ∈ known)
    (hleft : Walks replaces known .ready left [f] .done)
    (hright : Walks replaces known .ready right [g] .done) :
    Walks replaces known .ready (Tree.assignByCall target token extent.start left right)
      [f, .token token, g] .done := by
  have hop : Walks replaces known .done [Script.operator target token "=" false]
      [.token token] .ready := .operator
  have hagain : Walks replaces known .ready
      [.emit unsignedShiftFunction, .emit "(", .revisit extent.start left, .emit ", "] []
      .ready := .cons .emit (.cons .emit (.cons (.revisit hknown hf hleft) .emit))
  exact ((hleft.append (hop.append hagain)).append hright).append .emit

/-- Scripts that walk are closed under all that the scripts of nodes are made of, if what they pass
as a whole may be replaced. -/
theorem walks_passage (s : Settings) :
    Passage s (Walks replaces known) (fun o => o.Replaces → replaces) fun _ _ => replaces where
  toSequence := walks_sequence
  halt := .halt
  operator := .operator
  modifier := .modifier
  require := .require
  skipBlanks := .skipBlanks
  skipLineRest := .skipLineRest
  loosen := .loosen
  within := .within
  times := .times
  replaceType hr := .replace (hr trivial) rfl
  replaceMark hr := .replace (hr trivial) rfl
  newWord _ _ h := .whole Stance.done_ne_ready ((Walks.swap.cons .skipTrivia).append h)
  stepBefore _ _ h := .whole Stance.done_ne_ready ((Walks.swap.cons .skipTrivia).append h)
  stepAfter _ _ h := .whole Stance.done_ne_ready (h.append (Walks.skipTrivia.cons .swap))
  brackets _ _ h := .whole Stance.done_ne_ready (h.append (closingBracket_walk _))
  assign {_ token _ _ _ _ f g} hx hleft hright := by
    have hmore := List.subset_append_right [f, .token token, g] known
    exact .parts Stance.done_ne_ready
      (.assignByCall hx List.mem_cons_self (hleft.mono hmore) (hright.mono hmore))
  declared {_} modifiers {_ fs type fragments} hr hmodifiers htype hinitial := by
    let parts := fs ++ type.layout ::
      (Tree.Layout.separated (fragments.map Tree.Fragment.layout) ++ [.token ";"])
    have hmore := List.subset_append_right parts known
    have htype' : type.layout ∈ parts ++ known :=
      List.mem_append_left known (List.mem_append_right fs List.mem_cons_self)
    have hvariables := Walks.variables modifiers hr htype' (htype.mono hmore)
      fun f hf => (hinitial f hf).mono hmore
    exact .parts Stance.done_ne_ready ((hmodifiers.mono hmore).append
      (hvariables.append (walks_sequence.terminator s.target)))

end Render

namespace Tree

variable {replaces : Prop} {known : List Layout}

/-! ## Types that keep their names -/

mutual

/-- No type of the reference is replaced by a type of the target. -/
def TypeRef.KeepsNames (target : Target) : TypeRef → Prop
  | .primitive .. | .wildcard _ => True
  | .named _ _ binding =>
    ∀ b, binding = some b → target.wellKnownType? b.qualifiedName = none
  | .array _ element _ => element.KeepsNames target
  | .parameterized _ base arguments =>
    base.KeepsNames target ∧ TypeRef.AllKeepNames target arguments

def TypeRef.AllKeepNames (target : Target) : List TypeRef → Prop
  | [] => True
  | type :: types => type.KeepsNames target ∧ TypeRef.AllKeepNames target types

end

mutual

/-- No type in the expression is replaced by a type of the target. -/
def Expr.KeepsNames (target : Target) : Expr → Prop
  | .name _ | .literal .. | .boolean .. | .null _ | .this .. | .superField .. | .other .. => True
  | .parenthesized _ inner => inner.KeepsNames target
  | .binary _ left _ right more =>
    left.KeepsNames target ∧ right.KeepsNames target ∧ Expr.AllKeepNames target more
  | .unary _ _ operand | .step _ operand _ => operand.KeepsNames target
  | .assign _ left _ right => left.KeepsNames target ∧ right.KeepsNames target
  | .conditional _ condition positive negative =>
    condition.KeepsNames target ∧ positive.KeepsNames target ∧ negative.KeepsNames target
  | .call _ receiver typeArguments _ arguments _ =>
    Expr.OptionKeepsNames target receiver ∧ TypeRef.AllKeepNames target typeArguments ∧
      Expr.AllKeepNames target arguments
  | .superCall _ _ typeArguments _ arguments _ =>
    TypeRef.AllKeepNames target typeArguments ∧ Expr.AllKeepNames target arguments
  | .field _ object _ _ => object.KeepsNames target
  | .index _ array position => array.KeepsNames target ∧ position.KeepsNames target
  | .create _ outer typeArguments type arguments _ =>
    Expr.OptionKeepsNames target outer ∧ TypeRef.AllKeepNames target typeArguments ∧
      type.KeepsNames target ∧ Expr.AllKeepNames target arguments
  | .cast _ type operand => type.KeepsNames target ∧ operand.KeepsNames target
  | .instanceOf _ left type => left.KeepsNames target ∧ type.KeepsNames target

def Expr.AllKeepNames (target : Target) : List Expr → Prop
  | [] => True
  | e :: es => e.KeepsNames target ∧ Expr.AllKeepNames target es

def Expr.OptionKeepsNames (target : Target) : Option Expr → Prop
  | none => True
  | some e => e.KeepsNames target

end

/-- Of a type that keeps its names nothing is passed as a whole. -/
theorem TypeRef.omissions_of_keepsNames {target : Target} (type : TypeRef)
    (h : type.KeepsNames target) : ∀ o ∈ type.omissions target, ¬o.Replaces := by
  match type with
  | .primitive .. | .parameterized .. | .wildcard _ => exact List.forall_mem_nil _
  | .named extent n none => exact List.forall_mem_nil _
  | .named extent n (some binding) =>
    have hnone : target.wellKnownType? binding.qualifiedName = none := h binding rfl
    rw [TypeRef.omissions, Option.bind_some, hnone]
    exact List.forall_mem_nil _
  | .array extent element dimensions =>
    rw [TypeRef.omissions, List.forall_mem_append]
    refine ⟨?_, element.omissions_of_keepsNames h⟩
    split
    · exact List.forall_mem_singleton.2 not_false
    · exact List.forall_mem_nil _

mutual

/-- Of an expression that keeps its names nothing is passed as a whole. -/
theorem Expr.omissions_of_keepsNames {target : Target} (e : Expr) (h : e.KeepsNames target) :
    ∀ o ∈ e.omissions target, ¬o.Replaces := by
  match e with
  | .name _ | .literal .. | .boolean .. | .null _ | .this .. | .superField .. | .other .. =>
    exact List.forall_mem_nil _
  | .parenthesized _ inner => exact inner.omissions_of_keepsNames h
  | .binary _ left _ right more =>
    rw [Expr.omissions, List.forall_mem_append, List.forall_mem_append]
    exact ⟨⟨left.omissions_of_keepsNames h.1, right.omissions_of_keepsNames h.2.1⟩,
      Expr.allOmissions_of_keepNames more h.2.2⟩
  | .unary _ _ operand => exact operand.omissions_of_keepsNames h
  | .step _ operand _ => exact operand.omissions_of_keepsNames h
  | .assign _ left _ right =>
    rw [Expr.omissions, List.forall_mem_append]
    exact ⟨left.omissions_of_keepsNames h.1, right.omissions_of_keepsNames h.2⟩
  | .conditional _ condition positive negative =>
    rw [Expr.omissions, List.forall_mem_append, List.forall_mem_append]
    exact ⟨⟨condition.omissions_of_keepsNames h.1, positive.omissions_of_keepsNames h.2.1⟩,
      negative.omissions_of_keepsNames h.2.2⟩
  | .call _ receiver _ _ arguments _ =>
    rw [Expr.omissions, List.forall_mem_append]
    exact ⟨Expr.optionOmissions_of_keepsNames receiver h.1,
      Expr.allOmissions_of_keepNames arguments h.2.2⟩
  | .superCall _ _ _ _ arguments _ => exact Expr.allOmissions_of_keepNames arguments h.2
  | .field _ object _ _ => exact object.omissions_of_keepsNames h
  | .index _ array position =>
    rw [Expr.omissions, List.forall_mem_append]
    exact ⟨array.omissions_of_keepsNames h.1, position.omissions_of_keepsNames h.2⟩
  | .create extent _ _ type arguments _ =>
    rw [Expr.omissions, List.forall_mem_append, List.forall_mem_append]
    refine ⟨⟨?_, type.omissions_of_keepsNames h.2.2.1⟩,
      Expr.allOmissions_of_keepNames arguments h.2.2.2⟩
    split
    · exact List.forall_mem_singleton.2 not_false
    · exact List.forall_mem_nil _
  | .cast _ type operand =>
    rw [Expr.omissions, List.forall_mem_append]
    exact ⟨type.omissions_of_keepsNames h.1, operand.omissions_of_keepsNames h.2⟩
  | .instanceOf _ left type =>
    rw [Expr.omissions, List.forall_mem_append]
    exact ⟨left.omissions_of_keepsNames h.1, type.omissions_of_keepsNames h.2⟩

theorem Expr.allOmissions_of_keepNames {target : Target} (es : List Expr)
    (h : Expr.AllKeepNames target es) : ∀ o ∈ Expr.allOmissions target es, ¬o.Replaces := by
  match es with
  | [] => exact List.forall_mem_nil _
  | e :: es =>
    rw [Expr.allOmissions, List.forall_mem_append]
    exact ⟨e.omissions_of_keepsNames h.1, Expr.allOmissions_of_keepNames es h.2⟩

theorem Expr.optionOmissions_of_keepsNames {target : Target} (e : Option Expr)
    (h : Expr.OptionKeepsNames target e) :
    ∀ o ∈ Expr.optionOmissions target e, ¬o.Replaces := by
  match e with
  | none => exact List.forall_mem_nil _
  | some e => exact e.omissions_of_keepsNames h

end

/-! ## The walks -/

theorem SimpleName.walks (s : Settings) (n : SimpleName) :
    Walks replaces known .ready (n.script s) [n.layout] .done :=
  n.passes s walks_sequence

theorem Name.walks (s : Settings) (n : Name) :
    Walks replaces known .ready (n.script s) [n.layout] .done :=
  n.passes s walks_sequence

theorem TypeRef.walks (s : Settings) (type : TypeRef)
    (h : replaces ∨ type.KeepsNames s.target) :
    Walks replaces known .ready (type.script s) [type.layout] .done :=
  type.passes (walks_passage s) fun o ho hreplaces =>
    h.resolve_right fun hkeeps => type.omissions_of_keepsNames hkeeps o ho hreplaces

theorem Expr.walks (s : Settings) (e : Expr) (h : replaces ∨ e.KeepsNames s.target) :
    Walks replaces known .ready (e.script s) [e.layout] .done :=
  e.passes (walks_passage s) fun o ho hreplaces =>
    h.resolve_right fun hkeeps => e.omissions_of_keepsNames hkeeps o ho hreplaces

theorem Modifier.walks (s : Settings) (m : Modifier) :
    Walks True known .ready (m.script s) [m.layout] .loose :=
  m.passes (walks_passage s) fun _ _ _ => trivial

theorem modifiersScript_walks {a : Stance} (s : Settings) (declaration : Declaration)
    (modifiers : List Modifier) :
    Walks True known a (modifiersScript s declaration modifiers) (modifiers.map Modifier.layout)
      .ready :=
  Modifier.allPass (walks_passage s) declaration modifiers fun _ _ _ => trivial

theorem Fragment.walks (s : Settings) (f : Fragment) :
    Walks True known .ready (f.body s none) [f.layout] .done := by
  refine f.passes walks_sequence ?_ (f.initial_passes (walks_passage s) fun _ _ _ => trivial)
  rintro _ ⟨⟩

theorem variablesScript_walks (s : Settings) (modifiers : List Modifier) (type : TypeRef)
    (fragments : List Fragment) (h : type.layout ∈ known) :
    Walks True known .ready (variablesScript s modifiers type fragments)
      (type.layout :: Layout.separated (fragments.map Fragment.layout)) .done :=
  .variables modifiers trivial h (type.walks s (.inl trivial)) fun f _ =>
    f.initial_passes (walks_passage s) fun _ _ _ => trivial

theorem Stmt.walks (s : Settings) (stmt : Stmt) :
    Walks True known .ready (stmt.script s) [stmt.layout] .done :=
  stmt.passes (walks_passage s) (fun _ _ _ => trivial) fun _ _ => trivial

end Tree

end Lockstep
