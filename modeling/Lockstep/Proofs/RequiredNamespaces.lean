import Lockstep.Proofs.Restoring
import Lockstep.Proofs.Supported

/-!
# The namespaces that a body needs

Where a type is used that needs a namespace, its script notes it. In C# the notes of a node are its
own and those of the nodes right below it (`Node.notes_eq`), so when the body of a file has been
rendered, the namespaces of all types in it are noted.

- `Script.notes`: the steps of a script that note a namespace or refuse.
- `Node.notes_eq`: the notes of a node, by the nodes below it.
- `CompilationUnit.mem_required`: the theorem about units.
-/

namespace Lockstep

open Config Output Render Target Text Lockstep.Tree

namespace Render

/-! ## The notes of a script -/

/-- Whether the step notes a namespace or refuses. -/
@[simp]
def Step.isNote : Step → Bool
  | .refuse _ | .require _ => true
  | _ => false

namespace Script

/-- The steps that note a namespace or refuse. Those inside other steps are left out. -/
def notes (xs : Script) : Script := xs.filter Step.isNote

/-- Nothing is refused. -/
def Quiet (xs : Script) : Prop := ∀ e, Step.refuse e ∉ notes xs

variable {target : Target} {kind : Kind} {extent : Extent} {xs ys : Script}
  {scripts : List Script} {x : Step}

@[simp]
theorem notes_nil : notes [] = [] := rfl

@[simp]
theorem notes_append : notes (xs ++ ys) = notes xs ++ notes ys := List.filter_append ..

@[simp]
theorem notes_cons :
    notes (x :: xs) = if x.isNote then x :: notes xs else notes xs := List.filter_cons

theorem notes_flatMap {α : Type} {f : α → Script} {as : List α} :
    notes (as.flatMap f) = as.flatMap fun a => notes (f a) := by
  induction as with
  | nil => rfl
  | cons a as ih => rw [List.flatMap_cons, notes_append, ih, List.flatMap_cons]

theorem notes_node_of_supports (h : target.supports kind = true) :
    notes (node target kind extent xs) = notes xs := by
  unfold node
  rw [if_pos h]
  rfl

theorem Quiet.supports (h : Quiet (node target kind extent xs)) :
    target.supports kind = true := by
  unfold node at h
  split at h
  · next hkind => exact hkind
  · exact absurd List.mem_cons_self (h _)

theorem notes_node (h : Quiet (node target kind extent xs)) :
    notes (node target kind extent xs) = notes xs := notes_node_of_supports h.supports

@[simp]
theorem not_quiet_refuse {refusal : Refusal} :
    ¬ Quiet (refuse target refusal kind extent) := fun h => h _ List.mem_cons_self

@[simp]
theorem not_quiet_missingBinding {name : String} :
    ¬ Quiet (missingBinding name extent) := fun h => h _ List.mem_cons_self

theorem Quiet.of_node (h : Quiet (node target kind extent xs)) : Quiet xs := by
  intro e
  rw [← notes_node h]
  exact h e

theorem quiet_append : Quiet (xs ++ ys) ↔ Quiet xs ∧ Quiet ys := by
  simp only [Quiet, notes_append, List.mem_append, not_or, forall_and]

@[simp]
theorem notes_commaSeparated : notes (commaSeparated scripts) = scripts.flatMap notes := by
  induction scripts using commaSeparated.induct with
  | case1 => rfl
  | case2 script => simp [commaSeparated]
  | case3 script rest _ ih => simp [commaSeparated, keep, ih]

@[simp]
theorem notes_arguments : notes (arguments scripts) = scripts.flatMap notes := by
  simp [arguments, keep]

@[simp]
theorem notes_terminator : notes (terminator target) = [] := rfl

@[simp]
theorem notes_wrapped {wrap : Bool} : notes (wrapped wrap xs) = notes xs := by
  cases wrap <;> simp [wrapped]

@[simp]
theorem notes_chainScript {token replacement : String} {grouped : Bool} :
    notes (chainScript target token replacement grouped scripts) = scripts.flatMap notes := by
  induction scripts with
  | nil => rfl
  | cons x scripts ih => cases grouped <;> simp [chainScript, operator, ih]

@[simp]
theorem notes_binaryScript {op : BinaryOp} {replacement : String} :
    notes (binaryScript target op replacement xs ys scripts) =
      notes xs ++ notes ys ++ scripts.flatMap notes := by
  have hopened : notes (scripts.map fun _ => Step.emit "(") = [] := by
    induction scripts with
    | nil => rfl
    | cons x scripts ih => exact ih
  unfold binaryScript
  dsimp only
  split
  · simp only [notes_append, hopened, List.nil_append]
    simp [operator]
  · simp [operator]

@[simp]
theorem notes_callOperands {token : String} :
    notes (callOperands token scripts) = scripts.flatMap notes := by
  induction scripts with
  | nil => rfl
  | cons x scripts ih => simp [callOperands, ih]

@[simp]
theorem notes_nestedCalls {token : String} :
    notes (nestedCalls token xs scripts) = notes xs ++ scripts.flatMap notes := by
  simp [nestedCalls, notes_flatMap]

@[simp]
theorem notes_arrayScript {dimensions : Nat} :
    notes (arrayScript target xs dimensions) = notes xs := by
  unfold arrayScript
  split <;> simp

end Script

/-! ## Running a script -/

theorem mem_addNew {texts : List String} {text name : String} :
    name ∈ addNew texts text ↔ name ∈ texts ∨ name = text := by
  unfold addNew
  split
  · next hmem =>
    refine (or_iff_left_of_imp ?_).symm
    rintro rfl
    exact List.contains_iff_mem.1 hmem
  · rw [List.mem_append, List.mem_singleton]

/-- After a run all namespaces are noted that its steps need. -/
theorem Step.mem_required_of_runAll {xs : Script} {name : String} {ctx after : Context}
    (h : Step.runAll xs ctx = .ok () after) (hmem : .require name ∈ xs) :
    name ∈ after.required := by
  induction xs generalizing ctx with
  | nil => cases hmem
  | cons x xs ih =>
    obtain ⟨mid, hx, hxs⟩ := runAll_cons_ok.1 h
    rcases List.mem_cons.1 hmem with rfl | hmem
    · rw [require_ok hx] at hxs
      exact ((Step.runAll_leaves xs).ok hxs).required.subset (mem_addNew.2 (.inr rfl))
    · exact ih hxs hmem

theorem Step.AllClear.quiet {xs : Script} (h : Step.AllClear xs) : Script.Quiet xs := by
  intro e he
  induction xs with
  | nil => cases he
  | cons x xs ih =>
    rcases List.mem_cons.1 (List.mem_filter.1 he |>.1) with rfl | hmem
    · exact h.1
    · exact ih h.2 (List.mem_filter.2 ⟨hmem, rfl⟩)

end Render

namespace Tree

open Script

/-! ## The notes of a node -/

/-- The script of a node; that of a unit is that of its types. Modifiers, packages and imports need
no namespace. -/
def Node.bodyScript (s : Settings) : Node → Script
  | .unit u => u.types.flatMap (TypeDecl.script s)
  | .package _ | .imported _ | .modifier _ => []
  | .member m => m.script s
  | .parameter p => p.script s
  | .fragment f => f.script s
  | .type t => t.script s
  | .name n => n.script s
  | .expr e => e.script s
  | .stmt t => t.script s

/-- What a node notes by itself. -/
def Node.requirement (s : Settings) : Node → Script
  | .type (.named _ _ (some binding)) => binding.requirement s
  | _ => []

/-- What the nodes note. -/
def Node.allNotes (s : Settings) (nodes : List Node) : Script :=
  nodes.flatMap fun n => notes (n.bodyScript s)

section

variable {s : Settings} {ns ms : List Node}

@[simp]
theorem allNotes_nil : Node.allNotes s [] = [] := rfl

@[simp]
theorem allNotes_cons {n : Node} :
    Node.allNotes s (n :: ns) = notes (n.bodyScript s) ++ Node.allNotes s ns := rfl

@[simp]
theorem allNotes_append : Node.allNotes s (ns ++ ms) = Node.allNotes s ns ++ Node.allNotes s ms :=
  List.flatMap_append

@[simp]
theorem allNotes_map {α : Type} {f : α → Node} {as : List α} :
    Node.allNotes s (as.map f) = as.flatMap fun a => notes ((f a).bodyScript s) :=
  List.flatMap_map ..

@[simp]
theorem notes_simpleName {n : SimpleName} : notes (n.script s) = [] :=
  notes_node_of_supports (supports_name _ (.simple n))

@[simp]
theorem notes_name {n : Name} : notes (n.script s) = [] := by
  induction n with
  | simple n => exact notes_simpleName
  | qualified extent qualifier n binding ih =>
    have hkind : s.target.supports .qualifiedName = true :=
      supports_name _ (.qualified extent qualifier n binding)
    simp [Name.script, notes_node_of_supports hkind, ih]

theorem TypeRef.notes_eq {t : TypeRef} (h : Quiet (t.script s)) :
    notes (t.script s) = (Node.type t).requirement s ++ Node.allNotes s t.children := by
  cases t with
  | primitive => exact notes_node h
  | named extent n binding =>
    rw [TypeRef.script, notes_node h]
    cases binding with
    | none => simp [namedScript, TypeRef.children, Node.requirement, Node.bodyScript]
    | some binding =>
      have hname : notes (binding.requirement s) = binding.requirement s := by
        unfold TypeBinding.requirement
        split <;> rfl
      simp only [namedScript, notes_append, hname, Node.requirement]
      cases s.target.wellKnownType? binding.qualifiedName <;>
        simp [TypeRef.children, Node.bodyScript]
  | array extent element dimensions =>
    rw [TypeRef.script, notes_node h]
    simp [TypeRef.children, Node.requirement, Node.bodyScript]
  | parameterized | wildcard => exact absurd h.of_node not_quiet_refuse

theorem Expr.notes_scripts {es : List Expr} :
    (Expr.scripts s es).flatMap notes = Node.allNotes s (es.map .expr) := by
  rw [Expr.scripts_eq_map, List.flatMap_map, allNotes_map]
  rfl

theorem Expr.notes_operandScripts {op : BinaryOp} {es : List Expr} :
    (Expr.operandScripts s op es).flatMap notes = Node.allNotes s (es.map .expr) := by
  induction es with
  | nil => rfl
  | cons e es ih =>
    simp only [Expr.operandScripts, List.flatMap_cons, notes_wrapped, ih, List.map_cons,
      allNotes_cons, Node.bodyScript]

theorem Expr.notes_eq {e : Expr} (h : Quiet (e.script s)) :
    notes (e.script s) = Node.allNotes s e.children := by
  cases e with
  | name n => cases n <;> simp [Expr.script, Expr.children, Name.children, Node.bodyScript]
  | literal kind extent token =>
    rw [Expr.script, notes_node h]
    have hbody := h.of_node
    unfold literalScript at hbody ⊢
    split
    · rfl
    · next hnone =>
      rw [hnone] at hbody
      exact absurd hbody not_quiet_refuse
  | boolean | null => exact notes_node h
  | other => exact absurd h.of_node not_quiet_refuse
  | this extent qualifier =>
    cases qualifier with
    | none => exact notes_node h
    | some n => exact absurd h.of_node not_quiet_refuse
  | parenthesized extent inner =>
    rw [Expr.script, notes_node h]
    simp [Expr.children, Node.bodyScript, keep]
  | binary extent left op right more =>
    rw [Expr.script, notes_node h]
    cases s.target.binaryToken? op <;>
      simp [Expr.children, Node.bodyScript, Expr.notes_operandScripts, Expr.notes_scripts]
  | unary extent op operand =>
    rw [Expr.script, notes_node h]
    have hbody := h.of_node
    cases hop : s.target.unaryToken? op with
    | none => simp [hop] at hbody
    | some replacement => simp [Expr.children, Node.bodyScript]
  | step extent operand op =>
    rw [Expr.script, notes_node h]
    have hbody := h.of_node
    cases hop : s.target.stepToken? op with
    | none => simp [hop] at hbody
    | some replacement => simp [Expr.children, Node.bodyScript]
  | assign extent left op right =>
    rw [Expr.script, notes_node h]
    have hbody := h.of_node
    cases hop : s.target.assignToken? op with
    | some replacement => simp [Expr.children, Node.bodyScript, operator]
    | none =>
      simp only [hop] at hbody
      split at hbody
      · next hplain => simp [hplain, assignByCall, Expr.children, Node.bodyScript, operator]
      · exact absurd hbody not_quiet_refuse
  | conditional extent condition positive negative =>
    rw [Expr.script, notes_node h]
    simp [Expr.children, Node.bodyScript, operator]
  | call extent receiver typeArguments n arguments binding =>
    have hbody := h.of_node
    cases binding with
    | none => exact absurd hbody not_quiet_missingBinding
    | some binding =>
      cases typeArguments with
      | cons => exact absurd hbody not_quiet_refuse
      | nil =>
        refine (notes_node h).trans ?_
        cases receiver <;>
          simp [Expr.receiverScript, Expr.children, Node.bodyScript, Expr.notes_scripts]
  | superCall extent qualifier typeArguments n arguments binding =>
    have hbody := h.of_node
    cases qualifier with
    | some => exact absurd hbody not_quiet_refuse
    | none =>
      cases binding with
      | none => exact absurd hbody not_quiet_missingBinding
      | some binding =>
        cases typeArguments with
        | cons => exact absurd hbody not_quiet_refuse
        | nil =>
          refine (notes_node h).trans ?_
          cases hword : s.target.profile.superWord with
          | none => simp [hword] at hbody
          | some word => simp [memberScript, Expr.children, Node.bodyScript, Expr.notes_scripts]
  | field extent object n binding =>
    rw [Expr.script, notes_node h]
    have hbody := h.of_node
    cases haccess : memberAccess? s.target binding with
    | none => simp [haccess] at hbody
    | some access => simp [memberScript, Expr.children, Node.bodyScript]
  | superField extent qualifier n binding =>
    rw [Expr.script, notes_node h]
    have hbody := h.of_node
    cases qualifier with
    | some => exact absurd hbody not_quiet_refuse
    | none =>
      cases hword : s.target.profile.superWord with
      | none => simp [hword] at hbody
      | some word =>
        cases haccess : memberAccess? s.target binding with
        | none => simp [hword, haccess] at hbody
        | some access => simp [memberScript, Expr.children, Node.bodyScript]
  | index extent array position =>
    rw [Expr.script, notes_node h]
    simp [Expr.children, Node.bodyScript, keep]
  | create extent outer typeArguments type arguments body =>
    rw [Expr.script, notes_node h]
    have hbody := h.of_node
    cases outer with
    | some => exact absurd hbody not_quiet_refuse
    | none =>
      cases typeArguments with
      | cons => exact absurd hbody not_quiet_refuse
      | nil =>
        cases body with
        | some => exact absurd hbody not_quiet_refuse
        | none =>
          have hword : notes (if s.target = .swift then [drop "new", .skipTrivia]
              else [keep "new", .copyTrivia]) = [] := by
            split <;> rfl
          simp [hword, Expr.children, Node.bodyScript, Expr.notes_scripts]
  | cast extent type operand =>
    rw [Expr.script, notes_node h]
    simp [Expr.children, Node.bodyScript, keep]
  | instanceOf extent left type =>
    rw [Expr.script, notes_node h]
    have hbody := h.of_node
    cases hword : s.target.profile.instanceOfWord with
    | none => simp [hword] at hbody
    | some word => simp [Expr.children, Node.bodyScript]

/-! ### Variables and statements -/

@[simp]
theorem notes_modifiersScript {declaration : Declaration} {modifiers : List Modifier} :
    notes (modifiersScript s declaration modifiers) = [] := rfl

@[simp]
theorem notes_modifier {m : Modifier} : notes ((Node.modifier m).bodyScript s) = [] := rfl

theorem Fragment.notes_script {f : Fragment} : notes (f.script s) = notes (f.body s none) :=
  notes_node_of_supports (by cases s.target <;> rfl)

theorem Fragment.notes_eq {f : Fragment} (h : Quiet (f.script s)) :
    notes (f.script s) = Node.allNotes s f.children := by
  rw [f.notes_script]
  have hbody := h.of_node
  unfold Fragment.body at hbody ⊢
  split
  · next hdims =>
    rw [if_pos hdims] at hbody
    exact absurd hbody not_quiet_refuse
  · cases hinitial : f.initial <;>
      simp [Fragment.children, hinitial, Node.bodyScript, operator]

theorem notes_variablesScript (ht : s.target = .csharp) {modifiers : List Modifier}
    {type : TypeRef} {fragments : List Fragment} :
    notes (variablesScript s modifiers type fragments) =
      Node.allNotes s (.type type :: fragments.map .fragment) := by
  have hfragments : (fragments.map (Fragment.body s none)).flatMap notes =
      Node.allNotes s (fragments.map .fragment) := by
    simp [List.flatMap_map, Node.bodyScript, Fragment.notes_script]
  have hscript : variablesScript s modifiers type fragments =
      type.script s ++ commaSeparated (fragments.map (Fragment.body s none)) := by
    rw [variablesScript, ht]
    rfl
  rw [hscript, notes_append, notes_commaSeparated, hfragments]
  rfl

theorem Stmt.notes_scripts {statements : List Stmt} :
    notes (Stmt.scripts s statements) = Node.allNotes s (statements.map .stmt) := by
  induction statements with
  | nil => rfl
  | cons t rest ih => simp [Stmt.scripts, ih, Node.bodyScript]

@[simp]
theorem notes_conditionScript {condition : Expr} :
    notes (conditionScript s condition) = notes (condition.script s) := by
  simp [conditionScript, keep]

theorem Stmt.notes_eq (ht : s.target = .csharp) {t : Stmt} (h : Quiet (t.script s)) :
    notes (t.script s) = Node.allNotes s t.children := by
  have hbody (word : String) (body : Stmt) : checkBody s.target word body = [] := by
    rw [ht]
    rfl
  cases t with
  | block extent statements =>
    rw [Stmt.script, notes_node h]
    simp [Stmt.notes_scripts, Stmt.children, keep]
  | expression extent expr =>
    rw [Stmt.script, notes_node h]
    simp [ht, Stmt.children, Node.bodyScript]
  | declare extent modifiers type fragments =>
    rw [Stmt.script, notes_node h]
    simp [notes_variablesScript ht, Stmt.children]
  | returns extent value =>
    refine (notes_node h).trans ?_
    cases value <;> simp [Stmt.children, Node.bodyScript, keep]
  | ifElse extent condition positive negative =>
    refine (notes_node h).trans ?_
    cases negative <;>
      simp [Stmt.elseScript, hbody, Stmt.children, Node.bodyScript, keep]
  | whileLoop extent condition body =>
    rw [Stmt.script, notes_node h]
    simp [hbody, Stmt.children, Node.bodyScript, keep]
  | doLoop extent body condition =>
    rw [Stmt.script, notes_node h]
    simp [hbody, Stmt.children, Node.bodyScript, keep]
  | empty => exact notes_node h
  | jump word extent label =>
    cases label with
    | none => exact notes_node h
    | some n => exact absurd h.of_node not_quiet_refuse
  | throws extent value =>
    rw [Stmt.script, notes_node h]
    simp [Stmt.children, Node.bodyScript, keep]
  | other => exact absurd h.of_node not_quiet_refuse

/-! ### Declarations -/

theorem Parameter.notes_eq (ht : s.target = .csharp) {p : Parameter} (h : Quiet (p.script s)) :
    notes (p.script s) = Node.allNotes s p.children := by
  refine (notes_node h).trans ?_
  have hbody := h.of_node
  split
  · next hdims =>
    rw [if_pos hdims] at hbody
    exact absurd hbody not_quiet_refuse
  · cases hvarargs : p.isVarargs <;>
      simp [ht, hvarargs, plainParameter, Parameter.children, Node.bodyScript]

theorem FieldDecl.notes_eq (ht : s.target = .csharp) {f : FieldDecl} (h : Quiet (f.script s)) :
    notes (f.script s) = Node.allNotes s f.children := by
  rw [FieldDecl.script, notes_node h]
  simp [notes_variablesScript ht, FieldDecl.children]

theorem notes_refuseTypeParameters {target : Target} {parameters : List Extent}
    (h : Quiet (refuseTypeParameters target parameters)) :
    notes (refuseTypeParameters target parameters) = [] := by
  cases parameters with
  | nil => rfl
  | cons => exact absurd h not_quiet_refuse

@[simp]
theorem notes_thrownScript {target : Target} {thrown : List TypeRef} :
    notes (thrownScript target thrown) = [] := by
  have more (rest : List TypeRef) : notes (moreThrown rest) = [] := by
    induction rest with
    | nil => rfl
    | cons type rest ih => simp [moreThrown, drop, ih]
  cases thrown with
  | nil => rfl
  | cons type rest => cases target <;> simp [thrownScript, keep, drop, more]

theorem MethodDecl.notes_eq (ht : s.target = .csharp) {m : MethodDecl} (h : Quiet (m.script s)) :
    notes (m.script s) = Node.allNotes s m.children := by
  refine (notes_node h).trans ?_
  have hbody := h.of_node
  simp only [quiet_append] at hbody
  obtain ⟨⟨⟨⟨⟨⟨⟨⟨⟨hparameters, hdims⟩, -⟩, -⟩, -⟩, -⟩, -⟩, -⟩, -⟩, -⟩ := hbody
  have hdims : m.extraDimensions = 0 := by
    split at hdims
    · exact absurd hdims not_quiet_refuse
    · next hzero => simpa using hzero
  have hname : notes (m.nameScript s) = Node.allNotes s (m.returnType.toList.map .type) := by
    have hcsharp : (s.target == .swift) = false := by
      rw [ht]
      rfl
    unfold MethodDecl.nameScript
    rw [hcsharp]
    cases m.returnType <;> simp [Node.bodyScript]
  have hresult : m.resultScript s = [] := by
    unfold MethodDecl.resultScript
    cases m.returnType <;> simp [ht]
  have himpl : notes (m.bodyScript s) =
      Node.allNotes s (m.body.toList.map fun body => .stmt body.toStmt) := by
    unfold MethodDecl.bodyScript
    cases m.body <;> simp [Node.bodyScript]
  simp [notes_refuseTypeParameters hparameters, hdims, hname, hresult, himpl, List.flatMap_map,
    MethodDecl.children, Node.bodyScript]

theorem TypeHeader.notes_eq {h : TypeHeader} (hquiet : Quiet (h.script s)) :
    notes (h.script s) = Node.allNotes s h.children := by
  simp only [TypeHeader.script, quiet_append] at hquiet
  obtain ⟨⟨⟨⟨⟨⟨⟨hparameters, -⟩, -⟩, -⟩, -⟩, -⟩, -⟩, -⟩ := hquiet
  have hword : notes (h.wordScript s.target) = [] := by
    unfold TypeHeader.wordScript
    split <;> rfl
  have hbases : notes (h.basesScript s) =
      Node.allNotes s (h.superclass.toList.map .type ++ h.interfaces.map .type) := by
    unfold TypeHeader.basesScript
    cases h.superclass <;> cases h.interfaces <;> simp [List.flatMap_map, Node.bodyScript]
  simp [TypeHeader.script, notes_refuseTypeParameters hparameters, hword, hbases,
    TypeHeader.children, Node.bodyScript, keep]

theorem Member.notes_scripts {members : List Member} :
    notes (Member.scripts s members) = Node.allNotes s (members.map .member) := by
  induction members with
  | nil => rfl
  | cons m rest ih => simp [Member.scripts, ih, Node.bodyScript]

theorem Member.notes_eq (ht : s.target = .csharp) {m : Member} (h : Quiet (m.script s)) :
    notes (m.script s) = Node.allNotes s m.children := by
  cases m with
  | field f =>
    rw [Member.script] at h ⊢
    exact FieldDecl.notes_eq ht h
  | method m =>
    rw [Member.script] at h ⊢
    exact MethodDecl.notes_eq ht h
  | type header members =>
    rw [Member.script] at h ⊢
    rw [notes_node h]
    have hbody := h.of_node
    split
    · next hform =>
      rw [if_pos hform] at hbody
      simp only [quiet_append] at hbody
      simp [TypeHeader.notes_eq hbody.1.1, Member.notes_scripts, Member.children, keep]
    · next hform =>
      rw [if_neg hform] at hbody
      exact absurd hbody not_quiet_refuse
  | setup extent =>
    rw [Member.script] at h
    exact absurd h.of_node not_quiet_refuse

/-! ### Nodes and units -/

/-- In C# a node notes what it needs itself and what the nodes right below it note. -/
theorem Node.notes_eq (ht : s.target = .csharp) {n : Node} (h : Quiet (n.bodyScript s)) :
    notes (n.bodyScript s) = n.requirement s ++ Node.allNotes s n.children := by
  cases n with
  | unit u =>
    have hpackage : Node.allNotes s (u.package.toList.map .package) = [] := by
      cases u.package <;> rfl
    have himports : Node.allNotes s (u.imports.map .imported) = [] :=
      List.flatMap_eq_nil_iff.2 (List.forall_mem_map.2 fun _ _ => rfl)
    rw [Node.bodyScript, notes_flatMap, Node.children, CompilationUnit.children, allNotes_append,
      allNotes_append, hpackage, himports, allNotes_map]
    rfl
  | package | imported | modifier => rfl
  | member m => exact Member.notes_eq ht h
  | parameter p => exact Parameter.notes_eq ht h
  | fragment f => exact Fragment.notes_eq h
  | type t => exact TypeRef.notes_eq h
  | name n => cases n <;> simp [Node.bodyScript, Node.requirement, Node.children, Name.children]
  | expr e => exact Expr.notes_eq h
  | stmt t => exact Stmt.notes_eq ht h

/-- What is noted for a node inside another is noted for the other. -/
theorem Node.Holds.notes_subset (ht : s.target = .csharp) {root n : Node} {above : Option Node}
    (h : root.Holds above n) (hroot : Quiet (root.bodyScript s)) :
    notes (n.bodyScript s) ⊆ notes (root.bodyScript s) := by
  induction h with
  | self => exact List.Subset.refl _
  | @part _ n p hn hp ih =>
    have hquiet : Quiet (n.bodyScript s) := fun e he => hroot e (ih he)
    refine List.Subset.trans (fun x hx => ?_) ih
    rw [Node.notes_eq ht hquiet]
    exact List.mem_append_right _ (List.mem_flatMap.2 ⟨p, hp, hx⟩)

/-! ## What has been noted -/

theorem mem_required_of_renderType {type : TypeDecl} {name : String} {ctx after : Context}
    (h : renderType s type ctx = .ok () after) (hmem : .require name ∈ type.script s) :
    name ∈ after.required := by
  obtain ⟨_, mid, _, -, -, hrun, hcopy⟩ := renderType_stages h
  exact (copyTrivia_leaves.ok hcopy).required.subset (Step.mem_required_of_runAll hrun hmem)

theorem mem_required_of_renderBody {package : Option PackageDecl} {type : TypeDecl}
    {name : String} {ctx after : Context} (h : renderBody s package type ctx = .ok () after)
    (hmem : .require name ∈ type.script s) : name ∈ after.required := by
  obtain hbare | ⟨p, rfl, hopens⟩ := bare_or_opens s.target package
  · rw [renderBody_bare hbare] at h
    exact mem_required_of_renderType h hmem
  · obtain ⟨_, typed, -, htype, hclose⟩ := renderBody_stages hopens h
    have hclosed := (Leaves.bind (output_leaves Writer.ensureLineStart_leaves) fun _ =>
      output_leaves (Writer.writeLine_leaves "\x7d")).ok hclose
    have htyped : name ∈ typed.required := mem_required_of_renderType htype hmem
    exact hclosed.required.subset htyped

/-- A type in the unit needs the namespace. -/
def CompilationUnit.Needs (s : Settings) (u : CompilationUnit) (name : String) : Prop :=
  ∃ above extent n binding, (Node.unit u).Holds above (.type (.named extent n (some binding))) ∧
    s.implicitImport? binding.qualifiedName = some name

/-- After the body of a file all namespaces are noted that the types in it need. -/
theorem CompilationUnit.mem_required (ht : s.target = .csharp) {u : CompilationUnit}
    {type : TypeDecl} (htypes : u.types = [type]) {ctx after : Context}
    (h : renderBody s u.package type ctx = .ok () after) {name : String}
    (hneeds : u.Needs s name) : name ∈ after.required := by
  obtain ⟨above, extent, n, binding, hheld, hname⟩ := hneeds
  have hscript : (Node.unit u).bodyScript s = type.script s := by
    rw [Node.bodyScript, htypes, List.flatMap_singleton]
  have hquiet : Quiet ((Node.unit u).bodyScript s) := hscript ▸ (renderBody_clear h).quiet
  have hsubset := hheld.notes_subset ht hquiet
  have hown :
      .require name ∈ notes (Node.bodyScript s (.type (.named extent n (some binding)))) := by
    rw [Node.notes_eq ht fun e he => hquiet e (hsubset he), Node.requirement,
      TypeBinding.requirement, hname]
    exact List.mem_append_left _ List.mem_cons_self
  obtain ⟨hmem, -⟩ := List.mem_filter.1 (hsubset hown)
  exact mem_required_of_renderBody h (hscript ▸ hmem)

end

end Tree

end Lockstep
