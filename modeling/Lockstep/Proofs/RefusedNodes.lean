import Lockstep.Proofs.RunningUnits
import Lockstep.Proofs.Walk

/-!
# Refused nodes leave no trace

Whatever is wrong with a node itself is looked at before its first token is passed: its kind, its
place, and then what hangs on it. So a node that is refused for its own sake leaves the state of the
rendering as it was, whatever that state is, and the error says what is refused unless the node is
not where the cursor is.

- `Refuses`, `RefusesAt`: a rendering that refuses the tree and changes nothing.
- `Expr.IsRefused`, `Member.IsRefused`, …: what a node is refused for.
- `Node.render_refused`: the theorem about nodes.
-/

namespace Lockstep

open Config Render Source Target Text

namespace Render

/-! ## Renderings that refuse -/

section

variable {α β : Type} {x : Rendering α} {ctx : Context}

/-- The rendering refuses the tree and leaves the state as it is. -/
def Refuses (x : Rendering α) (ctx : Context) : Prop :=
  ∃ e, x ctx = .error e ctx ∧ e.IsRefusal

/-- The rendering of a node ends at once: it refuses the tree, or the node is not here. -/
def RefusesAt (extent : Extent) (x : Rendering α) (ctx : Context) : Prop :=
  ∃ e, x ctx = .error e ctx ∧ (ctx.cursor.hasReached extent.start = true → e.IsRefusal)

theorem refuses_throw {e : RenderError} (he : e.IsRefusal) :
    Refuses (throw e : Rendering α) ctx :=
  ⟨e, rfl, he⟩

theorem Refuses.bind {f : α → Rendering β} (h : Refuses x ctx) : Refuses (x >>= f) ctx := by
  obtain ⟨e, hx, he⟩ := h
  exact ⟨e, bind_eq_of_error hx, he⟩

/-- What does not change the state may come before a refusal. -/
theorem Refuses.bind_of_eq {a : α} {f : α → Rendering β} (hx : x ctx = .ok a ctx)
    (h : Refuses (f a) ctx) : Refuses (x >>= f) ctx := by
  obtain ⟨e, hf, he⟩ := h
  exact ⟨e, (bind_eq_of_ok hx).trans hf, he⟩

/-- After a check of the place, a body that refuses does so only if the node is here. -/
theorem refusesAt_enter {kind : Tree.Kind} {extent : Extent} {body : Rendering Unit}
    (h : Refuses body ctx) : RefusesAt extent (do enter kind extent; body) ctx := by
  by_cases hreached : ctx.cursor.hasReached extent.start = true
  · have henter : enter kind extent ctx = .ok () ctx := by
      show (if ctx.cursor.hasReached extent.start then pure () else _ : Rendering Unit) ctx = _
      rw [if_pos hreached]
      rfl
    obtain ⟨e, hrun, he⟩ : Refuses (do enter kind extent; body) ctx := .bind_of_eq henter h
    exact ⟨e, hrun, fun _ => he⟩
  · have henter : ∃ e, enter kind extent ctx = .error e ctx := by
      show ∃ e, (if ctx.cursor.hasReached extent.start then pure () else _ : Rendering Unit) ctx = _
      rw [if_neg hreached]
      exact ⟨_, rfl⟩
    obtain ⟨e, henter⟩ := henter
    exact ⟨e, bind_eq_of_error henter, fun h => absurd h hreached⟩

/-- A node is refused if its kind is, or for something that makes its body refuse. -/
theorem refusesAt_inNode {target : Target} {kind : Tree.Kind} {extent : Extent}
    {body : Rendering Unit} {P : Prop} (h : target.supports kind = false ∨ P)
    (hbody : P → Refuses body ctx) : RefusesAt extent (inNode target kind extent body) ctx := by
  rw [inNode_eq]
  split
  · next hkind => exact refusesAt_enter (hbody (h.resolve_left (by simp [hkind])))
  · exact ⟨_, rfl, fun _ => trivial⟩

end

/-! ## Scripts that refuse -/

section

variable {target : Target} {kind : Tree.Kind} {extent : Extent} {xs ys : Script} {ctx : Context}

theorem Refuses.append (h : Refuses (Step.runAll xs) ctx) :
    Refuses (Step.runAll (xs ++ ys)) ctx := by
  rw [Step.runAll_append]
  exact h.bind

theorem refuses_refuse {refusal : Refusal} :
    Refuses (Step.runAll (Script.refuse target refusal kind extent)) ctx :=
  Refuses.bind (refuses_throw trivial)

theorem refuses_missingBinding {name : String} :
    Refuses (Step.runAll (Script.missingBinding name extent)) ctx :=
  Refuses.bind (refuses_throw trivial)

/-- A check that fails refuses the node; else it is up to what follows. -/
theorem refuses_check {c : Prop} [Decidable c] {refusal : Refusal}
    (h : ¬c → Refuses (Step.runAll xs) ctx) :
    Refuses (Step.runAll (if c then Script.refuse target refusal kind extent else xs)) ctx := by
  split
  · exact refuses_refuse
  · next hc => exact h hc

theorem refusesAt_node {P : Prop} (h : target.supports kind = false ∨ P)
    (hbody : P → Refuses (Step.runAll xs) ctx) :
    RefusesAt extent (runScript (.node target kind extent xs)) ctx := by
  unfold runScript Script.node
  split
  · next hkind => exact refusesAt_enter (hbody (h.resolve_left (by simp [hkind])))
  · exact ⟨_, rfl, fun _ => trivial⟩

theorem refuses_swapModifier {word : Tree.ModifierWord}
    (h : ∀ declaration ∈ ctx.declaration, modifierRule target word declaration = .unsupported) :
    Refuses (swapModifier target word extent) ctx := by
  refine .bind_of_eq rfl ?_
  cases hdecl : ctx.declaration with
  | none => exact refuses_throw trivial
  | some declaration =>
    simp only [h declaration hdecl]
    exact refuses_throw trivial

end

end Render

namespace Tree

/-! ## What a node is refused for -/

/-- Members of such owners are written in two ways, and it is not known which one it is. -/
def accessUnknown (target : Target) (binding : Option MemberBinding) : Prop :=
  target.profile.staticAccess ≠ target.profile.instanceAccess ∧ binding = none

/-- Types with arguments, and wildcards. -/
def TypeRef.IsRefused : TypeRef → Prop
  | .parameterized .. | .wildcard _ => True
  | _ => False

/-- What an expression is refused for, apart from its kind. -/
def Expr.IsRefused (target : Target) : Expr → Prop
  | .literal kind _ token => kind.render? target token = none
  | .this _ qualifier => qualifier.isSome
  | .unary _ op _ => target.unaryToken? op = none
  | .step _ _ op => target.stepToken? op = none
  | .assign _ left op _ => target.assignToken? op = none ∧ left.isPlainVariable = false
  | .call _ _ typeArguments _ _ binding => binding = none ∨ typeArguments ≠ []
  | .superCall _ qualifier typeArguments _ _ binding =>
    qualifier.isSome ∨ binding = none ∨ typeArguments ≠ [] ∨ target.profile.superWord = none
  | .field _ _ _ binding => accessUnknown target binding
  | .superField _ qualifier _ binding =>
    qualifier.isSome ∨ target.profile.superWord = none ∨ accessUnknown target binding
  | .create _ outer typeArguments _ _ body =>
    outer.isSome ∨ typeArguments ≠ [] ∨ body.isSome
  | .instanceOf .. => target.profile.instanceOfWord = none
  | .other .. => True
  | _ => False

def Stmt.IsRefused : Stmt → Prop
  | .jump _ _ label => label.isSome
  | .other .. => True
  | _ => False

def Member.IsRefused : Member → Prop
  | .field _ => False
  | .method m => m.typeParameters ≠ [] ∨ m.extraDimensions ≠ 0
  | .type h _ => h.form = .enum ∨ h.form = .annotationType ∨ h.typeParameters ≠ []
  | .setup _ => True

/-- A keyword is refused outside declarations and where its rule says so, an annotation if it has
arguments or if nothing is known of it. -/
def Modifier.IsRefused (s : Settings) (declaration : Option Declaration) : Modifier → Prop
  | .word _ w => ∀ d ∈ declaration, modifierRule s.target w d = .unsupported
  | .annotated mark => mark.form ≠ .marker ∨ s.mark? mark.qualifiedName = none

def ImportDecl.IsRefused (i : ImportDecl) : Prop := i.isStatic = true ∨ ∃ n, i.name = .simple n

/-- The node is refused for its own sake, and not for that of a node below it. -/
def Node.IsRefused (s : Settings) (declaration : Option Declaration) (n : Node) : Prop :=
  s.target.supports n.kind = false ∨
    match n with
    | .unit u => u.types.length ≠ 1
    | .package _ | .name _ => False
    | .imported i => i.IsRefused
    | .member m => m.IsRefused
    | .parameter p => p.extraDimensions ≠ 0
    | .fragment f => f.extraDimensions ≠ 0
    | .modifier m => m.IsRefused s declaration
    | .type t => t.IsRefused
    | .expr e => e.IsRefused s.target
    | .stmt t => t.IsRefused

/-! ## Refused nodes -/

variable {s : Settings} {ctx : Context}

theorem TypeRef.script_refuses {t : TypeRef}
    (h : s.target.supports t.kind = false ∨ t.IsRefused) :
    RefusesAt t.extent (runScript (t.script s)) ctx := by
  cases t with
  | primitive | named | array => exact refusesAt_node h False.elim
  | parameterized | wildcard => exact refusesAt_node h fun _ => refuses_refuse

theorem Name.script_refuses {n : Name} (h : s.target.supports n.kind = false) :
    RefusesAt n.extent (runScript (n.script s)) ctx := by
  cases n with
  | simple | qualified => exact refusesAt_node (.inl h) False.elim

theorem memberAccess?_eq_none_iff {target : Target} {binding : Option MemberBinding} :
    memberAccess? target binding = none ↔ accessUnknown target binding := by
  cases binding with
  | some binding => simp [memberAccess?, accessUnknown]
  | none => simp [memberAccess?, accessUnknown]

theorem Expr.script_refuses {e : Expr}
    (h : s.target.supports e.kind = false ∨ e.IsRefused s.target) :
    RefusesAt e.extent (runScript (e.script s)) ctx := by
  cases e with
  | name n => exact Name.script_refuses (h.resolve_right id)
  | boolean | null | parenthesized | binary | conditional | index | cast =>
    rw [Expr.script]
    exact refusesAt_node h False.elim
  | literal kind extent token =>
    rw [Expr.script]
    refine refusesAt_node h fun (h : kind.render? s.target token = none) => ?_
    rw [literalScript, h]
    exact refuses_refuse
  | this extent qualifier =>
    rw [Expr.script]
    refine refusesAt_node h fun (h : qualifier.isSome) => ?_
    rw [if_pos h]
    exact refuses_refuse
  | unary extent op operand =>
    rw [Expr.script]
    refine refusesAt_node h fun (h : s.target.unaryToken? op = none) => ?_
    rw [h]
    exact refuses_refuse
  | step extent operand op =>
    rw [Expr.script]
    refine refusesAt_node h fun (h : s.target.stepToken? op = none) => ?_
    rw [h]
    exact refuses_refuse
  | assign extent left op right =>
    rw [Expr.script]
    refine refusesAt_node h fun (h : s.target.assignToken? op = none ∧ _) => ?_
    rw [h.1, h.2, if_neg Bool.false_ne_true]
    exact refuses_refuse
  | call extent receiver typeArguments n arguments binding =>
    cases binding with
    | none =>
      rw [Expr.script]
      exact refusesAt_node h fun _ => refuses_missingBinding
    | some binding =>
      rw [Expr.script]
      refine refusesAt_node h fun (h : some binding = none ∨ typeArguments ≠ []) => ?_
      refine refuses_check fun hnil => ?_
      rw [Bool.not_eq_true, Bool.not_eq_false', List.isEmpty_iff] at hnil
      exact absurd hnil (h.resolve_left (Option.some_ne_none _))
  | superCall extent qualifier typeArguments n arguments binding =>
    rw [Expr.script.eq_def]
    refine refusesAt_node h fun (h : qualifier.isSome ∨ binding = none ∨ typeArguments ≠ [] ∨
      s.target.profile.superWord = none) => ?_
    refine refuses_check fun hqualifier => ?_
    cases binding with
    | none => exact refuses_missingBinding
    | some binding =>
      refine refuses_check fun hnil => ?_
      rw [Bool.not_eq_true, Bool.not_eq_false', List.isEmpty_iff] at hnil
      have hword : s.target.profile.superWord = none := by simpa [hqualifier, hnil] using h
      simp only [hword]
      exact refuses_refuse
  | field extent object n binding =>
    rw [Expr.script]
    refine refusesAt_node h fun (h : accessUnknown s.target binding) => ?_
    rw [memberAccess?_eq_none_iff.2 h]
    exact refuses_missingBinding
  | superField extent qualifier n binding =>
    rw [Expr.script]
    refine refusesAt_node h fun (h : qualifier.isSome ∨ s.target.profile.superWord = none ∨
      accessUnknown s.target binding) => ?_
    refine refuses_check fun hqualifier => ?_
    cases hword : s.target.profile.superWord with
    | none => exact refuses_refuse
    | some word =>
      have hunknown : accessUnknown s.target binding := by simpa [hqualifier, hword] using h
      simp only [memberAccess?_eq_none_iff.2 hunknown]
      exact refuses_missingBinding
  | create extent outer typeArguments type arguments body =>
    rw [Expr.script]
    refine refusesAt_node h fun (h : outer.isSome ∨ typeArguments ≠ [] ∨ body.isSome) => ?_
    refine refuses_check fun houter => refuses_check fun hnil => refuses_check fun hbody => ?_
    rw [Bool.not_eq_true, Bool.not_eq_false', List.isEmpty_iff] at hnil
    simp [houter, hnil, hbody] at h
  | instanceOf extent left type =>
    rw [Expr.script]
    refine refusesAt_node h fun (h : s.target.profile.instanceOfWord = none) => ?_
    rw [h]
    exact refuses_refuse
  | other form extent =>
    rw [Expr.script]
    exact refusesAt_node h fun _ => refuses_refuse

theorem Stmt.script_refuses {t : Stmt} (h : s.target.supports t.kind = false ∨ t.IsRefused) :
    RefusesAt t.extent (runScript (t.script s)) ctx := by
  cases t with
  | block | expression | declare | returns | ifElse | whileLoop | doLoop | empty | throws =>
    rw [Stmt.script.eq_def]
    exact refusesAt_node h False.elim
  | jump word extent label =>
    rw [Stmt.script]
    refine refusesAt_node h fun (h : label.isSome) => ?_
    exact refuses_check fun hlabel => absurd h hlabel
  | other form extent =>
    rw [Stmt.script]
    exact refusesAt_node h fun _ => refuses_refuse

theorem Modifier.script_refuses {m : Modifier}
    (h : s.target.supports m.kind = false ∨ m.IsRefused s ctx.declaration) :
    RefusesAt m.extent (runScript (m.script s)) ctx := by
  cases m with
  | word extent w => exact refusesAt_node h fun h => Refuses.bind (refuses_swapModifier h)
  | annotated mark =>
    refine refusesAt_node h fun (h : mark.form ≠ .marker ∨ s.mark? mark.qualifiedName = none) => ?_
    unfold markScript
    refine refuses_check fun hform => ?_
    have hmarker : mark.form = .marker := by simpa using hform
    have hnone : s.mark? mark.qualifiedName = none := h.resolve_left (absurd hmarker)
    rw [hnone]
    exact refuses_refuse

theorem refuses_refuseTypeParameters {target : Target} {typeParameters : List Extent}
    (h : typeParameters ≠ []) :
    Refuses (Step.runAll (refuseTypeParameters target typeParameters)) ctx := by
  cases typeParameters with
  | nil => exact absurd rfl h
  | cons => exact refuses_refuse

theorem MethodDecl.script_refuses {m : MethodDecl}
    (h : s.target.supports .methodDeclaration = false ∨ m.typeParameters ≠ [] ∨
      m.extraDimensions ≠ 0) :
    RefusesAt m.extent (runScript (m.script s)) ctx := by
  refine refusesAt_node h fun h => ?_
  simp only [List.append_assoc]
  by_cases hnil : m.typeParameters = []
  · have hdimensions : (m.extraDimensions != 0) = true := by simpa [hnil] using h
    rw [hnil, if_pos hdimensions, refuseTypeParameters, List.nil_append]
    exact refuses_refuse.append
  · exact (refuses_refuseTypeParameters hnil).append

theorem Member.script_refuses {m : Member} (h : s.target.supports m.kind = false ∨ m.IsRefused) :
    RefusesAt m.extent (runScript (m.script s)) ctx := by
  cases m with
  | field f =>
    rw [Member.script]
    exact refusesAt_node h False.elim
  | method m =>
    rw [Member.script]
    exact m.script_refuses h
  | type header members =>
    rw [Member.script]
    refine refusesAt_node h fun (h : header.form = .enum ∨ header.form = .annotationType ∨
      header.typeParameters ≠ []) => ?_
    split
    · next hplain =>
      have hparameters : header.typeParameters ≠ [] := by
        rcases h with h | h | h
        · rw [h] at hplain; cases hplain
        · rw [h] at hplain; cases hplain
        · exact h
      unfold TypeHeader.script
      simp only [List.append_assoc]
      exact (refuses_refuseTypeParameters hparameters).append
    · exact refuses_refuse
  | setup extent =>
    rw [Member.script]
    exact refusesAt_node h fun _ => refuses_refuse

theorem Parameter.script_refuses {p : Parameter}
    (h : s.target.supports .singleVariableDeclaration = false ∨ p.extraDimensions ≠ 0) :
    RefusesAt p.extent (runScript (p.script s)) ctx :=
  refusesAt_node h fun h => refuses_check fun hnot => absurd h (by simpa using hnot)

theorem Fragment.script_refuses {f : Fragment}
    (h : s.target.supports .variableDeclarationFragment = false ∨ f.extraDimensions ≠ 0) :
    RefusesAt f.extent (runScript (f.script s)) ctx :=
  refusesAt_node h fun h => refuses_check fun hnot => absurd h (by simpa using hnot)

theorem ImportDecl.render_refuses {i : ImportDecl}
    (h : s.target.supports .importDeclaration = false ∨ i.IsRefused) :
    RefusesAt i.extent (i.render s) ctx := by
  refine refusesAt_inNode h fun (h : i.isStatic = true ∨ ∃ n, i.name = .simple n) => ?_
  split
  · exact refuses_throw trivial
  · next hstatic =>
    obtain ⟨n, hname⟩ := h.resolve_left hstatic
    rw [hname]
    exact refuses_throw trivial

theorem CompilationUnit.render_refuses {u : CompilationUnit}
    (h : s.target.supports .compilationUnit = false ∨ u.types.length ≠ 1) :
    RefusesAt u.extent (u.render s) ctx := by
  refine refusesAt_inNode h fun h => ?_
  match htypes : u.types with
  | [] => exact refuses_throw trivial
  | [type] => exact absurd (congrArg List.length htypes) h
  | _ :: _ :: _ => exact refuses_throw trivial

/-- A node that is refused for its own sake is refused before anything is done: cursor, writer and
imports are as they were. -/
theorem Node.render_refused {n : Node} (h : n.IsRefused s ctx.declaration) :
    ∃ e, n.render s ctx = .error e ctx ∧
      (ctx.cursor.hasReached n.extent.start = true → e.IsRefusal) := by
  cases n with
  | unit u => exact u.render_refuses h
  | package p => exact refusesAt_inNode h False.elim
  | imported i => exact i.render_refuses h
  | member m => exact m.script_refuses h
  | parameter p => exact p.script_refuses h
  | fragment f => exact f.script_refuses h
  | modifier m => exact m.script_refuses h
  | type t => exact t.script_refuses h
  | name n => exact Name.script_refuses (h.resolve_right id)
  | expr e => exact e.script_refuses h
  | stmt t => exact t.script_refuses h

/-- A method with a type parameter, met after its comment while text is held back. -/
theorem Node.render_refused_typeParameter :
    let ctx : Context :=
      ⟨(Cursor.ofText "/** d */ public <T> T id();").pass 9,
        ⟨.new true, true, [⟨"class C \x7b\n", true⟩], 4, "\n"⟩, ["System"], ["System.Text"], none⟩
    let method : MethodDecl :=
      ⟨⟨0, 27⟩, [.word ⟨9, 15⟩ .public], [⟨17, 18⟩],
        some (.named ⟨20, 21⟩ (.simple ⟨⟨20, 21⟩, "T"⟩) none), false, ⟨⟨22, 24⟩, "id"⟩, [], 0, [],
        none⟩
    ∃ e, Node.render (.ofTarget .cpp) (.member (.method method)) ctx = .error e ctx ∧
      e.IsRefusal := by
  intro ctx method
  have hrefused : (Node.member (.method method)).IsRefused (.ofTarget .cpp) ctx.declaration :=
    .inr (.inl (List.cons_ne_nil _ _))
  obtain ⟨e, hrun, he⟩ := Node.render_refused hrefused
  have hreached : ctx.cursor.hasReached 0 = true := by decide +kernel
  exact ⟨e, hrun, he hreached⟩

end Tree

end Lockstep
