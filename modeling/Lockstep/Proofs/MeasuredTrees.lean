import Lockstep.Proofs.Measures

/-!
# Errors measure extents of the tree

The script of a node may measure the extents in its tree and no others, one lemma for each kind of
node. So an error measures one extent of the tree at most, and the arithmetic of its report is exact
unless that extent stops before it starts.

- `Node.extents`: the extents in a tree.
- `Node.measures`: a rendering measures extents of its tree only.
- `Node.render_error_measured`: the theorem about errors.
-/

namespace Lockstep

open Config Render Target Text

/-! ## The extents in a tree -/

namespace Tree

def Name.extents : Name → List Extent
  | .simple n => [n.extent]
  | .qualified extent qualifier n _ => extent :: n.extent :: qualifier.extents

mutual

def TypeRef.extents : TypeRef → List Extent
  | .primitive extent _ | .wildcard extent => [extent]
  | .named extent n _ => extent :: n.extents
  | .array extent element _ => extent :: element.extents
  | .parameterized extent base arguments =>
    extent :: (base.extents ++ TypeRef.allExtents arguments)

def TypeRef.allExtents : List TypeRef → List Extent
  | [] => []
  | type :: types => type.extents ++ TypeRef.allExtents types

end

mutual

def Expr.extents : Expr → List Extent
  | .name n => n.extents
  | .literal _ extent _ | .boolean extent _ | .null extent | .other _ extent => [extent]
  | .this extent qualifier => extent :: qualifier.toList.flatMap Name.extents
  | .parenthesized extent inner => extent :: inner.extents
  | .binary extent left _ right more =>
    extent :: (left.extents ++ right.extents ++ Expr.allExtents more)
  | .unary extent _ operand | .step extent operand _ => extent :: operand.extents
  | .assign extent left _ right => extent :: (left.extents ++ right.extents)
  | .conditional extent condition positive negative =>
    extent :: (condition.extents ++ positive.extents ++ negative.extents)
  | .call extent receiver typeArguments n arguments _ =>
    extent :: n.extent :: (Expr.optionExtents receiver ++
      typeArguments.flatMap TypeRef.extents ++ Expr.allExtents arguments)
  | .superCall extent qualifier typeArguments n arguments _ =>
    extent :: n.extent :: (qualifier.toList.flatMap Name.extents ++
      typeArguments.flatMap TypeRef.extents ++ Expr.allExtents arguments)
  | .field extent object n _ => extent :: n.extent :: object.extents
  | .superField extent qualifier n _ =>
    extent :: n.extent :: qualifier.toList.flatMap Name.extents
  | .index extent array position => extent :: (array.extents ++ position.extents)
  | .create extent outer typeArguments type arguments body =>
    extent :: (Expr.optionExtents outer ++ typeArguments.flatMap TypeRef.extents ++
      type.extents ++ Expr.allExtents arguments ++ body.toList)
  | .cast extent type operand => extent :: (type.extents ++ operand.extents)
  | .instanceOf extent left type => extent :: (left.extents ++ type.extents)

def Expr.allExtents : List Expr → List Extent
  | [] => []
  | e :: es => e.extents ++ Expr.allExtents es

def Expr.optionExtents : Option Expr → List Extent
  | none => []
  | some e => e.extents

end

def Modifier.extents : Modifier → List Extent
  | .word extent _ => [extent]
  | .annotated mark => mark.extent :: mark.typeName.extents

def Fragment.extents (f : Fragment) : List Extent :=
  f.extent :: f.name.extent :: Expr.optionExtents f.initial

mutual

def Stmt.extents : Stmt → List Extent
  | .block extent statements => extent :: Stmt.allExtents statements
  | .expression extent e => extent :: e.extents
  | .declare extent modifiers type fragments =>
    extent :: (modifiers.flatMap Modifier.extents ++ type.extents ++
      fragments.flatMap Fragment.extents)
  | .returns extent value => extent :: Expr.optionExtents value
  | .ifElse extent condition positive negative =>
    extent :: (condition.extents ++ positive.extents ++ Stmt.optionExtents negative)
  | .whileLoop extent condition body | .doLoop extent body condition =>
    extent :: (condition.extents ++ body.extents)
  | .empty extent | .other _ extent => [extent]
  | .jump _ extent label => extent :: label.toList.map SimpleName.extent
  | .throws extent value => extent :: value.extents

def Stmt.allExtents : List Stmt → List Extent
  | [] => []
  | stmt :: stmts => stmt.extents ++ Stmt.allExtents stmts

def Stmt.optionExtents : Option Stmt → List Extent
  | none => []
  | some stmt => stmt.extents

end

def Parameter.extents (p : Parameter) : List Extent :=
  p.extent :: p.name.extent :: (p.modifiers.flatMap Modifier.extents ++ p.type.extents)

def FieldDecl.extents (f : FieldDecl) : List Extent :=
  f.extent :: (f.modifiers.flatMap Modifier.extents ++ f.type.extents ++
    f.fragments.flatMap Fragment.extents)

def MethodDecl.extents (m : MethodDecl) : List Extent :=
  m.extent :: m.name.extent :: (m.modifiers.flatMap Modifier.extents ++ m.typeParameters ++
    m.returnType.toList.flatMap TypeRef.extents ++ m.parameters.flatMap Parameter.extents ++
    m.thrown.flatMap TypeRef.extents ++ m.body.toList.flatMap fun body => body.toStmt.extents)

def TypeHeader.extents (h : TypeHeader) : List Extent :=
  h.extent :: h.name.extent :: (h.modifiers.flatMap Modifier.extents ++ h.typeParameters ++
    h.superclass.toList.flatMap TypeRef.extents ++ h.interfaces.flatMap TypeRef.extents)

mutual

def Member.extents : Member → List Extent
  | .field f => f.extents
  | .method m => m.extents
  | .type header members => header.extents ++ Member.allExtents members
  | .setup extent => [extent]

def Member.allExtents : List Member → List Extent
  | [] => []
  | m :: ms => m.extents ++ Member.allExtents ms

end

def PackageDecl.extents (p : PackageDecl) : List Extent := p.extent :: p.name.extents

def ImportDecl.extents (i : ImportDecl) : List Extent := i.extent :: i.name.extents

def CompilationUnit.extents (u : CompilationUnit) : List Extent :=
  u.extent :: (u.package.toList.flatMap PackageDecl.extents ++
    u.imports.flatMap ImportDecl.extents ++ u.types.flatMap fun type => type.toMember.extents)

/-- All extents in a tree: those of its nodes, and of the parts of which only the place is kept. -/
def Node.extents : Node → List Extent
  | .unit u => u.extents
  | .package p => p.extents
  | .imported i => i.extents
  | .member m => m.extents
  | .parameter p => p.extents
  | .fragment f => f.extents
  | .modifier m => m.extents
  | .type t => t.extents
  | .name n => n.extents
  | .expr e => e.extents
  | .stmt t => t.extents

end Tree

/-! ## The scripts of trees -/

section

variable {P : Extent → Prop} {s : Settings}

namespace Tree

theorem SimpleName.within {n : SimpleName} (h : P n.extent) : Step.AllWithin P (n.script s) :=
  allWithin_node h ⟨trivial, trivial⟩

theorem Name.within (n : Name) (h : ∀ x ∈ n.extents, P x) : Step.AllWithin P (n.script s) := by
  induction n with
  | simple n => exact SimpleName.within (h _ List.mem_cons_self)
  | qualified extent qualifier n binding ih =>
    simp only [extents, List.forall_mem_cons] at h
    obtain ⟨hextent, hname, hqualifier⟩ := h
    exact allWithin_node hextent
      (by simp [ih hqualifier, SimpleName.within hname])

theorem allWithin_requirement (binding : TypeBinding) :
    Step.AllWithin P (binding.requirement s) := by
  unfold TypeBinding.requirement
  split <;> simp

theorem TypeRef.within (t : TypeRef) (h : ∀ x ∈ t.extents, P x) :
    Step.AllWithin P (t.script s) := by
  match t with
  | .primitive extent p =>
    exact allWithin_node (h _ List.mem_cons_self) ⟨trivial, trivial⟩
  | .named extent n binding =>
    simp only [extents, List.forall_mem_cons] at h
    have hname := Name.within (s := s) n h.2
    refine allWithin_node h.1 ?_
    cases binding with
    | none => exact hname
    | some binding =>
      refine allWithin_append.2 ⟨allWithin_requirement binding, ?_⟩
      split
      · exact ⟨trivial, trivial⟩
      · exact hname
  | .array extent element dimensions =>
    simp only [extents, List.forall_mem_cons] at h
    exact allWithin_node h.1 (allWithin_arrayScript.2 (TypeRef.within element h.2))
  | .parameterized extent base arguments =>
    simp only [extents, List.forall_mem_cons] at h
    exact allWithin_node h.1 (allWithin_refuse h.1)
  | .wildcard extent =>
    have hextent := h extent List.mem_cons_self
    exact allWithin_node hextent (allWithin_refuse hextent)

theorem allWithin_literalScript {target : Target} {kind : LiteralKind} {extent : Extent}
    {token : String} (h : P extent) : Step.AllWithin P (literalScript target kind extent token) := by
  unfold literalScript
  split
  · exact ⟨trivial, trivial⟩
  · exact allWithin_refuse h

theorem allWithin_memberScript {access : String} {n : SimpleName} (h : P n.extent) :
    Step.AllWithin P (memberScript s access n) := by
  simp [memberScript, SimpleName.within h]

mutual

theorem Expr.within (e : Expr) (h : ∀ x ∈ e.extents, P x) : Step.AllWithin P (e.script s) := by
  match e with
  | .name n => exact n.within h
  | .literal kind extent token =>
    have hextent := h extent List.mem_cons_self
    exact allWithin_node hextent (allWithin_literalScript hextent)
  | .boolean extent value | .null extent =>
    exact allWithin_node (h extent List.mem_cons_self) ⟨trivial, trivial⟩
  | .this extent qualifier =>
    have hextent := h extent List.mem_cons_self
    refine allWithin_node hextent ?_
    split
    · exact allWithin_refuse hextent
    · exact ⟨trivial, trivial⟩
  | .parenthesized extent inner =>
    simp only [Expr.extents, List.forall_mem_cons] at h
    exact allWithin_node h.1 (by simp [Expr.within inner h.2, Script.keep])
  | .binary extent left op right more =>
    simp only [Expr.extents, List.forall_mem_cons, List.forall_mem_append] at h
    obtain ⟨hextent, ⟨hleft, hright⟩, hmore⟩ := h
    have hleft := Expr.within left hleft
    have hright := Expr.within right hright
    refine allWithin_node hextent ?_
    split
    · exact allWithin_binaryScript.2
        ⟨allWithin_wrapped.2 hleft, allWithin_wrapped.2 hright,
          Expr.operandScripts_within op more hmore⟩
    · exact allWithin_nestedCalls.2
        ⟨hleft, List.forall_mem_cons.2 ⟨hright, Expr.scripts_within more hmore⟩⟩
  | .unary extent op operand | .step extent operand op =>
    simp only [Expr.extents, List.forall_mem_cons] at h
    have hoperand := Expr.within operand h.2
    refine allWithin_node h.1 ?_
    split
    · simp [hoperand]
    · exact allWithin_refuse h.1
  | .assign extent left op right =>
    simp only [Expr.extents, List.forall_mem_cons, List.forall_mem_append] at h
    obtain ⟨hextent, hleft, hright⟩ := h
    have hleft := Expr.within left hleft
    have hright := Expr.within right hright
    refine allWithin_node hextent ?_
    split
    · simp [hleft, hright]
    · split
      · simp [assignByCall, hleft, hright]
      · exact allWithin_refuse hextent
  | .conditional extent condition positive negative =>
    simp only [Expr.extents, List.forall_mem_cons, List.forall_mem_append] at h
    obtain ⟨hextent, ⟨hcondition, hpositive⟩, hnegative⟩ := h
    exact allWithin_node hextent (by
      simp [Expr.within condition hcondition, Expr.within positive hpositive,
        Expr.within negative hnegative])
  | .call extent receiver typeArguments n arguments binding =>
    simp only [Expr.extents, List.forall_mem_cons, List.forall_mem_append] at h
    obtain ⟨hextent, hname, ⟨hreceiver, -⟩, harguments⟩ := h
    refine allWithin_node hextent ?_
    cases binding with
    | none => exact allWithin_missingBinding hextent
    | some binding =>
      dsimp only
      split
      · exact allWithin_refuse hextent
      · have hreceiver := Expr.receiver_within (s.target.memberAccess binding.isStatic) receiver
          hreceiver
        have harguments := allWithin_arguments.2 (Expr.scripts_within arguments harguments)
        simp [hreceiver, SimpleName.within hname, harguments]
  | .superCall extent qualifier typeArguments n arguments binding =>
    simp only [Expr.extents, List.forall_mem_cons, List.forall_mem_append] at h
    obtain ⟨hextent, hname, -, harguments⟩ := h
    have harguments := allWithin_arguments.2 (Expr.scripts_within arguments harguments)
    refine allWithin_node hextent ?_
    split
    · exact allWithin_refuse hextent
    · cases binding with
      | none => exact allWithin_missingBinding hextent
      | some binding =>
        dsimp only
        split
        · exact allWithin_refuse hextent
        · split
          · exact allWithin_refuse hextent
          · simp [allWithin_memberScript hname, harguments]
  | .field extent object n binding =>
    simp only [Expr.extents, List.forall_mem_cons] at h
    obtain ⟨hextent, hname, hobject⟩ := h
    refine allWithin_node hextent ?_
    split
    · exact allWithin_missingBinding hextent
    · simp [Expr.within object hobject, allWithin_memberScript hname]
  | .superField extent qualifier n binding =>
    simp only [Expr.extents, List.forall_mem_cons] at h
    obtain ⟨hextent, hname, -⟩ := h
    refine allWithin_node hextent ?_
    split
    · exact allWithin_refuse hextent
    · split
      · exact allWithin_refuse hextent
      · split
        · exact allWithin_missingBinding hextent
        · simp [allWithin_memberScript hname]
  | .index extent array position =>
    simp only [Expr.extents, List.forall_mem_cons, List.forall_mem_append] at h
    obtain ⟨hextent, harray, hposition⟩ := h
    exact allWithin_node hextent (by
      simp [Expr.within array harray, Expr.within position hposition, Script.keep])
  | .create extent outer typeArguments type arguments body =>
    simp only [Expr.extents, List.forall_mem_cons, List.forall_mem_append] at h
    obtain ⟨hextent, ⟨⟨-, htype⟩, harguments⟩, -⟩ := h
    have harguments := allWithin_arguments.2 (Expr.scripts_within arguments harguments)
    refine allWithin_node hextent ?_
    split
    · exact allWithin_refuse hextent
    · split
      · exact allWithin_refuse hextent
      · split
        · exact allWithin_refuse hextent
        · have hword : Step.AllWithin P (if s.target == .swift then [Script.drop "new", .skipTrivia]
              else [Script.keep "new", .copyTrivia]) := by
            split <;> simp [Script.drop, Script.keep]
          have htype := type.within (s := s) htype
          simp only [allWithin_append]
          exact ⟨⟨⟨hword, htype⟩, trivial, trivial⟩, harguments⟩
  | .cast extent type operand =>
    simp only [Expr.extents, List.forall_mem_cons, List.forall_mem_append] at h
    obtain ⟨hextent, htype, hoperand⟩ := h
    exact allWithin_node hextent (by
      simp [type.within htype, Expr.within operand hoperand, Script.keep])
  | .instanceOf extent left type =>
    simp only [Expr.extents, List.forall_mem_cons, List.forall_mem_append] at h
    obtain ⟨hextent, hleft, htype⟩ := h
    refine allWithin_node hextent ?_
    split
    · exact allWithin_refuse hextent
    · simp [Expr.within left hleft, type.within htype]
  | .other form extent =>
    have hextent := h extent List.mem_cons_self
    exact allWithin_node hextent (allWithin_refuse hextent)

theorem Expr.scripts_within (es : List Expr) (h : ∀ x ∈ Expr.allExtents es, P x) :
    ∀ xs ∈ Expr.scripts s es, Step.AllWithin P xs := by
  match es with
  | [] => exact List.forall_mem_nil _
  | e :: es =>
    obtain ⟨he, hes⟩ := List.forall_mem_append.1 h
    exact List.forall_mem_cons.2 ⟨Expr.within e he, Expr.scripts_within es hes⟩

theorem Expr.operandScripts_within (op : BinaryOp) (es : List Expr)
    (h : ∀ x ∈ Expr.allExtents es, P x) :
    ∀ xs ∈ Expr.operandScripts s op es, Step.AllWithin P xs := by
  match es with
  | [] => exact List.forall_mem_nil _
  | e :: es =>
    obtain ⟨he, hes⟩ := List.forall_mem_append.1 h
    exact List.forall_mem_cons.2
      ⟨allWithin_wrapped.2 (Expr.within e he), Expr.operandScripts_within op es hes⟩

theorem Expr.receiver_within (access : String) (receiver : Option Expr)
    (h : ∀ x ∈ Expr.optionExtents receiver, P x) :
    Step.AllWithin P (Expr.receiverScript s access receiver) := by
  match receiver with
  | none => exact trivial
  | some e => simp [Expr.receiverScript, Expr.within e h]

end

/-! ### Modifiers, variables and statements -/

theorem Modifier.within (m : Modifier) (h : ∀ x ∈ m.extents, P x) :
    Step.AllWithin P (m.script s) := by
  have hextent : P m.extent := h m.extent (by cases m <;> exact List.mem_cons_self)
  cases m with
  | word extent w => exact allWithin_node hextent ⟨hextent, trivial⟩
  | annotated mark =>
    refine allWithin_node hextent ?_
    unfold markScript
    split
    · exact allWithin_refuse hextent
    · split
      · exact allWithin_refuse hextent
      · exact ⟨trivial, trivial, trivial, trivial⟩
      · exact ⟨trivial, trivial⟩

theorem allWithin_modifiersScript {declaration : Declaration} {modifiers : List Modifier}
    (h : ∀ x ∈ modifiers.flatMap Modifier.extents, P x) :
    Step.AllWithin P (modifiersScript s declaration modifiers) := by
  have hall := List.forall_mem_flatMap.1 h
  simp only [modifiersScript, allWithin_cons, Step.Within, allWithin_append, allWithin_flatMap,
    allWithin_nil, true_and, and_true]
  exact fun m hm => m.within (hall m hm)

theorem Fragment.within_body (f : Fragment) (type : Option TypeRef) (h : ∀ x ∈ f.extents, P x)
    (htype : ∀ t ∈ type, Step.AllWithin P (t.script s)) : Step.AllWithin P (f.body s type) := by
  simp only [Fragment.extents, List.forall_mem_cons] at h
  obtain ⟨hextent, hname, hinitial⟩ := h
  unfold Fragment.body
  split
  · exact allWithin_refuse hextent
  · simp only [allWithin_append]
    refine ⟨⟨SimpleName.within hname, ?_⟩, ?_⟩
    · cases type with
      | none => exact trivial
      | some t => exact ⟨trivial, htype t rfl, trivial⟩
    · cases hf : f.initial with
      | none => exact trivial
      | some e => exact ⟨trivial, e.within (by simpa [hf, Expr.optionExtents] using hinitial)⟩

theorem Fragment.within (f : Fragment) (h : ∀ x ∈ f.extents, P x) :
    Step.AllWithin P (f.script s) :=
  allWithin_node (h _ List.mem_cons_self) (f.within_body none h fun _ ht => nomatch ht)

theorem allWithin_variablesScript {modifiers : List Modifier} {type : TypeRef}
    {fragments : List Fragment} (htype : ∀ x ∈ type.extents, P x)
    (h : ∀ x ∈ fragments.flatMap Fragment.extents, P x) :
    Step.AllWithin P (variablesScript s modifiers type fragments) := by
  have hall := List.forall_mem_flatMap.1 h
  have hscript := type.within (s := s) htype
  unfold variablesScript
  split
  · refine ⟨trivial, allWithin_commaSeparated.2 (List.forall_mem_map.2 fun f hf => ?_)⟩
    exact f.within_body (some type) (hall f hf) fun t ht => Option.some.inj ht ▸ hscript
  · refine allWithin_append.2 ⟨hscript, allWithin_commaSeparated.2 (List.forall_mem_map.2 ?_)⟩
    exact fun f hf => f.within_body none (hall f hf) fun _ ht => nomatch ht

theorem Expr.within_swiftStep (e : Expr) (h : ∀ x ∈ e.extents, P x) :
    Step.AllWithin P (swiftStep s e) := by
  unfold swiftStep
  split
  case h_5 => exact e.within h
  all_goals
    simp only [Expr.extents, List.forall_mem_cons] at h
    have hoperand := Expr.within (s := s) _ h.2
    simp [hoperand, Script.drop]

theorem allWithin_conditionScript {condition : Expr} (h : ∀ x ∈ condition.extents, P x) :
    Step.AllWithin P (conditionScript s condition) := by
  simp [conditionScript, condition.within h, Script.keep]

theorem Stmt.extent_mem_extents (t : Stmt) : t.extent ∈ t.extents := by
  cases t <;> exact List.mem_cons_self

theorem allWithin_checkBody {target : Target} {word : String} {body : Stmt}
    (h : ∀ x ∈ body.extents, P x) : Step.AllWithin P (checkBody target word body) := by
  unfold checkBody
  split
  · exact allWithin_refuse (h _ body.extent_mem_extents)
  · exact trivial

mutual

theorem Stmt.within (t : Stmt) (h : ∀ x ∈ t.extents, P x) : Step.AllWithin P (t.script s) := by
  have hextent : P t.extent := h _ t.extent_mem_extents
  match t with
  | .block extent statements =>
    simp only [Stmt.extents, List.forall_mem_cons] at h
    exact allWithin_node hextent (by
      simp [Stmt.scripts_within statements h.2, Script.keep])
  | .expression extent e =>
    simp only [Stmt.extents, List.forall_mem_cons] at h
    refine allWithin_node hextent (allWithin_append.2 ⟨?_, allWithin_terminator⟩)
    split
    · exact e.within_swiftStep h.2
    · exact e.within h.2
  | .declare extent modifiers type fragments =>
    simp only [Stmt.extents, List.forall_mem_cons, List.forall_mem_append] at h
    obtain ⟨-, ⟨hmodifiers, htype⟩, hfragments⟩ := h
    exact allWithin_node hextent (by
      simp [allWithin_modifiersScript hmodifiers, allWithin_variablesScript htype hfragments])
  | .returns extent value =>
    simp only [Stmt.extents, List.forall_mem_cons] at h
    refine allWithin_node hextent ?_
    cases value with
    | none => simp [Script.keep]
    | some e => simp [e.within h.2, Script.keep]
  | .ifElse extent condition positive negative =>
    simp only [Stmt.extents, List.forall_mem_cons, List.forall_mem_append] at h
    obtain ⟨-, ⟨hcondition, hpositive⟩, hnegative⟩ := h
    exact allWithin_node hextent (by
      simp [allWithin_conditionScript hcondition, allWithin_checkBody hpositive,
        Stmt.within positive hpositive, Stmt.elseScript_within negative hnegative, Script.keep])
  | .whileLoop extent condition body =>
    simp only [Stmt.extents, List.forall_mem_cons, List.forall_mem_append] at h
    obtain ⟨-, hcondition, hbody⟩ := h
    exact allWithin_node hextent (by
      simp [allWithin_conditionScript hcondition, allWithin_checkBody hbody,
        Stmt.within body hbody, Script.keep])
  | .doLoop extent body condition =>
    simp only [Stmt.extents, List.forall_mem_cons, List.forall_mem_append] at h
    obtain ⟨-, hcondition, hbody⟩ := h
    exact allWithin_node hextent (by
      simp [allWithin_conditionScript hcondition, allWithin_checkBody hbody,
        Stmt.within body hbody, Script.keep])
  | .empty extent => exact allWithin_node hextent ⟨trivial, trivial⟩
  | .jump word extent label =>
    refine allWithin_node hextent ?_
    split
    · exact allWithin_refuse hextent
    · simp [Script.keep]
  | .throws extent value =>
    simp only [Stmt.extents, List.forall_mem_cons] at h
    exact allWithin_node hextent (by simp [value.within h.2, Script.keep])
  | .other form extent => exact allWithin_node hextent (allWithin_refuse hextent)

theorem Stmt.scripts_within (ts : List Stmt) (h : ∀ x ∈ Stmt.allExtents ts, P x) :
    Step.AllWithin P (Stmt.scripts s ts) := by
  match ts with
  | [] => exact trivial
  | t :: ts =>
    obtain ⟨ht, hts⟩ := List.forall_mem_append.1 h
    exact ⟨trivial, allWithin_append.2 ⟨Stmt.within t ht, Stmt.scripts_within ts hts⟩⟩

theorem Stmt.elseScript_within (negative : Option Stmt)
    (h : ∀ x ∈ Stmt.optionExtents negative, P x) :
    Step.AllWithin P (Stmt.elseScript s negative) := by
  match negative with
  | none => exact trivial
  | some t =>
    have hcheck : Step.AllWithin P (if t.isIf then [] else checkBody s.target "else" t) := by
      split
      · exact trivial
      · exact allWithin_checkBody h
    exact allWithin_append.2 ⟨⟨trivial, trivial, hcheck⟩, trivial, Stmt.within t h⟩

end

/-! ### Declarations -/

theorem allWithin_refuseTypeParameters {target : Target} {extents : List Extent}
    (h : ∀ x ∈ extents, P x) : Step.AllWithin P (refuseTypeParameters target extents) := by
  cases extents with
  | nil => exact trivial
  | cons first rest => exact allWithin_refuse (h first List.mem_cons_self)

theorem Parameter.within (p : Parameter) (h : ∀ x ∈ p.extents, P x) :
    Step.AllWithin P (p.script s) := by
  simp only [Parameter.extents, List.forall_mem_cons, List.forall_mem_append] at h
  obtain ⟨hextent, hname, hmodifiers, htype⟩ := h
  have hname := SimpleName.within (s := s) hname
  have htype := p.type.within (s := s) htype
  refine allWithin_node hextent ?_
  split
  · exact allWithin_refuse hextent
  · refine allWithin_append.2 ⟨allWithin_modifiersScript hmodifiers, ?_⟩
    split
    · unfold swiftParameter
      cases p.isVarargs <;> simp [hname, htype, Script.drop]
    · unfold plainParameter
      cases p.isVarargs <;> cases s.target <;> simp [hname, htype]

theorem FieldDecl.within (f : FieldDecl) (h : ∀ x ∈ f.extents, P x) :
    Step.AllWithin P (f.script s) := by
  simp only [FieldDecl.extents, List.forall_mem_cons, List.forall_mem_append] at h
  obtain ⟨hextent, ⟨hmodifiers, htype⟩, hfragments⟩ := h
  exact allWithin_node hextent (by
    simp [allWithin_modifiersScript hmodifiers, allWithin_variablesScript htype hfragments])

theorem allWithin_thrownScript {target : Target} {types : List TypeRef} :
    Step.AllWithin P (thrownScript target types) := by
  have hmore (types : List TypeRef) : Step.AllWithin P (moreThrown types) := by
    induction types with
    | nil => exact trivial
    | cons type rest ih => simp [moreThrown, ih, Script.drop]
  cases types with
  | nil => exact trivial
  | cons type rest =>
    cases target <;> simp [thrownScript, hmore, Script.drop, Script.keep]

theorem MethodDecl.within (m : MethodDecl) (h : ∀ x ∈ m.extents, P x) :
    Step.AllWithin P (m.script s) := by
  simp only [MethodDecl.extents, List.forall_mem_cons, List.forall_mem_append] at h
  obtain ⟨hextent, hname, ⟨⟨⟨⟨hmodifiers, htypes⟩, hreturn⟩, hparameters⟩, -⟩, hbody⟩ := h
  have hname := SimpleName.within (s := s) hname
  have hreturn : ∀ t ∈ m.returnType, Step.AllWithin P (t.script s) := fun t ht =>
    t.within fun x hx => hreturn x (List.mem_flatMap.2 ⟨t, Option.mem_toList.2 ht, hx⟩)
  have hparameters : ∀ p ∈ m.parameters, Step.AllWithin P (p.script s) := fun p hp =>
    p.within (List.forall_mem_flatMap.1 hparameters p hp)
  have hdims : Step.AllWithin P (if m.extraDimensions != 0 then
      Script.refuse s.target .extraDimensions .methodDeclaration m.extent else []) := by
    split
    · exact allWithin_refuse hextent
    · exact trivial
  have hhead : Step.AllWithin P (m.nameScript s) := by
    unfold MethodDecl.nameScript
    cases ht : m.returnType with
    | none => cases s.target == .swift <;> simp [hname]
    | some t => cases s.target == .swift <;> simp [hname, hreturn t ht]
  have hresult : Step.AllWithin P (m.resultScript s) := by
    unfold MethodDecl.resultScript
    split
    · exact trivial
    · next t ht =>
      split
      · exact ⟨trivial, hreturn t ht, trivial⟩
      · exact trivial
  have hend : Step.AllWithin P (m.bodyScript s) := by
    unfold MethodDecl.bodyScript
    split
    · next body hm =>
      exact ⟨trivial, body.toStmt.within (by simpa [hm] using hbody)⟩
    · exact allWithin_terminator
  refine allWithin_node hextent ?_
  simp only [allWithin_append, allWithin_arguments, List.forall_mem_map]
  exact ⟨⟨⟨⟨⟨⟨⟨⟨⟨allWithin_refuseTypeParameters htypes, hdims⟩, trivial, trivial⟩,
    allWithin_modifiersScript hmodifiers⟩, hhead⟩, trivial, trivial⟩, hparameters⟩,
    allWithin_thrownScript⟩, hresult⟩, hend⟩

theorem TypeHeader.within (h : TypeHeader) (hP : ∀ x ∈ h.extents, P x) :
    Step.AllWithin P (h.script s) := by
  simp only [TypeHeader.extents, List.forall_mem_cons, List.forall_mem_append] at hP
  obtain ⟨-, hname, ⟨⟨hmodifiers, htypes⟩, hsuper⟩, hinterfaces⟩ := hP
  have hinterfaces : ∀ t ∈ h.interfaces, Step.AllWithin P (t.script s) := fun t ht =>
    t.within (List.forall_mem_flatMap.1 hinterfaces t ht)
  have hword : Step.AllWithin P (h.wordScript s.target) := by
    unfold TypeHeader.wordScript
    split <;> exact ⟨trivial, trivial⟩
  have hbases : Step.AllWithin P (h.basesScript s) := by
    unfold TypeHeader.basesScript
    refine allWithin_append.2 ⟨?_, ?_⟩
    · split
      · next t ht =>
        have hsuper := t.within (s := s) (by simpa [ht] using hsuper)
        simp [hsuper]
      · exact trivial
    · split
      · exact trivial
      · refine allWithin_append.2 ⟨?_, by simpa using hinterfaces⟩
        split <;> exact ⟨trivial, trivial, trivial⟩
  simp [TypeHeader.script, allWithin_refuseTypeParameters htypes,
    allWithin_modifiersScript hmodifiers, hword, SimpleName.within hname, hbases, Script.keep]

mutual

theorem Member.within (m : Member) (h : ∀ x ∈ m.extents, P x) : Step.AllWithin P (m.script s) := by
  match m with
  | .field decl => exact decl.within h
  | .method decl => exact decl.within h
  | .type header members =>
    obtain ⟨hheader, hmembers⟩ := List.forall_mem_append.1 h
    have hextent : P header.extent := hheader _ List.mem_cons_self
    refine allWithin_node hextent ?_
    split
    · have hheader := header.within (s := s) hheader
      simp [hheader, Member.scripts_within members hmembers, Script.keep]
    · exact allWithin_refuse hextent
  | .setup extent =>
    have hextent := h extent List.mem_cons_self
    exact allWithin_node hextent (allWithin_refuse hextent)

theorem Member.scripts_within (ms : List Member) (h : ∀ x ∈ Member.allExtents ms, P x) :
    Step.AllWithin P (Member.scripts s ms) := by
  match ms with
  | [] => exact trivial
  | m :: ms =>
    obtain ⟨hm, hms⟩ := List.forall_mem_append.1 h
    exact ⟨trivial, allWithin_append.2 ⟨Member.within m hm, Member.scripts_within ms hms⟩⟩

end

/-! ## Units -/

theorem measures_name (n : Name) (h : ∀ x ∈ n.extents, P x) :
    Measures P (runScript (n.script s)) :=
  Step.runAll_measures _ (n.within h)

theorem PackageDecl.measures (p : PackageDecl) (h : ∀ x ∈ p.extents, P x) :
    Measures P (p.render s) := by
  simp only [PackageDecl.extents, List.forall_mem_cons] at h
  refine measures_inNode h.1 (measures_ite (fun _ => ?_) fun _ => measures_replaceExtent _)
  exact measures_bind (measures_swap _ _) fun _ => measures_bind measures_copyTrivia fun _ =>
    measures_bind (measures_name _ h.2) fun _ => measures_bind (measures_skipTriviaUntil _) fun _ =>
    measures_bind (measures_swap _ _) fun _ => measures_bind (measures_output _) fun _ =>
    measures_modify _

theorem ImportDecl.measures_skip (i : ImportDecl) : Measures P i.skip :=
  measures_bind (measures_jumpTo _) fun _ => measures_bind measures_skipLineRest fun _ =>
    measures_pure _

theorem ImportDecl.measures_renderNew (i : ImportDecl) (key : String) {body : Rendering Unit}
    (h : Measures P body) : Measures P (i.renderNew key body) := by
  refine measures_bind (measures_recordImport _) fun _ => measures_ite (fun _ => ?_) fun _ =>
    i.measures_skip
  exact measures_bind (measures_swap _ _) fun _ => measures_bind measures_copyTrivia fun _ =>
    measures_bind h fun _ => measures_bind measures_copyTrivia fun _ => measures_swap _ _

theorem ImportDecl.measures (i : ImportDecl) (h : ∀ x ∈ i.extents, P x) :
    Measures P (i.render s) := by
  simp only [ImportDecl.extents, List.forall_mem_cons] at h
  refine measures_inNode h.1 (measures_ite (fun _ => measures_unsupported h.1) fun _ => ?_)
  have hname := measures_name (s := s) i.name h.2
  split
  · exact measures_unsupported h.1
  · refine measures_ite (fun _ => i.measures_skip) fun _ => measures_ite (fun _ => ?_) fun _ =>
      measures_ite (fun _ => ?_) fun _ => ?_
    · exact i.measures_renderNew _ (measures_bind hname fun _ =>
        measures_bind (measures_skipTriviaUntil _) fun _ => measures_bind (measures_swap _ _) fun _ =>
        measures_bind (measures_skipTriviaUntil _) fun _ => measures_swap _ _)
    · exact i.measures_renderNew _ (measures_replaceExtent _)
    · exact i.measures_renderNew _ (measures_bind (measures_write _) fun _ => hname)

theorem measures_renderImports (limit : Nat) {imports : List ImportDecl}
    (h : ∀ x ∈ imports.flatMap ImportDecl.extents, P x) :
    Measures P (renderImports s limit imports) := by
  induction imports with
  | nil => exact measures_pure _
  | cons i rest ih =>
    rw [List.flatMap_cons, List.forall_mem_append] at h
    exact measures_bind (measures_copyTriviaUntil _) fun _ => measures_bind (i.measures h.1) fun _ =>
      ih h.2

theorem measures_addImports (target : Target) (names : List String) :
    Measures P (addImports target names) := by
  induction names with
  | nil => exact measures_pure _
  | cons name names ih =>
    refine measures_bind (measures_recordImport _) fun _ => measures_ite (fun _ => ?_) fun _ => ih
    exact measures_bind (measures_output _) fun _ => measures_bind (measures_write _) fun _ =>
      measures_bind ih fun _ => measures_pure _

theorem measures_renderAddedImports : Measures P (renderAddedImports s) := by
  refine measures_bind measures_get fun ctx => measures_bind (measures_addImports _ _) fun added => ?_
  exact measures_bind measures_get fun ctx =>
    measures_ite (fun _ => measures_output _) fun _ => measures_pure _

theorem measures_renderType {type : TypeDecl} (h : ∀ x ∈ type.toMember.extents, P x) :
    Measures P (renderType s type) :=
  measures_bind (measures_jumpTo _) fun _ =>
    measures_bind (Step.runAll_measures _ (type.toMember.within h)) fun _ =>
      measures_bind measures_copyTrivia fun _ => measures_pure _

theorem measures_renderBody {package : Option PackageDecl} {type : TypeDecl}
    (hpackage : ∀ p ∈ package, ∀ x ∈ p.extents, P x) (h : ∀ x ∈ type.toMember.extents, P x) :
    Measures P (renderBody s package type) := by
  cases package with
  | none => exact measures_renderType h
  | some p =>
    refine measures_ite (fun _ => ?_) fun _ => measures_renderType h
    exact measures_bind measures_get fun _ =>
      measures_bind (measures_revisit _ (p.measures (hpackage p rfl))) fun _ =>
      measures_bind (measures_renderType h) fun _ => measures_bind (measures_modify _) fun _ =>
      measures_bind (measures_output _) fun _ => measures_output _

theorem measures_returnToHead (package : Option PackageDecl) (limit : Nat) :
    Measures P (returnToHead package limit) := by
  cases package with
  | none => exact measures_bind (measures_jumpTo _) fun _ => measures_skipTriviaUntil _
  | some p =>
    exact measures_bind (measures_jumpTo _) fun _ => measures_bind measures_skipLineRest fun _ =>
      measures_pure _

theorem CompilationUnit.measures (u : CompilationUnit) (h : ∀ x ∈ u.extents, P x) :
    Measures P (u.render s) := by
  simp only [CompilationUnit.extents, List.forall_mem_cons, List.forall_mem_append,
    List.forall_mem_flatMap, Option.mem_toList] at h
  obtain ⟨hextent, ⟨hpackage, himports⟩, htypes⟩ := h
  refine measures_inNode hextent ?_
  split
  · next type hu =>
    have htype := htypes type (by rw [hu]; exact List.mem_cons_self)
    have hbody := measures_captured (measures_renderBody (s := s) hpackage htype)
    have himports := List.forall_mem_flatMap.2 himports
    exact measures_bind (measures_copyTriviaUntil _) fun _ => measures_bind hbody fun _ =>
      measures_bind (measures_returnToHead _ _) fun _ =>
      measures_bind (measures_copyTriviaUntil _) fun _ =>
      measures_bind (measures_renderImports _ himports) fun _ =>
      measures_bind measures_renderAddedImports fun _ =>
      measures_bind (measures_copyTriviaUntil _) fun _ =>
      measures_bind (measures_output _) fun _ => measures_modify _
  · exact measures_unsupported hextent
  · next first second rest hu =>
    have hsecond := htypes second (by rw [hu]; exact List.mem_cons_of_mem _ List.mem_cons_self)
    refine measures_unsupported (hsecond _ (List.mem_append_left _ List.mem_cons_self))

/-- Rendering a node measures extents of its tree only. -/
theorem Node.measures (n : Node) (h : ∀ x ∈ n.extents, P x) : Measures P (n.render s) := by
  cases n with
  | unit u => exact u.measures h
  | package p => exact p.measures h
  | imported i => exact i.measures h
  | member m => exact Step.runAll_measures _ (m.within h)
  | parameter p => exact Step.runAll_measures _ (p.within h)
  | fragment f => exact Step.runAll_measures _ (f.within h)
  | modifier m => exact Step.runAll_measures _ (m.within h)
  | type t => exact Step.runAll_measures _ (t.within h)
  | name n => exact Step.runAll_measures _ (n.within h)
  | expr e => exact Step.runAll_measures _ (e.within h)
  | stmt t => exact Step.runAll_measures _ (t.within h)

/-- A unit that stops before it starts. -/
def reversedUnit : CompilationUnit where
  extent := ⟨11, 0⟩
  package := none
  imports := []
  types := []

end Tree

end

end Lockstep
