import Lockstep.Proofs.FileCourse

/-!
# The words that are written

What is written in C# for a tree is a sequence of words with white space and comments around them.
A word tells where it comes from: it belongs to C#, to the settings, or to the source. The words of
a tree are listed by recursion over it, and its script writes just these (`Expr.script_yields`,
`Stmt.script_yields`, `Member.script_yields`).

- `Word`: a word and where it comes from.
- `Expr.words`, `Stmt.words`, `Member.words`: the words of a tree.
- `Yields`: the words that a script writes if it runs through.
-/

namespace Lockstep

open Config Output Render Source Target Text

namespace Config

/-- The settings hold the name: of a namespace to be imported, or of an attribute. -/
def Settings.Names (s : Settings) (name : String) : Prop :=
  name ∈ s.extraImports ∨ (∃ type, s.implicitImport? type = some name) ∨
    (∃ package, s.genericNamespaces.get? package = some name) ∨
    ∃ annotation, s.mark? annotation = some (.attribute name)

end Config

namespace Tree

/-! ## Words -/

/-- A word of the output. -/
inductive Word where
  /-- A keyword, an operator or another sign of C#. -/
  | fixed (text : String)
  /-- A name that the settings hold. -/
  | setting (name : String)
  /-- An identifier of the source. -/
  | name (identifier : String)
  /-- An identifier of the source, as it stands there. -/
  | bare (identifier : String)
  | literal (kind : LiteralKind) (token : String)
  deriving DecidableEq

namespace Word

def spelling : Word → String
  | .fixed text | .setting text | .bare text => text
  | .name identifier => Target.csharp.escaped identifier
  | .literal kind token => (kind.render? .csharp token).getD token

/-- Whether the word may stand in a body: nothing of the source stands there as it is, and a name
that is said to be of the settings is one of them. -/
def FitsBody (s : Settings) : Word → Prop
  | .setting held => s.Names held
  | .bare _ => False
  | .fixed .. | .name .. | .literal .. => True

/-- Words with commas between them. -/
def separated : List (List Word) → List Word
  | [] => []
  | [ws] => ws
  | ws :: rest => ws ++ .fixed "," :: separated rest

/-- Words in parentheses, with commas between them. -/
def arguments (args : List (List Word)) : List Word :=
  .fixed "(" :: separated args ++ [.fixed ")"]

/-- Words that are put in parentheses if need be. -/
def wrapped (wrap : Bool) (ws : List Word) : List Word :=
  if wrap then .fixed "(" :: ws ++ [.fixed ")"] else ws

end Word

/-! ## The words of a tree -/

def SimpleName.words (n : SimpleName) : List Word := [.name n.identifier]

def Name.words : Name → List Word
  | .simple n => n.words
  | .qualified _ qualifier n _ => qualifier.words ++ .fixed "." :: n.words

/-- Of types that are not rendered there are no words. -/
def TypeRef.words : TypeRef → List Word
  | .primitive _ p => [.fixed (Target.csharp.primitiveType p)]
  | .named _ n none => n.words
  | .named _ n (some binding) =>
    match Target.csharp.wellKnownType? binding.qualifiedName with
    | some builtin => [.fixed builtin]
    | none => n.words
  | .array _ element dimensions =>
    element.words ++ (List.replicate dimensions.toNat [Word.fixed "[", .fixed "]"]).flatten
  | .parameterized .. | .wildcard _ => []

mutual

/-- Of expressions that are not rendered there are no words. -/
def Expr.words : Expr → List Word
  | .name n => n.words
  | .literal kind _ token => [.literal kind token]
  | .boolean _ value => [.fixed (if value then "true" else "false")]
  | .null _ => [.fixed "null"]
  | .this .. => [.fixed "this"]
  | .parenthesized _ inner => .fixed "(" :: inner.words ++ [.fixed ")"]
  | .binary _ left op right more =>
    Word.wrapped (left.wraps .csharp op true) left.words ++ .fixed op.token ::
      Word.wrapped (right.wraps .csharp op false) right.words ++ Expr.linkWords op more
  | .unary _ op operand => .fixed op.token :: operand.words
  | .step _ operand op => operand.words ++ [.fixed op.token]
  | .assign _ left op right => left.words ++ .fixed op.token :: right.words
  | .conditional _ condition positive negative =>
    condition.words ++ .fixed "?" :: positive.words ++ .fixed ":" :: negative.words
  | .call _ receiver _ n arguments _ =>
    Expr.receiverWords receiver ++ n.words ++ Word.arguments (Expr.allWords arguments)
  | .superCall _ _ _ n arguments _ =>
    .fixed "base" :: .fixed "." :: n.words ++ Word.arguments (Expr.allWords arguments)
  | .field _ object n _ => object.words ++ .fixed "." :: n.words
  | .superField _ _ n _ => .fixed "base" :: .fixed "." :: n.words
  | .index _ array position => array.words ++ .fixed "[" :: position.words ++ [.fixed "]"]
  | .create _ _ _ type arguments _ =>
    .fixed "new" :: type.words ++ Word.arguments (Expr.allWords arguments)
  | .cast _ type operand => .fixed "(" :: type.words ++ .fixed ")" :: operand.words
  | .instanceOf _ left type => left.words ++ .fixed "is" :: type.words
  | .other .. => []

def Expr.allWords : List Expr → List (List Word)
  | [] => []
  | e :: es => e.words :: Expr.allWords es

/-- The further operands of a chain, each after its operator. -/
def Expr.linkWords (op : BinaryOp) : List Expr → List Word
  | [] => []
  | e :: es =>
    .fixed op.token :: Word.wrapped (e.wraps .csharp op false) e.words ++ Expr.linkWords op es

/-- An object with the full stop after it. -/
def Expr.receiverWords : Option Expr → List Word
  | none => []
  | some e => e.words ++ [.fixed "."]

end

/-- What becomes of a modifier of a declaration; an annotation becomes an attribute or is dropped. -/
def Modifier.words (s : Settings) (declaration : Declaration) : Modifier → List Word
  | .word _ w =>
    match modifierRule .csharp w declaration with
    | .keep => [.fixed w.token]
    | .replace replacement => [.fixed replacement]
    | .drop | .unsupported => []
  | .annotated mark =>
    match s.mark? mark.qualifiedName with
    | some (.attribute name) => [.fixed "[", .setting name, .fixed "]"]
    | some .suppress | none => []

def Fragment.words (f : Fragment) : List Word :=
  f.name.words ++ f.initial.elim [] fun e => .fixed "=" :: e.words

/-- The type and the variables of a declaration. -/
def variableWords (type : TypeRef) (fragments : List Fragment) : List Word :=
  type.words ++ Word.separated (fragments.map Fragment.words)

/-- A condition in parentheses. -/
def conditionWords (condition : Expr) : List Word :=
  .fixed "(" :: condition.words ++ [.fixed ")"]

mutual

def Stmt.words (s : Settings) : Stmt → List Word
  | .block _ statements => .fixed "\x7b" :: Stmt.allWords s statements ++ [.fixed "\x7d"]
  | .expression _ e => e.words ++ [.fixed ";"]
  | .declare _ modifiers type fragments =>
    modifiers.flatMap (Modifier.words s .localVariable) ++ variableWords type fragments ++
      [.fixed ";"]
  | .returns _ value => .fixed "return" :: value.elim [] Expr.words ++ [.fixed ";"]
  | .ifElse _ condition positive negative =>
    .fixed "if" :: conditionWords condition ++ positive.words s ++ Stmt.elseWords s negative
  | .whileLoop _ condition body => .fixed "while" :: conditionWords condition ++ body.words s
  | .doLoop _ body condition =>
    .fixed "do" :: body.words s ++ .fixed "while" :: conditionWords condition ++ [.fixed ";"]
  | .empty _ => [.fixed ";"]
  | .jump word .. => [.fixed word.token, .fixed ";"]
  | .throws _ value => .fixed "throw" :: value.words ++ [.fixed ";"]
  | .other .. => []

def Stmt.allWords (s : Settings) : List Stmt → List Word
  | [] => []
  | stmt :: stmts => stmt.words s ++ Stmt.allWords s stmts

def Stmt.elseWords (s : Settings) : Option Stmt → List Word
  | none => []
  | some stmt => .fixed "else" :: stmt.words s

end

def Parameter.words (s : Settings) (p : Parameter) : List Word :=
  p.modifiers.flatMap (Modifier.words s .parameter) ++
    (if p.isVarargs then .fixed "params" :: p.type.words ++ [.fixed "[]"] else p.type.words) ++
    p.name.words

def FieldDecl.words (s : Settings) (f : FieldDecl) : List Word :=
  f.modifiers.flatMap (Modifier.words s .field) ++ variableWords f.type f.fragments ++ [.fixed ";"]

/-- Exceptions that the method declares are dropped. -/
def MethodDecl.words (s : Settings) (m : MethodDecl) : List Word :=
  m.modifiers.flatMap (Modifier.words s .method) ++
    (m.returnType.elim [] TypeRef.words ++ m.name.words) ++
    Word.arguments (m.parameters.map (Parameter.words s)) ++
    m.body.elim [.fixed ";"] fun body => body.toStmt.words s

/-- The types that a type extends and implements, as one list. -/
def TypeHeader.baseWords (h : TypeHeader) : List Word :=
  (h.superclass.elim [] fun type => .fixed ":" :: type.words) ++
    if h.interfaces.isEmpty then []
    else .fixed (if h.superclass.isSome then "," else ":") ::
      Word.separated (h.interfaces.map TypeRef.words)

def TypeHeader.words (s : Settings) (h : TypeHeader) : List Word :=
  h.modifiers.flatMap (Modifier.words s .type) ++
    .fixed (if h.isInterface then "interface" else "class") :: h.name.words ++ h.baseWords ++
    [.fixed "\x7b"]

mutual

def Member.words (s : Settings) : Member → List Word
  | .field f => f.words s
  | .method m => m.words s
  | .type header members => header.words s ++ Member.allWords s members ++ [.fixed "\x7d"]
  | .setup _ => []

def Member.allWords (s : Settings) : List Member → List Word
  | [] => []
  | m :: rest => m.words s ++ Member.allWords s rest

end

end Tree

namespace Render

open Lockstep.Tree

/-! ## What a script writes -/

/-- The words have been written, all of them such as may stand in a body, and the namespaces that
have been noted are those of the settings. -/
structure Yielded (s : Settings) (ws : List Word) (ctx after : Context) : Prop where
  text : ∃ text, Spelled (ws.map Word.spelling) text ∧ after.writer = ctx.writer.added text
  fits : ∀ w ∈ ws, w.FitsBody s
  required : ∀ name ∈ after.required, name ∈ ctx.required ∨ s.Names name

/-- Where the modifiers are those of `declaration`, a script that runs through writes the words. -/
def Yields (s : Settings) (declaration : Option Declaration) (xs : Script) (ws : List Word) : Prop :=
  ∀ ctx after : Context, ctx.declaration = declaration → Step.runAll xs ctx = .ok () after →
    Yielded s ws ctx after

namespace Yielded

variable {s : Settings} {ws ws' : List Word} {ctx mid after : Context} {cursor : Cursor}
  {text : List Char}

theorem moved (h : Spelled (ws.map Word.spelling) text) (hfits : ∀ w ∈ ws, w.FitsBody s) :
    Yielded s ws ctx (ctx.moved cursor text) :=
  ⟨⟨text, h, rfl⟩, hfits, fun _ => .inl⟩

theorem silent : Yielded s [] ctx (ctx.moved cursor []) := moved .nil nofun

theorem one {w : Word} (hfits : w.FitsBody s) :
    Yielded s [w] ctx (ctx.moved cursor w.spelling.toList) :=
  moved (.single w.spelling) (List.forall_mem_singleton.2 hfits)

theorem refl : Yielded s [] ctx ctx :=
  ⟨⟨[], .nil, (Writer.added_nil _).symm⟩, nofun, fun _ => .inl⟩

theorem trans (h : Yielded s ws ctx mid) (h' : Yielded s ws' mid after) :
    Yielded s (ws ++ ws') ctx after := by
  obtain ⟨text, htext, hmid⟩ := h.text
  obtain ⟨text', htext', hafter⟩ := h'.text
  refine ⟨⟨text ++ text', ?_, ?_⟩, List.forall_mem_append.2 ⟨h.fits, h'.fits⟩, ?_⟩
  · rw [List.map_append]
    exact htext.append htext'
  · rw [hafter, hmid, Writer.added_append]
  · intro name hname
    rcases h'.required name hname with hmid | hnames
    · exact h.required name hmid
    · exact .inr hnames

end Yielded

namespace Yields

variable {s : Settings} {d : Option Declaration} {xs ys : Script} {ws ws' : List Word}
  {ctx after : Context}

theorem nil : Yields s d [] [] := by
  intro ctx after _ h
  rw [runAll_nil_ok.1 h]
  exact .refl

theorem append (h : Yields s d xs ws) (h' : Yields s d ys ws') :
    Yields s d (xs ++ ys) (ws ++ ws') := by
  intro ctx after hd hrun
  obtain ⟨mid, hxs, hys⟩ := runAll_append_ok.1 hrun
  have hmid : mid.declaration = d := ((Step.runAll_leaves xs).ok hxs).declaration.trans hd
  exact (h ctx mid hd hxs).trans (h' mid after hmid hys)

/-- What comes after the words writes nothing. -/
theorem appendNil (h : Yields s d xs ws) (h' : Yields s d ys []) : Yields s d (xs ++ ys) ws := by
  have hall := h.append h'
  rwa [List.append_nil] at hall

theorem of_step {x : Step} (h : ∀ ctx after : Context, ctx.declaration = d →
    x.run ctx = .ok () after → Yielded s ws ctx after) : Yields s d [x] ws := by
  intro ctx after hd hrun
  exact h ctx after hd (runAll_singleton_ok.1 hrun)

theorem refuse {e : RenderError} : Yields s d [.refuse e] ws := by
  intro ctx after _ h
  cases runAll_singleton_ok.1 h

theorem enter {kind : Kind} {extent : Extent} : Yields s d [.enter kind extent] [] := by
  apply of_step
  intro ctx after _ h
  rw [enter_ok h]
  exact .refl

theorem node {target : Target} {kind : Kind} {extent : Extent} (h : Yields s d xs ws) :
    Yields s d (Script.node target kind extent xs) ws := by
  unfold Script.node
  split
  · exact enter.append h
  · exact refuse

theorem copyTrivia : Yields s d [.copyTrivia] [] := by
  apply of_step
  intro ctx after _ h
  obtain ⟨_, _, hcopy, h⟩ := bind_ok.1 h
  cases h
  obtain ⟨_, gap, hgap, rfl⟩ := copyTriviaUntil_spelled hcopy
  exact .moved hgap nofun

theorem skipTrivia : Yields s d [.skipTrivia] [] := by
  apply of_step
  intro ctx after _ h
  obtain ⟨_, _, -, -, -, rfl⟩ := skipTriviaUntil_ok h
  exact .silent

theorem skipBlanks : Yields s d [.skipBlanks] [] := by
  apply of_step
  intro ctx after _ h
  obtain ⟨_, _, -, -, rfl⟩ := skipBlanks_ok h
  exact .silent

theorem skipLineRest : Yields s d [.skipLineRest] [] := by
  apply of_step
  intro ctx after _ h
  obtain ⟨_, _, -, -, rfl⟩ := Step.run_skipLineRest_ok h
  exact .silent

theorem require {name : String} (hname : s.Names name) : Yields s d [.require name] [] := by
  apply of_step
  intro ctx after _ h
  rw [require_ok h]
  refine ⟨⟨[], .nil, (Writer.added_nil _).symm⟩, nofun, ?_⟩
  intro other hother
  rcases mem_addNew.1 hother with hmem | rfl
  · exact .inl hmem
  · exact .inr hname

theorem swap {token : String} (w : Word) (hfits : w.FitsBody s) :
    Yields s d [.swap token w.spelling] [w] := by
  apply of_step
  intro ctx after _ h
  obtain ⟨_, -, rfl⟩ := swap_ok h
  exact .one hfits

/-- A sign of C# comes in. -/
theorem swapFixed {token : String} (text : String) : Yields s d [.swap token text] [.fixed text] :=
  swap (.fixed text) trivial

theorem keep (token : String) : Yields s d [Script.keep token] [.fixed token] := swapFixed token

theorem drop (token : String) : Yields s d [Script.drop token] [] := by
  apply of_step
  intro ctx after _ h
  obtain ⟨_, -, rfl⟩ := swap_ok h
  exact .silent

theorem replace {extent : Extent} (text : String) :
    Yields s d [.replace extent text] [.fixed text] := by
  apply of_step
  intro ctx after _ h
  obtain ⟨_, rfl⟩ := replaceExtent_ok h
  exact .one trivial

theorem erase {extent : Extent} : Yields s d [.replace extent ""] [] := by
  apply of_step
  intro ctx after _ h
  obtain ⟨_, rfl⟩ := replaceExtent_ok h
  exact .silent

theorem emit (text : String) : Yields s d [.emit text] [.fixed text] := by
  apply of_step
  intro ctx after _ h
  rw [write_ok h]
  exact .one trivial

theorem operator (token : String) (spaced : Bool) :
    Yields s d [Script.operator .csharp token token spaced] [.fixed token] := by
  show Yields s d [.operator token token false spaced] [.fixed token]
  apply of_step
  intro ctx after _ h
  obtain ⟨cursor, move, rfl⟩ := swapOperator_ok h
  have hafter : Spelled [] (move.after ++ []) := .trivia move.runs_after .nil
  rw [List.append_nil] at hafter
  rw [move.written_unbalanced]
  exact .moved (.trivia move.runs_before (.token token hafter))
    (List.forall_mem_singleton.2 trivial)

theorem times (n : Nat) (h : Yields s d xs ws) :
    Yields s d [.times n xs] (List.replicate n ws).flatten := by
  intro ctx after hd hrun
  replace hrun : repeated (Step.runAll xs) n ctx = .ok () after := runAll_singleton_ok.1 hrun
  induction n generalizing ctx with
  | zero =>
    rw [repeated_zero_ok.1 hrun]
    exact .refl
  | succ n ih =>
    obtain ⟨mid, hfirst, hrest⟩ := repeated_succ_ok.1 hrun
    have hmid : mid.declaration = d := ((Step.runAll_leaves xs).ok hfirst).declaration.trans hd
    rw [List.replicate_succ, List.flatten_cons]
    exact (h ctx mid hd hfirst).trans (ih mid hmid hrest)

theorem within {declaration : Declaration} (h : Yields s (some declaration) xs ws) :
    Yields s d [.within declaration xs] ws := by
  apply of_step
  intro ctx after _ hrun
  obtain ⟨mid, hsteps, rfl⟩ := inDeclaration_ok hrun
  have hmid := h { ctx with declaration := some declaration } mid rfl hsteps
  exact ⟨hmid.text, hmid.fits, hmid.required⟩

/-- A keyword is kept, or what stands for it is written, or nothing. -/
theorem modifier {declaration : Declaration} {w : ModifierWord} {extent : Extent} :
    Yields s (some declaration) [.modifier .csharp w extent]
      (Modifier.words s declaration (.word extent w)) := by
  apply of_step
  intro ctx after hd h
  obtain ⟨_, hdecl, h⟩ := swapModifier_rule h
  obtain rfl := Option.some.inj (hd.symm.trans hdecl)
  rw [Modifier.words]
  cases hrule : modifierRule .csharp w declaration with
  | keep =>
    rw [hrule] at h
    obtain ⟨_, -, rfl⟩ := swap_ok h
    exact Yielded.one (w := .fixed w.token) trivial
  | replace replacement =>
    rw [hrule] at h
    obtain ⟨_, -, rfl⟩ := swap_ok h
    exact Yielded.one (w := .fixed replacement) trivial
  | drop =>
    rw [hrule] at h
    obtain ⟨_, hswap, hblanks⟩ := h
    obtain ⟨_, -, rfl⟩ := swap_ok hswap
    obtain ⟨_, _, -, -, rfl⟩ := skipBlanks_ok hblanks
    rw [Context.moved_moved]
    exact .silent
  | unsupported =>
    rw [hrule] at h
    exact h.elim

/-- A sign with trivia before it. -/
theorem spaced (token : String) :
    Yields s d [.copyTrivia, Script.keep token] [.fixed token] := copyTrivia.append (keep token)

/-- A sign with trivia after it. -/
theorem before (token : String) :
    Yields s d [Script.keep token, .copyTrivia] [.fixed token] := (keep token).append copyTrivia

/-- A sign with trivia on both sides. -/
theorem between (token : String) :
    Yields s d [.copyTrivia, Script.keep token, .copyTrivia] [.fixed token] :=
  copyTrivia.append (before token)

theorem wrapped (wrap : Bool) (h : Yields s d xs ws) :
    Yields s d (Tree.wrapped wrap xs) (Word.wrapped wrap ws) := by
  cases wrap with
  | false => exact h
  | true => exact ((emit "(").append h).append (emit ")")

variable {ι : Type} {items : List ι} {script : ι → Script} {words : ι → List Word}

theorem flatMap (h : ∀ x ∈ items, Yields s d (script x) (words x)) :
    Yields s d (items.flatMap script) (items.flatMap words) := by
  induction items with
  | nil => exact nil
  | cons x rest ih =>
    rw [List.flatMap_cons, List.flatMap_cons]
    exact (h x List.mem_cons_self).append (ih fun z hz => h z (List.mem_cons_of_mem x hz))

theorem commaSeparated (h : ∀ x ∈ items, Yields s d (script x) (words x)) :
    Yields s d (Script.commaSeparated (items.map script)) (Word.separated (items.map words)) := by
  induction items with
  | nil => exact nil
  | cons x rest ih =>
    have hfirst : Yields s d (.copyTrivia :: script x) (words x) :=
      copyTrivia.append (h x List.mem_cons_self)
    have hrest := ih fun z hz => h z (List.mem_cons_of_mem x hz)
    cases rest with
    | nil => exact hfirst
    | cons y rest =>
      have hpair := (hfirst.append (spaced ",")).append hrest
      rw [List.append_assoc (words x)] at hpair
      exact hpair

theorem arguments (h : ∀ x ∈ items, Yields s d (script x) (words x)) :
    Yields s d (Script.arguments (items.map script)) (Word.arguments (items.map words)) :=
  ((keep "(").append (commaSeparated h)).append (spaced ")")

end Yields

end Render

namespace Tree

open Render

variable {s : Settings} {d : Option Declaration}

/-! ## Names and types -/

theorem SimpleName.script_yields (ht : s.target = .csharp) (n : SimpleName) :
    Yields s d (n.script s) n.words := by
  rw [SimpleName.script, ht]
  exact .node (.swap (.name n.identifier) trivial)

theorem Name.script_yields (ht : s.target = .csharp) (n : Name) :
    Yields s d (n.script s) n.words := by
  induction n with
  | simple n => exact n.script_yields ht
  | qualified extent qualifier n binding ih =>
    rw [Name.script, Name.words, ht, csharp_nameAccess, List.append_assoc]
    exact .node (ih.append ((Yields.between ".").append (n.script_yields ht)))

theorem TypeRef.script_yields (ht : s.target = .csharp) (type : TypeRef) :
    Yields s d (type.script s) type.words := by
  match type with
  | .primitive extent p =>
    rw [TypeRef.script, ht]
    exact .node (.swapFixed (Target.csharp.primitiveType p))
  | .named extent n none => exact .node (n.script_yields ht)
  | .named extent n (some binding) =>
    have hrequire : Yields s d (binding.requirement s) [] := by
      unfold TypeBinding.requirement
      split
      · next hname => exact .require (.inr (.inl ⟨_, hname⟩))
      · exact .nil
    rw [TypeRef.script, namedScript, TypeRef.words, ht]
    refine .node (hrequire.append ?_)
    cases Target.csharp.wellKnownType? binding.qualifiedName with
    | some builtin => exact .replace builtin
    | none => exact n.script_yields ht
  | .array extent element dimensions =>
    have hbrackets : Yields s d brackets [.fixed "[", .fixed "]"] :=
      (Yields.spaced "[").append (.spaced "]")
    rw [TypeRef.script, ht]
    exact .node ((element.script_yields ht).append (.times dimensions.toNat hbrackets))
  | .parameterized extent base arguments => exact .node .refuse
  | .wildcard extent => exact .node .refuse

/-! ## Expressions -/

theorem Expr.allWords_eq_map (es : List Expr) : Expr.allWords es = es.map Expr.words := by
  induction es with
  | nil => rfl
  | cons e es ih => rw [Expr.allWords, ih, List.map_cons]

theorem memberScript_yields (ht : s.target = .csharp) (n : SimpleName) :
    Yields s d (memberScript s "." n) (.fixed "." :: n.words) :=
  (Yields.between ".").append (n.script_yields ht)

mutual

theorem Expr.script_yields (ht : s.target = .csharp) (e : Expr) :
    Yields s d (e.script s) e.words := by
  match e with
  | .name n => exact n.script_yields ht
  | .literal kind extent token =>
    rw [Expr.script, Expr.words, literalScript, ht]
    split
    · next text htext =>
      have hspelling : (Word.literal kind token).spelling = text := by
        rw [Word.spelling, htext, Option.getD_some]
      rw [← hspelling]
      exact .node (.swap (.literal kind token) trivial)
    · exact .node .refuse
  | .boolean extent value => exact .node (.keep _)
  | .null extent =>
    rw [Expr.script, ht]
    exact .node (.keep "null")
  | .this extent none =>
    rw [Expr.script, ht]
    exact .node (.keep "this")
  | .this extent (some qualifier) => exact .node .refuse
  | .parenthesized extent inner =>
    rw [Expr.script, Expr.words]
    exact .node (((Yields.before "(").append (inner.script_yields ht)).append (.spaced ")"))
  | .binary extent left op right more =>
    have htoken : Target.csharp.binaryToken? op = some op.token := by cases op <;> rfl
    have hassoc : Target.csharp.nonAssociative op = false := by cases op <;> rfl
    have hleft := Yields.wrapped (d := d) (left.wraps .csharp op true) (left.script_yields ht)
    have hright := Yields.wrapped (d := d) (right.wraps .csharp op false) (right.script_yields ht)
    rw [Expr.script, Expr.words, ht, htoken]
    simp only [binaryScript, hassoc, Bool.false_and, Bool.false_eq_true, if_false, List.nil_append]
    simp only [List.append_assoc]
    exact .node (hleft.append ((Yields.operator op.token false).append
      (hright.append (Expr.links_yield ht op more))))
  | .unary extent op operand =>
    have htoken : Target.csharp.unaryToken? op = some op.token := by cases op <;> rfl
    rw [Expr.script, Expr.words, ht, htoken]
    exact .node ((Yields.before op.token).append (operand.script_yields ht))
  | .step extent operand op =>
    have htoken : Target.csharp.stepToken? op = some op.token := by cases op <;> rfl
    rw [Expr.script, Expr.words, ht, htoken]
    exact .node ((operand.script_yields ht).append (.spaced op.token))
  | .assign extent left op right =>
    have htoken : Target.csharp.assignToken? op = some op.token := by cases op <;> rfl
    rw [Expr.script, Expr.words, ht, htoken]
    simp only [List.append_assoc]
    exact .node ((left.script_yields ht).append
      ((Yields.operator op.token false).append (right.script_yields ht)))
  | .conditional extent condition positive negative =>
    rw [Expr.script, Expr.words, ht]
    simp only [List.append_assoc]
    exact .node ((condition.script_yields ht).append ((Yields.operator "?" true).append
      ((positive.script_yields ht).append ((Yields.operator ":" true).append
        (negative.script_yields ht)))))
  | .call extent receiver typeArguments n arguments none => exact .node .refuse
  | .call extent receiver typeArguments n arguments (some binding) =>
    rw [Expr.script, Expr.words, Expr.allWords_eq_map, Expr.scripts_eq_map, ht,
      csharp_memberAccess]
    split
    · exact .node .refuse
    · have hargs := Yields.arguments (d := d) (Expr.scripts_yield ht arguments)
      have hreceiver : Yields s d _ (Expr.receiverWords receiver ++ n.words) :=
        (Expr.receiver_yields ht receiver).append (n.script_yields ht)
      rw [List.append_assoc _ _ (Script.arguments _)]
      exact .node (hreceiver.append (Yields.copyTrivia.append hargs))
  | .superCall extent (some qualifier) typeArguments n arguments binding =>
    exact .node .refuse
  | .superCall extent none typeArguments n arguments none => exact .node .refuse
  | .superCall extent none typeArguments n arguments (some binding) =>
    rw [Expr.script, Expr.words, Expr.allWords_eq_map, Expr.scripts_eq_map, ht,
      csharp_memberAccess]
    simp only [Option.isSome_none, Bool.false_eq_true, if_false]
    split
    · exact .node .refuse
    · have hsuper : Yields s d [.swap "super" "base"] [.fixed "base"] := .swapFixed "base"
      have hargs := Yields.arguments (d := d) (Expr.scripts_yield ht arguments)
      have hmember := hsuper.append (memberScript_yields ht n)
      exact .node ((hmember.append .copyTrivia).append hargs)
  | .field extent object n binding =>
    rw [Expr.script, Expr.words, ht, csharp_memberAccess?]
    exact .node ((object.script_yields ht).append (memberScript_yields ht n))
  | .superField extent qualifier n binding =>
    rw [Expr.script, Expr.words, ht, csharp_memberAccess?]
    split
    · exact .node .refuse
    · have hsuper : Yields s d [.swap "super" "base"] [.fixed "base"] := .swapFixed "base"
      exact .node (hsuper.append (memberScript_yields ht n))
  | .index extent array position =>
    rw [Expr.script, Expr.words]
    simp only [List.append_assoc]
    exact .node ((array.script_yields ht).append ((Yields.between "[").append
      ((position.script_yields ht).append (.spaced "]"))))
  | .create extent outer typeArguments type arguments body =>
    rw [Expr.script, Expr.words, Expr.allWords_eq_map, Expr.scripts_eq_map, ht]
    split
    · exact .node .refuse
    · split
      · exact .node .refuse
      · split
        · exact .node .refuse
        · have hargs := Yields.arguments (d := d) (Expr.scripts_yield ht arguments)
          simp only [List.append_assoc]
          exact .node ((Yields.before "new").append ((type.script_yields ht).append
            (Yields.copyTrivia.append hargs)))
  | .cast extent type operand =>
    rw [Expr.script, Expr.words]
    simp only [List.append_assoc]
    exact .node ((Yields.before "(").append ((type.script_yields ht).append
      ((Yields.between ")").append (operand.script_yields ht))))
  | .instanceOf extent left type =>
    have hword : Yields s d [.copyTrivia, .swap "instanceof" "is", .copyTrivia] [.fixed "is"] :=
      Yields.copyTrivia.append ((Yields.swapFixed "is").append .copyTrivia)
    rw [Expr.script, Expr.words, ht]
    simp only [List.append_assoc]
    exact .node ((left.script_yields ht).append (hword.append (type.script_yields ht)))
  | .other form extent => exact .node .refuse

theorem Expr.links_yield (ht : s.target = .csharp) (op : BinaryOp) (more : List Expr) :
    Yields s d (chainScript .csharp op.token op.token false (Expr.operandScripts s op more))
      (Expr.linkWords op more) := by
  match more with
  | [] => exact .nil
  | e :: es =>
    have hoperand := Yields.wrapped (d := d) (e.wraps .csharp op false) (e.script_yields ht)
    rw [Expr.operandScripts, Expr.linkWords, ht]
    exact (((Yields.nil).append (Yields.operator op.token false)).append hoperand).append
      (Expr.links_yield ht op es)

theorem Expr.receiver_yields (ht : s.target = .csharp) (receiver : Option Expr) :
    Yields s d (Expr.receiverScript s "." receiver) (Expr.receiverWords receiver) := by
  match receiver with
  | none => exact .nil
  | some e => exact (e.script_yields ht).append (.between ".")

theorem Expr.scripts_yield (ht : s.target = .csharp) (es : List Expr) :
    ∀ e ∈ es, Yields s d (e.script s) e.words := by
  match es with
  | [] => exact nofun
  | e :: es => exact List.forall_mem_cons.2 ⟨e.script_yields ht, Expr.scripts_yield ht es⟩

end

/-! ## Modifiers and variables -/

theorem markScript_yields (ht : s.target = .csharp) (declaration : Declaration)
    (mark : Annotation) :
    Yields s d (markScript s mark) (Modifier.words s declaration (.annotated mark)) := by
  unfold markScript Modifier.words
  dsimp only
  split
  · exact .refuse
  · cases hmark : s.mark? mark.qualifiedName with
    | none => exact .refuse
    | some rule =>
      match rule with
      | .suppress => exact Yields.erase.append (Yields.skipLineRest.append .skipBlanks)
      | .attribute name =>
        rw [ht]
        apply Yields.of_step
        intro ctx after _ h
        obtain ⟨_, rfl⟩ := replaceExtent_ok h
        have hwords : Spelled ["[", name, "]"] ("[".toList ++ (name.toList ++ "]".toList)) :=
          .token _ (.token _ (.single "]"))
        have hfits : ∀ w ∈ [Word.fixed "[", .setting name, .fixed "]"], w.FitsBody s := by
          simp only [List.forall_mem_cons]
          exact ⟨trivial, .inr (.inr (.inr ⟨_, hmark⟩)), trivial, List.forall_mem_nil _⟩
        rw [← String.toList_append, ← String.toList_append, ← String.append_assoc] at hwords
        exact .moved hwords hfits

theorem Modifier.script_yields (ht : s.target = .csharp) (declaration : Declaration)
    (m : Modifier) : Yields s (some declaration) (m.script s) (m.words s declaration) := by
  cases m with
  | word extent w =>
    rw [Modifier.script, ht]
    exact .node .modifier
  | annotated mark => exact .node (markScript_yields ht declaration mark)

theorem modifiersScript_yields (ht : s.target = .csharp) (declaration : Declaration)
    (modifiers : List Modifier) :
    Yields s d (modifiersScript s declaration modifiers)
      (modifiers.flatMap (Modifier.words s declaration)) := by
  have hmodifiers : Yields s (some declaration)
      (modifiers.flatMap fun m => .copyTrivia :: m.script s)
      (modifiers.flatMap (Modifier.words s declaration)) := by
    apply Yields.flatMap
    intro m _
    exact Yields.copyTrivia.append (m.script_yields ht declaration)
  exact .within (hmodifiers.appendNil .copyTrivia)

theorem Fragment.body_yields (ht : s.target = .csharp) (f : Fragment) :
    Yields s d (f.body s none) f.words := by
  unfold Fragment.body Fragment.words
  split
  · exact .refuse
  · rw [ht]
    refine ((f.name.script_yields ht).appendNil .nil).append ?_
    cases f.initial with
    | none => exact .nil
    | some e => exact (Yields.operator "=" false).append (e.script_yields ht)

theorem variablesScript_yields (ht : s.target = .csharp) (modifiers : List Modifier)
    (type : TypeRef) (fragments : List Fragment) :
    Yields s d (variablesScript s modifiers type fragments) (variableWords type fragments) := by
  rw [variablesScript, ht]
  exact (type.script_yields ht).append (.commaSeparated fun f _ => f.body_yields ht)

theorem terminator_yields (ht : s.target = .csharp) :
    Yields s d (Script.terminator s.target) [.fixed ";"] := by
  rw [ht]
  exact .spaced ";"

theorem conditionScript_yields (ht : s.target = .csharp) (condition : Expr) :
    Yields s d (conditionScript s condition) (conditionWords condition) :=
  ((Yields.between "(").append (condition.script_yields ht)).append (.spaced ")")

theorem checkBody_yields (ht : s.target = .csharp) (word : String) (body : Stmt) :
    Yields s d (checkBody s.target word body) [] := by
  rw [ht]
  exact .nil

/-! ## Statements -/

mutual

theorem Stmt.script_yields (ht : s.target = .csharp) (stmt : Stmt) :
    Yields s d (stmt.script s) (stmt.words s) := by
  match stmt with
  | .block extent statements =>
    rw [Stmt.script, Stmt.words]
    exact .node (((Yields.keep "\x7b").append (Stmt.scripts_yield ht statements)).append
      (.spaced "\x7d"))
  | .expression extent e =>
    rw [Stmt.script, Stmt.words]
    refine .node (Yields.append ?_ (terminator_yields ht))
    rw [ht]
    exact e.script_yields ht
  | .declare extent modifiers type fragments =>
    rw [Stmt.script, Stmt.words]
    exact .node (((modifiersScript_yields ht .localVariable modifiers).append
      (variablesScript_yields ht modifiers type fragments)).append (terminator_yields ht))
  | .returns extent none =>
    rw [Stmt.script]
    exact .node ((Yields.keep "return").append (terminator_yields ht))
  | .returns extent (some value) =>
    rw [Stmt.script, Stmt.words]
    exact .node (((Yields.keep "return").append
      (Yields.copyTrivia.append (value.script_yields ht))).append (terminator_yields ht))
  | .ifElse extent condition positive negative =>
    rw [Stmt.script, Stmt.words]
    exact .node ((((((Yields.keep "if").append (conditionScript_yields ht condition)).appendNil
      (checkBody_yields ht "if" positive)).appendNil .copyTrivia).append
        (Stmt.script_yields ht positive)).append (Stmt.else_yields ht negative))
  | .whileLoop extent condition body =>
    rw [Stmt.script, Stmt.words]
    exact .node (((((Yields.keep "while").append (conditionScript_yields ht condition)).appendNil
      (checkBody_yields ht "while" body)).appendNil .copyTrivia).append
        (Stmt.script_yields ht body))
  | .doLoop extent body condition =>
    have hword : Yields s d [.swap "do" (if s.target == .swift then "repeat" else "do")]
        [.fixed "do"] := by
      rw [ht]
      exact .keep "do"
    have hbody := ((hword.appendNil (checkBody_yields ht "do" body)).appendNil .copyTrivia).append
      (Stmt.script_yields ht body)
    have hall := ((hbody.append (.spaced "while")).append
      (conditionScript_yields ht condition)).append (terminator_yields ht)
    rw [Stmt.script, Stmt.words]
    refine .node ?_
    simp only [List.append_assoc, List.cons_append, List.nil_append] at hall ⊢
    exact hall
  | .empty extent =>
    rw [Stmt.script, ht]
    exact .node (.keep ";")
  | .jump word extent none =>
    rw [Stmt.script]
    exact .node ((Yields.keep word.token).append (terminator_yields ht))
  | .jump word extent (some label) => exact .node .refuse
  | .throws extent value =>
    rw [Stmt.script, Stmt.words]
    exact .node (((Yields.before "throw").append (value.script_yields ht)).append
      (terminator_yields ht))
  | .other form extent => exact .node .refuse

theorem Stmt.scripts_yield (ht : s.target = .csharp) (stmts : List Stmt) :
    Yields s d (Stmt.scripts s stmts) (Stmt.allWords s stmts) := by
  match stmts with
  | [] => exact .nil
  | stmt :: rest =>
    exact (Yields.copyTrivia.append (Stmt.script_yields ht stmt)).append
      (Stmt.scripts_yield ht rest)

theorem Stmt.else_yields (ht : s.target = .csharp) (negative : Option Stmt) :
    Yields s d (Stmt.elseScript s negative) (Stmt.elseWords s negative) := by
  match negative with
  | none => exact .nil
  | some stmt =>
    have hcheck :
        Yields s d (if stmt.isIf then [] else checkBody s.target "else" stmt) [] := by
      split
      · exact .nil
      · exact checkBody_yields ht "else" stmt
    rw [Stmt.elseScript, Stmt.elseWords]
    exact ((Yields.spaced "else").appendNil hcheck).append
      (Yields.copyTrivia.append (Stmt.script_yields ht stmt))

end

/-! ## Declarations -/

theorem plainParameter_yields (ht : s.target = .csharp) (p : Parameter) :
    Yields s d (plainParameter s p)
      ((if p.isVarargs then .fixed "params" :: p.type.words ++ [.fixed "[]"] else p.type.words) ++
        p.name.words) := by
  unfold plainParameter
  rw [ht]
  refine (Yields.appendNil ?_ .copyTrivia).append (p.name.script_yields ht)
  cases p.isVarargs with
  | false => exact (Yields.nil.append (p.type.script_yields ht)).appendNil .nil
  | true =>
    have hword : Yields s d [.emit "params "] [.fixed "params"] := by
      apply Yields.of_step
      intro ctx after _ h
      have hspace : Trivia.Runs " ".toList [] := .single rfl
      rw [write_ok h]
      exact .moved (.token "params" (.trivia hspace .nil)) (List.forall_mem_singleton.2 trivial)
    exact (hword.append (p.type.script_yields ht)).append
      (Yields.copyTrivia.append (.swapFixed "[]"))

theorem Parameter.script_yields (ht : s.target = .csharp) (p : Parameter) :
    Yields s d (p.script s) (p.words s) := by
  unfold Parameter.script Parameter.words
  refine .node ?_
  split
  · exact .refuse
  · rw [ht, List.append_assoc]
    exact (modifiersScript_yields ht .parameter p.modifiers).append (plainParameter_yields ht p)

theorem FieldDecl.script_yields (ht : s.target = .csharp) (f : FieldDecl) :
    Yields s d (f.script s) (f.words s) :=
  .node (((Yields.copyTrivia.append (modifiersScript_yields ht .field f.modifiers)).append
    (variablesScript_yields ht f.modifiers f.type f.fragments)).append (terminator_yields ht))

theorem MethodDecl.nameScript_yields (ht : s.target = .csharp) (m : MethodDecl) :
    Yields s d (m.nameScript s) (m.returnType.elim [] TypeRef.words ++ m.name.words) := by
  unfold MethodDecl.nameScript
  rw [ht]
  cases m.returnType with
  | none => exact m.name.script_yields ht
  | some type =>
    exact ((type.script_yields ht).appendNil .copyTrivia).append (m.name.script_yields ht)

theorem moreThrown_yields (thrown : List TypeRef) : Yields s d (moreThrown thrown) [] := by
  induction thrown with
  | nil => exact .nil
  | cons type rest ih =>
    exact (Yields.skipTrivia.append ((Yields.drop ",").append
      (Yields.skipTrivia.append .erase))).append ih

theorem thrownScript_yields (ht : s.target = .csharp) (thrown : List TypeRef) :
    Yields s d (thrownScript s.target thrown) [] := by
  rw [ht]
  cases thrown with
  | nil => exact .nil
  | cons type rest =>
    exact ((Yields.skipTrivia.append (Yields.drop "throws")).append
      (Yields.skipTrivia.append .erase)).append (moreThrown_yields rest)

theorem MethodDecl.resultScript_yields (ht : s.target = .csharp) (m : MethodDecl) :
    Yields s d (m.resultScript s) [] := by
  unfold MethodDecl.resultScript
  rw [ht]
  cases m.returnType with
  | none => exact .nil
  | some type => exact .nil

theorem MethodDecl.bodyScript_yields (ht : s.target = .csharp) (m : MethodDecl) :
    Yields s d (m.bodyScript s) (m.body.elim [.fixed ";"] fun body => body.toStmt.words s) := by
  unfold MethodDecl.bodyScript
  cases m.body with
  | none => exact terminator_yields ht
  | some body => exact Yields.copyTrivia.append (body.toStmt.script_yields ht)

theorem refuseTypeParameters_yields (target : Target) (parameters : List Extent) :
    Yields s d (refuseTypeParameters target parameters) [] := by
  cases parameters with
  | nil => exact .nil
  | cons first rest => exact .refuse

theorem MethodDecl.script_yields (ht : s.target = .csharp) (m : MethodDecl) :
    Yields s d (m.script s) (m.words s) := by
  have hdimensions : Yields s d (if m.extraDimensions != 0 then
      Script.refuse s.target .extraDimensions .methodDeclaration m.extent else []) [] := by
    split
    · exact .refuse
    · exact .nil
  have hfront := ((refuseTypeParameters_yields s.target m.typeParameters).appendNil
    hdimensions).appendNil .copyTrivia
  have hparameters : Yields s d (Script.arguments (m.parameters.map (Parameter.script s)))
      (Word.arguments (m.parameters.map (Parameter.words s))) :=
    .arguments fun p _ => p.script_yields ht
  exact .node (((((((hfront.append (modifiersScript_yields ht .method m.modifiers)).append
    (m.nameScript_yields ht)).appendNil .copyTrivia).append hparameters).appendNil
      (thrownScript_yields ht m.thrown)).appendNil (m.resultScript_yields ht)).append
        (m.bodyScript_yields ht))

theorem TypeHeader.basesScript_yields (ht : s.target = .csharp) (h : TypeHeader) :
    Yields s d (h.basesScript s) h.baseWords := by
  have hinterfaces : Yields s d (Script.commaSeparated (h.interfaces.map (TypeRef.script s)))
      (Word.separated (h.interfaces.map TypeRef.words)) :=
    .commaSeparated fun type _ => type.script_yields ht
  have hcomma : Yields s d [.skipTrivia, .swap (if h.isInterface then "extends" else "implements") ","]
      [.fixed ","] := Yields.skipTrivia.append (.swapFixed ",")
  have hcolon (word : String) : Yields s d [.copyTrivia, .swap word ":"] [.fixed ":"] :=
    Yields.copyTrivia.append (.swapFixed ":")
  unfold TypeHeader.basesScript TypeHeader.baseWords
  cases h.superclass with
  | none =>
    cases h.interfaces.isEmpty with
    | true => exact .nil
    | false => exact Yields.nil.append ((hcolon _).append hinterfaces)
  | some type =>
    have hsuperclass := ((hcolon "extends").appendNil .copyTrivia).append (type.script_yields ht)
    cases h.interfaces.isEmpty with
    | true => exact hsuperclass.append .nil
    | false => exact hsuperclass.append (hcomma.append hinterfaces)

theorem TypeHeader.wordScript_yields (ht : s.target = .csharp) (h : TypeHeader) :
    Yields s d (h.wordScript s.target) [.fixed (if h.isInterface then "interface" else "class")] := by
  unfold TypeHeader.wordScript
  rw [ht]
  cases h.isInterface with
  | true => exact .keep "interface"
  | false => exact .keep "class"

theorem TypeHeader.script_yields (ht : s.target = .csharp) (h : TypeHeader) :
    Yields s d (h.script s) (h.words s) := by
  have hfront := (refuseTypeParameters_yields (s := s) (d := d) s.target
    h.typeParameters).appendNil .copyTrivia
  have hword := (hfront.append (modifiersScript_yields ht .type h.modifiers)).append
    (h.wordScript_yields ht)
  have hall := (((hword.appendNil .copyTrivia).append (h.name.script_yields ht)).append
    (h.basesScript_yields ht)).append (.spaced "\x7b")
  unfold TypeHeader.script TypeHeader.words
  simp only [List.append_assoc, List.cons_append, List.nil_append] at hall ⊢
  exact hall

mutual

theorem Member.script_yields (ht : s.target = .csharp) (m : Member) :
    Yields s d (m.script s) (m.words s) := by
  match m with
  | .field f =>
    rw [Member.script, Member.words]
    exact f.script_yields ht
  | .method m =>
    rw [Member.script, Member.words]
    exact m.script_yields ht
  | .type header members =>
    rw [Member.script, Member.words]
    refine .node ?_
    split
    · exact ((header.script_yields ht).append (Member.scripts_yield ht members)).append
        (.spaced "\x7d")
    · exact .refuse
  | .setup extent => exact .node .refuse

theorem Member.scripts_yield (ht : s.target = .csharp) (members : List Member) :
    Yields s d (Member.scripts s members) (Member.allWords s members) := by
  match members with
  | [] => exact .nil
  | m :: rest =>
    exact (Yields.copyTrivia.append (Member.script_yields ht m)).append
      (Member.scripts_yield ht rest)

end

end Tree

end Lockstep
