import Lockstep.Proofs.FileCourse
import Lockstep.Proofs.SettledTypes
import Lockstep.Proofs.SwiftOperators

/-!
# The declarations of Swift

Swift has a keyword where Java has the type of a variable or the result of a method, and the type
comes behind the name. A declaration is rendered so with what the source has between its parts, and
nothing is put in. So the keyword touches the name where the type touches it in the source, as it
may with the brackets of an array (`Outline.KeepsApart`).

- `Outline`: what a declaration consists of in the output.
- `Node.outline?`: the outlines of variables, parameters and methods.
- `Node.render_declaration`: the output of a declaration follows its outline.
-/

namespace Lockstep

open Config Output Render Source Target Text

namespace Tree

/-! ## Outlines -/

/-- What Swift has for a modifier, if it has anything. -/
def Modifier.swiftWord? (s : Settings) (declaration : Declaration) : Modifier → Option String
  | .word _ w =>
    match modifierRule .swift w declaration with
    | .keep => some w.token
    | .replace text => some text
    | .drop | .unsupported => none
  | .annotated mark =>
    match s.mark? mark.qualifiedName with
    | some (.attribute name) => some ("@" ++ name)
    | some .suppress | none => none

/-- A declaration of which the type comes behind the name. -/
structure Outline where
  declaration : Declaration
  modifiers : List Modifier
  /-- What comes after the modifiers in the source. -/
  head : Extent
  /-- The tokens after the modifiers. -/
  body : List Token
  /-- The types that come behind names. -/
  types : List TypeRef
  /-- When the tokens after the modifiers keep apart. -/
  KeepsApart : Prop

/-- The tokens of the output. -/
def Outline.tokens (s : Settings) (o : Outline) : List Token :=
  (o.modifiers.filterMap (·.swiftWord? s o.declaration)).map .keyword ++ o.body

/-- No two of the places touch that come one after another. -/
def SetOff (places : List Extent) : Prop :=
  places.IsChain fun x y => y.start ≠ x.stop.toNat

/-- In the source no modifier touches what comes next. -/
def Outline.IsSetOff (o : Outline) : Prop := SetOff (o.modifiers.map Modifier.extent ++ [o.head])

/-- What has been written consists of the tokens, with trivia and spaces between them. If no
modifier touches what comes next, they keep apart exactly if the tokens after the modifiers do. -/
def Outline.Follows (s : Settings) (o : Outline) (ctx after : Context) : Prop :=
  ∃ chunks P, after.writer = ctx.writer.added (chunks.flatMap Chunk.text) ∧
    Segment ctx.cursor.text False (o.tokens s) P chunks ∧ (o.IsSetOff → (P ↔ o.KeepsApart))

def Parameter.asToken (s : Settings) (p : Parameter) : Token :=
  .part p.extent.start (p.script s)

def Block.asToken (s : Settings) (b : Block) : Token :=
  .part b.extent.start (b.toStmt.script s)

/-- A name, its type, and the initial value if there is one. -/
def Fragment.swiftTokens (s : Settings) (type : TypeRef) (f : Fragment) : List Token :=
  f.name.asToken s :: .word ":" :: type.asToken s ::
    match f.initial with
    | some e => .operator "=" :: e.swiftTokens s
    | none => []

/-- The operators of the initial value stay apart, from the sign before it too. -/
def Fragment.KeepsApart (s : Settings) (f : Fragment) : Prop :=
  ∀ e ∈ f.initial, e.KeepsApart s ∧ MayFollow f.name.extent "=" e.extent (e.swiftTokens s)

/-- Variables of one type. The keyword keeps apart from the first name if the type does. -/
def variablesOutline? (s : Settings) (declaration : Declaration) (modifiers : List Modifier)
    (type : TypeRef) : List Fragment → Option Outline
  | [] => none
  | first :: more => some {
      declaration, modifiers
      head := type.extent
      body := .keyword (if Modifier.mentions .final modifiers then "let" else "var") ::
        Token.separated ((first :: more).map (Fragment.swiftTokens s type))
      types := [type]
      KeepsApart := (∀ f ∈ first :: more, f.KeepsApart s) ∧
        first.extent.start ≠ type.extent.stop.toNat }

def Parameter.outline (s : Settings) (p : Parameter) : Outline where
  declaration := .parameter
  modifiers := p.modifiers
  head := p.type.extent
  body := .word "_" :: p.name.asToken s :: .word ":" :: p.type.asToken s ::
    if p.isVarargs then [.word "..."] else []
  types := [p.type]
  KeepsApart := True

/-- What comes before the parameters of a method or a constructor. -/
def MethodDecl.nameTokens (s : Settings) (m : MethodDecl) : List Token :=
  match m.returnType with
  | some _ => [.keyword "func", m.name.asToken s]
  | none => [.word "init"]

/-- The result type of a method that has a result. -/
def MethodDecl.resultTokens (s : Settings) (m : MethodDecl) : List Token :=
  match m.returnType with
  | some type => if type.isVoid then [] else [.word "->", type.asToken s]
  | none => []

def MethodDecl.outline (s : Settings) (m : MethodDecl) : Outline where
  declaration := .method
  modifiers := m.modifiers
  head := (m.returnType.map TypeRef.extent).getD m.name.extent
  body := m.nameTokens s ++ Token.arguments (m.parameters.map fun p => [p.asToken s]) ++
    (if m.thrown.isEmpty then [] else [.word "throws"]) ++ m.resultTokens s ++
    m.body.toList.map (Block.asToken s)
  types := m.returnType.toList
  KeepsApart := ∀ type ∈ m.returnType, m.name.extent.start ≠ type.extent.stop.toNat

/-- The outline of a field, a local variable, a parameter, a method or a constructor. -/
def Node.outline? (s : Settings) : Node → Option Outline
  | .member (.field f) => variablesOutline? s .field f.modifiers f.type f.fragments
  | .member (.method m) => some (m.outline s)
  | .parameter p => some (p.outline s)
  | .stmt (.declare _ modifiers declared fragments) =>
    variablesOutline? s .localVariable modifiers declared fragments
  | _ => none

/-- The node lies between two places of a source. -/
def Node.Lies (node : Node) (c d : Cursor) : Prop :=
  match node with
  | .member m => m.Lies c d
  | .parameter p => p.layout.Lies c d
  | node => ∃ layout, node.layout? = some layout ∧ layout.Lies c d

end Tree

namespace Render

open Lockstep.Tree

/-! ## Modifiers -/

/-- A node that is a token is passed by a step for the token. -/
theorem swap_node_at {ctx after : Context} {fs : List Layout} {d : Cursor} {token text : String}
    {extent : Extent} (hat : Layout.LieAll (.node extent [.token token] :: fs) ctx.cursor d)
    (hrun : swap token text ctx = .ok () after) :
    after = ctx.moved after.cursor text.toList ∧ after.cursor.offset = extent.stop.toNat := by
  obtain ⟨_, ⟨-, -, hstop, _, ⟨-, htoken⟩, rfl⟩, -⟩ := hat
  obtain ⟨stop, hpass, rfl⟩ := swap_ok hrun
  obtain rfl := hpass.right_unique htoken
  exact ⟨rfl, hstop⟩

end Render

namespace Tree

section

variable {ctx after : Context} {declaration : Declaration} {s : Settings} {g : Layout}
  {fs gs : List Layout} {d : Cursor} {x : Extent}

/-- What is written for a modifier. If anything is, the cursor is at the end of the modifier. -/
theorem Modifier.script_at (ht : s.target = .swift) {m : Modifier}
    (hdecl : ctx.declaration = some declaration)
    (hat : Layout.LieAll (m.layout :: fs) ctx.cursor d)
    (hrun : Step.runAll (m.script s) ctx = .ok () after) :
    match m.swiftWord? s declaration with
    | some w => after = ctx.moved after.cursor w.toList ∧ after.cursor.offset = m.extent.stop.toNat
    | none => after = ctx.moved after.cursor [] := by
  cases m with
  | word extent w =>
    obtain ⟨_, hsome, hswap⟩ := swapModifier_rule (runAll_singleton_ok.1 (runAll_node_ok hrun))
    obtain rfl := Option.some.inj (hdecl.symm.trans hsome)
    rw [ht] at hswap
    rw [Modifier.swiftWord?]
    cases hrule : modifierRule .swift w declaration with
    | keep | replace =>
      rw [hrule] at hswap
      exact swap_node_at hat hswap
    | drop =>
      rw [hrule] at hswap
      obtain ⟨mid, hswap, hblanks⟩ := hswap
      obtain ⟨stop, -, rfl⟩ := swap_ok hswap
      rw [skipBlanks_eq hblanks, Context.moved_moved]
      rfl
    | unsupported =>
      rw [hrule] at hswap
      exact hswap.elim
  | annotated mark =>
    have hmark := runAll_node_ok hrun
    have hextent := mark.extent?_layout
    rw [markScript, ht] at hmark
    rw [Modifier.swiftWord?]
    split at hmark
    · cases hmark
    · cases hrule : s.mark? mark.qualifiedName with
      | none =>
        rw [hrule] at hmark
        cases hmark
      | some rule =>
        cases rule with
        | suppress =>
          rw [hrule] at hmark
          obtain ⟨_, hreplace, hrest⟩ := runAll_cons_ok.1 hmark
          obtain ⟨_, hline, hblanks⟩ := runAll_cons_ok.1 hrest
          obtain ⟨stop, -, rfl, -⟩ := replace_at hextent hat hreplace
          obtain ⟨_, cursor, -, -, rfl⟩ := Step.run_skipLineRest_ok hline
          rw [skipBlanks_eq (runAll_singleton_ok.1 hblanks), Context.moved_moved,
            Context.moved_moved]
          rfl
        | «attribute» name =>
          rw [hrule] at hmark
          obtain ⟨stop, hstop, rfl, -⟩ := replace_at hextent hat (runAll_singleton_ok.1 hmark)
          exact ⟨rfl, hstop⟩

/-- What comes after a modifier has a place. -/
theorem exists_next (hg : g.extent? = some x) (gs : List Layout) (modifiers : List Modifier) :
    ∃ f fs y ys, modifiers.map Modifier.layout ++ g :: gs = f :: fs ∧
      modifiers.map Modifier.extent ++ [x] = y :: ys ∧ f.extent? = some y := by
  cases modifiers with
  | nil => exact ⟨g, gs, x, [], rfl, rfl, hg⟩
  | cons m modifiers => exact ⟨_, _, _, _, rfl, rfl, m.extent?_layout⟩

/-- The modifiers of a declaration with the trivia after each: what is written for them goes before
what is written for the rest. -/
theorem modifiers_at (ht : s.target = .swift) (hg : g.extent? = some x)
    {modifiers : List Modifier} (hdecl : ctx.declaration = some declaration)
    (hat : Layout.LieAll (modifiers.map Modifier.layout ++ g :: gs) ctx.cursor d)
    (hrun : Step.runAll (modifiers.flatMap fun m => m.script s ++ [.copyTrivia]) ctx =
      .ok () after) :
    ∃ before : List Chunk, after = ctx.moved after.cursor (before.flatMap Chunk.text) ∧
      ∀ {src ts P chunks}, Segment src True ts P chunks → ∃ Q,
        Segment src False
          ((modifiers.filterMap (·.swiftWord? s declaration)).map Token.keyword ++ ts) Q
          (before ++ chunks) ∧
        (SetOff (modifiers.map Modifier.extent ++ [x]) → (Q ↔ P)) := by
  induction modifiers generalizing ctx with
  | nil =>
    rw [runAll_nil_ok.1 hrun]
    exact ⟨[], ctx.moved_self.symm, fun hsegment => ⟨_, hsegment.mono False.elim, fun _ => .rfl⟩⟩
  | cons m modifiers ih =>
    obtain ⟨_, hfirst, hrest⟩ := runAll_append_ok.1 hrun
    obtain ⟨mid, hscript, hcopy⟩ := runAll_append_ok.1 hfirst
    obtain ⟨f, fs, y, ys, hlayouts, hplaces, hf⟩ := exists_next hg gs modifiers
    rw [List.map_cons, List.cons_append, hlayouts] at hat
    have hword := m.script_at ht hdecl hat hscript
    have hmid : Stance.loose.At (f :: fs) mid.cursor d :=
      (m.walks s).stays_in_step (fun _ => List.cons_ne_nil _ _) (List.forall_mem_nil _)
        (a := .ready) hat hscript
    obtain ⟨gap, start, hgap, hruns, rfl, hlies⟩ := copyTrivia_at hmid (runAll_singleton_ok.1 hcopy)
    have hdecl' : (mid.moved start gap).declaration = some declaration := by
      change mid.declaration = _
      split at hword
      · rw [hword.1]
        exact hdecl
      · rw [hword]
        exact hdecl
    obtain ⟨_, hnext, -⟩ := id hlies
    rw [← hlayouts] at hlies
    obtain ⟨before, hafter, hsegments⟩ := ih hdecl' hlies hrest
    rw [List.map_cons, List.cons_append, hplaces, List.filterMap_cons]
    cases hm : m.swiftWord? s declaration with
    | none =>
      rw [hm] at hword
      refine ⟨Chunk.gaps gap ++ before, ?_, fun hsegment => ?_⟩
      · rw [hafter, hword, Context.moved_moved, Context.moved_moved, List.flatMap_append,
          Chunk.flatMap_gaps]
        rfl
      · obtain ⟨Q, hbefore, hQ⟩ := hsegments hsegment
        rw [List.append_assoc]
        refine ⟨Q, hbefore.after hruns, fun hset => hQ ?_⟩
        rw [hplaces]
        exact hset.tail
    | some w =>
      rw [hm] at hword
      obtain ⟨hword, hstop⟩ := hword
      refine ⟨.token (.keyword w) w.toList :: (Chunk.gaps gap ++ before), ?_, fun hsegment => ?_⟩
      · rw [hafter, hword, Context.moved_moved, Context.moved_moved, List.flatMap_cons,
          List.flatMap_append, Chunk.flatMap_gaps]
        rfl
      · obtain ⟨Q, hbefore, hQ⟩ := hsegments hsegment
        have hne := List.append_ne_nil_of_right_ne_nil
          ((modifiers.filterMap (·.swiftWord? s declaration)).map Token.keyword) hsegment.ne_nil
        obtain ⟨Q', hall, hQ'⟩ := hbefore.setOff w hruns hne
        rw [List.cons_append, List.append_assoc]
        refine ⟨Q', hall.mono False.elim, fun hset => (hQ' ?_).trans (hQ ?_)⟩
        · have hfirst : start.offset = y.start := (hnext.offset_eq hf).1
          have htouch := (List.isChain_cons_cons.1 hset).1
          rw [Ne, hgap.eq_nil_iff, hfirst, hstop]
          exact htouch
        · rw [hplaces]
          exact hset.tail

theorem copyTrivia_flatMap (modifiers : List Modifier) :
    (modifiers.flatMap fun m => .copyTrivia :: m.script s) ++ [.copyTrivia] =
      [.copyTrivia] ++ modifiers.flatMap fun m => m.script s ++ [.copyTrivia] := by
  induction modifiers with
  | nil => rfl
  | cons m modifiers ih =>
    simp only [List.flatMap_cons, List.append_assoc, ih]
    rfl

variable {a : Stance} {ys : Script} {o : Outline}

/-- The output follows an outline if the script after the modifiers writes the tokens after them. -/
theorem Outline.follows (ht : s.target = .swift) (hg : g.extent? = some o.head)
    (hbody : Chunked ctx.cursor.text .ready ys (g :: gs) o.body o.KeepsApart)
    (hat : a.At (o.modifiers.map Modifier.layout ++ g :: gs) ctx.cursor d)
    (hrun : Step.runAll (modifiersScript s o.declaration o.modifiers ++ ys) ctx = .ok () after) :
    after.cursor = d ∧ o.Follows s ctx after := by
  obtain ⟨mid, hmodifiers, hrest⟩ := runAll_append_ok.1 hrun
  have hmid : Stance.ready.At (g :: gs) mid.cursor d :=
    (modifiersScript_walks s o.declaration o.modifiers).stays_in_step
      (fun _ => List.cons_ne_nil _ _) (List.forall_mem_nil _) hat hmodifiers
  obtain ⟨inner, hinner, rfl⟩ := inDeclaration_ok (runAll_singleton_ok.1 hmodifiers)
  let outer : Context := { ctx with declaration := some o.declaration }
  replace hinner : Step.runAll ((o.modifiers.flatMap fun m => .copyTrivia :: m.script s) ++
      [.copyTrivia]) outer = .ok () inner := hinner
  rw [copyTrivia_flatMap] at hinner
  obtain ⟨_, hcopy, hwords⟩ := runAll_append_ok.1 hinner
  obtain ⟨f, fs, -, -, hlayouts, -⟩ := exists_next hg gs o.modifiers
  have hat' : a.At (f :: fs) outer.cursor d := hlayouts ▸ hat
  obtain ⟨gap, start, -, hruns, rfl, hlies⟩ := copyTrivia_at hat' (runAll_singleton_ok.1 hcopy)
  rw [← hlayouts] at hlies
  obtain ⟨before, hbefore, hsegments⟩ := modifiers_at ht hg rfl hlies hwords
  obtain ⟨hd, chunks, hafter, hsegment⟩ :=
    hbody (hmid.text_eq.symm.trans hat.text_eq) hmid hrest
  obtain ⟨P, hall, hP⟩ := hsegments (hsegment.mono fun _ => rfl)
  refine ⟨hd, Chunk.gaps gap ++ (before ++ chunks), P, ?_, hall.after hruns, hP⟩
  rw [hafter, List.flatMap_append, List.flatMap_append, Chunk.flatMap_gaps, Writer.added_append,
    Writer.added_append]
  exact congrArg (fun w => Writer.added w _) (congrArg Context.writer hbefore)

/-- The comments that are counted into the place of a declaration come first. -/
theorem Outline.follows_lead (ht : s.target = .swift) (hg : g.extent? = some o.head)
    (hbody : Chunked ctx.cursor.text .ready ys (g :: gs) o.body o.KeepsApart)
    (hat : a.At (o.modifiers.map Modifier.layout ++ g :: gs) ctx.cursor d)
    (hrun : Step.runAll ([.copyTrivia] ++ (modifiersScript s o.declaration o.modifiers ++ ys)) ctx =
      .ok () after) :
    after.cursor = d ∧ o.Follows s ctx after := by
  obtain ⟨_, hcopy, hrest⟩ := runAll_append_ok.1 hrun
  obtain ⟨f, fs, -, -, hlayouts, -⟩ := exists_next hg gs o.modifiers
  rw [hlayouts] at hat
  obtain ⟨gap, start, hgap, hruns, rfl, hlies⟩ := copyTrivia_at hat (runAll_singleton_ok.1 hcopy)
  rw [← hlayouts] at hlies
  rw [← hgap.text_eq] at hbody
  obtain ⟨hd, chunks, P, hwriter, hsegment, hP⟩ := Outline.follows ht hg hbody hlies hrest
  rw [Context.cursor_moved, hgap.text_eq] at hsegment
  refine ⟨hd, Chunk.gaps gap ++ chunks, P, ?_, hsegment.after hruns, hP⟩
  rw [hwriter, List.flatMap_append, Chunk.flatMap_gaps, Writer.added_append]
  rfl

end

end Tree

namespace Render

open Lockstep.Tree

/-! ## Scripts of declarations -/

/-- The script writes nothing. -/
def Silent (xs : Script) : Prop :=
  ∀ ctx after : Context, Step.runAll xs ctx = .ok () after → after.writer = ctx.writer

namespace Silent

variable {xs ys : Script}

theorem nil : Silent [] := fun ctx after h => by rw [runAll_nil_ok.1 h]

theorem append (hxs : Silent xs) (hys : Silent ys) : Silent (xs ++ ys) := by
  intro ctx after h
  obtain ⟨mid, hfirst, hrest⟩ := runAll_append_ok.1 h
  rw [hys mid after hrest, hxs ctx mid hfirst]

theorem skipTrivia : Silent [.skipTrivia] := by
  intro ctx after h
  obtain ⟨_, _, _, _, _, rfl⟩ := skipTriviaUntil_ok (runAll_singleton_ok.1 h)
  exact Writer.added_nil _

theorem drop (token : String) : Silent [Script.drop token] := by
  intro ctx after h
  obtain ⟨_, _, rfl⟩ := swap_ok (runAll_singleton_ok.1 h)
  exact Writer.added_nil _

theorem erase (extent : Extent) : Silent [.replace extent ""] := by
  intro ctx after h
  obtain ⟨_, rfl⟩ := replaceExtent_ok (runAll_singleton_ok.1 h)
  exact Writer.added_nil _

end Silent

namespace Chunked

variable {s : Settings} {src : List Char} {a b : Stance} {xs ys : Script} {f g : Layout}
  {fs gs : List Layout} {ts : List Token} {P : Prop} {x y : Extent}

/-- A script that writes nothing comes before another. -/
theorem silently (hab : a = .ready → b = .ready) (hgs : b ≠ .done → gs ≠ [])
    (hwalks : Walks True [] a xs fs b) (hsilent : Silent xs) (h : Chunked src b ys gs ts P) :
    Chunked src a (xs ++ ys) (fs ++ gs) ts P := by
  refine h.prepend fun {ctx mid d} _ hat hrun => ?_
  have hat' := hwalks.stays_in_step hgs (List.forall_mem_nil _) hat hrun
  refine ⟨hat', [], ?_, fun hsegment => hsegment.mono hab⟩
  rw [hsilent _ _ hrun]
  exact (Writer.added_nil _).symm

theorem parts {extent : Extent} (h : Chunked src .ready xs fs ts P) :
    Chunked src .ready xs [.node extent fs] ts P := by
  intro ctx after d htext hat hrun
  obtain ⟨stop, ⟨-, -, -, hparts⟩, rfl⟩ := hat
  exact h htext hparts hrun

/-- A word in the place of a part. -/
theorem replaced (text : String) (hx : f.extent? = some x) (h : Chunked src .done ys gs ts P) :
    Chunked src .ready ([.replace x text] ++ ys) (f :: gs) (.word text :: ts) P := by
  refine h.prependWord text fun {ctx mid d} hat hrun => ?_
  obtain ⟨stop, -, rfl, hlies⟩ := replace_at hx hat (runAll_singleton_ok.1 hrun)
  exact ⟨hlies, rfl⟩

/-- A keyword in the place of a type. It touches the name behind it if the type does. -/
theorem keyword (w : String) (hx : f.extent? = some x) (hy : g.extent? = some y)
    (h : Chunked src .ready ys (g :: gs) ts P) :
    Chunked src .ready ([.replace x w, .copyTrivia] ++ ys) (f :: g :: gs) (.keyword w :: ts)
      (P ∧ y.start ≠ x.stop.toNat) := by
  refine h.prepend fun {ctx mid d} _ hat hrun => ?_
  obtain ⟨_, hreplace, hcopy⟩ := runAll_cons_ok.1 hrun
  obtain ⟨stop, hstop, rfl, hlies⟩ := replace_at hx hat hreplace
  obtain ⟨gap, first, hgap, hruns, rfl, hlies⟩ := copyTrivia_at hlies (runAll_singleton_ok.1 hcopy)
  have hgap_nil : gap = [] ↔ y.start = x.stop.toNat := by
    obtain ⟨_, hnext, -⟩ := hlies
    rw [hgap.eq_nil_iff, Context.cursor_moved, hstop]
    exact Eq.congr_left (hnext.offset_eq hy).1
  refine ⟨hlies, .token (.keyword w) w.toList :: Chunk.gaps gap, ?_, fun hsegment => ?_⟩
  · rw [Context.moved_moved, List.flatMap_cons, Chunk.flatMap_gaps]
    rfl
  · rw [Ne, ← hgap_nil]
    exact ((hsegment.mono fun _ => rfl).keyword w hruns).mono fun _ => trivial

/-- The arrow before the result type of a method. -/
theorem arrow (h : Chunked src .done ys gs ts P) :
    Chunked src .done ([.emit " -> "] ++ ys) gs (.word "->" :: ts) P := by
  refine h.prepend fun {ctx mid d} _ hat hrun => ?_
  rw [write_ok (runAll_singleton_ok.1 hrun)]
  have hspace : Trivia.Runs [' '] [] := .single rfl
  refine ⟨hat, Chunk.gaps [' '] ++ .token (.word "->") "->".toList :: Chunk.gaps [' '], ?_,
    fun hsegment => ?_⟩
  · rw [List.flatMap_append, List.flatMap_cons, Chunk.flatMap_gaps]
    rfl
  · rw [List.append_assoc]
    exact (((hsegment.after hspace).cons (.word "->") rfl rfl).after hspace).mono nofun

/-- The semicolon after a declaration is left out. -/
theorem terminator : Chunked src .done (Script.terminator .swift) [.token ";"] [] True := by
  intro ctx after d htext hat hrun
  obtain ⟨_, hcopy, hswap⟩ := runAll_cons_ok.1 hrun
  obtain ⟨gap, start, -, hruns, rfl, hlies⟩ := copyTrivia_at hat hcopy
  obtain ⟨stop, -, rfl, hlies⟩ := swap_at hlies (runAll_singleton_ok.1 hswap)
  refine ⟨hlies.symm, Chunk.gaps gap, ?_, (Segment.gap hruns).mono nofun⟩
  rw [Context.moved_moved, Chunk.flatMap_gaps]
  exact congrArg ctx.writer.added (List.append_nil gap)

end Chunked

end Render

namespace Tree

/-! ## Variables, parameters and methods -/

section

variable {s : Settings} {src : List Char}

theorem Fragment.chunked (ht : s.target = .swift) {type : TypeRef}
    (htype : type.layout.FaithfulTo src) (f : Fragment) :
    Chunked src .ready (f.body s (some type)) [f.layout] (f.swiftTokens s type)
      (f.KeepsApart s) := by
  unfold Fragment.body
  split
  · exact .refuse
  · next hdimensions =>
    have hzero : f.extraDimensions = 0 := by simpa using hdimensions
    have hcolon := Chunked.emitSpaced ":"
      (.revisit htype type.extent?_layout (type.chunked s) .nil)
    have hname := (f.name.chunked s).append (fun _ => List.cons_ne_nil _ _) hcolon
    rw [f.layout_of_plain hzero]
    refine .parts ?_
    unfold Fragment.swiftTokens Fragment.KeepsApart
    cases f.initial with
    | none =>
      rw [List.append_nil]
      exact hname.congr (by simp)
    | some e =>
      have hvalue := hname.link "=" (List.cons_ne_nil _ _)
        (Layout.stopAt_singleton (x := f.name.extent) rfl) e.extent?_layout (e.chunked ht)
      rw [ht]
      exact hvalue.congr (by simp)

/-- Variables of one type: the keyword, and each with the type behind its name. -/
theorem variables_chunked (ht : s.target = .swift) (modifiers : List Modifier) {type : TypeRef}
    (htype : type.layout.FaithfulTo src) (first : Fragment) (more : List Fragment) :
    Chunked src .ready
      (variablesScript s modifiers type (first :: more) ++ Script.terminator s.target)
      (type.layout :: (Layout.separated ((first :: more).map Fragment.layout) ++ [.token ";"]))
      (.keyword (if Modifier.mentions .final modifiers then "let" else "var") ::
        Token.separated ((first :: more).map (Fragment.swiftTokens s type)))
      ((∀ f ∈ first :: more, f.KeepsApart s) ∧
        first.extent.start ≠ type.extent.stop.toNat) := by
  have hfragments := Chunked.separated fun f (_ : f ∈ first :: more) => f.chunked ht htype
  have hall := (Chunked.keyword (if Modifier.mentions .final modifiers then "let" else "var")
    type.extent?_layout (y := first.extent) rfl hfragments).followed
      (fun _ => List.cons_ne_nil _ _) .terminator
  rw [variablesScript, if_pos (beq_iff_eq.2 ht), ht, List.map_cons, Script.commaSeparated_cons,
    List.map_cons, Layout.separated_cons]
  rw [List.append_nil] at hall
  exact hall

theorem swiftParameter_chunked (p : Parameter) (htype : p.type.layout.FaithfulTo src) :
    Chunked src .ready (swiftParameter s p)
      (p.type.layout :: (dotLayouts p.isVarargs ++ [p.name.layout])) (p.outline s).body True := by
  have hdots : Chunked src .done (if p.isVarargs then [.emit "..."] else []) []
      (if p.isVarargs then [.word "..."] else []) True := by
    split
    · exact .emit "..." .nil
    · exact .nil
  have hcolon := Chunked.emitSpaced ":"
    (.revisit htype p.type.extent?_layout (p.type.chunked s) hdots)
  have hname := (p.name.chunked s).append (fun _ => List.cons_ne_nil _ _) hcolon
  have herase : Walks True [] .ready [.replace p.type.extent ""] [p.type.layout] .done :=
    .replace trivial p.type.extent?_layout
  have hhead : Walks True [] .ready
      ([.replace p.type.extent ""] ++
        ((if p.isVarargs then [.skipTrivia, Script.drop "..."] else []) ++ [.skipTrivia]))
      ([p.type.layout] ++ (dotLayouts p.isVarargs ++ [])) .ready := by
    refine herase.append (.append (b := .done) ?_ .skipTrivia)
    unfold dotLayouts
    split
    · exact .cons .skipTrivia .swap
    · exact .nil
  have hsilent : Silent ([.replace p.type.extent ""] ++
      ((if p.isVarargs then [.skipTrivia, Script.drop "..."] else []) ++ [.skipTrivia])) := by
    refine (Silent.erase _).append (.append ?_ .skipTrivia)
    split
    · exact Silent.skipTrivia.append (.drop "...")
    · exact .nil
  have hall := Chunked.emitSpaced "_" (.silently (fun h => h) (fun _ => List.cons_ne_nil _ _) hhead
    hsilent hname)
  unfold swiftParameter
  simp only [List.append_assoc, List.append_nil] at hall ⊢
  exact hall.congr (by simp)

theorem moreThrown_silent (thrown : List TypeRef) : Silent (moreThrown thrown) := by
  induction thrown with
  | nil => exact .nil
  | cons type rest ih =>
    exact Silent.skipTrivia.append ((Silent.drop ",").append
      (Silent.skipTrivia.append ((Silent.erase type.extent).append ih)))

theorem thrown_chunked (thrown : List TypeRef) :
    Chunked src .done (thrownScript .swift thrown) (clauseLayouts "throws" thrown)
      (if thrown.isEmpty then [] else [.word "throws"]) True := by
  cases thrown with
  | nil => exact .nil
  | cons type rest =>
    have hsilent := Silent.skipTrivia.append
      ((Silent.erase type.extent).append (moreThrown_silent rest))
    have htypes : Chunked src .done _ _ [] True := .silently nofun (absurd rfl)
      (Walks.skipTrivia.append (moreThrown_walks type rest)) hsilent .nil
    rw [List.append_nil, List.append_nil] at htypes
    exact .copyTrivia (.swap "throws" "throws" htypes)

theorem MethodDecl.name_chunked (ht : s.target = .swift) (m : MethodDecl) :
    Chunked src .ready (m.nameScript s)
      (m.returnType.toList.map TypeRef.layout ++ [m.name.layout]) (m.nameTokens s)
      (m.outline s).KeepsApart := by
  unfold MethodDecl.nameScript MethodDecl.nameTokens MethodDecl.outline
  rw [ht]
  cases m.returnType with
  | none => exact (Chunked.replaced "init" rfl .nil).congr (by simp)
  | some type =>
    have hname : Chunked src .ready (m.name.script s) [m.name.layout] [m.name.asToken s] True :=
      m.name.chunked s
    have hkeyword := Chunked.keyword "func" type.extent?_layout (y := m.name.extent) rfl hname
    exact hkeyword.congr (by simp)

theorem MethodDecl.result_chunked (ht : s.target = .swift) (m : MethodDecl)
    (htype : ∀ type ∈ m.returnType, type.layout.FaithfulTo src) :
    Chunked src .done (m.resultScript s) [] (m.resultTokens s) True := by
  unfold MethodDecl.resultScript MethodDecl.resultTokens
  cases hresult : m.returnType with
  | none => exact .nil
  | some type =>
    rw [ht]
    cases hvoid : type.isVoid with
    | true => simpa [hvoid] using Chunked.nil
    | false =>
      have harrow := Chunked.arrow
        (.revisit (htype type hresult) type.extent?_layout (type.chunked s) .nil)
      simpa [hvoid] using harrow

theorem MethodDecl.body_chunked (ht : s.target = .swift) (m : MethodDecl) :
    Chunked src .done (m.bodyScript s) [m.bodyLayout] (m.body.toList.map (Block.asToken s))
      True := by
  unfold MethodDecl.bodyScript MethodDecl.bodyLayout
  cases m.body with
  | some body => exact .copyTrivia (.part rfl (body.toStmt.walks s))
  | none =>
    rw [ht]
    exact .terminator

/-- A method after its modifiers. -/
theorem MethodDecl.chunked (ht : s.target = .swift) (m : MethodDecl)
    (htype : ∀ type ∈ m.returnType, type.layout.FaithfulTo src) :
    Chunked src .ready
      (m.nameScript s ++ ([.copyTrivia] ++
        (Script.arguments (m.parameters.map (Parameter.script s)) ++
          (thrownScript s.target m.thrown ++ (m.resultScript s ++ m.bodyScript s)))))
      (m.returnType.toList.map TypeRef.layout ++ [m.name.layout] ++
        (argumentLayouts (m.parameters.map Parameter.layout) ++
          (clauseLayouts "throws" m.thrown ++ [m.bodyLayout])))
      (m.outline s).body (m.outline s).KeepsApart := by
  have hresult := Chunked.followed (a := .done) nofun (m.result_chunked ht htype)
    (m.body_chunked ht)
  have hthrown := Chunked.followed (a := .done) nofun (thrown_chunked m.thrown) hresult
  have hparameters := (Chunked.arguments fun p (_ : p ∈ m.parameters) =>
    .part (x := p.extent) rfl (p.walks s)).followed (fun _ => List.cons_ne_nil _ _) hthrown
  have hall := (m.name_chunked ht).followed
    (fun _ => List.append_ne_nil_of_right_ne_nil _ (List.cons_ne_nil _ _))
    (.copyTrivia (hparameters.congr (by simp)))
  unfold MethodDecl.outline at hall ⊢
  rw [ht]
  simp only [List.append_assoc] at hall ⊢
  exact hall

/-! ## Declarations in a source -/

variable {ctx after : Context} {d first : Cursor} {gap : List Char}

theorem Parameter.follows_outline (ht : s.target = .swift) {p : Parameter}
    (hlies : p.layout.Lies ctx.cursor d) (hrun : Step.runAll (p.script s) ctx = .ok () after) :
    after.cursor = d ∧ (p.outline s).Follows s ctx after := by
  have hbody := runAll_node_ok hrun
  split at hbody
  · cases hbody
  · next hdimensions =>
    have hzero : p.extraDimensions = 0 := by simpa using hdimensions
    rw [if_pos (beq_iff_eq.2 ht)] at hbody
    rw [Parameter.layout, hzero] at hlies
    have hat : Stance.ready.At _ ctx.cursor d := hlies.2.2.2
    have htype := hat.faithfulTo (List.mem_append_right _ List.mem_cons_self)
    exact Outline.follows ht p.type.extent?_layout (swiftParameter_chunked p htype) hat hbody

theorem Stmt.declare_follows_outline (ht : s.target = .swift) {extent : Extent}
    {modifiers : List Modifier} {type : TypeRef} {fragments : List Fragment} {o : Outline}
    (ho : variablesOutline? s .localVariable modifiers type fragments = some o)
    (hlies : (Stmt.declare extent modifiers type fragments).layout.Lies ctx.cursor d)
    (hrun : Step.runAll ((Stmt.declare extent modifiers type fragments).script s) ctx =
      .ok () after) :
    after.cursor = d ∧ o.Follows s ctx after := by
  cases fragments with
  | nil => cases ho
  | cons f more =>
    cases ho
    rw [Stmt.script, List.append_assoc] at hrun
    have hat : Stance.ready.At _ ctx.cursor d := hlies.2.2.2
    have htype := hat.faithfulTo (List.mem_append_right _ List.mem_cons_self)
    exact Outline.follows ht type.extent?_layout (variables_chunked ht modifiers htype f more) hat
      (runAll_node_ok hrun)

theorem FieldDecl.follows_outline (ht : s.target = .swift) {f : FieldDecl} {o : Outline}
    (ho : variablesOutline? s .field f.modifiers f.type f.fragments = some o)
    (hat : Layout.LieAfter f.layouts ctx.cursor d)
    (hrun : Step.runAll (f.script s) ctx = .ok () after) :
    after.cursor = d ∧ o.Follows s ctx after := by
  obtain ⟨extent, modifiers, type, fragments⟩ := f
  cases fragments with
  | nil => cases ho
  | cons f more =>
    cases ho
    have hbody := runAll_node_ok hrun
    rw [List.append_assoc, List.append_assoc] at hbody
    have htype := Stance.At.faithfulTo (a := .loose) hat
      (List.mem_append_right _ List.mem_cons_self)
    exact Outline.follows_lead (a := .loose) ht type.extent?_layout
      (variables_chunked ht modifiers htype f more) hat hbody

/-- After its modifiers a method has its result type, or else its name. -/
theorem MethodDecl.exists_head (s : Settings) (m : MethodDecl) (rest : List Layout) :
    ∃ g gs, m.returnType.toList.map TypeRef.layout ++ [m.name.layout] ++ rest = g :: gs ∧
      g.extent? = some (m.outline s).head := by
  unfold MethodDecl.outline
  cases m.returnType with
  | none => exact ⟨_, _, rfl, rfl⟩
  | some type => exact ⟨_, _, rfl, type.extent?_layout⟩

theorem MethodDecl.follows_outline (ht : s.target = .swift) {m : MethodDecl}
    (hat : Layout.LieAfter m.layouts ctx.cursor d)
    (hrun : Step.runAll (m.script s) ctx = .ok () after) :
    after.cursor = d ∧ (m.outline s).Follows s ctx after := by
  have hbody := runAll_node_ok hrun
  simp only [List.append_assoc] at hbody
  cases hparameters : m.typeParameters with
  | cons =>
    rw [hparameters] at hbody
    cases hbody
  | nil =>
    by_cases hdimensions : m.extraDimensions = 0
    · rw [hparameters, refuseTypeParameters, List.nil_append, hdimensions] at hbody
      have hlayouts : m.layouts = m.modifiers.map Modifier.layout ++
          (m.returnType.toList.map TypeRef.layout ++ [m.name.layout] ++
            (argumentLayouts (m.parameters.map Parameter.layout) ++
              (clauseLayouts "throws" m.thrown ++ [m.bodyLayout]))) := by
        unfold MethodDecl.layouts
        rw [hparameters, hdimensions]
        simp [typeParameterLayouts, bracketLayouts]
      rw [hlayouts] at hat
      have htype : ∀ type ∈ m.returnType, type.layout.FaithfulTo ctx.cursor.text := by
        intro type htype
        refine Stance.At.faithfulTo (a := .loose) hat ?_
        simp [Option.mem_def.1 htype]
      obtain ⟨g, gs, hgs, hg⟩ := m.exists_head s (argumentLayouts
        (m.parameters.map Parameter.layout) ++ (clauseLayouts "throws" m.thrown ++ [m.bodyLayout]))
      have hchunked := m.chunked ht htype
      rw [hgs] at hat hchunked
      exact Outline.follows_lead (a := .loose) (o := m.outline s) ht hg hchunked hat hbody
    · have hrefuse : (m.extraDimensions != 0) = true := by simpa using hdimensions
      rw [hparameters, refuseTypeParameters, List.nil_append, if_pos hrefuse] at hbody
      cases hbody

/-! ## The output of a declaration -/

/-- In the output in Swift for a declaration that lies in the source, the tokens are those of its
outline: the modifiers, the keyword, and each name with the type behind it. If no modifier touches
what comes next in the source, they keep apart exactly if the operators of initial values do and the
type does not touch the name. What is written for a type is the same each time. -/
theorem Node.render_declaration (ht : s.target = .swift) {node : Node} {o : Outline}
    (ho : node.outline? s = some o) (hlies : node.Lies ctx.cursor d)
    (hrun : node.render s ctx = .ok () after) :
    after.cursor = d ∧ d.offset = node.extent.stop.toNat ∧
      (∃ chunks : List Chunk, after.writer = ctx.writer.added (chunks.flatMap Chunk.text) ∧
        chunks.filterMap Chunk.token? = o.tokens s ∧
        (∀ c ∈ chunks, c.IsSpelled ctx.cursor.text) ∧
        (o.IsSetOff → (chunks.IsChain Chunk.Clears ↔ o.KeepsApart))) ∧
      ∀ type ∈ o.types, ∀ text text',
        WritesAt ctx.cursor.text type.extent.start (type.script s) text →
        WritesAt ctx.cursor.text type.extent.start (type.script s) text' → text' = text := by
  have hfollows : after.cursor = d ∧ d.offset = node.extent.stop.toNat ∧
      o.Follows s ctx after := by
    cases node with
    | parameter p =>
      cases ho
      obtain ⟨hd, hfollows⟩ := Parameter.follows_outline ht hlies hrun
      exact ⟨hd, (hlies.offset_eq rfl).2, hfollows⟩
    | stmt t =>
      obtain ⟨layout, ⟨⟩, hlies⟩ := hlies
      cases t with
      | declare extent modifiers type fragments =>
        obtain ⟨hd, hfollows⟩ := Stmt.declare_follows_outline ht ho hlies hrun
        exact ⟨hd, (hlies.offset_eq rfl).2, hfollows⟩
      | _ => cases ho
    | member m =>
      obtain ⟨start, hcovers, hfills⟩ := hlies
      obtain ⟨lead, hpass, hruns⟩ := hcovers.lead
      cases m with
      | field f =>
        rw [Member.Fills] at hfills
        obtain ⟨hd, hfollows⟩ := FieldDecl.follows_outline ht ho
          (hfills.lieAfter f.layouts_ne_nil hpass hruns) hrun
        exact ⟨hd, hcovers.stop, hfollows⟩
      | method m =>
        cases ho
        rw [Member.Fills] at hfills
        obtain ⟨hd, hfollows⟩ := MethodDecl.follows_outline ht
          (hfills.lieAfter m.layouts_ne_nil hpass hruns) hrun
        exact ⟨hd, hcovers.stop, hfollows⟩
      | _ => cases ho
    | _ => cases ho
  obtain ⟨hd, hstop, chunks, P, hwriter, hsegment, hP⟩ := hfollows
  refine ⟨hd, hstop, ⟨chunks, hwriter, hsegment.tokens, hsegment.spelled, fun hset => ?_⟩,
    fun type _ _ _ => (type.settled s).writesAt_unique⟩
  exact hsegment.apart.trans (hP hset)

end

/-- A variable of an array type, of which the brackets come in front of the name. -/
theorem Node.render_declaration_array :
    let type : TypeRef := .array ⟨0, 5⟩ (.primitive ⟨0, 3⟩ .int) 1
    let a : Fragment := ⟨⟨6, 9⟩, ⟨⟨6, 7⟩, "a"⟩, 0, some (.name (.simple ⟨⟨8, 9⟩, "b"⟩))⟩
    let node : Node := .stmt (.declare ⟨0, 10⟩ [] type [a])
    ∃ after, node.render (.ofTarget .swift) (.start "int[] a=b;" true) = .ok () after ∧
      after.writer.current = "var a: [Int32]=b" ∧
      ∃ chunks : List Chunk,
        after.writer = (Context.start "int[] a=b;" true).writer.added (chunks.flatMap Chunk.text) ∧
        chunks.filterMap Chunk.token? =
          .keyword "var" :: a.swiftTokens (.ofTarget .swift) type ∧
        chunks.IsChain Chunk.Clears := by
  intro type a node
  obtain ⟨after, hrun, hout⟩ := runsTo_ok (by decide +kernel :
    runsTo (node.render (.ofTarget .swift)) (.start "int[] a=b;" true) = some "var a: [Int32]=b")
  let place (n : Nat) := (Cursor.ofText "int[] a=b;").pass n
  have passes (n m : Nat) : (place n).Passes _ _ := (place n).passes_pass m
  have htype : type.layout.Lies (place 0) (place 5) := by
    refine ⟨rfl, rfl, rfl, place 3, ⟨rfl, rfl, rfl, _, ⟨rfl, passes 0 3⟩, rfl⟩, ?_⟩
    exact ⟨[], _, _, .refl _, .nil, ⟨rfl, passes 3 1⟩, [], _, _, .refl _, .nil,
      ⟨rfl, passes 4 1⟩, rfl⟩
  have hvariable : Layout.Lies (.node ⟨6, 9⟩ [.node ⟨6, 7⟩ [.token "a"], .token "=",
      .node ⟨8, 9⟩ [.token "b"]]) (place 6) (place 9) := by
    refine ⟨rfl, rfl, rfl, place 7, ⟨rfl, rfl, rfl, _, ⟨rfl, passes 6 1⟩, rfl⟩, ?_⟩
    exact ⟨[], _, _, .refl _, .nil, ⟨rfl, passes 7 1⟩, [], _, _, .refl _, .nil,
      ⟨rfl, rfl, rfl, _, ⟨rfl, passes 8 1⟩, rfl⟩, rfl⟩
  have hlies : node.Lies (place 0) (place 10) :=
    ⟨_, rfl, rfl, rfl, rfl, place 5, htype, _, place 6, place 9, passes 5 1, .single rfl,
      hvariable, [], _, _, .refl _, .nil, ⟨rfl, passes 9 1⟩, rfl⟩
  obtain ⟨-, -, ⟨chunks, hwriter, htokens, -, hapart⟩, -⟩ :=
    Node.render_declaration rfl (by exact rfl) hlies hrun
  refine ⟨after, hrun, hout, chunks, hwriter, htokens, (hapart (List.isChain_singleton _)).2 ?_⟩
  refine ⟨List.forall_mem_singleton.2 ?_, by decide⟩
  rintro _ ⟨⟩
  exact ⟨trivial, nofun⟩

/-- A keyword that touches the name, of a variable and of a method, and a modifier that touches the
keyword since the annotation between them is left out. -/
theorem Node.render_joins_keyword :
    let s : Settings := .ofTarget .swift
    let int : TypeRef := .primitive ⟨0, 3⟩ .int
    let ints : TypeRef := .array ⟨0, 5⟩ int 1
    let a : SimpleName := ⟨⟨5, 6⟩, "a"⟩
    let b : Expr := .name (.simple ⟨⟨9, 10⟩, "b"⟩)
    let f : SimpleName := ⟨⟨21, 22⟩, "f"⟩
    let mark : Annotation :=
      ⟨⟨6, 15⟩, .marker, .simple ⟨⟨7, 15⟩, "Override"⟩, some ⟨"java.lang.Override", false⟩⟩
    let declared : Node := .stmt (.declare ⟨0, 11⟩ [] ints [⟨⟨5, 10⟩, a, 0, some b⟩])
    let method : Node :=
      .member (.method ⟨⟨0, 9⟩, [], [], some ints, false, a, [], 0, [], none⟩)
    let marked : Node := .member (.method ⟨⟨0, 25⟩, [.word ⟨0, 6⟩ .public, .annotated mark], [],
      some (.primitive ⟨16, 20⟩ .void), false, f, [], 0, [], none⟩)
    let word (text : String) : Chunk := .token (.word text) text.toList
    let keyword (text : String) : Chunk := .token (.keyword text) text.toList
    let space : Chunk := .gap [' ']
    ∀ x ∈ [("int[]a = b;", declared, "vara: [Int32] = b",
          [keyword "var", .token (a.asToken s) ['a'], word ":", space,
            .token (ints.asToken s) "[Int32]".toList, space, .token (.operator "=") ['='], space,
            .token (b.asToken s) ['b']]),
        ("int[]a();", method, "funca() -> [Int32]",
          [keyword "func", .token (a.asToken s) ['a'], word "(", word ")", space, word "->", space,
            .token (ints.asToken s) "[Int32]".toList]),
        ("public@Override void f();", marked, "publicfunc f()",
          [keyword "public", keyword "func", space, .token (f.asToken s) ['f'], word "(",
            word ")"])],
      renderNode s x.1 true x.2.1 = ⟨none, x.2.2.1⟩ ∧
        x.2.2.2.flatMap Chunk.text = x.2.2.1.toList ∧
        (x.2.1.outline? s).map (·.tokens s) = some (x.2.2.2.filterMap Chunk.token?) ∧
        ¬ x.2.2.2.IsChain Chunk.Clears := by
  intro s int ints a b f mark declared method marked word keyword space
  rw [List.forall_mem_cons, List.forall_mem_cons, List.forall_mem_singleton]
  refine ⟨⟨by decide +kernel, by decide +kernel, rfl, ?_⟩,
    ⟨by decide +kernel, by decide +kernel, rfl, ?_⟩, by decide +kernel, by decide +kernel, rfl, ?_⟩
  all_goals simp [keyword, Chunk.Clears]

end Tree

end Lockstep
