import Lockstep.Proofs.InStep
import Lockstep.Proofs.Restoring

/-!
# Places that take in leading trivia

Whether the comments before a declaration or a statement are counted into its place makes no
difference to a rendering. All that is asked of the start of such a place is that a scan from there
reaches the cursor (`Cursor.hasReached`), and a scan that begins some runs earlier gets as far
(`Cursor.hasReached_of_widens`). So a script does whatever the one for the old places did
(`Follows`), at any depth of the tree.

Main statement: `TypeDecl.render_moved`.
-/

namespace Lockstep.Source

open Text

/-! ## Scans that begin earlier -/

namespace Trivia

variable {text rest : List Char} {limit : Nat}

/-- Past whole runs that lie before the limit a scan goes on as one that begins there. -/
theorem leadFrom_runs (h : Runs text rest) (hlimit : byteLength text ≤ limit) (passed : Nat) :
    leadFrom passed (some limit) (text ++ rest) =
      leadFrom (passed + text.length) (some (limit - byteLength text)) rest := by
  induction h generalizing passed limit with
  | nil => rfl
  | @cons kind run text rest hrun _ ih =>
    have hpos := byteLength_pos_of_run hrun
    rw [byteLength_append] at hlimit
    have hne : some limit ≠ some 0 := by
      rw [ne_eq, Option.some.injEq]
      omega
    rw [List.append_assoc, leadFrom_run hne hrun, Option.map_some, ih (by omega),
      List.length_append, byteLength_append, Nat.add_assoc, Nat.sub_sub]

/-- Among whole runs that go beyond the limit a scan stops between two of them, at the limit or
after it. -/
theorem leadFrom_among_runs (h : Runs text rest) (hlimit : limit ≤ byteLength text)
    (passed : Nat) :
    ∃ n, leadFrom passed (some limit) (text ++ rest) = ⟨passed + n, false⟩ ∧
      limit ≤ byteLength ((text ++ rest).take n) := by
  induction h generalizing passed limit with
  | nil =>
    obtain rfl := Nat.le_zero.1 hlimit
    exact ⟨0, by rw [leadFrom, if_pos rfl, Nat.add_zero], Nat.zero_le _⟩
  | @cons kind run text rest hrun _ ih =>
    by_cases hzero : limit = 0
    · subst hzero
      exact ⟨0, by rw [leadFrom, if_pos rfl, Nat.add_zero], Nat.zero_le _⟩
    rw [byteLength_append] at hlimit
    obtain ⟨n, hlead, hn⟩ :=
      @ih (limit - byteLength run) (by omega) (passed + run.length)
    have hne : some limit ≠ some 0 := fun h => hzero (Option.some.inj h)
    refine ⟨run.length + n, ?_, ?_⟩
    · rw [List.append_assoc, leadFrom_run hne hrun, Option.map_some, hlead, Nat.add_assoc]
    · rw [List.append_assoc, List.take_length_add_append, byteLength_append]
      omega

end Trivia

namespace Cursor

variable {c d e : Cursor} {text : List Char} {limit : Nat}

/-- Where a scan with a limit stops. -/
def ScansTo (c : Cursor) (limit : Nat) (d : Cursor) : Prop :=
  ∃ text, skipTrivia (some limit) c = .ok text d

/-- A scan is one with the counts of `Trivia.lead`. -/
theorem scansTo_iff : c.ScansTo limit d ↔
    (Trivia.lead (some (limit - c.offset)) c.ahead).unclosed = false ∧
      c.pass (Trivia.lead (some (limit - c.offset)) c.ahead).length = d := by
  unfold ScansTo skipTrivia
  rw [Option.map_some]
  constructor
  · rintro ⟨text, h⟩
    dsimp only at h
    split at h
    · cases h
    · next hclosed =>
      cases h
      exact ⟨Bool.eq_false_iff.2 hclosed, rfl⟩
  · rintro ⟨hclosed, rfl⟩
    exact ⟨_, if_neg (Bool.eq_false_iff.1 hclosed)⟩

/-- Past whole runs that lie before the limit a scan stops where one from their end does. -/
theorem scansTo_of_passes (hpass : c.Passes text d) (hruns : Trivia.Runs text d.ahead)
    (hlimit : d.offset ≤ limit) : c.ScansTo limit e ↔ d.ScansTo limit e := by
  have hoffset := hpass.offset
  have hlead : Trivia.lead (some (limit - c.offset)) c.ahead =
      ⟨text.length + (Trivia.lead (some (limit - d.offset)) d.ahead).length,
        (Trivia.lead (some (limit - d.offset)) d.ahead).unclosed⟩ := by
    have hrest : limit - c.offset - byteLength text = limit - d.offset := by omega
    rw [Trivia.lead, hpass.ahead, Trivia.leadFrom_runs hruns (by omega), hrest, Nat.add_comm,
      Trivia.leadFrom_add, Trivia.lead]
  rw [scansTo_iff, scansTo_iff, hlead, ← pass_add, ← hpass.eq_pass]

/-- Among whole runs that go beyond the limit a scan stops at the limit or after it. -/
theorem exists_scansTo_of_passes (hpass : c.Passes text d) (hruns : Trivia.Runs text d.ahead)
    (hstart : c.offset ≤ limit) (hlimit : limit ≤ d.offset) :
    ∃ e, c.ScansTo limit e ∧ limit ≤ e.offset := by
  have hoffset := hpass.offset
  have hinside : limit - c.offset ≤ byteLength text := by omega
  obtain ⟨n, hlead, hn⟩ := Trivia.leadFrom_among_runs hruns hinside 0
  rw [← hpass.ahead, Nat.zero_add] at hlead
  rw [← hpass.ahead] at hn
  refine ⟨c.pass n, scansTo_iff.2 ?_, ?_⟩
  · rw [Trivia.lead, hlead]
    exact ⟨rfl, rfl⟩
  · rw [(c.passes_pass n).offset]
    omega

/-- A place may be met at its start, or where a scan from its start comes to. -/
theorem hasReached_iff {start : Nat} : c.hasReached start = true ↔
    c.offset = start ∨ start < c.offset ∧
      ∃ probe after : Cursor, probe.text = c.text ∧ probe.offset = start ∧
        probe.ScansTo c.offset after ∧ c.offset ≤ after.offset := by
  unfold hasReached
  rw [Bool.or_eq_true, beq_iff_eq, Bool.and_eq_true, decide_eq_true_iff]
  refine or_congr_right (and_congr_right fun hlt => ?_)
  constructor
  · intro h
    split at h
    · cases h
    · next probe hat =>
      obtain ⟨htext, hoffset⟩ := at?_eq_some_iff.1 hat
      split at h
      · next text after hskip =>
        exact ⟨probe, after, htext, hoffset, ⟨text, hskip⟩, of_decide_eq_true h⟩
      · cases h
  · rintro ⟨probe, after, htext, hoffset, ⟨text, hskip⟩, hle⟩
    rw [at?_eq_some_iff.2 ⟨htext, hoffset⟩]
    dsimp only
    rw [hskip]
    exact decide_eq_true hle

end Cursor

/-! ## Places that begin earlier -/

/-- The place may begin earlier, with some of the trivia before it: from the new start and from the
old one whole runs lead to one place. -/
inductive Widened (source : List Char) (extent : Extent) : Extent → Prop where
  | same : Widened source extent extent
  | back {c c' d : Cursor} {text text' : List Char} {pos : UInt32} :
      d.text = source → c.offset = extent.start → c'.offset = pos.toNat → c'.offset ≤ c.offset →
      c.Passes text d → Trivia.Runs text d.ahead → c'.Passes text' d → Trivia.Runs text' d.ahead →
      Widened source extent ⟨pos, extent.stop⟩

/-- The trivia before a place are taken in, from the start of one of their runs on. -/
theorem Widened.preceding {c d : Cursor} {extent : Extent} {text : List Char} {pos : UInt32}
    (hpass : c.Passes text d) (hruns : Trivia.Runs text d.ahead) (hpos : c.offset = pos.toNat)
    (hstart : d.offset = extent.start) : Widened d.text extent ⟨pos, extent.stop⟩ := by
  have hle : c.offset ≤ d.offset := by
    rw [hpass.offset]
    exact Nat.le_add_right _ _
  exact .back rfl hstart hpos hle (.refl d) .nil hpass hruns

/-- A place that is met is met as well if it begins earlier. -/
theorem Widened.hasReached {c : Cursor} {extent extent' : Extent}
    (h : Widened c.text extent extent') (hreached : c.hasReached extent.start = true) :
    c.hasReached extent'.start = true := by
  cases h with
  | same => exact hreached
  | @back start start' d text text' pos htext hstart hpos hle hpass hruns hpass' hruns' =>
    have hle' : start'.offset ≤ c.offset := by
      have hmet := Cursor.hasReached_iff.1 hreached
      omega
    rw [Cursor.hasReached_iff]
    by_cases hhere : c.offset = pos.toNat
    · exact .inl hhere
    have htext' : start'.text = c.text := hpass'.text_eq.symm.trans htext
    have hscan : ∃ e, start'.ScansTo c.offset e ∧ c.offset ≤ e.offset := by
      by_cases hend : c.offset ≤ d.offset
      · exact Cursor.exists_scansTo_of_passes hpass' hruns' hle' hend
      · -- the runs end before the cursor, and from there both scans are one
        have hoffset := hpass.offset
        rcases Cursor.hasReached_iff.1 hreached with hat | ⟨-, probe, e, hprobe, hpos, hscan, he⟩
        · omega
        · have htext : probe.text = start.text :=
            hprobe.trans (htext.symm.trans hpass.text_eq)
          obtain rfl := Cursor.eq_of_offset_eq htext (hpos.trans hstart.symm)
          have hbehind := (Cursor.scansTo_of_passes hpass hruns (by omega)).1 hscan
          exact ⟨e, (Cursor.scansTo_of_passes hpass' hruns' (by omega)).2 hbehind, he⟩
    obtain ⟨e, hscan, he⟩ := hscan
    have hlt : start'.offset < c.offset := by omega
    rw [hpos] at hlt
    exact .inr ⟨hlt, start', e, htext', hpos, hscan, he⟩

end Lockstep.Source

namespace Lockstep

open Config Output Render Source Target Text

/-! ## Scripts that do the same -/

namespace Render

/-- Over the source the second script does what the first does, if that runs through. -/
def Follows (source : List Char) (xs ys : Script) : Prop :=
  ∀ ⦃ctx after : Context⦄, ctx.cursor.text = source →
    Step.runAll xs ctx = .ok () after → Step.runAll ys ctx = .ok () after

namespace Follows

variable {source : List Char} {xs ys xs' ys' : Script} {t : Target} {kind : Tree.Kind}
  {extent extent' : Extent}

theorem refl (xs : Script) : Follows source xs xs := fun _ _ _ hrun => hrun

theorem append (h : Follows source xs ys) (h' : Follows source xs' ys') :
    Follows source (xs ++ xs') (ys ++ ys') := by
  intro ctx after htext hrun
  obtain ⟨mid, hxs, hxs'⟩ := runAll_append_ok.1 hrun
  have hmid : mid.cursor.text = source :=
    ((Step.runAll_leaves xs).ok hxs).text.trans htext
  exact runAll_append_ok.2 ⟨mid, h htext hxs, h' hmid hxs'⟩

theorem cons (x : Step) (h : Follows source xs ys) : Follows source (x :: xs) (x :: ys) :=
  (refl [x]).append h

/-- A script that refuses does nothing that would have to be done. -/
theorem refuse {refusal : Refusal} (ys : Script) :
    Follows source (Script.refuse t refusal kind extent) ys := by
  intro ctx after _ hrun
  cases runAll_singleton_ok.1 hrun

/-- The only step of a node that looks at its place checks that it is met. -/
theorem node (hplace : Widened source extent extent') (h : Follows source xs ys) :
    Follows source (Script.node t kind extent xs) (Script.node t kind extent' ys) := by
  unfold Script.node
  split
  · intro ctx after htext hrun
    obtain ⟨mid, henter, hbody⟩ := runAll_cons_ok.1 hrun
    have hreached := hasReached_of_enter henter
    obtain rfl := enter_ok henter
    rw [← htext] at hplace
    exact runAll_cons_ok.2
      ⟨mid, enter_of_hasReached (hplace.hasReached hreached), h htext hbody⟩
  · exact refuse _

end Follows

end Render

namespace Tree

/-! ## Trees with other places -/

mutual

/-- The same statement, but that it or statements in it may begin earlier. -/
inductive Stmt.Moved (source : List Char) : Stmt → Stmt → Prop where
  | block : Widened source e e' → Stmt.AllMoved source ss ss' →
      Stmt.Moved source (.block e ss) (.block e' ss')
  | expression : Widened source e e' → Stmt.Moved source (.expression e x) (.expression e' x)
  | declare : Widened source e e' →
      Stmt.Moved source (.declare e ms type fs) (.declare e' ms type fs)
  | returns : Widened source e e' → Stmt.Moved source (.returns e value) (.returns e' value)
  | ifElse : Widened source e e' → Stmt.Moved source positive positive' →
      Stmt.ElseMoved source negative negative' →
      Stmt.Moved source (.ifElse e condition positive negative)
        (.ifElse e' condition positive' negative')
  | whileLoop : Widened source e e' → Stmt.Moved source body body' →
      Stmt.Moved source (.whileLoop e condition body) (.whileLoop e' condition body')
  | doLoop : Widened source e e' → Stmt.Moved source body body' →
      Stmt.Moved source (.doLoop e body condition) (.doLoop e' body' condition)
  | empty : Widened source e e' → Stmt.Moved source (.empty e) (.empty e')
  | jump : Widened source e e' → Stmt.Moved source (.jump word e label) (.jump word e' label)
  | throws : Widened source e e' → Stmt.Moved source (.throws e value) (.throws e' value)
  | other : Widened source e e' → Stmt.Moved source (.other form e) (.other form e')

inductive Stmt.AllMoved (source : List Char) : List Stmt → List Stmt → Prop where
  | nil : Stmt.AllMoved source [] []
  | cons : Stmt.Moved source stmt stmt' → Stmt.AllMoved source ss ss' →
      Stmt.AllMoved source (stmt :: ss) (stmt' :: ss')

inductive Stmt.ElseMoved (source : List Char) : Option Stmt → Option Stmt → Prop where
  | none : Stmt.ElseMoved source none none
  | some : Stmt.Moved source stmt stmt' → Stmt.ElseMoved source (some stmt) (some stmt')

end

mutual

/-- The same member, but that it or what is in it may begin earlier: its members, the block that is
its body, and the statements. -/
inductive Member.Moved (source : List Char) : Member → Member → Prop where
  | field : Widened source decl.extent e →
      Member.Moved source (.field decl) (.field { decl with extent := e })
  | method : Widened source decl.extent e →
      Option.Rel (fun b b' : Block => Stmt.Moved source b.toStmt b'.toStmt) decl.body body →
      Member.Moved source (.method decl) (.method { decl with extent := e, body })
  | type : Widened source header.extent e → Member.AllMoved source members members' →
      Member.Moved source (.type header members) (.type { header with extent := e } members')
  | setup : Widened source e e' → Member.Moved source (.setup e) (.setup e')

inductive Member.AllMoved (source : List Char) : List Member → List Member → Prop where
  | nil : Member.AllMoved source [] []
  | cons : Member.Moved source m m' → Member.AllMoved source members members' →
      Member.AllMoved source (m :: members) (m' :: members')

end

variable {source : List Char}

namespace Stmt.Moved

variable {stmt stmt' : Stmt}

theorem isBlock_eq (h : Stmt.Moved source stmt stmt') : stmt'.isBlock = stmt.isBlock := by
  cases h <;> rfl

theorem isIf_eq (h : Stmt.Moved source stmt stmt') : stmt'.isIf = stmt.isIf := by
  cases h <;> rfl

/-- Whether a statement may be a body is not a matter of its place. -/
theorem checkBody_follows (h : Stmt.Moved source stmt stmt') (t : Target) (word : String) :
    Follows source (checkBody t word stmt) (checkBody t word stmt') := by
  unfold checkBody
  rw [h.isBlock_eq]
  split
  · exact .refuse _
  · exact .refl _

end Stmt.Moved

mutual

/-- A statement is rendered as before. -/
theorem Stmt.Moved.follows (s : Settings) {stmt stmt' : Stmt} (h : Stmt.Moved source stmt stmt') :
    Follows source (stmt.script s) (stmt'.script s) := by
  cases h with
  | block hplace hall =>
    rw [Stmt.script, Stmt.script]
    exact .node hplace (((Follows.refl _).append (Stmt.AllMoved.follows s hall)).append (.refl _))
  | expression hplace | declare hplace | returns hplace | empty hplace | throws hplace =>
    simp only [Stmt.script]
    exact .node hplace (.refl _)
  | ifElse hplace hpositive hnegative =>
    have hcheck := hpositive.checkBody_follows s.target "if"
    rw [Stmt.script, Stmt.script]
    simp only [List.append_assoc]
    exact .node hplace (.append (.refl _) (.append (.refl _) (.append hcheck
      (.append (.refl _) (.append (Stmt.Moved.follows s hpositive)
        (Stmt.ElseMoved.follows s hnegative))))))
  | whileLoop hplace hbody =>
    have hcheck := hbody.checkBody_follows s.target "while"
    rw [Stmt.script, Stmt.script]
    exact .node hplace (.append (.append (.append (.refl _) hcheck) (.refl _))
      (Stmt.Moved.follows s hbody))
  | doLoop hplace hbody =>
    have hcheck := hbody.checkBody_follows s.target "do"
    rw [Stmt.script, Stmt.script]
    simp only [List.append_assoc]
    exact .node hplace (.append (.refl _) (.append hcheck (.append (.refl _)
      (.append (Stmt.Moved.follows s hbody) (.refl _)))))
  | jump hplace =>
    rw [Stmt.script, Stmt.script]
    refine .node hplace ?_
    split
    · exact .refuse _
    · exact .refl _
  | other hplace =>
    rw [Stmt.script, Stmt.script]
    exact .node hplace (.refuse _)

theorem Stmt.AllMoved.follows (s : Settings) {ss ss' : List Stmt}
    (h : Stmt.AllMoved source ss ss') : Follows source (Stmt.scripts s ss) (Stmt.scripts s ss') := by
  cases h with
  | nil => exact .refl _
  | cons hfirst hrest =>
    rw [Stmt.scripts, Stmt.scripts]
    exact .append (.cons _ (Stmt.Moved.follows s hfirst)) (Stmt.AllMoved.follows s hrest)

theorem Stmt.ElseMoved.follows (s : Settings) {negative negative' : Option Stmt}
    (h : Stmt.ElseMoved source negative negative') :
    Follows source (Stmt.elseScript s negative) (Stmt.elseScript s negative') := by
  cases h with
  | none => exact .refl _
  | @some stmt stmt' hstmt =>
    have hcheck : Follows source (if stmt.isIf then [] else checkBody s.target "else" stmt)
        (if stmt'.isIf then [] else checkBody s.target "else" stmt') := by
      rw [hstmt.isIf_eq]
      split
      · exact .refl _
      · exact hstmt.checkBody_follows s.target "else"
    rw [Stmt.elseScript, Stmt.elseScript]
    exact .append (.append (.refl _) hcheck) (.cons _ (Stmt.Moved.follows s hstmt))

end

/-- The body of a method is rendered as before. -/
theorem MethodDecl.bodyScript_follows (s : Settings) {m : MethodDecl} (extent : Extent)
    {body : Option Block}
    (h : Option.Rel (fun b b' : Block => Stmt.Moved source b.toStmt b'.toStmt) m.body body) :
    Follows source (m.bodyScript s) (({ m with extent, body } : MethodDecl).bodyScript s) := by
  unfold MethodDecl.bodyScript
  dsimp only
  generalize m.body = old at h ⊢
  cases h with
  | none => exact .refl _
  | some hbody => exact .cons _ (hbody.follows s)

theorem FieldDecl.follows (s : Settings) (f : FieldDecl) {extent : Extent}
    (h : Widened source f.extent extent) :
    Follows source (f.script s) (({ f with extent } : FieldDecl).script s) :=
  .node h (.refl _)

theorem MethodDecl.follows (s : Settings) {m : MethodDecl} {extent : Extent} {body : Option Block}
    (hplace : Widened source m.extent extent)
    (hbody : Option.Rel (fun b b' : Block => Stmt.Moved source b.toStmt b'.toStmt) m.body body) :
    Follows source (m.script s) (({ m with extent, body } : MethodDecl).script s) := by
  have hdimensions : Follows source
      (if m.extraDimensions != 0 then
        Script.refuse s.target .extraDimensions .methodDeclaration m.extent
      else [])
      (if m.extraDimensions != 0 then
        Script.refuse s.target .extraDimensions .methodDeclaration extent
      else []) := by
    split
    · exact .refuse _
    · exact .refl _
  have hlast := MethodDecl.bodyScript_follows s extent hbody
  unfold MethodDecl.script
  simp only [List.append_assoc]
  exact .node hplace (.append (.refl _) (.append hdimensions (.append (.refl _) (.append (.refl _)
    (.append (.refl _) (.append (.refl _) (.append (.refl _) (.append (.refl _)
      (.append (.refl _) hlast)))))))))

mutual

/-- A member is rendered as before. -/
theorem Member.Moved.follows (s : Settings) {m m' : Member} (h : Member.Moved source m m') :
    Follows source (m.script s) (m'.script s) := by
  cases h with
  | field hplace =>
    rw [Member.script, Member.script]
    exact FieldDecl.follows s _ hplace
  | method hplace hbody =>
    rw [Member.script, Member.script]
    exact MethodDecl.follows s hplace hbody
  | type hplace hall =>
    rw [Member.script, Member.script]
    refine .node hplace ?_
    split
    · exact .append (.append (.refl _) (Member.AllMoved.follows s hall)) (.refl _)
    · exact .refuse _
  | setup hplace =>
    rw [Member.script, Member.script]
    exact .node hplace (.refuse _)

theorem Member.AllMoved.follows (s : Settings) {members members' : List Member}
    (h : Member.AllMoved source members members') :
    Follows source (Member.scripts s members) (Member.scripts s members') := by
  cases h with
  | nil => exact .refl _
  | cons hfirst hrest =>
    rw [Member.scripts, Member.scripts]
    exact .append (.cons _ (Member.Moved.follows s hfirst)) (Member.AllMoved.follows s hrest)

end

/-- A type declaration that is rendered is rendered to the same state, with the same output, cursor
and namespaces, if members and statements in it begin at trivia before them. -/
theorem TypeDecl.render_moved {s : Settings} {header : TypeHeader} {members members' : List Member}
    {ctx after : Context} (hmoved : Member.AllMoved ctx.cursor.text members members')
    (h : Node.render s (.member (.type header members)) ctx = .ok () after) :
    Node.render s (.member (.type header members')) ctx = .ok () after :=
  (Member.Moved.type .same hmoved).follows s rfl h

/-- A method that takes in the comment before it, and a statement that takes in a line comment. -/
theorem TypeDecl.render_moved_comments :
    let source := "class A \x7b\n/** d */\nvoid f() \x7b\n// c\nreturn; \x7d\n\x7d"
    let header : TypeHeader := ⟨⟨0, 46⟩, .class, [], ⟨⟨6, 7⟩, "A"⟩, [], none, []⟩
    let members (method statement : UInt32) : List Member :=
      [.method ⟨⟨method, 44⟩, [], [], some (.primitive ⟨19, 23⟩ .void), false, ⟨⟨24, 25⟩, "f"⟩, [],
        0, [], some ⟨⟨28, 44⟩, [.returns ⟨statement, 42⟩ none]⟩⟩]
    ∃ after, Node.render (.ofTarget .csharp) (.member (.type header (members 19 35)))
        (.start source true) = .ok () after ∧
      after.writer.current = source ∧
      Node.render (.ofTarget .csharp) (.member (.type header (members 10 30)))
        (.start source true) = .ok () after := by
  intro source header members
  obtain ⟨after, hrun, hout⟩ := runsTo_ok (by decide +kernel :
    runsTo (Node.render (.ofTarget .csharp) (.member (.type header (members 19 35))))
      (.start source true) = some source)
  let c (n : Nat) : Cursor := (Cursor.ofText source).pass n
  have hmethod : Widened (Cursor.ofText source).text ⟨19, 44⟩ ⟨10, 44⟩ := by
    have hpass : (c 10).Passes ("/** d */".toList ++ "\n".toList) (c 19) :=
      ⟨by decide +kernel, by decide +kernel⟩
    have hruns : Trivia.Runs ("/** d */".toList ++ "\n".toList) (c 19).ahead :=
      .append (.single rfl) (.single rfl)
    rw [← Cursor.text_pass _ 19]
    exact .preceding hpass hruns (by decide +kernel) (by decide +kernel)
  have hstatement : Widened (Cursor.ofText source).text ⟨35, 42⟩ ⟨30, 42⟩ := by
    have hpass : (c 30).Passes ("// c".toList ++ "\n".toList) (c 35) :=
      ⟨by decide +kernel, by decide +kernel⟩
    have hruns : Trivia.Runs ("// c".toList ++ "\n".toList) (c 35).ahead :=
      .append (.single rfl) (.single rfl)
    rw [← Cursor.text_pass _ 35]
    exact .preceding hpass hruns (by decide +kernel) (by decide +kernel)
  have hbody : Option.Rel
      (fun b b' : Block => Stmt.Moved (Cursor.ofText source).text b.toStmt b'.toStmt)
      (some ⟨⟨28, 44⟩, [.returns ⟨35, 42⟩ none]⟩) (some ⟨⟨28, 44⟩, [.returns ⟨30, 42⟩ none]⟩) :=
    .some (.block .same (.cons (.returns hstatement) .nil))
  exact ⟨after, hrun, hout,
    TypeDecl.render_moved (.cons (.method hmethod hbody) .nil) hrun⟩

end Tree

end Lockstep
