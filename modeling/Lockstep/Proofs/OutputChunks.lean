import Mathlib.Data.List.Chain
import Lockstep.Proofs.Composition
import Lockstep.Proofs.Copying
import Lockstep.Proofs.OperatorSpacing

/-!
# Outputs in chunks

An output of Swift is cut into chunks: tokens, and the trivia and spaces between them. Some chunks
may not stand side by side. Swift takes operators that touch for one, and one with white space
behind it is none that stands before its operand; a keyword that touches a name is none either. All
other tokens keep apart whatever comes after them (`Segment.closed`), so what is left to look at are
the places behind operators and behind the keywords of declarations.

- `Token`, `Chunk`: what an output consists of.
- `WritesAt`: what a script writes from a place of the source.
- `Chunk.Clears`: what may stand before what.
- `Segment`: a part of an output, its tokens, and when its chunks keep apart.
- `Chunked`: the segment that a script writes over the layouts that it passes.
-/

namespace Lockstep

open Config Output Render Source Target Text

namespace Tree

/-! ## Tokens and chunks -/

/-- The text is what the script writes from the place in the source. -/
def WritesAt (src : List Char) (pos : Nat) (xs : Script) (text : List Char) : Prop :=
  ∃ ctx after : Context, ctx.cursor.text = src ∧ ctx.cursor.offset = pos ∧
    Step.runAll xs ctx = .ok () after ∧ after.writer = ctx.writer.added text

/-- A token of an output. -/
inductive Token where
  /-- An operator before its operand. -/
  | unary (op : UnaryOp)
  /-- An operator between its operands. -/
  | operator (sign : String)
  /-- A keyword or an attribute, which what comes next must not touch. -/
  | keyword (text : String)
  /-- Any other sign or word. -/
  | word (text : String)
  /-- Whatever the script writes from the place. -/
  | part (pos : Nat) (xs : Script)

namespace Token

/-- Whether tokens begin with an operator that stands before its operand. -/
def leads : List Token → Bool
  | .unary _ :: _ => true
  | _ => false

/-- Whether the token keeps apart whatever comes after it. -/
def closes : Token → Bool
  | .unary _ | .operator _ | .keyword _ => false
  | .word _ | .part .. => true

/-- How the token is spelled where the text is the source. -/
def Spells (src : List Char) : Token → List Char → Prop
  | .unary op, text => text = op.token.toList
  | .operator sign, text => text = sign.toList
  | .keyword w, text | .word w, text => text = w.toList
  | .part pos xs, text => WritesAt src pos xs text

/-- Tokens with commas between them. -/
def separated : List (List Token) → List Token
  | [] => []
  | [ts] => ts
  | ts :: rest => ts ++ .word "," :: separated rest

/-- Tokens in parentheses, with commas between them. -/
def arguments (args : List (List Token)) : List Token :=
  .word "(" :: separated args ++ [.word ")"]

/-- Tokens that are put in parentheses if need be. -/
def enclosed (wrap : Bool) (ts : List Token) : List Token :=
  if wrap then .word "(" :: ts ++ [.word ")"] else ts

end Token

/-- A token of an output, or what stands between two. -/
inductive Chunk where
  | gap (text : List Char)
  | token (tok : Token) (text : List Char)

namespace Chunk

def text : Chunk → List Char
  | .gap text | .token _ text => text

def token? : Chunk → Option Token
  | .gap _ => none
  | .token tok _ => some tok

/-- A gap is not empty and consists of trivia, and a token is spelled as such. -/
def IsSpelled (src : List Char) : Chunk → Prop
  | .gap text => text ≠ [] ∧ ∃ rest, Trivia.Runs text rest
  | .token tok text => tok.Spells src text

/-- Whether the one may stand right before the other: nothing comes between a prefix operator and
its operand, and it touches no other operator; a keyword touches no token. -/
def Clears : Chunk → Chunk → Prop
  | .token (.unary _) _, .gap _ => False
  | .token (.unary _) _, .token (.unary _) _ => False
  | .token (.operator _) _, .token (.unary _) _ => False
  | .token (.keyword _) _, .token _ _ => False
  | _, _ => True

variable {tok : Token} {text text' rest : List Char}

theorem clears_gap (text : List Char) (c : Chunk) : (Chunk.gap text).Clears c := trivial

theorem clears_of_closes (h : tok.closes = true) (text : List Char) (c : Chunk) :
    (Chunk.token tok text).Clears c := by
  cases tok with
  | unary | operator | keyword => cases h
  | word | part => trivial

/-- A prefix operator stands right before any token but another. -/
theorem clears_unary_iff {op : UnaryOp} :
    (Chunk.token (.unary op) text).Clears (.token tok text') ↔ Token.leads [tok] = false := by
  cases tok <;> simp [Clears, Token.leads]

theorem clears_operator_iff {sign : String} :
    (Chunk.token (.operator sign) text).Clears (.token tok text') ↔
      Token.leads [tok] = false := by
  cases tok <;> simp [Clears, Token.leads]

/-- The gap that a text makes, if there is one. -/
def gaps (text : List Char) : List Chunk := if text = [] then [] else [.gap text]

theorem gaps_nil : gaps [] = [] := rfl

theorem gaps_of_ne_nil (h : text ≠ []) : gaps text = [.gap text] := if_neg h

theorem flatMap_gaps (text : List Char) : (gaps text).flatMap Chunk.text = text := by
  by_cases h : text = []
  · rw [h, gaps_nil, List.flatMap_nil]
  · rw [gaps_of_ne_nil h]
    exact List.append_nil text

end Chunk

/-! ## Segments -/

/-- A part of an output: the tokens in it, and the condition on which its chunks keep apart. If
`opens`, it begins with a token. -/
structure Segment (src : List Char) (opens : Prop) (ts : List Token) (P : Prop)
    (chunks : List Chunk) : Prop where
  tokens : chunks.filterMap Chunk.token? = ts
  spelled : ∀ c ∈ chunks, c.IsSpelled src
  opened : opens → ∃ tok text rest, chunks = .token tok text :: rest
  closed : ∀ c ∈ chunks.getLast?, ∀ d, c.Clears d
  apart : chunks.IsChain Chunk.Clears ↔ P

namespace Segment

variable {src : List Char} {opens : Prop} {ts us : List Token} {P Q : Prop}
  {chunks chunks' : List Chunk} {text rest spelling : List Char} {tok : Token}

theorem nil : Segment src False [] True [] where
  tokens := rfl
  spelled := List.forall_mem_nil _
  opened := False.elim
  closed := nofun
  apart := iff_of_true List.isChain_nil trivial

theorem mono {opens' : Prop} (h : Segment src opens ts P chunks) (himp : opens' → opens) :
    Segment src opens' ts P chunks :=
  { h with opened := fun h' => h.opened (himp h') }

theorem congr (h : Segment src opens ts P chunks) (hPQ : P ↔ Q) : Segment src opens ts Q chunks :=
  { h with apart := h.apart.trans hPQ }

theorem append (h : Segment src opens ts P chunks) (h' : Segment src False us Q chunks') :
    Segment src opens (ts ++ us) (P ∧ Q) (chunks ++ chunks') where
  tokens := by rw [List.filterMap_append, h.tokens, h'.tokens]
  spelled := List.forall_mem_append.2 ⟨h.spelled, h'.spelled⟩
  opened hopens := by
    obtain ⟨tok, text, rest, rfl⟩ := h.opened hopens
    exact ⟨tok, text, rest ++ chunks', rfl⟩
  closed c hc := by
    rw [List.getLast?_append] at hc
    cases hlast : chunks'.getLast? with
    | none =>
      rw [hlast, Option.none_or] at hc
      exact h.closed c hc
    | some last =>
      rw [hlast, Option.some_or] at hc
      exact h'.closed c (hlast ▸ hc)
  apart := by
    rw [List.isChain_append, h.apart, h'.apart]
    exact and_congr_right fun _ => and_iff_left fun c hc d _ => h.closed c hc d

theorem gap (h : Trivia.Runs text rest) : Segment src False [] True (Chunk.gaps text) := by
  by_cases hne : text = []
  · rw [hne]
    exact nil
  · rw [Chunk.gaps_of_ne_nil hne]
    exact {
      tokens := rfl
      spelled := List.forall_mem_singleton.2 ⟨hne, rest, h⟩
      opened := False.elim
      closed := fun c hc => Option.some.inj hc ▸ Chunk.clears_gap text
      apart := iff_of_true (List.isChain_singleton _) trivial }

/-- A gap goes before a segment. -/
theorem after (h : Trivia.Runs text rest) (hrest : Segment src opens ts P chunks) :
    Segment src False ts P (Chunk.gaps text ++ chunks) :=
  ((gap h).append (hrest.mono False.elim)).congr (and_iff_right trivial)

/-- A token that keeps apart what comes after it goes before a segment. -/
theorem cons (tok : Token) (h : tok.closes = true) (hspells : tok.Spells src spelling)
    (hrest : Segment src opens ts P chunks) :
    Segment src True (tok :: ts) P (.token tok spelling :: chunks) := by
  have htoken : Segment src True [tok] True [.token tok spelling] := {
    tokens := rfl
    spelled := List.forall_mem_singleton.2 hspells
    opened := fun _ => ⟨tok, spelling, [], rfl⟩
    closed := fun c hc => Option.some.inj hc ▸ Chunk.clears_of_closes h spelling
    apart := iff_of_true (List.isChain_singleton _) trivial }
  exact (htoken.append (hrest.mono False.elim)).congr (and_iff_right trivial)

/-- A token goes before what must not touch it, with what comes between. -/
theorem behind (hspells : tok.Spells src spelling) (h : Trivia.Runs text rest)
    (hrest : Segment src opens ts P chunks) (hne : chunks ≠ [])
    (hapart : (Chunk.token tok spelling :: (Chunk.gaps text ++ chunks)).IsChain Chunk.Clears ↔ Q) :
    Segment src True (tok :: ts) Q (.token tok spelling :: (Chunk.gaps text ++ chunks)) where
  tokens := congrArg (tok :: ·) (hrest.after h).tokens
  spelled := List.forall_mem_cons.2 ⟨hspells, (hrest.after h).spelled⟩
  opened _ := ⟨tok, spelling, _, rfl⟩
  closed c hc := by
    rw [List.getLast?_cons_of_ne_nil (List.append_ne_nil_of_right_ne_nil _ hne)] at hc
    exact (hrest.after h).closed c hc
  apart := hapart

theorem ne_nil (h : Segment src True ts P chunks) : ts ≠ [] := by
  obtain ⟨tok, text, rest, rfl⟩ := h.opened trivial
  rw [← h.tokens]
  exact List.cons_ne_nil _ _

theorem leads_eq {text : List Char} (h : Segment src opens ts P (.token tok text :: chunks)) :
    Token.leads ts = Token.leads [tok] := by
  rw [← h.tokens]
  cases tok <;> rfl

/-- A prefix operator keeps apart if nothing comes between it and its operand, and if that does not
begin with another. -/
theorem unary {op : UnaryOp} (h : Trivia.Runs text rest) (hrest : Segment src True ts P chunks) :
    Segment src True (.unary op :: ts) (P ∧ Token.leads ts = false ∧ text = [])
      (.token (.unary op) op.token.toList :: (Chunk.gaps text ++ chunks)) := by
  obtain ⟨tok, spelling, chunks', rfl⟩ := hrest.opened trivial
  refine hrest.behind rfl h (List.cons_ne_nil _ _) ?_
  rw [← hrest.apart, hrest.leads_eq]
  by_cases hne : text = []
  · rw [hne, Chunk.gaps_nil, List.nil_append, List.isChain_cons_cons, Chunk.clears_unary_iff]
    simp [and_comm]
  · rw [Chunk.gaps_of_ne_nil hne, List.singleton_append, List.isChain_cons_cons]
    simp [hne, Chunk.Clears]

/-- An operator between operands keeps apart unless the one on its right begins with a prefix
operator and nothing comes between. -/
theorem operator (sign : String) (h : Trivia.Runs text rest)
    (hrest : Segment src True ts P chunks) :
    Segment src True (.operator sign :: ts) (P ∧ (Token.leads ts = true → text ≠ []))
      (.token (.operator sign) sign.toList :: (Chunk.gaps text ++ chunks)) := by
  obtain ⟨tok, spelling, chunks', rfl⟩ := hrest.opened trivial
  refine hrest.behind rfl h (List.cons_ne_nil _ _) ?_
  rw [← hrest.apart, hrest.leads_eq]
  by_cases hne : text = []
  · rw [hne, Chunk.gaps_nil, List.nil_append, List.isChain_cons_cons, Chunk.clears_operator_iff]
    simp [and_comm]
  · rw [Chunk.gaps_of_ne_nil hne, List.singleton_append, List.isChain_cons_cons,
      List.isChain_cons_cons]
    simp [hne, Chunk.Clears]

/-- A keyword keeps apart if something comes after it that is no token. -/
theorem keyword (w : String) (h : Trivia.Runs text rest) (hrest : Segment src True ts P chunks) :
    Segment src True (.keyword w :: ts) (P ∧ text ≠ [])
      (.token (.keyword w) w.toList :: (Chunk.gaps text ++ chunks)) := by
  obtain ⟨tok, spelling, chunks', rfl⟩ := hrest.opened trivial
  refine hrest.behind rfl h (List.cons_ne_nil _ _) ?_
  rw [← hrest.apart]
  by_cases hne : text = []
  · rw [hne, Chunk.gaps_nil, List.nil_append, List.isChain_cons_cons]
    simp [Chunk.Clears]
  · rw [Chunk.gaps_of_ne_nil hne, List.singleton_append, List.isChain_cons_cons,
      List.isChain_cons_cons]
    simp [hne, Chunk.Clears]

/-- A keyword that is set off adds no condition. -/
theorem setOff (w : String) (h : Trivia.Runs text rest) (hne : ts ≠ [])
    (hrest : Segment src opens ts P chunks) :
    ∃ Q, Segment src True (.keyword w :: ts) Q
        (.token (.keyword w) w.toList :: (Chunk.gaps text ++ chunks)) ∧
      (text ≠ [] → (Q ↔ P)) := by
  have hchunks : chunks ≠ [] := by
    rintro rfl
    exact hne hrest.tokens.symm
  refine ⟨_, hrest.behind rfl h hchunks Iff.rfl, fun htext => ?_⟩
  rw [Chunk.gaps_of_ne_nil htext, List.singleton_append, List.isChain_cons_cons, and_iff_right,
    ← List.singleton_append, ← hrest.apart, List.isChain_append]
  · simp [Chunk.Clears]
  · trivial

end Segment

/-! ## Layouts one after another -/

namespace Layout

variable {fs gs : List Layout} {f : Layout} {c e : Cursor} {x : Extent} {n : Nat}

theorem LieAfter.split (h : LieAfter (fs ++ gs) c e) : ∃ d, LieAfter fs c d ∧ LieAfter gs d e := by
  induction fs generalizing c with
  | nil => exact ⟨c, rfl, h⟩
  | cons f fs ih =>
    obtain ⟨gap, start, stop, hgap, hruns, hf, hrest⟩ := h
    obtain ⟨d, hfs, hgs⟩ := ih hrest
    exact ⟨d, ⟨gap, start, stop, hgap, hruns, hf, hfs⟩, hgs⟩

theorem LieAll.split (hne : fs ≠ []) (h : LieAll (fs ++ gs) c e) :
    ∃ d, LieAll fs c d ∧ LieAfter gs d e := by
  cases fs with
  | nil => exact absurd rfl hne
  | cons f fs =>
    obtain ⟨stop, hf, hrest⟩ := h
    obtain ⟨d, hfs, hgs⟩ := hrest.split
    exact ⟨d, ⟨stop, hf, hfs⟩, hgs⟩

/-- Wherever the layouts lie, they end at the offset. -/
def StopAt (fs : List Layout) (n : Nat) : Prop := ∀ ⦃c d : Cursor⦄, LieAll fs c d → d.offset = n

theorem stopAt_singleton (hx : f.extent? = some x) : StopAt [f] x.stop.toNat := by
  rintro c d ⟨stop, hf, rfl⟩
  exact (hf.offset_eq hx).2

theorem stopAt_append (hne : fs ≠ []) (hx : f.extent? = some x) :
    StopAt (fs ++ [f]) x.stop.toNat := by
  intro c d h
  obtain ⟨mid, -, gap, start, stop, -, -, hf, rfl⟩ := h.split hne
  exact (hf.offset_eq hx).2

end Layout

end Tree

namespace Render

open Lockstep.Tree

/-! ## Scripts -/

variable {src : List Char} {a b : Stance} {xs ys : Script} {f g : Layout} {fs gs : List Layout}
  {ts us : List Token} {P Q : Prop}

theorem Stance.At.split {c e : Cursor} (hne : a = .ready → fs ≠ []) (h : a.At (fs ++ gs) c e) :
    ∃ d, a.At fs c d ∧ Layout.LieAfter gs d e := by
  cases a with
  | ready => exact Layout.LieAll.split (hne rfl) h
  | done | loose => exact Layout.LieAfter.split h

section

variable {ctx after : Context} {e : Cursor}

theorem swap_at {token text : String} (hat : Layout.LieAll (.token token :: fs) ctx.cursor e)
    (hrun : (Step.swap token text).run ctx = .ok () after) :
    ∃ stop, ctx.cursor.Passes token.toList stop ∧ after = ctx.moved stop text.toList ∧
      Stance.done.At fs after.cursor e := by
  obtain ⟨stop, ⟨-, htoken⟩, hafter⟩ := hat
  obtain ⟨cursor, hpass, rfl⟩ := swap_ok hrun
  obtain rfl := hpass.right_unique htoken
  exact ⟨cursor, hpass, rfl, hafter⟩

theorem replace_at {x : Extent} {text : String} (hx : f.extent? = some x)
    (hat : Layout.LieAll (f :: fs) ctx.cursor e)
    (hrun : (Step.replace x text).run ctx = .ok () after) :
    ∃ stop, stop.offset = x.stop.toNat ∧ after = ctx.moved stop text.toList ∧
      Stance.done.At fs after.cursor e := by
  obtain ⟨stop, hf, hafter⟩ := hat
  obtain ⟨hstart, hstop⟩ := hf.offset_eq hx
  obtain ⟨covered, hpass⟩ := hf.passes
  obtain rfl := replaceExtent_ok_of_passes hrun hpass hstart hstop
  exact ⟨stop, hstop, rfl, hafter⟩

theorem copyTrivia_at (hat : a.At (f :: fs) ctx.cursor e)
    (hrun : Step.copyTrivia.run ctx = .ok () after) :
    ∃ gap start, ctx.cursor.Passes gap start ∧ Trivia.Runs gap start.ahead ∧
      after = ctx.moved start gap ∧ Stance.ready.At (f :: fs) after.cursor e := by
  obtain ⟨gap, start, hgap, hruns, habsent, hlies⟩ := hat.exists_start
  obtain ⟨text, cursor, hpass, hruns', habsent', rfl⟩ := Step.run_copyTrivia_ok hrun
  obtain rfl := trivia_right_unique hgap hruns habsent hpass hruns' habsent'
  exact ⟨text, start, hpass, hruns', rfl, hlies⟩

theorem skipTrivia_at (hat : a.At (f :: fs) ctx.cursor e)
    (hrun : Step.skipTrivia.run ctx = .ok () after) :
    ∃ start, after = ctx.moved start [] ∧ Stance.ready.At (f :: fs) after.cursor e := by
  obtain ⟨gap, start, hgap, hruns, habsent, hlies⟩ := hat.exists_start
  obtain ⟨text, cursor, hpass, hruns', habsent', rfl⟩ := skipTriviaUntil_ok hrun
  obtain rfl := trivia_right_unique hgap hruns habsent hpass hruns' (habsent' rfl)
  exact ⟨start, rfl, hlies⟩

theorem operator_at {token sign : String} {balanced spaced : Bool}
    (hat : a.At (.token token :: f :: fs) ctx.cursor e)
    (hrun : (Step.operator token sign balanced spaced).run ctx = .ok () after) :
    ∃ start, ∃ move : OperatorMove token ctx.cursor start,
      after = ctx.moved start (move.written sign balanced spaced) ∧
        Stance.ready.At (f :: fs) after.cursor e := by
  obtain ⟨cursor, move, rfl⟩ := swapOperator_ok hrun
  obtain ⟨gap, start, hgap, hruns, habsent, stop, ⟨-, htoken⟩, hafter⟩ := hat.exists_start
  obtain ⟨gap', first, hgap', hruns', habsent', hlies⟩ := Stance.At.exists_start (a := .done) hafter
  obtain rfl := trivia_right_unique hgap hruns habsent move.passes_before move.runs_before
    move.absent_before
  obtain rfl := htoken.right_unique move.passes_token
  obtain rfl := trivia_right_unique hgap' hruns' habsent' move.passes_after move.runs_after
    move.absent_after
  exact ⟨first, move, rfl, hlies⟩

end

/-- Where the layouts lie in the source, a script that runs through comes to the end of them, and
what it writes is such a segment. -/
def Chunked (src : List Char) (a : Stance) (xs : Script) (fs : List Layout) (ts : List Token)
    (P : Prop) : Prop :=
  ∀ ⦃ctx after : Context⦄ ⦃d : Cursor⦄, ctx.cursor.text = src → a.At fs ctx.cursor d →
    Step.runAll xs ctx = .ok () after → after.cursor = d ∧
      ∃ chunks, after.writer = ctx.writer.added (chunks.flatMap Chunk.text) ∧
        Segment src (a = .ready) ts P chunks

namespace Chunked

theorem congr (h : Chunked src a xs fs ts P) (hPQ : P ↔ Q) : Chunked src a xs fs ts Q := by
  intro ctx after d htext hat hrun
  obtain ⟨hd, chunks, hwriter, hsegment⟩ := h htext hat hrun
  exact ⟨hd, chunks, hwriter, hsegment.congr hPQ⟩

theorem nil : Chunked src .done [] [] [] True := by
  intro ctx after d _ hat hrun
  rw [runAll_nil_ok.1 hrun]
  exact ⟨hat.symm, [], (Writer.added_nil _).symm, Segment.nil.mono nofun⟩

theorem append (hne : a = .ready → fs ≠ []) (h : Chunked src a xs fs ts P)
    (h' : Chunked src .done ys gs us Q) :
    Chunked src a (xs ++ ys) (fs ++ gs) (ts ++ us) (P ∧ Q) := by
  intro ctx after d htext hat hrun
  obtain ⟨mid, hxs, hys⟩ := runAll_append_ok.1 hrun
  obtain ⟨e, hat₁, hat₂⟩ := hat.split hne
  obtain ⟨rfl, chunks, hmid, hsegment⟩ := h htext hat₁ hxs
  obtain ⟨hd, chunks', hafter, hsegment'⟩ := h' (hat₁.text_eq.trans htext) hat₂ hys
  refine ⟨hd, chunks ++ chunks', ?_, hsegment.append (hsegment'.mono False.elim)⟩
  rw [hafter, hmid, List.flatMap_append, Writer.added_append]

/-- Steps that come before a script: they go on to where its layouts lie, and what they write goes
before what it writes. -/
theorem prepend (h : Chunked src b ys gs ts P)
    (hxs : ∀ {ctx mid : Context} {d : Cursor}, ctx.cursor.text = src → a.At fs ctx.cursor d →
      Step.runAll xs ctx = .ok () mid → b.At gs mid.cursor d ∧
        ∃ before, mid.writer = ctx.writer.added (before.flatMap Chunk.text) ∧
          ∀ {chunks}, Segment src (b = .ready) ts P chunks →
            Segment src (a = .ready) us Q (before ++ chunks)) :
    Chunked src a (xs ++ ys) fs us Q := by
  intro ctx after d htext hat hrun
  obtain ⟨mid, hfirst, hrest⟩ := runAll_append_ok.1 hrun
  obtain ⟨hat', before, hmid, hsegment⟩ := hxs htext hat hfirst
  have htext' : mid.cursor.text = src := by rw [← hat'.text_eq, hat.text_eq, htext]
  obtain ⟨hd, chunks, hafter, hsegment'⟩ := h htext' hat' hrest
  refine ⟨hd, before ++ chunks, ?_, hsegment hsegment'⟩
  rw [hafter, hmid, List.flatMap_append, Writer.added_append]

/-- Steps that write a word. -/
theorem prependWord (text : String) (h : Chunked src b ys gs ts P)
    (hxs : ∀ {ctx mid : Context} {d : Cursor}, a.At fs ctx.cursor d →
      Step.runAll xs ctx = .ok () mid →
        b.At gs mid.cursor d ∧ mid.writer = ctx.writer.added text.toList) :
    Chunked src a (xs ++ ys) fs (.word text :: ts) P := by
  refine h.prepend fun {ctx mid d} _ hat hrun => ?_
  obtain ⟨hat', hmid⟩ := hxs hat hrun
  refine ⟨hat', [.token (.word text) text.toList], ?_, fun hsegment => ?_⟩
  · rw [hmid, List.flatMap_singleton]
    rfl
  · exact (hsegment.cons (.word text) rfl rfl).mono fun _ => trivial

theorem swap (token text : String) (h : Chunked src .done ys gs ts P) :
    Chunked src .ready ([.swap token text] ++ ys) (.token token :: gs) (.word text :: ts) P := by
  refine h.prependWord text fun {ctx mid d} hat hrun => ?_
  obtain ⟨stop, -, rfl, hlies⟩ := swap_at hat (runAll_singleton_ok.1 hrun)
  exact ⟨hlies, rfl⟩

theorem emit (text : String) (h : Chunked src a ys gs ts P) :
    Chunked src a ([.emit text] ++ ys) gs (.word text :: ts) P := by
  refine h.prependWord text fun {ctx mid d} hat hrun => ?_
  rw [write_ok (runAll_singleton_ok.1 hrun)]
  exact ⟨hat, rfl⟩

theorem copyTrivia (h : Chunked src .ready ys (g :: gs) ts P) :
    Chunked src .done ([.copyTrivia] ++ ys) (g :: gs) ts P := by
  refine h.prepend fun {ctx mid d} _ hat hrun => ?_
  obtain ⟨gap, start, -, hruns, rfl, hlies⟩ := copyTrivia_at hat (runAll_singleton_ok.1 hrun)
  refine ⟨hlies, Chunk.gaps gap, ?_, fun hsegment => (hsegment.after hruns).mono nofun⟩
  rw [Chunk.flatMap_gaps]
  rfl

theorem skipBlanks (h : Chunked src .done ys (g :: gs) ts P) :
    Chunked src .done ([.skipBlanks] ++ ys) (g :: gs) ts P := by
  refine h.prepend fun {ctx mid d} _ hat hrun => ?_
  rw [skipBlanks_eq (runAll_singleton_ok.1 hrun)]
  exact ⟨skipBlanks_lie hat, [], rfl, fun hsegment => hsegment⟩

/-- A sign with a space behind it. -/
theorem emitSpaced (text : String) (h : Chunked src a ys gs ts P) :
    Chunked src a ([.emit (text ++ " ")] ++ ys) gs (.word text :: ts) P := by
  refine h.prepend fun {ctx mid d} _ hat hrun => ?_
  rw [write_ok (runAll_singleton_ok.1 hrun)]
  have hspace : Trivia.Runs [' '] [] := .single rfl
  refine ⟨hat, .token (.word text) text.toList :: Chunk.gaps [' '], ?_, fun hsegment => ?_⟩
  · rw [List.flatMap_cons, Chunk.flatMap_gaps, String.toList_append]
    rfl
  · exact ((hsegment.after hspace).cons (.word text) rfl rfl).mono fun _ => trivial

/-- The word `new` is dropped with the trivia behind it. -/
theorem newWord (h : Chunked src .ready ys (g :: gs) ts P) :
    Chunked src .ready ([Script.drop "new", .skipTrivia] ++ ys) (.token "new" :: g :: gs) ts P := by
  refine h.prepend fun {ctx mid d} _ hat hrun => ?_
  obtain ⟨_, hdrop, hskip⟩ := runAll_cons_ok.1 hrun
  obtain ⟨stop, -, rfl, hlies⟩ := swap_at hat hdrop
  obtain ⟨start, rfl, hlies⟩ := skipTrivia_at hlies (runAll_singleton_ok.1 hskip)
  refine ⟨hlies, [], ?_, fun hsegment => hsegment⟩
  rw [Context.moved_moved]
  rfl

/-- A layout that is known to lie in the source is rendered from its own place. -/
theorem revisit {x : Extent} (hf : f.FaithfulTo src) (hx : f.extent? = some x)
    (h : Chunked src .ready xs [f] ts P) (h' : Chunked src a ys gs us Q) :
    Chunked src a ([.revisit x.start xs] ++ ys) gs (ts ++ us) (P ∧ Q) := by
  refine h'.prepend fun {ctx mid d} htext hat hrun => ?_
  obtain ⟨start, stop, hstart, hlies⟩ := hf
  obtain ⟨there, inner, htext', hoffset, hinner, hback⟩ := revisit_ok (runAll_singleton_ok.1 hrun)
  obtain rfl : there = start :=
    Cursor.eq_of_offset_eq (by rw [htext', htext, hstart])
      (hoffset.trans (hlies.offset_eq hx).1.symm)
  obtain ⟨rfl, chunks, hwriter, hsegment⟩ := h hstart ⟨stop, hlies, rfl⟩ hinner
  obtain ⟨_, hpass⟩ := hlies.passes
  rw [hback hpass.text_eq]
  refine ⟨hat, chunks, ?_, fun hsegment' => ?_⟩
  · have hthere : (ctx.moved there []).writer = ctx.writer := Writer.added_nil _
    rw [Context.moved_nil, ← hthere]
    exact hwriter
  · exact (hsegment.append (hsegment'.mono False.elim)).mono fun _ => rfl

/-- A script of which only what it passes is known. -/
theorem part {x : Extent} (hx : f.extent? = some x) (h : Walks True [] .ready xs [f] .done) :
    Chunked src .ready xs [f] [.part x.start xs] True := by
  intro ctx after d htext hat hrun
  have hat' : Stance.ready.At ([f] ++ []) ctx.cursor d := hat
  have hstop : Stance.done.At [] after.cursor d :=
    h.stays_in_step (absurd rfl) (List.forall_mem_nil _) hat' hrun
  obtain ⟨_, hf, -⟩ := hat
  obtain ⟨text, hwriter⟩ := Step.runAll_adds _ hrun
  have hspells : (Token.part x.start xs).Spells src text :=
    ⟨ctx, after, htext, (hf.offset_eq hx).1, hrun, hwriter⟩
  refine ⟨hstop.symm, [.token (.part x.start xs) text], ?_,
    (Segment.nil.cons _ rfl hspells).mono fun _ => trivial⟩
  rw [hwriter, List.flatMap_singleton]
  rfl

theorem refuse {e : RenderError} : Chunked src a [.refuse e] fs ts P := by
  intro ctx after d _ _ hrun
  cases runAll_singleton_ok.1 hrun

theorem node {target : Target} {kind : Kind} {extent : Extent} (h : Chunked src .ready xs fs ts P) :
    Chunked src .ready (Script.node target kind extent xs) [.node extent fs] ts P := by
  intro ctx after d htext hat hrun
  obtain ⟨stop, ⟨-, -, -, hparts⟩, rfl⟩ := hat
  exact h htext hparts (runAll_node_ok hrun)

/-! ### Sequences -/

/-- A part that begins after trivia and keeps apart in any case. -/
theorem followed (hne : a = .ready → fs ≠ []) (h : Chunked src a xs fs ts P)
    (h' : Chunked src .done ys gs us True) :
    Chunked src a (xs ++ ys) (fs ++ gs) (ts ++ us) P :=
  (h.append hne h').congr (and_iff_left trivial)

/-- A sign after trivia. -/
theorem sign (token text : String) :
    Chunked src .done [.copyTrivia, .swap token text] [.token token] [.word text] True :=
  copyTrivia (swap token text nil)

theorem emitLast (text : String) (hne : a = .ready → fs ≠ []) (h : Chunked src a xs fs ts P) :
    Chunked src a (xs ++ [.emit text]) fs (ts ++ [.word text]) P := by
  have hlast := h.followed hne (emit text nil)
  rwa [List.append_nil, List.append_nil] at hlast

theorem enclosed (wrap : Bool) (hne : fs ≠ []) (h : Chunked src .ready xs fs ts P) :
    Chunked src .ready (wrapped wrap xs) fs (Token.enclosed wrap ts) P := by
  cases wrap with
  | true => exact (emit "(" h).emitLast ")" fun _ => hne
  | false => exact h

variable {ι : Type} {items : List ι} {script : ι → Script} {layout : ι → Layout}
  {tokens : ι → List Token} {cond : ι → Prop}

theorem separated {x : ι}
    (h : ∀ y ∈ x :: items, Chunked src .ready (script y) [layout y] (tokens y) (cond y)) :
    Chunked src .ready (script x ++ Script.afterFirst (items.map script))
      (layout x :: Layout.afterFirst (items.map layout))
      (Token.separated ((x :: items).map tokens)) (∀ y ∈ x :: items, cond y) := by
  induction items generalizing x with
  | nil =>
    have hx := h x (List.mem_singleton_self x)
    rw [List.map_nil, Script.afterFirst, List.append_nil]
    exact hx.congr List.forall_mem_singleton.symm
  | cons y items ih =>
    obtain ⟨hx, hrest⟩ := List.forall_mem_cons.1 h
    have hcomma := copyTrivia (swap "," "," (copyTrivia (ih hrest)))
    rw [List.map_cons, List.map_cons, Script.afterFirst, Script.commaSeparated_cons,
      Layout.afterFirst, Layout.separated_cons]
    exact (hx.append (fun _ => List.cons_ne_nil _ _) hcomma).congr List.forall_mem_cons.symm

theorem commaSeparated
    (h : ∀ x ∈ items, Chunked src .ready (script x) [layout x] (tokens x) (cond x)) :
    Chunked src .done (Script.commaSeparated (items.map script))
      (Layout.separated (items.map layout)) (Token.separated (items.map tokens))
      (∀ x ∈ items, cond x) := by
  cases items with
  | nil => exact nil.congr (iff_of_true trivial (List.forall_mem_nil _))
  | cons x items =>
    rw [List.map_cons, List.map_cons, Script.commaSeparated_cons, Layout.separated_cons]
    exact copyTrivia (separated h)

theorem arguments
    (h : ∀ x ∈ items, Chunked src .ready (script x) [layout x] (tokens x) (cond x)) :
    Chunked src .ready (Script.arguments (items.map script))
      (argumentLayouts (items.map layout)) (Token.arguments (items.map tokens))
      (∀ x ∈ items, cond x) := by
  exact swap "(" "(" ((commaSeparated h).followed nofun (sign ")" ")"))

/-! ### Operators -/

/-- A prefix operator and its operand. -/
theorem unary {target : Target} {kind : Kind} {extent y : Extent} {op : UnaryOp}
    (hy : g.extent? = some y) (h : Chunked src .ready ys [g] ts P) :
    Chunked src .ready
      (Script.node target kind extent ([.swap op.token op.token, .copyTrivia] ++ ys))
      [.node extent [.token op.token, g]] (.unary op :: ts)
      (P ∧ Token.leads ts = false ∧ y.start = extent.start + byteLength op.token.toList) := by
  intro ctx after d htext hat hrun
  obtain ⟨_, ⟨-, hstart, -, hparts⟩, rfl⟩ := hat
  obtain ⟨_, hhead, hoperand⟩ := runAll_append_ok.1 (runAll_node_ok hrun)
  obtain ⟨_, hswap, hcopy⟩ := runAll_cons_ok.1 hhead
  obtain ⟨stop, htoken, rfl, hlies⟩ := swap_at hparts hswap
  obtain ⟨gap, first, hgap, hruns, rfl, hlies⟩ :=
    copyTrivia_at hlies (runAll_singleton_ok.1 hcopy)
  have hsrc : first.text = src := hgap.text_eq.trans (htoken.text_eq.trans htext)
  obtain ⟨hd, chunks, hwriter, hsegment⟩ := h hsrc hlies hoperand
  have hgap_nil : gap = [] ↔ y.start = extent.start + byteLength op.token.toList := by
    obtain ⟨_, hg, -⟩ := hlies
    rw [hgap.eq_nil_iff, Context.cursor_moved, htoken.offset, hstart]
    exact Eq.congr_left (hg.offset_eq hy).1
  rw [← hgap_nil]
  refine ⟨hd, .token (.unary op) op.token.toList :: (Chunk.gaps gap ++ chunks), ?_, ?_⟩
  · rw [hwriter, Context.moved_moved, List.flatMap_cons, List.flatMap_append, Chunk.flatMap_gaps,
      ← List.append_assoc, Writer.added_append]
    rfl
  · exact ((hsegment.mono fun _ => rfl).unary hruns).mono fun _ => trivial

end Chunked

/-- The texts beside an operator are trivia. -/
theorem Balanced.runs {spaced : Bool} {before after left right rest rest' : List Char}
    (h : Balanced spaced before after left right) (hbefore : Trivia.Runs before rest)
    (hafter : Trivia.Runs after rest') :
    (∃ rest, Trivia.Runs left rest) ∧ ∃ rest, Trivia.Runs right rest := by
  have hspace : Trivia.Runs [' '] [] := .single rfl
  rw [h.left_eq, h.right_eq]
  constructor
  · split
    · exact ⟨_, hspace⟩
    · exact ⟨_, hbefore⟩
  · split
    · exact ⟨_, hspace⟩
    · exact ⟨_, hafter⟩

/-- Something stands behind an operator exactly if it has to be set off or if the source has
something on one of its sides. -/
theorem Balanced.right_ne_nil_iff {spaced : Bool} {before after left right : List Char}
    (h : Balanced spaced before after left right) :
    right ≠ [] ↔ spaced = true ∨ before ++ after ≠ [] := by
  rw [h.right_eq]
  cases before <;> cases after <;> cases spaced <;> simp

namespace Chunked

/-- An operator between two operands. -/
theorem operator (token sign : String) (spaced : Bool) {y : Extent} {n : Nat} (hne : fs ≠ [])
    (hn : Layout.StopAt fs n) (hy : g.extent? = some y) (h : Chunked src .ready xs fs ts P)
    (h' : Chunked src .ready ys (g :: gs) us Q) :
    Chunked src .ready (xs ++ ([Script.operator .swift token sign spaced] ++ ys))
      (fs ++ .token token :: g :: gs) (ts ++ .operator sign :: us)
      (P ∧ Q ∧ (Token.leads us = true →
        spaced = true ∨ y.start ≠ n + byteLength token.toList)) := by
  intro ctx after d htext hat hrun
  obtain ⟨mid, hxs, hrest⟩ := runAll_append_ok.1 hrun
  obtain ⟨e, hat₁, hat₂⟩ := hat.split fun _ => hne
  obtain ⟨rfl, chunks, hmid, hsegment⟩ := h htext hat₁ hxs
  obtain ⟨_, hoperator, hys⟩ := runAll_append_ok.1 hrest
  obtain ⟨start, move, rfl, hlies⟩ :=
    operator_at (a := .done) hat₂ (runAll_singleton_ok.1 hoperator)
  obtain ⟨left, right, hbalanced, hwritten⟩ := move.written_balanced sign spaced
  have hpass := move.passes_before.trans (move.passes_token.trans move.passes_after)
  have hsrc : start.text = src := hpass.text_eq.trans (hat₁.text_eq.trans htext)
  obtain ⟨hd, chunks', hafter, hsegment'⟩ := h' hsrc hlies hys
  have hright : right ≠ [] ↔ spaced = true ∨ y.start ≠ n + byteLength token.toList := by
    obtain ⟨_, hg, -⟩ := hlies
    have hfirst : start.offset = y.start := (hg.offset_eq hy).1
    have hoffset := hpass.offset
    rw [hn hat₁, hfirst, byteLength_append, byteLength_append] at hoffset
    rw [hbalanced.right_ne_nil_iff, hoffset, Ne, ← byteLength_eq_zero, byteLength_append]
    exact or_congr_right (by omega)
  rw [← hright]
  obtain ⟨⟨_, hleft⟩, _, hruns⟩ := hbalanced.runs move.runs_before move.runs_after
  have hall := (((hsegment'.mono fun _ => rfl).operator sign hruns).after hleft)
  refine ⟨hd, _, ?_, hsegment.append hall⟩
  rw [hafter, List.flatMap_append, List.flatMap_append, List.flatMap_cons, List.flatMap_append,
    Chunk.flatMap_gaps, Chunk.flatMap_gaps, Writer.added_append, ← hmid]
  change (mid.writer.added _).added _ = _
  rw [show (Target.swift == Target.swift) = true from rfl, hwritten, ← Writer.added_append]
  simp only [Chunk.text, List.append_assoc]

end Chunked

end Render

end Lockstep
