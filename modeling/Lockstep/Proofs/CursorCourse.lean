import Lockstep.Proofs.Running

/-!
# Whole runs of the cursor

Operations of the cursor run one after another, and one that fails leaves the cursor where it
stopped. Each of them stays in its text (`Op.text_after`), and all but a jump go on over a part of
it, whether they fail or not (`Op.exists_passes_after`); one that goes through goes on over just
what it answers (`Op.passes_of_run`). The main statement is `Op.afterAll_keeps`: wherever a run has
come to, and whatever it has met, no text is lost or read twice from there on.
-/

namespace Lockstep.Source.Cursor

open Text

/-- An operation of the cursor. -/
inductive Op where
  | jumpTo (pos : Nat)
  | toEnd
  | peek
  | skipTrivia (limit : Option Nat)
  | skipBlanks
  | skipLineRest
  | expect (token : String)
  deriving DecidableEq, Repr

/-- What an operation answers that goes through. -/
inductive Answer where
  | done
  | text (text : String)
  | moved (any : Bool)
  | run (run : Option TriviaRun)
  deriving DecidableEq, Repr

namespace Op

def run : Op → Walk Answer
  | .jumpTo pos => do
    Cursor.jumpTo pos
    return .done
  | .toEnd => do
    modify Cursor.toEnd
    return .done
  | .peek => return .run (← Cursor.peek)
  | .skipTrivia limit => return .text (← Cursor.skipTrivia limit)
  | .skipBlanks => return .text (← Cursor.skipBlanks)
  | .skipLineRest => return .moved (← Cursor.skipLineRest)
  | .expect token => do
    Cursor.expect token
    return .done

/-- Where the cursor is after an operation, whether it goes through or fails. -/
def after (op : Op) (c : Cursor) : Cursor :=
  match op.run c with
  | .ok _ d | .error _ d => d

/-- Where the cursor is after operations one after another. -/
def afterAll (ops : List Op) (c : Cursor) : Cursor := ops.foldl (fun c op => op.after c) c

/-- The two operations that leave out what lies on their way. -/
def leaps : Op → Bool
  | .jumpTo _ | .toEnd => true
  | _ => false

/-- The text that an operation from `c` to `d` has dealt with: what it returns, the token that it
matches, or the rest of a line that it skips. -/
def read (c d : Cursor) : Op → Answer → String
  | .expect token, _ => token
  | .skipLineRest, _ => String.ofList (c.ahead.take (c.ahead.length - d.ahead.length))
  | _, .text text => text
  | _, _ => ""

end Op

/-- What operations read one after another, and where they come to, if all of them go through and
none leaps. -/
def readAll? : List Op → Cursor → Option (List String × Cursor)
  | [], c => some ([], c)
  | op :: ops, c =>
    match op.leaps, op.run c with
    | false, .ok answer d =>
      (readAll? ops d).map fun (texts, e) => (op.read c d answer :: texts, e)
    | _, _ => none

variable {c d : Cursor}

/-! ## One operation -/

theorem map_ok {α : Type} {x : Walk α} {f : α → Answer} {answer : Answer}
    (h : (do return f (← x) : Walk Answer) c = .ok answer d) :
    ∃ a, x c = .ok a d ∧ answer = f a := by
  simp only [bind, EStateM.bind] at h
  split at h
  · next a mid hx =>
    cases h
    exact ⟨a, hx, rfl⟩
  · cases h

theorem map_error {α : Type} {x : Walk α} {f : α → Answer} {e : Error}
    (h : (do return f (← x) : Walk Answer) c = .error e d) : x c = .error e d := by
  simp only [bind, EStateM.bind] at h
  split at h
  · cases h
  · next hx =>
    cases h
    exact hx

/-- The text passed on the way from one place to a later one. -/
theorem Passes.eq_take {text : List Char} (h : c.Passes text d) :
    c.ahead.take (c.ahead.length - d.ahead.length) = text := by
  have hlen : c.ahead.length - d.ahead.length = text.length := by
    rw [h.ahead, List.length_append, Nat.add_sub_cancel_right]
  rw [hlen, h.ahead, List.take_left]

theorem peek_ok {run : Option TriviaRun} (h : peek c = .ok run d) : d = c := by
  simp only [peek] at h
  split at h <;> cases h <;> rfl

namespace Op

/-- An operation that goes through and does not leap has passed what it has read. -/
theorem passes_of_run {op : Op} {answer : Answer} (hop : op.leaps = false)
    (h : op.run c = .ok answer d) : c.Passes (op.read c d answer).toList d := by
  cases op with
  | jumpTo | toEnd => cases hop
  | peek =>
    obtain ⟨run, hpeek, rfl⟩ := map_ok h
    obtain rfl := peek_ok hpeek
    exact .refl _
  | skipTrivia limit =>
    obtain ⟨text, hskip, rfl⟩ := map_ok h
    exact (Render.skipTrivia_ok hskip).1
  | skipBlanks =>
    obtain ⟨text, hskip, rfl⟩ := map_ok h
    cases hskip
    have hpass := c.passes_pass c.blanksAhead
    rw [blanksAhead, ← List.prefix_iff_eq_take.1 (List.takeWhile_prefix isBlank)] at hpass
    simp only [read, String.toList_ofList]
    exact hpass
  | skipLineRest =>
    obtain ⟨any, hskip, rfl⟩ := map_ok h
    obtain ⟨text, hpass, -⟩ := Render.skipLineRest_passes hskip
    simp only [read, hpass.eq_take, String.toList_ofList]
    exact hpass
  | expect token =>
    obtain ⟨_, hexpect, rfl⟩ := map_ok (f := fun _ => .done) h
    exact Render.expect_ok hexpect

/-- A jump or a token that fails leaves the cursor in its place. -/
theorem eq_of_error {op : Op} {e : Error}
    (hop : (∃ pos, op = .jumpTo pos) ∨ ∃ token, op = .expect token)
    (h : op.run c = .error e d) : d = c := by
  obtain ⟨pos, rfl⟩ | ⟨token, rfl⟩ := hop
  · have hjump := map_error (f := fun _ => .done) h
    simp only [Cursor.jumpTo] at hjump
    split at hjump
    · cases hjump
    · cases hjump
      rfl
  · have hexpect := map_error (f := fun _ => .done) h
    simp only [Cursor.expect] at hexpect
    split at hexpect
    · cases hexpect
    · cases hexpect
      rfl

/-- An operation that fails has gone on over a part of the text, if it has moved at all. -/
theorem exists_passes_of_error {op : Op} {e : Error} (h : op.run c = .error e d) :
    ∃ text, c.Passes text d := by
  cases op with
  | jumpTo pos =>
    obtain rfl := eq_of_error (.inl ⟨pos, rfl⟩) h
    exact ⟨[], .refl _⟩
  | expect token =>
    obtain rfl := eq_of_error (.inr ⟨token, rfl⟩) h
    exact ⟨[], .refl _⟩
  | toEnd => cases h
  | peek =>
    have hpeek := map_error h
    simp only [Cursor.peek] at hpeek
    split at hpeek <;> cases hpeek
    exact ⟨[], .refl _⟩
  | skipTrivia limit =>
    have hskip := map_error h
    simp only [Cursor.skipTrivia] at hskip
    split at hskip <;> cases hskip
    exact ⟨_, c.passes_pass _⟩
  | skipBlanks => cases map_error h
  | skipLineRest =>
    have hskip := map_error h
    simp only [Cursor.skipLineRest] at hskip
    split at hskip
    · cases hskip
    · cases hskip
      exact ⟨_, c.passes_pass _⟩
    · split at hskip <;> cases hskip

/-- Whether it fails or not, an operation other than a jump goes on over a part of the text. -/
theorem exists_passes_after {op : Op} (hop : ∀ pos, op ≠ .jumpTo pos) :
    ∃ text, c.Passes text (op.after c) := by
  unfold after
  cases h : op.run c with
  | error e d => exact exists_passes_of_error h
  | ok answer d =>
    by_cases hleaps : op.leaps = false
    · exact ⟨_, passes_of_run hleaps h⟩
    · cases op with
      | jumpTo pos => exact absurd rfl (hop pos)
      | toEnd =>
        cases h
        exact ⟨_, c.passes_pass _⟩
      | _ => exact absurd rfl hleaps

theorem text_after (op : Op) (c : Cursor) : (op.after c).text = c.text := by
  by_cases hop : ∃ pos, op = .jumpTo pos
  · obtain ⟨pos, rfl⟩ := hop
    unfold after
    cases h : (Op.jumpTo pos).run c with
    | error e d => rw [eq_of_error (.inl ⟨pos, rfl⟩) h]
    | ok answer d =>
      obtain ⟨_, hjump, -⟩ := map_ok (f := fun _ => .done) h
      simp only [Cursor.jumpTo] at hjump
      split at hjump
      · next target hat =>
        cases hjump
        exact (at?_eq_some_iff.1 hat).1
      · cases hjump
  · obtain ⟨text, hpass⟩ := exists_passes_after (c := c) fun pos h => hop ⟨pos, h⟩
    exact hpass.text_eq

theorem text_afterAll (ops : List Op) (c : Cursor) : (afterAll ops c).text = c.text := by
  induction ops generalizing c with
  | nil => rfl
  | cons op ops ih => exact (ih (op.after c)).trans (op.text_after c)

end Op

/-! ## Whole runs -/

/-- The texts read over a stretch are all that lies between its ends. -/
theorem passes_of_readAll? {ops : List Op} {texts : List String}
    (h : readAll? ops c = some (texts, d)) : c.Passes (String.join texts).toList d := by
  induction ops generalizing c texts with
  | nil =>
    cases h
    exact .refl _
  | cons op ops ih =>
    simp only [readAll?] at h
    split at h
    · next answer mid hop hrun =>
      obtain ⟨⟨rest, e⟩, hrest, heq⟩ := Option.map_eq_some_iff.1 h
      cases heq
      rw [String.join_cons, String.toList_append]
      exact (Op.passes_of_run hop hrun).trans (ih hrest)
    · cases h

/-- **A cursor keeps to its text over whole runs.** Wherever operations have taken it, failing ones
among them, the cursor is at a place of the source where a character begins or the source ends. From
there no operation but a jump goes back, a jump or a token that fails leaves it there, and what
operations read that go through and do not leap is just the source between their first and their
last place. -/
theorem Op.afterAll_keeps (source : String) (hlen : byteLength source.toList < offsetCount - 1)
    (ops : List Op) :
    let c := afterAll ops (.ofText source)
    (c.offset ≤ byteLength source.toList ∧ ∃ n, charsIn? source.toList c.offset = some n) ∧
    (∀ op : Op, (∀ pos, op ≠ .jumpTo pos) → c.offset ≤ (op.after c).offset) ∧
    (∀ (op : Op) (e : Error) (d : Cursor),
      ((∃ pos, op = .jumpTo pos) ∨ ∃ token, op = .expect token) → op.run c = .error e d → d = c) ∧
    ∀ (stretch : List Op) (texts : List String) (d : Cursor),
      readAll? stretch c = some (texts, d) →
      (Cursor.ofText source).slice? (.ofNat c.offset d.offset) = some (String.join texts) := by
  intro c
  have htext : c.text = source.toList := text_afterAll ops (.ofText source)
  have hplace (d : Cursor) (hd : d.text = source.toList) :
      d.offset + byteLength d.ahead = byteLength source.toList := by
    rw [← hd, Cursor.text, byteLength_append, byteLength_reverse, d.offset_eq]
  refine ⟨⟨?_, ?_⟩, ?_, ?_, ?_⟩
  · have := hplace c htext
    omega
  · refine ⟨c.passed.reverse.length, ?_⟩
    rw [← htext, Cursor.text, c.offset_eq, ← byteLength_reverse]
    exact charsIn?_byteLength _ _
  · intro op hop
    obtain ⟨text, hpass⟩ := exists_passes_after (c := c) hop
    rw [hpass.offset]
    exact Nat.le_add_right _ _
  · intro op e d hop h
    exact eq_of_error hop h
  · intro stretch texts d h
    have hpass := passes_of_readAll? h
    have hc := hplace c htext
    have hd := hplace d (hpass.text_eq.trans htext)
    -- offsets of so short a source fit into 32 bits
    have hfits (n : Nat) (hn : n ≤ byteLength source.toList) : n = (UInt32.ofNat n).toNat := by
      rw [UInt32.toNat_ofNat']
      exact (Nat.mod_eq_of_lt (by simp only [offsetCount] at hlen; omega)).symm
    have hslice := slice?_of_passes (c := .ofText source) (x := .ofNat c.offset d.offset)
      htext hpass (hfits _ (by omega)) (hfits _ (by omega))
    rwa [String.ofList_toList] at hslice

/-- After a scan that fails halfway and a jump into a character, a stretch over a comment, an
accented letter and the rest of a line. -/
theorem Op.afterAll_keeps_stretch :
    byteLength " /* a */é; \n/* b".toList < offsetCount - 1 ∧
    ∃ d, readAll? [.skipTrivia none, .expect "é", .peek, .expect ";", .skipLineRest]
        (afterAll [.jumpTo 11, .skipTrivia none, .jumpTo 9, .jumpTo 0]
          (.ofText " /* a */é; \n/* b")) =
        some ([" /* a */", "é", "", ";", " \n"], d) ∧
      (Cursor.ofText " /* a */é; \n/* b").slice? (.ofNat 0 d.offset) =
        some (String.join [" /* a */", "é", "", ";", " \n"]) := by
  have hlen : byteLength " /* a */é; \n/* b".toList < offsetCount - 1 := by decide
  have hread : (readAll? [.skipTrivia none, .expect "é", .peek, .expect ";", .skipLineRest]
      (afterAll [.jumpTo 11, .skipTrivia none, .jumpTo 9, .jumpTo 0]
        (.ofText " /* a */é; \n/* b"))).map Prod.fst =
      some [" /* a */", "é", "", ";", " \n"] := by decide +kernel
  have hback : (afterAll [.jumpTo 11, .skipTrivia none, .jumpTo 9, .jumpTo 0]
      (.ofText " /* a */é; \n/* b")).offset = 0 := by decide +kernel
  obtain ⟨⟨texts, d⟩, hall, rfl⟩ := Option.map_eq_some_iff.1 hread
  have hkeeps := (Op.afterAll_keeps _ hlen
    [.jumpTo 11, .skipTrivia none, .jumpTo 9, .jumpTo 0]).2.2.2 _ _ d hall
  rw [hback] at hkeeps
  exact ⟨hlen, d, hall, hkeeps⟩

end Lockstep.Source.Cursor
