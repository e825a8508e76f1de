import Lockstep.Proofs.Writing

/-!
# Captures that are put back at once

What is written through a capture and put back right away is what would have been written without
it. A sequence of operations depends on the writer through its line state only, and opening a
capture keeps that (`Writer.lineState_openCapture`); so the sequence puts one text wherever it runs
(`Op.runAll_puts`). The main statement is `Op.runAll_capture_flush`: both ways leave one state, its
texts, line starts, indentation, open captures and held texts included.
-/

namespace Lockstep.Output

open Text

/-- An operation on a writer, or on the texts of captures that have ended. -/
inductive Op where
  | write (text : String)
  | writeLine (text : String)
  | writeRaw (text : String)
  | ensureLineStart
  | indentBy (amount : Nat)
  | setIndentation (value : Nat)
  /-- Operations within a capture. Its text is held if it is `finished`, and dropped if not. -/
  | capture (ops : List Op) (finished : Bool)
  /-- Put a held text back. -/
  | flush (index : Nat)
  /-- Give a held text up. -/
  | discard (index : Nat)

/-- A writer and the texts of finished captures, the latest first. -/
structure Session where
  writer : Writer
  held : List String
  deriving DecidableEq, Repr

namespace Session

/-- A step of a session. -/
abbrev Run := EStateM Refused Session

/-- A step of the writer. -/
def output (x : Writer.Write Unit) : Run Unit := fun s =>
  match x s.writer with
  | .ok _ writer => .ok () { s with writer }
  | .error e writer => .error e { s with writer }

/-- Run a step within a capture, which ends however the step does. -/
def capture (x : Run Unit) (finished : Bool) : Run Unit := fun s =>
  match x { s with writer := s.writer.openCapture } with
  | .ok _ after =>
    let (text, writer) := after.writer.closeCapture
    .ok () ⟨writer, if finished then text :: after.held else after.held⟩
  | .error e after => .error e { after with writer := after.writer.closeCapture.2 }

/-- Put a held text back; an index without one stands for no text. -/
def flush (index : Nat) : Run Unit := fun s =>
  output (Writer.writeRaw (s.held[index]?.getD "")) { s with held := s.held.eraseIdx index }

end Session

mutual

/-- Run an operation. -/
def Op.run : Op → Session.Run Unit
  | .write text => Session.output (Writer.write text)
  | .writeLine text => Session.output (Writer.writeLine text)
  | .writeRaw text => Session.output (Writer.writeRaw text)
  | .ensureLineStart => Session.output Writer.ensureLineStart
  | .indentBy amount => modify fun s => { s with writer := s.writer.indentBy amount }
  | .setIndentation value => modify fun s => { s with writer := s.writer.setIndentation value }
  | .capture ops finished => Session.capture (Op.runAll ops) finished
  | .flush index => Session.flush index
  | .discard index => modify fun s => { s with held := s.held.eraseIdx index }

/-- Run operations one after another. -/
def Op.runAll : List Op → Session.Run Unit
  | [] => pure ()
  | op :: ops => do
    op.run
    Op.runAll ops

end

/-- The text ends in a line feed or a carriage return. -/
def EndsInBreak (text : String) : Prop :=
  ∃ start c, text.toList = start ++ [c] ∧ isLineBreak c = true

theorem EndsInBreak.endsLine {text : String} (h : EndsInBreak text) (b : Bool) :
    endsLine b text.toList = true := by
  obtain ⟨start, c, htext, hc⟩ := h
  rw [htext, endsLine_append]
  exact hc

/-- What a text ends with does not hang on what is before it, unless it is empty. -/
theorem endsLine_of_ne_nil {text : List Char} (h : text ≠ []) (b b' : Bool) :
    endsLine b text = endsLine b' text := by
  cases text with
  | nil => exact absurd rfl h
  | cons c rest => rfl

/-- The spaces before a line's content do not change what it ends with. -/
theorem endsLine_spaces (width : Nat) (b b' : Bool) (c : Char) (rest : List Char) :
    endsLine b (List.replicate width ' ' ++ c :: rest) = endsLine b' (c :: rest) := by
  rw [endsLine_append]
  rfl

theorem endsLine_indented (width : Nat) (b : Bool) (cs : List Char) :
    endsLine b (indented width b cs) = endsLine b cs := by
  induction cs generalizing b with
  | nil => rfl
  | cons c rest ih =>
    simp only [indented]
    split
    · next hc =>
      show endsLine (isLineBreak c) _ = endsLine (isLineBreak c) _
      rw [hc, ih]
    · next hc =>
      have hc : isLineBreak c = false := by simpa using hc
      split
      · rw [endsLine_spaces width b b]
        show endsLine (isLineBreak c) _ = endsLine (isLineBreak c) _
        rw [hc, ih]
      · show endsLine (isLineBreak c) _ = endsLine (isLineBreak c) _
        rw [hc, ih]

/-! ## What operations depend on -/

/-- What of a writer decides how a text is written. -/
structure LineState where
  lineStart : Bool
  indentation : Nat
  lineEnd : String

namespace Writer

variable {w : Writer}

def lineState (w : Writer) : LineState := ⟨w.atLineStart, w.indentation, w.lineEnd⟩

/-- The writer with a text put at its end as it stands, and with another indentation. -/
def put (w : Writer) (text : List Char) (indentation : Nat) : Writer :=
  match w.captures with
  | inner :: outer =>
    { w with
      captures := ⟨inner.text ++ String.ofList text, endsLine inner.lineStart text⟩ :: outer
      indentation }
  | [] =>
    { w with
      sink := { w.sink with received := w.sink.received ++ String.ofList text }
      sinkLineStart := endsLine w.sinkLineStart text
      indentation }

@[simp] theorem lineState_openCapture (w : Writer) : w.openCapture.lineState = w.lineState := rfl

@[simp] theorem lineState_put (w : Writer) (text : List Char) (indentation : Nat) :
    (w.put text indentation).lineState =
      ⟨endsLine w.atLineStart text, indentation, w.lineEnd⟩ := by
  obtain ⟨sink, start, captures, own, lineEnd⟩ := w
  cases captures <;> rfl

theorem put_put (w : Writer) (xs ys : List Char) (m n : Nat) :
    (w.put xs m).put ys n = w.put (xs ++ ys) n := by
  obtain ⟨sink, start, captures, own, lineEnd⟩ := w
  cases captures <;> simp [put, String.append_assoc]

theorem put_nil (w : Writer) (n : Nat) : w.put [] n = w.setIndentation n := by
  obtain ⟨sink, start, captures, own, lineEnd⟩ := w
  cases captures <;> simp [put, setIndentation, endsLine]

/-- Ending a capture gives the text put into it, and what is left of it is the indentation. -/
theorem closeCapture_put (w : Writer) (text : List Char) (n : Nat) :
    (w.openCapture.put text n).closeCapture = (String.ofList text, w.put [] n) := by
  rw [put_nil]
  show ("" ++ String.ofList text, w.setIndentation n) = _
  rw [String.empty_append]

theorem added_eq_put (w : Writer) (text : List Char) :
    w.added text = w.put (indented w.indentation w.atLineStart text) w.indentation := by
  obtain ⟨sink, start, captures, own, lineEnd⟩ := w
  cases captures <;> simp [added, put, atLineStart, endsLine_indented]

theorem works_openCapture (w : Writer) : w.openCapture.Works := .inl nofun

namespace Works

theorem put (h : w.Works) (text : List Char) (n : Nat) : (w.put text n).Works := by
  obtain ⟨sink, start, captures, own, lineEnd⟩ := w
  cases captures with
  | nil =>
    rcases h with h | h
    · exact absurd rfl h
    · exact .inr h
  | cons inner outer => exact .inl nofun

theorem emit (h : w.Works) {text : String} {lineStart : Bool}
    (hl : lineStart = endsLine w.atLineStart text.toList) :
    emit text lineStart w = .ok () (w.put text.toList w.indentation) := by
  obtain ⟨sink, start, captures, own, lineEnd⟩ := w
  subst hl
  cases captures with
  | nil =>
    rcases h with h | h
    · exact absurd rfl h
    · simp only [Writer.emit, Writer.put, String.ofList_toList]
      exact if_pos h
  | cons inner outer => simp [Writer.emit, Writer.put, atLineStart]

/-- A text that is put as it stands counts for itself alone, and an empty one leaves all as it
was. -/
theorem writeRaw (h : w.Works) (text : String) :
    writeRaw text w = .ok () (w.put text.toList w.indentation) := by
  simp only [Writer.writeRaw]
  split
  · next hempty =>
    rw [String.isEmpty_iff.1 hempty]
    exact congrArg (EStateM.Result.ok ()) (put_nil w w.indentation).symm
  · next hempty =>
    apply h.emit
    apply endsLine_of_ne_nil
    intro hnil
    exact hempty (String.isEmpty_iff.2 (String.toList_eq_nil_iff.1 hnil))

theorem writeLine (h : w.Works) (he : EndsInBreak w.lineEnd) (text : String) :
    writeLine text w = .ok () (w.put
      (indented w.indentation w.atLineStart text.toList ++ w.lineEnd.toList) w.indentation) := by
  have hemit := (h.put (indented w.indentation w.atLineStart text.toList) w.indentation).emit
    (he.endsLine _).symm
  have hstate := lineState_put w (indented w.indentation w.atLineStart text.toList) w.indentation
  have hend := congrArg LineState.lineEnd hstate
  have hindent := congrArg LineState.indentation hstate
  simp only [lineState] at hend hindent
  rw [hindent, put_put] at hemit
  rw [← hemit, ← hend]
  show EStateM.bind _ _ w = _
  rw [EStateM.bind, h.write text, added_eq_put]
  rfl

theorem ensureLineStart (h : w.Works) (he : EndsInBreak w.lineEnd) :
    ensureLineStart w =
      .ok () (w.put (if w.atLineStart then [] else w.lineEnd.toList) w.indentation) := by
  show (if w.atLineStart then Pure.pure PUnit.unit else Writer.writeLine "" : Write PUnit) w = _
  cases w.atLineStart with
  | true => exact congrArg (EStateM.Result.ok ()) (put_nil w w.indentation).symm
  | false => exact h.writeLine he ""

end Works

end Writer

/-! ## One text for every writer -/

/-- A run succeeds, and the text that it puts, the indentation that it leaves and what is held after
it are the same for all writers that work and are in one line state. -/
def Puts (x : Session.Run Unit) : Prop :=
  ∀ (state : LineState) (held : List String), EndsInBreak state.lineEnd →
    ∃ text indentation held', ∀ w : Writer, w.Works → w.lineState = state →
      x ⟨w, held⟩ = .ok () ⟨w.put text indentation, held'⟩

namespace Puts

theorem pure : Puts (pure ()) := by
  intro state held _
  refine ⟨[], state.indentation, held, ?_⟩
  rintro w _ rfl
  rw [Writer.put_nil]
  rfl

theorem bind {x y : Session.Run Unit} (hx : Puts x) (hy : Puts y) : Puts (do x; y) := by
  intro state held he
  obtain ⟨xs, m, held₁, hx⟩ := hx state held he
  obtain ⟨ys, n, held₂, hy⟩ := hy ⟨endsLine state.lineStart xs, m, state.lineEnd⟩ held₁ he
  refine ⟨xs ++ ys, n, held₂, ?_⟩
  rintro w hw rfl
  have hy := hy (w.put xs m) (hw.put xs m) (Writer.lineState_put w xs m)
  rw [Writer.put_put] at hy
  show EStateM.bind _ _ _ = _
  rw [EStateM.bind, hx w hw rfl]
  exact hy

/-- A step of the writer that puts a text which its line state decides. -/
theorem output {x : Writer.Write Unit} (text : LineState → List Char)
    (h : ∀ w : Writer, w.Works → EndsInBreak w.lineEnd →
      x w = .ok () (w.put (text w.lineState) w.indentation)) : Puts (Session.output x) := by
  intro state held he
  refine ⟨text state, state.indentation, held, ?_⟩
  rintro w hw rfl
  simp only [Session.output, h w hw he]
  rfl

/-- A step that sets the indentation and what is held, and writes nothing. -/
theorem modify (indentation : Nat → Nat) (held : List String → List String) :
    Puts (modify fun s =>
      ⟨s.writer.setIndentation (indentation s.writer.indentation), held s.held⟩) := by
  intro state texts _
  refine ⟨[], indentation state.indentation, held texts, ?_⟩
  rintro w _ rfl
  rw [Writer.put_nil]
  rfl

/-- Within a capture a run puts the text that it would put outside. -/
theorem capture {x : Session.Run Unit} (hx : Puts x) (finished : Bool) :
    Puts (Session.capture x finished) := by
  intro state held he
  obtain ⟨text, n, held', hx⟩ := hx state held he
  refine ⟨[], n, if finished then String.ofList text :: held' else held', ?_⟩
  rintro w _ rfl
  have hx := hx w.openCapture w.works_openCapture (Writer.lineState_openCapture w)
  simp only [Session.capture, hx, Writer.closeCapture_put]

theorem flush (index : Nat) : Puts (Session.flush index) := by
  intro state held _
  refine ⟨(held[index]?.getD "").toList, state.indentation, held.eraseIdx index, ?_⟩
  rintro w hw rfl
  simp only [Session.flush, Session.output, hw.writeRaw]
  rfl

end Puts

mutual

theorem Op.run_puts : ∀ op : Op, Puts op.run
  | .write text => by
    apply Puts.output fun state => indented state.indentation state.lineStart text.toList
    intro w hw _
    rw [hw.write, Writer.added_eq_put]
    rfl
  | .writeLine text => by
    apply Puts.output fun state =>
      indented state.indentation state.lineStart text.toList ++ state.lineEnd.toList
    intro w hw he
    exact hw.writeLine he text
  | .writeRaw text => by
    apply Puts.output fun _ => text.toList
    intro w hw _
    exact hw.writeRaw text
  | .ensureLineStart => by
    apply Puts.output fun state => if state.lineStart then [] else state.lineEnd.toList
    intro w hw he
    exact hw.ensureLineStart he
  | .indentBy amount => Puts.modify (· + amount) id
  | .setIndentation value => Puts.modify (fun _ => value) id
  | .capture ops finished => (Op.runAll_puts ops).capture finished
  | .flush index => Puts.flush index
  | .discard index => Puts.modify id (·.eraseIdx index)

theorem Op.runAll_puts : ∀ ops : List Op, Puts (Op.runAll ops)
  | [] => Puts.pure
  | op :: ops => (Op.run_puts op).bind (Op.runAll_puts ops)

end

/-- **A capture that is put back at once leaves no trace.** On a writer that works and whose lines
end in a line break, operations go through, and run within a capture whose text is put back right
away they leave the same state as run directly. -/
theorem Op.runAll_capture_flush (ops : List Op) (s : Session) (hw : s.writer.Works)
    (he : EndsInBreak s.writer.lineEnd) :
    ∃ after, Op.runAll ops s = .ok () after ∧
      Op.runAll [.capture ops true, .flush 0] s = .ok () after := by
  obtain ⟨w, held⟩ := s
  obtain ⟨text, n, held', hrun⟩ := Op.runAll_puts ops w.lineState held he
  refine ⟨⟨w.put text n, held'⟩, hrun w hw rfl, ?_⟩
  have hcapture : (Op.capture ops true).run ⟨w, held⟩ =
      .ok () ⟨w.put [] n, String.ofList text :: held'⟩ := by
    have hin := hrun w.openCapture w.works_openCapture (Writer.lineState_openCapture w)
    simp only [Op.run, Session.capture, hin, Writer.closeCapture_put, if_true]
  have hflush : (Op.flush 0).run ⟨w.put [] n, String.ofList text :: held'⟩ =
      .ok () ⟨w.put text n, held'⟩ := by
    have hstate := congrArg LineState.indentation (Writer.lineState_put w [] n)
    have hraw := (hw.put [] n).writeRaw (String.ofList text)
    rw [show (w.put [] n).indentation = n from hstate, Writer.put_put, List.nil_append,
      String.toList_ofList] at hraw
    show Session.output (Writer.writeRaw (String.ofList text)) ⟨w.put [] n, held'⟩ = _
    simp only [Session.output, hraw]
  show EStateM.bind (Op.capture ops true).run
    (fun _ => EStateM.bind (Op.flush 0).run fun _ => pure ()) _ = _
  simp only [EStateM.bind, hcapture, hflush]
  rfl

/-- Lines that end in `CR LF`, a capture within a capture, a text that is dropped and one that is put
back later. -/
theorem Op.runAll_capture_flush_nested :
    (⟨⟨.new true, false, [⟨"x", false⟩], 2, "\r\n"⟩, []⟩ : Session).writer.Works ∧
    EndsInBreak "\r\n" ∧
    ∃ after,
      Op.runAll
        [.capture [.write "a\r", .capture [.writeLine "lost"] false, .indentBy 1] true,
          .write "b", .ensureLineStart, .flush 0, .write "c"]
        ⟨⟨.new true, false, [⟨"x", false⟩], 2, "\r\n"⟩, []⟩ = .ok () after ∧
      Op.runAll
        [.capture
          [.capture [.write "a\r", .capture [.writeLine "lost"] false, .indentBy 1] true,
            .write "b", .ensureLineStart, .flush 0, .write "c"] true,
          .flush 0]
        ⟨⟨.new true, false, [⟨"x", false⟩], 2, "\r\n"⟩, []⟩ = .ok () after ∧
      (after.writer.current, after.writer.indentation) = ("xb\r\na\r   c", 3) := by
  have hw : (⟨⟨.new true, false, [⟨"x", false⟩], 2, "\r\n"⟩, []⟩ : Session).writer.Works :=
    .inl nofun
  have he : EndsInBreak "\r\n" := ⟨['\r'], '\n', rfl, rfl⟩
  refine ⟨hw, he, ?_⟩
  obtain ⟨after, hrun, hcapture⟩ := Op.runAll_capture_flush
    [.capture [.write "a\r", .capture [.writeLine "lost"] false, .indentBy 1] true,
      .write "b", .ensureLineStart, .flush 0, .write "c"] _ hw he
  refine ⟨after, hrun, hcapture, ?_⟩
  have hafter : (match Op.runAll
      [.capture [.write "a\r", .capture [.writeLine "lost"] false, .indentBy 1] true,
        .write "b", .ensureLineStart, .flush 0, .write "c"]
      ⟨⟨.new true, false, [⟨"x", false⟩], 2, "\r\n"⟩, []⟩ with
      | .ok _ after => (after.writer.current, after.writer.indentation)
      | .error _ _ => ("", 0)) = ("xb\r\na\r   c", 3) := by decide +kernel
  rw [hrun] at hafter
  exact hafter

end Lockstep.Output
