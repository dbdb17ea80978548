import ContentStream.Proofs.ClipRuns
import ContentStream.Proofs.Sequences

/-!
# Laws of writing text

The operators that write text are made of one another. Those that move to the next line and show a
string do what a move and a showing do, and so do those that set the spacing or the leading on the
way; a string is shown like an array of that one string, and an array like any two parts of it, one
after the other. As long as a text object is open these are laws without exception: the glyphs are
the same and stand at the same places, and the next glyph will stand where it would have stood.

A string can be split as well, if every byte of it is a glyph of its own, as in a simple font; in
other fonts a split may part the bytes of one glyph. All of this comes down to a text object being
handed on from glyph to glyph, and to the graphics state being left alone meanwhile.

## Main definitions

* `Font.IsSimple`: every byte is a glyph.

## Main results

* `TextObject.place_append`: glyphs are placed where those before them have led to.
* `Action.showItems_append`, `Action.run_showText_append`: arrays and strings, part by part.
* `Action.run_performAll_write`: writing steps that come to the same.
* `text_laws`: operators that write text are made of one another.
-/

namespace ContentStream

variable {σ : Type}

/-! ### Glyphs -/

/-- A **simple** font: every byte of a string is a glyph of its own. -/
def Font.IsSimple (font : Font) : Prop :=
  ∃ identity name default widths, font = Font.simple identity name default widths

/-- Simple fonts decode a string part by part. -/
theorem Font.IsSimple.decode_append {font : Font} (h : font.IsSimple) (s t : Bytes) :
    font.decode (s ++ t) = font.decode s ++ font.decode t := by
  obtain ⟨identity, name, default, widths, rfl⟩ := h
  exact List.map_append

/-- Glyphs are placed **where those before them have led to**. -/
theorem TextObject.place_append (t : TextObject) (text : TextState) (gs hs : List Glyph) :
    t.place text (gs ++ hs) =
      let first := t.place text gs
      let second := first.2.place text hs
      (first.1 ++ second.1, second.2) := by
  induction gs generalizing t with
  | nil => rfl
  | cons g gs ih => simp only [List.cons_append, place, ih]

namespace Action

/-! ### Strings and arrays -/

/-- Without a font nothing is shown. -/
theorem run_showText_of_none {m : Machine σ} (h : m.stack.current.text.font = none) (bytes : Bytes)
    (t : TextObject) : (showText bytes t).run m = ⟨.ok t, m, []⟩ := by
  rw [showText, run_state_bind, h]
  rfl

/-- A string is shown glyph by glyph, which leaves the machine as it is. The glyphs are placed
first, and where they end is where the text goes on. -/
theorem run_showText_of_some {m : Machine σ} {font : Font}
    (h : m.stack.current.text.font = some font) (bytes : Bytes) (t : TextObject) :
    (showText bytes t).run m =
      let placed := t.place m.stack.current.text (font.decode bytes)
      ⟨.ok placed.2, m, placed.1.map fun p => .event (.glyph m.stack.current p.1 p.2)⟩ := by
  have hemit (es : List Event) (after : TextObject) :
      (emitAll es >>= fun _ => pure after : Action σ TextObject).run m =
        ⟨.ok after, m, es.map .event⟩ := by
    simp only [run_bind, run_emitAll, run_pure, Outcome.after, List.append_nil]
  rw [showText, run_state_bind, h]
  exact (hemit _ _).trans (by rw [List.map_map]; rfl)

/-- A string in a simple font is shown **part by part**. Such a font decodes each byte by itself, so
that no glyph is lost where the string is cut. -/
theorem run_showText_append {m : Machine σ}
    (hfont : ∀ font, m.stack.current.text.font = some font → font.IsSimple) (s s' : Bytes)
    (t : TextObject) :
    (showText (s ++ s') t).run m = (showText s t >>= showText s').run m := by
  rw [run_bind]
  cases h : m.stack.current.text.font with
  | none => simp only [run_showText_of_none h, Outcome.after_nil]
  | some font =>
      simp only [run_showText_of_some h, (hfont font h).decode_append, TextObject.place_append,
        List.map_append]
      rfl

/-- An array is shown part by part. -/
theorem showItems_append (xs ys : List Operand) (t : TextObject) :
    (showItems (xs ++ ys) t : Action σ TextObject) = showItems xs t >>= showItems ys := by
  induction xs generalizing t with
  | nil => rfl
  | cons x xs ih =>
      cases x <;> simp only [List.cons_append, showItems, ih, bind_assoc]

/-- A string is shown like an array of that one string. -/
theorem showItems_string (bytes : Bytes) (t : TextObject) :
    (showItems [.string bytes] t : Action σ TextObject) = showText bytes t :=
  bind_pure _

/-! ### Open text objects -/

section

variable {frame : Frame} (hactive : frame.text.active = true)

include hactive

/-- A writing step in an open text object hands on the text object. -/
theorem write_of_active (step : Writing) :
    (write step frame : Action σ Frame) =
      writeOpen step frame.text >>= fun text => pure { frame with text } := by
  simp only [write, hactive, if_true]

/-- Two writing steps: the text object is still open for the second, as no step that writes closes
it. So it is checked but once. -/
theorem write_bind_write (first second : Writing) :
    (write first frame >>= write second : Action σ Frame) =
      (writeOpen first frame.text >>= writeOpen second) >>= fun text =>
        pure { frame with text } := by
  rw [write_of_active hactive, bind_assoc, bind_assoc]
  funext m
  refine run_bind_congr fun text htext => ?_
  have hopen : text.active = frame.text.active :=
    (clips_writeOpen first frame.text).result text htext
  exact write_of_active (hopen.trans hactive) second

variable {ctx : Context σ} {call : Bytes → Action σ Unit} {m : Machine σ}

/-- Writing steps that come to the same come to the same as commands. -/
theorem run_performAll_write {first second third : Writing}
    (h : (writeOpen first frame.text).run m =
      (writeOpen second frame.text >>= writeOpen third).run m) :
    (performAll ctx call frame [.write first]).run m =
      (performAll ctx call frame [.write second, .write third]).run m := by
  simp only [performAll, perform, bind_pure]
  rw [write_bind_write hactive, write_of_active hactive, run_bind, run_bind, h]

/-- Showing a string on the next line, with spacing. -/
theorem run_performAll_nextLineWriteSpaced (wordSpacing charSpacing : Float) (bytes : Bytes) :
    (performAll ctx call frame
        [.write (.nextLineWriteSpaced wordSpacing charSpacing bytes)]).run m =
      (performAll ctx call frame [.set (.wordSpacing wordSpacing), .set (.charSpacing charSpacing),
        .write (.nextLineWrite bytes)]).run m := by
  simp only [performAll, perform, write_of_active hactive, writeOpen, bind_assoc, pure_bind,
    bind_pure]

/-- Moving to a line and making its distance the leading. -/
theorem run_performAll_moveLineLeading (tx ty : Float) :
    (performAll ctx call frame [.write (.moveLineLeading tx ty)]).run m =
      (performAll ctx call frame [.set (.leading (-ty)), .write (.moveLine tx ty)]).run m := by
  simp only [performAll, perform, write_of_active hactive, writeOpen, bind_assoc, pure_bind,
    bind_pure]

/-- Moving to the next line, which is below by the leading. The leading is that of the current
state, which is read when the line is begun. -/
theorem run_performAll_nextLine :
    (performAll ctx call frame [.write .nextLine]).run m =
      (performAll ctx call frame
        [.write (.moveLine 0.0 (-m.stack.current.text.leading))]).run m := by
  have hnext : (nextLine frame.text).run m =
      (pure (frame.text.moveLine 0.0 (-m.stack.current.text.leading)) :
        Action σ TextObject).run m := by
    rw [nextLine, run_state_bind]
  simp only [performAll, perform, bind_pure]
  rw [write_of_active hactive, write_of_active hactive, run_bind, run_bind, writeOpen, writeOpen,
    hnext]

/-- Showing a string as an array. -/
theorem run_performAll_string (bytes : Bytes) :
    (performAll ctx call frame [.write (.write bytes)]).run m =
      (performAll ctx call frame [.write (.writeAdjusted [.string bytes])]).run m := by
  simp only [performAll, perform, bind_pure, write_of_active hactive, writeOpen, showItems_string]

end

end Action

/-! ### Operators -/

open Keyword in
/-- As long as a text object is open, the operators that write text **are made of one another**: of
the operators for their parts, or of the same operator for the parts of an array, or of a string in
a simple font. Either way the same glyphs are shown, and the machine and the text object are left
the same. -/
theorem text_laws (ctx : Context σ) (call : Bytes → Action σ Unit) {frame : Frame}
    (hactive : frame.text.active = true) (m : Machine σ) :
    (∀ (aw ac : Numeral) (s : Bytes),
      (Action.steps ctx call frame
          [nextLineShowSpaced.after [.number aw, .number ac, .string s]]).run m =
        (Action.steps ctx call frame [wordSpacing.afterNumbers [aw],
          charSpacing.afterNumbers [ac], nextLineShow.after [.string s]]).run m) ∧
    (∀ s : Bytes,
      (Action.steps ctx call frame [nextLineShow.after [.string s]]).run m =
        (Action.steps ctx call frame [nextLine.after [], showText.after [.string s]]).run m) ∧
    (∀ tx ty l : Numeral, l.value = -ty.value →
      (Action.steps ctx call frame [moveLineLeading.afterNumbers [tx, ty]]).run m =
        (Action.steps ctx call frame
          [leading.afterNumbers [l], moveLine.afterNumbers [tx, ty]]).run m) ∧
    (∀ zero l : Numeral, zero.value = 0.0 → l.value = -m.stack.current.text.leading →
      (Action.steps ctx call frame [nextLine.after []]).run m =
        (Action.steps ctx call frame [moveLine.afterNumbers [zero, l]]).run m) ∧
    (∀ s : Bytes,
      (Action.steps ctx call frame [showText.after [.string s]]).run m =
        (Action.steps ctx call frame [showAdjusted.after [.array [.string s]]]).run m) ∧
    (∀ xs ys : List Operand,
      (Action.steps ctx call frame [showAdjusted.after [.array (xs ++ ys)]]).run m =
        (Action.steps ctx call frame
          [showAdjusted.after [.array xs], showAdjusted.after [.array ys]]).run m) ∧
    ((∀ font, m.stack.current.text.font = some font → font.IsSimple) → ∀ s s' : Bytes,
      (Action.steps ctx call frame [showText.after [.string (s ++ s')]]).run m =
        (Action.steps ctx call frame
          [showText.after [.string s], showText.after [.string s']]).run m) := by
  refine ⟨fun aw ac s => ?_, fun s => ?_, fun tx ty l hl => ?_, fun zero l hzero hl => ?_,
    fun s => ?_, fun xs ys => ?_, fun hfont s s' => ?_⟩
  · exact Action.run_steps_eq_of_performAll_eq
      (Action.run_performAll_nextLineWriteSpaced hactive aw.value ac.value s)
      (.cons (asksFor_after rfl) .nil)
      (.cons (asksFor_after rfl) (.cons (asksFor_after rfl) (.cons (asksFor_after rfl) .nil)))
  · exact Action.run_steps_eq_of_performAll_eq (Action.run_performAll_write hactive rfl)
      (.cons (asksFor_after rfl) .nil) (.cons (asksFor_after rfl) (.cons (asksFor_after rfl) .nil))
  · refine Action.run_steps_eq_of_performAll_eq
      (Action.run_performAll_moveLineLeading hactive tx.value ty.value)
      (.cons (asksFor_after rfl) .nil) ?_
    rw [← hl]
    exact .cons (asksFor_after rfl) (.cons (asksFor_after rfl) .nil)
  · refine Action.run_steps_eq_of_performAll_eq (Action.run_performAll_nextLine hactive)
      (.cons (asksFor_after rfl) .nil) ?_
    rw [← hzero, ← hl]
    exact .cons (asksFor_after rfl) .nil
  · exact Action.run_steps_eq_of_performAll_eq (Action.run_performAll_string hactive s)
      (.cons (asksFor_after rfl) .nil) (.cons (asksFor_after rfl) .nil)
  · have hitems : (Action.writeOpen (.writeAdjusted (xs ++ ys)) frame.text).run m =
        (Action.writeOpen (.writeAdjusted xs) frame.text >>=
          Action.writeOpen (.writeAdjusted ys)).run m :=
      congrArg (Action.run · m) (Action.showItems_append xs ys frame.text)
    exact Action.run_steps_eq_of_performAll_eq (Action.run_performAll_write hactive hitems)
      (.cons (asksFor_after rfl) .nil) (.cons (asksFor_after rfl) (.cons (asksFor_after rfl) .nil))
  · have hstring : (Action.writeOpen (.write (s ++ s')) frame.text).run m =
        (Action.writeOpen (.write s) frame.text >>= Action.writeOpen (.write s')).run m :=
      Action.run_showText_append hfont s s' frame.text
    exact Action.run_steps_eq_of_performAll_eq (Action.run_performAll_write hactive hstring)
      (.cons (asksFor_after rfl) .nil) (.cons (asksFor_after rfl) (.cons (asksFor_after rfl) .nil))

namespace SpacedText

/-- A context **without resources**. -/
def ctx : Context Nat where
  library := Directory.library #[]
  surface := fun _ => none

/-- A simple font in which every glyph is **half as wide** as it is high. -/
def font : Font :=
  .simple 1 "F" 500.0 []

/-- A machine on which the font is selected and **the leading is set**. -/
def machine : Machine Nat where
  stack := ⟨{ text := { font := some font, size := 10.0, leading := 12.0 } }, []⟩
  scopes := [0]

/-- A frame with an **open** text object. -/
def frame : Frame where
  text := TextObject.opened Matrix.identity
  base := 1

/-- Whatever font is selected on the machine is the simple one. -/
theorem isSimple_font (f : Font) (h : machine.stack.current.text.font = some f) : f.IsSimple := by
  obtain rfl : font = f := Option.some.inj h
  exact ⟨_, _, _, _, rfl⟩

end SpacedText

open Keyword SpacedText in
/-- A line of text in a simple font, below a first one. The leading is set while moving there, and
the words are shown at once or one by one. -/
theorem text_laws_of_simple_font :
    let n : Float → Numeral := Numeral.ofValue
    frame.text.active = true ∧
    (n (-12.0)).value = -(n 12.0).value ∧
    (Action.steps ctx (Action.call ctx) frame
        [moveLineLeading.afterNumbers [n 0.0, n 12.0]]).run machine =
      (Action.steps ctx (Action.call ctx) frame
        [leading.afterNumbers [n (-12.0)], moveLine.afterNumbers [n 0.0, n 12.0]]).run machine ∧
    (n 0.0).value = 0.0 ∧ (n (-12.0)).value = -machine.stack.current.text.leading ∧
    (Action.steps ctx (Action.call ctx) frame [nextLine.after []]).run machine =
      (Action.steps ctx (Action.call ctx) frame
        [moveLine.afterNumbers [n 0.0, n (-12.0)]]).run machine ∧
    (∀ f, machine.stack.current.text.font = some f → f.IsSimple) ∧
    (Action.steps ctx (Action.call ctx) frame
        [showText.after [.string (Utf8.encode "two words")]]).run machine =
      (Action.steps ctx (Action.call ctx) frame
        [showText.after [.string (Utf8.encode "two ")],
          showText.after [.string (Utf8.encode "words")]]).run machine := by
  intro n
  have hactive : frame.text.active = true := rfl
  have hl : (n (-12.0)).value = -(n 12.0).value := by decide +kernel
  have hzero : (n 0.0).value = 0.0 := by decide +kernel
  have hleading : (n (-12.0)).value = -machine.stack.current.text.leading := by decide +kernel
  obtain ⟨-, -, hline, hnext, -, -, hsplit⟩ := text_laws ctx (Action.call ctx) hactive machine
  have hbytes : Utf8.encode "two words" = Utf8.encode "two " ++ Utf8.encode "words" := by
    decide +kernel
  rw [hbytes]
  exact ⟨hactive, hl, hline _ _ _ hl, hzero, hleading, hnext _ _ hzero hleading, isSimple_font,
    hsplit isSimple_font _ _⟩

end ContentStream
