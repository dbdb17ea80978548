import ContentStream.Proofs.Likeness

/-!
# Indifference to forms

A program that invokes forms does not depend on what is in them. Whether a form draws something,
ends in a fault, is nested too deeply, or is not even a content stream that can be decoded: the
program that invokes it goes on in the same way, and so does the page as a whole. It ends in the
same fault, if in any, and in the same graphics states.

Tiles are the exception, for a tile shows what the forms in its cell have drawn. As part of a paint
it is compared after it has been erased; the tint that goes with it is not erased.

## Main definitions

* `GStack.erased`: a stack without the tiles in its paints.
* `Library.AlikeButForms`: libraries that differ in nothing but forms.

## Main results

* `Action.exists_run_runForm`, `Action.exists_run_tile`: forms and cells do not fail, and leave
  nothing but tiles.
* `renderPage_indifferent`: a page does not depend on what is in the forms that it invokes.
-/

namespace ContentStream

variable {σ : Type}

/-! ### Erasing tiles -/

/-- A **tile with nothing to it**. -/
def Tile.blank : Tile where
  pattern := 0
  bbox := ⟨0.0, 0.0, 0.0, 0.0⟩
  xStep := 0.0
  yStep := 0.0
  matrix := Matrix.identity
  surface := none

/-- A paint with its **tile erased**, if it has one. -/
def Paint.erased : Paint → Paint
  | .tiling _ tint => .tiling Tile.blank tint
  | paint => paint

/-- An ink with its **tile erased**. -/
def Ink.erased (i : Ink) : Ink :=
  { i with paint := i.paint.erased }

/-- A state with the **tiles of both inks erased**. -/
def GState.erased (gs : GState) : GState :=
  { gs with fill := gs.fill.erased, stroke := gs.stroke.erased }

/-- A stack with **all tiles erased**. -/
def GStack.erased (s : GStack) : GStack :=
  ⟨s.current.erased, s.saved.map GState.erased⟩

/-! ### Libraries -/

/-- External objects that are **the same image**, or forms of whatever kind. -/
inductive XObject.AlikeButForms : XObject σ → XObject σ → Prop
  | image (image : Image) : AlikeButForms (.image image) (.image image)
  | form (form form' : Form σ) : AlikeButForms (.form form) (.form form')

/-- Libraries that **differ in nothing but forms**. They know the same names, and for a form either
has one. How they report scopes does not matter. -/
structure Library.AlikeButForms (lib lib' : Library σ) : Prop where
  font : lib.font = lib'.font
  xobject : ∀ scope name,
    Option.Rel XObject.AlikeButForms (lib.xobject scope name) (lib'.xobject scope name)
  pattern : lib.pattern = lib'.pattern
  shading : lib.shading = lib'.shading
  extGState : lib.extGState = lib'.extGState
  colorSpace : lib.colorSpace = lib'.colorSpace
  decodeStream : lib.decodeStream = lib'.decodeStream
  decodeInlineImage : lib.decodeInlineImage = lib'.decodeInlineImage

namespace Library.AlikeButForms

variable {lib lib' : Library σ} (h : lib.AlikeButForms lib') (scopes : List σ)

include h

/-- Names of external objects mean alike objects, or nothing in either library. The innermost scope
that knows the name is the same in both. -/
theorem findXObject (name : String) :
    (∃ fault, lib.findXObject scopes name = .error fault ∧
      lib'.findXObject scopes name = .error fault) ∨
    ∃ x x', lib.findXObject scopes name = .ok x ∧ lib'.findXObject scopes name = .ok x' ∧
      x.AlikeButForms x' := by
  have hrel : Option.Rel XObject.AlikeButForms
      (scopes.findSome? fun scope => lib.xobject scope name)
      (scopes.findSome? fun scope => lib'.xobject scope name) := by
    induction scopes with
    | nil => exact .none
    | cons scope scopes ih =>
        have hscope := h.xobject scope name
        simp only [List.findSome?_cons]
        generalize lib.xobject scope name = x, lib'.xobject scope name = x' at hscope
        cases hscope with
        | some hx => exact .some hx
        | none => exact ih
  simp only [Library.findXObject, find]
  generalize (scopes.findSome? fun scope => lib.xobject scope name) = x,
    (scopes.findSome? fun scope => lib'.xobject scope name) = x' at hrel
  cases hrel with
  | none => exact .inl ⟨_, rfl, rfl⟩
  | some hx => exact .inr ⟨_, _, rfl, rfl, hx⟩

/-- Colors are selected alike, as patterns are no forms. -/
theorem select (op : String) (space : ColorSpace) (operands : List Operand) :
    lib.select scopes op space operands = lib'.select scopes op space operands := by
  simp only [Library.select, findPattern, h.pattern]

/-- So are color spaces. -/
theorem spaceOf (name : String) : lib.spaceOf scopes name = lib'.spaceOf scopes name := by
  simp only [Library.spaceOf, findColorSpace, h.colorSpace]

/-- So is what decodes a content stream. -/
theorem decode (raw : Bytes) : lib.decode scopes raw = lib'.decode scopes raw := by
  simp only [Library.decode, h.decodeStream]

/-- So is what decodes an inline image. -/
theorem inlineImage (dict : Dict) (data : Bytes) :
    lib.inlineImage scopes dict data = lib'.inlineImage scopes dict data := by
  simp only [Library.inlineImage, h.decodeInlineImage]

end Library.AlikeButForms

/-! ### Runs that are compared -/

/-- The laws hold of states that are compared after erasing, with nothing asked of traces. -/
theorem laws_erasure :
    Likeness.Laws (fun i i' => i.erased = i'.erased) Eq fun _ _ => True where
  ink_shading _ _ _ := rfl
  point_none := rfl
  trace_nil := trivial
  trace_append _ _ := trivial
  trace_event _ := trivial

/-- Runs are compared by their **states after erasing**, and not by what is seen of them. -/
def erasure (σ : Type) : Likeness σ where
  ink i i' := i.erased = i'.erased
  point := Eq
  saved := List.Forall₂ (GState.Like (fun i i' => i.erased = i'.erased) Eq)
  rest m m' := m.scopes = m'.scopes ∧ m.pageBounds = m'.pageBounds
  trace _ _ := True
  laws := laws_erasure
  rest_stack _ _ h := h
  pageBounds_eq h := h.2

/-- All states on the stack are compared in the same way, and their points are the same. -/
theorem even_erasure : (erasure σ).Even :=
  ⟨rfl, rfl⟩

/-- States that are alike are equal when erased. -/
theorem GState.erased_eq {gs gs' : GState} (h : (erasure σ).Like gs gs') :
    gs.erased = gs'.erased := by
  have hfill : gs.fill.erased = gs'.fill.erased := h.fill
  have hstroke : gs.stroke.erased = gs'.stroke.erased := h.stroke
  have hpoint : gs.point = gs'.point := h.point
  rw [GState.erased, GState.erased, ← h.others, hfill, hstroke, hpoint]

/-- Machines that are alike have stacks that are equal when erased. -/
theorem Likeness.Holds.erased_eq {m m' : Machine σ} (h : (erasure σ).Holds m m') :
    m.stack.erased = m'.stack.erased := by
  have hsaved : List.Forall₂ (erasure σ).Like m.stack.saved m'.stack.saved := h.saved
  have hmap : m.stack.saved.map GState.erased = m'.stack.saved.map GState.erased := by
    generalize m.stack.saved = saved, m'.stack.saved = saved' at hsaved
    induction hsaved with
    | nil => rfl
    | cons hgs _ ih => rw [List.map_cons, List.map_cons, GState.erased_eq hgs, ih]
  rw [GStack.erased, GStack.erased, GState.erased_eq h.current, hmap]

/-- Machines stay alike whatever happens to their tiles. The next two facts rest on this: all that a
nested program leaves are tiles. -/
theorem Likeness.Holds.forgetTiles {m m' : Machine σ} (h : (erasure σ).Holds m m')
    (tiles tiles' : List (TileKey × Tile)) (n n' : Nat) :
    (erasure σ).Holds { m with tiles := tiles, finished := n }
      { m' with tiles := tiles', finished := n' } :=
  ⟨h.current, h.saved, h.rest⟩

namespace Action

section Returning

variable {ctx : Context σ} {call : Bytes → Action σ Unit}
  (hcall : ∀ floor content, Keeps ctx floor anything (call content))

include hcall

/-- A form does not fail, and leaves nothing but tiles. -/
theorem exists_run_runForm (form : Form σ) (m : Machine σ) :
    ∃ tiles n t, (runForm call form).run m =
      ⟨.ok (), { m with tiles := tiles, finished := n }, t⟩ := by
  by_cases hid : form.identity ∈ m.forms
  · exact ⟨m.tiles, m.finished, [], run_runForm_of_mem m hid⟩
  · exact ⟨_, _, _, run_runForm_eq hcall hid⟩

/-- A cell does not fail either. -/
theorem exists_run_tile (tiling : Tiling σ) (tint : Option Tint) (m : Machine σ) :
    ∃ answer tiles n t, (tile ctx call tiling tint).run m =
      ⟨.ok answer, { m with tiles := tiles, finished := n }, t⟩ := by
  rcases hkey : m.tiles.lookup (ctx.config.tileSharing.key tiling tint) with _ | tile
  · exact ⟨_, _, _, _, run_tile_eq hcall hkey⟩
  · exact ⟨tile, m.tiles, m.finished, _, run_tile_of_some m hkey⟩

end Returning

section Comparing

variable {ctx ctx' : Context σ} (hlib : ctx.library.AlikeButForms ctx'.library)
  {m m' : Machine σ} (h : (erasure σ).Holds m m')

include hlib h

/-- Forms go alike, whatever is in them: they cannot be told apart by their callers. What each of
them leaves are tiles, and these do not count. -/
theorem same_invoke (name : String) :
    (erasure σ).Same ((invoke ctx (call ctx) name).run m)
      ((invoke ctx' (call ctx') name).run m') := by
  have hscopes : m.scopes = m'.scopes := h.rest.1
  rw [run_invoke, run_invoke, ← hscopes]
  obtain ⟨fault, hx, hx'⟩ | ⟨x, x', hx, hx', hlike⟩ := hlib.findXObject m.scopes name
  · rw [hx, hx']
    exact same_fail h fault
  · rw [hx, hx']
    cases hlike with
    | image image => exact same_drawImage h image
    | form form form' =>
        obtain ⟨tiles, n, t, hrun⟩ := exists_run_runForm (@keeps_call σ ctx) form m
        obtain ⟨tiles', n', t', hrun'⟩ := exists_run_runForm (@keeps_call σ ctx') form' m'
        simp only [hrun, hrun']
        exact .ok trivial ⟨rfl, h.forgetTiles tiles tiles' n n'⟩

/-- Colors go alike: of a pattern the tile alone may differ, and that is erased. Neither run can
fail after the color has been selected. -/
theorem same_selectColor (side : Side) (op : String) (operands : List Operand) :
    (erasure σ).Same ((selectColor ctx (call ctx) side op operands).run m)
      ((selectColor ctx' (call ctx') side op operands).run m') := by
  have hscopes : m.scopes = m'.scopes := h.rest.1
  have hink : (m.stack.current.ink side).erased = (m'.stack.current.ink side).erased :=
    h.current.ink_side side
  have hspace : (m.stack.current.ink side).space = (m'.stack.current.ink side).space :=
    (congrArg Ink.space hink :)
  rw [run_selectColor, run_selectColor, ← hscopes, ← hspace, hlib.select]
  cases ctx'.library.select m.scopes op (m.stack.current.ink side).space operands with
  | error fault => exact same_fail h fault
  | ok selection =>
      cases selection with
      | paint paint => exact same_modifyState h (h.current.setInk side rfl)
      | tiling tiling tint =>
          obtain ⟨answer, tiles, n, t, hrun⟩ :=
            exists_run_tile (@keeps_call σ ctx) tiling tint m
          obtain ⟨answer', tiles', n', t', hrun'⟩ :=
            exists_run_tile (@keeps_call σ ctx') tiling tint m'
          -- One run may find the tile that the other renders: both are blank once erased.
          have hsame : (erasure σ).ink
              ⟨.tiling answer (tint.map Tint.color), (m.stack.current.ink side).space⟩
              ⟨.tiling answer' (tint.map Tint.color), (m.stack.current.ink side).space⟩ := rfl
          simp only [run_bind, hrun, hrun']
          exact (same_modifyState (h.forgetTiles tiles tiles' n n')
            (h.current.setInk side hsame)).after trivial

end Comparing

/-- Every command finds the same, for none but those that invoke something look for forms. There is
a case for each kind of resource. -/
theorem agrees_erasure {ctx ctx' : Context σ} (hlib : ctx.library.AlikeButForms ctx'.library)
    (command : Command) : command.Agrees (erasure σ) ctx ctx' := by
  cases command with
  | font name size =>
      rintro m m' ⟨hscopes, -⟩
      rw [Library.findFont, Library.findFont, hlib.font, hscopes]
  | extGState name =>
      rintro m m' ⟨hscopes, -⟩
      refine ⟨by rw [Library.findExtGState, Library.findExtGState, hlib.extGState, hscopes], ?_⟩
      rintro dict - name size - n n' ⟨hscopes, -⟩
      rw [Library.findFont, Library.findFont, hlib.font, hscopes]
  | space side name =>
      rintro m m' ⟨hscopes, -⟩
      exact ⟨by rw [hlib.spaceOf, hscopes], fun _ _ => rfl⟩
  | device side model color => rfl
  | shade name =>
      rintro m m' ⟨hscopes, -⟩
      rw [Library.findShading, Library.findShading, hlib.shading, hscopes]
  | _ => trivial

/-- A content stream goes alike with libraries that differ in forms alone. It is the same program,
and each of its instructions goes alike. -/
theorem same_execute {ctx ctx' : Context σ} (hlib : ctx.library.AlikeButForms ctx'.library)
    (hconfig : ctx.config = ctx'.config) {m m' : Machine σ} (h : (erasure σ).Holds m m')
    (content : Bytes) :
    (erasure σ).Same ((execute ctx content).run m) ((execute ctx' content).run m') := by
  have hscopes : m.scopes = m'.scopes := h.rest.1
  have hsaved : List.Forall₂ (erasure σ).Like m.stack.saved m'.stack.saved := h.saved
  have hdepth : m.stack.depth = m'.stack.depth := congrArg (· + 1) hsaved.length_eq
  have hprogram : ctx.program? m.scopes content = ctx'.program? m'.scopes content := by
    rw [Context.program?, Context.program?, hlib.decode, hconfig, hscopes]
  have hok : Outcome.Alike (erasure σ).trace (erasure σ).Holds
      (fun _ _ n n' => (erasure σ).Holds n n')
      ((runContent ctx (call ctx) content).run m)
      ((runContent ctx' (call ctx') content).run m') := by
    refine alike_runContent h hprogram hdepth fun p _ => ?_
    refine (same_steps (fun i _ frame n n' hn => ?_) h _).mono (fun _ _ h => h) (fun _ _ h => h)
      fun _ _ _ _ h => h.2
    have hscopes : n.scopes = n'.scopes := hn.rest.1
    refine same_step hn (fun op operands command _ _ => ?_) fun dict data _ => ?_
    · exact same_perform_of_even even_erasure hn (agrees_erasure hlib command) frame
        (fun side op operands _ => same_selectColor hlib hn side op operands)
        fun name _ => same_invoke hlib hn name
    · refine same_drawInlineImage hn ?_ trivial
      rw [hlib.inlineImage, hscopes]
  exact hok.mono (fun _ _ h => h) (fun _ _ h => h) fun _ _ _ _ h => ⟨rfl, h⟩

end Action

/-- **Pages are indifferent to forms.** Two libraries that differ in nothing but their forms lead to
the same result of a page, and to the same stack once the tiles in its paints are erased; it does
not matter either what the machines were used for before, or what surfaces the tiles get. In
particular no fault that arises in a form or in a cell is passed on to the program that runs it:
whatever its content, and wherever it is run, it gives a result. -/
theorem renderPage_indifferent (ctx ctx' : Context σ)
    (hlib : ctx.library.AlikeButForms ctx'.library) (hconfig : ctx.config = ctx'.config)
    (page : Page σ) (m m' : Machine σ) :
    let o := (Action.renderPage ctx page).run m
    let o' := (Action.renderPage ctx' page).run m'
    o.result = o'.result ∧ o.machine.stack.erased = o'.machine.stack.erased ∧
    (∀ form n, ((Action.runForm (Action.call ctx) form).run n).result = .ok ()) ∧
    ∀ tiling tint n, ∃ tile,
      ((Action.tile ctx (Action.call ctx) tiling tint).run n).result = .ok tile := by
  intro o o'
  have hpage : (erasure σ).Holds (m.turnTo page) (m'.turnTo page) :=
    ⟨⟨rfl, rfl, rfl, rfl⟩, .nil, rfl, rfl⟩
  have hrun := Action.same_execute hlib hconfig hpage page.content
  have ho : o = _ := Action.run_renderPage ctx page m
  have ho' : o' = _ := Action.run_renderPage ctx' page m'
  have hsame : o.result = o'.result ∧ o.machine.stack.erased = o'.machine.stack.erased := by
    rw [ho, ho']
    generalize (Action.execute ctx page.content).run (m.turnTo page) = x at hrun
    generalize (Action.execute ctx' page.content).run (m'.turnTo page) = x' at hrun
    cases hrun with
    | ok _ h => exact ⟨by rw [h.1], h.2.erased_eq⟩
    | error fault _ h => exact ⟨rfl, h.erased_eq⟩
  refine ⟨hsame.1, hsame.2, fun form n => ?_, fun tiling tint n => ?_⟩
  · obtain ⟨tiles, k, t, hform⟩ := Action.exists_run_runForm (@Action.keeps_call σ ctx) form n
    rw [hform]
  · obtain ⟨tile, tiles, k, t, htile⟩ :=
      Action.exists_run_tile (@Action.keeps_call σ ctx) tiling tint n
    exact ⟨tile, by rw [htile]⟩

/-! ### A form that is broken -/

namespace BrokenForm

/-- A directory with a single **form**. -/
def directory (content : Bytes) : Directory :=
  #[{ xobjects := [("F", .form {
      identity := 1
      bbox := ⟨0.0, 0.0, 10.0, 10.0⟩
      matrix := Matrix.identity
      content
      scope := none })] }]

/-- A context in which the form has the **given content**. -/
def ctx (content : String) : Context Nat where
  library := (directory (Utf8.encode content)).library
  surface := some

/-- A page that **invokes** the form and goes on. -/
def page : Page Nat where
  mediaBox := ⟨0.0, 0.0, 10.0, 10.0⟩
  content := Utf8.encode "/F Do q"
  scope := 0

/-- Whatever the form's content is, the directories differ in nothing else. They know the form by
the same name, and nothing besides. -/
theorem alikeButForms (content content' : String) :
    (ctx content).library.AlikeButForms (ctx content').library where
  font := by funext scope name; cases scope <;> rfl
  xobject scope name := by
    cases scope with
    | zero =>
        by_cases hname : name = "F"
        · subst hname
          exact .some (.form _ _)
        · have hnone (content : Bytes) : (directory content).library.xobject 0 name = none := by
            simp [Directory.library, Directory.entry?, directory, Ne.symm hname]
          rw [ctx, ctx, hnone, hnone]
          exact .none
    | succ n => exact .none
  pattern := by funext scope name; cases scope <;> rfl
  shading := by funext scope name; cases scope <;> rfl
  extGState := by funext scope name; cases scope <;> rfl
  colorSpace := by funext scope name; cases scope <;> rfl
  decodeStream := by funext scope raw; cases scope <;> rfl
  decodeInlineImage := by funext scope dict data; cases scope <;> rfl

end BrokenForm

/-- A page whose form restores a state it has not saved ends like one whose form draws. The fault of
the form stays in it. -/
theorem renderPage_indifferent_of_underflow :
    (BrokenForm.ctx "Q").library.AlikeButForms (BrokenForm.ctx "0 0 1 1 re f").library ∧
    (BrokenForm.ctx "Q").config = (BrokenForm.ctx "0 0 1 1 re f").config ∧
    let o := (Action.renderPage (BrokenForm.ctx "Q") BrokenForm.page).run { scopes := [] }
    let o' := (Action.renderPage (BrokenForm.ctx "0 0 1 1 re f") BrokenForm.page).run
      { scopes := [] }
    o.result = o'.result ∧ o.machine.stack.erased = o'.machine.stack.erased := by
  have hlib := BrokenForm.alikeButForms "Q" "0 0 1 1 re f"
  obtain ⟨hresult, hstack, -⟩ := renderPage_indifferent _ _ hlib rfl BrokenForm.page
    { scopes := [] } { scopes := [] }
  exact ⟨hlib, rfl, hresult, hstack⟩

end ContentStream
