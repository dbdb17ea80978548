import ContentStream.Proofs.Moments

/-!
# Nesting

The programs that start running when a content stream is executed, each with the forms and cells
that enclose it. Forms and cells are entered in different ways. A form is put on the list of forms
in execution, and passed over if it is on that list already; a cell is not, but has its tile
rendered at most once. Both put their own scope, if they have one, in front of the scopes in force,
and both call their content, which runs one level deeper if the limit allows.

Of a machine on which a program starts it can be said exactly what was done to it on the way there:
its depth is the number of enclosures, the forms in execution are those among the enclosures, and
the scopes in force are the root and theirs. Nothing is assumed of the library, which may lead from
form to form in circles or without end. The invariant is kept by one entry, since a program leaves
depth, forms and scopes as they are at each of its moments, and so it holds of every program that
starts.

That no other programs start is said by the calls that are asked for: an execution goes the same way
whatever comes of calls other than those at its own moments.

## Main definitions

* `Enclosure`: a form or a cell that encloses a program.
* `Starts`: the programs that start running, with their enclosures.
* `Machine.Nested`: what enclosures have made of a machine.

## Main results

* `Machine.Nested.enter`, `Machine.Nested.of_starts`: one more enclosure, and all of them.
* `arises_iff`: the moments of an execution are those of the programs that start.
* `Action.run_runContent_congr`: an execution asks for no calls but those at its moments.
* `starts_nested`: nesting is bounded, and scopes follow it.
-/

namespace ContentStream

variable {σ : Type}

/-! ### Enclosures -/

/-- An **enclosure** of a program: the form, or the cell of a pattern, that it is the content of. -/
inductive Enclosure (σ : Type) where
  | form (form : Form σ)
  | cell (tiling : Tiling σ) (tint : Option Tint)

namespace Enclosure

def content : Enclosure σ → Bytes
  | form f => f.content
  | cell tiling _ => tiling.content

/-- The **scope** that an enclosure declares, if it declares one. -/
def scope? : Enclosure σ → Option σ
  | form f => f.scope
  | cell tiling _ => tiling.scope

/-- The **form** in execution, if the enclosure is one. -/
def identity? : Enclosure σ → Option Nat
  | form f => some f.identity
  | cell _ _ => none

/-- The machine that the content is **called on**. -/
def enter (k : Machine σ) : Enclosure σ → Machine σ
  | form f => k.enterForm f
  | cell tiling tint => k.enterCell tiling tint

/-- An instruction **begins** an enclosure. -/
def Begins (ctx : Context σ) (k : Machine σ) (i : Instruction) : Enclosure σ → Prop
  | form f => BeginsForm ctx k i f
  | cell tiling tint => BeginsCell ctx k i tiling tint

variable {ctx : Context σ} {k : Machine σ} {i : Instruction}

/-- What begins is called. -/
theorem Begins.calls {e : Enclosure σ} (h : e.Begins ctx k i) :
    Calls ctx k i (e.enter k) e.content := by
  cases e with
  | form form => exact .form h
  | cell tiling tint => exact .cell h

/-- What is called is an enclosure that begins. -/
theorem exists_begins {n : Machine σ} {content : Bytes} (h : Calls ctx k i n content) :
    ∃ e : Enclosure σ, e.Begins ctx k i ∧ n = e.enter k ∧ content = e.content := by
  cases h with
  | @form form h => exact ⟨.form form, h, rfl, rfl⟩
  | @cell tiling tint h => exact ⟨.cell tiling tint, h, rfl, rfl⟩

/-- A form that begins is not in execution. -/
theorem Begins.not_mem {e : Enclosure σ} (h : e.Begins ctx k i) {id : Nat}
    (hid : e.identity? = some id) : id ∉ k.forms := by
  cases e with
  | form form =>
      cases hid
      exact BeginsForm.not_mem h
  | cell tiling tint => cases hid

/-- An enclosure puts its scope in front, if it declares one. -/
theorem scopes_enter (e : Enclosure σ) (k : Machine σ) :
    (e.enter k).scopes = e.scope?.toList ++ k.scopes := by
  cases e <;> rfl

/-- A form is in execution while it is run, and a cell is no form. -/
theorem forms_enter (e : Enclosure σ) (k : Machine σ) :
    (e.enter k).forms = e.identity?.toList ++ k.forms := by
  cases e <;> rfl

end Enclosure

/-! ### The programs that start -/

/-- The programs that **start running** when a content stream is executed on a machine: the stream
itself, and what is called at a moment of a program that has started, as far as the limit on nesting
allows. With each come its enclosures, the innermost first. -/
inductive Starts (ctx : Context σ) (m : Machine σ) (content : Bytes) :
    List (Enclosure σ) → Machine σ → Bytes → Prop
  | outermost : Starts ctx m content [] m content
  | enclosed {enclosing : List (Enclosure σ)} {n k : Machine σ} {content' : Bytes} {frame : Frame}
      {i : Instruction} {is : List Instruction} {e : Enclosure σ} :
      Starts ctx m content enclosing n content' → Passes ctx n content' ⟨k, frame, i :: is⟩ →
      e.Begins ctx k i → k.depth < ctx.config.maxDepth →
      Starts ctx m content (e :: enclosing) (e.enter k).deeper e.content

section

variable {ctx : Context σ} {m n k : Machine σ} {content content' : Bytes}
  {enclosing : List (Enclosure σ)} {frame : Frame} {i : Instruction} {is : List Instruction}

/-- What starts inside an enclosure starts in the program that begins it. -/
theorem Starts.inside {e : Enclosure σ} (hpasses : Passes ctx m content ⟨k, frame, i :: is⟩)
    (hbegins : e.Begins ctx k i) (hdepth : k.depth < ctx.config.maxDepth)
    (h : Starts ctx (e.enter k).deeper e.content enclosing n content') :
    Starts ctx m content (enclosing ++ [e]) n content' := by
  induction h with
  | outermost => exact .enclosed .outermost hpasses hbegins hdepth
  | enclosed _ hpasses' hbegins' hdepth' ih => exact .enclosed ih hpasses' hbegins' hdepth'

/-- The moments of an execution are the moments of **the programs that start**. Moments are counted
from the outside inwards, and enclosures from the inside outwards. -/
theorem arises_iff {a : Moment σ} :
    Arises ctx m content a ↔
      ∃ enclosing n content', Starts ctx m content enclosing n content' ∧
        Passes ctx n content' a := by
  constructor
  · intro h
    induction h with
    | own h => exact ⟨[], _, _, .outermost, h⟩
    | nested hpasses hcalls hdepth _ ih =>
        obtain ⟨enclosing, n, content', hstarts, ha⟩ := ih
        obtain ⟨e, hbegins, rfl, rfl⟩ := Enclosure.exists_begins hcalls
        exact ⟨enclosing ++ [e], n, content', hstarts.inside hpasses hbegins hdepth, ha⟩
  · rintro ⟨enclosing, n, content', hstarts, ha⟩
    -- From the innermost program outwards, so the moment is not fixed.
    induction hstarts generalizing a with
    | outermost => exact .own ha
    | enclosed _ hpasses hbegins hdepth ih =>
        exact .of_calls (ih hpasses) hbegins.calls hdepth (.own ha)

end

/-! ### What enclosures make of a machine -/

/-- A machine is **nested** in enclosures, given with the innermost first, below a root scope. The
scopes in force, which are kept in the same order, end with the root. -/
structure Machine.Nested (ctx : Context σ) (root : σ) (enclosing : List (Enclosure σ))
    (m : Machine σ) : Prop where
  depth_eq : m.depth = enclosing.length
  depth_le : m.depth ≤ ctx.config.maxDepth
  forms_eq : m.forms = enclosing.filterMap Enclosure.identity?
  nodup : m.forms.Nodup
  scopes_eq : m.scopes = enclosing.filterMap Enclosure.scope? ++ [root]

namespace Machine.Nested

variable {ctx : Context σ} {root : σ} {enclosing : List (Enclosure σ)} {m n : Machine σ}
  {content content' : Bytes}

/-- Each form in execution is an enclosure of its own. -/
theorem length_forms_le (h : m.Nested ctx root enclosing) : m.forms.length ≤ m.depth := by
  rw [h.forms_eq, h.depth_eq]
  exact List.length_filterMap_le _ _

/-- A fresh machine is nested in nothing. -/
theorem nil (hscopes : m.scopes = [root]) (hforms : m.forms = []) (hdepth : m.depth = 0) :
    m.Nested ctx root [] where
  depth_eq := hdepth
  depth_le := hdepth ▸ Nat.zero_le _
  forms_eq := hforms
  nodup := hforms ▸ List.nodup_nil
  scopes_eq := hscopes

/-- A program is nested in the same enclosures at all its moments, since what it has called by then
has been left again. -/
theorem passes {a : Moment σ} (h : n.Nested ctx root enclosing) (ha : Passes ctx n content a) :
    a.machine.Nested ctx root enclosing := by
  obtain ⟨t, hrun⟩ := ha.runs
  exact {
    depth_eq := hrun.depth_eq.trans h.depth_eq
    depth_le := hrun.depth_eq ▸ h.depth_le
    forms_eq := hrun.forms_eq.trans h.forms_eq
    nodup := hrun.forms_eq ▸ h.nodup
    scopes_eq := hrun.scopes_eq.trans h.scopes_eq }

/-- What is begun on a machine is nested in one enclosure more. The guard against forms in execution
is what keeps their list free of repetitions. -/
theorem enter {k : Machine σ} {i : Instruction} {e : Enclosure σ}
    (h : k.Nested ctx root enclosing) (hbegins : e.Begins ctx k i)
    (hdepth : k.depth < ctx.config.maxDepth) :
    (e.enter k).deeper.Nested ctx root (e :: enclosing) := by
  have hlevel : (e.enter k).deeper.depth = k.depth + 1 :=
    congrArg (· + 1) hbegins.calls.depth_eq
  have hforms : (e.enter k).deeper.forms = e.identity?.toList ++ k.forms := e.forms_enter k
  have hscopes : (e.enter k).deeper.scopes = e.scope?.toList ++ k.scopes := e.scopes_enter k
  refine ⟨?_, ?_, ?_, ?_, ?_⟩
  · rw [hlevel, h.depth_eq, List.length_cons]
  · omega
  · rw [hforms, h.forms_eq, List.filterMap_cons]
    cases e.identity? <;> rfl
  · rw [hforms]
    rcases hid : e.identity? with _ | id
    · exact h.nodup
    · exact List.nodup_cons.mpr ⟨hbegins.not_mem hid, h.nodup⟩
  · rw [hscopes, h.scopes_eq, List.filterMap_cons]
    cases e.scope? <;> rfl

/-- A program that starts is nested in its enclosures. -/
theorem of_starts (h : m.Nested ctx root []) (hstarts : Starts ctx m content enclosing n content') :
    n.Nested ctx root enclosing := by
  induction hstarts with
  | outermost => exact h
  | enclosed _ hpasses hbegins hdepth ih => exact (ih.passes hpasses).enter hbegins hdepth

end Machine.Nested

/-! ### The calls of an execution -/

namespace Action

variable {ctx : Context σ} {call' : Bytes → Action σ Unit}

/-- An instruction asks for no call but that of an enclosure that it begins. The machine for which
it asks is the one that the enclosure is entered on. -/
theorem run_step_congr_of_begins {k : Machine σ} {i : Instruction}
    (h : ∀ e : Enclosure σ, e.Begins ctx k i →
      (call' e.content).run (e.enter k) = (Action.call ctx e.content).run (e.enter k))
    (frame : Frame) :
    (step ctx call' frame i).run k = (step ctx (Action.call ctx) frame i).run k := by
  cases i with
  | operate op operands =>
      simp only [step, run_bind, run_ofExcept]
      rcases hdecode : Command.decode op operands with fault | command
      · rfl
      · have hperform : (perform ctx call' frame command).run k =
            (perform ctx (Action.call ctx) frame command).run k := by
          refine run_perform_congr ?_ ?_
          · rintro name form rfl hfind hid
            exact h (.form form) ⟨⟨op, operands, name, rfl, hdecode, hfind⟩, hid⟩
          · rintro side spelling args tiling tint rfl hselect hmiss
            exact h (.cell tiling tint)
              ⟨⟨op, operands, side, spelling, args, rfl, hdecode, hselect⟩, hmiss⟩
        simp only [hperform]
  | _ => rfl

variable {m : Machine σ} {content : Bytes}

/-- An execution asks for no calls but those at its own moments. The induction is on the
instructions that are left, at a moment that is reached. -/
theorem run_runContent_congr
    (h : ∀ k frame i is (e : Enclosure σ), Passes ctx m content ⟨k, frame, i :: is⟩ →
      e.Begins ctx k i →
        (call' e.content).run (e.enter k) = (Action.call ctx e.content).run (e.enter k)) :
    (runContent ctx call' content).run m = (execute ctx content).run m := by
  have hsteps (is : List Instruction) : ∀ k frame, Passes ctx m content ⟨k, frame, is⟩ →
      (steps ctx call' frame is).run k = (steps ctx (Action.call ctx) frame is).run k := by
    induction is with
    | nil => exact fun _ _ _ => rfl
    | cons i is ih =>
        intro k frame hpasses
        have hstep := run_step_congr_of_begins (fun e => h k frame i is e hpasses) frame
        simp only [steps, run_bind, hstep]
        rcases hrun : (step ctx (Action.call ctx) frame i).run k with ⟨fault | frame', k', t⟩
        · rfl
        · simp only [ih k' frame' (hpasses.next hrun)]
  rw [execute, run_runContent, run_runContent]
  rcases hp : ctx.program? m.scopes content with fault | p
  · rfl
  · simp only [hsteps p.instructions m _ (.start hp)]

/-- A call executes its content one level deeper, and gives the level back, as an execution leaves
the depth as it was. -/
theorem run_call_of_lt {k : Machine σ} (h : k.depth < ctx.config.maxDepth) :
    (Action.call ctx content).run k =
      let o := (execute ctx content).run k.deeper
      ⟨o.result, { o.machine with depth := k.depth }, o.trace⟩ := by
  have hkeeps : Keeps ctx 0 anything (execute ctx content) := keeps_execute 0 content
  have hrun := hkeeps.runs (m := k.deeper) (Nat.zero_le _)
  have hdepth : ((execute ctx content).run k.deeper).machine.depth - 1 = k.depth := by
    rw [hrun.depth_eq]
    rfl
  rw [run_call, if_pos h, run_deeper, show { k with depth := k.depth + 1 } = k.deeper from rfl]
  simp only [hdepth]

end Action

/-- **Nesting is bounded, and scopes follow it.** A program that starts running, when a content
stream is executed on a fresh machine or when a page is rendered, is as deep as it has enclosures,
and that is no deeper than the limit. The forms in execution are those among its enclosures, none of
them twice, and so no more than the depth says. The scopes in force are those that the enclosures
declare, from the innermost to the outermost, and the root behind them.

These are all the programs that start. An execution goes the same way whatever comes of calls other
than those of what begins at its own moments; and such a call executes its content one level deeper,
or fails at the limit and leaves the machine alone. -/
theorem starts_nested (ctx : Context σ) :
    (∀ root finished content enclosing n content',
      Starts ctx { scopes := [root], finished } content enclosing n content' →
        n.Nested ctx root enclosing ∧ n.forms.length ≤ n.depth) ∧
    (∀ (m : Machine σ) (page : Page σ) enclosing n content',
      Starts ctx (m.turnTo page) page.content enclosing n content' →
        n.Nested ctx page.scope enclosing ∧ n.forms.length ≤ n.depth) ∧
    (∀ (m : Machine σ) content call',
      (∀ k frame i is (e : Enclosure σ), Passes ctx m content ⟨k, frame, i :: is⟩ →
        e.Begins ctx k i →
          (call' e.content).run (e.enter k) = (Action.call ctx e.content).run (e.enter k)) →
        (Action.runContent ctx call' content).run m = (Action.execute ctx content).run m) ∧
    ∀ content (k : Machine σ), (Action.call ctx content).run k =
      if k.depth < ctx.config.maxDepth then
        let o := (Action.execute ctx content).run k.deeper
        ⟨o.result, { o.machine with depth := k.depth }, o.trace⟩
      else
        ⟨.error (.nestingTooDeep ctx.config.maxDepth), k, []⟩ := by
  refine ⟨fun root finished content enclosing n content' h => ?_,
    fun m page enclosing n content' h => ?_,
    fun m content call' h => Action.run_runContent_congr h, fun content k => ?_⟩
  · have hnested := (Machine.Nested.nil rfl rfl rfl).of_starts h
    exact ⟨hnested, hnested.length_forms_le⟩
  · have hnested := (Machine.Nested.nil rfl rfl rfl).of_starts h
    exact ⟨hnested, hnested.length_forms_le⟩
  · by_cases hdepth : k.depth < ctx.config.maxDepth
    · rw [if_pos hdepth]
      exact Action.run_call_of_lt hdepth
    · rw [if_neg hdepth, Action.run_call, if_neg hdepth]

namespace EndlessForms

/-- A stream that **invokes a form** and does nothing else. -/
def content : Bytes :=
  Utf8.encode "/F Do"

/-- The form that **a scope knows**. It has the next scope for its own, which knows another form. -/
def form (scope : Nat) : Form Nat where
  identity := scope
  bbox := ⟨0.0, 0.0, 1.0, 1.0⟩
  matrix := Matrix.identity
  content := content
  scope := some (scope + 1)

/-- A context with forms **without end**, and some limit on nesting. -/
def ctx (maxDepth : Nat) : Context Nat where
  library :=
    { label := fun _ => ""
      font := fun _ _ => none
      xobject := fun scope _ => some (.form (form scope))
      pattern := fun _ _ => none
      shading := fun _ _ => none
      extGState := fun _ _ => none
      colorSpace := fun _ _ => none
      decodeStream := fun _ raw => .ok raw
      decodeInlineImage := fun _ => Image.ofDict }
  config := { maxDepth }
  surface := fun _ => none

/-- A **page** that invokes the first of them. -/
def page : Page Nat where
  mediaBox := ⟨0.0, 0.0, 1.0, 1.0⟩
  content := content
  scope := 0

/-- The forms down to some depth, **innermost first**. -/
def enclosing : Nat → List (Enclosure Nat)
  | 0 => []
  | depth + 1 => .form (form depth) :: enclosing depth

/-- The innermost scope is numbered by the depth, as each form declares the next one. -/
theorem exists_scopes_eq (depth : Nat) :
    ∃ rest, (enclosing depth).filterMap Enclosure.scope? ++ [0] = depth :: rest := by
  cases depth <;> exact ⟨_, rfl⟩

/-- The forms are numbered by the depth at which they begin. -/
theorem lt_of_mem_filterMap {depth id : Nat}
    (h : id ∈ (enclosing depth).filterMap Enclosure.identity?) : id < depth := by
  induction depth with
  | zero => cases h
  | succ depth ih =>
      rcases List.mem_cons.mp h with rfl | h
      · exact Nat.lt_succ_self _
      · exact Nat.lt_succ_of_lt (ih h)

/-- There are as many enclosures as the depth says. -/
theorem length_enclosing (depth : Nat) : (enclosing depth).length = depth := by
  induction depth with
  | zero => rfl
  | succ depth ih => rw [enclosing, List.length_cons, ih]

/-- The content is a program that begins by invoking a form, under any limit. -/
theorem invokesFirst_content (maxDepth : Nat) (scopes : List Nat) :
    ((ctx maxDepth).program? scopes content).toOption.any (Program.invokesFirst "F") = true := by
  have hfirst : ((ctx 0).program? [] content).toOption.any (Program.invokesFirst "F") = true := by
    decide +kernel
  cases scopes <;> exact hfirst

/-- Programs start as deep as the limit allows, by induction on the depth. At each depth the
innermost scope knows one more form, and that is not in execution yet. -/
theorem exists_starts {maxDepth depth : Nat} {m : Machine Nat}
    (hm : m.Nested (ctx maxDepth) 0 []) (h : depth ≤ maxDepth) :
    ∃ n, Starts (ctx maxDepth) m content (enclosing depth) n content := by
  induction depth with
  | zero => exact ⟨m, .outermost⟩
  | succ depth ih =>
      obtain ⟨n, hstarts⟩ := ih (Nat.le_of_succ_le h)
      have hnested := hm.of_starts hstarts
      obtain ⟨rest, hrest⟩ := exists_scopes_eq depth
      have hscopes : n.scopes = depth :: rest := hnested.scopes_eq.trans hrest
      have hfind : (ctx maxDepth).library.findXObject n.scopes "F" = .ok (.form (form depth)) := by
        rw [hscopes]
        rfl
      have hid : (form depth).identity ∉ n.forms := by
        rw [hnested.forms_eq]
        exact fun hmem => Nat.lt_irrefl _ (lt_of_mem_filterMap hmem)
      have hdepth : n.depth < maxDepth := by
        rw [hnested.depth_eq, length_enclosing]
        exact h
      obtain ⟨frame, i, is, hpasses, hbegins⟩ :=
        Passes.exists_beginsForm (invokesFirst_content maxDepth n.scopes) hfind hid
      exact ⟨_, .enclosed hstarts hpasses hbegins hdepth⟩

/-- All that is begun has the same content. There are no patterns in any scope, so that it can only
be a form. -/
theorem content_eq_of_begins {maxDepth : Nat} {k : Machine Nat} {i : Instruction}
    {e : Enclosure Nat} (h : e.Begins (ctx maxDepth) k i) : e.content = content := by
  cases e with
  | form f =>
      obtain ⟨⟨op, operands, name, -, -, hfind⟩, -⟩ := h
      rcases hscopes : k.scopes with _ | ⟨scope, scopes⟩
      · rw [hscopes] at hfind
        cases hfind
      · rw [hscopes] at hfind
        cases hfind
        rfl
  | cell tiling tint =>
      obtain ⟨⟨op, operands, side, spelling, args, -, -, hselect⟩, -⟩ := h
      have hpattern (name : String) : (ctx maxDepth).library.findPattern k.scopes name =
          .error (.missingResource .pattern name) := by
        have hnone : (k.scopes.findSome? fun scope =>
            (ctx maxDepth).library.pattern scope name) = none :=
          List.findSome?_eq_none_iff.mpr fun _ _ => rfl
        simp only [Library.findPattern, Library.find, hnone]
      unfold Library.select at hselect
      split at hselect
      · cases hname : (Take.name spelling).run args <;>
          simp [hname, hpattern, Except.bind] at hselect
      · generalize (Take.numbers spelling _).run' args = color at hselect
        cases color <;> simp [Except.map] at hselect

end EndlessForms

open EndlessForms in
/-- With forms without end, of which each leads to the next, the limit is reached. No content is
ever called but the one that all of them have. -/
theorem starts_nested_of_endless :
    (∃ n, Starts (ctx 3) { scopes := [0] } content (enclosing 3) n content ∧
      n.depth = 3 ∧ n.forms = [2, 1, 0] ∧ n.scopes = [3, 2, 1, 0]) ∧
    (∃ n, Starts (ctx 3) (Machine.turnTo { scopes := [] } page) page.content (enclosing 2) n
      content ∧ n.depth = 2 ∧ n.forms = [1, 0] ∧ n.scopes = [2, 1, 0]) ∧
    (Action.runContent (ctx 3) (fun _ => Action.call (ctx 3) content) content).run
      { scopes := [0] } = (Action.execute (ctx 3) content).run { scopes := [0] } := by
  obtain ⟨hfresh, hpage, hcalls, -⟩ := starts_nested (ctx 3)
  obtain ⟨n, hn⟩ := exists_starts (m := { scopes := [0] }) (.nil rfl rfl rfl)
    (Nat.le_refl 3)
  obtain ⟨n', hn'⟩ := exists_starts (m := Machine.turnTo { scopes := [] } page)
    (.nil rfl rfl rfl) (show 2 ≤ 3 by decide)
  obtain ⟨hnested, -⟩ := hfresh 0 0 content _ n content hn
  obtain ⟨hnested', -⟩ := hpage { scopes := [] } page _ n' content hn'
  exact ⟨⟨n, hn, hnested.depth_eq, hnested.forms_eq, hnested.scopes_eq⟩,
    ⟨n', hn', hnested'.depth_eq, hnested'.forms_eq, hnested'.scopes_eq⟩,
    hcalls _ _ _ fun k frame i is e _ hbegins => by rw [content_eq_of_begins hbegins]⟩

end ContentStream
