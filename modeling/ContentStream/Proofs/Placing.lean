import ContentStream.Page
import ContentStream.Proofs.Exact
import ContentStream.Proofs.Moments
import Mathlib.Tactic.IntervalCases

/-!
# Placing a page

The visible region of a page is what its boxes have in common, and it is placed on the device with
its lower left corner at the origin, after as many quarter turns as the rotation says. The corners
of boxes come in any order, boxes may not meet, and rotations may be negative or more than a full
turn.

The laws are stated over the rationals, in which regions are sets of points. They are those of the
functions by which the interpreter sets up a page with machine numbers.

## Main definitions

* `Point.to`, `Point.turn`: the displacement between two points, and a quarter turn of it.

## Main results

* `contains_visibleRegion`, `flat_visibleRegion`: the visible region of boxes that meet, and of
  boxes that do not.
* `Placement.contains_apply`: a placement takes a region to the page.
* `Placement.to_apply`: a placement turns clockwise.
* `page_placed`: how a page is set up, in exact arithmetic and on a machine.
-/

namespace ContentStream

variable {σ : Type}

/-! ### The visible region -/

/-- A visible region has its corners in order, whatever boxes it comes of. -/
theorem normal_visibleRegion (media : Rect ℚ) (crop : Option (Rect ℚ)) :
    (visibleRegion media crop).Normal := by
  cases crop with
  | none => exact media.normal_normalize
  | some crop => exact Rect.normal_intersect _ _

section

variable {media crop : Rect ℚ}

/-- What is visible of boxes that **meet** is what they have in common. -/
theorem contains_visibleRegion (hmeet : ∃ q, media.Contains q ∧ crop.Contains q) (p : Point ℚ) :
    (visibleRegion media (some crop)).Contains p ↔ media.Contains p ∧ crop.Contains p := by
  have hnormal : ∃ q, media.normalize.Contains q ∧ crop.normalize.Contains q := by
    simpa only [Rect.contains_normalize] using hmeet
  rw [visibleRegion, Rect.contains_intersect media.normal_normalize crop.normal_normalize hnormal,
    Rect.contains_normalize, Rect.contains_normalize]

/-- Of boxes that **do not meet** nothing is visible but a region without width or without
height. -/
theorem flat_visibleRegion (hmeet : ¬ ∃ q, media.Contains q ∧ crop.Contains q) :
    (visibleRegion media (some crop)).x1 = (visibleRegion media (some crop)).x0 ∨
      (visibleRegion media (some crop)).y1 = (visibleRegion media (some crop)).y0 := by
  have hnormal : ¬ ∃ q, media.normalize.Contains q ∧ crop.normalize.Contains q := by
    simpa only [Rect.contains_normalize] using hmeet
  exact Rect.flat_intersect media.normal_normalize crop.normal_normalize hnormal

end

/-! ### Placements -/

/-- The **displacement** from one point to another. -/
def Point.to (p q : Point ℚ) : Point ℚ :=
  ⟨q.x - p.x, q.y - p.y⟩

/-- A displacement after a **quarter turn clockwise**: what points up points to the right then, and
what points to the right points down. -/
def Point.turn (v : Point ℚ) : Point ℚ :=
  ⟨v.y, -v.x⟩

namespace Placement

/-- The **four placements** of a region, by the number of quarter turns. -/
def ofTurns (r : Rect ℚ) : Nat → Placement ℚ
  | 0 => ⟨⟨1, 0, 0, 1, -r.x0, -r.y0⟩, r.x1 - r.x0, r.y1 - r.y0⟩
  | 1 => ⟨⟨0, -1, 1, 0, -r.y0, r.x1⟩, r.y1 - r.y0, r.x1 - r.x0⟩
  | 2 => ⟨⟨-1, 0, 0, -1, r.x1, r.y1⟩, r.x1 - r.x0, r.y1 - r.y0⟩
  | _ => ⟨⟨0, 1, -1, 0, r.y1, -r.x0⟩, r.y1 - r.y0, r.x1 - r.x0⟩

/-- A rotation by a multiple of a right angle comes to less than four quarter turns. -/
theorem exists_turns {rotate : ℤ} (h : 90 ∣ rotate) :
    ∃ n < 4, (rotate % 360 / 90).toNat = n ∧ rotate % 360 = 90 * n := by
  obtain ⟨k, rfl⟩ := h
  exact ⟨(90 * k % 360 / 90).toNat, by omega, rfl, by omega⟩

/-- The placement is that of the quarter turns that a rotation comes to. -/
theorem of_eq_ofTurns (r : Rect ℚ) {rotate : ℤ} (h : 90 ∣ rotate) :
    of r rotate = ofTurns r (rotate % 360 / 90).toNat := by
  obtain ⟨n, hn, hturns, hrotate⟩ := exists_turns h
  rw [hturns, of, hrotate]
  interval_cases n <;> rfl

variable {r : Rect ℚ} {n : Nat}

/-- No placement has a negative width, as the region has its corners in order. -/
theorem width_nonneg (h : r.Normal) (n : Nat) : 0 ≤ (ofTurns r n).width := by
  unfold ofTurns
  split
  · exact sub_nonneg.mpr h.x
  · exact sub_nonneg.mpr h.y
  · exact sub_nonneg.mpr h.x
  · exact sub_nonneg.mpr h.y

/-- None has a negative height. -/
theorem height_nonneg (h : r.Normal) (n : Nat) : 0 ≤ (ofTurns r n).height := by
  unfold ofTurns
  split
  · exact sub_nonneg.mpr h.y
  · exact sub_nonneg.mpr h.x
  · exact sub_nonneg.mpr h.y
  · exact sub_nonneg.mpr h.x

/-- The **page** of a placement: a rectangle at the origin. -/
def page (pl : Placement ℚ) : Rect ℚ :=
  ⟨0, 0, pl.width, pl.height⟩

/-- The page of a placement has its corners in order. -/
theorem normal_page (h : r.Normal) (n : Nat) : (ofTurns r n).page.Normal :=
  ⟨width_nonneg h n, height_nonneg h n⟩

/-- A placement takes the points of the region, and no others, to points of the page. This is
checked for each of the four, coordinate by coordinate. -/
theorem contains_apply (h : r.Normal) (n : Nat) (p : Point ℚ) :
    (ofTurns r n).page.Contains ((ofTurns r n).ctm.apply p) ↔ r.Contains p := by
  rw [(normal_page h n).contains_iff, h.contains_iff, page, Matrix.apply_eq]
  unfold ofTurns
  split <;> dsimp only <;> constructor <;> rintro ⟨⟨_, _⟩, _, _⟩ <;>
    refine ⟨⟨?_, ?_⟩, ?_, ?_⟩ <;> linarith

/-- Every point is the image of one. -/
theorem exists_apply_eq (r : Rect ℚ) (n : Nat) (q : Point ℚ) :
    ∃ p, (ofTurns r n).ctm.apply p = q := by
  obtain ⟨x, y⟩ := q
  unfold ofTurns
  split
  · exact ⟨⟨x + r.x0, y + r.y0⟩, by simp [Matrix.apply_eq]⟩
  · exact ⟨⟨r.x1 - y, x + r.y0⟩, by simp [Matrix.apply_eq]⟩
  · exact ⟨⟨r.x1 - x, r.y1 - y⟩, by simp [Matrix.apply_eq]⟩
  · exact ⟨⟨y + r.x0, r.y1 - x⟩, by simp [Matrix.apply_eq]⟩

/-- The page is exactly the image of the region. -/
theorem contains_page_iff (h : r.Normal) (n : Nat) (q : Point ℚ) :
    (ofTurns r n).page.Contains q ↔ ∃ p, r.Contains p ∧ (ofTurns r n).ctm.apply p = q := by
  constructor
  · intro hq
    obtain ⟨p, rfl⟩ := exists_apply_eq r n q
    exact ⟨p, (contains_apply h n p).mp hq, rfl⟩
  · rintro ⟨p, hp, rfl⟩
    exact (contains_apply h n p).mpr hp

/-- A placement turns displacements clockwise, by as many quarter turns. -/
theorem to_apply (r : Rect ℚ) (hn : n < 4) (p q : Point ℚ) :
    ((ofTurns r n).ctm.apply p).to ((ofTurns r n).ctm.apply q) = Point.turn^[n] (p.to q) := by
  interval_cases n <;> simp [ofTurns, Matrix.apply_eq, Point.to, Point.turn, neg_add_eq_sub]

end Placement

/-! ### Pages -/

/-- **Page setup maps the visible region onto the page.** In exact arithmetic, let the rotation be
any multiple of a right angle. The page has no negative width and no negative height. The root
transform maps the visible region exactly onto the rectangle of that size at the origin, and turns
clockwise by as many quarter turns as the rotation comes to, full turns apart. The visible region
has its corners in order. It is the media box if there is no crop box, and what both boxes have in
common if they meet; if they do not, it has no width or no height.

With this size the page begins, and its content is executed from a default state whose transform is
this one. The rectangle is what is known of the page at any time while it is. -/
theorem page_placed (ctx : Context σ) :
    (∀ (media : Rect ℚ) (crop : Option (Rect ℚ)) (rotate : ℤ), 90 ∣ rotate →
      let r := visibleRegion media crop
      let pl := Placement.of r rotate
      0 ≤ pl.width ∧ 0 ≤ pl.height ∧
      (∀ q, Rect.Contains ⟨0, 0, pl.width, pl.height⟩ q ↔
        ∃ p, r.Contains p ∧ pl.ctm.apply p = q) ∧
      ∀ p q, (pl.ctm.apply p).to (pl.ctm.apply q) =
        Point.turn^[(rotate % 360 / 90).toNat] (p.to q)) ∧
    (∀ (media : Rect ℚ) (crop : Option (Rect ℚ)),
      let r := visibleRegion media crop
      r.x0 ≤ r.x1 ∧ r.y0 ≤ r.y1 ∧
      match crop with
      | none => ∀ p, r.Contains p ↔ media.Contains p
      | some crop =>
        ((∃ q, media.Contains q ∧ crop.Contains q) →
          ∀ p, r.Contains p ↔ media.Contains p ∧ crop.Contains p) ∧
        ((¬ ∃ q, media.Contains q ∧ crop.Contains q) → r.x1 = r.x0 ∨ r.y1 = r.y0)) ∧
    ∀ (page : Page σ) (m : Machine σ),
      let pl := Placement.of (visibleRegion page.mediaBox page.cropBox) page.rotate
      let start := m.turnTo page
      ((Action.renderPage ctx page).run m).events = .beginPage pl.width pl.height ::
        (((Action.execute ctx page.content).run start).events ++ [.endPage]) ∧
      start.stack = ⟨GState.under pl.ctm, []⟩ ∧ start.stack.current.ctm = pl.ctm ∧
      ∀ a, Arises ctx start page.content a →
        a.machine.pageBounds = ⟨0.0, 0.0, pl.width, pl.height⟩ := by
  refine ⟨fun media crop rotate hrotate => ?_, fun media crop => ?_, fun page m => ?_⟩
  · intro r pl
    have hnormal : r.Normal := normal_visibleRegion media crop
    obtain ⟨n, hn, hturns, -⟩ := Placement.exists_turns hrotate
    have hpl : pl = Placement.ofTurns r n := hturns ▸ Placement.of_eq_ofTurns r hrotate
    rw [hpl, hturns]
    exact ⟨Placement.width_nonneg hnormal n, Placement.height_nonneg hnormal n,
      Placement.contains_page_iff hnormal n, Placement.to_apply r hn⟩
  · intro r
    have hnormal : r.Normal := normal_visibleRegion media crop
    refine ⟨hnormal.x, hnormal.y, ?_⟩
    cases crop with
    | none => exact fun p => Rect.contains_normalize
    | some crop => exact ⟨contains_visibleRegion, flat_visibleRegion⟩
  · intro pl start
    refine ⟨?_, rfl, rfl, fun a ha => ha.pageBounds_eq⟩
    rw [Action.run_renderPage]
    simp only [Outcome.events, Trace.events_cons_event, Trace.events_append, Trace.events_nil]
    rfl

namespace CroppedPage

/-- A media box, from **its right end** to its left. -/
def media : Rect ℚ :=
  ⟨10, 0, 0, 20⟩

/-- A crop box that **overlaps** with it. -/
def crop : Rect ℚ :=
  ⟨5, 5, 30, 30⟩

/-- A box that is **somewhere else**. -/
def elsewhere : Rect ℚ :=
  ⟨40, 40, 50, 50⟩

/-- What is **visible**, turned back by a right angle. -/
def placement : Placement ℚ :=
  Placement.of (visibleRegion media (some crop)) (-90)

/-- A context **without resources**. -/
def ctx : Context Nat where
  library := Directory.library #[]
  surface := fun _ => none

/-- A page with the same boxes, **on which nothing is drawn**. -/
def page : Page Nat where
  mediaBox := ⟨10.0, 0.0, 0.0, 20.0⟩
  cropBox := some ⟨5.0, 5.0, 30.0, 30.0⟩
  rotate := -90
  content := Utf8.encode "q Q"
  scope := 0

end CroppedPage

open CroppedPage in
/-- Some of the media box is visible, and its image is the page. Of boxes that lie apart nothing
is. -/
theorem page_placed_of_crop :
    (∃ p, (visibleRegion media (some crop)).Contains p ∧ placement.ctm.apply p = ⟨1, 2⟩) ∧
    (visibleRegion media (some crop)).Contains ⟨7, 9⟩ ∧
    ((visibleRegion media (some elsewhere)).x1 = (visibleRegion media (some elsewhere)).x0 ∨
      (visibleRegion media (some elsewhere)).y1 = (visibleRegion media (some elsewhere)).y0) ∧
    ∃ a, Arises ctx (Machine.turnTo { scopes := [] } page) page.content a ∧
      a.machine.pageBounds.x1.toBits = (15.0 : Float).toBits := by
  obtain ⟨hplaced, hregion, hmachine⟩ := page_placed ctx
  obtain ⟨-, -, himage, -⟩ := hplaced media (some crop) (-90) (by decide)
  have hpage : Rect.Contains ⟨0, 0, placement.width, placement.height⟩ ⟨1, 2⟩ := by decide +kernel
  have hboth : media.Contains ⟨7, 9⟩ ∧ crop.Contains ⟨7, 9⟩ := by decide +kernel
  have hapart : ¬ ∃ q, media.Contains q ∧ elsewhere.Contains q := by
    rintro ⟨q, hmedia, helsewhere⟩
    have hends : max media.x0 media.x1 < min elsewhere.x0 elsewhere.x1 := by decide +kernel
    exact absurd (helsewhere.1.1.trans hmedia.1.2) (not_le_of_gt hends)
  obtain ⟨-, -, hmeet, -⟩ := hregion media (some crop)
  obtain ⟨-, -, -, hflat⟩ := hregion media (some elsewhere)
  have hprogram : (ctx.program? (Machine.turnTo { scopes := [] } page).scopes page.content).isOk =
      true := by
    decide +kernel
  obtain ⟨a, harises, -⟩ := Arises.exists_start hprogram
  obtain ⟨-, -, -, hbounds⟩ := hmachine page { scopes := [] }
  refine ⟨(himage _).mp hpage, (hmeet ⟨_, hboth⟩ _).mpr hboth, hflat hapart, a, harises, ?_⟩
  rw [hbounds a harises]
  decide +kernel

end ContentStream
