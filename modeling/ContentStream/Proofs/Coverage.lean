import ContentStream.Proofs.Bearings
import ContentStream.Proofs.Exact
import ContentStream.Proofs.Images

/-!
# What a shading covers

A shading that does not say how far it extends is painted over the whole clip, or over the whole
page if there is no clip. Both are known in device space, and what is filled is a path in user
space; so they are taken back through the current transform. A clip comes back as it is. A page
comes back as the rectangle around the images of its corners, which under a rotation or a skew is
larger than the page, but never smaller: taken forward again, it covers the page.

The laws are stated over the rationals. The region is the same function of the transform, the clip
and the page that the interpreter computes with machine numbers.

## Main results

* `shadedRegion?_eq_none_iff`: there is no region exactly if the transform is singular.
* `transform_of_shadedRegion?`: a clip is covered exactly.
* `exists_rect_of_shadedRegion?`: a page is covered.
* `shading_covers`: what a shading is painted over, in exact arithmetic and on a machine.
-/

namespace ContentStream

variable {σ : Type}

/-! ### Regions in exact arithmetic -/

section

variable {ctm : Matrix ℚ} {page : Rect ℚ} {region : Path ℚ}

/-- There is **no region** exactly if the determinant is negligible. -/
theorem shadedRegion?_eq_none_iff {clip : Option (Path ℚ)} :
    shadedRegion? ctm clip page none = none ↔ |ctm.det| < Scalar.tolerance := by
  rw [shadedRegion?, Option.map_eq_none_iff, Matrix.inverse?_eq_none_iff]

/-- The region under a clip is, in device space, **the clip itself**. -/
theorem transform_of_shadedRegion? {clip : Path ℚ}
    (h : shadedRegion? ctm (some clip) page none = some region) : region.transform ctm = clip := by
  obtain ⟨inverse, hinverse, rfl⟩ := Option.map_eq_some_iff.mp h
  exact Path.transform_inverse hinverse clip

/-- The region without a clip is a rectangle that covers, in device space, **the whole page**. -/
theorem exists_rect_of_shadedRegion? (h : shadedRegion? ctm none page none = some region) :
    ∃ r, region = Path.ofRect r ∧ ∀ p, page.Contains p → ∃ q, r.Contains q ∧ ctm.apply q = p := by
  obtain ⟨inverse, hinverse, rfl⟩ := Option.map_eq_some_iff.mp h
  refine ⟨inverse.applyRect page, rfl, fun p hp => ⟨inverse.apply p, ?_, ?_⟩⟩
  · exact Matrix.contains_applyRect hp inverse
  · exact Matrix.apply_inverse hinverse p

end

/-! ### Painting -/

/-- **A shading covers what it must.** Let it not say itself how far it extends. In exact
arithmetic, under a transform whose determinant is not below the tolerance, there is a region to
fill. If there is a clip, the region is mapped by the transform to exactly the clip, with the same
winding rule: the clip has its points at `(a x + c y + e, b x + d y + f)` for the points `(x, y)` of
the region. If there is none, the region is the outline of a rectangle, and the image of that
rectangle contains every point of the page. Under any other transform there is no region.

The region is what the interpreter fills, in the state it is in but for the ink, before it ends the
path. If there is no region, it fails because of the transform: nothing is seen, and nothing is
changed. -/
theorem shading_covers (ctx : Context σ) :
    (∀ (ctm : Matrix ℚ) (clip : Option (Path ℚ)) (page : Rect ℚ),
      (Scalar.tolerance ≤ |ctm.det| →
        ∃ region, shadedRegion? ctm clip page none = some region ∧
          (∀ path, clip = some path →
            region.transform ctm = path ∧ path.IsImageOf ctm region) ∧
          (clip = none → ∃ r, region = Path.ofRect r ∧ region.points = r.corners ∧
            ∀ p, page.Contains p → ∃ q, r.Contains q ∧ ctm.apply q = p)) ∧
      (|ctm.det| < Scalar.tolerance → shadedRegion? ctm clip page none = none)) ∧
    ∀ name frame (m : Machine σ) shading, ctx.library.findShading m.scopes name = .ok shading →
      shading.bbox = none →
        let gs := m.stack.current
        let o := (Action.shade ctx name frame).run m
        (∀ region, shadedRegion? gs.ctm gs.clip m.pageBounds none = some region →
          o = ((Action.endPath frame).run m).after [.event (.fill
            (gs.setInk .fill ⟨.shading shading Matrix.identity, shading.space⟩) region)]) ∧
        (shadedRegion? gs.ctm gs.clip m.pageBounds none = none →
          o = ⟨.error (.nonInvertibleTransform gs.ctm), m, []⟩) := by
  refine ⟨fun ctm clip page => ⟨fun hdet => ?_, shadedRegion?_eq_none_iff.mpr⟩, ?_⟩
  · have hsome : shadedRegion? ctm clip page none ≠ none :=
      fun hnone => not_lt_of_ge hdet (shadedRegion?_eq_none_iff.mp hnone)
    obtain ⟨region, hregion⟩ := Option.ne_none_iff_exists'.mp hsome
    refine ⟨region, hregion, ?_, ?_⟩
    · rintro path rfl
      have hback : region.transform ctm = path := transform_of_shadedRegion? hregion
      exact ⟨hback, hback ▸ region.isImageOf_transform ctm⟩
    · rintro rfl
      obtain ⟨r, rfl, hcovers⟩ := exists_rect_of_shadedRegion? hregion
      exact ⟨r, rfl, Path.points_ofRect r, hcovers⟩
  · intro name frame m shading hfind hbbox gs o
    refine ⟨fun region hregion => ?_, fun hnone => ?_⟩
    · simp only [o, Action.run_shade_eq, hfind, hbbox, gs] at hregion ⊢
      rw [hregion]
    · simp only [o, Action.run_shade_eq, hfind, hbbox, gs] at hnone ⊢
      rw [hnone]

namespace SkewedShading

/-- A shading that **does not say** how far it extends. -/
def shading : Shading where
  kind := 2
  space := .deviceGray
  bbox := none
  background := none

/-- A context in which **all names** are names of the shading. -/
def ctx : Context Nat where
  library := { Directory.library #[] with shading := fun _ _ => some shading }
  surface := fun _ => none

/-- A transform that **skews and moves**. -/
def skew {α : Type} [Scalar α] : Matrix α :=
  let two := Scalar.one + Scalar.one
  ⟨Scalar.one, Scalar.one, -Scalar.one, two, two, Scalar.one⟩

/-- A machine under the transform, on a **page** of a hundred units. -/
def machine (ctm : Matrix Float) : Machine Nat where
  stack := ⟨GState.under ctm, []⟩
  scopes := [0]
  pageBounds := ⟨0.0, 0.0, 100.0, 100.0⟩

/-- A transform that **collapses** everything. -/
def collapse {α : Type} [Scalar α] : Matrix α :=
  ⟨Scalar.zero, Scalar.zero, Scalar.zero, Scalar.zero, Scalar.zero, Scalar.zero⟩

end SkewedShading

open SkewedShading in
/-- Under a skew the whole page is covered, its center for one, and something is filled. Where
everything is collapsed the shading fails. -/
theorem shading_covers_of_skew :
    (∃ r : Rect ℚ, shadedRegion? skew none ⟨0, 0, 100, 100⟩ none = some (Path.ofRect r) ∧
      ∃ q, r.Contains q ∧ skew.apply q = ⟨50, 50⟩) ∧
    (∃ region : Path ℚ,
      shadedRegion? skew (some (Path.ofRect ⟨1, 2, 3, 4⟩)) ⟨0, 0, 100, 100⟩ none = some region ∧
        region.transform skew = Path.ofRect ⟨1, 2, 3, 4⟩ ∧
        (region.points.map fun p => (⟨p.x - p.y + 2, p.x + 2 * p.y + 1⟩ : Point ℚ)) =
          [⟨1, 2⟩, ⟨3, 2⟩, ⟨3, 4⟩, ⟨1, 4⟩]) ∧
    shadedRegion? (collapse : Matrix ℚ) none ⟨0, 0, 100, 100⟩ none = none ∧
    (∃ region gs, ((Action.shade ctx "S" { base := 1 }).run (machine skew)).trace =
      [.event (.fill gs region)]) ∧
    ((Action.shade ctx "S" { base := 1 }).run (machine collapse)).trace = [] := by
  obtain ⟨hexact, hmachine⟩ := shading_covers ctx
  have hdet : Scalar.tolerance ≤ |(skew : Matrix ℚ).det| := by decide +kernel
  have hcenter : Rect.Contains ⟨0, 0, 100, 100⟩ ⟨50, 50⟩ := by
    constructor <;> exact Set.mem_uIcc_of_le (by norm_num) (by norm_num)
  obtain ⟨region, hregion, -, hrect⟩ := (hexact skew none ⟨0, 0, 100, 100⟩).1 hdet
  obtain ⟨r, rfl, -, hcovers⟩ := hrect rfl
  obtain ⟨outline, houtline, hclip, -⟩ :=
    (hexact skew (some (Path.ofRect ⟨1, 2, 3, 4⟩)) ⟨0, 0, 100, 100⟩).1 hdet
  obtain ⟨hback, himage⟩ := hclip _ rfl
  have hpoints := himage.points.symm.trans (Path.points_ofRect _)
  have hskew (p : Point ℚ) : (⟨p.x - p.y + 2, p.x + 2 * p.y + 1⟩ : Point ℚ) =
      ⟨1 * p.x + -1 * p.y + (1 + 1), 1 * p.x + (1 + 1) * p.y + 1⟩ := by
    congr 1 <;> linarith
  have hsome : (shadedRegion? (machine skew).stack.current.ctm (machine skew).stack.current.clip
      (machine skew).pageBounds none).isSome = true := by
    decide +kernel
  obtain ⟨filled, hfilled⟩ := Option.isSome_iff_exists.mp hsome
  have hnone : shadedRegion? (machine collapse).stack.current.ctm
      (machine collapse).stack.current.clip (machine collapse).pageBounds none = none := by
    rw [← Option.isNone_iff_eq_none]
    decide +kernel
  have hfills := (hmachine "S" { base := 1 } (machine skew) shading rfl rfl).1 filled hfilled
  have hfails := (hmachine "S" { base := 1 } (machine collapse) shading rfl rfl).2 hnone
  refine ⟨⟨r, hregion, hcovers _ hcenter⟩, ⟨outline, houtline, hback, ?_⟩,
    (hexact collapse none _).2 (by decide +kernel), ⟨filled, _, congrArg Outcome.trace hfills⟩,
    congrArg Outcome.trace hfails⟩
  rw [List.map_congr_left fun p _ => hskew p]
  exact hpoints

end ContentStream
