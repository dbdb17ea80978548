import ContentStream.Path
import Mathlib.Algebra.Order.Field.Rat
import Mathlib.Data.Rat.Cast.Order
import Mathlib.Order.Interval.Set.UnorderedInterval
import Mathlib.Tactic.FieldSimp
import Mathlib.Tactic.Linarith
import Mathlib.Tactic.LinearCombination

/-!
# Exact arithmetic

Over the rationals the geometry is exact, and its laws hold without rounding. A rectangle is there a
set of points, which is the same however its corners are put in order; a transform has an inverse
exactly if its determinant is not negligible, and what is taken through the inverse and back is
where it was. The image of a rectangle is a rectangle that covers it, whatever the transform: each
coordinate of the image of a point lies between those of two corners.

## Main definitions

* `Rect.Contains`: the points of a rectangle.
* `Rect.Normal`: rectangles whose first corner is the lower left one.

## Main results

* `Matrix.inverse?_eq_none_iff`, `Matrix.apply_inverse`: transforms and their inverses.
* `Path.transform_inverse`: paths that are taken through an inverse and back.
* `Matrix.contains_applyRect`: the image of a rectangle covers the images of its points.
* `Rect.contains_normalize`, `Rect.contains_intersect`: the points of rectangles in normal order.
-/

namespace ContentStream

/-- The rationals are exact scalars. All of them are finite, and there is none below all others: the
least of no numbers, which nothing asks for, is zero. -/
instance : Scalar ℚ where
  zero := 0
  one := 1
  less a b := decide (a < b)
  smaller := min
  larger := max
  lowest xs := xs.min?.getD 0
  highest xs := xs.max?.getD 0
  finite _ := true
  tolerance := 1 / 10 ^ 12

namespace Scalar

variable {x : ℚ} {xs : List ℚ}

/-- The lowest of some numbers is no higher than any of them. -/
theorem lowest_le (h : x ∈ xs) : lowest xs ≤ x := by
  obtain ⟨least, hleast⟩ := Option.isSome_iff_exists.mp (List.isSome_min?_of_mem h)
  have hlowest : lowest xs = least := congrArg (Option.getD · 0) hleast
  exact hlowest ▸ (List.min?_eq_some_iff.mp hleast).2 x h

/-- The highest is no lower. -/
theorem le_highest (h : x ∈ xs) : x ≤ highest xs := by
  obtain ⟨greatest, hgreatest⟩ := Option.isSome_iff_exists.mp (List.isSome_max?_of_mem h)
  have hhighest : highest xs = greatest := congrArg (Option.getD · 0) hgreatest
  exact hhighest ▸ (List.max?_eq_some_iff.mp hgreatest).2 x h

/-- A rational is negligible if its absolute value is below the tolerance. -/
theorem negligible_iff : negligible x = true ↔ |x| < tolerance := by
  rw [negligible, Bool.and_eq_true_iff, abs_lt, and_comm, neg_lt]
  exact Iff.and decide_eq_true_iff decide_eq_true_iff

end Scalar

/-! ### Transforms and their inverses -/

namespace Matrix

variable {m n : Matrix ℚ}

/-- A transform takes a point to another by its six entries. -/
theorem apply_eq (m : Matrix ℚ) (p : Point ℚ) :
    m.apply p = ⟨m.a * p.x + m.c * p.y + m.e, m.b * p.x + m.d * p.y + m.f⟩ :=
  rfl

/-- There is no inverse exactly if the determinant is negligible. -/
theorem inverse?_eq_none_iff : m.inverse? = none ↔ |m.det| < Scalar.tolerance := by
  have hfinite : Scalar.finite m.det = true := rfl
  rw [inverse?, hfinite, ← Scalar.negligible_iff]
  cases Scalar.negligible m.det <;> simp

/-- What has an inverse has a determinant other than zero, since zero is negligible. -/
theorem det_ne_zero_of_inverse? (h : m.inverse? = some n) : m.det ≠ 0 := by
  intro hdet
  have hnone : m.inverse? = none := by
    rw [inverse?_eq_none_iff, hdet, abs_zero]
    decide +kernel
  rw [hnone] at h
  cases h

/-- The inverse is given by the formula. -/
theorem eq_of_inverse? (h : m.inverse? = some n) :
    n = ⟨m.d / m.det, -m.b / m.det, -m.c / m.det, m.a / m.det,
      -(m.e * (m.d / m.det) + m.f * (-m.c / m.det)),
      -(m.e * (-m.b / m.det) + m.f * (m.a / m.det))⟩ := by
  unfold inverse? at h
  split at h
  · cases h
  · exact (Option.some.inj h).symm

/-- What is taken through the inverse and back is where it was. Over the rationals the determinant
cancels. -/
theorem apply_inverse (h : m.inverse? = some n) (p : Point ℚ) : m.apply (n.apply p) = p := by
  have hdet := det_ne_zero_of_inverse? h
  have hdef : m.det = m.a * m.d - m.b * m.c := rfl
  obtain ⟨x, y⟩ := p
  rw [eq_of_inverse? h, apply_eq, apply_eq]
  congr 1
  · field_simp
    linear_combination (m.e - x) * hdef
  · field_simp
    linear_combination (m.f - y) * hdef

end Matrix

/-! ### Paths -/

/-- Every kind of segment comes back from where it was taken. -/
theorem Segment.transform_inverse {m n : Matrix ℚ} (h : m.inverse? = some n) (s : Segment ℚ) :
    (s.transform n).transform m = s := by
  cases s with
  | move p | line p => simp only [transform, Matrix.apply_inverse h]
  | quad c p => simp only [transform, Matrix.apply_inverse h]
  | curve c₁ c₂ p => simp only [transform, Matrix.apply_inverse h]
  | close => rfl

/-- So do paths, and they keep their winding rule. -/
theorem Path.transform_inverse {m n : Matrix ℚ} (h : m.inverse? = some n) (path : Path ℚ) :
    (path.transform n).transform m = path := by
  have hsegments : (path.segments.map (Segment.transform n)).map (Segment.transform m) =
      path.segments := by
    rw [List.map_map]
    exact List.map_id'' (Segment.transform_inverse h) _
  rw [transform, transform, hsegments]

/-- The outline of a rectangle visits its corners. -/
theorem Path.points_ofRect (r : Rect ℚ) : (Path.ofRect r).points = r.corners := by
  have hx : r.x0 + (r.x1 - r.x0) = r.x1 := add_sub_cancel _ _
  have hy : r.y0 + (r.y1 - r.y0) = r.y1 := add_sub_cancel _ _
  have hpoints : (Path.ofRect r).points = [⟨r.x0, r.y0⟩, ⟨r.x0 + (r.x1 - r.x0), r.y0⟩,
      ⟨r.x0 + (r.x1 - r.x0), r.y0 + (r.y1 - r.y0)⟩, ⟨r.x0, r.y0 + (r.y1 - r.y0)⟩] := rfl
  rw [hpoints, hx, hy, Rect.corners]

/-! ### Rectangles -/

namespace Rect

/-- A rectangle **contains a point** that lies between its corners, whatever their order. -/
def Contains (r : Rect ℚ) (p : Point ℚ) : Prop :=
  p.x ∈ Set.uIcc r.x0 r.x1 ∧ p.y ∈ Set.uIcc r.y0 r.y1

/-- A rectangle contains a point by its coordinates, one by one. -/
theorem contains_iff {r : Rect ℚ} {p : Point ℚ} :
    r.Contains p ↔ (min r.x0 r.x1 ≤ p.x ∧ p.x ≤ max r.x0 r.x1) ∧
      min r.y0 r.y1 ≤ p.y ∧ p.y ≤ max r.y0 r.y1 :=
  Iff.rfl

instance (r : Rect ℚ) (p : Point ℚ) : Decidable (r.Contains p) :=
  decidable_of_iff _ contains_iff.symm

/-- A rectangle is **normal** if its first corner is the lower left one. -/
structure Normal (r : Rect ℚ) : Prop where
  x : r.x0 ≤ r.x1
  y : r.y0 ≤ r.y1

variable {r s : Rect ℚ} {p : Point ℚ}

/-- If it is normal, it need not be said which corner is the lower one. -/
theorem Normal.contains_iff (h : r.Normal) :
    r.Contains p ↔ (r.x0 ≤ p.x ∧ p.x ≤ r.x1) ∧ r.y0 ≤ p.y ∧ p.y ≤ r.y1 := by
  rw [Contains, Set.uIcc_of_le h.x, Set.uIcc_of_le h.y, Set.mem_Icc, Set.mem_Icc]

/-- The corners are put in order by the lesser and the greater of their coordinates. -/
theorem normalize_eq (r : Rect ℚ) :
    r.normalize = ⟨min r.x0 r.x1, min r.y0 r.y1, max r.x0 r.x1, max r.y0 r.y1⟩ :=
  rfl

/-- What has been put in order is normal. -/
theorem normal_normalize (r : Rect ℚ) : r.normalize.Normal :=
  ⟨min_le_max, min_le_max⟩

/-- Putting the corners in order makes no difference to the points. -/
theorem contains_normalize : r.normalize.Contains p ↔ r.Contains p := by
  rw [r.normal_normalize.contains_iff, normalize_eq, contains_iff]

/-- The sides of an intersection: if rectangles do not meet, the second side is put on the first. -/
theorem intersect_eq (r s : Rect ℚ) :
    r.intersect s = ⟨max r.x0 s.x0, max r.y0 s.y0,
      max (min r.x1 s.x1) (max r.x0 s.x0), max (min r.y1 s.y1) (max r.y0 s.y0)⟩ :=
  rfl

/-- So an intersection is always normal. -/
theorem normal_intersect (r s : Rect ℚ) : (r.intersect s).Normal :=
  ⟨le_max_right _ _, le_max_right _ _⟩

/-- Normal rectangles that meet have the points in common that their intersection contains. Because
they meet, the larger of the left sides is no further right than the smaller of the right sides. -/
theorem contains_intersect (hr : r.Normal) (hs : s.Normal)
    (hmeet : ∃ q, r.Contains q ∧ s.Contains q) :
    (r.intersect s).Contains p ↔ r.Contains p ∧ s.Contains p := by
  obtain ⟨q, hq, hq'⟩ := hmeet
  rw [hr.contains_iff] at hq
  rw [hs.contains_iff] at hq'
  have hx : max r.x0 s.x0 ≤ min r.x1 s.x1 :=
    (max_le hq.1.1 hq'.1.1).trans (le_min hq.1.2 hq'.1.2)
  have hy : max r.y0 s.y0 ≤ min r.y1 s.y1 :=
    (max_le hq.2.1 hq'.2.1).trans (le_min hq.2.2 hq'.2.2)
  rw [(normal_intersect r s).contains_iff, hr.contains_iff, hs.contains_iff, intersect_eq,
    max_eq_left hx, max_eq_left hy, max_le_iff, max_le_iff, le_min_iff, le_min_iff]
  tauto

/-- Normal rectangles that do not meet leave nothing between two sides of the intersection, which
has no width or no height then. -/
theorem flat_intersect (hr : r.Normal) (hs : s.Normal)
    (hmeet : ¬ ∃ q, r.Contains q ∧ s.Contains q) :
    (r.intersect s).x1 = (r.intersect s).x0 ∨ (r.intersect s).y1 = (r.intersect s).y0 := by
  rw [intersect_eq]
  by_contra! h
  -- If both sides had a length, the first corner of the intersection would be a common point.
  have hx : max r.x0 s.x0 ≤ min r.x1 s.x1 := by
    by_contra! hlt
    exact h.1 (max_eq_right hlt.le)
  have hy : max r.y0 s.y0 ≤ min r.y1 s.y1 := by
    by_contra! hlt
    exact h.2 (max_eq_right hlt.le)
  refine hmeet ⟨⟨max r.x0 s.x0, max r.y0 s.y0⟩, hr.contains_iff.mpr ?_, hs.contains_iff.mpr ?_⟩
  · exact ⟨⟨le_max_left _ _, hx.trans (min_le_left _ _)⟩,
      le_max_left _ _, hy.trans (min_le_left _ _)⟩
  · exact ⟨⟨le_max_right _ _, hx.trans (min_le_right _ _)⟩,
      le_max_right _ _, hy.trans (min_le_right _ _)⟩

/-- The bounding rectangle of points contains what lies between some of them. One may be to the
left, another to the right, and others below and above. -/
theorem contains_bound {points : List (Point ℚ)} (hleft : ∃ q ∈ points, q.x ≤ p.x)
    (hright : ∃ q ∈ points, p.x ≤ q.x) (hbelow : ∃ q ∈ points, q.y ≤ p.y)
    (habove : ∃ q ∈ points, p.y ≤ q.y) : (bound points).Contains p := by
  obtain ⟨left, hleft, hx⟩ := hleft
  obtain ⟨right, hright, hx'⟩ := hright
  obtain ⟨below, hbelow, hy⟩ := hbelow
  obtain ⟨above, habove, hy'⟩ := habove
  refine ⟨Set.mem_uIcc_of_le ?_ ?_, Set.mem_uIcc_of_le ?_ ?_⟩
  · exact (Scalar.lowest_le (List.mem_map_of_mem hleft)).trans hx
  · exact hx'.trans (Scalar.le_highest (List.mem_map_of_mem hright))
  · exact (Scalar.lowest_le (List.mem_map_of_mem hbelow)).trans hy
  · exact hy'.trans (Scalar.le_highest (List.mem_map_of_mem habove))

end Rect

/-- Of two ends, a multiple of one is no greater than the multiple of a number between them. Which
end it is depends on the sign of the factor. -/
theorem exists_mul_le_of_mem_uIcc {x u v : ℚ} (h : x ∈ Set.uIcc u v) (a : ℚ) :
    ∃ w, (w = u ∨ w = v) ∧ a * w ≤ a * x := by
  have hmul : min (a * u) (a * v) ≤ a * x := by
    rcases Set.mem_uIcc.mp h with ⟨hu, hv⟩ | ⟨hv, hu⟩ <;> rcases le_total 0 a with ha | ha
    · exact (min_le_left _ _).trans (mul_le_mul_of_nonneg_left hu ha)
    · exact (min_le_right _ _).trans (mul_le_mul_of_nonpos_left hv ha)
    · exact (min_le_right _ _).trans (mul_le_mul_of_nonneg_left hv ha)
    · exact (min_le_left _ _).trans (mul_le_mul_of_nonpos_left hu ha)
  rcases min_le_iff.mp hmul with hle | hle
  · exact ⟨u, .inl rfl, hle⟩
  · exact ⟨v, .inr rfl, hle⟩

/-- A sum of multiples is, at some corner of a rectangle, no greater than at a point in it. -/
theorem Rect.Contains.exists_corner_le {r : Rect ℚ} {p : Point ℚ} (h : r.Contains p) (a c : ℚ) :
    ∃ q ∈ r.corners, a * q.x + c * q.y ≤ a * p.x + c * p.y := by
  obtain ⟨x, hx, hax⟩ := exists_mul_le_of_mem_uIcc h.1 a
  obtain ⟨y, hy, hcy⟩ := exists_mul_le_of_mem_uIcc h.2 c
  refine ⟨⟨x, y⟩, ?_, add_le_add hax hcy⟩
  rcases hx with rfl | rfl <;> rcases hy with rfl | rfl <;> simp [Rect.corners]

/-- The image of a rectangle covers the images of its points, under any transform. Each of the four
sides is that of a corner, which is found by `Rect.Contains.exists_corner_le` for one direction. -/
theorem Matrix.contains_applyRect {r : Rect ℚ} {p : Point ℚ} (h : r.Contains p) (m : Matrix ℚ) :
    (m.applyRect r).Contains (m.apply p) := by
  have himage {q : Point ℚ} (hq : q ∈ r.corners) : m.apply q ∈ r.corners.map m.apply :=
    List.mem_map_of_mem hq
  obtain ⟨left, hleft, hx⟩ := h.exists_corner_le m.a m.c
  obtain ⟨right, hright, hx'⟩ := h.exists_corner_le (-m.a) (-m.c)
  obtain ⟨below, hbelow, hy⟩ := h.exists_corner_le m.b m.d
  obtain ⟨above, habove, hy'⟩ := h.exists_corner_le (-m.b) (-m.d)
  refine Rect.contains_bound ⟨_, himage hleft, ?_⟩ ⟨_, himage hright, ?_⟩ ⟨_, himage hbelow, ?_⟩
    ⟨_, himage habove, ?_⟩
  · simp only [apply_eq]
    linarith
  · simp only [apply_eq]
    linarith
  · simp only [apply_eq]
    linarith
  · simp only [apply_eq]
    linarith

end ContentStream
