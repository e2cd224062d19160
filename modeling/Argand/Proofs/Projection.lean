import Argand.Proofs.ExactArithmetic
import Argand.View

/-!
# Orthographic projection

Over the real numbers a view is an orthographic projection.  The two angles of the camera turn the
axes of space into a frame of three orthonormal vectors: one that is seen to the right, one that is
seen upwards and one along which the camera looks.  A point is seen at its first two coordinates in
the frame that is fixed at the offset, times the zoom; the third coordinate is lost.

## Main definitions

* `Point.toVector`, `Pixel.toVector` — places as vectors of a Euclidean space.
* `View.rightward`, `View.upward`, `View.viewing` — the frame of a camera, from its angles alone.
* `View.picture` — the two coordinates of a vector that are seen.

## Main results

* `View.orthonormal_frame` — the frame is orthonormal.
* `View.toVector_project` — a point is seen at two of its coordinates in the frame.
* `View.dist_project_sq` — what is lost of a distance.
* `View.project_orthographic` — **a view is an orthographic projection.**
-/

namespace Argand

open RealArithmetic

open scoped RealInnerProductSpace

/-- A place in space as a vector. -/
def Point.toVector (p : Point ℝ) : EuclideanSpace ℝ (Fin 3) := !₂[p.x, p.y, p.z]

theorem Point.toVector_sub (p q : Point ℝ) :
    p.toVector - q.toVector = !₂[p.x - q.x, p.y - q.y, p.z - q.z] := by
  ext j
  fin_cases j
  · rfl
  · rfl
  · rfl

/-- A place on the screen as a vector. -/
def Pixel.toVector (p : Pixel ℝ) : EuclideanSpace ℝ (Fin 2) := !₂[p.x, p.y]

/-- A place on the screen is its coordinates. -/
theorem Pixel.toVector_inj {p q : Pixel ℝ} : p.toVector = q.toVector ↔ p = q := by
  obtain ⟨x, y⟩ := p
  obtain ⟨x', y'⟩ := q
  simp [toVector]

namespace View

/-! ### The frame of a camera -/

/-- The direction in space that is seen to the right.  Angles are in radians here. -/
noncomputable def rightward (longitude : ℝ) : EuclideanSpace ℝ (Fin 3) :=
  !₂[Real.cos longitude, 0, -Real.sin longitude]

/-- The direction in space that is seen upwards. -/
noncomputable def upward (longitude latitude : ℝ) : EuclideanSpace ℝ (Fin 3) :=
  !₂[-(Real.sin latitude * Real.sin longitude), Real.cos latitude,
    -(Real.sin latitude * Real.cos longitude)]

/-- The direction along which the camera looks. -/
noncomputable def viewing (longitude latitude : ℝ) : EuclideanSpace ℝ (Fin 3) :=
  !₂[Real.cos latitude * Real.sin longitude, Real.sin latitude,
    Real.cos latitude * Real.cos longitude]

/-- The inner product, coordinate by coordinate. -/
theorem inner_eq_sum (x y : EuclideanSpace ℝ (Fin 3)) :
    ⟪x, y⟫ = x 0 * y 0 + x 1 * y 1 + x 2 * y 2 := by
  simp only [PiLp.inner_apply, Fin.sum_univ_three, RCLike.inner_apply, conj_trivial]
  ring

/-- A vector has length one if its inner product with itself is one. -/
theorem norm_eq_one_of_inner {x : EuclideanSpace ℝ (Fin 3)} (h : ⟪x, x⟫ = 1) : ‖x‖ = 1 := by
  rw [norm_eq_sqrt_real_inner, h, Real.sqrt_one]

section Frame

variable (longitude latitude : ℝ)

theorem norm_rightward : ‖rightward longitude‖ = 1 := by
  apply norm_eq_one_of_inner
  rw [inner_eq_sum]
  simp only [rightward, PiLp.toLp_apply, Matrix.cons_val]
  linear_combination Real.sin_sq_add_cos_sq longitude

theorem norm_upward : ‖upward longitude latitude‖ = 1 := by
  apply norm_eq_one_of_inner
  rw [inner_eq_sum]
  simp only [upward, PiLp.toLp_apply, Matrix.cons_val]
  linear_combination Real.sin latitude ^ 2 * Real.sin_sq_add_cos_sq longitude +
    Real.sin_sq_add_cos_sq latitude

theorem norm_viewing : ‖viewing longitude latitude‖ = 1 := by
  apply norm_eq_one_of_inner
  rw [inner_eq_sum]
  simp only [viewing, PiLp.toLp_apply, Matrix.cons_val]
  linear_combination Real.cos latitude ^ 2 * Real.sin_sq_add_cos_sq longitude +
    Real.sin_sq_add_cos_sq latitude

theorem inner_rightward_upward : ⟪rightward longitude, upward longitude latitude⟫ = 0 := by
  rw [inner_eq_sum]
  simp only [rightward, upward, PiLp.toLp_apply, Matrix.cons_val]
  ring

theorem inner_rightward_viewing : ⟪rightward longitude, viewing longitude latitude⟫ = 0 := by
  rw [inner_eq_sum]
  simp only [rightward, viewing, PiLp.toLp_apply, Matrix.cons_val]
  ring

theorem inner_upward_viewing :
    ⟪upward longitude latitude, viewing longitude latitude⟫ = 0 := by
  rw [inner_eq_sum]
  simp only [upward, viewing, PiLp.toLp_apply, Matrix.cons_val]
  linear_combination -Real.sin latitude * Real.cos latitude *
    Real.sin_sq_add_cos_sq longitude

/-- The frame is orthonormal. -/
theorem orthonormal_frame :
    Orthonormal ℝ
      ![rightward longitude, upward longitude latitude, viewing longitude latitude] := by
  rw [orthonormal_vecCons_iff, orthonormal_vecCons_iff, orthonormal_vecCons_iff]
  refine ⟨norm_rightward longitude, ?_, norm_upward longitude latitude, ?_,
    norm_viewing longitude latitude, ?_, ?_⟩
  · intro i
    fin_cases i
    · exact inner_rightward_upward longitude latitude
    · exact inner_rightward_viewing longitude latitude
  · intro i
    fin_cases i
    exact inner_upward_viewing longitude latitude
  · exact fun i => i.elim0
  · exact ⟨fun i => i.elim0, fun i => i.elim0⟩

/-- The length of a vector, from its three coordinates in the frame. -/
theorem norm_sq_eq_frame (x : EuclideanSpace ℝ (Fin 3)) :
    ‖x‖ ^ 2 = ⟪rightward longitude, x⟫ ^ 2 + ⟪upward longitude latitude, x⟫ ^ 2 +
      ⟪viewing longitude latitude, x⟫ ^ 2 := by
  have hspan : ⊤ ≤ Submodule.span ℝ (Set.range
      ![rightward longitude, upward longitude latitude, viewing longitude latitude]) :=
    ((orthonormal_frame longitude latitude).linearIndependent.span_eq_top_of_card_eq_finrank'
      (by simp)).ge
  have hsum := (OrthonormalBasis.mk (orthonormal_frame longitude latitude)
    hspan).sum_sq_norm_inner_right x
  simpa [Fin.sum_univ_three] using hsum.symm

end Frame

/-! ### Pictures of vectors -/

/-- The coordinates of a vector to the right and upwards. -/
noncomputable def picture (longitude latitude : ℝ) (x : EuclideanSpace ℝ (Fin 3)) :
    EuclideanSpace ℝ (Fin 2) :=
  !₂[⟪rightward longitude, x⟫, ⟪upward longitude latitude, x⟫]

section Picture

variable (longitude latitude : ℝ)

theorem picture_sub (x y : EuclideanSpace ℝ (Fin 3)) :
    picture longitude latitude (x - y) =
      picture longitude latitude x - picture longitude latitude y := by
  ext j
  fin_cases j
  · exact inner_sub_right _ x y
  · exact inner_sub_right _ x y

/-- The coordinate along which the camera looks is lost. -/
theorem norm_picture_sq (x : EuclideanSpace ℝ (Fin 3)) :
    ‖picture longitude latitude x‖ ^ 2 = ‖x‖ ^ 2 - ⟪viewing longitude latitude, x⟫ ^ 2 := by
  rw [norm_sq_eq_frame longitude latitude, EuclideanSpace.norm_sq_eq, Fin.sum_univ_two]
  simp [picture]

/-- Nothing is seen of what lies along the view. -/
theorem picture_smul_viewing (t : ℝ) :
    picture longitude latitude (t • viewing longitude latitude) = 0 := by
  rw [picture, inner_smul_right, inner_smul_right, inner_rightward_viewing, inner_upward_viewing]
  ext j
  fin_cases j
  · exact mul_zero t
  · exact mul_zero t

end Picture

/-! ### Where points are seen -/

section Exact

variable [OpenValues] (v : View ℝ)

/-- A point is seen where the picture of its place from the offset is, times the zoom. -/
theorem toVector_project (p : Point ℝ) :
    (v.project p).toVector =
      v.zoom • picture (radians v.longitude) (radians v.latitude)
        (p.toVector - v.offset.toVector) := by
  rw [Point.toVector_sub]
  ext j
  fin_cases j
  · simp only [project, relative, picture, inner_eq_sum, rightward, Pixel.toVector, cos_real,
      sin_real, Fin.zero_eta, PiLp.toLp_apply, PiLp.smul_apply, Matrix.cons_val, smul_eq_mul]
    ring
  · simp only [project, relative, picture, inner_eq_sum, upward, Pixel.toVector, cos_real,
      sin_real, Fin.mk_one, PiLp.toLp_apply, PiLp.smul_apply, Matrix.cons_val, smul_eq_mul]
    ring

theorem toVector_project_sub (p q : Point ℝ) :
    (v.project p).toVector - (v.project q).toVector =
      v.zoom • picture (radians v.longitude) (radians v.latitude) (p.toVector - q.toVector) := by
  rw [toVector_project, toVector_project, ← smul_sub, ← picture_sub, sub_sub_sub_cancel_right]

/-- What is lost of a distance is the coordinate along which the camera looks. -/
theorem dist_project_sq (p q : Point ℝ) :
    dist (v.project p).toVector (v.project q).toVector ^ 2 =
      v.zoom ^ 2 * (dist p.toVector q.toVector ^ 2 -
        ⟪viewing (radians v.longitude) (radians v.latitude), p.toVector - q.toVector⟫ ^ 2) := by
  rw [dist_eq_norm, dist_eq_norm, toVector_project_sub, norm_smul, mul_pow, Real.norm_eq_abs,
    sq_abs, norm_picture_sq]

theorem dist_project_le (p q : Point ℝ) :
    dist (v.project p).toVector (v.project q).toVector ≤
      |v.zoom| * dist p.toVector q.toVector := by
  have hlost := sq_nonneg
    ⟪viewing (radians v.longitude) (radians v.latitude), p.toVector - q.toVector⟫
  refine (sq_le_sq₀ dist_nonneg (by positivity)).mp ?_
  rw [dist_project_sq, mul_pow, sq_abs]
  exact mul_le_mul_of_nonneg_left (by linarith) (sq_nonneg _)

theorem dist_project_of_orthogonal {p q : Point ℝ}
    (h : ⟪viewing (radians v.longitude) (radians v.latitude), p.toVector - q.toVector⟫ = 0) :
    dist (v.project p).toVector (v.project q).toVector =
      |v.zoom| * dist p.toVector q.toVector := by
  refine (sq_eq_sq₀ dist_nonneg (by positivity)).mp ?_
  rw [dist_project_sq, h, mul_pow, sq_abs]
  ring

/-- Points behind one another are seen at the same place. -/
theorem project_eq_of_behind {p q : Point ℝ} {t : ℝ}
    (h : p.toVector - q.toVector = t • viewing (radians v.longitude) (radians v.latitude)) :
    v.project p = v.project q := by
  rw [← Pixel.toVector_inj, ← sub_eq_zero, toVector_project_sub, h, picture_smul_viewing, smul_zero]

/-- The offset is seen at the centre. -/
theorem project_offset : v.project v.offset = ⟨0, 0⟩ := by
  simp [project, relative]

theorem toScreen_eq (width height : ℝ) (p : Point ℝ) :
    v.toScreen width height p =
      ⟨width / 2 + (v.project p).x, height / 2 - (v.project p).y⟩ := by
  rw [toScreen, half_real]
  congr 1
  · ring
  · ring

/-- **A view is an orthographic projection.**  The frame of the camera depends on its angles alone
and is orthonormal.  The points of a list are seen at their coordinates to the right and upwards,
taken from the offset and multiplied by the zoom.  So distances on the screen are at most those in
space times the zoom, and just these for points side by side; points behind one another are seen at
the same place; and on a canvas the offset is at the centre, and what is seen upwards is nearer to
the top. -/
theorem project_orthographic :
    Orthonormal ℝ ![rightward (radians v.longitude),
      upward (radians v.longitude) (radians v.latitude),
      viewing (radians v.longitude) (radians v.latitude)] ∧
    (∀ ps : List (Point ℝ), (ps.map v.project).map Pixel.toVector = ps.map fun p =>
      v.zoom • !₂[⟪rightward (radians v.longitude), p.toVector - v.offset.toVector⟫,
        ⟪upward (radians v.longitude) (radians v.latitude), p.toVector - v.offset.toVector⟫]) ∧
    (∀ p q, dist (v.project p).toVector (v.project q).toVector ≤
      |v.zoom| * dist p.toVector q.toVector) ∧
    (∀ p q, ⟪viewing (radians v.longitude) (radians v.latitude), p.toVector - q.toVector⟫ = 0 →
      dist (v.project p).toVector (v.project q).toVector =
        |v.zoom| * dist p.toVector q.toVector) ∧
    (∀ p q (t : ℝ),
      p.toVector - q.toVector = t • viewing (radians v.longitude) (radians v.latitude) →
        v.project p = v.project q) ∧
    ∀ width height, v.toScreen width height v.offset = ⟨width / 2, height / 2⟩ ∧
      ∀ p, v.toScreen width height p =
        ⟨width / 2 + (v.project p).x, height / 2 - (v.project p).y⟩ := by
  refine ⟨orthonormal_frame _ _, ?_, v.dist_project_le, ?_, ?_, ?_⟩
  · intro ps
    rw [List.map_map]
    exact List.map_congr_left fun p _ => v.toVector_project p
  · intro p q h
    exact v.dist_project_of_orthogonal h
  · intro p q t h
    exact v.project_eq_of_behind h
  · intro width height
    refine ⟨?_, v.toScreen_eq width height⟩
    rw [toScreen_eq, project_offset, add_zero, sub_zero]

end Exact

/-- A camera turned by both angles, in front of which the first point stands beside the second and
the third one behind it. -/
theorem project_orthographic_oblique : ∃ _ : OpenValues,
    let v : View ℝ := ⟨30, 30, ⟨1, 2, 3⟩, 100⟩
    let along := viewing (radians v.longitude) (radians v.latitude)
    let p : Point ℝ := ⟨1, 5, 1⟩
    let q : Point ℝ := ⟨1, 2, 3⟩
    let r : Point ℝ := ⟨1 + √3, 4, 6⟩
    ⟪along, p.toVector - q.toVector⟫ = 0 ∧ r.toVector - q.toVector = (4 : ℝ) • along ∧
      dist (v.project p).toVector (v.project q).toVector =
        |v.zoom| * dist p.toVector q.toVector ∧
      v.project r = v.project q := by
  let : OpenValues := ⟨fun _ => 0, 0, 0⟩
  refine ⟨this, ?_⟩
  intro v along p q r
  have hradians : radians (30 : ℝ) = Real.pi / 6 := by
    rw [radians, degree_real]
    ring
  have halong : along = !₂[√3 / 4, 1 / 2, 3 / 4] := by
    have hfirst : √3 / 2 * (1 / 2) = √3 / 4 := by ring
    have hsq : √3 * √3 = 3 := Real.mul_self_sqrt (by norm_num)
    have hthird : √3 / 2 * (√3 / 2) = 3 / 4 := by linear_combination hsq / 4
    dsimp only [along, v]
    rw [viewing, hradians, Real.cos_pi_div_six, Real.sin_pi_div_six, hfirst, hthird]
  have hbeside : ⟪along, p.toVector - q.toVector⟫ = 0 := by
    rw [halong, inner_eq_sum, Point.toVector_sub]
    simp only [p, q, Matrix.cons_val]
    norm_num
  have hbehind : r.toVector - q.toVector = (4 : ℝ) • along := by
    rw [halong, Point.toVector_sub]
    ext j
    fin_cases j
    · simp only [r, q, Fin.zero_eta, PiLp.smul_apply, Matrix.cons_val, smul_eq_mul]
      ring
    · simp only [r, q, Fin.mk_one, PiLp.smul_apply, Matrix.cons_val, smul_eq_mul]
      norm_num
    · simp only [r, q, Fin.reduceFinMk, PiLp.smul_apply, Matrix.cons_val, smul_eq_mul]
      norm_num
  obtain ⟨-, -, -, hdist, heq, -⟩ := project_orthographic v
  exact ⟨hbeside, hbehind, hdist p q hbeside, heq r q 4 hbehind⟩

end View

end Argand
