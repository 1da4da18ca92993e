import Mathlib.Algebra.Order.Floor.Ring
import Mathlib.Data.List.FinRange
import Mathlib.LinearAlgebra.Matrix.ToLinearEquiv
import Maple.Math.Glm

/-!
# Maple.Engine.ShadowCascades

`ShadowRenderer::updateCascades` with the shaders that use what it computes. The view of the
camera is cut into slices, and each slice has a light that looks at a ball around it.
`getCascadeLevel` of `DeferredLight.frag` selects a slice by the depth of a point in the view,
and the shadow map of its light is read where the light sees the point.

Every point that the camera sees is seen by the light of the slice that is selected for it,
`shadowCoord_mem`. Arithmetic is exact, in an ordered field.
-/

namespace Maple

open Matrix Lib Glm

variable {K : Type} [Field K] [LinearOrder K]

attribute [local instance] neZero_axes neZero_rows atLeastTwo_halves

/-! ### The camera -/

structure Camera (K : Type) where
  aspectRatio : K
  scale : K
  fov : K
  near_ : K
  far_ : K
  orthographic : Bool

namespace Camera

/-- `updateProjectionMatrix`. -/
def projMatrix (libm : Libm K) (camera : Camera K) : Matrix (Fin 4) (Fin 4) K :=
  if camera.orthographic then
    ortho (camera.aspectRatio * -camera.scale) (camera.aspectRatio * camera.scale) (-camera.scale)
      camera.scale camera.near_ camera.far_
  else perspective libm (radians camera.fov) camera.aspectRatio camera.near_ camera.far_

end Camera

namespace Frustum

def frustumCorners : Fin 8 → Fin 3 → K :=
  ![![1, 1, 0], ![1, -1, 0], ![-1, -1, 0], ![-1, 1, 0],
    ![1, 1, 1], ![1, -1, 1], ![-1, -1, 1], ![-1, 1, 1]]

/-- The `vertices` that `from` sets. -/
def vertices (projection : Matrix (Fin 4) (Fin 4) K) : Fin 8 → Fin 3 → K := fun j =>
  let invCorner := inverse projection *ᵥ vec4 (frustumCorners j)
  fun i => vec3 invCorner i / invCorner 3

end Frustum

/-- `getFrustum`, for the view of a transform. -/
def Camera.getFrustum (libm : Libm K) (camera : Camera K) (viewMatrix : Matrix (Fin 4) (Fin 4) K) :
    Fin 8 → Fin 3 → K :=
  Frustum.vertices (camera.projMatrix libm * viewMatrix)

/-! ### The cascades -/

namespace ShadowRenderer

def up : Fin 3 → K := ![0, 1, 0]

/-- The distances of the cascades, as parts of the range between the clip planes. -/
def cascadeSplits (libm : Libm K) (camera : Camera K) (cascadeSplitLambda : K) (i : Fin 4) : K :=
  let nearClip := camera.near_
  let farClip := camera.far_
  let clipRange := farClip - nearClip
  let minZ := nearClip
  let maxZ := nearClip + clipRange
  let range := maxZ - minZ
  let ratio := maxZ / minZ
  let p : K := ((i : Nat) + 1) / 4
  let log := minZ * libm.pow ratio p
  let uniform := minZ + range * p
  let d := cascadeSplitLambda * (log - uniform) + uniform
  (d - nearClip) / clipRange

/-- The corners of a slice of the frustum. -/
def sliceCorners (frustumCorners : Fin 8 → Fin 3 → K) (lastSplitDist splitDist : K) :
    Fin 8 → Fin 3 → K := fun i =>
  if i < 4 then
    let dist := frustumCorners (i + 4) - frustumCorners i
    frustumCorners i + lastSplitDist • dist
  else
    let dist := frustumCorners i - frustumCorners (i - 4)
    frustumCorners (i - 4) + splitDist • dist

def frustumCenter (corners : Fin 8 → Fin 3 → K) : Fin 3 → K := fun k =>
  (List.finRange 8).foldl (fun center i => center + corners i k) 0 / 8

def radius [FloorRing K] (libm : Libm K) (corners : Fin 8 → Fin 3 → K) (center : Fin 3 → K) : K :=
  let radius := (List.finRange 8).foldl
    (fun radius i => max radius (length libm (corners i - center))) 0
  (⌈radius * 16⌉ : K) / 16

/-- The `projView` of one cascade. -/
def projView [FloorRing K] (libm : Libm K) (camera : Camera K) (world : Matrix (Fin 4) (Fin 4) K)
    (direction : Fin 3 → K) (lastSplitDist splitDist : K) : Matrix (Fin 4) (Fin 4) K :=
  let corners := sliceCorners (camera.getFrustum libm (inverse world)) lastSplitDist splitDist
  let center := frustumCenter corners
  let radius := radius libm corners center
  let maxExtents := radius
  let minExtents := -maxExtents
  let lightDir := normalize libm (-direction)
  let lightViewMatrix := lookAt libm (center - (-minExtents) • lightDir) center up
  let lightOrthoMatrix :=
    ortho minExtents maxExtents minExtents maxExtents 0 (maxExtents - minExtents)
  lightOrthoMatrix * lightViewMatrix

/-- What the shaders get of the cascades. -/
structure Uniforms (K : Type) where
  splitDepth : Fin 4 → K
  projView : Fin 4 → Matrix (Fin 4) (Fin 4) K

/-- The loop carries `lastSplitDist`. -/
def updateCascades [FloorRing K] (libm : Libm K) (camera : Camera K)
    (world : Matrix (Fin 4) (Fin 4) K) (direction : Fin 3 → K) (cascadeSplitLambda : K)
    (uniforms : Uniforms K) : Uniforms K :=
  let clipRange := camera.far_ - camera.near_
  ((List.finRange 4).foldl (fun (lastSplitDist, uniforms) i =>
    let splitDist := cascadeSplits libm camera cascadeSplitLambda i
    (splitDist,
      { splitDepth :=
          Function.update uniforms.splitDepth i ((camera.near_ + splitDist * clipRange) * -1)
        projView := Function.update uniforms.projView i
          (projView libm camera world direction lastSplitDist splitDist) })) (0, uniforms)).2

end ShadowRenderer

/-! ### The shader -/

namespace DeferredLight

open ShadowRenderer

/-- `getCascadeLevel`. The fourth coordinate of a position is what `DeferredColor.frag` puts
there, which is `emissive.x`. -/
def getCascadeLevel (viewPos : Matrix (Fin 4) (Fin 4) K) (uniforms : Uniforms K)
    (fragPos : Fin 4 → K) : Fin 4 :=
  let viewPos := viewPos *ᵥ fragPos
  (List.finRange 3).foldl (fun cascadeIndex i =>
    if viewPos 2 ≤ uniforms.splitDepth i.castSucc then i.succ else cascadeIndex) 0

def biasMat : Matrix (Fin 4) (Fin 4) K :=
  !![1 / 2, 0, 0, 1 / 2;
    0, 1 / 2, 0, 1 / 2;
    0, 0, 1, 0;
    0, 0, 0, 1]

/-- The place in the shadow map, and the depth that is compared with what is there. -/
def shadowCoord (uniforms : Uniforms K) (cascadeIndex : Fin 4) (wsPos : Fin 3 → K) : Fin 3 → K :=
  let shadowCoord := (biasMat * uniforms.projView cascadeIndex) *ᵥ vec4 wsPos
  vec3 ((1 / shadowCoord 3) • shadowCoord)

end DeferredLight

/-! ### What the camera sees -/

namespace Camera

/-- Half the width of what is seen at a depth. -/
def halfWidth (libm : Libm K) (camera : Camera K) (depth : K) : K :=
  if camera.orthographic then camera.aspectRatio * camera.scale
  else depth * (camera.aspectRatio * libm.tan (radians camera.fov / 2))

def halfHeight (libm : Libm K) (camera : Camera K) (depth : K) : K :=
  if camera.orthographic then camera.scale else depth * libm.tan (radians camera.fov / 2)

/-- The camera looks ahead, at something. -/
structure Proper (libm : Libm K) (camera : Camera K) : Prop where
  near_pos : 0 < camera.near_
  near_lt_far : camera.near_ < camera.far_
  aspectRatio_pos : 0 < camera.aspectRatio
  opening_pos : 0 < if camera.orthographic then camera.scale
    else libm.tan (radians camera.fov / 2)

/-- The point at a depth that is seen at these coordinates. -/
def viewPoint (libm : Libm K) (camera : Camera K) (x y depth : K) : Fin 3 → K :=
  ![x * camera.halfWidth libm depth, y * camera.halfHeight libm depth, -depth]

/-- The clip coordinates of a point are those of something that is drawn. -/
def Visible (libm : Libm K) (camera : Camera K) (view : Matrix (Fin 4) (Fin 4) K)
    (p : Fin 3 → K) : Prop :=
  let q := (camera.projMatrix libm * view) *ᵥ vec4 p
  0 < q 3 ∧ |q 0| ≤ q 3 ∧ |q 1| ≤ q 3 ∧ q 2 ∈ Set.Icc 0 (q 3)

variable [IsStrictOrderedRing K] {libm : Libm K} {camera : Camera K}

omit [IsStrictOrderedRing K] in
theorem Proper.far_pos (hcamera : camera.Proper libm) : 0 < camera.far_ :=
  hcamera.near_pos.trans hcamera.near_lt_far

theorem Proper.halfWidth_pos (hcamera : camera.Proper libm) {depth : K} (hdepth : 0 < depth) :
    0 < camera.halfWidth libm depth := by
  have haspect := hcamera.aspectRatio_pos
  have hopening := hcamera.opening_pos
  unfold halfWidth
  split_ifs at hopening ⊢ <;> positivity

theorem Proper.halfHeight_pos (hcamera : camera.Proper libm) {depth : K} (hdepth : 0 < depth) :
    0 < camera.halfHeight libm depth := by
  have hopening := hcamera.opening_pos
  unfold halfHeight
  split_ifs at hopening ⊢ <;> positivity

omit [IsStrictOrderedRing K] in
theorem halfWidth_along (a b t : K) :
    camera.halfWidth libm (a + t * (b - a)) =
      camera.halfWidth libm a + t * (camera.halfWidth libm b - camera.halfWidth libm a) := by
  unfold halfWidth
  split_ifs <;> ring

omit [IsStrictOrderedRing K] in
theorem halfHeight_along (a b t : K) :
    camera.halfHeight libm (a + t * (b - a)) =
      camera.halfHeight libm a + t * (camera.halfHeight libm b - camera.halfHeight libm a) := by
  unfold halfHeight
  split_ifs <;> ring

omit [IsStrictOrderedRing K] in
/-- Points at the same coordinates are on a line. -/
theorem viewPoint_along (x y a b t : K) :
    camera.viewPoint libm x y (a + t * (b - a)) =
      camera.viewPoint libm x y a +
        t • (camera.viewPoint libm x y b - camera.viewPoint libm x y a) := by
  funext i
  fin_cases i <;> simp [viewPoint, halfWidth_along, halfHeight_along] <;> ring

/-- The depth that is drawn. -/
def clipDepth (camera : Camera K) (depth : K) : K :=
  (depth - camera.near_) / (camera.far_ - camera.near_) *
    if camera.orthographic then 1 else camera.far_ / depth

/-- Where a point is drawn. -/
theorem Proper.projMatrix_viewPoint (hcamera : camera.Proper libm) (x y : K) {depth : K}
    (hdepth : 0 < depth) :
    camera.projMatrix libm *ᵥ vec4 (camera.viewPoint libm x y depth) =
      (if camera.orthographic then 1 else depth) • vec4 ![x, y, camera.clipDepth depth] := by
  have hdepth := hdepth.ne'
  have hrange := (sub_pos.mpr hcamera.near_lt_far).ne'
  have hrange' := (sub_neg.mpr hcamera.near_lt_far).ne
  have haspect := hcamera.aspectRatio_pos.ne'
  have hopening := hcamera.opening_pos.ne'
  cases horthographic : camera.orthographic with
  | true =>
      simp only [horthographic, if_true] at hopening
      funext i
      fin_cases i
      · simp [mulVec_coord, projMatrix, ortho, viewPoint, halfWidth, horthographic]
        field_simp
        ring
      · simp [mulVec_coord, projMatrix, ortho, viewPoint, halfHeight, horthographic]
        field_simp
        ring
      · simp [mulVec_coord, projMatrix, ortho, viewPoint, clipDepth, horthographic]
        field_simp
        ring
      · simp [mulVec_coord, projMatrix, ortho, horthographic]
  | false =>
      simp only [horthographic, Bool.false_eq_true, if_false] at hopening
      funext i
      fin_cases i
      · simp [mulVec_coord, projMatrix, perspective, viewPoint, halfWidth, horthographic]
        field_simp
      · simp [mulVec_coord, projMatrix, perspective, viewPoint, halfHeight, horthographic]
        field_simp
      · simp [mulVec_coord, projMatrix, perspective, viewPoint, clipDepth, horthographic]
        field_simp
        ring
      · simp [mulVec_coord, projMatrix, perspective, viewPoint, horthographic]

theorem Proper.det_projMatrix (hcamera : camera.Proper libm) : (camera.projMatrix libm).det ≠ 0 := by
  have hnear := hcamera.near_pos.ne'
  have hfar := hcamera.far_pos.ne'
  have hrange := (sub_pos.mpr hcamera.near_lt_far).ne'
  have haspect := hcamera.aspectRatio_pos.ne'
  have hopening := hcamera.opening_pos.ne'
  cases horthographic : camera.orthographic with
  | true =>
      simp only [horthographic, if_true] at hopening
      rw [projMatrix, horthographic, if_pos rfl, det_ortho]
      simp [haspect, hopening, hrange]
  | false =>
      simp only [horthographic, Bool.false_eq_true, if_false] at hopening
      rw [projMatrix, horthographic, if_neg Bool.false_ne_true, det_perspective]
      simp [haspect, hopening, hnear, hfar, hrange]

theorem Proper.of_clipDepth (hcamera : camera.Proper libm) {depth : K} (hdepth : 0 < depth)
    (hclip : camera.clipDepth depth ∈ Set.Icc 0 1) : depth ∈ Set.Icc camera.near_ camera.far_ := by
  have hnear := hcamera.near_pos
  have hfar := hcamera.far_pos
  have hrange := sub_pos.mpr hcamera.near_lt_far
  obtain ⟨hlower, hupper⟩ := hclip
  unfold clipDepth at hlower hupper
  split_ifs at hlower hupper
  · rw [mul_one, div_le_one hrange] at hupper
    rw [mul_one, le_div_iff₀ hrange, zero_mul] at hlower
    exact ⟨by linarith, by linarith⟩
  · rw [div_mul_div_comm, div_le_one (mul_pos hrange hdepth)] at hupper
    rw [div_mul_div_comm, le_div_iff₀ (mul_pos hrange hdepth), zero_mul] at hlower
    have hlower := nonneg_of_mul_nonneg_left hlower hfar
    refine ⟨by linarith, ?_⟩
    by_contra hlt
    nlinarith [mul_pos hnear (sub_pos.mpr (not_le.mp hlt))]

/-- What is drawn is between the clip planes, and within what is seen at its depth. -/
theorem Proper.visible (hcamera : camera.Proper libm) {v : Fin 3 → K}
    (hvisible : let q := camera.projMatrix libm *ᵥ vec4 v
      0 < q 3 ∧ |q 0| ≤ q 3 ∧ |q 1| ≤ q 3 ∧ q 2 ∈ Set.Icc 0 (q 3)) :
    -v 2 ∈ Set.Icc camera.near_ camera.far_ ∧ |v 0| ≤ camera.halfWidth libm (-v 2) ∧
      |v 1| ≤ camera.halfHeight libm (-v 2) := by
  have hrange := sub_pos.mpr hcamera.near_lt_far
  have hdepth : 0 < -v 2 := by
    obtain ⟨hpos, -, -, hlower, -⟩ := hvisible
    cases horthographic : camera.orthographic with
    | true =>
        simp [mulVec_coord, projMatrix, ortho, horthographic] at hlower
        field_simp at hlower
        linarith [hcamera.near_pos]
    | false => simpa [mulVec_coord, projMatrix, perspective, horthographic] using hpos
  have hwidth := hcamera.halfWidth_pos hdepth
  have hheight := hcamera.halfHeight_pos hdepth
  have hv : v = camera.viewPoint libm (v 0 / camera.halfWidth libm (-v 2))
      (v 1 / camera.halfHeight libm (-v 2)) (-v 2) := by
    funext i
    fin_cases i
    · simp [viewPoint, hwidth.ne']
    · simp [viewPoint, hheight.ne']
    · simp [viewPoint]
  have hweight : 0 < if camera.orthographic then 1 else -v 2 := by
    split_ifs
    exacts [one_pos, hdepth]
  rw [hv, hcamera.projMatrix_viewPoint _ _ hdepth] at hvisible
  obtain ⟨-, hx, hy, hlower, hupper⟩ := hvisible
  simp only [Pi.smul_apply, smul_eq_mul, vec4_zero, vec4_one, vec4_two, vec4_three, mul_one,
    abs_mul, abs_of_pos hweight, cons_val] at hx hy hlower hupper
  have hclip : camera.clipDepth (-v 2) ∈ Set.Icc 0 1 :=
    ⟨nonneg_of_mul_nonneg_right hlower hweight, (mul_le_iff_le_one_right hweight).mp hupper⟩
  refine ⟨hcamera.of_clipDepth hdepth hclip, ?_, ?_⟩
  · have hle := (mul_le_iff_le_one_right hweight).mp hx
    rwa [abs_div, abs_of_pos hwidth, div_le_one hwidth] at hle
  · have hle := (mul_le_iff_le_one_right hweight).mp hy
    rwa [abs_div, abs_of_pos hheight, div_le_one hheight] at hle

end Camera

namespace Frustum

omit [LinearOrder K]

variable {j : Fin 8}

theorem far_index (hj : j < 4) : ¬ j + 4 < 4 ∧ j + 4 - 4 = j := by
  revert j
  decide

theorem frustumCorners_near (hj : j < 4) :
    frustumCorners (K := K) j = ![frustumCorners j 0, frustumCorners j 1, 0] := by
  fin_cases j <;> first | rfl | exact absurd hj (by decide)

theorem frustumCorners_far (hj : j < 4) :
    frustumCorners (K := K) (j + 4) = ![frustumCorners j 0, frustumCorners j 1, 1] := by
  fin_cases j <;> first | rfl | exact absurd hj (by decide)

theorem exists_frustumCorners {x y : K} (hx : x ∈ ({-1, 1} : Set K)) (hy : y ∈ ({-1, 1} : Set K)) :
    ∃ j : Fin 8, j < 4 ∧ frustumCorners j 0 = x ∧ frustumCorners j 1 = y := by
  obtain rfl | rfl := hx <;> obtain rfl | rfl := hy
  · exact ⟨2, by decide, rfl, rfl⟩
  · exact ⟨3, by decide, rfl, rfl⟩
  · exact ⟨1, by decide, rfl, rfl⟩
  · exact ⟨0, by decide, rfl, rfl⟩

variable {projection world : Matrix (Fin 4) (Fin 4) K} {v : Fin 3 → K} {k : K}

/-- A corner is the point that is drawn there, in the world. -/
theorem vertices_eq (hprojection : projection.det ≠ 0) (haffine : Affine world)
    (hdet : world.det ≠ 0) (hk : k ≠ 0)
    (hcorner : projection *ᵥ vec4 v = k • vec4 (frustumCorners j)) :
    vertices (projection * inverse world) j = move world v := by
  have hproduct : (projection * inverse world).det ≠ 0 := by
    rw [det_mul]
    exact mul_ne_zero hprojection (det_inverse hdet)
  have hdrawn : (projection * inverse world) *ᵥ (k⁻¹ • vec4 (move world v)) =
      vec4 (frustumCorners j) := by
    rw [mulVec_smul, ← mulVec_mulVec, (haffine.inverse hdet).mulVec_vec4,
      haffine.inverse_move hdet, hcorner, smul_smul, inv_mul_cancel₀ hk, one_smul]
  have hinv : inverse (projection * inverse world) *ᵥ vec4 (frustumCorners j) =
      k⁻¹ • vec4 (move world v) := by
    rw [← hdrawn, mulVec_mulVec, inverse_mul hproduct, one_mulVec]
  funext i
  simp only [vertices, hinv]
  fin_cases i <;> simp [vec3] <;> field_simp

end Frustum

namespace ShadowRenderer

variable [IsStrictOrderedRing K] {libm : Libm K} {camera : Camera K}
variable {world : Matrix (Fin 4) (Fin 4) K} {direction : Fin 3 → K}

/-- The corners of a slice are those of what is seen at its two depths. -/
theorem sliceCorners_eq (hcamera : camera.Proper libm) (haffine : Affine world)
    (hdet : world.det ≠ 0) (lastSplitDist splitDist : K) {j : Fin 8} (hj : j < 4) :
    let corners := sliceCorners (camera.getFrustum libm (inverse world)) lastSplitDist splitDist
    let corner := fun depth => move world (camera.viewPoint libm (Frustum.frustumCorners j 0)
      (Frustum.frustumCorners j 1) depth)
    corners j = corner (camera.near_ + lastSplitDist * (camera.far_ - camera.near_)) ∧
      corners (j + 4) = corner (camera.near_ + splitDist * (camera.far_ - camera.near_)) := by
  intro corners corner
  have hprojection := hcamera.det_projMatrix
  have hdist := (sub_pos.mpr hcamera.near_lt_far).ne'
  have hnear : camera.getFrustum libm (inverse world) j = corner camera.near_ := by
    refine Frustum.vertices_eq (k := if camera.orthographic then 1 else camera.near_) hprojection
      haffine hdet ?_ ?_
    · split_ifs
      exacts [one_ne_zero, hcamera.near_pos.ne']
    · rw [hcamera.projMatrix_viewPoint _ _ hcamera.near_pos, Frustum.frustumCorners_near hj]
      simp [Camera.clipDepth]
  have hfar : camera.getFrustum libm (inverse world) (j + 4) = corner camera.far_ := by
    refine Frustum.vertices_eq (k := if camera.orthographic then 1 else camera.far_) hprojection
      haffine hdet ?_ ?_
    · split_ifs
      exacts [one_ne_zero, hcamera.far_pos.ne']
    · rw [hcamera.projMatrix_viewPoint _ _ hcamera.far_pos, Frustum.frustumCorners_far hj]
      simp [Camera.clipDepth, hdist, hcamera.far_pos.ne']
  obtain ⟨hback, hindex⟩ := Frustum.far_index hj
  constructor
  · simp only [corners, sliceCorners, if_pos hj, hnear, hfar, corner, Camera.viewPoint_along,
      move_along]
  · simp only [corners, sliceCorners, if_neg hback, hindex, hnear, hfar, corner,
      Camera.viewPoint_along, move_along]

/-! ### The ball around a slice -/

section Radius

variable [FloorRing K] (libm) (corners : Fin 8 → Fin 3 → K) (center : Fin 3 → K)

theorem length_le_radius (j : Fin 8) :
    length libm (corners j - center) ≤ radius libm corners center := by
  have hle := (le_foldl_max (fun i => length libm (corners i - center)) (List.finRange 8) 0).2 j
    (List.mem_finRange j)
  have hceil := Int.le_ceil ((List.finRange 8).foldl
    (fun radius i => max radius (length libm (corners i - center))) 0 * 16)
  rw [radius, le_div_iff₀ (by norm_num)]
  linarith

theorem corner_mem_ball (j : Fin 8) : corners j ∈ ball center (radius libm corners center) := by
  rw [mem_ball, ← length_mul_self libm]
  exact mul_self_le_mul_self (length_nonneg libm _) (length_le_radius libm corners center j)

theorem radius_pos {i j : Fin 8} (hne : corners i ≠ corners j) :
    0 < radius libm corners center := by
  by_cases hi : corners i = center
  · have hj : corners j - center ≠ 0 := sub_ne_zero.mpr fun hj => hne (hi.trans hj.symm)
    exact (length_pos libm hj).trans_le (length_le_radius libm corners center j)
  · exact (length_pos libm (sub_ne_zero.mpr hi)).trans_le (length_le_radius libm corners center i)

end Radius

/-- A light that does not shine straight down or up has axes. -/
theorem light_axes (libm : Libm K) (hdirection : direction 0 ≠ 0 ∨ direction 2 ≠ 0) :
    let e := normalize libm (-direction)
    e ⬝ᵥ e = 1 ∧ crossProduct e up ≠ 0 := by
  intro e
  have hne : -direction ≠ 0 := by
    intro hzero
    have hcoord : ∀ i, direction i = 0 := fun i => neg_eq_zero.mp (congrFun hzero i)
    simp [hcoord] at hdirection
  refine ⟨normalize_unit libm hne, fun hzero => ?_⟩
  have h0 : e 0 = 0 := by simpa [cross_apply, up] using congrFun hzero 2
  have h2 : e 2 = 0 := by simpa [cross_apply, up] using congrFun hzero 0
  rw [normalize_eq_zero libm hne, Pi.neg_apply, neg_eq_zero] at h0 h2
  exact hdirection.elim (· h0) (· h2)

variable {lastSplitDist splitDist t : K} {v : Fin 3 → K}

/-- The ends of a slice are rectangles with their corners in the ball. -/
theorem ends_mem_ball [FloorRing K] (hcamera : camera.Proper libm) (haffine : Affine world)
    (hdet : world.det ≠ 0) (lastSplitDist splitDist : K) (center : Fin 3 → K) {x : K}
    (hx : x ∈ ({-1, 1} : Set K)) {y : K} (hy : y ∈ ({-1, 1} : Set K)) :
    let corners := sliceCorners (camera.getFrustum libm (inverse world)) lastSplitDist splitDist
    let corner := fun s => move world
      (camera.viewPoint libm x y (camera.near_ + s * (camera.far_ - camera.near_)))
    corner lastSplitDist ∈ ball center (radius libm corners center) ∧
      corner splitDist ∈ ball center (radius libm corners center) := by
  intro corners corner
  obtain ⟨j, hj, rfl, rfl⟩ := Frustum.exists_frustumCorners hx hy
  obtain ⟨hfirst, hsecond⟩ := sliceCorners_eq hcamera haffine hdet lastSplitDist splitDist hj
  have hball := corner_mem_ball libm corners center
  have hlast : corner lastSplitDist = corners j := hfirst.symm
  have hsplit : corner splitDist = corners (j + 4) := hsecond.symm
  rw [hlast, hsplit]
  exact ⟨hball j, hball (j + 4)⟩

/-- What is seen in a slice is in the ball around it. -/
theorem move_mem_ball [FloorRing K] (hcamera : camera.Proper libm) (haffine : Affine world)
    (hdet : world.det ≠ 0) (hlast : 0 ≤ lastSplitDist) (hsplit : lastSplitDist < splitDist)
    (ht : t ∈ Set.Icc lastSplitDist splitDist)
    (hdepth : -v 2 = camera.near_ + t * (camera.far_ - camera.near_))
    (hx : |v 0| ≤ camera.halfWidth libm (-v 2)) (hy : |v 1| ≤ camera.halfHeight libm (-v 2))
    (center : Fin 3 → K) :
    let corners := sliceCorners (camera.getFrustum libm (inverse world)) lastSplitDist splitDist
    move world v ∈ ball center (radius libm corners center) := by
  intro corners
  set a := camera.near_ + lastSplitDist * (camera.far_ - camera.near_) with ha
  set b := camera.near_ + splitDist * (camera.far_ - camera.near_) with hb
  have hlen := sub_pos.mpr hsplit
  have hdist := sub_pos.mpr hcamera.near_lt_far
  have hnear := hcamera.near_pos
  have hpos : 0 < -v 2 := by
    rw [hdepth]
    nlinarith [mul_nonneg (hlast.trans ht.1) hdist.le]
  have halong : -v 2 = a + (t - lastSplitDist) / (splitDist - lastSplitDist) * (b - a) := by
    have hlen := hlen.ne'
    rw [hdepth, ha, hb]
    field_simp
    ring
  have hends := fun x hx y hy => ends_mem_ball hcamera haffine hdet lastSplitDist splitDist center
    (x := x) hx (y := y) hy
  have hwidth := hcamera.halfWidth_pos hpos
  have hheight := hcamera.halfHeight_pos hpos
  rw [halong] at hx hy hwidth hheight
  rw [Camera.halfWidth_along] at hx hwidth
  rw [Camera.halfHeight_along] at hy hheight
  have hmem := mem_of_corners (convex_preimage_move convex_ball world)
    (fun x hx y hy => (hends x hx y hy).1) (fun x hx y hy => (hends x hx y hy).2)
    ⟨div_nonneg (sub_nonneg.mpr ht.1) hlen.le,
      (div_le_one hlen).mpr (sub_le_sub_right ht.2 lastSplitDist)⟩ hwidth hheight hx hy
  have hv : ![v 0, v 1, -a + (t - lastSplitDist) / (splitDist - lastSplitDist) * (-b - -a)] = v := by
    funext i
    fin_cases i
    · rfl
    · rfl
    · simp
      linarith
  exact hv ▸ hmem

theorem corners_ne (hcamera : camera.Proper libm) (haffine : Affine world) (hdet : world.det ≠ 0)
    (hsplit : lastSplitDist < splitDist) :
    let corners := sliceCorners (camera.getFrustum libm (inverse world)) lastSplitDist splitDist
    corners 0 ≠ corners (0 + 4) := by
  intro corners heq
  obtain ⟨hnear, hfar⟩ := sliceCorners_eq hcamera haffine hdet lastSplitDist splitDist
    (j := 0) (by decide)
  have hmove := congrArg (move (inverse world)) (hnear.symm.trans (heq.trans hfar))
  rw [haffine.inverse_move hdet, haffine.inverse_move hdet] at hmove
  have hdepth : -(camera.near_ + lastSplitDist * (camera.far_ - camera.near_)) =
      -(camera.near_ + splitDist * (camera.far_ - camera.near_)) := congrFun hmove 2
  have hdist := sub_pos.mpr hcamera.near_lt_far
  nlinarith [mul_pos (sub_pos.mpr hsplit) hdist]

omit [IsStrictOrderedRing K] in
theorem projView_eq [FloorRing K] (libm : Libm K) (camera : Camera K)
    (world : Matrix (Fin 4) (Fin 4) K) (direction : Fin 3 → K) (lastSplitDist splitDist : K) :
    let corners := sliceCorners (camera.getFrustum libm (inverse world)) lastSplitDist splitDist
    let center := frustumCenter corners
    let r := radius libm corners center
    projView libm camera world direction lastSplitDist splitDist =
      ortho (-r) r (-r) r 0 (r - -r) *
        lookAt libm (center - r • normalize libm (-direction)) center up := by
  simp only [projView, neg_neg]

/-- The light of a slice sees what is seen in the slice. -/
theorem projView_mem [FloorRing K] (hcamera : camera.Proper libm) (haffine : Affine world)
    (hdet : world.det ≠ 0) (hdirection : direction 0 ≠ 0 ∨ direction 2 ≠ 0)
    (hlast : 0 ≤ lastSplitDist) (hsplit : lastSplitDist < splitDist)
    (ht : t ∈ Set.Icc lastSplitDist splitDist)
    (hdepth : -v 2 = camera.near_ + t * (camera.far_ - camera.near_))
    (hx : |v 0| ≤ camera.halfWidth libm (-v 2)) (hy : |v 1| ≤ camera.halfHeight libm (-v 2)) :
    let q := move (projView libm camera world direction lastSplitDist splitDist) (move world v)
    |q 0| ≤ 1 ∧ |q 1| ≤ 1 ∧ q 2 ∈ Set.Icc 0 1 := by
  obtain ⟨he, hup⟩ := light_axes libm hdirection
  rw [projView_eq]
  exact move_light libm he hup
    (radius_pos libm _ _ (corners_ne hcamera haffine hdet hsplit))
    (move_mem_ball hcamera haffine hdet hlast hsplit ht hdepth hx hy _)

/-! ### The depths of the slices -/

/-- The part of the range at which a part of the cascades ends. -/
def splitAt (libm : Libm K) (camera : Camera K) (cascadeSplitLambda p : K) : K :=
  let uniform := camera.near_ + (camera.far_ - camera.near_) * p
  let log := camera.near_ * libm.pow (camera.far_ / camera.near_) p
  (cascadeSplitLambda * (log - uniform) + uniform - camera.near_) / (camera.far_ - camera.near_)

variable {cascadeSplitLambda : K}

omit [IsStrictOrderedRing K] in
theorem cascadeSplits_eq (i : Fin 4) :
    cascadeSplits libm camera cascadeSplitLambda i =
      splitAt libm camera cascadeSplitLambda (((i : Nat) + 1) / 4) := by
  simp [cascadeSplits, splitAt]

theorem splitAt_zero (hcamera : camera.Proper libm) (cascadeSplitLambda : K) :
    splitAt libm camera cascadeSplitLambda 0 = 0 := by
  have hratio := div_pos hcamera.far_pos hcamera.near_pos
  simp [splitAt, libm.pow_zero _ hratio]

theorem splitAt_one (hcamera : camera.Proper libm) (cascadeSplitLambda : K) :
    splitAt libm camera cascadeSplitLambda 1 = 1 := by
  have hratio := div_pos hcamera.far_pos hcamera.near_pos
  have hnear := hcamera.near_pos.ne'
  have hdist := (sub_pos.mpr hcamera.near_lt_far).ne'
  simp only [splitAt, libm.pow_one _ hratio]
  field_simp
  ring

/-- The cascades follow each other, for every mixture of the two schemes. -/
theorem splitAt_mono (hcamera : camera.Proper libm) (hlambda : cascadeSplitLambda ∈ Set.Icc 0 1) :
    StrictMono (splitAt libm camera cascadeSplitLambda) := by
  intro p q hpq
  have hratio : 1 < camera.far_ / camera.near_ :=
    (one_lt_div hcamera.near_pos).mpr hcamera.near_lt_far
  have hdist := sub_pos.mpr hcamera.near_lt_far
  have hlog := mul_pos hcamera.near_pos (sub_pos.mpr (libm.pow_lt_pow _ p q hratio hpq))
  have huniform := mul_pos hdist (sub_pos.mpr hpq)
  refine div_lt_div_of_pos_right ?_ hdist
  obtain hzero | hpos := hlambda.1.eq_or_lt
  · rw [← hzero]
    linarith
  · nlinarith [mul_pos hpos hlog, mul_nonneg (sub_nonneg.mpr hlambda.2) huniform.le]

/-- What the loop computes for each cascade. -/
theorem updateCascades_eq [FloorRing K] (hcamera : camera.Proper libm)
    (world : Matrix (Fin 4) (Fin 4) K) (direction : Fin 3 → K) (cascadeSplitLambda : K)
    (uniforms : Uniforms K) (i : Fin 4) :
    let split := splitAt libm camera cascadeSplitLambda
    let cascades := updateCascades libm camera world direction cascadeSplitLambda uniforms
    cascades.splitDepth i =
        -(camera.near_ + split (((i : Nat) + 1) / 4) * (camera.far_ - camera.near_)) ∧
      cascades.projView i =
        projView libm camera world direction (split ((i : Nat) / 4)) (split (((i : Nat) + 1) / 4)) := by
  have hzero := splitAt_zero hcamera cascadeSplitLambda
  have hlist : List.finRange 4 = [0, 1, 2, 3] := rfl
  simp only [updateCascades, hlist, List.foldl_cons, List.foldl_nil, cascadeSplits_eq]
  fin_cases i <;> simp [Function.update, hzero] <;> norm_num

end ShadowRenderer

/-! ### The selected cascade -/

namespace DeferredLight

open ShadowRenderer

variable [IsStrictOrderedRing K] [FloorRing K] {libm : Libm K} {camera : Camera K}
variable {world : Matrix (Fin 4) (Fin 4) K} {direction : Fin 3 → K} {cascadeSplitLambda : K}

/-- The selected cascade is the one of the slice with the depth of the position. -/
theorem getCascadeLevel_slice (hcamera : camera.Proper libm)
    (world : Matrix (Fin 4) (Fin 4) K) (direction : Fin 3 → K) (cascadeSplitLambda : K)
    (uniforms : Uniforms K) {viewPos : Matrix (Fin 4) (Fin 4) K} {fragPos : Fin 4 → K} {t : K} (ht : t ∈ Set.Icc 0 1)
    (hdepth : -(viewPos *ᵥ fragPos) 2 = camera.near_ + t * (camera.far_ - camera.near_)) :
    let cascades := updateCascades libm camera world direction cascadeSplitLambda uniforms
    let level := getCascadeLevel viewPos cascades fragPos
    t ∈ Set.Icc (splitAt libm camera cascadeSplitLambda ((level : Nat) / 4))
      (splitAt libm camera cascadeSplitLambda (((level : Nat) + 1) / 4)) := by
  intro cascades level
  have hdist := sub_pos.mpr hcamera.near_lt_far
  have hbelow : ∀ i : Fin 4, (viewPos *ᵥ fragPos) 2 ≤ cascades.splitDepth i ↔
      splitAt libm camera cascadeSplitLambda (((i : Nat) + 1) / 4) ≤ t := by
    intro i
    rw [(updateCascades_eq hcamera world direction cascadeSplitLambda uniforms i).1, le_neg, hdepth, add_le_add_iff_left,
      mul_le_mul_iff_left₀ hdist]
  have hzero : splitAt libm camera cascadeSplitLambda 0 ≤ t := by
    rw [splitAt_zero hcamera]
    exact ht.1
  have hone : t ≤ splitAt libm camera cascadeSplitLambda 1 := by
    rw [splitAt_one hcamera]
    exact ht.2
  have hlevel : level = if splitAt libm camera cascadeSplitLambda (3 / 4) ≤ t then 3
      else if splitAt libm camera cascadeSplitLambda (2 / 4) ≤ t then 2
      else if splitAt libm camera cascadeSplitLambda (1 / 4) ≤ t then 1 else 0 := by
    have hlist : List.finRange 3 = [0, 1, 2] := rfl
    have hfour : (3 : K) = 2 + 1 := by norm_num
    have htwo : (2 : K) = 1 + 1 := by norm_num
    simp only [level, getCascadeLevel, hlist, List.foldl_cons, List.foldl_nil, hbelow]
    simp [hfour, htwo]
  rw [hlevel]
  have hnumbers : ((3 : K) + 1) / 4 = 1 ∧ (2 : K) + 1 = 3 ∧ (1 : K) + 1 = 2 := by norm_num
  split_ifs with hthree htwo hfirst
  · simpa [hnumbers] using And.intro hthree hone
  · simpa [hnumbers] using And.intro htwo (le_of_not_ge hthree)
  · simpa [hnumbers] using And.intro hfirst (le_of_not_ge htwo)
  · simpa [hnumbers] using And.intro hzero (le_of_not_ge hfirst)

omit [IsStrictOrderedRing K] [FloorRing K] [LinearOrder K] in
theorem shadowCoord_eq (uniforms : Uniforms K) {level : Fin 4}
    (haffine : Affine (uniforms.projView level)) (p : Fin 3 → K) :
    let q := move (uniforms.projView level) p
    shadowCoord uniforms level p = ![1 / 2 * q 0 + 1 / 2, 1 / 2 * q 1 + 1 / 2, q 2] := by
  intro q
  have hq : (biasMat * uniforms.projView level) *ᵥ vec4 p = biasMat *ᵥ vec4 q := by
    rw [← mulVec_mulVec, haffine.mulVec_vec4]
  have hbias : biasMat *ᵥ vec4 q = vec4 ![1 / 2 * q 0 + 1 / 2, 1 / 2 * q 1 + 1 / 2, q 2] := by
    funext i
    rw [mulVec_coord]
    fin_cases i <;> simp [biasMat]
  simp only [shadowCoord, hq, hbias, vec4_three, div_one, one_smul, vec3_vec4]

omit [FloorRing K] in
/-- The place in the shadow map of a point that the light sees. -/
theorem shadowCoord_mem_of (uniforms : Uniforms K) {level : Fin 4}
    (haffine : Affine (uniforms.projView level)) {p : Fin 3 → K}
    (hmem : let q := move (uniforms.projView level) p
      |q 0| ≤ 1 ∧ |q 1| ≤ 1 ∧ q 2 ∈ Set.Icc 0 1) (k : Fin 3) :
    shadowCoord uniforms level p k ∈ Set.Icc 0 1 := by
  obtain ⟨hx, hy, hz⟩ := hmem
  obtain ⟨hxlower, hxupper⟩ := abs_le.mp hx
  obtain ⟨hylower, hyupper⟩ := abs_le.mp hy
  rw [shadowCoord_eq uniforms haffine]
  fin_cases k
  · exact ⟨by simp; linarith, by simp; linarith⟩
  · exact ⟨by simp; linarith, by simp; linarith⟩
  · exact hz

/-- Every point that the camera sees is seen by the light of the cascade that is selected for
it: the shadow map is read within its bounds, and the depth of the point is within its range.
This holds for a light that does not shine straight down or up, and where the position has a
fourth coordinate of 1, as `emissive.x` is, or the view does not move points in depth. -/
theorem shadowCoord_mem (hcamera : camera.Proper libm) (haffine : Affine world)
    (hdet : world.det ≠ 0) (hdirection : direction 0 ≠ 0 ∨ direction 2 ≠ 0)
    (hlambda : cascadeSplitLambda ∈ Set.Icc 0 1) (uniforms : Uniforms K) {fragPos : Fin 4 → K}
    (hvisible : camera.Visible libm (inverse world) (vec3 fragPos))
    (hemissive : fragPos 3 = 1 ∨ inverse world 2 3 = 0) (k : Fin 3) :
    let uniforms := updateCascades libm camera world direction cascadeSplitLambda uniforms
    let level := getCascadeLevel (inverse world) uniforms fragPos
    shadowCoord uniforms level (vec3 fragPos) k ∈ Set.Icc 0 1 := by
  intro cascades level
  set v := move (inverse world) (vec3 fragPos) with hv
  have hworld : move world v = vec3 fragPos := haffine.move_inverse hdet _
  have hview : (camera.projMatrix libm * inverse world) *ᵥ vec4 (vec3 fragPos) =
      camera.projMatrix libm *ᵥ vec4 v := by
    rw [← mulVec_mulVec, (haffine.inverse hdet).mulVec_vec4]
  simp only [Camera.Visible, hview] at hvisible
  obtain ⟨hdepth, hx, hy⟩ := hcamera.visible hvisible
  have hdist := sub_pos.mpr hcamera.near_lt_far
  -- The place of the point between the clip planes, which is also what the shader computes.
  obtain ⟨t, ht⟩ : ∃ t, t = (-v 2 - camera.near_) / (camera.far_ - camera.near_) := ⟨_, rfl⟩
  have hat : -v 2 = camera.near_ + t * (camera.far_ - camera.near_) := by
    rw [ht, div_mul_cancel₀ _ hdist.ne']
    ring
  have hrange : t ∈ Set.Icc 0 1 := by
    rw [ht]
    exact ⟨div_nonneg (by linarith [hdepth.1]) hdist.le,
      (div_le_one hdist).mpr (by linarith [hdepth.2])⟩
  have hfrag : (inverse world *ᵥ fragPos) 2 = v 2 := by
    have hcoord : (inverse world *ᵥ fragPos) 2 = v 2 + inverse world 2 3 * (fragPos 3 - 1) := by
      simp [hv, move, vec3, mulVec_coord]
      ring
    rw [hcoord]
    obtain hone | hzero := hemissive
    · rw [hone, sub_self, mul_zero, add_zero]
    · rw [hzero, zero_mul, add_zero]
  have hslice := getCascadeLevel_slice hcamera world direction cascadeSplitLambda uniforms hrange
    (hfrag ▸ hat)
  obtain ⟨-, hproj⟩ := updateCascades_eq hcamera world direction cascadeSplitLambda uniforms level
  have hlast : 0 ≤ splitAt libm camera cascadeSplitLambda ((level : Nat) / 4) := by
    rw [← splitAt_zero hcamera cascadeSplitLambda]
    exact (splitAt_mono hcamera hlambda).monotone (by positivity)
  have hsplit := splitAt_mono hcamera hlambda
    (div_lt_div_of_pos_right (lt_add_one ((level : Nat) : K)) four_pos)
  refine shadowCoord_mem_of cascades ?_ ?_ k
  · rw [hproj]
    exact (affine_ortho ..).mul (affine_lookAt ..)
  · rw [hproj, ← hworld]
    exact projView_mem hcamera haffine hdet hdirection hlast hsplit hslice hat hx hy

theorem shadowCoord_mem_ahead :
    let camera : Camera ℝ := ⟨1, 1, 60, 1, 2, true⟩
    let direction : Fin 3 → ℝ := ![1, -1, 0]
    let uniforms : Uniforms ℝ := ⟨fun _ => 0, fun _ => 0⟩
    let fragPos : Fin 4 → ℝ := ![0, 0, -3 / 2, 1]
    let uniforms := updateCascades Libm.real camera 1 direction (1 / 2) uniforms
    let level := getCascadeLevel (inverse 1) uniforms fragPos
    shadowCoord uniforms level (vec3 fragPos) 2 ∈ Set.Icc 0 1 := by
  intro camera direction uniforms fragPos
  have hcamera : camera.Proper Libm.real := by
    constructor <;> norm_num [camera]
  have hvisible : camera.Visible Libm.real (inverse 1) (vec3 fragPos) := by
    simp [Camera.Visible, Camera.projMatrix, ortho, mulVec_coord, vec3, camera, fragPos]
    norm_num
  have haffine : Affine (1 : Matrix (Fin 4) (Fin 4) ℝ) := by
    funext j
    fin_cases j <;> rfl
  exact shadowCoord_mem hcamera haffine (by simp) (by simp [direction]) (by norm_num) uniforms
    hvisible (Or.inl rfl) 2

end DeferredLight

end Maple
