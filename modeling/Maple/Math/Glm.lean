import Mathlib.Analysis.SpecialFunctions.Pow.Real
import Mathlib.Data.Fin.VecNotation
import Mathlib.LinearAlgebra.CrossProduct
import Mathlib.LinearAlgebra.Matrix.NonsingularInverse
import Mathlib.Tactic.FieldSimp
import Mathlib.Tactic.FinCases
import Mathlib.Tactic.Linarith
import Maple.Lib.BoundingBall

/-!
# Maple.Math.Glm

The functions of glm that cameras and lights use, with its definitions for right-handed
coordinates and depths from 0 to 1. A `glm::mat4` is a matrix with its rows first.

The numbers are those of an ordered field, and what `cmath` computes is given with its laws.
-/

namespace Maple

open Matrix Lib

variable {K : Type} [Field K] [LinearOrder K]

/-- What is used of `cmath`. -/
structure Libm (K : Type) [Field K] [LinearOrder K] where
  sqrt : K → K
  pow : K → K → K
  tan : K → K
  sqrt_nonneg : ∀ x, 0 ≤ x → 0 ≤ sqrt x
  sqrt_mul_self : ∀ x, 0 ≤ x → sqrt x * sqrt x = x
  pow_zero : ∀ x, 0 < x → pow x 0 = 1
  pow_one : ∀ x, 0 < x → pow x 1 = x
  pow_lt_pow : ∀ x y z, 1 < x → y < z → pow x y < pow x z

/-- The functions that `cmath` rounds. -/
noncomputable def Libm.real : Libm ℝ where
  sqrt := Real.sqrt
  pow := Real.rpow
  tan := Real.tan
  sqrt_nonneg _ _ := Real.sqrt_nonneg _
  sqrt_mul_self _ h := Real.mul_self_sqrt h
  pow_zero x _ := Real.rpow_zero x
  pow_one x _ := Real.rpow_one x
  pow_lt_pow _ _ _ hx hyz := Real.rpow_lt_rpow_of_exponent_lt hx hyz

namespace Glm

local instance neZero_axes : NeZero 3 := ⟨by decide⟩

local instance neZero_rows : NeZero 4 := ⟨by decide⟩

local instance atLeastTwo_halves : Nat.AtLeastTwo 2 := ⟨by decide⟩

/-! ### Functions -/

/-- `glm::vec4(p, 1)`. -/
def vec4 (p : Fin 3 → K) : Fin 4 → K := ![p 0, p 1, p 2, 1]

/-- `glm::vec3(v)`. -/
def vec3 (v : Fin 4 → K) : Fin 3 → K := ![v 0, v 1, v 2]

def length (libm : Libm K) (v : Fin 3 → K) : K := libm.sqrt (v ⬝ᵥ v)

def normalize (libm : Libm K) (v : Fin 3 → K) : Fin 3 → K := (1 / libm.sqrt (v ⬝ᵥ v)) • v

def radians (degrees : K) : K := degrees * 0.01745329251994329576923690768489

def inverse (m : Matrix (Fin 4) (Fin 4) K) : Matrix (Fin 4) (Fin 4) K := m.det⁻¹ • m.adjugate

/-- `perspectiveRH_ZO`. -/
def perspective (libm : Libm K) (fovy aspect zNear zFar : K) : Matrix (Fin 4) (Fin 4) K :=
  let tanHalfFovy := libm.tan (fovy / 2)
  !![1 / (aspect * tanHalfFovy), 0, 0, 0;
    0, 1 / tanHalfFovy, 0, 0;
    0, 0, zFar / (zNear - zFar), -(zFar * zNear) / (zFar - zNear);
    0, 0, -1, 0]

/-- `orthoRH_ZO`. -/
def ortho (left right bottom top zNear zFar : K) : Matrix (Fin 4) (Fin 4) K :=
  !![2 / (right - left), 0, 0, -(right + left) / (right - left);
    0, 2 / (top - bottom), 0, -(top + bottom) / (top - bottom);
    0, 0, -1 / (zFar - zNear), -zNear / (zFar - zNear);
    0, 0, 0, 1]

/-- `lookAtRH`. -/
def lookAt (libm : Libm K) (eye center up : Fin 3 → K) : Matrix (Fin 4) (Fin 4) K :=
  let f := normalize libm (center - eye)
  let s := normalize libm (crossProduct f up)
  let u := crossProduct s f
  !![s 0, s 1, s 2, -(s ⬝ᵥ eye);
    u 0, u 1, u 2, -(u ⬝ᵥ eye);
    -f 0, -f 1, -f 2, f ⬝ᵥ eye;
    0, 0, 0, 1]

/-! ### Points that a matrix moves -/

/-- The matrix moves points: it has the last row of the identity. -/
def Affine (m : Matrix (Fin 4) (Fin 4) K) : Prop := m 3 = ![0, 0, 0, 1]

/-- Where the matrix moves a point. -/
def move (m : Matrix (Fin 4) (Fin 4) K) (p : Fin 3 → K) : Fin 3 → K := vec3 (m *ᵥ vec4 p)

section

omit [LinearOrder K]

variable {m : Matrix (Fin 4) (Fin 4) K} {p q : Fin 3 → K} {v : Fin 4 → K}

@[simp] theorem vec3_vec4 : vec3 (vec4 p) = p := by
  funext i
  fin_cases i <;> rfl

@[simp] theorem vec4_zero : vec4 p 0 = p 0 := rfl
@[simp] theorem vec4_one : vec4 p 1 = p 1 := rfl
@[simp] theorem vec4_two : vec4 p 2 = p 2 := rfl
@[simp] theorem vec4_three : vec4 p 3 = 1 := rfl

theorem mulVec_coord (i : Fin 4) :
    (m *ᵥ v) i = m i 0 * v 0 + m i 1 * v 1 + m i 2 * v 2 + m i 3 * v 3 := by
  simp [mulVec, dotProduct, Fin.sum_univ_four]

theorem Affine.mulVec_three (hm : Affine m) : (m *ᵥ v) 3 = v 3 := by
  have hrow : ∀ j, m 3 j = (![0, 0, 0, 1] : Fin 4 → K) j := congrFun hm
  simp [mulVec_coord, hrow]

theorem Affine.mulVec_vec4 (hm : Affine m) (p : Fin 3 → K) : m *ᵥ vec4 p = vec4 (move m p) := by
  funext i
  fin_cases i
  · rfl
  · rfl
  · rfl
  · exact hm.mulVec_three

theorem Affine.mul {n : Matrix (Fin 4) (Fin 4) K} (hm : Affine m) (hn : Affine n) :
    Affine (m * n) := by
  have hrow : ∀ j, m 3 j = (![0, 0, 0, 1] : Fin 4 → K) j := congrFun hm
  funext j
  simp [mul_apply, Fin.sum_univ_four, hrow, congrFun hn j]

theorem move_mul {n : Matrix (Fin 4) (Fin 4) K} (hn : Affine n) (p : Fin 3 → K) :
    move (m * n) p = move m (move n p) := by
  rw [move, ← mulVec_mulVec, hn.mulVec_vec4]
  rfl

/-- Matrices keep lines. -/
theorem move_combine {a b : K} (hab : a + b = 1) :
    move m (a • p + b • q) = a • move m p + b • move m q := by
  obtain rfl : b = 1 - a := by rw [← hab, add_sub_cancel_left]
  funext i
  fin_cases i <;> simp [move, vec3, mulVec_coord] <;> ring

theorem move_along (s : K) : move m (p + s • (q - p)) = move m p + s • (move m q - move m p) := by
  have hcombine : ∀ p q : Fin 3 → K, p + s • (q - p) = (1 - s) • p + s • q := by
    intro p q
    rw [smul_sub, sub_smul, one_smul]
    abel
  rw [hcombine, hcombine, move_combine (by ring)]

theorem affine_ortho (left right bottom top zNear zFar : K) :
    Affine (ortho left right bottom top zNear zFar) := rfl

theorem affine_lookAt [LinearOrder K] (libm : Libm K) (eye center up : Fin 3 → K) :
    Affine (lookAt libm eye center up) := rfl

theorem det_perspective [LinearOrder K] (libm : Libm K) (fovy aspect zNear zFar : K) :
    (perspective libm fovy aspect zNear zFar).det =
      1 / (aspect * libm.tan (fovy / 2)) * (1 / libm.tan (fovy / 2)) *
        (-(zFar * zNear) / (zFar - zNear)) := by
  simp [perspective, det_succ_row_zero, Fin.sum_univ_succ, Fin.succAbove]
  ring

theorem det_ortho (left right bottom top zNear zFar : K) :
    (ortho left right bottom top zNear zFar).det =
      2 / (right - left) * (2 / (top - bottom)) * (-1 / (zFar - zNear)) := by
  simp [ortho, det_succ_row_zero, Fin.sum_univ_succ, Fin.succAbove]
  ring

/-! ### Inverses -/

theorem inverse_mul (hm : m.det ≠ 0) : inverse m * m = 1 := by
  have hinv : inverse m = m⁻¹ := by rw [Matrix.inv_def, Ring.inverse_eq_inv']; rfl
  rw [hinv, nonsing_inv_mul _ (isUnit_iff_ne_zero.mpr hm)]

theorem mul_inverse (hm : m.det ≠ 0) : m * inverse m = 1 := by
  have hinv : inverse m = m⁻¹ := by rw [Matrix.inv_def, Ring.inverse_eq_inv']; rfl
  rw [hinv, mul_nonsing_inv _ (isUnit_iff_ne_zero.mpr hm)]

@[simp] theorem inverse_one : inverse (1 : Matrix (Fin 4) (Fin 4) K) = 1 := by
  simp [inverse]

theorem det_inverse (hm : m.det ≠ 0) : (inverse m).det ≠ 0 := by
  have hdet : (inverse m).det * m.det = 1 := by rw [← det_mul, inverse_mul hm, det_one]
  exact left_ne_zero_of_mul_eq_one hdet

theorem Affine.inverse (hm : Affine m) (hdet : m.det ≠ 0) : Affine (inverse m) := by
  have hrow : ∀ n : Matrix (Fin 4) (Fin 4) K, n 3 = ![0, 0, 0, 1] ᵥ* n := by
    intro n
    funext j
    simp [vecMul, dotProduct, Fin.sum_univ_four]
  calc Glm.inverse m 3 = ![0, 0, 0, 1] ᵥ* Glm.inverse m := hrow _
    _ = m 3 ᵥ* Glm.inverse m := by rw [hm]
    _ = ![0, 0, 0, 1] ᵥ* m ᵥ* Glm.inverse m := by rw [hrow m]
    _ = ![0, 0, 0, 1] := by rw [vecMul_vecMul, mul_inverse hdet, vecMul_one]

theorem Affine.move_inverse (hm : Affine m) (hdet : m.det ≠ 0) (p : Fin 3 → K) :
    move m (move (Glm.inverse m) p) = p := by
  rw [move, ← (hm.inverse hdet).mulVec_vec4, mulVec_mulVec, mul_inverse hdet, one_mulVec, vec3_vec4]

theorem Affine.inverse_move (hm : Affine m) (hdet : m.det ≠ 0) (p : Fin 3 → K) :
    move (Glm.inverse m) (move m p) = p := by
  rw [move, ← hm.mulVec_vec4, mulVec_mulVec, inverse_mul hdet, one_mulVec, vec3_vec4]

end

theorem convex_preimage_move {K : Type} [Field K] [LinearOrder K] {S : Set (Fin 3 → K)}
    (hS : Convex K S) (m : Matrix (Fin 4) (Fin 4) K) : Convex K (Set.preimage (move m) S) := by
  intro p hp q hq a b ha hb hab
  change move m (a • p + b • q) ∈ S
  rw [move_combine hab]
  exact hS hp hq ha hb hab

/-! ### Lengths and directions -/

variable [IsStrictOrderedRing K] {libm : Libm K} {v e center up p : Fin 3 → K} {r : K}

theorem dotProduct_self_nonneg (v : Fin 3 → K) : 0 ≤ v ⬝ᵥ v :=
  Finset.sum_nonneg fun i _ => mul_self_nonneg (v i)

theorem length_nonneg (libm : Libm K) (v : Fin 3 → K) : 0 ≤ length libm v :=
  libm.sqrt_nonneg _ (dotProduct_self_nonneg v)

theorem length_mul_self (libm : Libm K) (v : Fin 3 → K) :
    length libm v * length libm v = v ⬝ᵥ v :=
  libm.sqrt_mul_self _ (dotProduct_self_nonneg v)

theorem length_pos (libm : Libm K) (hv : v ≠ 0) : 0 < length libm v := by
  refine (length_nonneg libm v).lt_of_ne' fun hzero => hv ?_
  rw [← dotProduct_self_eq_zero, ← length_mul_self libm, hzero, zero_mul]

theorem normalize_unit (libm : Libm K) (hv : v ≠ 0) :
    normalize libm v ⬝ᵥ normalize libm v = 1 := by
  have hpos := (length_pos libm hv).ne'
  have hself := length_mul_self libm v
  rw [normalize, smul_dotProduct, dotProduct_smul, ← length, smul_eq_mul, smul_eq_mul, ← hself]
  field_simp

theorem normalize_eq_zero (libm : Libm K) (hv : v ≠ 0) (i : Fin 3) :
    normalize libm v i = 0 ↔ v i = 0 := by
  have hpos := (length_pos libm hv).ne'
  simp [normalize, ← length.eq_1, hpos]

theorem normalize_smul (libm : Libm K) (he : e ⬝ᵥ e = 1) (hr : 0 < r) :
    normalize libm (r • e) = e := by
  have hself := length_mul_self libm (r • e)
  rw [smul_dotProduct, dotProduct_smul, he, smul_eq_mul, smul_eq_mul, mul_one] at hself
  have hlength : length libm (r • e) = r :=
    (mul_self_inj_of_nonneg (length_nonneg libm _) hr.le).mp hself
  rw [normalize, ← length, hlength, smul_smul, one_div_mul_cancel hr.ne', one_smul]

/-- The axes across a direction. -/
theorem frame (libm : Libm K) (he : e ⬝ᵥ e = 1) (hup : crossProduct e up ≠ 0) :
    let s := normalize libm (crossProduct e up)
    let u := crossProduct s e
    s ⬝ᵥ s = 1 ∧ u ⬝ᵥ u = 1 ∧ s ⬝ᵥ e = 0 ∧ u ⬝ᵥ e = 0 := by
  intro s u
  have hs : s ⬝ᵥ s = 1 := normalize_unit libm hup
  have hse : s ⬝ᵥ e = 0 := by
    simp only [s, normalize, smul_dotProduct]
    rw [dotProduct_comm (crossProduct e up) e, dot_self_cross, smul_zero]
  refine ⟨hs, ?_, hse, ?_⟩
  · simp only [u, cross_dot_cross, hs, he, dotProduct_comm e s, hse]
    ring
  · rw [dotProduct_comm, dot_cross_self]

omit [IsStrictOrderedRing K] in
/-- The view has the point along its axes, which start at the eye. -/
theorem move_lookAt (libm : Libm K) (eye center up p : Fin 3 → K) :
    let f := normalize libm (center - eye)
    let s := normalize libm (crossProduct f up)
    move (lookAt libm eye center up) p =
      ![s ⬝ᵥ (p - eye), crossProduct s f ⬝ᵥ (p - eye), -(f ⬝ᵥ (p - eye))] := by
  intro f s
  have hrow : ∀ a : Fin 3 → K,
      a ⬝ᵥ (p - eye) = a 0 * p 0 + a 1 * p 1 + a 2 * p 2 - a ⬝ᵥ eye := by
    intro a
    rw [dotProduct_sub, vec3_dotProduct]
  funext i
  fin_cases i
  · simp only [move, vec3, mulVec_coord, lookAt, hrow]
    simp [s, f]
    ring
  · simp only [move, vec3, mulVec_coord, lookAt, hrow]
    simp [s, f]
    ring
  · simp only [move, vec3, mulVec_coord, lookAt, hrow]
    simp [f]
    ring

/-- A cube of which the eye looks from the middle of a side. -/
theorem move_ortho (hr : 0 < r) (x y z : K) :
    move (ortho (-r) r (-r) r 0 (r - -r)) ![x, y, -(z + r)] =
      ![x / r, y / r, (z + r) / (2 * r)] := by
  have hr0 := hr.ne'
  have htwo : r + r = 2 * r := by ring
  funext i
  fin_cases i
  · simp [move, vec3, mulVec_coord, ortho, htwo]
    field_simp
  · simp [move, vec3, mulVec_coord, ortho, htwo]
    field_simp
  · simp [move, vec3, mulVec_coord, ortho, htwo]
    field_simp
    ring

/-- The box of a light that looks at the centre of a ball, from its distance: it has the
ball. -/
theorem move_light (libm : Libm K) (he : e ⬝ᵥ e = 1) (hup : crossProduct e up ≠ 0) (hr : 0 < r)
    (hp : p ∈ ball center r) :
    let q := move (ortho (-r) r (-r) r 0 (r - -r) * lookAt libm (center - r • e) center up) p
    |q 0| ≤ 1 ∧ |q 1| ≤ 1 ∧ q 2 ∈ Set.Icc 0 1 := by
  intro q
  obtain ⟨hs, hu, hse, hue⟩ := frame libm he hup
  have hlook : center - (center - r • e) = r • e := by abel
  have haway : p - (center - r • e) = (p - center) + r • e := by abel
  have hview := move_lookAt libm (center - r • e) center up p
  simp only [hlook, normalize_smul libm he hr, haway, dotProduct_add, dotProduct_smul, hse, hue, he,
    smul_eq_mul, mul_zero, add_zero, mul_one] at hview
  have hx := abs_dotProduct_le hr.le hs hp
  have hy := abs_dotProduct_le hr.le hu hp
  obtain ⟨hlower, hupper⟩ := abs_le.mp (abs_dotProduct_le hr.le he hp)
  have hq : q = _ := (move_mul (affine_lookAt ..) p).trans
    ((congrArg _ hview).trans (move_ortho hr _ _ _))
  rw [hq]
  refine ⟨?_, ?_, ?_⟩
  · simpa [abs_div, abs_of_pos hr, div_le_one hr] using hx
  · simpa [abs_div, abs_of_pos hr, div_le_one hr] using hy
  · have hpos : 0 < 2 * r := by linarith
    exact ⟨div_nonneg (by linarith) hpos.le, (div_le_one hpos).mpr (by linarith)⟩

end Glm

end Maple
