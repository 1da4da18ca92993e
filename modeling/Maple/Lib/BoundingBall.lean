import Mathlib.Algebra.Order.BigOperators.Ring.Finset
import Mathlib.Analysis.Convex.Basic
import Mathlib.LinearAlgebra.Matrix.DotProduct
import Mathlib.LinearAlgebra.Matrix.Notation
import Mathlib.Tactic.FieldSimp
import Mathlib.Tactic.Linarith

/-!
# Maple.Lib.BoundingBall

**Solids with rectangles at both ends, and balls around them.** Such a solid is the set of
the points on the segments between two parallel rectangles. A convex set that has its eight
corners has all of it, `mem_of_corners`.

A ball is convex, `convex_ball`, so it has the solid if it has the corners. On an axis of
length one its points are no farther from the centre than its radius, `abs_dotProduct_le`.
-/

namespace Maple.Lib

variable {K : Type*} [Field K] [LinearOrder K] [IsStrictOrderedRing K]

/-! ### Balls -/

section Ball

variable {ι : Type*} [Fintype ι] {center e p : ι → K} {radius : K}

/-- The points no farther from the centre than the radius. -/
def ball (center : ι → K) (radius : K) : Set (ι → K) :=
  { p | (p - center) ⬝ᵥ (p - center) ≤ radius * radius }

omit [IsStrictOrderedRing K] in
theorem mem_ball : p ∈ ball center radius ↔ (p - center) ⬝ᵥ (p - center) ≤ radius * radius :=
  Iff.rfl

theorem convex_ball : Convex K (ball center radius) := by
  intro p hp q hq a b ha hb hab
  have hcombine : a • p + b • q - center = a • (p - center) + b • (q - center) := by
    have hcenter : center = a • center + b • center := by rw [← add_smul, hab, one_smul]
    nth_rewrite 1 [hcenter]
    rw [smul_sub, smul_sub]
    abel
  have hdiff : 0 ≤ ((p - center) - (q - center)) ⬝ᵥ ((p - center) - (q - center)) :=
    Finset.sum_nonneg fun i _ => mul_self_nonneg _
  rw [mem_ball] at hp hq ⊢
  rw [hcombine]
  generalize p - center = u at hp hdiff ⊢
  generalize q - center = v at hq hdiff ⊢
  simp only [add_dotProduct, dotProduct_add, sub_dotProduct, dotProduct_sub, smul_dotProduct,
    dotProduct_smul, smul_eq_mul] at hdiff ⊢
  rw [dotProduct_comm v u] at hdiff ⊢
  obtain rfl : b = 1 - a := by linarith
  nlinarith [mul_nonneg (mul_nonneg ha hb) hdiff, mul_le_mul_of_nonneg_left hp ha,
    mul_le_mul_of_nonneg_left hq hb]

/-- A ball is within its radius on every axis. -/
theorem abs_dotProduct_le (hradius : 0 ≤ radius) (he : e ⬝ᵥ e = 1) (hp : p ∈ ball center radius) :
    |e ⬝ᵥ (p - center)| ≤ radius := by
  have hcauchy : (e ⬝ᵥ (p - center)) ^ 2 ≤ e ⬝ᵥ e * ((p - center) ⬝ᵥ (p - center)) := by
    simpa only [dotProduct, ← pow_two] using
      Finset.sum_mul_sq_le_sq_mul_sq Finset.univ e (p - center)
  rw [he, one_mul] at hcauchy
  exact abs_le_of_sq_le_sq (hcauchy.trans (hp.trans_eq (pow_two radius).symm)) hradius

end Ball

/-- A running maximum. -/
theorem le_foldl_max {α R : Type*} [LinearOrder R] (f : α → R) (l : List α) (a : R) :
    a ≤ l.foldl (fun r i => max r (f i)) a ∧ ∀ i ∈ l, f i ≤ l.foldl (fun r i => max r (f i)) a := by
  induction l generalizing a with
  | nil => simp
  | cons i l ih =>
      obtain ⟨hstart, hmem⟩ := ih (max a (f i))
      refine ⟨(le_max_left _ _).trans hstart, fun j hj => ?_⟩
      obtain rfl | hj := List.mem_cons.mp hj
      · exact (le_max_right _ _).trans hstart
      · exact hmem j hj

/-! ### Rectangles -/

section Rectangle

variable {S : Set (Fin 3 → K)} {w h z w' h' z' x y t : K}

/-- An affine function of a parameter between `-1` and `1`. -/
theorem mem_of_ends (hS : Convex K S) (hneg : ![-w, y, z] ∈ S) (hpos : ![w, y, z] ∈ S)
    (hx : |x| ≤ 1) : ![x * w, y, z] ∈ S := by
  obtain ⟨hlower, hupper⟩ := abs_le.mp hx
  have hmem := hS.add_smul_sub_mem hneg hpos (t := (x + 1) / 2) ⟨by linarith, by linarith⟩
  convert hmem using 1
  funext i
  fin_cases i <;> simp
  ring

theorem mem_of_rectangle (hS : Convex K S)
    (hcorners : ∀ x ∈ ({-1, 1} : Set K), ∀ y ∈ ({-1, 1} : Set K), ![x * w, y * h, z] ∈ S)
    (hx : |x| ≤ 1) (hy : |y| ≤ 1) : ![x * w, y * h, z] ∈ S := by
  obtain ⟨hlower, hupper⟩ := abs_le.mp hy
  have hside : ∀ x ∈ ({-1, 1} : Set K), ![x * w, y * h, z] ∈ S := by
    intro x hx
    have hmem := hS.add_smul_sub_mem (hcorners x hx (-1) (by simp)) (hcorners x hx 1 (by simp))
      (t := (y + 1) / 2) ⟨by linarith, by linarith⟩
    convert hmem using 1
    funext i
    fin_cases i <;> simp
    ring
  exact mem_of_ends hS (by simpa using hside (-1) (by simp)) (by simpa using hside 1 (by simp)) hx

/-- A point between two rectangles, in the rectangle at its place between them. -/
theorem mem_of_corners (hS : Convex K S)
    (hcorners : ∀ x ∈ ({-1, 1} : Set K), ∀ y ∈ ({-1, 1} : Set K), ![x * w, y * h, z] ∈ S)
    (hcorners' : ∀ x ∈ ({-1, 1} : Set K), ∀ y ∈ ({-1, 1} : Set K), ![x * w', y * h', z'] ∈ S)
    (ht : t ∈ Set.Icc 0 1) (hw : 0 < w + t * (w' - w)) (hh : 0 < h + t * (h' - h))
    (hx : |x| ≤ w + t * (w' - w)) (hy : |y| ≤ h + t * (h' - h)) :
    ![x, y, z + t * (z' - z)] ∈ S := by
  have hx' : |x / (w + t * (w' - w))| ≤ 1 := by rwa [abs_div, abs_of_pos hw, div_le_one hw]
  have hy' : |y / (h + t * (h' - h))| ≤ 1 := by rwa [abs_div, abs_of_pos hh, div_le_one hh]
  have hmem := hS.add_smul_sub_mem (mem_of_rectangle hS hcorners hx' hy')
    (mem_of_rectangle hS hcorners' hx' hy') ht
  have hw0 := hw.ne'
  have hh0 := hh.ne'
  convert hmem using 1
  funext i
  fin_cases i <;> simp <;> field_simp

end Rectangle

end Maple.Lib
