import Mathlib.Algebra.Order.Field.Basic
import Mathlib.Data.Matrix.Mul
import Mathlib.Order.Interval.Set.Basic

/-!
# Maple.Lib.LinearBox

**A linear form on a product of intervals.** Its values at the two corners `lo` and `hi`
bound it on the box exactly if it does not fall along any axis that has a length: along
such an axis a negative coefficient takes it below its value at `lo`.
-/

namespace Maple.Lib

/-- The point of the box that leaves `lo` along one axis. -/
theorem update_mem_box {ι K : Type*} [DecidableEq ι] [PartialOrder K] {lo hi : ι → K}
    (hle : ∀ j, lo j ≤ hi j) (i j : ι) :
    Function.update lo i (hi i) j ∈ Set.Icc (lo j) (hi j) := by
  by_cases hj : j = i
  · rw [hj, Function.update_self]
    exact ⟨hle i, le_refl _⟩
  · rw [Function.update_of_ne hj]
    exact ⟨le_refl _, hle j⟩

variable {ι K : Type*} [Fintype ι] [CommRing K] [LinearOrder K] [IsStrictOrderedRing K]
variable {a lo hi p q : ι → K}

/-- From one point to a higher one the form rises, if it falls along no axis between them. -/
theorem dotProduct_le_dotProduct (hle : ∀ j, p j ≤ q j) (ha : ∀ j, p j < q j → 0 ≤ a j) :
    a ⬝ᵥ p ≤ a ⬝ᵥ q := by
  refine Finset.sum_le_sum fun j _ => ?_
  cases (hle j).eq_or_lt with
  | inl heq => rw [heq]
  | inr hlt => exact mul_le_mul_of_nonneg_left hlt.le (ha j hlt)

omit [LinearOrder K] [IsStrictOrderedRing K] in
theorem dotProduct_update [DecidableEq ι] (a lo : ι → K) (i : ι) (x : K) :
    a ⬝ᵥ Function.update lo i x = a ⬝ᵥ lo + a i * (x - lo i) := by
  have hupdate : Function.update lo i x = lo + Pi.single i (x - lo i) := by
    funext j
    by_cases hj : j = i
    · rw [hj, Function.update_self, Pi.add_apply, Pi.single_eq_same, add_sub_cancel]
    · rw [Function.update_of_ne hj, Pi.add_apply, Pi.single_eq_of_ne hj, add_zero]
  rw [hupdate, dotProduct_add, dotProduct_single]

/-- The two corners bound the form on the box. -/
theorem dotProduct_mem_Icc_iff (hle : ∀ j, lo j ≤ hi j) :
    (∀ p : ι → K, (∀ j, p j ∈ Set.Icc (lo j) (hi j)) →
      a ⬝ᵥ p ∈ Set.Icc (a ⬝ᵥ lo) (a ⬝ᵥ hi)) ↔ ∀ j, lo j < hi j → 0 ≤ a j := by
  classical
  constructor
  · intro hbounds i hlt
    have hpoint := (hbounds _ (update_mem_box hle i)).1
    rw [dotProduct_update, le_add_iff_nonneg_right] at hpoint
    exact nonneg_of_mul_nonneg_left hpoint (sub_pos.mpr hlt)
  · intro ha p hp
    constructor
    · exact dotProduct_le_dotProduct (fun j => (hp j).1) fun j hlt => ha j (hlt.trans_le (hp j).2)
    · exact dotProduct_le_dotProduct (fun j => (hp j).2) fun j hlt => ha j ((hp j).1.trans_lt hlt)

end Maple.Lib
