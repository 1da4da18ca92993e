import Mathlib.Data.Rat.BigOperators
import Maple.Lib.LinearBox
import Maple.Math.Ray

/-!
# Maple.Math.BoxTransform

`BoundingBox::transform` moves the two corners of a box and takes them for the corners of
the result, **which holds the moved content exactly if no axis along which the box has a
length is turned back**: no entry of the matrix in its column is negative. A rotation or a
flip of such an axis loses points, and the result need not even be a box.
-/

namespace Maple.Math

/-- `BoundingBox::contains` of any box. The first test fails for every point of one whose
`min.x` is `INFINITY`. -/
def BoundingBox.Contains : BoundingBox → (Fin 3 → ℚ) → Prop
  | .undefined, _ => False
  | .corners min max, point => contains min max point

/-- The axes are numbered by `Fin 3`. -/
local instance neZero_axes : NeZero 3 := ⟨by decide⟩

/-- `transform * glm::vec4(point, 1.f)`, its first three components. -/
def moved (transform : Matrix (Fin 4) (Fin 4) ℚ) (point : Fin 3 → ℚ) : Fin 3 → ℚ :=
  transform.mulVec ![point 0, point 1, point 2, 1] ∘ Fin.castSucc

variable {min max : Fin 3 → ℚ} {M : Matrix (Fin 4) (Fin 4) ℚ}

/-- A component of a moved point: a linear form and a translation. -/
theorem moved_apply (M : Matrix (Fin 4) (Fin 4) ℚ) (point : Fin 3 → ℚ) (i : Fin 3) :
    moved M point i = (fun j : Fin 3 => M i.castSucc j.castSucc) ⬝ᵥ point + M i.castSucc 3 := by
  simp only [moved, Function.comp_apply, Matrix.mulVec, dotProduct, Fin.sum_univ_four,
    Fin.sum_univ_three]
  simp

theorem contains_iff_forall {point : Fin 3 → ℚ} :
    contains min max point ↔ ∀ i, point i ∈ Set.Icc (min i) (max i) := by
  simp only [contains, not_or, not_lt, Ray.forall_axis, Set.mem_Icc, and_assoc]

/-- The transformed box holds the transformed content, axis by axis. -/
theorem transform_contains_iff (hle : ∀ i, min i ≤ max i) :
    (∀ p, contains min max p → (transform min max M).Contains (moved M p)) ↔
      ∀ i j : Fin 3, min j < max j → 0 ≤ M i.castSucc j.castSucc := by
  have hrow := fun i : Fin 3 =>
    Lib.dotProduct_mem_Icc_iff (a := fun j : Fin 3 => M i.castSucc j.castSucc) hle
  have hpoint : ∀ p, (transform min max M).Contains (moved M p) ↔ ∀ i : Fin 3,
      (fun j : Fin 3 => M i.castSucc j.castSucc) ⬝ᵥ p ∈
        Set.Icc ((fun j : Fin 3 => M i.castSucc j.castSucc) ⬝ᵥ min)
          ((fun j : Fin 3 => M i.castSucc j.castSucc) ⬝ᵥ max) := by
    intro p
    have hbox : (transform min max M).Contains (moved M p) ↔
        ∀ i, moved M p i ∈ Set.Icc (moved M min i) (moved M max i) := contains_iff_forall
    rw [hbox]
    simp only [moved_apply, Set.mem_Icc, add_le_add_iff_right]
  constructor
  · intro hall i
    refine (hrow i).mp fun p hp => ?_
    exact (hpoint p).mp (hall p (contains_iff_forall.mpr hp)) i
  · intro hall p hp
    exact (hpoint p).mpr fun i => (hrow i).mpr (hall i) p (contains_iff_forall.mp hp)

/-- A ray through a point of a box hits it. -/
theorem Ray.hit_ne_top (ray : Ray) {t : ℚ} (ht : 0 ≤ t) (hin : contains min max (ray.point t)) :
    ray.hit (.corners min max) ≠ ⊤ := by
  have hpoint := contains_iff_forall.mp hin
  have hle : ∀ i, min i ≤ max i := fun i => (hpoint i).1.trans (hpoint i).2
  intro htop
  exact (ray.hit_exact hle).2.mp htop ⟨t, ht, hpoint⟩

/-- **Transformed boxes contain the transformed contents**, so that a ray through a moved
point hits the transformed box, if and only if the matrix has no negative entry in the
column of an axis along which the box has a length. -/
theorem transform_sound_iff (hle : ∀ i, min i ≤ max i) :
    (∀ p, contains min max p → (transform min max M).Contains (moved M p) ∧
      ∀ (ray : Ray) (t : ℚ), 0 ≤ t → ray.point t = moved M p →
        ray.hit (transform min max M) ≠ ⊤) ↔
      ∀ i j : Fin 3, min j < max j → 0 ≤ M i.castSucc j.castSucc := by
  rw [← transform_contains_iff hle]
  constructor
  · exact fun hall p hp => (hall p hp).1
  · intro hall p hp
    refine ⟨hall p hp, fun ray t ht hray => ?_⟩
    have hin : contains (moved M min) (moved M max) (ray.point t) := hray ▸ hall p hp
    exact ray.hit_ne_top ht hin

/-- A move that also stretches a flat box along the axis on which it is flat. -/
theorem transform_sound_iff_flat :
    (∀ i j : Fin 3, (![0, 0, 0] : Fin 3 → ℚ) j < ![1, 1, 0] j →
      (0 : ℚ) ≤ !![1, 0, 0, 2; 0, 1, 0, 0; 0, 0, -3, 0; 0, 0, 0, 1] i.castSucc j.castSucc) ∧
    ∀ p, contains ![0, 0, 0] ![1, 1, 0] p →
      (transform ![0, 0, 0] ![1, 1, 0] !![1, 0, 0, 2; 0, 1, 0, 0; 0, 0, -3, 0; 0, 0, 0, 1]).Contains
          (moved !![1, 0, 0, 2; 0, 1, 0, 0; 0, 0, -3, 0; 0, 0, 0, 1] p) ∧
      ∀ (ray : Ray) (t : ℚ), 0 ≤ t →
        ray.point t = moved !![1, 0, 0, 2; 0, 1, 0, 0; 0, 0, -3, 0; 0, 0, 0, 1] p →
        ray.hit (transform ![0, 0, 0] ![1, 1, 0]
          !![1, 0, 0, 2; 0, 1, 0, 0; 0, 0, -3, 0; 0, 0, 0, 1]) ≠ ⊤ := by
  have hsigns : ∀ i j : Fin 3, (![0, 0, 0] : Fin 3 → ℚ) j < ![1, 1, 0] j →
      (0 : ℚ) ≤ !![1, 0, 0, 2; 0, 1, 0, 0; 0, 0, -3, 0; 0, 0, 0, 1] i.castSucc j.castSucc := by
    decide
  exact ⟨hsigns, (transform_sound_iff (by decide)).mpr hsigns⟩

/-- A quarter turn about `z`: the transformed box is empty. -/
theorem transform_quarterTurn :
    ¬ ∀ p, contains ![0, 0, 0] ![1, 1, 1] p →
      (transform ![0, 0, 0] ![1, 1, 1] !![0, -1, 0, 0; 1, 0, 0, 0; 0, 0, 1, 0; 0, 0, 0, 1]).Contains
        (moved !![0, -1, 0, 0; 1, 0, 0, 0; 0, 0, 1, 0; 0, 0, 0, 1] p) := by
  intro hall
  have hturn := (transform_contains_iff (by decide)).mp hall 0 1 (by decide)
  exact absurd hturn (by decide)

end Maple.Math
