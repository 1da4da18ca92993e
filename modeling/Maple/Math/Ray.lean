import Mathlib.Data.Fin.VecNotation
import Mathlib.Data.Fintype.EquivFin
import Mathlib.Data.Rat.Defs
import Mathlib.LinearAlgebra.Matrix.Notation
import Mathlib.Order.WithBot
import Maple.Lib.Nearest
import Maple.Lib.RayBox

/-!
# Maple.Math.Ray

`Ray::hit` of `Math/Ray.cpp`: **ray and box intersection is exact.** The code tries the
six faces of the box one after the other and keeps the least distance. A face is
tried only where the origin is on its outer side and the direction points at it, so a
face that passes is one the ray enters (`Lib.faceTimes`).

Numbers are rational, a `glm::vec3` is a vector with the indices `0`, `1` and `2` for
`x`, `y` and `z`, and a distance of `INFINITY` is `⊤`.
-/

namespace Maple.Math

/-- `BoundingBox`. The default constructor and `clear` give a box whose `min.x` is
`INFINITY`. -/
inductive BoundingBox where
  | undefined
  | corners (min max : Fin 3 → ℚ)

/-- `Ray`; its constructor's `normalize` is not assumed. -/
structure Ray where
  origin : Fin 3 → ℚ
  direction : Fin 3 → ℚ

/-- `BoundingBox::contains`. -/
def contains (min max point : Fin 3 → ℚ) : Prop :=
  ¬ (point 0 < min 0 ∨ max 0 < point 0 ∨ point 1 < min 1 ∨ max 1 < point 1 ∨
    point 2 < min 2 ∨ max 2 < point 2)

instance (min max point : Fin 3 → ℚ) : Decidable (contains min max point) :=
  inferInstanceAs (Decidable (¬ _))

/-- `BoundingBox::transform` of a box with these corners: the two corners are moved. -/
def transform (min max : Fin 3 → ℚ) (transform : Matrix (Fin 4) (Fin 4) ℚ) : BoundingBox :=
  let moved := fun corner : Fin 3 → ℚ =>
    transform.mulVec ![corner 0, corner 1, corner 2, 1] ∘ Fin.castSucc
  .corners (moved min) (moved max)

namespace Ray

/-- `origin + x * direction`. -/
def point (ray : Ray) (x : ℚ) : Fin 3 → ℚ := fun i => ray.origin i + x * ray.direction i

/-- The test of one face: whether it is tried, its distance, and the other two axes on
which the point must be inside. -/
def face (ray : Ray) (min max : Fin 3 → ℚ) (tried : Prop) [Decidable tried] (x : ℚ) (j k : Fin 3)
    (dist : WithTop ℚ) : WithTop ℚ :=
  if tried then
    if (x : WithTop ℚ) < dist then
      let point := ray.point x
      if point j ≥ min j ∧ point j ≤ max j ∧ point k ≥ min k ∧ point k ≤ max k then x else dist
    else dist
  else dist

/-- `Ray::hit`. -/
def hit (ray : Ray) : BoundingBox → WithTop ℚ
  | .undefined => ⊤
  | .corners min max =>
    let origin := ray.origin
    let direction := ray.direction
    if contains min max origin then 0
    else
      let dist := ⊤
      let dist := ray.face min max (origin 0 < min 0 ∧ direction 0 > 0)
        ((min 0 - origin 0) / direction 0) 1 2 dist
      let dist := ray.face min max (origin 0 > max 0 ∧ direction 0 < 0)
        ((max 0 - origin 0) / direction 0) 1 2 dist
      let dist := ray.face min max (origin 1 < min 1 ∧ direction 1 > 0)
        ((min 1 - origin 1) / direction 1) 0 2 dist
      let dist := ray.face min max (origin 1 > max 1 ∧ direction 1 < 0)
        ((max 1 - origin 1) / direction 1) 0 2 dist
      let dist := ray.face min max (origin 2 < min 2 ∧ direction 2 > 0)
        ((min 2 - origin 2) / direction 2) 0 1 dist
      ray.face min max (origin 2 > max 2 ∧ direction 2 < 0)
        ((max 2 - origin 2) / direction 2) 0 1 dist

/-! ### One face -/

variable (ray : Ray) {min max : Fin 3 → ℚ}

/-- The point is between the two faces of an axis at time `x`. -/
def Within (min max : Fin 3 → ℚ) (i : Fin 3) (x : ℚ) : Prop :=
  ray.origin i + x * ray.direction i ∈ Set.Icc (min i) (max i)

instance (min max : Fin 3 → ℚ) (i : Fin 3) (x : ℚ) : Decidable (ray.Within min max i x) :=
  inferInstanceAs (Decidable (_ ∧ _))

/-- A face lowers the least distance to its own if it passes. -/
theorem face_eq_min (tried : Prop) [Decidable tried] (x : ℚ) (j k : Fin 3) (dist : WithTop ℚ) :
    ray.face min max tried x j k dist =
      Min.min dist (if tried ∧ ray.Within min max j x ∧ ray.Within min max k x then (x : WithTop ℚ)
        else ⊤) := by
  have hpoint : (ray.point x j ≥ min j ∧ ray.point x j ≤ max j ∧
      ray.point x k ≥ min k ∧ ray.point x k ≤ max k) ↔
      ray.Within min max j x ∧ ray.Within min max k x :=
    (and_assoc (a := ray.point x j ≥ min j)).symm
  unfold face
  by_cases htried : tried
  · rw [if_pos htried]
    by_cases hlt : (x : WithTop ℚ) < dist
    · rw [if_pos hlt]
      by_cases hin : ray.Within min max j x ∧ ray.Within min max k x
      · rw [if_pos (hpoint.mpr hin), if_pos ⟨htried, hin⟩]
        exact (min_eq_right hlt.le).symm
      · rw [if_neg (hpoint.not.mpr hin), if_neg fun hand => hin hand.2]
        exact (min_top_right dist).symm
    · rw [if_neg hlt]
      by_cases hin : ray.Within min max j x ∧ ray.Within min max k x
      · rw [if_pos ⟨htried, hin⟩]
        exact (min_eq_left (not_lt.mp hlt)).symm
      · rw [if_neg fun hand => hin hand.2]
        exact (min_top_right dist).symm
  · rw [if_neg htried, if_neg fun hand => htried hand.1]
    exact (min_top_right dist).symm

/-- The two faces of an axis pass exactly at the times at which the ray enters them. -/
theorem faces_union {i : Fin 3} (hle : min i ≤ max i) (inside : ℚ → Prop) :
    {t | ((ray.origin i < min i ∧ ray.direction i > 0) ∧
          inside ((min i - ray.origin i) / ray.direction i)) ∧
        t = (min i - ray.origin i) / ray.direction i} ∪
      {t | ((ray.origin i > max i ∧ ray.direction i < 0) ∧
          inside ((max i - ray.origin i) / ray.direction i)) ∧
        t = (max i - ray.origin i) / ray.direction i} =
      {t | Lib.Enters (ray.origin i) (ray.direction i) (min i) (max i) t ∧
        ray.Within min max i t ∧ inside t} := by
  ext t
  constructor
  · intro hface
    cases hface with
    | inl hface =>
        obtain ⟨⟨⟨hout, hd⟩, hin⟩, rfl⟩ := hface
        have henters : Lib.Enters (ray.origin i) (ray.direction i) (min i) (max i) _ :=
          .below hout hd rfl
        exact ⟨henters, henters.mem hle, hin⟩
    | inr hface =>
        obtain ⟨⟨⟨hout, hd⟩, hin⟩, rfl⟩ := hface
        have henters : Lib.Enters (ray.origin i) (ray.direction i) (min i) (max i) _ :=
          .above hout hd rfl
        exact ⟨henters, henters.mem hle, hin⟩
  · intro htime
    obtain ⟨henters, -, hin⟩ := htime
    cases henters with
    | below hout hd ht => exact .inl ⟨⟨⟨hout, hd⟩, ht ▸ hin⟩, ht⟩
    | above hout hd ht => exact .inr ⟨⟨⟨hout, hd⟩, ht ▸ hin⟩, ht⟩

/-! ### The whole test -/

theorem forall_axis {p : Fin 3 → Prop} : (∀ i, p i) ↔ p 0 ∧ p 1 ∧ p 2 := by
  rw [Fin.forall_fin_succ, Fin.forall_fin_two]
  rfl

theorem contains_iff : contains min max ray.origin ↔
    Lib.InBox ray.origin ray.direction min max 0 := by
  simp only [contains, not_or, not_lt, Lib.InBox, forall_axis, Set.mem_Icc, zero_mul, add_zero,
    and_assoc]

/-- The entered faces, axis by axis, with the tests of the code. -/
theorem faceTimes_eq : Lib.faceTimes ray.origin ray.direction min max =
    {t | Lib.Enters (ray.origin 0) (ray.direction 0) (min 0) (max 0) t ∧
        ray.Within min max 0 t ∧ ray.Within min max 1 t ∧ ray.Within min max 2 t} ∪
      {t | Lib.Enters (ray.origin 1) (ray.direction 1) (min 1) (max 1) t ∧
        ray.Within min max 1 t ∧ ray.Within min max 0 t ∧ ray.Within min max 2 t} ∪
      {t | Lib.Enters (ray.origin 2) (ray.direction 2) (min 2) (max 2) t ∧
        ray.Within min max 2 t ∧ ray.Within min max 0 t ∧ ray.Within min max 1 t} := by
  ext t
  have hbox : Lib.InBox ray.origin ray.direction min max t ↔
      ray.Within min max 0 t ∧ ray.Within min max 1 t ∧ ray.Within min max 2 t := forall_axis
  have hy := and_left_comm (a := ray.Within min max 0 t) (b := ray.Within min max 1 t)
    (c := ray.Within min max 2 t)
  have hz := and_rotate (a := ray.Within min max 2 t) (b := ray.Within min max 0 t)
    (c := ray.Within min max 1 t)
  simp only [Lib.faceTimes, Set.mem_ofPred_eq, Set.mem_union, hbox]
  constructor
  · intro htime
    obtain ⟨i, henters, hin⟩ := htime
    match i with
    | 0 => exact .inl (.inl ⟨henters, hin⟩)
    | 1 => exact .inl (.inr ⟨henters, hy.mp hin⟩)
    | 2 => exact .inr ⟨henters, hz.mpr hin⟩
  · intro htime
    cases htime with
    | inl htime =>
        cases htime with
        | inl hx => exact ⟨0, hx⟩
        | inr htime => exact ⟨1, htime.1, hy.mpr htime.2⟩
    | inr htime => exact ⟨2, htime.1, hz.mp htime.2⟩

/-- The running minimum is the first time on an entered face. -/
theorem hit_outside (hle : ∀ i, min i ≤ max i) (hout : ¬ contains min max ray.origin) :
    Lib.LeastOf (Lib.faceTimes ray.origin ray.direction min max)
      (ray.hit (.corners min max)) := by
  simp only [hit, if_neg hout, face_eq_min]
  have hstart : Lib.LeastOf ∅ (⊤ : WithTop ℚ) := .top rfl
  refine ((((((hstart.union (.ite _ _)).union (.ite _ _)).union (.ite _ _)).union
    (.ite _ _)).union (.ite _ _)).union (.ite _ _)).congr ?_
  rw [Set.empty_union, Set.union_assoc, Set.union_assoc, Set.union_assoc, Set.union_assoc,
    ray.faces_union (hle 2) fun t => ray.Within min max 0 t ∧ ray.Within min max 1 t,
    ← Set.union_assoc {t | _ ∧ t = (min 1 - _) / _},
    ray.faces_union (hle 1) fun t => ray.Within min max 0 t ∧ ray.Within min max 2 t,
    ← Set.union_assoc,
    ray.faces_union (hle 0) fun t => ray.Within min max 1 t ∧ ray.Within min max 2 t,
    faceTimes_eq, Set.union_assoc]

theorem hit_least (hle : ∀ i, min i ≤ max i) :
    Lib.LeastOf (Lib.insideTimes ray.origin ray.direction min max)
      (ray.hit (.corners min max)) := by
  by_cases hcontains : contains min max ray.origin
  · have hzero : ray.hit (.corners min max) = ((0 : ℚ) : WithTop ℚ) := if_pos hcontains
    rw [hzero]
    exact .coe ⟨⟨le_refl _, ray.contains_iff.mp hcontains⟩, fun t ht => ht.1⟩
  · have hout := ray.contains_iff.not.mp hcontains
    have hface := ray.hit_outside hle hcontains
    cases hhit : ray.hit (.corners min max) with
    | top =>
        have hempty := hface.eq_top_iff.mp hhit
        exact .top ((Lib.insideTimes_eq_empty_iff hout).mpr hempty)
    | coe t =>
        have hleast := hface.eq_coe_iff.mp hhit
        exact .coe ((Lib.isLeast_insideTimes_iff hout).mpr hleast)

/-- `hit` returns the least distance at which the ray is in the closed box, and
`INFINITY` exactly if it never is. -/
theorem hit_exact (hle : ∀ i, min i ≤ max i) :
    (∀ t : ℚ, ray.hit (.corners min max) = t ↔
      IsLeast {t | 0 ≤ t ∧ ∀ i, min i ≤ ray.point t i ∧ ray.point t i ≤ max i} t) ∧
    (ray.hit (.corners min max) = ⊤ ↔
      ¬ ∃ t, 0 ≤ t ∧ ∀ i, min i ≤ ray.point t i ∧ ray.point t i ≤ max i) := by
  have hleast := ray.hit_least hle
  constructor
  · exact fun t => hleast.eq_coe_iff
  · rw [hleast.eq_top_iff, Set.eq_empty_iff_forall_notMem, not_exists]
    rfl

/-- A ray along a diagonal, through an edge of the box. -/
theorem hit_exact_edge :
    IsLeast {t : ℚ | 0 ≤ t ∧ ∀ i, ![0, 0, 0] i ≤ (⟨![-1, -1, 0], ![1, 1, 0]⟩ : Ray).point t i ∧
      (⟨![-1, -1, 0], ![1, 1, 0]⟩ : Ray).point t i ≤ ![1, 1, 1] i} 1 := by
  have hle : ∀ i, (![0, 0, 0] : Fin 3 → ℚ) i ≤ ![1, 1, 1] i := by decide
  exact ((hit_exact ⟨![-1, -1, 0], ![1, 1, 0]⟩ hle).1 1).mp (by decide +kernel)

end Ray

end Maple.Math
