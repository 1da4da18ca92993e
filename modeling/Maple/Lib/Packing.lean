import Mathlib.Data.Int.ConditionallyCompleteOrder
import Mathlib.Data.Int.Interval
import Mathlib.Data.Set.Disjoint
import Mathlib.Data.Set.Prod
import Mathlib.Logic.Pairwise
import Mathlib.Order.CompletePartialOrder
import Mathlib.Order.ConditionallyCompleteLattice.Basic

/-!
# Maple.Lib.Packing

**Packings**: a family of pairwise disjoint areas inside a whole. An allocator
hands out areas by cutting them from areas it already owns, so a packing changes
in two ways only: areas shrink (`Packing.shrink`), or part of one area moves to
another index (`Packing.move`).

The areas of the plane used below are half-open rectangles (`rect`).
-/

namespace Maple.Lib

variable {ι α : Type*}

/-- Pairwise disjoint areas inside `whole`. -/
structure Packing (whole : Set α) (area : ι → Set α) : Prop where
  inside : ∀ i, area i ⊆ whole
  disjoint : ∀ i j, i ≠ j → Disjoint (area i) (area j)

namespace Packing

variable {whole : Set α} {area area' : ι → Set α}

/-- Areas may shrink. -/
theorem shrink (h : Packing whole area) (hle : ∀ i, area' i ⊆ area i) : Packing whole area' :=
  ⟨fun i => (hle i).trans (h.inside i),
    fun i j hij => Set.disjoint_of_subset (hle i) (hle j) (h.disjoint i j hij)⟩

/-- Part of the area `j` becomes the area `i`; what remains of `j` is disjoint
from it. The former area `i` is given up. -/
theorem move (h : Packing whole area) {i j : ι} (hi : area' i ⊆ area j)
    (hj : area' j ⊆ area j) (hij : Disjoint (area' i) (area' j))
    (hrest : ∀ k, k ≠ i → k ≠ j → area' k ⊆ area k) : Packing whole area' := by
  -- away from `i`, the family has only shrunk
  have hle : ∀ k, k ≠ i → area' k ⊆ area k := by
    intro k hki
    by_cases hkj : k = j
    · exact hkj ▸ hj
    · exact hrest k hki hkj
  have hnew : ∀ k, k ≠ i → Disjoint (area' i) (area' k) := by
    intro k hki
    by_cases hkj : k = j
    · exact hkj ▸ hij
    · exact Set.disjoint_of_subset hi (hle k hki) (h.disjoint j k (Ne.symm hkj))
  refine ⟨fun k => ?_, fun k l hkl => ?_⟩
  · by_cases hki : k = i
    · exact hki ▸ hi.trans (h.inside j)
    · exact (hle k hki).trans (h.inside k)
  · by_cases hki : k = i
    · rw [hki]
      exact hnew l (hki ▸ Ne.symm hkl)
    · by_cases hli : l = i
      · rw [hli]
        exact (hnew k hki).symm
      · exact Set.disjoint_of_subset (hle k hki) (hle l hli) (h.disjoint k l hkl)

end Packing

/-- The cells of a rectangle given by its left, right, top and bottom edge. -/
def rect (l r t b : ℤ) : Set (ℤ × ℤ) := Set.Ico l r ×ˢ Set.Ico t b

@[simp]
theorem mem_rect {l r t b : ℤ} {c : ℤ × ℤ} :
    c ∈ rect l r t b ↔ (l ≤ c.1 ∧ c.1 < r) ∧ t ≤ c.2 ∧ c.2 < b := Iff.rfl

/-- A nonempty rectangle inside another one has its edges inside. -/
theorem edges_of_rect_subset {l r t b l' r' t' b' : ℤ} (hlr : l < r) (htb : t < b)
    (h : rect l r t b ⊆ rect l' r' t' b') : l' ≤ l ∧ r ≤ r' ∧ t' ≤ t ∧ b ≤ b' := by
  have hlow := h (show (l, t) ∈ rect l r t b from ⟨⟨le_rfl, hlr⟩, le_rfl, htb⟩)
  have hhigh := h (show (r - 1, b - 1) ∈ rect l r t b by
    simp only [mem_rect]
    omega)
  simp only [mem_rect] at hlow hhigh
  omega

end Maple.Lib
