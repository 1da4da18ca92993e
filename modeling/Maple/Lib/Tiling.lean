import Mathlib.Order.CompletePartialOrder
import Mathlib.Topology.Order

/-!
# Maple.Lib.Tiling

**Tilings.** The sets of a list tile a set if they make it up and have no inner
points in common. A tiling may be refined: each of its tiles may be tiled itself
(`Tiles.flatMap`).
-/

namespace Maple.Lib

variable {X ι : Type*} [TopologicalSpace X]

/-- The sets of the list `ss` tile the set `t`. -/
structure Tiles (ss : List (Set X)) (t : Set X) : Prop where
  union : ∀ x, x ∈ t ↔ ∃ s ∈ ss, x ∈ s
  disjoint : ss.Pairwise fun s s' => Disjoint (interior s) (interior s')

namespace Tiles

theorem singleton (t : Set X) : Tiles [t] t := ⟨fun x => by simp, List.pairwise_singleton _ _⟩

theorem subset {ss : List (Set X)} {s t : Set X} (h : Tiles ss t) (hs : s ∈ ss) : s ⊆ t :=
  fun x hx => (h.union x).mpr ⟨s, hs, hx⟩

/-- **Refinement.** -/
theorem flatMap {is : List ι} {ss : ι → List (Set X)} {t : ι → Set X} {u : Set X}
    (h : ∀ i, Tiles (ss i) (t i)) (hu : Tiles (is.map t) u) : Tiles (is.flatMap ss) u := by
  refine ⟨fun x => ?_, List.pairwise_flatMap.mpr ⟨fun i _ => (h i).disjoint, ?_⟩⟩
  · rw [hu.union]
    constructor
    · rintro ⟨s, hs, hx⟩
      obtain ⟨i, hi, rfl⟩ := List.mem_map.mp hs
      obtain ⟨s, hs, hx⟩ := ((h i).union x).mp hx
      exact ⟨s, List.mem_flatMap.mpr ⟨i, hi, hs⟩, hx⟩
    · rintro ⟨s, hs, hx⟩
      obtain ⟨i, hi, hs⟩ := List.mem_flatMap.mp hs
      exact ⟨t i, List.mem_map_of_mem hi, ((h i).union x).mpr ⟨s, hs, hx⟩⟩
  · refine (List.pairwise_map.mp hu.disjoint).imp fun {i j} hij s hs s' hs' => ?_
    exact hij.mono (interior_mono ((h i).subset hs)) (interior_mono ((h j).subset hs'))

end Tiles

end Maple.Lib
