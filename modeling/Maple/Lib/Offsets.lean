import Mathlib.Algebra.GroupWithZero.Nat
import Mathlib.Algebra.Order.BigOperators.Group.List
import Mathlib.Algebra.Order.Group.Nat
import Mathlib.Order.CompletePartialOrder
import Mathlib.Order.Interval.Set.Basic
import Mathlib.Order.Interval.Set.Disjoint

/-!
# Maple.Lib.Offsets

**Items laid out one behind the other.** The offset of an item is the sum of the sizes
before it, so the byte ranges of two items are disjoint (`disjoint_offsets`) and all of
them end before the total size.
-/

namespace Maple.Lib

/-- The offsets of items of these sizes, the first at `start`. -/
def offsets (start : Nat) : List Nat → List Nat
  | [] => []
  | size :: sizes => start :: offsets (start + size) sizes

theorem le_of_mem_offsets {start o : Nat} {sizes : List Nat} (h : o ∈ offsets start sizes) :
    o ≤ start + sizes.sum := by
  induction sizes generalizing start with
  | nil => exact absurd h List.not_mem_nil
  | cons size sizes ih =>
      rw [List.sum_cons, ← Nat.add_assoc]
      cases List.mem_cons.mp h with
      | inl heq => omega
      | inr hmem => exact ih hmem

/-- Every item lies between the start and the end of all. -/
theorem mem_offsets {start : Nat} {sizes : List Nat} {item : Nat × Nat}
    (h : item ∈ (offsets start sizes).zip sizes) :
    start ≤ item.1 ∧ item.1 + item.2 ≤ start + sizes.sum := by
  induction sizes generalizing start with
  | nil => exact absurd h List.not_mem_nil
  | cons size sizes ih =>
      rw [List.sum_cons]
      cases List.mem_cons.mp h with
      | inl heq =>
          subst heq
          exact ⟨le_rfl, by omega⟩
      | inr hmem =>
          have hbounds := ih hmem
          omega

/-- No two items share a byte. -/
theorem disjoint_offsets (start : Nat) (sizes : List Nat) :
    ((offsets start sizes).zip sizes).Pairwise fun a b =>
      Disjoint (Set.Ico a.1 (a.1 + a.2)) (Set.Ico b.1 (b.1 + b.2)) := by
  induction sizes generalizing start with
  | nil => exact List.Pairwise.nil
  | cons size sizes ih =>
      refine List.pairwise_cons.mpr ⟨fun item hitem => ?_, ih _⟩
      have hbehind := (mem_offsets hitem).1
      exact Set.disjoint_left.mpr fun x hx hx' =>
        absurd hx.2 (not_lt.mpr (hbehind.trans hx'.1))

/-- Smaller sizes with the same sum are the same. -/
theorem sum_map_eq_iff {α : Type*} {l : List α} {f g : α → Nat} (hle : ∀ a ∈ l, f a ≤ g a) :
    (l.map f).sum = (l.map g).sum ↔ ∀ a ∈ l, f a = g a := by
  constructor
  · intro hsum a ha
    by_contra hne
    exact hsum.not_lt (List.sum_lt_sum f g hle ⟨a, ha, lt_of_le_of_ne (hle a ha) hne⟩)
  · exact fun h => congrArg List.sum (List.map_congr_left h)

end Maple.Lib
