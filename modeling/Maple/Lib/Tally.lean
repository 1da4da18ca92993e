import Mathlib.Algebra.BigOperators.Group.Finset.Piecewise
import Mathlib.Algebra.Order.Group.Int
import Mathlib.Tactic.Linarith

/-!
# Maple.Lib.Tally

**Totals of a table that is updated in place.** `Tally f B` says that the values of `f` at
any finite set of keys add up to `B` at most. An update trades the old value at its key for
the new one, so a counter that is changed by as much stays a bound.
-/

namespace Maple.Lib

variable {K : Type*}

/-- The values of the table add up to `B` at most. -/
def Tally (f : K → ℤ) (B : ℤ) : Prop := ∀ keys : Finset K, ∑ k ∈ keys, f k ≤ B

namespace Tally

variable {f : K → ℤ} {B : ℤ}

theorem zero : Tally (fun _ : K => 0) 0 := fun keys => by simp

theorem mono (h : Tally f B) {B' : ℤ} (hB : B ≤ B') : Tally f B' := fun keys =>
  (h keys).trans hB

theorem single (h : Tally f B) (k : K) : f k ≤ B := by
  simpa using h {k}

variable [DecidableEq K]

/-- **An update** trades the value at its key. -/
theorem update (h : Tally f B) (k : K) {v : ℤ} (hv : 0 ≤ v) :
    Tally (Function.update f k v) (B - f k + v) := by
  intro keys
  have hwith := h (insert k (keys \ {k}))
  rw [Finset.sum_insert (by simp)] at hwith
  by_cases hk : k ∈ keys
  · rw [Finset.sum_update_of_mem hk]
    linarith
  · rw [Finset.sdiff_singleton_eq_erase, Finset.erase_eq_of_notMem hk] at hwith
    rw [Finset.sum_update_of_notMem hk]
    linarith

end Tally

end Maple.Lib
