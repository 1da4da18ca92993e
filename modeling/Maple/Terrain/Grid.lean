import Mathlib.Algebra.Order.Ring.Nat
import Mathlib.Tactic.Ring
import Maple.Terrain.QuadCollapseMesh

/-!
# Maple.Terrain.Grid

**The vertices of all levels.** Level `l` of a mesh with `2 ^ k + 1` vertices a
side has the `2 ^ l + 1` by `2 ^ l + 1` vertices that are `2 ^ (k - l)` apart. The
pool holds the levels one after the other and each level row by row, so a vertex
is found by its level, column and row (`vertIndex`), and no two vertices share a
place (`vertIndex_inj`).
-/

namespace Maple.Terrain

/-- The place of the first vertex of level `l` in the pool. -/
def vertOffset : Nat → Nat
  | 0 => 0
  | l + 1 => vertOffset l + (2 ^ l + 1) * (2 ^ l + 1)

/-- The place of the vertex in column `i` and row `j` of level `l`. -/
def vertIndex (l i j : Nat) : Nat := vertOffset l + j * (2 ^ l + 1) + i

/-- A vertex of a mesh with the levels `0` to `k`. -/
structure InGrid (k l i j : Nat) : Prop where
  level : l ≤ k
  column : i ≤ 2 ^ l
  row : j ≤ 2 ^ l

theorem vertOffset_mono {l l' : Nat} (h : l ≤ l') : vertOffset l ≤ vertOffset l' := by
  induction h with
  | refl => exact Nat.le_refl _
  | step _ ih => exact Nat.le_trans ih (Nat.le_add_right _ _)

theorem vertOffset_le_vertIndex (l i j : Nat) : vertOffset l ≤ vertIndex l i j := by
  unfold vertIndex
  omega

theorem vertIndex_lt {l i j : Nat} (hi : i ≤ 2 ^ l) (hj : j ≤ 2 ^ l) :
    vertIndex l i j < vertOffset (l + 1) := by
  have hrow : j * (2 ^ l + 1) ≤ 2 ^ l * (2 ^ l + 1) := Nat.mul_le_mul_right _ hj
  have hsquare : (2 ^ l + 1) * (2 ^ l + 1) = 2 ^ l * (2 ^ l + 1) + (2 ^ l + 1) := by ring
  rw [vertOffset, vertIndex]
  omega

theorem InGrid.lt {k l i j : Nat} (h : InGrid k l i j) : vertIndex l i j < vertOffset (k + 1) :=
  Nat.lt_of_lt_of_le (vertIndex_lt h.column h.row) (vertOffset_mono (Nat.succ_le_succ h.level))

/-- **Distinct vertices have distinct places.** -/
theorem vertIndex_inj {k l i j l' i' j' : Nat} (h : InGrid k l i j) (h' : InGrid k l' i' j')
    (heq : vertIndex l i j = vertIndex l' i' j') : l = l' ∧ i = i' ∧ j = j' := by
  have hlevel : ∀ {l i j l' i' j'}, InGrid k l i j → InGrid k l' i' j' →
      vertIndex l i j = vertIndex l' i' j' → l' ≤ l := by
    intro l i j l' i' j' h h' heq
    by_contra hlt
    have hbound := vertOffset_mono (show l + 1 ≤ l' by omega)
    have hlow := vertOffset_le_vertIndex l' i' j'
    have hhigh := vertIndex_lt h.column h.row
    omega
  obtain rfl : l = l' := Nat.le_antisymm (hlevel h' h heq.symm) (hlevel h h' heq)
  have hflat : j * (2 ^ l + 1) + i = j' * (2 ^ l + 1) + i' := by
    unfold vertIndex at heq
    omega
  -- column and row are remainder and quotient by the length of a row
  have hmod : ∀ {i j}, i ≤ 2 ^ l → (j * (2 ^ l + 1) + i) % (2 ^ l + 1) = i := by
    intro i j hi
    rw [Nat.mul_comm, Nat.mul_add_mod, Nat.mod_eq_of_lt (Nat.lt_succ_of_le hi)]
  have hi : i = i' := by rw [← hmod h.column, hflat, hmod h'.column]
  refine ⟨rfl, hi, ?_⟩
  subst hi
  exact Nat.eq_of_mul_eq_mul_right (Nat.succ_pos _) (Nat.add_right_cancel hflat)

/-! ### Collapsing a vertex -/

/-- A column (or row) `i` may be collapsed to the column `i'` of the level above: the
same one, or one of its two neighbours if there is none. -/
def Collapses (i i' : Nat) : Prop := i ≤ 2 * i' + 1 ∧ 2 * i' ≤ i + 1

theorem Collapses.le {i i' l : Nat} (h : Collapses i i') (hi : i ≤ 2 ^ (l + 1)) : i' ≤ 2 ^ l := by
  unfold Collapses at h
  rw [Nat.pow_succ] at hi
  omega

/-- Only one column of the level above is at the same place. -/
theorem Collapses.even {i i' : Nat} (h : Collapses (2 * i) i') : i' = i := by
  unfold Collapses at h
  omega

/-! ### Quads -/

open QuadCollapseMesh (dx dy)

/-- A quad: the square between the columns `a` and `a + 1` and the rows `b` and
`b + 1` of its level. -/
structure InQuads (k l a b : Nat) : Prop where
  level : l ≤ k
  column : a < 2 ^ l
  row : b < 2 ^ l

@[simp] theorem dx_zero : dx 0 = 0 := rfl
@[simp] theorem dx_one : dx 1 = 1 := rfl
@[simp] theorem dx_two : dx 2 = 1 := rfl
@[simp] theorem dx_three : dx 3 = 0 := rfl
@[simp] theorem dy_zero : dy 0 = 0 := rfl
@[simp] theorem dy_one : dy 1 = 0 := rfl
@[simp] theorem dy_two : dy 2 = 1 := rfl
@[simp] theorem dy_three : dy 3 = 1 := rfl

theorem dx_le (c : Fin 4) : dx c ≤ 1 := by
  revert c
  decide

theorem dy_le (c : Fin 4) : dy c ≤ 1 := by
  revert c
  decide

/-- The corners of a quad. -/
theorem InQuads.corner {k l a b : Nat} (h : InQuads k l a b) (c : Fin 4) :
    InGrid k l (a + dx c) (b + dy c) :=
  ⟨h.level, by have := dx_le c; have := h.column; omega, by have := dy_le c; have := h.row; omega⟩

/-- The children of a quad. -/
theorem InQuads.child {k l a b : Nat} (h : InQuads k l a b) (hl : l < k) (c : Fin 4) :
    InQuads k (l + 1) (2 * a + dx c) (2 * b + dy c) := by
  have hx := dx_le c
  have hy := dy_le c
  have ha := h.column
  have hb := h.row
  exact ⟨hl, by rw [Nat.pow_succ]; omega, by rw [Nat.pow_succ]; omega⟩

/-- A corner number is given by its offsets. -/
theorem corner_ext : ∀ {c d : Fin 4}, dx c = dx d → dy c = dy d → c = d := by
  decide

/-- Every pair of offsets belongs to a corner. -/
theorem exists_corner : ∀ x < 2, ∀ y < 2, ∃ c : Fin 4, dx c = x ∧ dy c = y := by
  decide

end Maple.Terrain
