import Mathlib.Algebra.Group.Basic
import Mathlib.Data.List.OfFn
import Mathlib.Data.Fin.Basic
import Mathlib.Algebra.Group.Int.Defs

/-!
# Maple.Lib.Table

**Tables.** A table of `w` columns of `h` entries, written down column by column, has the entry
`(x, y)` at position `x * h + y` (`columns_getElem?`). A table that is zero around its border is
known from one corner and the differences across each of its entries (`eq_of_differences`).
-/

namespace Maple.Lib

variable {α : Type*} {w h : Nat}

/-- The entries of a table, column by column. -/
def columns (f : Fin w → Fin h → α) : List α :=
  (List.ofFn fun x => List.ofFn fun y => f x y).flatten

theorem columns_eq_ofFn (f : Fin w → Fin h → α) :
    columns f = List.ofFn fun p : Fin (w * h) => f p.divNat p.modNat := by
  rw [List.ofFn_mul]
  refine congrArg List.flatten (List.ofFn_inj.mpr (funext fun x => List.ofFn_inj.mpr ?_))
  funext y
  have hdiv : (x * h + y) / h = x := by
    rw [Nat.mul_comm, Nat.mul_add_div (y.pos), Nat.div_eq_of_lt y.isLt, Nat.add_zero]
  have hmod : (x * h + y) % h = y := by
    rw [Nat.mul_comm, Nat.mul_add_mod, Nat.mod_eq_of_lt y.isLt]
  exact congrArg₂ f (Fin.ext hdiv.symm) (Fin.ext hmod.symm)

@[simp] theorem length_columns (f : Fin w → Fin h → α) : (columns f).length = w * h := by
  rw [columns_eq_ofFn, List.length_ofFn]

/-- What is at a position. -/
theorem columns_getElem?_eq (f : Fin w → Fin h → α) (p : Fin (w * h)) :
    (columns f)[p.val]? = some (f p.divNat p.modNat) := by
  rw [columns_eq_ofFn, List.getElem?_ofFn, dif_pos p.isLt]

/-- Where an entry is. -/
theorem columns_getElem? (f : Fin w → Fin h → α) (x : Fin w) (y : Fin h) :
    (columns f)[x * h + y]? = some (f x y) := by
  have hposition : (Fin.mkDivMod x y).val = x * h + y :=
    congrArg (· + y.val) (Nat.mul_comm h x)
  rw [← hposition, columns_getElem?_eq, Fin.divNat_mkDivMod, Fin.modNat_mkDivMod]

theorem mem_columns {f : Fin w → Fin h → α} {a : α} : a ∈ columns f ↔ ∃ x y, f x y = a := by
  simp [columns, List.mem_ofFn]

section

variable [AddGroup α]

/-- Two rows agree if they agree at the first entry and before it, and if so do their
differences across each entry. -/
theorem eq_of_row_differences {f g : Int → α} (hbefore : f (-1) = g (-1)) (hfirst : f 0 = g 0)
    (hdiff : ∀ i : Fin w, f (i - 1) - f (i + 1) = g (i - 1) - g (i + 1)) (i : Fin w) :
    f i = g i := by
  obtain ⟨i, hi⟩ := i
  dsimp only
  induction i using Nat.twoStepInduction with
  | zero => exact hfirst
  | one =>
      have hacross : f (-1) - f 1 = g (-1) - g 1 := hdiff ⟨0, by omega⟩
      rw [hbefore] at hacross
      exact sub_right_inj.mp hacross
  | more i ih _ =>
      have hacross := hdiff ⟨i + 1, by omega⟩
      have hprevious : ((i + 1 : Nat) : Int) - 1 = i := by omega
      have hnext : ((i + 1 : Nat) : Int) + 1 = ((i + 2 : Nat) : Int) := by omega
      dsimp only at hacross
      rw [hprevious, hnext, ih (by omega)] at hacross
      exact sub_right_inj.mp hacross

/-- Two tables agree if they agree left of and below their entries and in the corner, and if
so do their differences across each entry in both directions. -/
theorem eq_of_differences {f g : Int → Int → α}
    (hleft : ∀ y, f (-1) y = g (-1) y) (hbelow : ∀ x, f x (-1) = g x (-1))
    (hcorner : f 0 0 = g 0 0)
    (hx : ∀ (x : Fin w) (y : Fin h), f (x - 1) y - f (x + 1) y = g (x - 1) y - g (x + 1) y)
    (hy : ∀ (x : Fin w) (y : Fin h), f x (y - 1) - f x (y + 1) = g x (y - 1) - g x (y + 1))
    (x : Fin w) (y : Fin h) : f x y = g x y := by
  have hcolumn : f 0 y = g 0 y :=
    eq_of_row_differences (hbelow 0) hcorner (hy ⟨0, x.pos⟩) y
  exact eq_of_row_differences (f := (f · y)) (g := (g · y)) (hleft y) hcolumn (hx · y) x

end

end Maple.Lib
