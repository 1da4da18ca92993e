import Mathlib.Algebra.BigOperators.Group.List.Basic
import Mathlib.Algebra.Field.Defs
import Mathlib.Tactic.Linarith
import Maple.Math.Glm

/-!
# Maple.Math.Number

What a computation with floats comes to where it is exact. A division by zero does not give
a number, and nothing that is computed from what is not a number is one; infinities are not
numbers here. Only the quotient by an infinity would be a number again, and what the code
does with such a quotient is to multiply the infinity by it.
-/

namespace Maple

/-- A number, or an infinity or a `NaN`. -/
inductive Number (A : Type) where
  | of (x : A)
  | nan
  deriving DecidableEq, Hashable

namespace Number

variable {A K : Type}

/-- An operation on numbers. -/
def map₂ (f : A → A → A) : Number A → Number A → Number A
  | of x, of y => of (f x y)
  | _, _ => nan

instance [Zero A] : Zero (Number A) := ⟨of 0⟩

instance [One A] : One (Number A) := ⟨of 1⟩

instance [Add A] : Add (Number A) := ⟨map₂ (· + ·)⟩

instance [Sub A] : Sub (Number A) := ⟨map₂ (· - ·)⟩

instance [Mul A] : Mul (Number A) := ⟨map₂ (· * ·)⟩

instance [Field K] [DecidableEq K] : Div (Number K) where
  div
    | of x, of y => if y = 0 then nan else of (x / y)
    | _, _ => nan

/-- `sqrt`. -/
def sqrt [Field K] [LinearOrder K] (libm : Libm K) : Number K → Number K
  | of x => if x < 0 then nan else of (libm.sqrt x)
  | nan => nan

theorem of_zero [Zero A] : of (0 : A) = 0 := rfl

theorem of_one [One A] : of (1 : A) = 1 := rfl

@[simp] theorem of_add [Add A] (x y : A) : of x + of y = of (x + y) := rfl

@[simp] theorem of_sub [Sub A] (x y : A) : of x - of y = of (x - y) := rfl

@[simp] theorem of_mul [Mul A] (x y : A) : of x * of y = of (x * y) := rfl

@[simp] theorem mul_nan [Mul A] (x : Number A) : x * nan = nan := by cases x <;> rfl

theorem of_div [Field K] [DecidableEq K] (x y : K) :
    of x / of y = if y = 0 then nan else of (x / y) := rfl

@[simp] theorem nan_add [Add A] (x : Number A) : nan + x = nan := rfl

@[simp] theorem add_nan [Add A] (x : Number A) : x + nan = nan := by cases x <;> rfl

variable [AddCommMonoid A]

instance : AddCommMonoid (Number A) where
  add_assoc x y z := by cases x <;> cases y <;> cases z <;> simp [add_assoc]
  zero_add x := by cases x <;> simp [← of_zero]
  add_zero x := by cases x <;> simp [← of_zero]
  add_comm x y := by cases x <;> cases y <;> simp [add_comm]
  nsmul := nsmulRec

theorem add_eq_nan_iff {x y : Number A} : x + y = nan ↔ x = nan ∨ y = nan := by
  cases x <;> cases y <;> simp

theorem nsmul_eq_nan_iff {n : Nat} {x : Number A} : n • x = nan ↔ n ≠ 0 ∧ x = nan := by
  induction n with
  | zero => simp [← of_zero]
  | succ n ih =>
      rw [succ_nsmul, add_eq_nan_iff, ih]
      exact ⟨fun h => ⟨Nat.succ_ne_zero n, h.elim And.right id⟩, fun h => .inr h.2⟩

end Number

end Maple
