import Mathlib.Algebra.BigOperators.Group.List.Basic
import Mathlib.Algebra.Group.Defs

/-!
# Maple.Lib.Scatter

**Adding the values of triangles to their corners.** A list of places is read three at a
time, and the value that is computed for a triangle is added at each of its three places.
At the end, a place holds the sum of the values of the triangles that it is a corner of, as
often as it is one, `getElem?_scatter`.
-/

namespace Maple.Lib

variable {α β A : Type*}

/-- A list, three at a time. -/
def triples : List α → List (α × α × α)
  | a :: b :: c :: rest => (a, b, c) :: triples rest
  | _ => []

/-- The corners of a triangle. -/
def corners (t : α × α × α) : List α := [t.1, t.2.1, t.2.2]

theorem triples_map (f : α → β) (l : List α) :
    triples (l.map f) = (triples l).map fun t => (f t.1, f t.2.1, f t.2.2) := by
  fun_induction triples l with
  | case1 a b c rest ih =>
      rw [List.map_cons, List.map_cons, List.map_cons, triples, ih, List.map_cons]
  | case2 l hshort =>
      match l, hshort with
      | [], _ => rfl
      | [a], _ => rfl
      | [a, b], _ => rfl
      | a :: b :: c :: rest, h => exact absurd rfl (h a b c rest)

theorem mem_of_mem_corners {l : List α} {t : α × α × α} {a : α} (ht : t ∈ triples l)
    (ha : a ∈ corners t) : a ∈ l := by
  fun_induction triples l with
  | case1 a' b c rest ih =>
      rcases List.mem_cons.mp ht with rfl | ht
      · simp only [corners, List.mem_cons, List.not_mem_nil, or_false] at ha
        simp only [List.mem_cons]
        tauto
      · simp [ih ht]
  | case2 => exact absurd ht List.not_mem_nil

variable [AddCommMonoid A]

/-- The values of the triangles, added to what is at their corners. -/
def scatter (value : Nat × Nat × Nat → A) (start : List A) (places : List Nat) : List A :=
  (triples places).foldl (fun sums t =>
    ((sums.modify t.1 (· + value t)).modify t.2.1 (· + value t)).modify t.2.2 (· + value t)) start

@[simp] theorem length_scatter (value : Nat × Nat × Nat → A) (start : List A) (places : List Nat) :
    (scatter value start places).length = start.length := by
  unfold scatter
  induction triples places generalizing start with
  | nil => rfl
  | cons t ts ih =>
      rw [List.foldl_cons, ih, List.length_modify, List.length_modify, List.length_modify]

theorem getElem?_modify_add (sums : List A) (i k : Nat) (x : A) :
    (sums.modify i (· + x))[k]? = sums[k]?.map (· + if i = k then x else 0) := by
  rw [List.getElem?_modify]
  split
  next => rfl
  next => simp

theorem getElem?_scatter (value : Nat × Nat × Nat → A) (start : List A) (places : List Nat)
    (k : Nat) :
    (scatter value start places)[k]? = start[k]?.map (· +
      ((triples places).map fun t => (corners t).count k • value t).sum) := by
  unfold scatter
  induction triples places generalizing start with
  | nil => simp
  | cons t ts ih =>
      rw [List.foldl_cons, ih, getElem?_modify_add, getElem?_modify_add, getElem?_modify_add]
      -- a triangle adds its value once at each corner that is at this place
      have hcount : ((corners t).count k • value t : A) = (if t.1 = k then value t else 0) +
          ((if t.2.1 = k then value t else 0) + if t.2.2 = k then value t else 0) := by
        simp only [corners, List.count_cons, List.count_nil, add_nsmul, beq_iff_eq, zero_nsmul]
        split <;> split <;> split <;>
          simp only [one_nsmul, zero_nsmul, add_zero, add_comm]
      simp only [Option.map_map, List.map_cons, List.sum_cons, hcount]
      congr 1
      funext x
      simp only [Function.comp_apply, add_assoc]

/-- What is made of the elements of a list and of what was added at their places. -/
theorem getElem?_zipWith_scatter {γ : Type*} (value : Nat × Nat × Nat → A) (places : List Nat)
    (l : List β) (f : β → A → γ) (k : Nat) :
    (l.zipWith f (scatter value (List.replicate l.length 0) places))[k]? = l[k]?.map fun b =>
      f b ((scatter value (List.replicate l.length 0) places)[k]?.getD 0) := by
  rw [List.getElem?_zipWith]
  cases hb : l[k]? with
  | none => rfl
  | some b =>
      have hlt := (List.getElem?_eq_some_iff.mp hb).1
      rw [getElem?_scatter, List.getElem?_replicate, if_pos hlt]
      rfl

end Maple.Lib
