import Mathlib.Data.List.Basic

/-!
# Maple.Lib.Buckets

**Grouping a list by a number.** `buckets key n xs` lists, for each number below `n`,
the elements with that key in their order. Two equations let a loop build it: another
empty bucket at the end, and another element at the end of its bucket.
-/

namespace Maple.Lib

variable {α : Type*} {key : α → Nat} {n : Nat} {xs : List α}

def buckets (key : α → Nat) (n : Nat) (xs : List α) : List (List α) :=
  (List.range n).map fun i => xs.filter (key · = i)

@[simp] theorem length_buckets : (buckets key n xs).length = n := by
  rw [buckets, List.length_map, List.length_range]

theorem getElem?_buckets {i : Nat} (hi : i < n) :
    (buckets key n xs)[i]? = some (xs.filter (key · = i)) := by
  rw [buckets, List.getElem?_map, List.getElem?_range hi, Option.map_some]

/-- A number that is not used has an empty bucket. -/
theorem buckets_succ (h : ∀ x ∈ xs, key x < n) :
    buckets key (n + 1) xs = buckets key n xs ++ [[]] := by
  have hempty : xs.filter (key · = n) = [] :=
    List.filter_eq_nil_iff.mpr fun x hx => by simpa using Nat.ne_of_lt (h x hx)
  rw [buckets, List.range_succ, List.map_append, List.map_singleton, hempty]
  rfl

/-- Another element goes to the end of its own bucket. -/
theorem buckets_concat {x : α} (hx : key x < n) :
    buckets key n (xs ++ [x]) =
      (buckets key n xs).set (key x) (xs.filter (key · = key x) ++ [x]) := by
  apply List.ext_getElem?
  intro i
  rw [List.getElem?_set, length_buckets, if_pos hx]
  by_cases hi : i < n
  · rw [getElem?_buckets hi, getElem?_buckets hi, List.filter_append]
    by_cases heq : key x = i
    · rw [if_pos heq, List.filter_cons_of_pos (by simpa using heq), List.filter_nil, heq]
    · rw [if_neg heq, List.filter_cons_of_neg (by simpa using heq), List.filter_nil,
        List.append_nil]
  · have hne : key x ≠ i := fun heq => hi (heq ▸ hx)
    rw [if_neg hne, List.getElem?_eq_none (by simpa using hi),
      List.getElem?_eq_none (by simpa using hi)]

end Maple.Lib
