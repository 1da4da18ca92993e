import Mathlib.Data.Finset.Insert
import Mathlib.Data.List.Sort

/-!
# Maple.Lib.Ranked

**Lists in descending rank.** A list is `Ranked` when it has no repetition and the
keys of its elements descend. Two operations keep it so: striking a list of elements
out (`strike`), and inserting a list of elements, each once and behind the elements
of the same key (`enlist`).

`ascending` lists a finite set by insertion sort, which the kernel can evaluate.
-/

namespace Maple.Lib

variable {α κ : Type*} [LinearOrder κ]

/-- No repetition, and descending keys. -/
structure Ranked (key : α → κ) (xs : List α) : Prop where
  nodup : xs.Nodup
  descending : xs.Pairwise fun a b => key b ≤ key a

/-- Insertion before the first element of a smaller key. -/
def insertRanked (key : α → κ) (x : α) (xs : List α) : List α :=
  xs.orderedInsert (fun a b => key b < key a) x

section

variable [DecidableEq α]

/-- Erase every element of `ys` from `xs`, one after the other. -/
def strike (ys xs : List α) : List α :=
  ys.foldl List.erase xs

/-- Insert every element of `ys` that is missing, one after the other. -/
def enlist (key : α → κ) (ys xs : List α) : List α :=
  ys.foldl (fun xs y => if y ∈ xs then xs else insertRanked key y xs) xs

end

theorem mem_insertRanked (key : α → κ) {x y : α} {xs : List α} :
    y ∈ insertRanked key x xs ↔ y = x ∨ y ∈ xs :=
  List.mem_orderedInsert _

theorem nodup_insertRanked (key : α → κ) {x : α} {xs : List α} (h : xs.Nodup) (hx : x ∉ xs) :
    (insertRanked key x xs).Nodup :=
  (List.perm_orderedInsert _ x xs).nodup_iff.mpr (List.nodup_cons.mpr ⟨hx, h⟩)

theorem sublist_insertRanked (key : α → κ) (x : α) (xs : List α) :
    xs.Sublist (insertRanked key x xs) :=
  List.sublist_orderedInsert x xs

theorem sublist_strike [DecidableEq α] (ys xs : List α) : (strike ys xs).Sublist xs := by
  induction ys generalizing xs with
  | nil => exact List.Sublist.refl xs
  | cons y ys ih => exact (ih (xs.erase y)).trans List.erase_sublist

theorem mem_strike_of_nodup [DecidableEq α] {ys xs : List α} {x : α} (h : xs.Nodup) :
    x ∈ strike ys xs ↔ x ∈ xs ∧ x ∉ ys := by
  induction ys generalizing xs with
  | nil => simp [strike]
  | cons y ys ih =>
      have htail := ih (h.sublist (List.erase_sublist (a := y)))
      rw [h.mem_erase_iff] at htail
      rw [List.mem_cons, not_or]
      exact htail.trans ⟨fun ⟨⟨hne, hxs⟩, hys⟩ => ⟨hxs, hne, hys⟩,
        fun ⟨hxs, hne, hys⟩ => ⟨⟨hne, hxs⟩, hys⟩⟩

/-- Striking out keeps the other elements in their order. -/
theorem strike_eq_filter [DecidableEq α] {ys xs : List α} (h : xs.Nodup) :
    strike ys xs = xs.filter (· ∉ ys) := by
  have hsub : (strike ys xs).Sublist (xs.filter (· ∉ ys)) := by
    rw [← List.filter_eq_self.mpr fun x hx =>
      decide_eq_true ((mem_strike_of_nodup h).mp hx).2]
    exact (sublist_strike ys xs).filter _
  refine hsub.eq_of_length_le ?_
  have hperm : (xs.filter (· ∉ ys)).Perm (strike ys xs) := by
    refine (List.perm_ext_iff_of_nodup (h.filter _) (h.sublist (sublist_strike ys xs))).mpr ?_
    intro x
    rw [mem_strike_of_nodup h, List.mem_filter, decide_eq_true_iff]
  exact hperm.length_eq.le

namespace Ranked

variable {key : α → κ} {xs : List α}

theorem nil : Ranked key ([] : List α) :=
  ⟨List.nodup_nil, List.Pairwise.nil⟩

theorem sublist {ys : List α} (h : Ranked key xs) (hsub : ys.Sublist xs) : Ranked key ys :=
  ⟨h.nodup.sublist hsub, h.descending.sublist hsub⟩

theorem descending_insertRanked {x : α} (h : xs.Pairwise fun a b => key b ≤ key a) :
    (insertRanked key x xs).Pairwise fun a b => key b ≤ key a := by
  induction xs with
  | nil => exact List.pairwise_singleton _ _
  | cons y ys ih =>
      obtain ⟨hy, hys⟩ := List.pairwise_cons.mp h
      by_cases hlt : key y < key x
      · rw [insertRanked, List.orderedInsert_cons, if_pos hlt]
        apply List.pairwise_cons.mpr
        constructor
        · intro z hz
          cases List.mem_cons.mp hz with
          | inl hzy => exact hzy ▸ hlt.le
          | inr hzys => exact (hy z hzys).trans hlt.le
        · exact h
      · rw [insertRanked, List.orderedInsert_cons, if_neg hlt]
        apply List.pairwise_cons.mpr
        constructor
        · intro z hz
          cases (mem_insertRanked key).mp hz with
          | inl hzx => exact hzx ▸ not_lt.mp hlt
          | inr hzys => exact hy z hzys
        · exact ih hys

theorem insertRanked {x : α} (h : Ranked key xs) (hx : x ∉ xs) :
    Ranked key (insertRanked key x xs) where
  nodup := nodup_insertRanked key h.nodup hx
  descending := descending_insertRanked h.descending

variable [DecidableEq α]

/-! ### Striking out -/

theorem strike (ys : List α) (h : Ranked key xs) : Ranked key (strike ys xs) :=
  h.sublist (sublist_strike ys xs)

theorem mem_strike {ys : List α} {x : α} (h : Ranked key xs) :
    x ∈ Lib.strike ys xs ↔ x ∈ xs ∧ x ∉ ys :=
  mem_strike_of_nodup h.nodup

/-! ### Enlisting -/

theorem enlist (ys : List α) (h : Ranked key xs) : Ranked key (enlist key ys xs) := by
  induction ys generalizing xs with
  | nil => exact h
  | cons y ys ih =>
      rw [Lib.enlist, List.foldl_cons]
      by_cases hy : y ∈ xs
      · rw [if_pos hy]
        exact ih h
      · rw [if_neg hy]
        exact ih (h.insertRanked hy)

end Ranked

/-- Enlisting keeps the elements that were there in their order. -/
theorem sublist_enlist [DecidableEq α] (key : α → κ) (ys xs : List α) :
    xs.Sublist (enlist key ys xs) := by
  induction ys generalizing xs with
  | nil => exact List.Sublist.refl xs
  | cons y ys ih =>
      rw [enlist, List.foldl_cons]
      by_cases hy : y ∈ xs
      · rw [if_pos hy]
        exact ih xs
      · rw [if_neg hy]
        exact (sublist_insertRanked key y xs).trans (ih _)

theorem nodup_enlist [DecidableEq α] (key : α → κ) (ys : List α) {xs : List α} (h : xs.Nodup) :
    (enlist key ys xs).Nodup := by
  induction ys generalizing xs with
  | nil => exact h
  | cons y ys ih =>
      rw [enlist, List.foldl_cons]
      by_cases hy : y ∈ xs
      · rw [if_pos hy]
        exact ih h
      · rw [if_neg hy]
        exact ih (nodup_insertRanked key h hy)

theorem mem_enlist [DecidableEq α] {key : α → κ} {xs ys : List α} {x : α} :
    x ∈ enlist key ys xs ↔ x ∈ xs ∨ x ∈ ys := by
  induction ys generalizing xs with
  | nil => simp [enlist]
  | cons y ys ih =>
      rw [enlist, List.foldl_cons, List.mem_cons]
      by_cases hy : y ∈ xs
      · rw [if_pos hy]
        refine ih.trans ⟨Or.imp_right Or.inr, ?_⟩
        intro hx
        rcases hx with hxs | rfl | hys
        · exact .inl hxs
        · exact .inl hy
        · exact .inr hys
      · rw [if_neg hy]
        rw [← or_assoc, or_comm (a := x ∈ xs), ← mem_insertRanked key]
        exact ih

/-! ### Finite sets in ascending order -/

/-- The elements of a finite set in ascending order. -/
def ascending [LinearOrder α] (s : Finset α) : List α :=
  Quot.liftOn s.val (List.insertionSort (· ≤ ·)) fun xs ys hperm =>
    List.Perm.eq_of_pairwise' (List.pairwise_insertionSort _ xs) (List.pairwise_insertionSort _ ys)
      (((List.perm_insertionSort _ xs).trans hperm).trans (List.perm_insertionSort _ ys).symm)

theorem mem_ascending [LinearOrder α] {s : Finset α} {x : α} : x ∈ ascending s ↔ x ∈ s := by
  obtain ⟨⟨xs⟩, hnodup⟩ := s
  exact (List.perm_insertionSort _ xs).mem_iff

end Maple.Lib
