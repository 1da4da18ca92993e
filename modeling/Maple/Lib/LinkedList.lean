import Mathlib.Data.List.Basic
import Mathlib.Data.List.Nodup

/-!
# Maple.Lib.LinkedList

**Doubly linked list segments.** The links of all nodes are given by two
functions `next` and `prev`; `Seg next prev p xs n` says that the nodes `xs`, in
this order, are linked with each other, that the first one points back to `p`
and that the last one points on to `n`. A whole list is a segment with nothing
before and nothing after it.

A segment depends on the links of its own nodes only (`Seg.congr`), splits at
every place (`seg_append`), and has one rule for each operation on lists: taking
a node out (`Seg.unlink`) and appending one (`Seg.snoc`).
-/

namespace Maple.Lib

variable {α : Type*}

/-- The nodes `xs` are linked in this order, between `p` and `n`. -/
def Seg (next prev : α → Option α) : Option α → List α → Option α → Prop
  | _, [], _ => True
  | p, x :: xs, n => prev x = p ∧ next x = xs.head?.or n ∧ Seg next prev (some x) xs n

variable {next next' prev prev' : α → Option α} {p n : Option α} {xs ys : List α} {x : α}

/-- Segments split at every place. -/
theorem seg_append :
    Seg next prev p (xs ++ ys) n ↔
      Seg next prev p xs (ys.head?.or n) ∧ Seg next prev (xs.getLast?.or p) ys n := by
  induction xs generalizing p with
  | nil => simp [Seg]
  | cons x xs ih =>
      have hlast : (x :: xs).getLast?.or p = xs.getLast?.or (some x) := by
        cases xs with
        | nil => rfl
        | cons y ys => simp [List.getLast?_cons]
      have hhead : (xs ++ ys).head?.or n = xs.head?.or (ys.head?.or n) := by
        rw [List.head?_append, Option.or_assoc]
      simp only [List.cons_append, Seg, ih, hlast, hhead, and_assoc]

/-- A segment depends on the links of its nodes only. -/
theorem Seg.congr (h : Seg next prev p xs n) (hnext : ∀ x ∈ xs, next' x = next x)
    (hprev : ∀ x ∈ xs, prev' x = prev x) : Seg next' prev' p xs n := by
  induction xs generalizing p with
  | nil => trivial
  | cons x xs ih =>
      obtain ⟨hp, hn, hrest⟩ := h
      refine ⟨(hprev x (by simp)).trans hp, (hnext x (by simp)).trans hn, ih hrest ?_ ?_⟩
      · exact fun y hy => hnext y (List.mem_cons_of_mem x hy)
      · exact fun y hy => hprev y (List.mem_cons_of_mem x hy)

/-- The links of a node inside a list. -/
theorem Seg.links (h : Seg next prev none (xs ++ x :: ys) none) :
    prev x = xs.getLast? ∧ next x = ys.head? := by
  obtain ⟨-, hprev, hnext, -⟩ := seg_append.mp h
  rw [Option.or_none] at hprev hnext
  exact ⟨hprev, hnext⟩

variable [DecidableEq α]

/-- Redirect the end of a segment. -/
theorem Seg.redirect {n' : Option α} (h : Seg next prev p xs n) (hdup : xs.Nodup)
    (hnext : ∀ x ∈ xs, next' x = if xs.getLast? = some x then n' else next x)
    (hprev : ∀ x ∈ xs, prev' x = prev x) : Seg next' prev' p xs n' := by
  rcases List.eq_nil_or_concat xs with hnil | ⟨ys, y, hconcat⟩
  · subst hnil
    trivial
  · rw [List.concat_eq_append] at hconcat
    subst hconcat
    obtain ⟨hys, hy, -, -⟩ := seg_append.mp h
    have hnot : y ∉ ys := fun hmem => (List.nodup_append.mp hdup).2.2 y hmem y (by simp) rfl
    refine seg_append.mpr ⟨hys.congr (fun x hx => ?_) fun x hx => hprev x (by simp [hx]), ?_⟩
    · rw [hnext x (by simp [hx]), if_neg]
      intro hlast
      obtain rfl : y = x := by simpa using hlast
      exact hnot hx
    · refine ⟨(hprev y (by simp)).trans hy, ?_, trivial⟩
      simpa using hnext y (by simp)

/-- Redirect the start of a segment. -/
theorem Seg.rebase {p' : Option α} (h : Seg next prev p xs n) (hdup : xs.Nodup)
    (hnext : ∀ x ∈ xs, next' x = next x)
    (hprev : ∀ x ∈ xs, prev' x = if xs.head? = some x then p' else prev x) :
    Seg next' prev' p' xs n := by
  cases xs with
  | nil => trivial
  | cons y ys =>
      obtain ⟨-, hy, hys⟩ := h
      have hnot : y ∉ ys := (List.nodup_cons.mp hdup).1
      refine ⟨by simpa using hprev y (by simp), (hnext y (by simp)).trans hy, hys.congr ?_ ?_⟩
      · exact fun x hx => hnext x (List.mem_cons_of_mem y hx)
      · intro x hx
        rw [hprev x (List.mem_cons_of_mem y hx), if_neg]
        intro hhead
        obtain rfl : y = x := by simpa using hhead
        exact hnot hx

/-- **Taking out** the node `x`: its neighbours are linked with each other. -/
theorem Seg.unlink (h : Seg next prev none (xs ++ x :: ys) none) (hdup : (xs ++ x :: ys).Nodup)
    (hnext : ∀ y ∈ xs ++ ys, next' y = if prev x = some y then next x else next y)
    (hprev : ∀ y ∈ xs ++ ys, prev' y = if next x = some y then prev x else prev y) :
    Seg next' prev' none (xs ++ ys) none := by
  obtain ⟨hpx, hnx⟩ := h.links
  rw [hpx, hnx] at hnext hprev
  obtain ⟨hxs, -, -, hys⟩ := seg_append.mp h
  obtain ⟨hdup₁, hdup₂, hdisj⟩ := List.nodup_append.mp hdup
  -- no node of one part is the end of the other part
  have hne : ∀ y ∈ xs, ∀ z ∈ ys, y ≠ z := fun y hy z hz => hdisj y hy z (List.mem_cons_of_mem x hz)
  refine seg_append.mpr ⟨?_, ?_⟩
  · rw [Option.or_none]
    refine hxs.redirect hdup₁ (fun y hy => hnext y (by simp [hy])) fun y hy => ?_
    rw [hprev y (by simp [hy]), if_neg]
    exact fun hhead => hne y hy y (List.mem_of_head? hhead) rfl
  · rw [Option.or_none]
    refine hys.rebase (List.nodup_cons.mp hdup₂).2 (fun y hy => ?_)
      fun y hy => hprev y (by simp [hy])
    rw [hnext y (by simp [hy]), if_neg]
    exact fun hlast => hne y (List.mem_of_getLast? hlast) y hy rfl

/-- `Seg.unlink` with the node given by membership. -/
theorem Seg.erase (h : Seg next prev none xs none) (hdup : xs.Nodup) (hx : x ∈ xs)
    (hnext : ∀ y ∈ xs, y ≠ x → next' y = if prev x = some y then next x else next y)
    (hprev : ∀ y ∈ xs, y ≠ x → prev' y = if next x = some y then prev x else prev y) :
    Seg next' prev' none (xs.erase x) none := by
  obtain ⟨as, bs, rfl⟩ := List.append_of_mem hx
  have hnot := List.nodup_middle.mp hdup
  rw [List.nodup_cons, List.mem_append, not_or] at hnot
  rw [List.erase_append_right _ hnot.1.1, List.erase_cons_head]
  have hmem : ∀ y ∈ as ++ bs, y ∈ as ++ x :: bs ∧ y ≠ x := by
    intro y hy
    refine ⟨by rcases List.mem_append.mp hy with hy | hy <;> simp [hy], fun heq => ?_⟩
    rcases List.mem_append.mp (heq ▸ hy) with hx | hx
    · exact hnot.1.1 hx
    · exact hnot.1.2 hx
  exact h.unlink hdup (fun y hy => hnext y (hmem y hy).1 (hmem y hy).2)
    fun y hy => hprev y (hmem y hy).1 (hmem y hy).2

/-- The first node once `x` is taken out. -/
theorem Seg.head_erase (h : Seg next prev none xs none) (hdup : xs.Nodup) (hx : x ∈ xs) :
    (xs.erase x).head? = if prev x = none then next x else xs.head? := by
  obtain ⟨as, bs, rfl⟩ := List.append_of_mem hx
  obtain ⟨hpx, hnx⟩ := h.links
  have hnot := List.nodup_middle.mp hdup
  rw [List.nodup_cons, List.mem_append, not_or] at hnot
  rw [List.erase_append_right _ hnot.1.1, List.erase_cons_head, hpx, hnx]
  cases as with
  | nil => rfl
  | cons a as => simp

omit [DecidableEq α] in
/-- The neighbours of a node of the list are in the list. -/
theorem Seg.mem_of_link (h : Seg next prev none xs none) (hx : x ∈ xs) {y : α}
    (hy : prev x = some y ∨ next x = some y) : y ∈ xs := by
  obtain ⟨as, bs, rfl⟩ := List.append_of_mem hx
  obtain ⟨hpx, hnx⟩ := h.links
  rcases hy with hy | hy
  · exact List.mem_append_left _ (List.mem_of_getLast? (hpx ▸ hy))
  · exact List.mem_append_right _ (List.mem_cons_of_mem _ (List.mem_of_head? (hnx ▸ hy)))

/-- **Appending** the node `x`. -/
theorem Seg.snoc (h : Seg next prev none xs none) (hdup : xs.Nodup)
    (hnext : ∀ y ∈ xs, next' y = if xs.getLast? = some y then some x else next y)
    (hprev : ∀ y ∈ xs, prev' y = prev y) (hnx : next' x = none) (hpx : prev' x = xs.getLast?) :
    Seg next' prev' none (xs ++ [x]) none := by
  refine seg_append.mpr ⟨h.redirect hdup hnext hprev, ?_, hnx, trivial⟩
  rw [hpx, Option.or_none]

end Maple.Lib
