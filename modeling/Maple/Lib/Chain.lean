import Mathlib.Data.List.Nodup
import Mathlib.Logic.Function.Basic

/-!
# Maple.Lib.Chain

**Child lists that grow at the front.** A forest may be kept in three links of a
node: its parent, its first child and its next sibling. `Siblings` says that the
links fit together: the children of a node, and no other nodes, are met from its
first child along the siblings. A node without a parent may become the first
child of any node (`Siblings.push`).
-/

namespace Maple.Lib

variable {α : Type*}

/-- The nodes met from `start` along `next` are `xs`, and then the chain ends. -/
def Chain (next : α → Option α) : Option α → List α → Prop
  | start, [] => start = none
  | start, x :: xs => start = some x ∧ Chain next (next x) xs

/-- A chain depends on the links of its own nodes only. -/
theorem Chain.congr {next next' : α → Option α} {start : Option α} {xs : List α}
    (h : Chain next start xs) (hnext : ∀ x ∈ xs, next' x = next x) : Chain next' start xs := by
  induction xs generalizing start with
  | nil => exact h
  | cons x xs ih =>
      obtain ⟨hstart, hrest⟩ := h
      rw [← hnext x (by simp)] at hrest
      exact ⟨hstart, ih hrest fun y hy => hnext y (List.mem_cons_of_mem x hy)⟩

/-- The links give one list only. -/
theorem Chain.unique {next : α → Option α} {start : Option α} {xs ys : List α}
    (h : Chain next start xs) (h' : Chain next start ys) : xs = ys := by
  induction xs generalizing start ys with
  | nil =>
      obtain rfl : start = none := h
      cases ys with
      | nil => rfl
      | cons y ys => exact absurd h'.1 nofun
  | cons x xs ih =>
      obtain ⟨rfl, hrest⟩ := h
      cases ys with
      | nil => exact absurd h' nofun
      | cons y ys =>
          obtain ⟨hxy, hrest'⟩ := h'
          obtain rfl := Option.some.inj hxy
          rw [ih hrest hrest']

/-- The links `first` and `next` list the children given by `parent`. -/
structure Siblings (parent first next : α → Option α) : Prop where
  chain : ∀ v, ∃ cs, Chain next (first v) cs ∧ cs.Nodup ∧ ∀ c, c ∈ cs ↔ parent c = some v
  free : ∀ c, parent c = none → next c = none

variable {parent first next : α → Option α}

/-- Nodes without links. -/
theorem Siblings.none (hparent : ∀ c, parent c = none) (hfirst : ∀ c, first c = none)
    (hnext : ∀ c, next c = none) : Siblings parent first next :=
  ⟨fun v => ⟨[], hfirst v, List.nodup_nil, fun c => by simp [hparent]⟩, fun c _ => hnext c⟩

/-- **A new first child.** -/
theorem Siblings.push [DecidableEq α] (h : Siblings parent first next) {v c : α}
    (hc : parent c = Option.none) :
    Siblings (Function.update parent c (some v)) (Function.update first v (some c))
      (Function.update next c (first v)) := by
  refine ⟨fun w => ?_, fun x hx => ?_⟩
  · obtain ⟨cs, hchain, hnodup, hmem⟩ := h.chain w
    -- the new child is in no list yet
    have hnot : c ∉ cs := fun hin => absurd (hc.symm.trans ((hmem c).mp hin)) (by simp)
    have hkeep : ∀ x ∈ cs, Function.update next c (first v) x = next x := by
      intro x hx
      have hxc : x ≠ c := fun heq => hnot (heq ▸ hx)
      rw [Function.update_of_ne hxc]
    by_cases hw : w = v
    · subst hw
      refine ⟨c :: cs, ⟨Function.update_self .., ?_⟩, List.nodup_cons.mpr ⟨hnot, hnodup⟩,
        fun x => ?_⟩
      · rw [Function.update_self]
        exact hchain.congr hkeep
      · by_cases hx : x = c
        · simp [hx]
        · simp [hx, hmem]
    · refine ⟨cs, ?_, hnodup, fun x => ?_⟩
      · rw [Function.update_of_ne hw]
        exact hchain.congr hkeep
      · by_cases hx : x = c
        · simp [hx, hnot, Ne.symm hw]
        · simp [hx, hmem]
  · have hxc : x ≠ c := fun heq => by simp [heq] at hx
    rw [Function.update_of_ne hxc] at hx ⊢
    exact h.free x hx

end Maple.Lib
