import Maple.Terrain.Marking

/-!
# Maple.Terrain.CollapseForest

**Every vertex is attached once.** After `build` of `2 ^ k + 1` by `2 ^ k + 1` vertices,
whatever the comparisons of distances give, each vertex of a level below the first has one
parent, of the level above, and is met once in the child list of this parent and in no other
list (`collapses_once`). The parent is the vertex at the same place; where there is none, it
is an end of the edge whose middle the vertex is, or a corner of the quad whose center it is.
-/

namespace Maple.Terrain

open Lib QuadCollapseMesh

variable {V : Type} {k l : Nat} {m : QuadCollapseMesh V}

/-! ### The vertices of the pool -/

/-- Every node of the pool is a vertex of some level. -/
theorem exists_vertIndex {v : Nat} (hv : v < vertOffset (k + 1)) :
    ∃ l i j, InGrid k l i j ∧ v = vertIndex l i j := by
  induction k with
  | zero => exact ⟨0, v % 2, v / 2, ⟨by omega, by omega, by
      simp only [vertOffset] at hv
      omega⟩, by
      simp only [vertIndex, vertOffset]
      omega⟩
  | succ k ih =>
      by_cases hlow : v < vertOffset (k + 1)
      · obtain ⟨l, i, j, hg, hv⟩ := ih hlow
        exact ⟨l, i, j, ⟨Nat.le_succ_of_le hg.level, hg.column, hg.row⟩, hv⟩
      · -- column and row are remainder and quotient in the block of the last level
        let r := v - vertOffset (k + 1)
        have hr : r < (2 ^ (k + 1) + 1) * (2 ^ (k + 1) + 1) := by
          rw [vertOffset] at hv
          omega
        have hdiv : r / (2 ^ (k + 1) + 1) < 2 ^ (k + 1) + 1 := Nat.div_lt_of_lt_mul hr
        have hmod : r % (2 ^ (k + 1) + 1) < 2 ^ (k + 1) + 1 := Nat.mod_lt _ (Nat.succ_pos _)
        have hsum : r / (2 ^ (k + 1) + 1) * (2 ^ (k + 1) + 1) + r % (2 ^ (k + 1) + 1) = r :=
          Nat.div_add_mod' ..
        refine ⟨k + 1, r % (2 ^ (k + 1) + 1), r / (2 ^ (k + 1) + 1),
          ⟨Nat.le_refl _, Nat.le_of_lt_succ hmod, Nat.le_of_lt_succ hdiv⟩, ?_⟩
        rw [vertIndex]
        omega

/-! ### The parents -/

/-- The first level has no parents. -/
theorem CollapseTree.parent_root (h : CollapseTree k m) {i j : Nat} (hg : InGrid k 0 i j) :
    (m.verts (vertIndex 0 i j)).parent = none := by
  cases hp : (m.verts (vertIndex 0 i j)).parent with
  | none => rfl
  | some p =>
      obtain ⟨l', x, y, -, -, hg', heq, -⟩ := h.parent hp
      exact absurd (vertIndex_inj hg hg' heq).1 (by simp)

/-- The place that the parent of a vertex may have, by the place of the vertex: at a vertex
of the level above, in the middle of one of its edges, or in the center of one of its
quads. -/
inductive ParentPlace : (i j i' j' : Nat) → Prop
  | vertex (a b : Nat) : ParentPlace (2 * a) (2 * b) a b
  | row {a b i' : Nat} : i' = a ∨ i' = a + 1 → ParentPlace (2 * a + 1) (2 * b) i' b
  | column {a b j' : Nat} : j' = b ∨ j' = b + 1 → ParentPlace (2 * a) (2 * b + 1) a j'
  | center (a b : Nat) (c : Fin 4) :
      ParentPlace (2 * a + 1) (2 * b + 1) (a + dx c) (b + dy c)

/-- An odd column may be collapsed to either neighbour. -/
theorem Collapses.odd {i i' : Nat} (h : Collapses (2 * i + 1) i') : i' = i ∨ i' = i + 1 := by
  unfold Collapses at h
  omega

theorem ParentPlace.of_collapses {i j i' j' : Nat} (hi : Collapses i i') (hj : Collapses j j') :
    ParentPlace i j i' j' := by
  obtain ⟨a, rfl | rfl⟩ := Nat.even_or_odd' i
  · obtain rfl := hi.even
    obtain ⟨b, rfl | rfl⟩ := Nat.even_or_odd' j
    · obtain rfl := hj.even
      exact .vertex _ _
    · exact .column hj.odd
  · obtain ⟨b, rfl | rfl⟩ := Nat.even_or_odd' j
    · obtain rfl := hj.even
      exact .row hi.odd
    · obtain ⟨x, hx, rfl⟩ : ∃ x < 2, i' = a + x := by
        rcases hi.odd with rfl | rfl
        · exact ⟨0, by decide, rfl⟩
        · exact ⟨1, by decide, rfl⟩
      obtain ⟨y, hy, rfl⟩ : ∃ y < 2, j' = b + y := by
        rcases hj.odd with rfl | rfl
        · exact ⟨0, by decide, rfl⟩
        · exact ⟨1, by decide, rfl⟩
      obtain ⟨c, rfl, rfl⟩ := exists_corner x hx y hy
      exact .center a b c

/-! ### The child lists -/

/-- The vertices met in the list of the children of `v`. -/
def Children (m : QuadCollapseMesh V) (v : Nat) (cs : List Nat) : Prop :=
  Chain (fun c => (m.verts c).nextSibling) (m.verts v).firstChild cs

/-- What the collapse tree of a built mesh is. -/
structure CollapsesOnce (k : Nat) (m : QuadCollapseMesh V) : Prop where
  pool : ∀ v < m.vertNodePoolSize, ∃ l i j, InGrid k l i j ∧ v = vertIndex l i j
  place : ∀ l i j, InGrid k l i j →
    m.getVertNode l (i * 2 ^ (k - l)) (j * 2 ^ (k - l)) false = .ok (vertIndex l i j) ∧
      (m.verts (vertIndex l i j)).level = l
  root : ∀ i j, InGrid k 0 i j → (m.verts (vertIndex 0 i j)).parent = none
  parent : ∀ l i j, InGrid k (l + 1) i j → ∃ i' j', InGrid k l i' j' ∧
    (m.verts (vertIndex (l + 1) i j)).parent = some (vertIndex l i' j') ∧ ParentPlace i j i' j'
  lists : ∀ v, ∃ cs, Children m v cs
  listed : ∀ l i j p, InGrid k (l + 1) i j →
    (m.verts (vertIndex (l + 1) i j)).parent = some p → ∀ v cs, Children m v cs →
      cs.count (vertIndex (l + 1) i j) = if v = p then 1 else 0

/-- A vertex is listed once by its parent, and by no other vertex. -/
theorem Siblings.count_eq {parent first next : Nat → Option Nat} (h : Siblings parent first next)
    {v c p : Nat} {cs : List Nat} (hchain : Chain next (first v) cs) (hp : parent c = some p) :
    cs.count c = if v = p then 1 else 0 := by
  obtain ⟨cs', hchain', hnodup, hmem⟩ := h.chain v
  obtain rfl := hchain.unique hchain'
  by_cases hv : v = p
  · subst hv
    rw [if_pos rfl]
    exact List.count_eq_one_of_mem hnodup ((hmem c).mpr hp)
  · rw [if_neg hv, List.count_eq_zero, hmem, hp]
    exact fun heq => hv (Option.some.inj heq).symm

theorem Fresh.collapsesOnce (h : Fresh k m) : CollapsesOnce k m := by
  refine ⟨fun v hv => exists_vertIndex (h.sized.poolSize ▸ hv),
    fun l i j hg => ⟨?_, h.tree.level hg⟩, fun i j hg => h.tree.parent_root hg,
    fun l i j hg => ?_, fun v => ?_,
    fun l i j p hg hp v cs hcs => Siblings.count_eq h.tree.siblings hcs hp⟩
  · exact h.sized.getVertNode_eq hg (Nat.add_sub_cancel' hg.level) (Or.inr (h.tree.level hg))
  · obtain ⟨p, hp⟩ := Option.isSome_iff_exists.mp (h.collapsed hg)
    obtain ⟨i', j', rfl, hi, hj⟩ := h.tree.parent_vert hg hp
    exact ⟨i', j', ⟨Nat.le_of_succ_le hg.level, hi.le hg.column, hj.le hg.row⟩, hp,
      .of_collapses hi hj⟩
  · obtain ⟨cs, hcs, -⟩ := h.tree.siblings.chain v
    exact ⟨cs, hcs⟩

/-- **The collapse tree.** Whatever the comparisons of distances give, `build` ends, and
every vertex below the first level has been attached to one vertex of the level above, and
is listed there once. -/
theorem collapses_once [Inhabited V] (closer : V → V → V → Bool) (hk : k ≤ 12)
    {vertices : List V} (hvertices : (2 ^ k + 1) * (2 ^ k + 1) ≤ vertices.length) :
    ∃ m, Settles (fun fuel => build closer fuel (empty {}) vertices (2 ^ k + 1) (2 ^ k + 1))
        (.ok (true, m)) ∧ CollapsesOnce k m := by
  obtain ⟨m, hrun, h⟩ := build_settles closer (shipped_admits hk) hvertices
  exact ⟨m, hrun, h.collapsesOnce⟩

/-- Nine vertices, where the four of the first level have the others as their children. -/
theorem collapses_once_nine :
    ∃ m, Settles (fun fuel => build (fun _ _ _ => true) fuel (empty {}) (List.range 9) 3 3)
        (.ok (true, m)) ∧ CollapsesOnce 1 m := by
  have hvertices : (2 ^ 1 + 1) * (2 ^ 1 + 1) ≤ (List.range 9).length := by decide
  exact collapses_once (fun _ _ _ => true) (by decide) hvertices

end Maple.Terrain
