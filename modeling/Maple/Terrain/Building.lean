import Mathlib.Data.Fintype.Card
import Maple.Terrain.CollapseTree

/-!
# Maple.Terrain.Building

**What `recursiveBuildQuadNodes` keeps while it builds.** The invariant `Building`
has two parameters: the quads that have been placed, and those that have been
collapsed. Placing a quad allocates it and enters it at the vertices of its
corners; once its four children have been built it is linked with them, and then
it is collapsed.
-/

namespace Maple.Terrain

open Lib QuadCollapseMesh

variable {V : Type} {k : Nat} {m m' : QuadCollapseMesh V}

/-- The pointer points to a quad in use. -/
def Allocated (m : QuadCollapseMesh V) : QuadPtr → Prop
  | .node i => i < m.quadNodePoolAllocated
  | .leaf i => i < m.quadLeafPoolAllocated

/-- Only the quads of the last level are leaves. -/
def QuadPtr.IsNode : QuadPtr → Prop
  | .node _ => True
  | .leaf _ => False

/-- `q` points to the quad in column `a` and row `b` of level `l`. -/
structure IsQuad (k : Nat) (m : QuadCollapseMesh V) (q : QuadPtr) (l a b : Nat) : Prop where
  grid : InQuads k l a b
  allocated : Allocated m q
  isNode : q.IsNode ↔ l < k
  level : (m.quads q).level = l
  corner : ∀ c, (m.quads q).cornerVertNodes c = vertIndex l (a + dx c) (b + dy c)

/-- A pointer points to one quad only. -/
theorem IsQuad.inj {q : QuadPtr} {l a b l' a' b' : Nat} (h : IsQuad k m q l a b)
    (h' : IsQuad k m q l' a' b') : l = l' ∧ a = a' ∧ b = b' := by
  have heq := (h.corner 0).symm.trans (h'.corner 0)
  exact vertIndex_inj (h.grid.corner 0) (h'.grid.corner 0) heq

/-- The quad and its children are linked with each other. -/
def Linked (k : Nat) (m : QuadCollapseMesh V) (l a b : Nat) : Prop :=
  ∃ i, IsQuad k m (.node i) l a b ∧ ∀ c, ∃ q, (m.inner i).children c = some q ∧
    IsQuad k m q (l + 1) (2 * a + dx c) (2 * b + dy c) ∧ (m.quads q).parent = some i

/-- The sizes of the pools and the offsets of the levels. -/
structure Sized (k : Nat) (m : QuadCollapseMesh V) : Prop where
  levelBits : k < 2 ^ m.limits.levelBits
  maxLevel : m.maxLevel = k
  offset : ∀ l ≤ k, m.vertNodesLevelOffset l = vertOffset l
  poolSize : m.vertNodePoolSize = vertOffset (k + 1)

/-- The invariant: the quads `A` have been placed and the quads `D` collapsed. -/
structure Building (k : Nat) (A D : Set (Nat × Nat × Nat)) (m : QuadCollapseMesh V) : Prop where
  sized : Sized k m
  tree : CollapseTree k m
  unmarked : ∀ v, (m.verts v).activeFrame = 0
  unmarkedQuad : ∀ q, (m.quads q).activeFrame = 0
  collapsed : ∀ {l i j}, InGrid k (l + 1) i j →
    ((m.verts (vertIndex (l + 1) i j)).parent.isSome ↔
      ∃ a b, (l, a, b) ∈ D ∧ vertIndex (l + 1) i j ∈ patchVerts l a b)
  placed : ∀ {q}, Allocated m q → ∃ l a b, (l, a, b) ∈ A ∧ IsQuad k m q l a b
  exists_quad : ∀ {l a b}, (l, a, b) ∈ A → ∃ q, IsQuad k m q l a b
  unique : ∀ {q q' l a b}, IsQuad k m q l a b → IsQuad k m q' l a b → q = q'
  adjcent : ∀ v q, q ∈ (m.verts v).adjcentQuads ↔
    Allocated m q ∧ ∃ c, (m.quads q).cornerVertNodes c = v
  adjcent_nodup : ∀ v, (m.verts v).adjcentQuads.Nodup
  linked : ∀ {l a b}, (l, a, b) ∈ D → Linked k m l a b
  parent : ∀ {q i}, Allocated m q → (m.quads q).parent = some i →
    ∃ l a b c, IsQuad k m (.node i) l a b ∧ IsQuad k m q (l + 1) (2 * a + dx c) (2 * b + dy c)

variable {A D : Set (Nat × Nat × Nat)} {l a b d : Nat}

/-! ### Vertices by their coordinates -/

theorem Sized.getVertNode_eq (h : Sized k m) {i j : Nat} {initMode : Bool}
    (hg : InGrid k l i j) (hd : l + d = k)
    (hcheck : initMode ∨ (m.verts (vertIndex l i j)).level = l) :
    m.getVertNode l (i * 2 ^ d) (j * 2 ^ d) initMode = .ok (vertIndex l i j) := by
  have hshift : ∀ x, (x * 2 ^ d) >>> (m.maxLevel - l) = x := by
    intro x
    have hdiff : m.maxLevel - l = d := by
      rw [h.maxLevel]
      omega
    rw [hdiff, Nat.shiftRight_eq_div_pow, Nat.mul_div_cancel _ (Nat.two_pow_pos d)]
  have hindex : m.vertNodesLevelOffset l + j * (2 ^ l + 1) + i = vertIndex l i j := by
    rw [h.offset l hg.level, vertIndex]
  have hlevel : l ≤ m.maxLevel := by
    rw [h.maxLevel]
    exact hg.level
  have hlt : vertIndex l i j < m.vertNodePoolSize := by
    rw [h.poolSize]
    exact hg.lt
  simp only [getVertNode, hshift, hindex]
  rw [if_pos ⟨hlevel, Nat.lt_succ_of_le hg.column, Nat.lt_succ_of_le hg.row, hlt⟩, if_pos hcheck]

theorem Sized.getCornerVertNodes_eq (h : Sized k m) (htree : CollapseTree k m)
    (hq : InQuads k l a b) (hd : l + d = k) :
    m.getCornerVertNodes l (a * 2 ^ d) (b * 2 ^ d) (2 ^ d) =
      .ok fun c => vertIndex l (a + dx c) (b + dy c) := by
  have hstep : ∀ x, x * 2 ^ d + 2 ^ d = (x + 1) * 2 ^ d := fun x => (Nat.succ_mul x _).symm
  have hcorner : ∀ {i j}, i ≤ a + 1 → j ≤ b + 1 →
      m.getVertNode l (i * 2 ^ d) (j * 2 ^ d) false = .ok (vertIndex l i j) := by
    intro i j hi hj
    have ha := hq.column
    have hb := hq.row
    have hg : InGrid k l i j := ⟨hq.level, by omega, by omega⟩
    exact h.getVertNode_eq hg hd (Or.inr (htree.level hg))
  unfold getCornerVertNodes
  rw [hstep, hstep, hcorner (by omega) (by omega), hcorner (by omega) (by omega),
    hcorner (by omega) (by omega), hcorner (by omega) (by omega)]
  refine congrArg Except.ok (funext fun c => ?_)
  match c with
  | 0 => rfl
  | 1 => rfl
  | 2 => rfl
  | 3 => rfl

/-! ### Placing a quad -/

/-- The quad is entered at the vertices `vs`. -/
def enter (m : QuadCollapseMesh V) (vs : List Nat) (q : QuadPtr) : QuadCollapseMesh V :=
  { m with verts := fun v =>
    { m.verts v with
      adjcentQuads :=
        if v ∈ vs then (m.verts v).adjcentQuads ++ [q] else (m.verts v).adjcentQuads } }

/-- The loop over the corners; `f` is its body, which may look at the levels. -/
theorem enter_corners {f : QuadCollapseMesh V → Fin 4 → Except MeshFault (QuadCollapseMesh V)}
    {corners : Fin 4 → Nat} {q : QuadPtr} {cs : List (Fin 4)} (hnodup : (cs.map corners).Nodup)
    (hf : ∀ m', (∀ v, (m'.verts v).level = (m.verts v).level) → ∀ c ∈ cs,
      f m' c = m'.addAdjcentQuad (corners c) q)
    (hfree : ∀ c ∈ cs, q ∉ (m.verts (corners c)).adjcentQuads ∧
      (m.verts (corners c)).adjcentQuads.length < 4) :
    cs.foldlM f m = .ok (enter m (cs.map corners) q) := by
  induction cs generalizing m with
  | nil =>
      simp only [List.map_nil, enter, List.not_mem_nil, if_false]
      rfl
  | cons c cs ih =>
      obtain ⟨hc, hnodup⟩ := List.nodup_cons.mp hnodup
      have hstep : f m c = .ok (enter m [corners c] q) := by
        rw [hf m (fun _ => rfl) c (by simp), addAdjcentQuad, if_neg (hfree c (by simp)).1,
          if_pos (hfree c (by simp)).2]
        refine congrArg Except.ok ?_
        rw [modifyVert, enter]
        congr 1
        funext v
        by_cases hv : v = corners c
        · simp [hv]
        · simp [hv]
      have hrest := ih (m := enter m [corners c] q) hnodup
        (fun m' hm' c' hc' => hf m' hm' c' (List.mem_cons_of_mem c hc')) fun c' hc' => by
          have hne : corners c' ≠ corners c := fun heq =>
            hc (heq ▸ List.mem_map_of_mem hc')
          simpa [enter, hne] using hfree c' (List.mem_cons_of_mem c hc')
      rw [List.foldlM_cons, hstep]
      show List.foldlM f (enter m [corners c] q) cs = _
      rw [hrest]
      refine congrArg Except.ok ?_
      simp only [enter]
      congr 1
      funext v
      by_cases hv : v = corners c
      · have hnot : v ∉ cs.map corners := hv ▸ hc
        simp only [hnot, if_false]
        simp [hv]
      · simp [hv]

/-- The vertices of the corners of a quad. -/
def cornerVerts (l a b : Nat) : List Nat :=
  ([0, 1, 2, 3] : List (Fin 4)).map fun c => vertIndex l (a + dx c) (b + dy c)

theorem mem_cornerVerts {v : Nat} :
    v ∈ cornerVerts l a b ↔ ∃ c, vertIndex l (a + dx c) (b + dy c) = v := by
  have hall : ∀ c : Fin 4, c ∈ ([0, 1, 2, 3] : List (Fin 4)) := by decide
  rw [cornerVerts, List.mem_map]
  exact ⟨fun ⟨c, _, hc⟩ => ⟨c, hc⟩, fun ⟨c, hc⟩ => ⟨c, hall c, hc⟩⟩

theorem InQuads.nodup_cornerVerts (hq : InQuads k l a b) : (cornerVerts l a b).Nodup := by
  refine List.Nodup.map (fun c c' heq => ?_) (by decide)
  obtain ⟨-, hx, hy⟩ := vertIndex_inj (hq.corner c) (hq.corner c') heq
  exact corner_ext (by omega) (by omega)

/-- Each quad at a vertex has a corner of its own there. -/
theorem Building.exists_corners (h : Building k A D m) (v : Nat) :
    ∃ f : QuadPtr → Fin 4,
      (∀ q ∈ (m.verts v).adjcentQuads, (m.quads q).cornerVertNodes (f q) = v) ∧
      ((m.verts v).adjcentQuads.map f).Nodup := by
  classical
  let f : QuadPtr → Fin 4 := fun q =>
    if hc : ∃ c, (m.quads q).cornerVertNodes c = v then hc.choose else 0
  have hf : ∀ q ∈ (m.verts v).adjcentQuads, (m.quads q).cornerVertNodes (f q) = v := by
    intro q hmem
    have hcorner := ((h.adjcent v q).mp hmem).2
    simp only [f, dif_pos hcorner]
    exact hcorner.choose_spec
  refine ⟨f, hf, List.Nodup.map_on ?_ (h.adjcent_nodup v)⟩
  intro q hmem q' hmem' heq
  obtain ⟨l₁, a₁, b₁, -, hq₁⟩ := h.placed ((h.adjcent v q).mp hmem).1
  obtain ⟨l₂, a₂, b₂, -, hq₂⟩ := h.placed ((h.adjcent v q').mp hmem').1
  have hv := (hf q hmem).trans (hf q' hmem').symm
  rw [heq, hq₁.corner, hq₂.corner] at hv
  obtain ⟨rfl, hx, hy⟩ := vertIndex_inj (hq₁.grid.corner _) (hq₂.grid.corner _) hv
  obtain rfl : a₁ = a₂ := by omega
  obtain rfl : b₁ = b₂ := by omega
  exact h.unique hq₁ hq₂

/-- **No vertex has more than four quads.** -/
theorem Building.adjcent_le (h : Building k A D m) (v : Nat) :
    (m.verts v).adjcentQuads.length ≤ 4 := by
  obtain ⟨f, -, hnodup⟩ := h.exists_corners v
  have hle := List.Nodup.length_le_card hnodup
  rwa [List.length_map, Fintype.card_fin] at hle

/-- A vertex has room for one more quad: the corner of the new quad is not taken. -/
theorem Building.adjcent_lt (h : Building k A D m) (hq : InQuads k l a b) (hA : (l, a, b) ∉ A)
    (c : Fin 4) :
    (m.verts (vertIndex l (a + dx c) (b + dy c))).adjcentQuads.length < 4 := by
  obtain ⟨f, hf, hnodup⟩ := h.exists_corners (vertIndex l (a + dx c) (b + dy c))
  have hfree : c ∉ (m.verts (vertIndex l (a + dx c) (b + dy c))).adjcentQuads.map f := by
    intro hmem
    obtain ⟨q, hmem, hfq⟩ := List.mem_map.mp hmem
    obtain ⟨l', a', b', hA', hq'⟩ := h.placed ((h.adjcent _ q).mp hmem).1
    have hv := hf q hmem
    rw [hfq, hq'.corner] at hv
    obtain ⟨rfl, hx, hy⟩ := vertIndex_inj (hq'.grid.corner c) (hq.corner c) hv
    obtain rfl : a' = a := by omega
    obtain rfl : b' = b := by omega
    exact hA hA'
  have hle := List.Nodup.length_le_card (List.nodup_cons.mpr ⟨hfree, hnodup⟩)
  rw [List.length_cons, List.length_map, Fintype.card_fin] at hle
  exact hle

/-- The new quad `q` has been allocated and written. -/
structure Written (k : Nat) (m m' : QuadCollapseMesh V) (q : QuadPtr) (l a b : Nat) : Prop where
  sized : Sized k m'
  verts : m'.verts = m.verts
  fresh : ¬ Allocated m q
  allocated : ∀ x, Allocated m' x ↔ Allocated m x ∨ x = q
  other : ∀ x, x ≠ q → m'.quads x = m.quads x
  children : ∀ i, (m'.inner i).children = (m.inner i).children
  level : (m'.quads q).level = l
  parent : (m'.quads q).parent = none
  activeFrame : (m'.quads q).activeFrame = 0
  corner : ∀ c, (m'.quads q).cornerVertNodes c = vertIndex l (a + dx c) (b + dy c)

/-- Quads in use stay. -/
theorem Written.isQuad {q x : QuadPtr} {l' a' b' : Nat} (h : Written k m m' q l a b)
    (hx : IsQuad k m x l' a' b') : IsQuad k m' x l' a' b' := by
  have hne : x ≠ q := fun heq => h.fresh (heq ▸ hx.allocated)
  exact ⟨hx.grid, (h.allocated x).mpr (Or.inl hx.allocated), hx.isNode,
    by rw [h.other x hne]; exact hx.level, by rw [h.other x hne]; exact hx.corner⟩

/-- Quads other than the new one have been there before. -/
theorem Written.of_isQuad {q x : QuadPtr} {l' a' b' : Nat} (h : Written k m m' q l a b)
    (hne : x ≠ q) (hx : IsQuad k m' x l' a' b') : IsQuad k m x l' a' b' := by
  have halloc := ((h.allocated x).mp hx.allocated).resolve_right hne
  have hlevel := hx.level
  have hcorner := hx.corner
  rw [h.other x hne] at hlevel hcorner
  exact ⟨hx.grid, halloc, hx.isNode, hlevel, hcorner⟩

/-- The links of the vertices to each other are not touched. -/
theorem CollapseTree.enter (h : CollapseTree k m) (vs : List Nat) (q : QuadPtr) :
    CollapseTree k (enter m vs q) :=
  ⟨h.level, h.siblings, h.parent⟩

/-- Entering a quad at vertices changes no quad. -/
theorem enter_isQuad {vs : List Nat} {q x : QuadPtr} :
    IsQuad k (enter m vs q) x l a b ↔ IsQuad k m x l a b :=
  ⟨fun h => ⟨h.grid, h.allocated, h.isNode, h.level, h.corner⟩,
    fun h => ⟨h.grid, h.allocated, h.isNode, h.level, h.corner⟩⟩

/-- The new quad is alone in its cell, which was free. -/
theorem Written.unique {q x x' : QuadPtr} {l' a' b' : Nat} (hw : Written k m m' q l a b)
    (h : Building k A D m) (hA : (l, a, b) ∉ A) (hself : IsQuad k m' q l a b)
    (hx : IsQuad k m' x l' a' b') (hx' : IsQuad k m' x' l' a' b') : x = x' := by
  have hnew : ∀ {x}, x ≠ q → ¬ IsQuad k m' x l a b := by
    intro x hne hx
    have hold := hw.of_isQuad hne hx
    obtain ⟨l', a', b', hA', hx'⟩ := h.placed hold.allocated
    obtain ⟨rfl, rfl, rfl⟩ := hold.inj hx'
    exact hA hA'
  by_cases hxq : x = q
  · subst hxq
    obtain ⟨rfl, rfl, rfl⟩ := hx.inj hself
    by_contra hne
    exact hnew (Ne.symm hne) hx'
  · by_cases hxq' : x' = q
    · subst hxq'
      obtain ⟨rfl, rfl, rfl⟩ := hx'.inj hself
      exact absurd hx (hnew hxq)
    · exact h.unique (hw.of_isQuad hxq hx) (hw.of_isQuad hxq' hx')

/-- The quads at a vertex once the new quad is entered at its corners. -/
theorem Written.adjcent {q : QuadPtr} (hw : Written k m m' q l a b) (h : Building k A D m)
    (v : Nat) (x : QuadPtr) :
    x ∈ ((enter m' (cornerVerts l a b) q).verts v).adjcentQuads ↔
      Allocated m' x ∧ ∃ c, (m'.quads x).cornerVertNodes c = v := by
  show x ∈ (if v ∈ cornerVerts l a b then (m'.verts v).adjcentQuads ++ [q]
    else (m'.verts v).adjcentQuads) ↔ _
  rw [hw.allocated, hw.verts]
  by_cases hx : x = q
  · subst hx
    have hnot : x ∉ (m.verts v).adjcentQuads := fun hmem =>
      hw.fresh ((h.adjcent v x).mp hmem).1
    simp only [hw.corner, or_true, true_and, ← mem_cornerVerts]
    split
    · next hv => simp [hv]
    · next hv => simp [hv, hnot]
  · rw [hw.other x hx, or_iff_left hx, ← h.adjcent v x]
    split
    · simp [hx]
    · rfl

theorem Written.adjcent_nodup {q : QuadPtr} (hw : Written k m m' q l a b)
    (h : Building k A D m) (v : Nat) :
    ((enter m' (cornerVerts l a b) q).verts v).adjcentQuads.Nodup := by
  show (if v ∈ cornerVerts l a b then (m'.verts v).adjcentQuads ++ [q]
    else (m'.verts v).adjcentQuads).Nodup
  rw [hw.verts]
  split
  · refine List.nodup_append.mpr ⟨h.adjcent_nodup v, by simp, fun x hx y hy heq => ?_⟩
    obtain rfl : y = q := by simpa using hy
    exact hw.fresh (((h.adjcent v y).mp (heq ▸ hx)).1)
  · exact h.adjcent_nodup v

/-- **A quad is placed**: it is entered at the vertices of its corners. -/
theorem Building.place {q : QuadPtr} (h : Building k A D m) (hq : InQuads k l a b)
    (hA : (l, a, b) ∉ A) (hnode : q.IsNode ↔ l < k) (hw : Written k m m' q l a b) :
    Building k (insert (l, a, b) A) D (enter m' (cornerVerts l a b) q) ∧
      IsQuad k (enter m' (cornerVerts l a b) q) q l a b ∧
      ∀ x l' a' b', IsQuad k m x l' a' b' →
        IsQuad k (enter m' (cornerVerts l a b) q) x l' a' b' := by
  have htree : CollapseTree k m' :=
    ⟨by rw [hw.verts]; exact h.tree.level, by rw [hw.verts]; exact h.tree.siblings,
      by rw [hw.verts]; exact h.tree.parent⟩
  have hself : IsQuad k m' q l a b :=
    ⟨hq, (hw.allocated q).mpr (Or.inr rfl), hnode, hw.level, hw.corner⟩
  have hmono : ∀ x l' a' b', IsQuad k m x l' a' b' →
      IsQuad k (enter m' (cornerVerts l a b) q) x l' a' b' := fun x l' a' b' hx =>
    enter_isQuad.mpr (hw.isQuad hx)
  have hbuilding : Building k (insert (l, a, b) A) D (enter m' (cornerVerts l a b) q) := by
    constructor
    · exact ⟨hw.sized.levelBits, hw.sized.maxLevel, hw.sized.offset, hw.sized.poolSize⟩
    · exact htree.enter _ _
    · intro v
      show (m'.verts v).activeFrame = 0
      rw [hw.verts]
      exact h.unmarked v
    · intro x
      show (m'.quads x).activeFrame = 0
      by_cases hx : x = q
      · rw [hx]
        exact hw.activeFrame
      · rw [hw.other x hx]
        exact h.unmarkedQuad x
    · intro l' i j hg
      show (m'.verts (vertIndex (l' + 1) i j)).parent.isSome ↔ _
      rw [hw.verts]
      exact h.collapsed hg
    · intro x hx
      rcases (hw.allocated x).mp hx with hx | rfl
      · obtain ⟨l', a', b', hA', hx'⟩ := h.placed hx
        exact ⟨l', a', b', Or.inr hA', hmono x l' a' b' hx'⟩
      · exact ⟨l, a, b, Or.inl rfl, enter_isQuad.mpr hself⟩
    · intro l' a' b' hA'
      rcases hA' with heq | hA'
      · obtain ⟨rfl, rfl, rfl⟩ : l' = l ∧ a' = a ∧ b' = b := by simpa using heq
        exact ⟨q, enter_isQuad.mpr hself⟩
      · obtain ⟨x, hx⟩ := h.exists_quad hA'
        exact ⟨x, hmono x l' a' b' hx⟩
    · intro x x' l' a' b' hx hx'
      exact hw.unique h hA hself (enter_isQuad.mp hx) (enter_isQuad.mp hx')
    · exact hw.adjcent h
    · exact hw.adjcent_nodup h
    · intro l' a' b' hD
      obtain ⟨i, hi, hchild⟩ := h.linked hD
      refine ⟨i, hmono _ _ _ _ hi, fun c => ?_⟩
      obtain ⟨x, hx, hquad, hpar⟩ := hchild c
      have hne : x ≠ q := fun heq => hw.fresh (heq ▸ hquad.allocated)
      refine ⟨x, ?_, hmono _ _ _ _ hquad, ?_⟩
      · show (m'.inner i).children c = some x
        rw [hw.children, hx]
      · show (m'.quads x).parent = some i
        rw [hw.other x hne, hpar]
    · intro x i hx hpar
      replace hpar : (m'.quads x).parent = some i := hpar
      have hne : x ≠ q := fun heq => by
        rw [heq, hw.parent] at hpar
        exact absurd hpar (by simp)
      rw [hw.other x hne] at hpar
      obtain ⟨l', a', b', c, hi, hchild⟩ :=
        h.parent (((hw.allocated x).mp hx).resolve_right hne) hpar
      exact ⟨l', a', b', c, hmono _ _ _ _ hi, hmono _ _ _ _ hchild⟩
  exact ⟨hbuilding, enter_isQuad.mpr hself, hmono⟩

end Maple.Terrain
