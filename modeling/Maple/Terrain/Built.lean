import Maple.Terrain.BuildSound

/-!
# Maple.Terrain.Built

**`build` builds both trees.** From a new mesh and `2 ^ k + 1` by `2 ^ k + 1`
vertices, whatever the comparisons of distances give, `build` ends without a fault
and returns true (`build_settles`). The pools are used up, and every quad of every
level has been placed, linked with its children and collapsed (`Built`).
-/

namespace Maple.Terrain

open Lib QuadCollapseMesh

variable {V : Type} {k : Nat} {m₀ m m' : QuadCollapseMesh V} {l d : Nat}

/-! ### The vertices -/

/-- A vertex without links. -/
def VertNode.Blank (v : VertNode V) : Prop :=
  v.toVertLinks = { level := v.level } ∧ v.activeFrame = 0

/-- Between the loops of `buildVertNodes`: only vertices have been written since `m₀`,
and the levels are right outside `T`. -/
structure Initialising (k : Nat) (m₀ : QuadCollapseMesh V) (T : Set (Nat × Nat × Nat))
    (m : QuadCollapseMesh V) : Prop where
  sized : Sized k m
  length : m.maxLevelVerticesLength = 2 ^ k + 1
  vertices : (2 ^ k + 1) * (2 ^ k + 1) ≤ m.vertices.length
  rest : m = { m₀ with verts := m.verts }
  blank : ∀ v, (m.verts v).Blank
  level : ∀ {l i j}, InGrid k l i j → (l, i, j) ∉ T → (m.verts (vertIndex l i j)).level = l

theorem Initialising.mono {T T' : Set (Nat × Nat × Nat)} (h : Initialising k m₀ T m)
    (hsub : ∀ l i j, InGrid k l i j → (l, i, j) ∈ T → (l, i, j) ∈ T') :
    Initialising k m₀ T' m :=
  { h with level := fun hg hT => h.level hg fun hmem => hT (hsub _ _ _ hg hmem) }

/-- The body of the loops writes one vertex. -/
theorem Initialising.initVertNode {T : Set (Nat × Nat × Nat)} (h : Initialising k m₀ T m)
    {i j : Nat} (hg : InGrid k l i j) (hd : l + d = k) :
    ∃ m', m.initVertNode l (i * 2 ^ d) (j * 2 ^ d) = .ok m' ∧
      Initialising k m₀ (T \ {(l, i, j)}) m' := by
  have hread : j * 2 ^ d * m.maxLevelVerticesLength + i * 2 ^ d < m.vertices.length := by
    have hpow : 2 ^ l * 2 ^ d = 2 ^ k := by rw [← Nat.pow_add, hd]
    have hi : i * 2 ^ d ≤ 2 ^ k := hpow ▸ Nat.mul_le_mul_right _ hg.column
    have hj : j * 2 ^ d ≤ 2 ^ k := hpow ▸ Nat.mul_le_mul_right _ hg.row
    have hrow := Nat.mul_le_mul_right (2 ^ k + 1) hj
    have hall := h.vertices
    rw [Nat.succ_mul] at hall
    rw [h.length]
    omega
  let v := m.vertices[j * 2 ^ d * m.maxLevelVerticesLength + i * 2 ^ d]
  let w : VertNode V :=
    { level := l % 2 ^ m.limits.levelBits, originalVertex := v, interpolatedVertex := v }
  have hlevel : w.level = l :=
    Nat.mod_eq_of_lt (Nat.lt_of_le_of_lt hg.level h.sized.levelBits)
  refine ⟨m.modifyVert (vertIndex l i j) fun _ => w, ?_, ?_⟩
  · rw [QuadCollapseMesh.initVertNode, h.sized.getVertNode_eq hg hd (Or.inl rfl)]
    simp only [Except.bind, List.getElem?_eq_getElem hread]
    rfl
  · have hsized : Sized k (m.modifyVert (vertIndex l i j) fun _ => w) :=
      ⟨h.sized.levelBits, h.sized.maxLevel, h.sized.offset, h.sized.poolSize⟩
    refine ⟨hsized, h.length, h.vertices, ?_, fun x => ?_, fun {l' i' j'} hg' hT => ?_⟩
    · rw [h.rest]
      rfl
    · by_cases hx : x = vertIndex l i j
      · simp [modifyVert, hx, VertNode.Blank, w]
      · simpa [modifyVert, hx] using h.blank x
    · by_cases hx : vertIndex l' i' j' = vertIndex l i j
      · obtain ⟨rfl, -, -⟩ := vertIndex_inj hg' hg hx
        rw [hx]
        simpa [modifyVert] using hlevel
      · have hne : (l', i', j') ≠ (l, i, j) := by
          intro heq
          obtain ⟨rfl, rfl, rfl⟩ : l' = l ∧ i' = i ∧ j' = j := by simpa using heq
          exact hx rfl
        simpa [modifyVert, hx] using h.level hg' fun hmem => hT ⟨hmem, hne⟩

/-- A row. -/
theorem Initialising.row {T : Set (Nat × Nat × Nat)} (h : Initialising k m₀ T m) {j : Nat}
    (hj : j ≤ 2 ^ l) (hd : l + d = k) {xs : List Nat} (hxs : ∀ x ∈ xs, ∃ i ≤ 2 ^ l, x = i * 2 ^ d) :
    ∃ m', xs.foldlM (fun m x => m.initVertNode l x (j * 2 ^ d)) m = .ok m' ∧
      Initialising k m₀ (T \ {c | c.1 = l ∧ c.2.1 * 2 ^ d ∈ xs ∧ c.2.2 = j}) m' := by
  induction xs generalizing m T with
  | nil => exact ⟨m, rfl, h.mono fun _ _ _ _ hmem => ⟨hmem, by simp⟩⟩
  | cons x xs ih =>
      obtain ⟨i, hi, rfl⟩ := hxs x (by simp)
      obtain ⟨m₁, hrun, h₁⟩ := h.initVertNode ⟨by omega, hi, hj⟩ hd
      obtain ⟨m', hrest, h'⟩ := ih h₁ fun x hx => hxs x (List.mem_cons_of_mem _ hx)
      refine ⟨m', ?_, h'.mono fun l' i' j' _ hmem => ⟨hmem.1.1, fun ⟨hl, hx, hj'⟩ => ?_⟩⟩
      · rw [List.foldlM_cons, hrun]
        exact hrest
      · rcases List.mem_cons.mp hx with hx | hx
        · obtain rfl : i' = i := Nat.eq_of_mul_eq_mul_right (Nat.two_pow_pos d) hx
          obtain rfl : l' = l := hl
          obtain rfl : j' = j := hj'
          exact hmem.1.2 rfl
        · exact hmem.2 ⟨hl, hx, hj'⟩

/-- The rows of a level. -/
theorem Initialising.rows {T : Set (Nat × Nat × Nat)} (h : Initialising k m₀ T m) (hd : l + d = k)
    {xs ys : List Nat} (hxs : ∀ x ∈ xs, ∃ i ≤ 2 ^ l, x = i * 2 ^ d)
    (hys : ∀ y ∈ ys, ∃ j ≤ 2 ^ l, y = j * 2 ^ d) :
    ∃ m', ys.foldlM (fun m y => xs.foldlM (fun m x => m.initVertNode l x y) m) m = .ok m' ∧
      Initialising k m₀ (T \ {c | c.1 = l ∧ c.2.1 * 2 ^ d ∈ xs ∧ c.2.2 * 2 ^ d ∈ ys}) m' := by
  induction ys generalizing m T with
  | nil => exact ⟨m, rfl, h.mono fun _ _ _ _ hmem => ⟨hmem, by simp⟩⟩
  | cons y ys ih =>
      obtain ⟨j, hj, rfl⟩ := hys y (by simp)
      obtain ⟨m₁, hrun, h₁⟩ := h.row hj hd hxs
      obtain ⟨m', hrest, h'⟩ := ih h₁ fun y hy => hys y (List.mem_cons_of_mem _ hy)
      refine ⟨m', ?_, h'.mono fun l' i' j' _ hmem => ⟨hmem.1.1, fun ⟨hl, hx, hy⟩ => ?_⟩⟩
      · rw [List.foldlM_cons, hrun]
        exact hrest
      · rcases List.mem_cons.mp hy with hy | hy
        · obtain rfl : j' = j := Nat.eq_of_mul_eq_mul_right (Nat.two_pow_pos d) hy
          exact hmem.1.2 ⟨hl, hx, rfl⟩
        · exact hmem.2 ⟨hl, hx, hy⟩

theorem mem_forSteps (hd : l + d = k) {x : Nat} :
    x ∈ forSteps (2 ^ k + 1) (2 ^ d) ↔ ∃ i ≤ 2 ^ l, x = i * 2 ^ d := by
  have hdiv : 2 ^ k / 2 ^ d = 2 ^ l := by
    rw [← hd, Nat.pow_add, Nat.mul_div_cancel _ (Nat.two_pow_pos d)]
  simp only [forSteps, Nat.add_sub_cancel, hdiv, List.mem_map, List.mem_range, Nat.lt_succ_iff]
  exact ⟨fun ⟨i, hi, hx⟩ => ⟨i, hi, hx.symm⟩, fun ⟨i, hi, hx⟩ => ⟨i, hi, hx.symm⟩⟩

/-- The loops of `buildVertNodes` from level `l` on. -/
theorem Initialising.initVertNodes (h : Initialising k m₀ {c | l ≤ c.1} m) (hd : l + d = k) :
    ∃ m', m.initVertNodes l (2 ^ d) = .ok m' ∧ Initialising k m₀ ∅ m' := by
  induction d generalizing l m with
  | zero =>
      obtain ⟨m', hrun, h'⟩ :=
        h.rows hd (fun x => (mem_forSteps hd).mp) fun y => (mem_forSteps hd).mp
      refine ⟨m', ?_, h'.mono fun l' i j hg hmem => ?_⟩
      · rw [QuadCollapseMesh.initVertNodes, dif_neg (by simp)]
        simp only [h.length, hrun, Except.bind]
        rw [QuadCollapseMesh.initVertNodes, dif_pos (by simp)]
      · -- the last level has no levels after it
        have hl : l' = l := Nat.le_antisymm (by have := hg.level; omega) hmem.1
        subst hl
        exact absurd ⟨rfl, (mem_forSteps hd).mpr ⟨i, hg.column, rfl⟩,
          (mem_forSteps hd).mpr ⟨j, hg.row, rfl⟩⟩ hmem.2
  | succ d ih =>
      obtain ⟨m₁, hrun, h₁⟩ := h.rows hd (fun x => (mem_forSteps hd).mp) fun y =>
        (mem_forSteps hd).mp
      have h₁' : Initialising k m₀ {c | l + 1 ≤ c.1} m₁ := by
        refine h₁.mono fun l' i j hg hmem => ?_
        by_contra hlt
        have hl : l' = l := Nat.le_antisymm (Nat.not_lt.mp hlt) hmem.1
        subst hl
        exact hmem.2 ⟨rfl, (mem_forSteps hd).mpr ⟨i, hg.column, rfl⟩,
          (mem_forSteps hd).mpr ⟨j, hg.row, rfl⟩⟩
      obtain ⟨m', hrest, h'⟩ := ih h₁' (by omega)
      refine ⟨m', ?_, h'⟩
      have hhalf : 2 ^ (d + 1) / 2 = 2 ^ d := by
        rw [Nat.pow_succ, Nat.mul_div_cancel _ (by decide)]
      rw [QuadCollapseMesh.initVertNodes, dif_neg (Nat.two_pow_pos _).ne']
      simp only [h.length, hrun, Except.bind, hhalf]
      exact hrest

/-! ### The sizes of the pools -/

theorem levelCount_two_pow (k : Nat) : levelCount (2 ^ k) = k + 1 := by
  induction k with
  | zero =>
      rw [levelCount, dif_neg (by decide), levelCount, dif_pos (by decide)]
  | succ k ih =>
      rw [levelCount, dif_neg (Nat.two_pow_pos _).ne', Nat.pow_succ,
        Nat.mul_div_cancel _ (by decide), ih]

/-- The nodes of `d` levels, counted from the first level instead of from the last. -/
theorem nodeCount_succ (d : Nat) : nodeCount (d + 1) = nodeCount d + 2 ^ d * 2 ^ d := by
  induction d with
  | zero => rfl
  | succ d ih =>
      have hstep : nodeCount (d + 1 + 1) = 4 * nodeCount (d + 1) + 1 := rfl
      have hstep' : nodeCount (d + 1) = 4 * nodeCount d + 1 := rfl
      have hpow : 2 ^ (d + 1) * 2 ^ (d + 1) = 4 * (2 ^ d * 2 ^ d) := by ring
      omega

/-- The loop over the levels after `n` turns that are not the last one. -/
structure PoolSizes.After (n : Nat) (s : PoolSizes) : Prop where
  quadCountPerEdge : s.quadCountPerEdge = 2 ^ n
  vertCountPerEdge : s.vertCountPerEdge = 2 ^ n + 1
  quadNodePoolSize : s.quadNodePoolSize = nodeCount n
  vertNodePoolSize : s.vertNodePoolSize = vertOffset n
  offset : ∀ l < n, s.vertNodesLevelOffset l = vertOffset l

theorem PoolSizes.After.foldl {levels n : Nat} (offset : Nat → Nat) (hn : n < levels) :
    PoolSizes.After n ((List.range n).foldl (PoolSizes.addLevel levels)
      { vertNodesLevelOffset := offset }) := by
  induction n with
  | zero => exact ⟨rfl, rfl, rfl, rfl, nofun⟩
  | succ n ih =>
      have h := ih (by omega)
      rw [List.range_succ, List.foldl_append]
      generalize (List.range n).foldl (PoolSizes.addLevel levels)
        { vertNodesLevelOffset := offset } = s at h
      have hlast : ¬ n = levels - 1 := by omega
      refine ⟨?_, ?_, ?_, ?_, fun l hl => ?_⟩
      · show 2 * s.quadCountPerEdge = _
        rw [h.quadCountPerEdge, Nat.pow_succ']
      · show s.vertCountPerEdge + s.vertCountPerEdge - 1 = _
        rw [h.vertCountPerEdge, Nat.pow_succ]
        omega
      · show (if n = levels - 1 then _ else _) = _
        rw [if_neg hlast, h.quadNodePoolSize, h.quadCountPerEdge, nodeCount_succ]
      · show s.vertNodePoolSize + s.vertCountPerEdge * s.vertCountPerEdge = _
        rw [h.vertNodePoolSize, h.vertCountPerEdge, vertOffset]
      · show Function.update s.vertNodesLevelOffset n s.vertNodePoolSize l = _
        by_cases hln : l = n
        · rw [hln, Function.update_self, h.vertNodePoolSize]
        · rw [Function.update_of_ne hln]
          exact h.offset l (by omega)

/-- **The sizes of the pools**: the vertices of all levels, the quads of all levels but
the last, and the quads of the last one. -/
theorem poolSizes_eq (k : Nat) (offset : Nat → Nat) :
    (poolSizes (k + 1) offset).vertNodePoolSize = vertOffset (k + 1) ∧
      (∀ l ≤ k, (poolSizes (k + 1) offset).vertNodesLevelOffset l = vertOffset l) ∧
      (poolSizes (k + 1) offset).quadNodePoolSize = nodeCount k ∧
      (poolSizes (k + 1) offset).quadLeafPoolSize = 4 ^ k := by
  have h := PoolSizes.After.foldl offset (Nat.lt_succ_self k)
  have hlast : poolSizes (k + 1) offset = PoolSizes.addLevel (k + 1)
      ((List.range k).foldl (PoolSizes.addLevel (k + 1)) { vertNodesLevelOffset := offset }) k := by
    rw [poolSizes, List.range_succ, List.foldl_append]
    rfl
  rw [hlast]
  generalize (List.range k).foldl (PoolSizes.addLevel (k + 1))
    { vertNodesLevelOffset := offset } = s at h
  refine ⟨?_, fun l hl => ?_, ?_, ?_⟩
  · show s.vertNodePoolSize + s.vertCountPerEdge * s.vertCountPerEdge = _
    rw [h.vertNodePoolSize, h.vertCountPerEdge, vertOffset]
  · show Function.update s.vertNodesLevelOffset k s.vertNodePoolSize l = _
    by_cases hlk : l = k
    · rw [hlk, Function.update_self, h.vertNodePoolSize]
    · rw [Function.update_of_ne hlk]
      exact h.offset l (by omega)
  · exact (if_pos rfl).trans h.quadNodePoolSize
  · refine (if_pos rfl).trans ?_
    rw [h.quadCountPerEdge, ← Nat.mul_pow]

/-! ### The built mesh -/

/-- The links of a mesh that has been built. -/
structure Shape (k : Nat) (m : QuadCollapseMesh V) : Prop where
  tree : CollapseTree k m
  collapsed : ∀ {l i j}, InGrid k (l + 1) i j → (m.verts (vertIndex (l + 1) i j)).parent.isSome
  linked : ∀ {l a b}, InQuads k l a b → l < k → Linked k m l a b
  unique : ∀ {q q' l a b}, IsQuad k m q l a b → IsQuad k m q' l a b → q = q'
  adjcent : ∀ {v q}, q ∈ (m.verts v).adjcentQuads ↔
    ∃ l a b c, IsQuad k m q l a b ∧ vertIndex l (a + dx c) (b + dy c) = v
  parent : ∀ {q l a b i}, IsQuad k m q l a b → (m.quads q).parent = some i →
    ∃ l' a' b' c, IsQuad k m (.node i) l' a' b' ∧ l = l' + 1 ∧ a = 2 * a' + dx c ∧
      b = 2 * b' + dy c

/-- Only stamps, places and what is outside the pools differ. -/
structure SameLinks (m m' : QuadCollapseMesh V) : Prop where
  verts : ∀ v, (m'.verts v).toVertLinks = (m.verts v).toVertLinks
  quads : ∀ q, (m'.quads q).toQuadLinks = (m.quads q).toQuadLinks
  inner : m'.inner = m.inner
  nodes : m'.quadNodePoolAllocated = m.quadNodePoolAllocated
  leaves : m'.quadLeafPoolAllocated = m.quadLeafPoolAllocated

namespace SameLinks

theorem refl (m : QuadCollapseMesh V) : SameLinks m m :=
  ⟨fun _ => rfl, fun _ => rfl, rfl, rfl, rfl⟩

theorem trans {m'' : QuadCollapseMesh V} (h : SameLinks m m') (h' : SameLinks m' m'') :
    SameLinks m m'' :=
  ⟨fun v => (h'.verts v).trans (h.verts v), fun q => (h'.quads q).trans (h.quads q),
    h'.inner.trans h.inner, h'.nodes.trans h.nodes, h'.leaves.trans h.leaves⟩

theorem symm (h : SameLinks m m') : SameLinks m' m :=
  ⟨fun v => (h.verts v).symm, fun q => (h.quads q).symm, h.inner.symm, h.nodes.symm,
    h.leaves.symm⟩

theorem isQuad (h : SameLinks m m') {q : QuadPtr} {l a b : Nat} (hq : IsQuad k m q l a b) :
    IsQuad k m' q l a b := by
  refine ⟨hq.grid, ?_, hq.isNode, ?_, ?_⟩
  · have halloc := hq.allocated
    cases q with
    | node i => rwa [Allocated, h.nodes]
    | leaf i => rwa [Allocated, h.leaves]
  · rw [h.quads]
    exact hq.level
  · rw [h.quads]
    exact hq.corner

theorem isQuad_iff (h : SameLinks m m') {q : QuadPtr} {l a b : Nat} :
    IsQuad k m' q l a b ↔ IsQuad k m q l a b :=
  ⟨h.symm.isQuad, h.isQuad⟩

theorem linked (h : SameLinks m m') {l a b : Nat} (hl : Linked k m l a b) :
    Linked k m' l a b := by
  obtain ⟨i, hi, hchild⟩ := hl
  refine ⟨i, h.isQuad hi, fun c => ?_⟩
  obtain ⟨q, hq, hquad, hparent⟩ := hchild c
  refine ⟨q, ?_, h.isQuad hquad, ?_⟩
  · rw [h.inner]
    exact hq
  · rw [h.quads]
    exact hparent

theorem tree (h : SameLinks m m') (ht : CollapseTree k m) : CollapseTree k m' := by
  refine ⟨fun hg => ?_, ?_, fun hv => ?_⟩
  · rw [h.verts]
    exact ht.level hg
  · simp only [h.verts]
    exact ht.siblings
  · rw [h.verts] at hv
    exact ht.parent hv

/-- The shape does not depend on the rest. -/
theorem shape (h : SameLinks m m') (hs : Shape k m) : Shape k m' := by
  refine ⟨h.tree hs.tree, fun hg => ?_, fun hq hl => h.linked (hs.linked hq hl),
    fun hq hq' => hs.unique (h.isQuad_iff.mp hq) (h.isQuad_iff.mp hq'), fun {v q} => ?_,
    fun hq hp => ?_⟩
  · rw [h.verts]
    exact hs.collapsed hg
  · simp only [h.verts, h.isQuad_iff]
    exact hs.adjcent
  · rw [h.quads] at hp
    simp only [h.isQuad_iff]
    exact hs.parent (h.isQuad_iff.mp hq) hp

end SameLinks

/-- A vertex of the next level lies in or on a quad. -/
theorem InGrid.exists_patch {l i j : Nat} (hg : InGrid k (l + 1) i j) :
    ∃ a b, InQuads k l a b ∧ vertIndex (l + 1) i j ∈ patchVerts l a b := by
  have hhalf : ∀ x ≤ 2 ^ (l + 1), ∃ a < 2 ^ l, 2 * a ≤ x ∧ x ≤ 2 * a + 2 := by
    intro x hx
    rw [Nat.pow_succ] at hx
    have hpos := Nat.two_pow_pos l
    by_cases hlast : x / 2 < 2 ^ l
    · exact ⟨x / 2, hlast, by omega, by omega⟩
    · exact ⟨2 ^ l - 1, by omega, by omega, by omega⟩
  obtain ⟨a, ha, hi⟩ := hhalf i hg.column
  obtain ⟨b, hb, hj⟩ := hhalf j hg.row
  exact ⟨a, b, ⟨Nat.le_of_succ_le hg.level, ha, hb⟩, i, j, hi, hj, rfl⟩

/-- When all quads have been placed and collapsed, the mesh has its shape. -/
theorem Building.shape (h : Building k (subQuads k 0 0 0) {x ∈ subQuads k 0 0 0 | x.1 < k} m) :
    Shape k m := by
  have hall : ∀ {l a b}, InQuads k l a b → (l, a, b) ∈ subQuads k 0 0 0 := by
    intro l a b hq
    exact ⟨Nat.zero_le l, hq.level, Nat.div_eq_of_lt hq.column, Nat.div_eq_of_lt hq.row⟩
  refine ⟨h.tree, fun {l i j} hg => ?_, fun hq hl => h.linked ⟨hall hq, hl⟩, h.unique,
    fun {v q} => ?_, fun {q l a b i} hq hp => ?_⟩
  · obtain ⟨a, b, hq, hmem⟩ := hg.exists_patch
    exact (h.collapsed hg).mpr ⟨a, b, ⟨hall hq, hg.level⟩, hmem⟩
  · rw [h.adjcent]
    refine ⟨fun ⟨halloc, c, hc⟩ => ?_, fun ⟨l, a, b, c, hq, hc⟩ => ⟨hq.allocated, c, ?_⟩⟩
    · obtain ⟨l, a, b, -, hq⟩ := h.placed halloc
      exact ⟨l, a, b, c, hq, (hq.corner c).symm.trans hc⟩
    · exact (hq.corner c).trans hc
  · obtain ⟨l', a', b', c, hi, hq'⟩ := h.parent hq.allocated hp
    obtain ⟨rfl, rfl, rfl⟩ := hq.inj hq'
    exact ⟨l', a', b', c, hi, rfl, rfl, rfl⟩

/-- A mesh that has been built. -/
structure Built (k : Nat) (m : QuadCollapseMesh V) : Prop extends Shape k m where
  root : ∃ q, m.rootQuadNode = some q ∧ IsQuad k m q 0 0 0
  rootVert : ∀ c, m.rootVertNodes c = some (vertIndex 0 (dx c) (dy c))

theorem SameLinks.built (h : SameLinks m m') (hroot : m'.rootQuadNode = m.rootQuadNode)
    (hverts : m'.rootVertNodes = m.rootVertNodes) (hb : Built k m) : Built k m' := by
  obtain ⟨q, hq, hquad⟩ := hb.root
  exact ⟨h.shape hb.toShape, ⟨q, hroot.trans hq, h.isQuad hquad⟩, hverts ▸ hb.rootVert⟩

/-- What `build` leaves: no stamps, full pools, and no vertex with too many quads. -/
structure Fresh (k : Nat) (m : QuadCollapseMesh V) : Prop extends Built k m where
  sized : Sized k m
  nodes : m.quadNodePoolAllocated = m.quadNodePoolSize
  leaves : m.quadLeafPoolAllocated = m.quadLeafPoolSize
  adjcent_le : ∀ v, (m.verts v).adjcentQuads.length ≤ 4
  unmarked : ∀ v, (m.verts v).activeFrame = 0
  unmarkedQuad : ∀ q, (m.quads q).activeFrame = 0
  updateFrame : m.updateFrame = 0

/-! ### `build` -/

/-- Nothing has been placed after `buildVertNodes`. -/
theorem Initialising.building (h : Initialising k m₀ ∅ m)
    (hquads : ∀ q, (m.quads q).activeFrame = 0) (hnodes : m.quadNodePoolAllocated = 0)
    (hleaves : m.quadLeafPoolAllocated = 0) : Building k ∅ ∅ m := by
  have hlinks : ∀ v, (m.verts v).toVertLinks = { level := (m.verts v).level } := fun v =>
    (h.blank v).1
  have hnone : ∀ q, ¬ Allocated m q := by
    intro q hq
    cases q with
    | node i =>
        rw [Allocated, hnodes] at hq
        exact Nat.not_lt_zero i hq
    | leaf i =>
        rw [Allocated, hleaves] at hq
        exact Nat.not_lt_zero i hq
  have hparent : ∀ v, (m.verts v).parent = none := fun v => by rw [hlinks]
  have hadjcent : ∀ v, (m.verts v).adjcentQuads = [] := fun v => by rw [hlinks]
  refine ⟨h.sized, ⟨fun hg => h.level hg (Set.notMem_empty _), ?_, fun hp => ?_⟩,
    fun v => (h.blank v).2, hquads, fun hg => ?_, fun hq => absurd hq (hnone _),
    fun hmem => absurd hmem (Set.notMem_empty _), fun hq => absurd hq.allocated (hnone _),
    fun v q => ?_, fun v => ?_, fun hmem => absurd hmem (Set.notMem_empty _),
    fun hq => absurd hq (hnone _)⟩
  · exact Siblings.none hparent (fun v => by rw [hlinks]) fun v => by rw [hlinks]
  · exact absurd ((hparent _).symm.trans hp) (by simp)
  · rw [hparent]
    simp
  · rw [hadjcent]
    simp [hnone]
  · rw [hadjcent]
    exact List.nodup_nil

/-- The mesh that `build` hands to `buildVertNodes`. -/
def prepared [Inhabited V] (limits : Limits) (k : Nat) (vertices : List V) : QuadCollapseMesh V :=
  ((empty limits).setMesh vertices (2 ^ k + 1) (2 ^ k + 1)).resizePools (k + 1)

/-- The limits are large enough for `k + 1` levels. -/
structure Limits.Admits (limits : Limits) (k : Nat) : Prop where
  maxLength : 2 ^ k + 1 ≤ limits.maxLength
  maxQuadLevelCount : k + 1 ≤ limits.maxQuadLevelCount
  levelBits : k < 2 ^ limits.levelBits

variable [Inhabited V] {limits : Limits} {vertices : List V}

/-- The pools of a new mesh have the sizes for `2 ^ k + 1` columns, whatever the number of
rows. -/
theorem initialising_resizePools (hlimits : limits.Admits k) (height : Nat)
    (hvertices : (2 ^ k + 1) * (2 ^ k + 1) ≤ vertices.length) :
    Initialising k (((empty limits).setMesh vertices (2 ^ k + 1) height).resizePools (k + 1))
      {c | 0 ≤ c.1} (((empty limits).setMesh vertices (2 ^ k + 1) height).resizePools (k + 1)) := by
  obtain ⟨hpool, hoffset, -, -⟩ := poolSizes_eq k fun _ => 0
  refine ⟨⟨hlimits.levelBits, rfl, hoffset, hpool⟩, rfl, hvertices, rfl, fun v => ?_,
    fun _ hT => absurd (Nat.zero_le _) hT⟩
  -- the pools were empty before
  have hnew : ((((empty limits).setMesh vertices (2 ^ k + 1) height).resizePools (k + 1)).verts v) =
      { originalVertex := default, interpolatedVertex := default } := by
    simp [resizePools, setMesh, empty]
  rw [hnew]
  exact ⟨rfl, rfl⟩

theorem initialising_prepared (hlimits : limits.Admits k)
    (hvertices : (2 ^ k + 1) * (2 ^ k + 1) ≤ vertices.length) :
    Initialising k (prepared limits k vertices) {c | 0 ≤ c.1} (prepared limits k vertices) :=
  initialising_resizePools hlimits _ hvertices

/-- None of the checks of `build` fails. -/
theorem build_eq (closer : V → V → V → Bool) (hlimits : limits.Admits k) (fuel : Nat) :
    build closer fuel (empty limits) vertices (2 ^ k + 1) (2 ^ k + 1) =
      (prepared limits k vertices).buildVertNodes.bind fun m =>
      (recursiveBuildQuadNodes closer fuel m 0 0 0 (m.maxLevelVerticesLength - 1)).map
        fun (root, m) => (true, { m with rootQuadNode := some root }) := by
  have hpos := Nat.two_pow_pos k
  have hlength : ((empty limits).setMesh vertices (2 ^ k + 1) (2 ^ k + 1)).maxLevelVerticesLength =
      2 ^ k + 1 := rfl
  have hlimits' : ((empty limits).setMesh vertices (2 ^ k + 1) (2 ^ k + 1)).limits = limits := rfl
  have hshort : ¬ 2 ^ k + 1 < 2 := by omega
  have hlong : ¬ limits.maxLength < 2 ^ k + 1 := Nat.not_lt.mpr hlimits.maxLength
  have hmany : ¬ limits.maxQuadLevelCount < k + 1 := Nat.not_lt.mpr hlimits.maxQuadLevelCount
  simp only [build, hlength, hlimits', if_neg hshort, if_neg hlong, Nat.add_sub_cancel,
    levelCount_two_pow, if_neg hmany]
  rfl

/-- Only the pools and the roots of the two trees differ. -/
def BuiltFrom (m m' : QuadCollapseMesh V) : Prop :=
  m' = { m with
    verts := m'.verts
    quads := m'.quads
    inner := m'.inner
    quadNodePoolAllocated := m'.quadNodePoolAllocated
    quadLeafPoolAllocated := m'.quadLeafPoolAllocated
    rootQuadNode := m'.rootQuadNode
    rootVertNodes := m'.rootVertNodes }

/-- The quads of the pools are unmarked, none is in use, and the pools are large enough. -/
structure Unused (k : Nat) (m : QuadCollapseMesh V) : Prop where
  unmarkedQuad : ∀ q, (m.quads q).activeFrame = 0
  nodes : m.quadNodePoolAllocated = 0
  nodeSize : m.quadNodePoolSize = nodeCount k
  leaves : m.quadLeafPoolAllocated = 0
  leafSize : m.quadLeafPoolSize = 4 ^ k

omit [Inhabited V] in
/-- What `build` does after it has resized the pools. -/
theorem Initialising.buildTrees (closer : V → V → V → Bool)
    (h : Initialising k m {c | 0 ≤ c.1} m) (hunused : Unused k m) (hframe : m.updateFrame = 0) :
    ∃ m', Settles (fun fuel => m.buildVertNodes.bind fun m =>
        (recursiveBuildQuadNodes closer fuel m 0 0 0 (m.maxLevelVerticesLength - 1)).map
          fun (root, m) => (true, { m with rootQuadNode := some root })) (.ok (true, m')) ∧
      Fresh k m' ∧ BuiltFrom m m' := by
  obtain ⟨m₁, hinit, h₁⟩ := h.initVertNodes (Nat.zero_add k)
  have hrest := h₁.rest
  let roots : Fin 4 → Option Nat := fun c => some (vertIndex 0 (dx c) (dy c))
  let m₂ : QuadCollapseMesh V := { m₁ with rootVertNodes := roots }
  have h₂ : Initialising k { m with rootVertNodes := roots } ∅ m₂ := by
    refine ⟨⟨h₁.sized.levelBits, h₁.sized.maxLevel, h₁.sized.offset, h₁.sized.poolSize⟩, h₁.length,
      h₁.vertices, ?_, h₁.blank, h₁.level⟩
    show { m₁ with rootVertNodes := roots } = _
    rw [hrest]
  have hunused₂ : Unused k m₂ := by
    rw [h₂.rest]
    exact ⟨hunused.unmarkedQuad, hunused.nodes, hunused.nodeSize, hunused.leaves,
      hunused.leafSize⟩
  have hbuilding : Building k ∅ ∅ m₂ :=
    h₂.building hunused₂.unmarkedQuad hunused₂.nodes hunused₂.leaves
  have hroot : InQuads k 0 0 0 := ⟨Nat.zero_le k, by simp, by simp⟩
  have hverts : buildVertNodes m = .ok m₂ := by
    have htree : CollapseTree k m₁ := ⟨hbuilding.tree.level, hbuilding.tree.siblings,
      hbuilding.tree.parent⟩
    have hcorners : m₁.getCornerVertNodes 0 0 0 (2 ^ k) =
        .ok fun c => vertIndex 0 (dx c) (dy c) := by
      simpa using h₁.sized.getCornerVertNodes_eq htree hroot (Nat.zero_add k)
    have hlast : m.maxLevelVerticesLength - 1 = 2 ^ k := by rw [h.length, Nat.add_sub_cancel]
    simp only [buildVertNodes, hlast, hinit, Except.bind, hcorners]
    rfl
  obtain ⟨q, m₃, hrun, hq, h₃⟩ := builds closer k k (Nat.zero_add k) hbuilding hroot
    (fun x _ => Set.notMem_empty x) (fun x _ => Set.notMem_empty x)
    (by rw [hunused₂.nodes, hunused₂.nodeSize]; omega)
    (by rw [hunused₂.leaves, hunused₂.leafSize]; omega)
  have hext := h₃.extend
  have hdone : Building k (subQuads k 0 0 0) {x ∈ subQuads k 0 0 0 | x.1 < k} m₃ := by
    simpa using h₃.building
  have hsame : SameLinks m₃ { m₃ with rootQuadNode := some q } :=
    ⟨fun _ => rfl, fun _ => rfl, rfl, rfl, rfl⟩
  refine ⟨{ m₃ with rootQuadNode := some q }, ?_, ?_, ?_⟩
  · let finish : QuadPtr × QuadCollapseMesh V → Bool × QuadCollapseMesh V := fun (root, m) =>
      (true, { m with rootQuadNode := some root })
    have hlength : m₂.maxLevelVerticesLength - 1 = 2 ^ k := by rw [h₂.length, Nat.add_sub_cancel]
    refine (hrun.comp (Except.map finish)).congr fun fuel => ?_
    rw [hverts]
    simp only [Except.bind, hlength, Nat.zero_mul]
    rfl
  · refine ⟨⟨hsame.shape hdone.shape, ⟨q, rfl, hsame.isQuad hq⟩, fun c => ?_⟩, ?_, ?_, ?_,
      hdone.adjcent_le, hdone.unmarked, hdone.unmarkedQuad, ?_⟩
    · show m₃.rootVertNodes c = _
      rw [hext]
    · exact ⟨hdone.sized.levelBits, hdone.sized.maxLevel, hdone.sized.offset, hdone.sized.poolSize⟩
    · show m₃.quadNodePoolAllocated = m₃.quadNodePoolSize
      rw [h₃.nodes, hunused₂.nodes, Nat.zero_add, ← hunused₂.nodeSize, hext]
    · show m₃.quadLeafPoolAllocated = m₃.quadLeafPoolSize
      rw [h₃.leaves, hunused₂.leaves, Nat.zero_add, ← hunused₂.leafSize, hext]
    · show m₃.updateFrame = 0
      rw [hext, h₂.rest]
      exact hframe
  · rw [BuiltFrom]
    show { m₃ with rootQuadNode := some q } = _
    rw [hext, h₂.rest]

/-- The pools of a new mesh are not used. -/
theorem unused_resizePools {height : Nat} :
    Unused k (((empty limits).setMesh vertices (2 ^ k + 1) height).resizePools (k + 1)) := by
  obtain ⟨-, -, hnodes, hleaves⟩ := poolSizes_eq k fun _ => 0
  refine ⟨fun q => ?_, rfl, hnodes, rfl, hleaves⟩
  cases q with
  | node i => exact congrArg QuadLeaf.activeFrame (if_neg fun hlt => Nat.not_lt_zero i hlt.1)
  | leaf i => exact congrArg QuadLeaf.activeFrame (if_neg fun hlt => Nat.not_lt_zero i hlt.1)

/-- **`build`** ends, succeeds and leaves the mesh built. -/
theorem build_settles_from (closer : V → V → V → Bool) (hlimits : limits.Admits k)
    (hvertices : (2 ^ k + 1) * (2 ^ k + 1) ≤ vertices.length) :
    ∃ m, Settles (fun fuel => build closer fuel (empty limits) vertices (2 ^ k + 1) (2 ^ k + 1))
      (.ok (true, m)) ∧ Fresh k m ∧ BuiltFrom (prepared limits k vertices) m := by
  obtain ⟨m, hrun, hfresh, hfrom⟩ :=
    (initialising_prepared hlimits hvertices).buildTrees closer unused_resizePools rfl
  exact ⟨m, hrun.congr (build_eq closer hlimits), hfresh, hfrom⟩

theorem build_settles (closer : V → V → V → Bool) (hlimits : limits.Admits k)
    (hvertices : (2 ^ k + 1) * (2 ^ k + 1) ≤ vertices.length) :
    ∃ m, Settles (fun fuel => build closer fuel (empty limits) vertices (2 ^ k + 1) (2 ^ k + 1))
      (.ok (true, m)) ∧ Fresh k m := by
  obtain ⟨m, hrun, hfresh, -⟩ := build_settles_from closer hlimits hvertices
  exact ⟨m, hrun, hfresh⟩

/-! ### The pools are exactly large enough -/

/-- The vertex belongs to the level: it lies in its block of the pool. -/
def InBlock (m : QuadCollapseMesh V) (level v : Nat) : Prop :=
  m.vertNodesLevelOffset level ≤ v ∧
    v < m.vertNodesLevelOffset level + (2 ^ level + 1) * (2 ^ level + 1) ∧ v < m.vertNodePoolSize

omit [Inhabited V] in
/-- What a call of `getVertNode` that is not a fault has found. -/
theorem getVertNode_ok {level x y v : Nat} {initMode : Bool}
    (h : m.getVertNode level x y initMode = .ok v) :
    InBlock m level v ∧ (initMode = false → (m.verts v).level = level) := by
  simp only [getVertNode] at h
  generalize x >>> (m.maxLevel - level) = i at h
  generalize y >>> (m.maxLevel - level) = j at h
  split at h
  · next hin =>
      split at h
      · next hcheck =>
          obtain rfl := Except.ok.inj h
          obtain ⟨-, hx, hy, hpool⟩ := hin
          have hrow := Nat.mul_le_mul_right (2 ^ level + 1) (Nat.le_of_lt_succ hy)
          have hsquare : (2 ^ level + 1) * (2 ^ level + 1) =
              2 ^ level * (2 ^ level + 1) + (2 ^ level + 1) := by ring
          refine ⟨⟨by omega, by omega, hpool⟩, fun hinit => ?_⟩
          exact hcheck.resolve_left (by simp [hinit])
      · simp at h
  · simp at h

/-- **The pools are exactly large enough.** `build` ends without a fault, so no
allocation fails, every `getVertNode` finds a vertex of the right level in its block
(`getVertNode_ok`), no read of `vertices` is out of range and no vertex gets a fifth
quad. All inner nodes and leaves of the pools are in use, and the grid points of the
levels have vertices of their own. -/
theorem build_fits_pools (closer : V → V → V → Bool) (hlimits : limits.Admits k)
    (hvertices : (2 ^ k + 1) * (2 ^ k + 1) ≤ vertices.length) :
    ∃ m, Settles (fun fuel => build closer fuel (empty limits) vertices (2 ^ k + 1) (2 ^ k + 1))
        (.ok (true, m)) ∧
      m.quadNodePoolAllocated = m.quadNodePoolSize ∧
      m.quadLeafPoolAllocated = m.quadLeafPoolSize ∧
      (∀ l i j, InGrid k l i j → ∃ v,
        m.getVertNode l (i * 2 ^ (k - l)) (j * 2 ^ (k - l)) false = .ok v ∧ InBlock m l v) ∧
      (∀ l i j l' i' j' v, InGrid k l i j → InGrid k l' i' j' →
        m.getVertNode l (i * 2 ^ (k - l)) (j * 2 ^ (k - l)) false = .ok v →
        m.getVertNode l' (i' * 2 ^ (k - l')) (j' * 2 ^ (k - l')) false = .ok v →
        (l, i, j) = (l', i', j')) ∧
      (∀ v, (m.verts v).adjcentQuads.length ≤ 4) ∧
      ∀ (m' : QuadCollapseMesh V) (level x y v : Nat) (initMode : Bool),
        m'.getVertNode level x y initMode = .ok v →
        InBlock m' level v ∧ (initMode = false → (m'.verts v).level = level) := by
  obtain ⟨m, hrun, h⟩ := build_settles closer hlimits hvertices
  have hget : ∀ {l i j}, InGrid k l i j →
      m.getVertNode l (i * 2 ^ (k - l)) (j * 2 ^ (k - l)) false = .ok (vertIndex l i j) :=
    fun hg => h.sized.getVertNode_eq hg (Nat.add_sub_cancel' hg.level) (Or.inr (h.tree.level hg))
  refine ⟨m, hrun, h.nodes, h.leaves, fun l i j hg => ⟨_, hget hg, (getVertNode_ok (hget hg)).1⟩,
    fun l i j l' i' j' v hg hg' hv hv' => ?_, h.adjcent_le, fun _ _ _ _ _ _ => getVertNode_ok⟩
  have heq := Except.ok.inj ((hget hg).symm.trans hv)
  have heq' := Except.ok.inj ((hget hg').symm.trans hv')
  obtain ⟨rfl, rfl, rfl⟩ := vertIndex_inj hg hg' (heq.trans heq'.symm)
  rfl

omit [Inhabited V] in
/-- The limits of the source are those of 13 levels. -/
theorem shipped_admits (hk : k ≤ 12) : ({} : Limits).Admits k := by
  have hpow : 2 ^ k ≤ 2 ^ 12 := Nat.pow_le_pow_right (by decide) hk
  exact ⟨Nat.succ_le_succ hpow, Nat.succ_le_succ hk, Nat.lt_of_le_of_lt hk (by decide)⟩

/-- Nine vertices: four leaves under one node. -/
theorem build_fits_pools_nine :
    ∃ m, Settles (fun fuel => build (fun _ _ _ => true) fuel (empty {}) (List.range 9) 3 3)
        (.ok (true, m)) ∧
      m.quadNodePoolAllocated = m.quadNodePoolSize ∧
      m.quadLeafPoolAllocated = m.quadLeafPoolSize := by
  have hvertices : (2 ^ 1 + 1) * (2 ^ 1 + 1) ≤ (List.range 9).length := by decide
  obtain ⟨m, hrun, hnodes, hleaves, -⟩ := build_fits_pools (fun _ _ _ => true)
    (shipped_admits (by decide)) hvertices
  exact ⟨m, hrun, hnodes, hleaves⟩

end Maple.Terrain
