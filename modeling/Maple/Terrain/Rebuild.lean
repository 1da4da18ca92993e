import Maple.Terrain.BuildSafety
import Maple.Terrain.WalkMarks

/-!
# Maple.Terrain.Rebuild

**A mesh can be built once only.** `build` gives the pool of the leaves the size that the new
mesh needs, and counts the leaves it takes from where the last `build` has stopped. After a
first `build` the counter is not zero, and no update resets it, so that a second one runs out
of leaves and writes through the null pointer of `allocQuadLeaf` (`rebuild_never`).
-/

namespace Maple.Terrain

open Lib QuadCollapseMesh

variable {V : Type} {k : Nat} {m m' : QuadCollapseMesh V}

/-- The number of leaves in use and of those in the pool. -/
def leafPool (m : QuadCollapseMesh V) : Nat × Nat := (m.quadLeafPoolAllocated, m.quadLeafPoolSize)

/-! ### What a build takes from the pool -/

@[simp] theorem leafPool_modifyVert (v : Nat) (f : VertNode V → VertNode V) :
    leafPool (m.modifyVert v f) = leafPool m := rfl

@[simp] theorem leafPool_modifyQuad (q : QuadPtr) (f : QuadLeaf → QuadLeaf) :
    leafPool (m.modifyQuad q f) = leafPool m := rfl

@[simp] theorem leafPool_addChild (this child : Nat) :
    leafPool (m.addChild this child) = leafPool m := by
  unfold addChild
  split
  · rfl
  · split
    · rfl
    · simp only
      split
      · rfl
      · split <;> rfl

@[simp] theorem leafPool_collapseMiddle (closer : V → V → V → Bool) (child vn1 vn2 : Nat) :
    leafPool (collapseMiddle closer m child vn1 vn2) = leafPool m := by
  unfold collapseMiddle
  split
  · rfl
  · split <;> exact leafPool_addChild ..

theorem leafPool_linkChildren (i : Nat) (children : Fin 4 → QuadPtr) :
    leafPool (m.linkChildren i children) = leafPool m := by
  rw [linkChildren_eq]
  rfl

theorem addAdjcentQuad_leafPool {v : Nat} {q : QuadPtr} (h : m.addAdjcentQuad v q = .ok m') :
    leafPool m' = leafPool m := by
  unfold addAdjcentQuad at h
  split at h
  · obtain rfl := Except.ok.inj h
    rfl
  · split at h
    · obtain rfl := Except.ok.inj h
      rfl
    · exact absurd h nofun

theorem collapseQuad_leafPool {closer : V → V → V → Bool} {fuel i : Nat}
    {children : Fin 4 → QuadPtr} (h : collapseQuad closer fuel m i children = .ok m') :
    leafPool m' = leafPool m := by
  unfold collapseQuad at h
  simp only at h
  split at h
  · obtain rfl := Except.ok.inj h
    simp [collapseCorners]
  · obtain ⟨t, -, h⟩ := bind_eq_ok h
    obtain ⟨t', -, rfl⟩ := map_eq_ok h
    simp [collapseCorners, collapseEdges]

variable {level x y : Nat}

theorem buildQuadLeaf_leafPool {step : Nat} {q : QuadPtr}
    (h : Unchecked.buildQuadLeaf m level x y step = .ok (q, m')) :
    m.quadLeafPoolAllocated < m.quadLeafPoolSize ∧
      leafPool m' = (m.quadLeafPoolAllocated + 1, m.quadLeafPoolSize) := by
  obtain ⟨⟨i, m₁⟩, halloc, h⟩ := bind_eq_ok h
  obtain ⟨corners, -, h⟩ := bind_eq_ok h
  obtain ⟨m₂, hloop, hpair⟩ := map_eq_ok h
  obtain ⟨-, rfl⟩ := Prod.mk.inj hpair
  unfold allocQuadLeaf at halloc
  split at halloc
  · next hroom =>
      obtain ⟨rfl, rfl⟩ := Prod.mk.inj (Except.ok.inj halloc)
      refine ⟨hroom, foldlM_keeps (g := leafPool) (fun {s c s'} hstep => ?_) hloop⟩
      split at hstep
      · exact addAdjcentQuad_leafPool hstep
      · obtain rfl := Except.ok.inj hstep
        rfl
  · exact absurd halloc nofun

theorem buildQuadNode_leafPool {step i : Nat}
    (h : Unchecked.buildQuadNode m level x y step = .ok (i, m')) : leafPool m' = leafPool m := by
  obtain ⟨⟨i, m₁⟩, halloc, h⟩ := bind_eq_ok h
  obtain ⟨center, -, h⟩ := bind_eq_ok h
  obtain ⟨corners, -, h⟩ := bind_eq_ok h
  obtain ⟨m₂, hloop, hpair⟩ := map_eq_ok h
  obtain ⟨-, rfl⟩ := Prod.mk.inj hpair
  unfold allocQuadNode at halloc
  split at halloc
  · obtain ⟨rfl, rfl⟩ := Prod.mk.inj (Except.ok.inj halloc)
    exact (foldlM_keeps (g := leafPool) addAdjcentQuad_leafPool hloop).trans rfl
  · exact absurd halloc nofun

/-- **The leaves of a build**: a square of `2 ^ d` steps takes `4 ^ d` of them. -/
theorem recursiveBuildQuadNodes_leaves {closer : V → V → V → Bool} {fuel d : Nat} {q : QuadPtr}
    (h : Unchecked.recursiveBuildQuadNodes closer fuel m level x y (2 ^ d) = .ok (q, m')) :
    leafPool m' = (m.quadLeafPoolAllocated + 4 ^ d, m.quadLeafPoolSize) ∧
      m.quadLeafPoolAllocated + 4 ^ d ≤ m.quadLeafPoolSize := by
  induction fuel generalizing d level x y m m' q with
  | zero => exact absurd h nofun
  | succ fuel ih =>
      rw [Unchecked.recursiveBuildQuadNodes] at h
      cases d with
      | zero =>
          rw [if_pos (Nat.pow_zero 2)] at h
          obtain ⟨hroom, hpool⟩ := buildQuadLeaf_leafPool h
          exact ⟨hpool, hroom⟩
      | succ d =>
          have hone : ¬ 2 ^ (d + 1) = 1 := by
            rw [Nat.pow_succ]
            have := Nat.two_pow_pos d
            omega
          have hhalf : 2 ^ (d + 1) / 2 = 2 ^ d := by
            rw [Nat.pow_succ, Nat.mul_div_cancel _ (by decide)]
          rw [if_neg hone] at h
          simp only [hhalf] at h
          obtain ⟨⟨i, m₁⟩, hnode, h⟩ := bind_eq_ok h
          obtain ⟨⟨c0, s0⟩, h0, h⟩ := bind_eq_ok h
          obtain ⟨⟨c1, s1⟩, h1, h⟩ := bind_eq_ok h
          obtain ⟨⟨c2, s2⟩, h2, h⟩ := bind_eq_ok h
          obtain ⟨⟨c3, s3⟩, h3, h⟩ := bind_eq_ok h
          obtain ⟨m₂, hcollapse, hpair⟩ := map_eq_ok h
          obtain ⟨-, rfl⟩ := Prod.mk.inj hpair
          dsimp only at h0 h1 h2 h3 hcollapse
          obtain ⟨hm₁, hm₁'⟩ := Prod.mk.inj (buildQuadNode_leafPool hnode)
          obtain ⟨hs0, hs0'⟩ := Prod.mk.inj (ih h0).1
          obtain ⟨hs1, hs1'⟩ := Prod.mk.inj (ih h1).1
          obtain ⟨hs2, hs2'⟩ := Prod.mk.inj (ih h2).1
          obtain ⟨hs3, hs3'⟩ := Prod.mk.inj (ih h3).1
          have hroom := (ih h3).2
          have hpow : 4 ^ (d + 1) = 4 * 4 ^ d := Nat.pow_succ'
          rw [collapseQuad_leafPool hcollapse, leafPool_linkChildren]
          refine ⟨Prod.ext ?_ ?_, ?_⟩
          · show s3.quadLeafPoolAllocated = _
            omega
          · show s3.quadLeafPoolSize = _
            omega
          · omega

/-- The loops of `buildVertNodes` write vertices only. -/
theorem initVertNodes_unmoved {step : Nat} (h : Unchecked.initVertNodes m level step = .ok m') :
    Unmoved m m' := by
  induction step using Nat.strongRecOn generalizing m level with
  | ind step ih =>
      by_cases hstep : step = 0
      · rw [Unchecked.initVertNodes, dif_pos hstep] at h
        obtain rfl := Except.ok.inj h
        rfl
      · obtain ⟨-, m₁, hmoved, hrest⟩ := initVertNodes_ok hstep h
        exact hmoved.trans (ih _ (by omega) hrest)

/-- **A build that succeeds has found no leaf in use.** -/
theorem build_leaves [Inhabited V] {closer : V → V → V → Bool} {fuel height : Nat}
    {vertices : List V}
    (h : Unchecked.build closer fuel m vertices (2 ^ k + 1) height = .ok (true, m')) :
    m.quadLeafPoolAllocated = 0 := by
  have hcount : levelCount (2 ^ k + 1 - 1) = k + 1 := by
    rw [Nat.add_sub_cancel, levelCount_two_pow]
  unfold Unchecked.build at h
  simp only at h
  split at h
  · exact absurd (Prod.mk.inj (Except.ok.inj h)).1 nofun
  · split at h
    · exact absurd (Prod.mk.inj (Except.ok.inj h)).1 nofun
    · split at h
      · exact absurd (Prod.mk.inj (Except.ok.inj h)).1 nofun
      · change Unchecked.buildTrees closer fuel ((m.setMesh vertices (2 ^ k + 1) height).resizePools
          (levelCount (2 ^ k + 1 - 1))) = _ at h
        rw [hcount] at h
        obtain ⟨-, -, -, hleaves⟩ := poolSizes_eq k m.vertNodesLevelOffset
        obtain ⟨m₁, hverts, h⟩ := bind_eq_ok h
        obtain ⟨m₂, hinit, hroots⟩ := bind_eq_ok hverts
        obtain ⟨roots, -, rfl⟩ := map_eq_ok hroots
        obtain ⟨⟨q, m₃⟩, hrec, -⟩ := map_eq_ok h
        have hmoved := initVertNodes_unmoved hinit
        have hlength : m₂.maxLevelVerticesLength - 1 = 2 ^ k := by
          rw [hmoved]
          exact Nat.add_sub_cancel ..
        have hallocated : m₂.quadLeafPoolAllocated = m.quadLeafPoolAllocated := by
          rw [hmoved]
          rfl
        have hsize : m₂.quadLeafPoolSize = 4 ^ k := by
          rw [hmoved]
          exact hleaves
        change Unchecked.recursiveBuildQuadNodes closer fuel _ 0 0 0
          (m₂.maxLevelVerticesLength - 1) = _ at hrec
        rw [hlength] at hrec
        have hroom : m₂.quadLeafPoolAllocated + 4 ^ k ≤ m₂.quadLeafPoolSize :=
          (recursiveBuildQuadNodes_leaves hrec).2
        omega

/-! ### Updates keep the counter -/

theorem QuadsOnly.leafPool (h : QuadsOnly m m') : leafPool m' = leafPool m := by
  rw [h]
  rfl

theorem setBoundary_leafPool {fuel v : Nat} {place : V}
    (h : setBoundary fuel m v place = .ok m') : leafPool m' = leafPool m := by
  rw [setBoundary] at h
  exact (setBoundaries_quadsOnly h).leafPool

theorem forSiblings_leafPool
    {visit : QuadCollapseMesh V → Nat → Except MeshFault (QuadCollapseMesh V)}
    (hvisit : ∀ {m m' : QuadCollapseMesh V} {v}, visit m v = .ok m' → leafPool m' = leafPool m)
    {fuel : Nat} {start : Option Nat} (h : forSiblings visit fuel m start = .ok m') :
    leafPool m' = leafPool m := by
  induction fuel generalizing m start with
  | zero => exact absurd h nofun
  | succ fuel ih =>
      cases start with
      | none =>
          obtain rfl := Except.ok.inj h
          rfl
      | some child =>
          obtain ⟨m₁, hfirst, hrest⟩ := bind_eq_ok h
          exact (ih hrest).trans (hvisit hfirst)

theorem recursiveUpdateVertNode_leafPool {view : FrameView V} {fuel v : Nat}
    (h : recursiveUpdateVertNode view fuel m v = .ok m') : leafPool m' = leafPool m := by
  induction fuel generalizing m m' v with
  | zero => exact absurd h nofun
  | succ fuel ih =>
      rw [recursiveUpdateVertNode] at h
      split at h
      · obtain rfl := Except.ok.inj h
        rfl
      · have hmark : leafPool (m.markVert v) = leafPool m := rfl
        rw [← hmark]
        generalize m.markVert v = m₁ at h
        simp only at h
        split at h
        · split at h
          · exact (forSiblings_leafPool (fun hvisit => ih hvisit) h).trans rfl
          · exact setBoundary_leafPool h
        · split at h
          · exact setBoundary_leafPool h
          · exact setBoundary_leafPool h

theorem update_leafPool {view : FrameView V} {fuel : Nat} (h : update view fuel m = .ok m') :
    leafPool m' = leafPool m := by
  have hnext : leafPool (nextFrame m) = leafPool m := rfl
  rw [← hnext]
  change (if m.lod = true then (updateVertNodes view fuel (nextFrame m)).bind fun m =>
      (recursiveSetActiveMesh fuel m m.rootQuadNode).map (uploadActive m)
    else .ok (nextFrame m).uploadFull) = _ at h
  split at h
  · obtain ⟨m₁, hwalk, h⟩ := bind_eq_ok h
    obtain ⟨es, -, rfl⟩ := map_eq_ok h
    obtain ⟨vertexBuffer, size, indexBuffer, heq⟩ := uploadActive_eq m₁ es
    have hkeep : leafPool m₁ = leafPool (nextFrame m) := by
      refine foldlM_keeps (g := leafPool) (fun {s c s'} hstep => ?_) hwalk
      split at hstep
      · exact absurd hstep nofun
      · exact (recursiveUpdateVertNode_leafPool hstep).trans rfl
    rw [← hkeep, heq]
    rfl
  · obtain rfl := Except.ok.inj h
    unfold uploadFull
    split
    · rfl
    · rfl

theorem leafPool_of_run {as : List (Action V)} (hrun : Run Step m as m') :
    leafPool m' = leafPool m := by
  refine hrun.state_invariant (I := fun s => leafPool s = leafPool m) rfl
    fun t a u ht hstep => ?_
  cases a with
  | setLod lod =>
      obtain rfl : u = t.setLod lod := hstep
      exact ht
  | update view =>
      obtain ⟨N, hN⟩ := hstep
      exact (update_leafPool (hN N (Nat.le_refl N))).trans ht

/-! ### The second build -/

/-- The trees, the pools, the index lists and the roots of two meshes agree. -/
structure SameMesh (m m' : QuadCollapseMesh V) : Prop where
  vertSize : m.vertNodePoolSize = m'.vertNodePoolSize
  nodeSize : m.quadNodePoolSize = m'.quadNodePoolSize
  leafSize : m.quadLeafPoolSize = m'.quadLeafPoolSize
  verts : ∀ v < m.vertNodePoolSize, m.verts v = m'.verts v
  nodes : ∀ i < m.quadNodePoolSize, m.quads (.node i) = m'.quads (.node i) ∧ m.inner i = m'.inner i
  leaves : ∀ i < m.quadLeafPoolSize, m.quads (.leaf i) = m'.quads (.leaf i)
  indices : m.indices = m'.indices
  lodIndices : m.lodIndices = m'.lodIndices
  rootQuadNode : m.rootQuadNode = m'.rootQuadNode
  rootVertNodes : m.rootVertNodes = m'.rootVertNodes

variable [Inhabited V]

/-- Building the mesh `m` succeeds, and leaves what building a new mesh leaves. -/
def RebuildsAsNew (closer : V → V → V → Bool) (m : QuadCollapseMesh V) (vertices : List V)
    (width height : Nat) : Prop :=
  ∃ m' new, Settles (fun fuel => Unchecked.build closer fuel m vertices width height)
      (.ok (true, m')) ∧
    Settles (fun fuel => Unchecked.build closer fuel (empty {}) vertices width height)
      (.ok (true, new)) ∧
    SameMesh m' new

/-- A mesh with leaves in use cannot be built again. -/
theorem not_rebuildsAsNew (closer : V → V → V → Bool) (vertices : List V) (height : Nat)
    (hleaves : 0 < m.quadLeafPoolAllocated) :
    ¬ RebuildsAsNew closer m vertices (2 ^ k + 1) height := by
  rintro ⟨m', new, ⟨N, hN⟩, -⟩
  have hzero := build_leaves (hN N (Nat.le_refl N))
  omega

/-- A first build leaves leaves in use. -/
theorem unchecked_build_settles (closer : V → V → V → Bool) (hk : k ≤ 12) {vertices : List V}
    (hvertices : vertices.length = (2 ^ k + 1) * (2 ^ k + 1)) :
    ∃ m, Settles (fun fuel => Unchecked.build closer fuel (empty {}) vertices (2 ^ k + 1)
        (2 ^ k + 1)) (.ok (true, m)) ∧ 0 < m.quadLeafPoolAllocated := by
  obtain ⟨m, hrun, hfresh, hfrom⟩ := build_settles_from closer (shipped_admits hk) hvertices.ge
  refine ⟨m, hrun.succeedsAs fun fuel => Unchecked.build_succeedsAs closer fuel _ _ _, ?_⟩
  have hsize : m.quadLeafPoolSize = 4 ^ k := by
    rw [hfrom]
    exact unused_resizePools.leafSize
  rw [hfresh.leaves, hsize]
  exact Nat.pow_pos (by decide)

/-- **No mesh can be built twice.** After `build` of a grid of `2 ^ j + 1` by `2 ^ j + 1`
vertices and any updates, `build` of a grid of `2 ^ k + 1` by `2 ^ k + 1` vertices never does
what it does on a new mesh, whatever `j` and `k` and the vertices are. -/
theorem rebuild_never (closer : V → V → V → Bool) {j : Nat} (hj : j ≤ 12) {old : List V}
    (hold : old.length = (2 ^ j + 1) * (2 ^ j + 1)) :
    ∃ m₀, Settles (fun fuel => Unchecked.build closer fuel (empty {}) old (2 ^ j + 1) (2 ^ j + 1))
        (.ok (true, m₀)) ∧
      ∀ as m, Run Step m₀ as m → ∀ k (vertices : List V),
        ¬ RebuildsAsNew closer m vertices (2 ^ k + 1) (2 ^ k + 1) := by
  obtain ⟨m₀, hbuild, hleaves⟩ := unchecked_build_settles closer hj hold
  refine ⟨m₀, hbuild, fun as m hrun k vertices => not_rebuildsAsNew closer vertices _ ?_⟩
  rwa [(Prod.mk.inj (leafPool_of_run hrun)).1]

/-- Nine vertices after four. -/
theorem rebuild_never_larger :
    ∃ m₀, Settles (fun fuel =>
        Unchecked.build (fun _ _ _ => true) fuel (empty {}) [0, 1, 2, 3] 2 2) (.ok (true, m₀)) ∧
      ¬ RebuildsAsNew (fun _ _ _ => true) m₀ (List.range 9) 3 3 := by
  have hold : [0, 1, 2, 3].length = (2 ^ 0 + 1) * (2 ^ 0 + 1) := by decide
  obtain ⟨m₀, hbuild, hnever⟩ := rebuild_never (fun _ _ _ => true) (Nat.zero_le 12) hold
  exact ⟨m₀, hbuild, hnever [] m₀ (Run.nil m₀) 1 (List.range 9)⟩

/-- The same four vertices twice. -/
theorem rebuild_fails :
    ∃ m₀, Settles (fun fuel =>
        Unchecked.build (fun _ _ _ => true) fuel (empty {}) [0, 1, 2, 3] 2 2) (.ok (true, m₀)) ∧
      ¬ RebuildsAsNew (fun _ _ _ => true) m₀ [0, 1, 2, 3] 2 2 := by
  have hold : [0, 1, 2, 3].length = (2 ^ 0 + 1) * (2 ^ 0 + 1) := by decide
  obtain ⟨m₀, hbuild, hleaves⟩ :=
    unchecked_build_settles (fun _ _ _ => true) (Nat.zero_le 12) hold
  exact ⟨m₀, hbuild, not_rebuildsAsNew (k := 0) (fun _ _ _ => true) [0, 1, 2, 3] 2 hleaves⟩

end Maple.Terrain
