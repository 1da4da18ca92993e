import Maple.Terrain.Building

/-!
# Maple.Terrain.BuildSound

**`recursiveBuildQuadNodes` builds a quad and everything below it**, whatever the
comparisons of distances give: it ends without a fault, and afterwards every quad
in its square has been placed, linked with its children and collapsed (`builds`).
-/

namespace Maple.Terrain

open Lib QuadCollapseMesh

variable {V : Type} {k : Nat} {m m' : QuadCollapseMesh V} {A D : Set (Nat × Nat × Nat)}
  {l a b d : Nat}

/-! ### The same quads in the same places -/

/-- The quads in use, their levels and corners, the marks and the quads at the vertices are the
same; links may differ. -/
structure SameQuads (m m' : QuadCollapseMesh V) : Prop where
  allocated : ∀ x, Allocated m' x ↔ Allocated m x
  level : ∀ x, (m'.quads x).level = (m.quads x).level
  corner : ∀ x, (m'.quads x).cornerVertNodes = (m.quads x).cornerVertNodes
  unmarkedQuad : ∀ x, (m'.quads x).activeFrame = (m.quads x).activeFrame
  adjcentQuads : ∀ v, (m'.verts v).adjcentQuads = (m.verts v).adjcentQuads
  unmarked : ∀ v, (m'.verts v).activeFrame = (m.verts v).activeFrame

theorem SameQuads.isQuad (h : SameQuads m m') {x : QuadPtr} {l' a' b' : Nat} :
    IsQuad k m' x l' a' b' ↔ IsQuad k m x l' a' b' := by
  constructor
  · intro hx
    exact ⟨hx.grid, (h.allocated x).mp hx.allocated, hx.isNode, (h.level x).symm.trans hx.level,
      h.corner x ▸ hx.corner⟩
  · intro hx
    exact ⟨hx.grid, (h.allocated x).mpr hx.allocated, hx.isNode, (h.level x).trans hx.level,
      (h.corner x).symm ▸ hx.corner⟩

/-- What is left to show of the invariant is about the links. -/
theorem SameQuads.building {D' : Set (Nat × Nat × Nat)} (hs : SameQuads m m')
    (h : Building k A D m) (hsized : Sized k m') (htree : CollapseTree k m')
    (hcollapsed : ∀ {l i j}, InGrid k (l + 1) i j →
      ((m'.verts (vertIndex (l + 1) i j)).parent.isSome ↔
        ∃ a b, (l, a, b) ∈ D' ∧ vertIndex (l + 1) i j ∈ patchVerts l a b))
    (hlinked : ∀ {l a b}, (l, a, b) ∈ D' → Linked k m' l a b)
    (hparent : ∀ {q i}, Allocated m q → (m'.quads q).parent = some i →
      ∃ l a b c, IsQuad k m (.node i) l a b ∧
        IsQuad k m q (l + 1) (2 * a + dx c) (2 * b + dy c)) : Building k A D' m' := by
  constructor
  · exact hsized
  · exact htree
  · exact fun v => (hs.unmarked v).trans (h.unmarked v)
  · exact fun x => (hs.unmarkedQuad x).trans (h.unmarkedQuad x)
  · exact hcollapsed
  · intro x hx
    obtain ⟨l', a', b', hA, hquad⟩ := h.placed ((hs.allocated x).mp hx)
    exact ⟨l', a', b', hA, hs.isQuad.mpr hquad⟩
  · intro l' a' b' hA
    obtain ⟨x, hx⟩ := h.exists_quad hA
    exact ⟨x, hs.isQuad.mpr hx⟩
  · intro x x' l' a' b' hx hx'
    exact h.unique (hs.isQuad.mp hx) (hs.isQuad.mp hx')
  · intro v x
    rw [hs.adjcentQuads, hs.allocated, hs.corner]
    exact h.adjcent v x
  · intro v
    rw [hs.adjcentQuads]
    exact h.adjcent_nodup v
  · exact hlinked
  · intro x i hx hpar
    obtain ⟨l', a', b', c, hi, hchild⟩ := hparent ((hs.allocated x).mp hx) hpar
    exact ⟨l', a', b', c, hs.isQuad.mpr hi, hs.isQuad.mpr hchild⟩

/-! ### Linking a quad with its children -/

theorem setParents_eq (i : Nat) (children : Fin 4 → QuadPtr) (cs : List (Fin 4)) :
    cs.foldl (fun m c => m.modifyQuad (children c) fun q => { q with parent := some i }) m =
      { m with quads := fun x =>
        { m.quads x with
          parent := if x ∈ cs.map children then some i else (m.quads x).parent } } := by
  induction cs generalizing m with
  | nil => simp
  | cons c cs ih =>
      rw [List.foldl_cons, ih]
      simp only [modifyQuad]
      congr 1
      funext x
      by_cases hx : x = children c
      · simp [hx]
      · simp [hx]

/-- What `linkChildren` writes. -/
theorem linkChildren_eq (i : Nat) (children : Fin 4 → QuadPtr) :
    m.linkChildren i children =
      { m with
        inner := Function.update m.inner i
          { m.inner i with children := fun c => some (children c) }
        quads := fun x =>
          { m.quads x with
            parent := if ∃ c, children c = x then some i else (m.quads x).parent } } := by
  have hall : ∀ x, x ∈ ([0, 1, 2, 3] : List (Fin 4)).map children ↔ ∃ c, children c = x := by
    intro x
    have hmem : ∀ c : Fin 4, c ∈ ([0, 1, 2, 3] : List (Fin 4)) := by decide
    rw [List.mem_map]
    exact ⟨fun ⟨c, _, hc⟩ => ⟨c, hc⟩, fun ⟨c, hc⟩ => ⟨c, hmem c, hc⟩⟩
  rw [linkChildren, setParents_eq]
  simp only [hall]

/-- The quads and their places are not changed by links. -/
theorem sameQuads_linkChildren (i : Nat) (children : Fin 4 → QuadPtr) :
    SameQuads m (m.linkChildren i children) := by
  rw [linkChildren_eq]
  exact ⟨fun x => by cases x <;> exact Iff.rfl, fun _ => rfl, fun _ => rfl, fun _ => rfl,
    fun _ => rfl, fun _ => rfl⟩

theorem isQuad_linkChildren {i : Nat} {children : Fin 4 → QuadPtr} {x : QuadPtr} {l' a' b' : Nat} :
    IsQuad k (m.linkChildren i children) x l' a' b' ↔ IsQuad k m x l' a' b' :=
  (sameQuads_linkChildren i children).isQuad

/-- The children of a quad in the grid are children of no other quad. -/
theorem IsQuad.child_inj {q : QuadPtr} {l' a' b' : Nat} {c c' : Fin 4}
    (h : IsQuad k m q (l' + 1) (2 * a' + dx c) (2 * b' + dy c))
    (h' : IsQuad k m q (l + 1) (2 * a + dx c') (2 * b + dy c')) : l' = l ∧ a' = a ∧ b' = b := by
  obtain ⟨hl, ha, hb⟩ := h.inj h'
  have := dx_le c
  have := dx_le c'
  have := dy_le c
  have := dy_le c'
  omega

/-- **A quad is linked with its children.** -/
theorem Building.link (h : Building k A D m) (hD : (l, a, b) ∉ D) {i : Nat}
    {children : Fin 4 → QuadPtr} (hi : IsQuad k m (.node i) l a b)
    (hchild : ∀ c, IsQuad k m (children c) (l + 1) (2 * a + dx c) (2 * b + dy c)) :
    Building k A D (m.linkChildren i children) ∧ Linked k (m.linkChildren i children) l a b := by
  have hsame := sameQuads_linkChildren (m := m) i children
  have hquads : ∀ x, (m.linkChildren i children).quads x =
      { m.quads x with parent := if ∃ c, children c = x then some i else (m.quads x).parent } := by
    rw [linkChildren_eq]
    exact fun _ => rfl
  have hinner : ∀ j, (m.linkChildren i children).inner j =
      Function.update m.inner i { m.inner i with children := fun c => some (children c) } j := by
    rw [linkChildren_eq]
    exact fun _ => rfl
  have hverts : (m.linkChildren i children).verts = m.verts := by rw [linkChildren_eq]
  have hnew : Linked k (m.linkChildren i children) l a b := by
    refine ⟨i, hsame.isQuad.mpr hi, fun c => ⟨children c, ?_, hsame.isQuad.mpr (hchild c), ?_⟩⟩
    · rw [hinner, Function.update_self]
    · rw [hquads]
      exact if_pos ⟨c, rfl⟩
  refine ⟨hsame.building h ?_ ?_ ?_ ?_ ?_, hnew⟩
  · rw [linkChildren_eq]
    exact ⟨h.sized.levelBits, h.sized.maxLevel, h.sized.offset, h.sized.poolSize⟩
  · constructor
    · rw [hverts]
      exact h.tree.level
    · rw [hverts]
      exact h.tree.siblings
    · rw [hverts]
      exact h.tree.parent
  · rw [hverts]
    exact h.collapsed
  · -- the quads linked before are other quads
    intro l' a' b' hD'
    obtain ⟨i', hi', hchild'⟩ := h.linked hD'
    have hne : i' ≠ i := by
      intro heq
      subst heq
      obtain ⟨rfl, rfl, rfl⟩ := hi'.inj hi
      exact hD hD'
    refine ⟨i', hsame.isQuad.mpr hi', fun c => ?_⟩
    obtain ⟨x, hx, hquad, hpar⟩ := hchild' c
    have hnot : ¬ ∃ c, children c = x := by
      rintro ⟨c', rfl⟩
      obtain ⟨rfl, rfl, rfl⟩ := hquad.child_inj (hchild c')
      exact hD hD'
    refine ⟨x, ?_, hsame.isQuad.mpr hquad, ?_⟩
    · rw [hinner, Function.update_of_ne hne]
      exact hx
    · rw [hquads]
      exact (if_neg hnot).trans hpar
  · intro x j hx hpar
    rw [hquads] at hpar
    by_cases hc : ∃ c, children c = x
    · obtain ⟨c, rfl⟩ := hc
      obtain rfl : i = j := Option.some.inj ((if_pos ⟨c, rfl⟩).symm.trans hpar)
      exact ⟨l, a, b, c, hi, hchild c⟩
    · exact h.parent hx ((if_neg hc).symm.trans hpar)

/-! ### Collapsing a quad -/

/-- The center of a quad lies in no other quad of its level. -/
theorem InQuads.center_unique (hq : InQuads k l a b) (hl : l < k) {a' b' : Nat}
    (hq' : InQuads k l a' b')
    (hmem : vertIndex (l + 1) (2 * a + 1) (2 * b + 1) ∈ patchVerts l a' b') :
    a' = a ∧ b' = b := by
  obtain ⟨i, j, hi, hj, heq⟩ := hmem
  obtain ⟨-, hi', hj'⟩ := vertIndex_inj (hq.patch hl (by omega) (by omega))
    (hq'.patch hl hi.2 hj.2) heq
  omega

/-- Only the contents of the pools and the number of quads in use may differ. -/
def Extends (m m' : QuadCollapseMesh V) : Prop :=
  m' = { m with
    verts := m'.verts
    quads := m'.quads
    inner := m'.inner
    quadNodePoolAllocated := m'.quadNodePoolAllocated
    quadLeafPoolAllocated := m'.quadLeafPoolAllocated }

theorem Extends.trans {m'' : QuadCollapseMesh V} (h : Extends m m') (h' : Extends m' m'') :
    Extends m m'' := by
  unfold Extends at *
  rw [h', h]

/-- **A linked quad is collapsed.** -/
theorem Building.collapse (closer : V → V → V → Bool) (h : Building k A D m)
    (hD : (l, a, b) ∉ D) (hl : l < k) {i : Nat} {children : Fin 4 → QuadPtr}
    (hlinked : Linked k m l a b) (hi : IsQuad k m (.node i) l a b)
    (hchild : ∀ c, IsQuad k m (children c) (l + 1) (2 * a + dx c) (2 * b + dy c)) :
    ∃ m', Settles (fun fuel => collapseQuad closer fuel m i children) (.ok m') ∧
      Building k A (insert (l, a, b) D) m' ∧
      (∀ x l' a' b', IsQuad k m' x l' a' b' ↔ IsQuad k m x l' a' b') ∧ Extends m m' ∧
      m'.quadNodePoolAllocated = m.quadNodePoolAllocated ∧
      m'.quadLeafPoolAllocated = m.quadLeafPoolAllocated := by
  have hfree : (m.verts (vertIndex (l + 1) (2 * a + 1) (2 * b + 1))).parent = none := by
    rw [← Option.not_isSome_iff_eq_none, h.collapsed (hi.grid.patch hl (by omega) (by omega))]
    intro ⟨a', b', hD', hmem⟩
    obtain ⟨i', hi', -⟩ := h.linked hD'
    obtain ⟨rfl, rfl⟩ := hi.grid.center_unique hl hi'.grid hmem
    exact hD hD'
  obtain ⟨m₁, mode, hatt, hrun⟩ := collapseQuad_settles closer h.tree hi.grid hl hi.corner
    (fun c => (hchild c).corner) hfree
  refine ⟨_, hrun, ?_⟩
  generalize hm' : (m₁.modifyQuad (.node i) fun q => { q with triangulationMode := mode }) = m'
  -- only the links between vertices and one triangulation mode have changed
  have hrest := hatt.rest
  have hverts : m'.verts = m₁.verts := by rw [← hm']; rfl
  have hquads : ∀ x, (m'.quads x).level = (m.quads x).level ∧
      (m'.quads x).cornerVertNodes = (m.quads x).cornerVertNodes ∧
      (m'.quads x).parent = (m.quads x).parent ∧
      (m'.quads x).activeFrame = (m.quads x).activeFrame := by
    intro x
    rw [← hm', ← hatt.quads]
    by_cases hx : x = .node i
    · simp [modifyQuad, hx]
    · simp [modifyQuad, hx]
  have hinner : m'.inner = m.inner := by rw [← hm', hrest]; rfl
  have hnodes : m'.quadNodePoolAllocated = m.quadNodePoolAllocated := by rw [← hm', hrest]; rfl
  have hleaves : m'.quadLeafPoolAllocated = m.quadLeafPoolAllocated := by rw [← hm', hrest]; rfl
  have hsame : SameQuads m m' := by
    constructor
    · intro x
      cases x with
      | node n => rw [Allocated, Allocated, hnodes]
      | leaf n => rw [Allocated, Allocated, hleaves]
    · exact fun x => (hquads x).1
    · exact fun x => (hquads x).2.1
    · exact fun x => (hquads x).2.2.2
    · exact fun v => by rw [hverts, hatt.adjcentQuads]
    · exact fun v => by rw [hverts, hatt.activeFrame]
  have hlinks : ∀ {l' a' b'}, Linked k m l' a' b' → Linked k m' l' a' b' := by
    intro l' a' b' ⟨i', hi', hchild'⟩
    refine ⟨i', hsame.isQuad.mpr hi', fun c => ?_⟩
    obtain ⟨x, hx, hxq, hpar⟩ := hchild' c
    exact ⟨x, by rw [hinner, hx], hsame.isQuad.mpr hxq, (hquads x).2.2.1.trans hpar⟩
  have hextends : Extends m m' := by
    rw [Extends, ← hm', hrest]
    rfl
  refine ⟨hsame.building h ?_ ?_ ?_ ?_ ?_, fun _ _ _ _ => hsame.isQuad, hextends, hnodes, hleaves⟩
  · rw [← hm', hrest]
    exact ⟨h.sized.levelBits, h.sized.maxLevel, h.sized.offset, h.sized.poolSize⟩
  · constructor
    · rw [hverts]
      exact hatt.tree.level
    · rw [hverts]
      exact hatt.tree.siblings
    · rw [hverts]
      exact hatt.tree.parent
  · intro l' x y hg
    rw [hverts]
    by_cases hmem : vertIndex (l' + 1) x y ∈ patchVerts l a b
    · obtain ⟨i', j', hi', hj', heq⟩ := hmem
      obtain ⟨hl', rfl, rfl⟩ := vertIndex_inj hg (hi.grid.patch hl hi'.2 hj'.2) heq
      obtain rfl : l' = l := by omega
      have hmem : vertIndex (l' + 1) x y ∈ patchVerts l' a b := ⟨x, y, hi', hj', rfl⟩
      exact iff_of_true (hatt.mem _ hmem) ⟨a, b, Or.inl rfl, hmem⟩
    · rw [hatt.other _ hmem, h.collapsed hg]
      refine ⟨fun ⟨a', b', hD', hin⟩ => ⟨a', b', Or.inr hD', hin⟩, fun ⟨a', b', hD', hin⟩ => ?_⟩
      refine ⟨a', b', hD'.resolve_left fun heq => ?_, hin⟩
      obtain ⟨rfl, rfl, rfl⟩ : l' = l ∧ a' = a ∧ b' = b := by simpa using heq
      exact hmem hin
  · intro l' a' b' hD'
    rcases hD' with heq | hD'
    · obtain ⟨rfl, rfl, rfl⟩ : l' = l ∧ a' = a ∧ b' = b := by simpa using heq
      exact hlinks hlinked
    · exact hlinks (h.linked hD')
  · intro x j hx hpar
    rw [(hquads x).2.2.1] at hpar
    exact h.parent hx hpar

/-! ### Allocating a quad -/

/-- The invariant grows with the quad `q`. -/
structure Placed (k : Nat) (A D : Set (Nat × Nat × Nat)) (m m' : QuadCollapseMesh V)
    (q : QuadPtr) (l a b : Nat) : Prop where
  building : Building k (insert (l, a, b) A) D m'
  self : IsQuad k m' q l a b
  keep : ∀ x l' a' b', IsQuad k m x l' a' b' → IsQuad k m' x l' a' b'
  extend : Extends m m'

/-- The leaf case. -/
theorem Building.buildQuadLeaf (h : Building k A D m) (hq : InQuads k k a b)
    (hA : (k, a, b) ∉ A) (hroom : m.quadLeafPoolAllocated < m.quadLeafPoolSize) :
    ∃ m', m.buildQuadLeaf k a b 1 = .ok (.leaf m.quadLeafPoolAllocated, m') ∧
      Placed k A D m m' (.leaf m.quadLeafPoolAllocated) k a b ∧
      m'.quadNodePoolAllocated = m.quadNodePoolAllocated ∧
      m'.quadLeafPoolAllocated = m.quadLeafPoolAllocated + 1 := by
  let m₁ : QuadCollapseMesh V :=
    { m with quadLeafPoolAllocated := m.quadLeafPoolAllocated + 1 }
  let corners : Fin 4 → Nat := fun c => vertIndex k (a + dx c) (b + dy c)
  let m₂ := m₁.modifyQuad (.leaf m.quadLeafPoolAllocated) fun _ =>
    { level := k % 2 ^ m.limits.levelBits, cornerVertNodes := corners }
  have hlevel : k % 2 ^ m.limits.levelBits = k := Nat.mod_eq_of_lt h.sized.levelBits
  have hcorners : m₁.getCornerVertNodes k a b 1 = .ok corners := by
    have hsized : Sized k m₁ :=
      ⟨h.sized.levelBits, h.sized.maxLevel, h.sized.offset, h.sized.poolSize⟩
    have htree : CollapseTree k m₁ := ⟨h.tree.level, h.tree.siblings, h.tree.parent⟩
    simpa using hsized.getCornerVertNodes_eq htree hq (Nat.add_zero k)
  have hw : Written k m m₂ (.leaf m.quadLeafPoolAllocated) k a b := by
    refine ⟨⟨h.sized.levelBits, h.sized.maxLevel, h.sized.offset, h.sized.poolSize⟩, rfl,
      Nat.lt_irrefl _, fun x => ?_,
      fun x hx => Function.update_of_ne hx .., fun _ => rfl, ?_, ?_, ?_, fun c => ?_⟩
    · cases x with
      | node n => simp [Allocated, m₂, m₁, modifyQuad]
      | leaf n =>
          simp only [Allocated, m₂, m₁, modifyQuad, QuadPtr.leaf.injEq]
          omega
    all_goals simp [m₂, m₁, modifyQuad, corners, hlevel]
  obtain ⟨hbuilding, hself, hkeep⟩ := h.place hq hA (by simp [QuadPtr.IsNode]) hw
  refine ⟨_, ?_, ⟨hbuilding, hself, hkeep, rfl⟩, rfl, rfl⟩
  have henter : ([0, 1, 2, 3] : List (Fin 4)).foldlM (fun (s : QuadCollapseMesh V) c =>
      if (s.verts (corners c)).level = k then
        s.addAdjcentQuad (corners c) (.leaf m.quadLeafPoolAllocated) else .ok s) m₂ =
      .ok (enter m₂ (cornerVerts k a b) (.leaf m.quadLeafPoolAllocated)) := by
    refine enter_corners hq.nodup_cornerVerts (fun s hs c _ => ?_) fun c _ => ⟨fun hmem => ?_, ?_⟩
    · rw [if_pos]
      exact (hs _).trans (h.tree.level (hq.corner c))
    · exact hw.fresh ((h.adjcent _ _).mp hmem).1
    · exact h.adjcent_lt hq hA c
  simp only [QuadCollapseMesh.buildQuadLeaf, allocQuadLeaf, if_pos hroom, Except.bind]
  rw [hcorners]
  exact congrArg (Except.map fun s => (QuadPtr.leaf m.quadLeafPoolAllocated, s)) henter

/-- The other case, up to the calls for the children. -/
theorem Building.buildQuadNode (h : Building k A D m) (hq : InQuads k l a b)
    (hA : (l, a, b) ∉ A) (hd : l + (d + 1) = k)
    (hroom : m.quadNodePoolAllocated < m.quadNodePoolSize) :
    ∃ m', m.buildQuadNode l (a * 2 ^ (d + 1)) (b * 2 ^ (d + 1)) (2 ^ (d + 1)) =
        .ok (m.quadNodePoolAllocated, m') ∧
      Placed k A D m m' (.node m.quadNodePoolAllocated) l a b ∧
      m'.quadNodePoolAllocated = m.quadNodePoolAllocated + 1 ∧
      m'.quadLeafPoolAllocated = m.quadLeafPoolAllocated := by
  let m₁ : QuadCollapseMesh V :=
    { m with quadNodePoolAllocated := m.quadNodePoolAllocated + 1 }
  let corners : Fin 4 → Nat := fun c => vertIndex l (a + dx c) (b + dy c)
  let center := vertIndex (l + 1) (2 * a + 1) (2 * b + 1)
  let m₂ := m₁.modifyQuad (.node m.quadNodePoolAllocated) fun q =>
    { level := l % 2 ^ m.limits.levelBits
      triangulationMode := q.triangulationMode
      cornerVertNodes := corners }
  let m₃ : QuadCollapseMesh V :=
    { m₂ with
      inner := Function.update m₂.inner m.quadNodePoolAllocated
        { m₂.inner m.quadNodePoolAllocated with centerVertNode := center } }
  have hsized : Sized k m₁ :=
    ⟨h.sized.levelBits, h.sized.maxLevel, h.sized.offset, h.sized.poolSize⟩
  have htree : CollapseTree k m₁ := ⟨h.tree.level, h.tree.siblings, h.tree.parent⟩
  have hlevel : l % 2 ^ m.limits.levelBits = l :=
    Nat.mod_eq_of_lt (Nat.lt_of_le_of_lt hq.level h.sized.levelBits)
  have hcorners : m₁.getCornerVertNodes l (a * 2 ^ (d + 1)) (b * 2 ^ (d + 1)) (2 ^ (d + 1)) =
      .ok corners := hsized.getCornerVertNodes_eq htree hq hd
  have hcenter : m₁.getVertNode (l + 1) (a * 2 ^ (d + 1) + 2 ^ (d + 1) / 2)
      (b * 2 ^ (d + 1) + 2 ^ (d + 1) / 2) false = .ok center := by
    have hhalf : ∀ x, x * 2 ^ (d + 1) + 2 ^ (d + 1) / 2 = (2 * x + 1) * 2 ^ d := by
      intro x
      rw [Nat.pow_succ, Nat.mul_div_cancel _ (by decide)]
      ring
    have hg : InGrid k (l + 1) (2 * a + 1) (2 * b + 1) :=
      hq.patch (by omega) (by omega) (by omega)
    rw [hhalf, hhalf]
    exact hsized.getVertNode_eq hg (by omega) (Or.inr (htree.level hg))
  have hw : Written k m m₃ (.node m.quadNodePoolAllocated) l a b := by
    refine ⟨⟨h.sized.levelBits, h.sized.maxLevel, h.sized.offset, h.sized.poolSize⟩, rfl,
      Nat.lt_irrefl _, fun x => ?_,
      fun x hx => Function.update_of_ne hx .., fun i => ?_, ?_, ?_, ?_, fun c => ?_⟩
    · cases x with
      | node n =>
          simp only [Allocated, m₃, m₂, m₁, modifyQuad, QuadPtr.node.injEq]
          omega
      | leaf n => simp [Allocated, m₃, m₂, m₁, modifyQuad]
    · by_cases hi : i = m.quadNodePoolAllocated
      · simp [m₃, m₂, m₁, modifyQuad, hi]
      · simp [m₃, m₂, m₁, modifyQuad, hi]
    all_goals simp [m₃, m₂, m₁, modifyQuad, corners, hlevel]
  have hnode : (QuadPtr.node m.quadNodePoolAllocated).IsNode ↔ l < k := by
    simp only [QuadPtr.IsNode, true_iff]
    omega
  obtain ⟨hbuilding, hself, hkeep⟩ := h.place hq hA hnode hw
  refine ⟨_, ?_, ⟨hbuilding, hself, hkeep, rfl⟩, rfl, rfl⟩
  have henter : ([0, 1, 2, 3] : List (Fin 4)).foldlM (fun (s : QuadCollapseMesh V) c =>
      s.addAdjcentQuad (corners c) (.node m.quadNodePoolAllocated)) m₃ =
      .ok (enter m₃ (cornerVerts l a b) (.node m.quadNodePoolAllocated)) := by
    refine enter_corners hq.nodup_cornerVerts (fun s _ c _ => rfl) fun c _ => ⟨fun hmem => ?_, ?_⟩
    · exact hw.fresh ((h.adjcent _ _).mp hmem).1
    · exact h.adjcent_lt hq hA c
  simp only [QuadCollapseMesh.buildQuadNode, allocQuadNode, if_pos hroom, Except.bind]
  rw [hcenter]
  show ((m₁.getCornerVertNodes l _ _ _).bind _) = _
  rw [hcorners]
  exact congrArg (Except.map fun s => (m.quadNodePoolAllocated, s)) henter

/-! ### The recursion -/

/-- The quads in and below a quad. -/
def subQuads (k l a b : Nat) : Set (Nat × Nat × Nat) :=
  {x | l ≤ x.1 ∧ x.1 ≤ k ∧ x.2.1 / 2 ^ (x.1 - l) = a ∧ x.2.2 / 2 ^ (x.1 - l) = b}

theorem subQuads_last {x : Nat × Nat × Nat} : x ∈ subQuads k k a b ↔ x = (k, a, b) := by
  obtain ⟨l', a', b'⟩ := x
  simp only [subQuads, Set.mem_ofPred_eq, Prod.mk.injEq]
  refine ⟨fun ⟨hl, hl', ha, hb⟩ => ?_, fun ⟨hl, ha, hb⟩ => ?_⟩
  · obtain rfl : l' = k := Nat.le_antisymm hl' hl
    simpa using And.intro ha hb
  · subst hl ha hb
    simp

/-- A quad and the quads in and below its children. -/
theorem subQuads_succ (hl : l < k) {x : Nat × Nat × Nat} :
    x ∈ subQuads k l a b ↔
      x = (l, a, b) ∨ ∃ c, x ∈ subQuads k (l + 1) (2 * a + dx c) (2 * b + dy c) := by
  obtain ⟨l', a', b'⟩ := x
  simp only [subQuads, Set.mem_ofPred_eq, Prod.mk.injEq]
  rcases Nat.lt_trichotomy l' l with hlt | rfl | hlt
  · exact ⟨fun hx => absurd hx.1 (by omega), fun hx => by
      rcases hx with ⟨rfl, -⟩ | ⟨c, hx, -⟩ <;> omega⟩
  · simp only [Nat.sub_self, Nat.pow_zero, Nat.div_one, Nat.le_refl, true_and]
    refine ⟨fun hx => Or.inl hx.2, fun hx => ?_⟩
    rcases hx with hx | ⟨c, hx, -⟩
    · exact ⟨hl.le, hx⟩
    · omega
  · -- halving once more
    have hdiff : l' - l = (l' - (l + 1)) + 1 := by omega
    have hhalf : ∀ y z, y / 2 ^ (l' - l) = z ↔
        y / 2 ^ (l' - (l + 1)) = 2 * z ∨ y / 2 ^ (l' - (l + 1)) = 2 * z + 1 := by
      intro y z
      rw [hdiff, Nat.pow_succ, ← Nat.div_div_eq_div_mul]
      omega
    refine ⟨fun ⟨_, hk, ha, hb⟩ => Or.inr ?_, fun hx => ?_⟩
    · obtain ⟨x, hx, hxa⟩ : ∃ x < 2, a' / 2 ^ (l' - (l + 1)) = 2 * a + x := by
        rcases (hhalf a' a).mp ha with ha | ha
        · exact ⟨0, by omega, ha⟩
        · exact ⟨1, by omega, ha⟩
      obtain ⟨y, hy, hyb⟩ : ∃ y < 2, b' / 2 ^ (l' - (l + 1)) = 2 * b + y := by
        rcases (hhalf b' b).mp hb with hb | hb
        · exact ⟨0, by omega, hb⟩
        · exact ⟨1, by omega, hb⟩
      obtain ⟨c, rfl, rfl⟩ := exists_corner x hx y hy
      exact ⟨c, hlt, hk, hxa, hyb⟩
    · rcases hx with ⟨rfl, -⟩ | ⟨c, hx, hk, ha, hb⟩
      · omega
      · have hxc := dx_le c
        have hyc := dy_le c
        exact ⟨by omega, hk, (hhalf a' a).mpr (by omega), (hhalf b' b).mpr (by omega)⟩

/-- The children of a quad have no quads in common. -/
theorem subQuads_disjoint {c c' : Fin 4} {x : Nat × Nat × Nat} (hne : c ≠ c')
    (hx : x ∈ subQuads k (l + 1) (2 * a + dx c) (2 * b + dy c)) :
    x ∉ subQuads k (l + 1) (2 * a + dx c') (2 * b + dy c') := by
  intro hx'
  obtain ⟨-, -, ha, hb⟩ := hx
  obtain ⟨-, -, ha', hb'⟩ := hx'
  exact hne (corner_ext (by omega) (by omega))

/-- The numbers of nodes and of leaves below a quad with `d` levels below it. -/
def nodeCount : Nat → Nat
  | 0 => 0
  | d + 1 => 4 * nodeCount d + 1

/-- The state after the quads `S` have been built, the inner ones collapsed. -/
structure BuiltMore (k : Nat) (A D S : Set (Nat × Nat × Nat)) (m m' : QuadCollapseMesh V)
    (nodes leaves : Nat) : Prop where
  building : Building k (A ∪ S) (D ∪ {x ∈ S | x.1 < k}) m'
  keep : ∀ x l a b, IsQuad k m x l a b → IsQuad k m' x l a b
  extend : Extends m m'
  nodes : m'.quadNodePoolAllocated = m.quadNodePoolAllocated + nodes
  leaves : m'.quadLeafPoolAllocated = m.quadLeafPoolAllocated + leaves

theorem BuiltMore.trans {S S' : Set (Nat × Nat × Nat)} {m'' : QuadCollapseMesh V}
    {n n' n₁ n₁' : Nat} (h : BuiltMore k A D S m m' n n')
    (h' : BuiltMore k (A ∪ S) (D ∪ {x ∈ S | x.1 < k}) S' m' m'' n₁ n₁') :
    BuiltMore k A D (S ∪ S') m m'' (n + n₁) (n' + n₁') := by
  have hsets : A ∪ (S ∪ S') = A ∪ S ∪ S' ∧
      D ∪ {x ∈ S ∪ S' | x.1 < k} = D ∪ {x ∈ S | x.1 < k} ∪ {x ∈ S' | x.1 < k} := by
    refine ⟨(Set.union_assoc ..).symm, ?_⟩
    rw [Set.union_assoc]
    congr 1
    ext x
    simp only [Set.mem_ofPred_eq, Set.mem_union]
    exact or_and_right
  refine ⟨by rw [hsets.1, hsets.2]; exact h'.building,
    fun x l a b hx => h'.keep x l a b (h.keep x l a b hx), h.extend.trans h'.extend, ?_, ?_⟩
  · rw [h'.nodes, h.nodes, Nat.add_assoc]
  · rw [h'.leaves, h.leaves, Nat.add_assoc]

/-- The step of the recursion in terms of columns and rows. -/
theorem recursiveBuildQuadNodes_succ (closer : V → V → V → Bool) (fuel : Nat) :
    recursiveBuildQuadNodes closer (fuel + 1) m l (a * 2 ^ (d + 1)) (b * 2 ^ (d + 1))
        (2 ^ (d + 1)) =
      (m.buildQuadNode l (a * 2 ^ (d + 1)) (b * 2 ^ (d + 1)) (2 ^ (d + 1))).bind fun (i, m) =>
      (recursiveBuildQuadNodes closer fuel m (l + 1) ((2 * a + dx 0) * 2 ^ d)
        ((2 * b + dy 0) * 2 ^ d) (2 ^ d)).bind fun (c0, m) =>
      (recursiveBuildQuadNodes closer fuel m (l + 1) ((2 * a + dx 1) * 2 ^ d)
        ((2 * b + dy 1) * 2 ^ d) (2 ^ d)).bind fun (c1, m) =>
      (recursiveBuildQuadNodes closer fuel m (l + 1) ((2 * a + dx 2) * 2 ^ d)
        ((2 * b + dy 2) * 2 ^ d) (2 ^ d)).bind fun (c2, m) =>
      (recursiveBuildQuadNodes closer fuel m (l + 1) ((2 * a + dx 3) * 2 ^ d)
        ((2 * b + dy 3) * 2 ^ d) (2 ^ d)).bind fun (c3, m) =>
      (collapseQuad closer fuel (m.linkChildren i ![c0, c1, c2, c3]) i ![c0, c1, c2, c3]).map
        fun m => (.node i, m) := by
  have hone : ¬ (2 ^ (d + 1) = 1) := by
    rw [Nat.pow_succ]
    have := Nat.two_pow_pos d
    omega
  have hhalf : 2 ^ (d + 1) / 2 = 2 ^ d := by rw [Nat.pow_succ, Nat.mul_div_cancel _ (by decide)]
  have hfirst : ∀ x, x * 2 ^ (d + 1) = (2 * x + 0) * 2 ^ d := fun x => by ring
  have hsecond : ∀ x, (2 * x + 0) * 2 ^ d + 2 ^ d = (2 * x + 1) * 2 ^ d := fun x => by ring
  rw [recursiveBuildQuadNodes, if_neg hone]
  simp only [hhalf, hfirst, hsecond, dx_zero, dx_one, dx_two, dx_three, dy_zero, dy_one, dy_two,
    dy_three]

/-- What the call for a quad with `d` levels below it does. -/
def Builds (closer : V → V → V → Bool) (k d : Nat) : Prop :=
  ∀ {l a b : Nat} {m : QuadCollapseMesh V} {A D : Set (Nat × Nat × Nat)}, l + d = k →
    Building k A D m → InQuads k l a b → (∀ x ∈ subQuads k l a b, x ∉ A) →
    (∀ x ∈ subQuads k l a b, x ∉ D) →
    m.quadNodePoolAllocated + nodeCount d ≤ m.quadNodePoolSize →
    m.quadLeafPoolAllocated + 4 ^ d ≤ m.quadLeafPoolSize →
    ∃ q m', Settles (fun fuel => recursiveBuildQuadNodes closer fuel m l (a * 2 ^ d) (b * 2 ^ d)
        (2 ^ d)) (.ok (q, m')) ∧
      IsQuad k m' q l a b ∧
      BuiltMore k A D (subQuads k l a b) m m' (nodeCount d) (4 ^ d)

/-- A leaf. -/
theorem builds_zero (closer : V → V → V → Bool) (k : Nat) : Builds closer k 0 := by
  intro l a b m A D hd h hq hA hD hnodes hleaves
  obtain rfl : l = k := hd
  obtain ⟨m', hrun, hplaced, hn, hl⟩ := h.buildQuadLeaf hq (hA _ (subQuads_last.mpr rfl)) hleaves
  refine ⟨_, m', Settles.of_succ (Settles.of_forall fun fuel => ?_), hplaced.self, ?_,
    hplaced.keep, hplaced.extend, hn, hl⟩
  · rw [recursiveBuildQuadNodes, if_pos (Nat.pow_zero 2)]
    simpa using hrun
  · have hset : A ∪ subQuads l l a b = insert (l, a, b) A := by
      ext x
      simp only [Set.mem_union, Set.mem_insert_iff, subQuads_last]
      exact or_comm
    have hset' : D ∪ {x ∈ subQuads l l a b | x.1 < l} = D := by
      ext x
      simp only [Set.mem_union, Set.mem_ofPred_eq, subQuads_last]
      refine or_iff_left fun ⟨heq, hlt⟩ => ?_
      rw [heq] at hlt
      exact Nat.lt_irrefl _ hlt
    rw [hset, hset']
    exact hplaced.building

/-- The quads in and below the children `cs` of a quad. -/
def childQuads (k l a b : Nat) (cs : List (Fin 4)) : Set (Nat × Nat × Nat) :=
  {x | ∃ c ∈ cs, x ∈ subQuads k (l + 1) (2 * a + dx c) (2 * b + dy c)}

theorem mem_childQuads {x : Nat × Nat × Nat} :
    x ∈ childQuads k l a b [0, 1, 2, 3] ↔
      ∃ c, x ∈ subQuads k (l + 1) (2 * a + dx c) (2 * b + dy c) := by
  have hmem : ∀ c : Fin 4, c ∈ ([0, 1, 2, 3] : List (Fin 4)) := by decide
  exact ⟨fun ⟨c, _, hx⟩ => ⟨c, hx⟩, fun ⟨c, hx⟩ => ⟨c, hmem c, hx⟩⟩

/-- The call for the next child. -/
theorem BuiltMore.child {closer : V → V → V → Bool} (hb : Builds closer k d) (hl : l < k)
    (hd : l + (d + 1) = k) (hq : InQuads k l a b) (hA : ∀ x ∈ subQuads k l a b, x ∉ A)
    (hD : ∀ x ∈ subQuads k l a b, x ∉ D) {cs : List (Fin 4)} {c : Fin 4} (hc : c ∉ cs)
    (hlen : cs.length < 4)
    (hnodes : m.quadNodePoolAllocated + 4 * nodeCount d ≤ m.quadNodePoolSize)
    (hleaves : m.quadLeafPoolAllocated + 4 * 4 ^ d ≤ m.quadLeafPoolSize)
    (h : BuiltMore k (insert (l, a, b) A) D (childQuads k l a b cs) m m'
      (cs.length * nodeCount d) (cs.length * 4 ^ d)) :
    ∃ q m'', Settles (fun fuel => recursiveBuildQuadNodes closer fuel m' (l + 1)
        ((2 * a + dx c) * 2 ^ d) ((2 * b + dy c) * 2 ^ d) (2 ^ d)) (.ok (q, m'')) ∧
      IsQuad k m'' q (l + 1) (2 * a + dx c) (2 * b + dy c) ∧
      (∀ x l' a' b', IsQuad k m' x l' a' b' → IsQuad k m'' x l' a' b') ∧
      BuiltMore k (insert (l, a, b) A) D (childQuads k l a b (cs ++ [c])) m m''
        ((cs ++ [c]).length * nodeCount d) ((cs ++ [c]).length * 4 ^ d) := by
  have hnew : ∀ x ∈ subQuads k (l + 1) (2 * a + dx c) (2 * b + dy c),
      x ∉ childQuads k l a b cs := by
    intro x hx ⟨c', hc', hx'⟩
    have hne : c ≠ c' := fun heq => hc (heq ▸ hc')
    exact subQuads_disjoint hne hx hx'
  have hbelow : ∀ x ∈ subQuads k (l + 1) (2 * a + dx c) (2 * b + dy c), x ∈ subQuads k l a b :=
    fun x hx => (subQuads_succ hl).mpr (Or.inr ⟨c, hx⟩)
  have hsn : m'.quadNodePoolSize = m.quadNodePoolSize := by rw [h.extend]
  have hsl : m'.quadLeafPoolSize = m.quadLeafPoolSize := by rw [h.extend]
  have hroom := Nat.mul_le_mul_right (nodeCount d) (show cs.length + 1 ≤ 4 by omega)
  have hroom' := Nat.mul_le_mul_right (4 ^ d) (show cs.length + 1 ≤ 4 by omega)
  have hnodes' := h.nodes
  have hleaves' := h.leaves
  rw [Nat.succ_mul] at hroom hroom'
  obtain ⟨q, m'', hrun, hquad, hmore⟩ := hb (by omega) h.building (hq.child hl c)
    (fun x hx hmem => by
      rcases hmem with (heq | hmem) | hmem
      · rw [heq] at hx
        exact absurd hx.1 (by simp)
      · exact hA x (hbelow x hx) hmem
      · exact hnew x hx hmem)
    (fun x hx hmem => by
      rcases hmem with hmem | hmem
      · exact hD x (hbelow x hx) hmem
      · exact hnew x hx hmem.1)
    (by omega) (by omega)
  have hset : childQuads k l a b cs ∪ subQuads k (l + 1) (2 * a + dx c) (2 * b + dy c) =
      childQuads k l a b (cs ++ [c]) := by
    ext x
    simp [childQuads, or_and_right, exists_or]
  have htrans := h.trans hmore
  rw [hset] at htrans
  refine ⟨q, m'', hrun, hquad, hmore.keep, ?_⟩
  rw [List.length_append, List.length_singleton, Nat.succ_mul, Nat.succ_mul]
  exact htrans

/-- A quad and what is below it, by its children. -/
theorem union_subQuads (hl : l < k) (A : Set (Nat × Nat × Nat)) :
    A ∪ subQuads k l a b = insert (l, a, b) A ∪ childQuads k l a b [0, 1, 2, 3] := by
  ext x
  simp only [Set.mem_union, Set.mem_insert_iff, mem_childQuads, subQuads_succ hl]
  rw [or_left_comm, or_assoc]

theorem union_inner_subQuads (hl : l < k) (D : Set (Nat × Nat × Nat)) :
    D ∪ {x ∈ subQuads k l a b | x.1 < k} =
      insert (l, a, b) (D ∪ {x ∈ childQuads k l a b [0, 1, 2, 3] | x.1 < k}) := by
  ext x
  simp only [Set.mem_union, Set.mem_insert_iff, Set.mem_ofPred_eq, mem_childQuads,
    subQuads_succ hl, or_and_right]
  rw [or_left_comm]
  refine or_congr_left (and_iff_left_of_imp fun heq => ?_)
  rw [heq]
  exact hl

/-- A quad with children. -/
theorem Builds.succ {closer : V → V → V → Bool} (hb : Builds closer k d) :
    Builds closer k (d + 1) := by
  intro l a b m A D hd h hq hA hD hnodes hleaves
  have hl : l < k := by omega
  have hself : (l, a, b) ∈ subQuads k l a b := (subQuads_succ hl).mpr (Or.inl rfl)
  have hcount : nodeCount (d + 1) = 4 * nodeCount d + 1 := rfl
  have hpow : 4 ^ (d + 1) = 4 * 4 ^ d := Nat.pow_succ'
  obtain ⟨m₁, hnode, hplaced, hn₁, hl₁⟩ := h.buildQuadNode hq (hA _ hself) hd (by omega)
  have hext := hplaced.extend
  have hroom : m₁.quadNodePoolAllocated + 4 * nodeCount d ≤ m₁.quadNodePoolSize := by
    have hsize : m₁.quadNodePoolSize = m.quadNodePoolSize := by rw [hext]
    omega
  have hroom' : m₁.quadLeafPoolAllocated + 4 * 4 ^ d ≤ m₁.quadLeafPoolSize := by
    have hsize : m₁.quadLeafPoolSize = m.quadLeafPoolSize := by rw [hext]
    omega
  have hnil : BuiltMore k (insert (l, a, b) A) D (childQuads k l a b []) m₁ m₁
      (([] : List (Fin 4)).length * nodeCount d) (([] : List (Fin 4)).length * 4 ^ d) := by
    have hempty : childQuads k l a b [] = ∅ := by
      ext x
      simp [childQuads]
    refine ⟨?_, fun _ _ _ _ hx => hx, rfl, by simp, by simp⟩
    simpa [hempty] using hplaced.building
  obtain ⟨c₀, s₀, ⟨N₀, hN₀⟩, hc₀, -, h₀⟩ := hnil.child (c := 0) hb hl hd hq hA hD (by simp)
    (by simp) hroom hroom'
  obtain ⟨c₁, s₁, ⟨N₁, hN₁⟩, hc₁, hk₁, h₁⟩ := h₀.child (c := 1) hb hl hd hq hA hD (by simp)
    (by simp) hroom hroom'
  obtain ⟨c₂, s₂, ⟨N₂, hN₂⟩, hc₂, hk₂, h₂⟩ := h₁.child (c := 2) hb hl hd hq hA hD (by simp)
    (by simp) hroom hroom'
  obtain ⟨c₃, s₃, ⟨N₃, hN₃⟩, hc₃, hk₃, h₃⟩ := h₂.child (c := 3) hb hl hd hq hA hD (by simp)
    (by simp) hroom hroom'
  let children : Fin 4 → QuadPtr := ![c₀, c₁, c₂, c₃]
  have hi := h₃.keep _ _ _ _ hplaced.self
  have hchild : ∀ c, IsQuad k s₃ (children c) (l + 1) (2 * a + dx c) (2 * b + dy c) := by
    intro c
    match c with
    | 0 => exact hk₃ _ _ _ _ (hk₂ _ _ _ _ (hk₁ _ _ _ _ hc₀))
    | 1 => exact hk₃ _ _ _ _ (hk₂ _ _ _ _ hc₁)
    | 2 => exact hk₃ _ _ _ _ hc₂
    | 3 => exact hc₃
  have hfree : (l, a, b) ∉ D ∪ {x ∈ childQuads k l a b [0, 1, 2, 3] | x.1 < k} := by
    intro hmem
    rcases hmem with hmem | ⟨⟨c, -, hx⟩, -⟩
    · exact hD _ hself hmem
    · exact absurd hx.1 (by simp)
  obtain ⟨hlink, hlinked⟩ := h₃.building.link hfree hi hchild
  obtain ⟨m', ⟨N₄, hN₄⟩, hbuilt, hquad, hext', hn', hl'⟩ := hlink.collapse closer hfree hl
    hlinked (isQuad_linkChildren.mpr hi) fun c => isQuad_linkChildren.mpr (hchild c)
  obtain ⟨hlinkext, hsame, hsame'⟩ : Extends s₃ (s₃.linkChildren m.quadNodePoolAllocated children) ∧
      (s₃.linkChildren m.quadNodePoolAllocated children).quadNodePoolAllocated =
        s₃.quadNodePoolAllocated ∧
      (s₃.linkChildren m.quadNodePoolAllocated children).quadLeafPoolAllocated =
        s₃.quadLeafPoolAllocated := by
    rw [Extends, linkChildren_eq]
    exact ⟨rfl, rfl, rfl⟩
  refine ⟨.node m.quadNodePoolAllocated, m', ⟨N₀ + N₁ + N₂ + N₃ + N₄ + 1, fun n hn => ?_⟩,
    (hquad ..).mpr (isQuad_linkChildren.mpr hi), ?_, fun x l' a' b' hx => ?_,
    hext.trans (h₃.extend.trans (hlinkext.trans hext')), ?_, ?_⟩
  · obtain ⟨n, rfl⟩ : ∃ k, n = k + 1 := ⟨n - 1, by omega⟩
    have h₀ := hN₀ n (by omega)
    have h₁ := hN₁ n (by omega)
    have h₂ := hN₂ n (by omega)
    have h₃ := hN₃ n (by omega)
    have h₄ : collapseQuad closer n (s₃.linkChildren m.quadNodePoolAllocated children)
        m.quadNodePoolAllocated children = .ok m' := hN₄ n (by omega)
    refine (recursiveBuildQuadNodes_succ closer n).trans ?_
    rw [hnode]
    simp only [Except.bind, h₀, h₁, h₂, h₃]
    show (collapseQuad closer n (s₃.linkChildren _ children) _ children).map _ = _
    rw [h₄]
    rfl
  · rw [union_subQuads hl, union_inner_subQuads hl]
    exact hbuilt
  · exact (hquad ..).mpr (isQuad_linkChildren.mpr (h₃.keep _ _ _ _ (hplaced.keep _ _ _ _ hx)))
  · have hnodes₃ := h₃.nodes
    simp only [List.length_append, List.length_cons, List.length_nil] at hnodes₃
    omega
  · have hleaves₃ := h₃.leaves
    simp only [List.length_append, List.length_cons, List.length_nil] at hleaves₃
    omega

/-- **`recursiveBuildQuadNodes`** builds a quad and everything below it. -/
theorem builds (closer : V → V → V → Bool) (k d : Nat) : Builds closer k d := by
  induction d with
  | zero => exact builds_zero closer k
  | succ d ih => exact ih.succ

end Maple.Terrain
