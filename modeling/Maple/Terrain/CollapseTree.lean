import Maple.Lib.Chain
import Maple.Lib.Fuel
import Maple.Terrain.Grid

/-!
# Maple.Terrain.CollapseTree

**`collapseQuad` gives every vertex of a quad a parent.** The vertices of the next
level in and on a quad are its corners, the middles of its edges and its center.
A corner gets the vertex at the same place as its parent, a middle one of the ends
of its edge and the center one of the corners, whatever the distances are
(`CollapseTree.parent`). No other vertex is changed (`Attached`).
-/

namespace Maple.Terrain

open Lib QuadCollapseMesh

variable {V : Type} {k : Nat} {m m' m'' : QuadCollapseMesh V}

/-- The collapse tree as far as it has been built. -/
structure CollapseTree (k : Nat) (m : QuadCollapseMesh V) : Prop where
  level : ∀ {l i j}, InGrid k l i j → (m.verts (vertIndex l i j)).level = l
  siblings : Siblings (fun c => (m.verts c).parent) (fun v => (m.verts v).firstChild)
    fun c => (m.verts c).nextSibling
  parent : ∀ {c v}, (m.verts c).parent = some v → ∃ l i j i' j', InGrid k (l + 1) i j ∧
    c = vertIndex (l + 1) i j ∧ v = vertIndex l i' j' ∧ Collapses i i' ∧ Collapses j j'

/-- The parent of a vertex, by its place. -/
theorem CollapseTree.parent_vert (h : CollapseTree k m) {l i j v : Nat}
    (hg : InGrid k (l + 1) i j) (hv : (m.verts (vertIndex (l + 1) i j)).parent = some v) :
    ∃ i' j', v = vertIndex l i' j' ∧ Collapses i i' ∧ Collapses j j' := by
  obtain ⟨l', x, y, i', j', hg', heq, hv', hi, hj⟩ := h.parent hv
  obtain ⟨hl, rfl, rfl⟩ := vertIndex_inj hg hg' heq
  obtain rfl : l = l' := by omega
  exact ⟨i', j', hv', hi, hj⟩

/-- The vertices of `P` have got a parent, and nothing else has changed. -/
structure Attached (k : Nat) (m m' : QuadCollapseMesh V) (P : Set Nat) : Prop where
  tree : CollapseTree k m'
  rest : m' = { m with verts := m'.verts }
  adjcentQuads : ∀ v, (m'.verts v).adjcentQuads = (m.verts v).adjcentQuads
  activeFrame : ∀ v, (m'.verts v).activeFrame = (m.verts v).activeFrame
  mem : ∀ c ∈ P, (m'.verts c).parent.isSome
  other : ∀ c ∉ P, (m'.verts c).parent = (m.verts c).parent

namespace Attached

variable {P Q : Set Nat}

theorem refl (h : CollapseTree k m) (hmem : ∀ c ∈ P, (m.verts c).parent.isSome) :
    Attached k m m P :=
  ⟨h, rfl, fun _ => rfl, fun _ => rfl, hmem, fun _ _ => rfl⟩

theorem trans (h : Attached k m m' P) (h' : Attached k m' m'' Q) : Attached k m m'' (P ∪ Q) := by
  refine ⟨h'.tree, ?_, fun v => (h'.adjcentQuads v).trans (h.adjcentQuads v),
    fun v => (h'.activeFrame v).trans (h.activeFrame v), fun c hc => ?_, fun c hc => ?_⟩
  · rw [h'.rest, h.rest]
  · by_cases hQ : c ∈ Q
    · exact h'.mem c hQ
    · rw [h'.other c hQ]
      exact h.mem c (hc.resolve_right hQ)
  · rw [h'.other c fun hQ => hc (Or.inr hQ), h.other c fun hP => hc (Or.inl hP)]

theorem quads (h : Attached k m m' P) : m'.quads = m.quads := by
  rw [h.rest]

end Attached

/-! ### `addChild` -/

/-- `addChild` of a vertex without a parent puts it before the other children. -/
theorem addChild_new {this child : Nat} (hparent : (m.verts child).parent = none)
    (hlevel : (m.verts child).level = (m.verts this).level + 1)
    (hnext : (m.verts child).nextSibling = none) :
    m.addChild this child =
      { m with verts := fun x =>
        { m.verts x with
          parent := Function.update (fun c => (m.verts c).parent) child (some this) x
          firstChild := Function.update (fun v => (m.verts v).firstChild) this (some child) x
          nextSibling := Function.update (fun c => (m.verts c).nextSibling) child
            (m.verts this).firstChild x } } := by
  have hne : this ≠ child := by
    intro heq
    rw [heq] at hlevel
    omega
  have hadd : m.addChild this child =
      (m.modifyVert child fun c =>
        { c with parent := some this, nextSibling := (m.verts this).firstChild }).modifyVert this
        fun v => { v with firstChild := some child } := by
    cases hfirst : (m.verts this).firstChild with
    | none =>
        -- the source leaves `nextSibling` alone, which is null
        simp [addChild, modifyVert, hparent, hlevel, hnext, hfirst, hne]
    | some first => simp [addChild, modifyVert, hparent, hlevel, hnext, hfirst, hne]
  rw [hadd, modifyVert, modifyVert]
  congr 1
  funext x
  by_cases hx : x = this
  · simp [hx, hne]
  · by_cases hx' : x = child
    · simp [hx', Ne.symm hne]
    · simp [hx, hx']

/-- **`addChild`** makes a vertex a child of a vertex of the level above that is not
further away than one column and one row. -/
theorem CollapseTree.addChild (h : CollapseTree k m) {l i j i' j' : Nat}
    (hc : InGrid k (l + 1) i j) (hv : InGrid k l i' j') (hi : Collapses i i')
    (hj : Collapses j j')
    (hfree : ∀ v, (m.verts (vertIndex (l + 1) i j)).parent = some v → v = vertIndex l i' j') :
    Attached k m (m.addChild (vertIndex l i' j') (vertIndex (l + 1) i j))
      {vertIndex (l + 1) i j} := by
  cases hparent : (m.verts (vertIndex (l + 1) i j)).parent with
  | some v =>
      rw [hfree v hparent] at hparent
      rw [QuadCollapseMesh.addChild, if_pos hparent]
      exact Attached.refl h fun c hmem => by simp [Set.mem_singleton_iff.mp hmem, hparent]
  | none =>
      rw [addChild_new hparent (by rw [h.level hc, h.level hv]) (h.siblings.free _ hparent)]
      refine ⟨⟨h.level, h.siblings.push hparent, fun {c v} hpar => ?_⟩, rfl, fun _ => rfl,
        fun _ => rfl, fun c hmem => ?_, fun c hmem => ?_⟩
      · replace hpar : Function.update (fun c => (m.verts c).parent) (vertIndex (l + 1) i j)
          (some (vertIndex l i' j')) c = some v := hpar
        by_cases heq : c = vertIndex (l + 1) i j
        · rw [heq, Function.update_self] at hpar
          exact ⟨l, i, j, i', j', hc, heq, (Option.some.inj hpar).symm, hi, hj⟩
        · rw [Function.update_of_ne heq] at hpar
          exact h.parent hpar
      · rw [Set.mem_singleton_iff.mp hmem]
        simp
      · show Function.update (fun c => (m.verts c).parent) _ _ c = _
        rw [Function.update_of_ne (Set.mem_singleton_iff.not.mp hmem)]

/-! ### The tests with `hasChild` end -/

theorem siblingsContain_settles {start : Option Nat} {cs : List Nat} (testNode : Nat)
    (h : Chain (fun c => (m.verts c).nextSibling) start cs) :
    ∃ b, Settles (fun fuel => siblingsContain m testNode fuel start) (.ok b) := by
  induction cs generalizing start with
  | nil =>
      obtain rfl : start = none := h
      exact ⟨false, Settles.of_succ (Settles.of_forall fun _ => rfl)⟩
  | cons c cs ih =>
      obtain ⟨rfl, hrest⟩ := h
      by_cases hc : c = testNode
      · refine ⟨true, Settles.of_succ (Settles.of_forall fun fuel => ?_)⟩
        rw [siblingsContain, if_pos hc]
      · obtain ⟨b, hb⟩ := ih hrest
        refine ⟨b, Settles.of_succ (hb.congr fun fuel => ?_)⟩
        rw [siblingsContain, if_neg hc]

theorem CollapseTree.hasChild_settles (h : CollapseTree k m) (this testNode : Nat) :
    ∃ b, Settles (fun fuel => hasChild fuel m this testNode) (.ok b) := by
  obtain ⟨cs, hchain, -⟩ := h.siblings.chain this
  exact siblingsContain_settles testNode hchain

theorem CollapseTree.middleTests_settles (h : CollapseTree k m) (p : Patch) :
    ∃ t, Settles (fun fuel => middleTests fuel m p) (.ok t) := by
  obtain ⟨swLf, h₁⟩ := h.hasChild_settles (p.parent 0) p.lf
  obtain ⟨swBt, h₂⟩ := h.hasChild_settles (p.parent 0) p.bt
  obtain ⟨seBt, h₃⟩ := h.hasChild_settles (p.parent 1) p.bt
  obtain ⟨seRt, h₄⟩ := h.hasChild_settles (p.parent 1) p.rt
  obtain ⟨neRt, h₅⟩ := h.hasChild_settles (p.parent 2) p.rt
  obtain ⟨neTp, h₆⟩ := h.hasChild_settles (p.parent 2) p.tp
  obtain ⟨nwTp, h₇⟩ := h.hasChild_settles (p.parent 3) p.tp
  obtain ⟨nwLf, h₈⟩ := h.hasChild_settles (p.parent 3) p.lf
  exact ⟨_, h₁.except_bind <| h₂.except_bind <| h₃.except_bind <| h₄.except_bind <|
    h₅.except_bind <| h₆.except_bind <| h₇.except_bind <| h₈.comp (Except.map _)⟩

/-! ### `collapseQuad` -/

/-- The vertices of the next level in and on a quad. -/
def patchVerts (l a b : Nat) : Set Nat :=
  {c | ∃ i j, (2 * a ≤ i ∧ i ≤ 2 * a + 2) ∧ (2 * b ≤ j ∧ j ≤ 2 * b + 2) ∧ c = vertIndex (l + 1) i j}

/-- The patch of a quad, by the places of its vertices. -/
def patchAt (l a b : Nat) : Patch where
  parent c := vertIndex l (a + dx c) (b + dy c)
  bt := vertIndex (l + 1) (2 * a + 1) (2 * b)
  rt := vertIndex (l + 1) (2 * a + 2) (2 * b + 1)
  tp := vertIndex (l + 1) (2 * a + 1) (2 * b + 2)
  lf := vertIndex (l + 1) (2 * a) (2 * b + 1)
  ct := vertIndex (l + 1) (2 * a + 1) (2 * b + 1)
  sw := vertIndex (l + 1) (2 * a) (2 * b)
  se := vertIndex (l + 1) (2 * a + 2) (2 * b)
  ne := vertIndex (l + 1) (2 * a + 2) (2 * b + 2)
  nw := vertIndex (l + 1) (2 * a) (2 * b + 2)

theorem patch_eq {l a b i : Nat} {children : Fin 4 → QuadPtr}
    (hnode : ∀ d, (m.quads (.node i)).cornerVertNodes d = vertIndex l (a + dx d) (b + dy d))
    (hchild : ∀ c d, (m.quads (children c)).cornerVertNodes d =
      vertIndex (l + 1) (2 * a + dx c + dx d) (2 * b + dy c + dy d)) :
    m.patch i children = patchAt l a b := by
  unfold patch patchAt
  rw [funext hnode]
  simp only [hchild]
  rfl

variable {l a b : Nat}

theorem InQuads.patch (h : InQuads k l a b) (hl : l < k) {i j : Nat} (hi : i ≤ 2 * a + 2)
    (hj : j ≤ 2 * b + 2) : InGrid k (l + 1) i j := by
  have ha := h.column
  have hb := h.row
  exact ⟨hl, by rw [Nat.pow_succ]; omega, by rw [Nat.pow_succ]; omega⟩

/-- The corners of a quad get the vertices at the same places. -/
theorem CollapseTree.corner (h : CollapseTree k m) (hq : InQuads k l a b) (hl : l < k)
    (c : Fin 4) :
    Attached k m (m.addChild (vertIndex l (a + dx c) (b + dy c))
      (vertIndex (l + 1) (2 * (a + dx c)) (2 * (b + dy c))))
      {vertIndex (l + 1) (2 * (a + dx c)) (2 * (b + dy c))} := by
  have hx := dx_le c
  have hy := dy_le c
  have hg := hq.patch hl (i := 2 * (a + dx c)) (j := 2 * (b + dy c)) (by omega) (by omega)
  refine h.addChild hg (hq.corner c) ⟨by omega, by omega⟩ ⟨by omega, by omega⟩ fun v hv => ?_
  obtain ⟨i', j', rfl, hi, hj⟩ := h.parent_vert hg hv
  rw [hi.even, hj.even]

/-- The middle of an edge gets one of two corners as its parent. -/
theorem CollapseTree.middle (closer : V → V → V → Bool) (h : CollapseTree k m)
    (hq : InQuads k l a b) {i j : Nat} {c d : Fin 4} (hg : InGrid k (l + 1) i j)
    (hi : Collapses i (a + dx c) ∧ Collapses i (a + dx d))
    (hj : Collapses j (b + dy c) ∧ Collapses j (b + dy d)) :
    Attached k m (collapseMiddle closer m (vertIndex (l + 1) i j)
      (vertIndex l (a + dx c) (b + dy c)) (vertIndex l (a + dx d) (b + dy d)))
      {vertIndex (l + 1) i j} := by
  unfold collapseMiddle
  split
  · next hsome =>
      exact Attached.refl h fun x hx => by rw [Set.mem_singleton_iff.mp hx]; exact hsome
  · next hnone =>
      have hfree : ∀ {w} v, (m.verts (vertIndex (l + 1) i j)).parent = some v → v = w :=
        fun v hv => absurd (by rw [hv]; rfl) hnone
      split
      · exact h.addChild hg (hq.corner c) hi.1 hj.1 hfree
      · exact h.addChild hg (hq.corner d) hi.2 hj.2 hfree

theorem CollapseTree.corners (h : CollapseTree k m) (hq : InQuads k l a b) (hl : l < k) :
    Attached k m (m.collapseCorners (patchAt l a b))
      ({(patchAt l a b).sw} ∪ {(patchAt l a b).se} ∪ {(patchAt l a b).ne} ∪
        {(patchAt l a b).nw}) := by
  have h₀ := h.corner hq hl 0
  have h₁ := h₀.tree.corner hq hl 1
  have h₂ := h₁.tree.corner hq hl 2
  exact ((h₀.trans h₁).trans h₂).trans (h₂.tree.corner hq hl 3)

theorem CollapseTree.edges (closer : V → V → V → Bool) (h : CollapseTree k m)
    (hq : InQuads k l a b) (hl : l < k) :
    Attached k m (collapseEdges closer m (patchAt l a b))
      ({(patchAt l a b).bt} ∪ {(patchAt l a b).rt} ∪ {(patchAt l a b).tp} ∪
        {(patchAt l a b).lf}) := by
  have hg : ∀ {i j}, i ≤ 2 * a + 2 → j ≤ 2 * b + 2 → InGrid k (l + 1) i j := hq.patch hl
  have h₀ := h.middle closer hq (c := 1) (d := 0) (hg (i := 2 * a + 1) (j := 2 * b) (by omega)
    (by omega)) (by simp [Collapses]; omega) (by simp [Collapses])
  have h₁ := h₀.tree.middle closer hq (c := 2) (d := 1) (hg (i := 2 * a + 2) (j := 2 * b + 1)
    (by omega) (by omega)) (by simp [Collapses]; omega) (by simp [Collapses]; omega)
  have h₂ := h₁.tree.middle closer hq (c := 2) (d := 3) (hg (i := 2 * a + 1) (j := 2 * b + 2)
    (by omega) (by omega)) (by simp [Collapses]; omega) (by simp [Collapses]; omega)
  have h₃ := h₂.tree.middle closer hq (c := 3) (d := 0) (hg (i := 2 * a) (j := 2 * b + 1)
    (by omega) (by omega)) (by simp [Collapses]) (by simp [Collapses]; omega)
  exact ((h₀.trans h₁).trans h₂).trans h₃

/-- Nine vertices make up the patch. -/
theorem patchVerts_eq :
    patchVerts l a b =
      ({(patchAt l a b).sw} ∪ {(patchAt l a b).se} ∪ {(patchAt l a b).ne} ∪ {(patchAt l a b).nw}) ∪
      ({(patchAt l a b).bt} ∪ {(patchAt l a b).rt} ∪ {(patchAt l a b).tp} ∪ {(patchAt l a b).lf}) ∪
      {(patchAt l a b).ct} := by
  ext c
  simp only [patchVerts, patchAt, Set.mem_ofPred_eq, Set.mem_union, Set.mem_singleton_iff]
  refine ⟨fun ⟨i, j, hi, hj, hc⟩ => ?_, fun hc => ?_⟩
  · obtain rfl | rfl | rfl : i = 2 * a ∨ i = 2 * a + 1 ∨ i = 2 * a + 2 := by omega
    all_goals
      obtain rfl | rfl | rfl : j = 2 * b ∨ j = 2 * b + 1 ∨ j = 2 * b + 2 := by omega
      all_goals simp [hc]
  · rcases hc with (((((hc | hc) | hc) | hc) | (((hc | hc) | hc) | hc)) | hc)
    all_goals exact ⟨_, _, ⟨by omega, by omega⟩, ⟨by omega, by omega⟩, hc⟩

/-- The center is none of the others. -/
theorem InQuads.center (hq : InQuads k l a b) (hl : l < k) :
    (patchAt l a b).ct ∉
        ({(patchAt l a b).sw} ∪ {(patchAt l a b).se} ∪ {(patchAt l a b).ne} ∪
          {(patchAt l a b).nw} : Set Nat) ∧
      (patchAt l a b).ct ∉
        ({(patchAt l a b).bt} ∪ {(patchAt l a b).rt} ∪ {(patchAt l a b).tp} ∪
          {(patchAt l a b).lf} : Set Nat) := by
  have hne : ∀ {i j}, i ≤ 2 * a + 2 → j ≤ 2 * b + 2 → i ≠ 2 * a + 1 ∨ j ≠ 2 * b + 1 →
      vertIndex (l + 1) (2 * a + 1) (2 * b + 1) ≠ vertIndex (l + 1) i j := by
    intro i j hi hj hij heq
    obtain ⟨-, hi', hj'⟩ :=
      vertIndex_inj (hq.patch hl (by omega) (by omega)) (hq.patch hl hi hj) heq
    omega
  simp only [patchAt, Set.mem_union, Set.mem_singleton_iff, not_or]
  refine ⟨⟨⟨⟨?_, ?_⟩, ?_⟩, ?_⟩, ⟨⟨?_, ?_⟩, ?_⟩, ?_⟩
  all_goals exact hne (by omega) (by omega) (by omega)

/-- The center gets one of the corners as its parent. -/
theorem CollapseTree.center (h : CollapseTree k m) (hq : InQuads k l a b) (hl : l < k)
    (c : Fin 4) (hfree : (m.verts (patchAt l a b).ct).parent = none) :
    Attached k m (m.addChild ((patchAt l a b).parent c) (patchAt l a b).ct)
      {(patchAt l a b).ct} := by
  have hx := dx_le c
  have hy := dy_le c
  refine h.addChild (hq.patch hl (by omega) (by omega)) (hq.corner c) ⟨by omega, by omega⟩
    ⟨by omega, by omega⟩ fun v hv => ?_
  exact absurd (hfree.symm.trans hv) (by simp)

/-- **`collapseQuad`** gives exactly the vertices in and on the quad a parent. -/
theorem collapseQuad_settles (closer : V → V → V → Bool) (h : CollapseTree k m)
    (hq : InQuads k l a b) (hl : l < k) {i : Nat} {children : Fin 4 → QuadPtr}
    (hnode : ∀ d, (m.quads (.node i)).cornerVertNodes d = vertIndex l (a + dx d) (b + dy d))
    (hchild : ∀ c d, (m.quads (children c)).cornerVertNodes d =
      vertIndex (l + 1) (2 * a + dx c + dx d) (2 * b + dy c + dy d))
    (hfree : (m.verts (vertIndex (l + 1) (2 * a + 1) (2 * b + 1))).parent = none) :
    ∃ m₁ mode, Attached k m m₁ (patchVerts l a b) ∧
      Settles (fun fuel => collapseQuad closer fuel m i children)
        (.ok (m₁.modifyQuad (.node i) fun q => { q with triangulationMode := mode })) := by
  have hcorners := h.corners hq hl
  have hedges := hcorners.tree.edges closer hq hl
  obtain ⟨hnot, hnot'⟩ := hq.center hl
  have hfree₁ : ((m.collapseCorners (patchAt l a b)).verts (patchAt l a b).ct).parent = none :=
    (hcorners.other _ hnot).trans hfree
  let m₁ := collapseEdges closer (m.collapseCorners (patchAt l a b)) (patchAt l a b)
  obtain ⟨t, N, hN⟩ := hedges.tree.middleTests_settles (patchAt l a b)
  let c := centerParent closer m₁ children (patchAt l a b) t
  have hcenter := hedges.tree.center hq hl c ((hedges.other _ hnot').trans hfree₁)
  let m₂ := m₁.addChild ((patchAt l a b).parent c) (patchAt l a b).ct
  obtain ⟨t', N', hN'⟩ := hcenter.tree.middleTests_settles (patchAt l a b)
  have hall := (hcorners.trans hedges).trans hcenter
  rw [← patchVerts_eq] at hall
  refine ⟨m₂, m₂.layout children (patchAt l a b) t', hall, N + N', fun n hn => ?_⟩
  have htest : middleTests n m₁ (patchAt l a b) = .ok t := hN n (by omega)
  have htest' : middleTests n m₂ (patchAt l a b) = .ok t' := hN' n (by omega)
  simp only [collapseQuad, patch_eq hnode hchild, hfree₁, Option.isSome_none, Bool.false_eq_true,
    if_false]
  show (middleTests n m₁ _).bind _ = _
  rw [htest]
  show (middleTests n m₂ _).map _ = _
  rw [htest']
  rfl

end Maple.Terrain
