import Maple.Terrain.Built

/-!
# Maple.Terrain.UncheckedBuild

**`build` with the checks that the source makes.** `QuadCollapseMesh.getVertNode` treats a
place outside the block of its level and a vertex of another level as faults; the source
computes an index into the pool and goes on with what it finds there. Here `getVertNode` and
the functions that call it are written out with that one fault only: an access outside a
vector. Whatever the checked functions succeed with, these succeed with (`build_succeedsAs`).
-/

namespace Maple.Terrain.Unchecked

open Lib QuadCollapseMesh

variable {V : Type}

/-- `getVertNode`. It copies the first vertex of the level before it computes the index. The
levels after `maxLevel` have no offset, and `x` cannot be shifted for them. -/
def getVertNode (m : QuadCollapseMesh V) (level x y : Nat) : Except MeshFault Nat :=
  let shift := m.maxLevel - level
  let rowStep := 2 ^ level + 1
  let result := m.vertNodesLevelOffset level + (y >>> shift) * rowStep + (x >>> shift)
  if level ≤ m.maxLevel ∧ m.vertNodesLevelOffset level < m.vertNodePoolSize ∧
      result < m.vertNodePoolSize then .ok result
  else .error .outOfRange

def getCornerVertNodes (m : QuadCollapseMesh V) (level x0 y0 step : Nat) :
    Except MeshFault (Fin 4 → Nat) :=
  (getVertNode m level x0 y0).bind fun v0 =>
  (getVertNode m level (x0 + step) y0).bind fun v1 =>
  (getVertNode m level (x0 + step) (y0 + step)).bind fun v2 =>
  (getVertNode m level x0 (y0 + step)).map fun v3 => ![v0, v1, v2, v3]

/-- The leaf case of `recursiveBuildQuadNodes`. -/
def buildQuadLeaf (m : QuadCollapseMesh V) (level x0 y0 step : Nat) :
    Except MeshFault (QuadPtr × QuadCollapseMesh V) :=
  m.allocQuadLeaf.bind fun (i, m) =>
  (getCornerVertNodes m level x0 y0 step).bind fun corners =>
  let m := m.modifyQuad (.leaf i) fun _ =>
    { level := level % 2 ^ m.limits.levelBits, cornerVertNodes := corners }
  (([0, 1, 2, 3] : List (Fin 4)).foldlM (fun (m : QuadCollapseMesh V) c =>
    if (m.verts (corners c)).level = level then m.addAdjcentQuad (corners c) (.leaf i)
    else .ok m) m).map fun m => (.leaf i, m)

/-- The first part of the other case: the node itself. -/
def buildQuadNode (m : QuadCollapseMesh V) (level x0 y0 step : Nat) :
    Except MeshFault (Nat × QuadCollapseMesh V) :=
  m.allocQuadNode.bind fun (i, m) =>
  (getVertNode m (level + 1) (x0 + step / 2) (y0 + step / 2)).bind fun center =>
  (getCornerVertNodes m level x0 y0 step).bind fun corners =>
  let m := m.modifyQuad (.node i) fun q =>
    { level := level % 2 ^ m.limits.levelBits
      triangulationMode := q.triangulationMode
      cornerVertNodes := corners }
  let m := { m with inner := Function.update m.inner i { m.inner i with centerVertNode := center } }
  (([0, 1, 2, 3] : List (Fin 4)).foldlM (fun (m : QuadCollapseMesh V) c =>
    m.addAdjcentQuad (corners c) (.node i)) m).map fun m => (i, m)

/-- `recursiveBuildQuadNodes`. -/
def recursiveBuildQuadNodes (closer : V → V → V → Bool) : Nat → QuadCollapseMesh V →
    (level x0 y0 step : Nat) → Except MeshFault (QuadPtr × QuadCollapseMesh V)
  | 0, _, _, _, _, _ => .error .outOfFuel
  | fuel + 1, m, level, x0, y0, step =>
    if step = 1 then buildQuadLeaf m level x0 y0 step
    else
      let halfStep := step / 2
      (buildQuadNode m level x0 y0 step).bind fun (i, m) =>
      (recursiveBuildQuadNodes closer fuel m (level + 1) x0 y0 halfStep).bind fun (c0, m) =>
      (recursiveBuildQuadNodes closer fuel m (level + 1) (x0 + halfStep) y0 halfStep).bind
        fun (c1, m) =>
      (recursiveBuildQuadNodes closer fuel m (level + 1) (x0 + halfStep) (y0 + halfStep)
        halfStep).bind fun (c2, m) =>
      (recursiveBuildQuadNodes closer fuel m (level + 1) x0 (y0 + halfStep) halfStep).bind
        fun (c3, m) =>
      let children := ![c0, c1, c2, c3]
      (collapseQuad closer fuel (m.linkChildren i children) i children).map fun m => (.node i, m)

/-- The body of the loops of `buildVertNodes`. -/
def initVertNode (m : QuadCollapseMesh V) (level x y : Nat) :
    Except MeshFault (QuadCollapseMesh V) :=
  (getVertNode m level x y).bind fun i =>
    match m.vertices[y * m.maxLevelVerticesLength + x]? with
    | none => .error .outOfRange
    | some v => .ok (m.modifyVert i fun _ =>
        { level := level % 2 ^ m.limits.levelBits, originalVertex := v, interpolatedVertex := v })

/-- The loops of `buildVertNodes` from a level on. -/
def initVertNodes (m : QuadCollapseMesh V) (level step : Nat) :
    Except MeshFault (QuadCollapseMesh V) :=
  if h : step = 0 then .ok m
  else
    let range := forSteps m.maxLevelVerticesLength step
    (range.foldlM (fun m y => range.foldlM (fun m x => initVertNode m level x y) m) m).bind fun m =>
      initVertNodes m (level + 1) (step / 2)
termination_by step
decreasing_by omega

/-- `buildVertNodes`. -/
def buildVertNodes (m : QuadCollapseMesh V) : Except MeshFault (QuadCollapseMesh V) :=
  let last := m.maxLevelVerticesLength - 1
  (initVertNodes m 0 last).bind fun m =>
  (getCornerVertNodes m 0 0 0 last).map fun roots =>
    { m with rootVertNodes := fun i => some (roots i) }

/-- The part of `build` after the pools have been resized. -/
def buildTrees (closer : V → V → V → Bool) (fuel : Nat) (m : QuadCollapseMesh V) :
    Except MeshFault (Bool × QuadCollapseMesh V) :=
  (buildVertNodes m).bind fun m =>
  (recursiveBuildQuadNodes closer fuel m 0 0 0 (m.maxLevelVerticesLength - 1)).map
    fun (root, m) => (true, { m with rootQuadNode := some root })

/-- `build`. -/
def build [Inhabited V] (closer : V → V → V → Bool) (fuel : Nat) (m : QuadCollapseMesh V)
    (vertices : List V) (width height : Nat) : Except MeshFault (Bool × QuadCollapseMesh V) :=
  let m := m.setMesh vertices width height
  if m.maxLevelVerticesLength < 2 then .ok (false, m)
  else if m.limits.maxLength < m.maxLevelVerticesLength then .ok (false, m)
  else
    let levels := levelCount (m.maxLevelVerticesLength - 1)
    if m.limits.maxQuadLevelCount < levels then .ok (false, m)
    else buildTrees closer fuel (m.resizePools levels)

/-! ### The checks only add faults -/

variable {m : QuadCollapseMesh V} {level x y : Nat}

theorem getVertNode_succeedsAs (initMode : Bool) :
    SucceedsAs (getVertNode m level x y) (m.getVertNode level x y initMode) := by
  intro v hv
  simp only [QuadCollapseMesh.getVertNode] at hv
  unfold getVertNode
  simp only
  split at hv
  · next hin =>
      obtain ⟨hlevel, -, -, hpool⟩ := hin
      split at hv
      · have hfirst := Nat.lt_of_add_right_lt (Nat.lt_of_add_right_lt hpool)
        rw [if_pos ⟨hlevel, hfirst, hpool⟩]
        exact hv
      · cases hv
  · cases hv

theorem getCornerVertNodes_succeedsAs (step : Nat) :
    SucceedsAs (getCornerVertNodes m level x y step) (m.getCornerVertNodes level x y step) :=
  (getVertNode_succeedsAs _).bind fun _ => (getVertNode_succeedsAs _).bind fun _ =>
    (getVertNode_succeedsAs _).bind fun _ => (getVertNode_succeedsAs _).map _

theorem buildQuadLeaf_succeedsAs (step : Nat) :
    SucceedsAs (buildQuadLeaf m level x y step) (m.buildQuadLeaf level x y step) :=
  (SucceedsAs.refl _).bind fun _ => (getCornerVertNodes_succeedsAs _).bind fun _ => .refl _

theorem buildQuadNode_succeedsAs (step : Nat) :
    SucceedsAs (buildQuadNode m level x y step) (m.buildQuadNode level x y step) :=
  (SucceedsAs.refl _).bind fun _ => (getVertNode_succeedsAs _).bind fun _ =>
    (getCornerVertNodes_succeedsAs _).bind fun _ => .refl _

theorem recursiveBuildQuadNodes_succeedsAs (closer : V → V → V → Bool) (fuel step : Nat) :
    SucceedsAs (recursiveBuildQuadNodes closer fuel m level x y step)
      (QuadCollapseMesh.recursiveBuildQuadNodes closer fuel m level x y step) := by
  induction fuel generalizing m level x y step with
  | zero => exact .refl _
  | succ fuel ih =>
      rw [recursiveBuildQuadNodes, QuadCollapseMesh.recursiveBuildQuadNodes]
      split
      · exact buildQuadLeaf_succeedsAs step
      · exact (buildQuadNode_succeedsAs step).bind fun _ => (ih _).bind fun _ =>
          (ih _).bind fun _ => (ih _).bind fun _ => (ih _).bind fun _ => .refl _

theorem initVertNode_succeedsAs :
    SucceedsAs (initVertNode m level x y) (m.initVertNode level x y) :=
  (getVertNode_succeedsAs _).bind fun _ => .refl _

theorem initVertNodes_succeedsAs (step : Nat) :
    SucceedsAs (initVertNodes m level step) (m.initVertNodes level step) := by
  induction step using Nat.strongRecOn generalizing m level with
  | ind step ih =>
      rw [initVertNodes, QuadCollapseMesh.initVertNodes]
      split
      · exact .refl _
      · next hstep =>
          refine SucceedsAs.bind ?_ fun _ => ih _ (by omega)
          exact SucceedsAs.foldlM (fun _ _ => SucceedsAs.foldlM (fun _ _ =>
            initVertNode_succeedsAs) _ _) _ _

theorem buildVertNodes_succeedsAs : SucceedsAs (buildVertNodes m) m.buildVertNodes :=
  (initVertNodes_succeedsAs _).bind fun _ => (getCornerVertNodes_succeedsAs _).map _

theorem buildTrees_succeedsAs (closer : V → V → V → Bool) (fuel : Nat) :
    SucceedsAs (buildTrees closer fuel m) (m.buildVertNodes.bind fun m =>
      (QuadCollapseMesh.recursiveBuildQuadNodes closer fuel m 0 0 0
        (m.maxLevelVerticesLength - 1)).map
        fun (root, m) => (true, { m with rootQuadNode := some root })) :=
  buildVertNodes_succeedsAs.bind fun _ => (recursiveBuildQuadNodes_succeedsAs closer fuel _).map _

theorem build_succeedsAs [Inhabited V] (closer : V → V → V → Bool) (fuel : Nat)
    (vertices : List V) (width height : Nat) :
    SucceedsAs (build closer fuel m vertices width height)
      (QuadCollapseMesh.build closer fuel m vertices width height) := by
  unfold build QuadCollapseMesh.build
  simp only
  split
  · exact .refl _
  · split
    · exact .refl _
    · split
      · exact .refl _
      · exact buildTrees_succeedsAs closer fuel

end Maple.Terrain.Unchecked
