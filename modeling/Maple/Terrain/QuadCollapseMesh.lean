import Mathlib.Algebra.Group.Nat.Defs
import Mathlib.Algebra.GroupWithZero.Nat
import Mathlib.Data.Fin.VecNotation
import Mathlib.Logic.Function.Basic

/-!
# Maple.Terrain.QuadCollapseMesh

The terrain mesh with levels of detail: `Terrain/QuadCollapseMesh.cpp`. A square
grid of `2 ^ k + 1` vertices a side carries two trees. The quad tree halves the
square `k` times. The collapse tree has a `VertNode` for every vertex of every
level; its parent is a vertex of the level above, onto which the vertex is drawn
when the detail of its level is dropped. Each update walks the collapse tree,
marks the vertices and quads in use with the number of the frame, and then emits
the triangles of the quads at the border of the marked part of the quad tree.

Pointers into a pool are indices. A `QuadNode*` may point to a `QuadLeaf`, which
has the same first fields but no children: `quads` holds these fields for both
pools and `inner` the rest of a `QuadNode`; reading the children of a leaf is a
fault. Computations with floating point numbers are parameters: `closer` compares
two distances in `build`, and a `FrameView` gives the outcomes of one frame. The
bit fields of the frame stamps are written out; loops take fuel.
-/

namespace Maple.Terrain

/-- The corners of a quad are numbered by `Fin 4`. -/
scoped instance neZero_corners : NeZero 4 := ⟨by decide⟩

inductive TriangulationMode where
  | nwSe
  | swNe
  deriving DecidableEq, Repr

inductive NodeState where
  | active
  | boundary
  deriving DecidableEq, Repr

/-- What a call can fail with. -/
inductive MeshFault where
  /-- an access outside a vector, or outside the block of a level -/
  | outOfRange
  /-- `getVertNode` finds a vertex of another level -/
  | wrongLevel
  /-- a fifth entry for `adjcentQuads[4]` -/
  | overflow
  | nullptr
  /-- the children of a `QuadLeaf` are read -/
  | pastLeaf
  | outOfFuel
  deriving DecidableEq, Repr

/-- A `QuadNode*` other than null. -/
inductive QuadPtr where
  | node (i : Nat)
  | leaf (i : Nat)
  deriving DecidableEq, Repr

/-- The fields of a `VertNode` that only `build` writes. `adjcentQuadsCount` is the
length of the list. -/
structure VertLinks where
  level : Nat := 0
  adjcentQuads : List QuadPtr := []
  parent : Option Nat := none
  firstChild : Option Nat := none
  nextSibling : Option Nat := none

structure VertNode (V : Type) extends VertLinks where
  activeFrame : Nat := 0
  state : NodeState := .active
  originalVertex : V
  interpolatedVertex : V

/-- The fields of a quad that only `build` writes. -/
structure QuadLinks where
  level : Nat := 0
  triangulationMode : TriangulationMode := .nwSe
  parent : Option Nat := none
  cornerVertNodes : Fin 4 → Nat := fun _ => 0

structure QuadLeaf extends QuadLinks where
  activeFrame : Nat := 0
  state : NodeState := .active

/-- The fields of a `QuadNode` that a `QuadLeaf` does not have. -/
structure QuadInner where
  centerVertNode : Nat := 0
  children : Fin 4 → Option QuadPtr := fun _ => none

/-- The vertices that one quad appends to `activeVertices`: for each the corner it
is for and the `VertNode` whose `interpolatedVertex` is copied. -/
structure Emission where
  quad : QuadPtr
  pushes : List (Fin 4 × Nat)

/-- The compile-time limits: `MAX_LENGTH`, `MAX_QUAD_LEVEL_COUNT` and the width of the
bit fields that hold a level. -/
structure Limits where
  maxLength : Nat := 4097
  maxQuadLevelCount : Nat := 13
  levelBits : Nat := 4

/-- `QuadCollapseMesh`. Of `activeQuads` the source keeps the vertices only; `visits`
and `markedQuads`, what has been marked in this frame, it has as stamps only. -/
structure QuadCollapseMesh (V : Type) where
  limits : Limits := {}
  lod : Bool := false
  size : Nat := 0
  indices : List Nat := []
  lodIndices : List Nat := []
  vertices : List V := []
  activeVertices : List V := []
  activeQuads : List Emission := []
  visits : List Nat := []
  markedQuads : List QuadPtr := []
  indexBuffer : List Nat := []
  vertexBuffer : List V := []
  maxLevelVerticesLength : Nat := 0
  maxLevel : Nat := 0
  vertNodesLevelOffset : Nat → Nat := fun _ => 0
  vertNodePoolSize : Nat := 0
  verts : Nat → VertNode V
  quadNodePoolSize : Nat := 0
  quadLeafPoolSize : Nat := 0
  quads : QuadPtr → QuadLeaf := fun _ => {}
  inner : Nat → QuadInner := fun _ => {}
  quadNodePoolAllocated : Nat := 0
  quadLeafPoolAllocated : Nat := 0
  rootQuadNode : Option QuadPtr := none
  rootVertNodes : Fin 4 → Option Nat := fun _ => none
  updateFrame : Nat := 0

variable {V : Type}

namespace QuadCollapseMesh

/-- A new mesh. -/
def empty [Inhabited V] (limits : Limits) : QuadCollapseMesh V :=
  { limits, verts := fun _ => { originalVertex := default, interpolatedVertex := default } }

def modifyVert (m : QuadCollapseMesh V) (i : Nat) (f : VertNode V → VertNode V) :
    QuadCollapseMesh V :=
  { m with verts := Function.update m.verts i (f (m.verts i)) }

def modifyQuad (m : QuadCollapseMesh V) (q : QuadPtr) (f : QuadLeaf → QuadLeaf) :
    QuadCollapseMesh V :=
  { m with quads := Function.update m.quads q (f (m.quads q)) }

/-! ### `VertNode` and `QuadNode` -/

/-- `VertNode::addChild`. The source repeats its body, but returns at the first
test of the repetition, since the parent has just been set. -/
def addChild (m : QuadCollapseMesh V) (this child : Nat) : QuadCollapseMesh V :=
  if (m.verts child).parent = some this then m
  else if (m.verts child).level ≠ (m.verts this).level + 1 then m
  else
    let m := m.modifyVert child fun c => { c with parent := some this }
    if (m.verts child).nextSibling.isSome then m
    else
      match (m.verts this).firstChild with
      | some first =>
        (m.modifyVert child fun c => { c with nextSibling := some first }).modifyVert this
          fun v => { v with firstChild := some child }
      | none => m.modifyVert this fun v => { v with firstChild := some child }

/-- `VertNode::addAdjcentQuad`. -/
def addAdjcentQuad (m : QuadCollapseMesh V) (this : Nat) (quadNode : QuadPtr) :
    Except MeshFault (QuadCollapseMesh V) :=
  if quadNode ∈ (m.verts this).adjcentQuads then .ok m
  else if (m.verts this).adjcentQuads.length < 4 then
    .ok (m.modifyVert this fun v => { v with adjcentQuads := v.adjcentQuads ++ [quadNode] })
  else .error .overflow

/-- The loop of `VertNode::hasChild`. -/
def siblingsContain (m : QuadCollapseMesh V) (testNode : Nat) :
    Nat → Option Nat → Except MeshFault Bool
  | 0, _ => .error .outOfFuel
  | _ + 1, none => .ok false
  | fuel + 1, some child =>
    if child = testNode then .ok true
    else siblingsContain m testNode fuel (m.verts child).nextSibling

/-- `VertNode::hasChild`. -/
def hasChild (fuel : Nat) (m : QuadCollapseMesh V) (this testNode : Nat) :
    Except MeshFault Bool :=
  siblingsContain m testNode fuel (m.verts this).firstChild

/-- `QuadNode::isDiagonalConnected`. -/
def isDiagonalConnected (m : QuadCollapseMesh V) (quadNode : QuadPtr) (vn1 vn2 : Nat) : Bool :=
  let corner := (m.quads quadNode).cornerVertNodes
  match (m.quads quadNode).triangulationMode with
  | .nwSe => (vn1 = corner 1 && vn2 = corner 3) || (vn1 = corner 3 && vn2 = corner 1)
  | .swNe => (vn1 = corner 0 && vn2 = corner 2) || (vn1 = corner 2 && vn2 = corner 0)

/-! ### Pools -/

/-- `getVertNode`. The source logs a node of another level, unless in `init_mode`, and
goes on; it does not check the index. Both are faults here, so that a call that ends
has found a vertex in the block of its level. -/
def getVertNode (m : QuadCollapseMesh V) (level x y : Nat) (initMode : Bool) :
    Except MeshFault Nat :=
  let shift := m.maxLevel - level
  let rowStep := 2 ^ level + 1
  let result := m.vertNodesLevelOffset level + (y >>> shift) * rowStep + (x >>> shift)
  if level ≤ m.maxLevel ∧ x >>> shift < rowStep ∧ y >>> shift < rowStep ∧
      result < m.vertNodePoolSize then
    if initMode ∨ (m.verts result).level = level then .ok result else .error .wrongLevel
  else .error .outOfRange

/-- `allocQuadNode`, with the first use of the new node: a null pointer is
dereferenced at once. -/
def allocQuadNode (m : QuadCollapseMesh V) : Except MeshFault (Nat × QuadCollapseMesh V) :=
  if m.quadNodePoolAllocated < m.quadNodePoolSize then
    .ok (m.quadNodePoolAllocated, { m with quadNodePoolAllocated := m.quadNodePoolAllocated + 1 })
  else .error .nullptr

/-- `allocQuadLeaf`. -/
def allocQuadLeaf (m : QuadCollapseMesh V) : Except MeshFault (Nat × QuadCollapseMesh V) :=
  if m.quadLeafPoolAllocated < m.quadLeafPoolSize then
    .ok (m.quadLeafPoolAllocated, { m with quadLeafPoolAllocated := m.quadLeafPoolAllocated + 1 })
  else .error .nullptr

/-! ### `collapseQuad` -/

/-- The vertices that `collapseQuad` works on: the corners of the quad, and the
corners of its children by their place in the quad. -/
structure Patch where
  parent : Fin 4 → Nat
  bt : Nat
  rt : Nat
  tp : Nat
  lf : Nat
  ct : Nat
  sw : Nat
  se : Nat
  ne : Nat
  nw : Nat

/-- Read the patch off the quad and its children. -/
def patch (m : QuadCollapseMesh V) (quadNode : Nat) (children : Fin 4 → QuadPtr) : Patch :=
  let corner c := (m.quads (children c)).cornerVertNodes
  { parent := (m.quads (.node quadNode)).cornerVertNodes
    bt := corner 0 1
    rt := corner 1 2
    tp := corner 2 3
    lf := corner 3 0
    ct := corner 0 2
    sw := corner 0 0
    se := corner 1 1
    ne := corner 2 2
    nw := corner 3 3 }

/-- A vertex in the middle of an edge that has no parent yet becomes a child of
`vn1` if that is closer, else of `vn2`. -/
def collapseMiddle (closer : V → V → V → Bool) (m : QuadCollapseMesh V) (child vn1 vn2 : Nat) :
    QuadCollapseMesh V :=
  if (m.verts child).parent.isSome then m
  else if closer (m.verts child).originalVertex (m.verts vn1).originalVertex
      (m.verts vn2).originalVertex then m.addChild vn1 child
  else m.addChild vn2 child

/-- The corners that the middles of the edges were collapsed to. -/
structure MiddleTests where
  swLf : Bool
  swBt : Bool
  seBt : Bool
  seRt : Bool
  neRt : Bool
  neTp : Bool
  nwTp : Bool
  nwLf : Bool

/-- The `hasChild` tests of `collapseQuad`. They have no effects, so the order in
which the source makes them does not matter. -/
def middleTests (fuel : Nat) (m : QuadCollapseMesh V) (p : Patch) : Except MeshFault MiddleTests :=
  (hasChild fuel m (p.parent 0) p.lf).bind fun swLf =>
  (hasChild fuel m (p.parent 0) p.bt).bind fun swBt =>
  (hasChild fuel m (p.parent 1) p.bt).bind fun seBt =>
  (hasChild fuel m (p.parent 1) p.rt).bind fun seRt =>
  (hasChild fuel m (p.parent 2) p.rt).bind fun neRt =>
  (hasChild fuel m (p.parent 2) p.tp).bind fun neTp =>
  (hasChild fuel m (p.parent 3) p.tp).bind fun nwTp =>
  (hasChild fuel m (p.parent 3) p.lf).map fun nwLf =>
    { swLf, swBt, seBt, seRt, neRt, neTp, nwTp, nwLf }

/-- The corner closest to the center; the first one of several. -/
def closestParent (closer : V → V → V → Bool) (m : QuadCollapseMesh V) (p : Patch) : Fin 4 :=
  let original i := (m.verts i).originalVertex
  ([1, 2, 3] : List (Fin 4)).foldl (fun minParentIdx i =>
    if closer (original p.ct) (original (p.parent i)) (original (p.parent minParentIdx)) then i
    else minParentIdx) 0

/-- The corner of the quad that its center is collapsed to. -/
def centerParent (closer : V → V → V → Bool) (m : QuadCollapseMesh V)
    (children : Fin 4 → QuadPtr) (p : Patch) (t : MiddleTests) : Fin 4 :=
  let original i := (m.verts i).originalVertex
  let nearer (c d : Fin 4) : Fin 4 :=
    if closer (original p.ct) (original (p.parent c)) (original (p.parent d)) then c else d
  if t.swLf && t.swBt && t.neRt && t.neTp then nearer 0 2
  else if t.seBt && t.seRt && t.nwTp && t.nwLf then nearer 1 3
  else if t.swLf && t.swBt then 0
  else if t.seBt && t.seRt then 1
  else if t.neRt && t.neTp then 2
  else if t.nwTp && t.nwLf then 3
  else if m.isDiagonalConnected (children 0) p.ct p.sw then 0
  else if m.isDiagonalConnected (children 1) p.ct p.se then 1
  else if m.isDiagonalConnected (children 2) p.ct p.ne then 2
  else if m.isDiagonalConnected (children 3) p.ct p.nw then 3
  else closestParent closer m p

/-- The triangle layout of the quad. -/
def layout (m : QuadCollapseMesh V) (children : Fin 4 → QuadPtr) (p : Patch) (t : MiddleTests) :
    TriangulationMode :=
  let ctParent := (m.verts p.ct).parent
  if ctParent = some (p.parent 0) then
    if t.neTp || t.neRt || m.isDiagonalConnected (children 2) p.ct p.ne then .swNe else .nwSe
  else if ctParent = some (p.parent 1) then
    if t.nwTp || t.nwLf || m.isDiagonalConnected (children 3) p.ct p.nw then .nwSe else .swNe
  else if ctParent = some (p.parent 2) then
    if t.swBt || t.swLf || m.isDiagonalConnected (children 0) p.ct p.sw then .swNe else .nwSe
  else
    if t.seBt || t.seRt || m.isDiagonalConnected (children 1) p.ct p.se then .nwSe else .swNe

/-- The first half of `collapseQuad`: the corners and the middles of the edges. -/
def collapseEdges (closer : V → V → V → Bool) (m : QuadCollapseMesh V) (p : Patch) :
    QuadCollapseMesh V :=
  let m := collapseMiddle closer m p.bt (p.parent 1) (p.parent 0)
  let m := collapseMiddle closer m p.rt (p.parent 2) (p.parent 1)
  let m := collapseMiddle closer m p.tp (p.parent 2) (p.parent 3)
  collapseMiddle closer m p.lf (p.parent 3) (p.parent 0)

def collapseCorners (m : QuadCollapseMesh V) (p : Patch) : QuadCollapseMesh V :=
  (((m.addChild (p.parent 0) p.sw).addChild (p.parent 1) p.se).addChild (p.parent 2) p.ne).addChild
    (p.parent 3) p.nw

/-- `collapseQuad`. -/
def collapseQuad (closer : V → V → V → Bool) (fuel : Nat) (m : QuadCollapseMesh V)
    (quadNode : Nat) (children : Fin 4 → QuadPtr) : Except MeshFault (QuadCollapseMesh V) :=
  let p := m.patch quadNode children
  let m := m.collapseCorners p
  if (m.verts p.ct).parent.isSome then .ok m
  else
    let m := collapseEdges closer m p
    (middleTests fuel m p).bind fun t =>
    let m := m.addChild (p.parent (centerParent closer m children p t)) p.ct
    (middleTests fuel m p).map fun t =>
      m.modifyQuad (.node quadNode) fun q =>
        { q with triangulationMode := m.layout children p t }

/-! ### `build` -/

/-- The offset of a corner or of a child in units of the step: south-west,
south-east, north-east, north-west. -/
def dx : Fin 4 → Nat := ![0, 1, 1, 0]

def dy : Fin 4 → Nat := ![0, 0, 1, 1]

/-- The vertex nodes of the four corners of a quad. -/
def getCornerVertNodes (m : QuadCollapseMesh V) (level x0 y0 step : Nat) :
    Except MeshFault (Fin 4 → Nat) :=
  (m.getVertNode level x0 y0 false).bind fun v0 =>
  (m.getVertNode level (x0 + step) y0 false).bind fun v1 =>
  (m.getVertNode level (x0 + step) (y0 + step) false).bind fun v2 =>
  (m.getVertNode level x0 (y0 + step) false).map fun v3 => ![v0, v1, v2, v3]

/-- The leaf case of `recursiveBuildQuadNodes`. -/
def buildQuadLeaf (m : QuadCollapseMesh V) (level x0 y0 step : Nat) :
    Except MeshFault (QuadPtr × QuadCollapseMesh V) :=
  m.allocQuadLeaf.bind fun (i, m) =>
  (m.getCornerVertNodes level x0 y0 step).bind fun corners =>
  let m := m.modifyQuad (.leaf i) fun _ =>
    { level := level % 2 ^ m.limits.levelBits, cornerVertNodes := corners }
  (([0, 1, 2, 3] : List (Fin 4)).foldlM (fun (m : QuadCollapseMesh V) c =>
    if (m.verts (corners c)).level = level then m.addAdjcentQuad (corners c) (.leaf i)
    else .ok m) m).map fun m => (.leaf i, m)

/-- The first part of the other case: the node itself. -/
def buildQuadNode (m : QuadCollapseMesh V) (level x0 y0 step : Nat) :
    Except MeshFault (Nat × QuadCollapseMesh V) :=
  m.allocQuadNode.bind fun (i, m) =>
  (m.getVertNode (level + 1) (x0 + step / 2) (y0 + step / 2) false).bind fun center =>
  (m.getCornerVertNodes level x0 y0 step).bind fun corners =>
  let m := m.modifyQuad (.node i) fun q =>
    { level := level % 2 ^ m.limits.levelBits
      triangulationMode := q.triangulationMode
      cornerVertNodes := corners }
  let m := { m with inner := Function.update m.inner i { m.inner i with centerVertNode := center } }
  (([0, 1, 2, 3] : List (Fin 4)).foldlM (fun (m : QuadCollapseMesh V) c =>
    m.addAdjcentQuad (corners c) (.node i)) m).map fun m => (i, m)

/-- The links between a node and its children. -/
def linkChildren (m : QuadCollapseMesh V) (i : Nat) (children : Fin 4 → QuadPtr) :
    QuadCollapseMesh V :=
  let m := { m with
    inner := Function.update m.inner i { m.inner i with children := fun c => some (children c) } }
  ([0, 1, 2, 3] : List (Fin 4)).foldl (fun m c =>
    m.modifyQuad (children c) fun q => { q with parent := some i }) m

/-- `recursiveBuildQuadNodes`. -/
def recursiveBuildQuadNodes (closer : V → V → V → Bool) : Nat → QuadCollapseMesh V →
    (level x0 y0 step : Nat) → Except MeshFault (QuadPtr × QuadCollapseMesh V)
  | 0, _, _, _, _, _ => .error .outOfFuel
  | fuel + 1, m, level, x0, y0, step =>
    if step = 1 then m.buildQuadLeaf level x0 y0 step
    else
      let halfStep := step / 2
      (m.buildQuadNode level x0 y0 step).bind fun (i, m) =>
      (recursiveBuildQuadNodes closer fuel m (level + 1) x0 y0 halfStep).bind fun (c0, m) =>
      (recursiveBuildQuadNodes closer fuel m (level + 1) (x0 + halfStep) y0 halfStep).bind
        fun (c1, m) =>
      (recursiveBuildQuadNodes closer fuel m (level + 1) (x0 + halfStep) (y0 + halfStep)
        halfStep).bind fun (c2, m) =>
      (recursiveBuildQuadNodes closer fuel m (level + 1) x0 (y0 + halfStep) halfStep).bind
        fun (c3, m) =>
      let children := ![c0, c1, c2, c3]
      (collapseQuad closer fuel (m.linkChildren i children) i children).map fun m => (.node i, m)

/-- The values of `for (v = 0; v < length; v += step)`. -/
def forSteps (length step : Nat) : List Nat := (List.range ((length - 1) / step + 1)).map (· * step)

/-- The body of the loops of `buildVertNodes`. -/
def initVertNode (m : QuadCollapseMesh V) (level x y : Nat) :
    Except MeshFault (QuadCollapseMesh V) :=
  (m.getVertNode level x y true).bind fun i =>
    match m.vertices[y * m.maxLevelVerticesLength + x]? with
    | none => .error .outOfRange
    | some v => .ok (m.modifyVert i fun _ =>
        { level := level % 2 ^ m.limits.levelBits, originalVertex := v, interpolatedVertex := v })

/-- The loops of `buildVertNodes` from a level on. -/
def initVertNodes (m : QuadCollapseMesh V) (level step : Nat) :
    Except MeshFault (QuadCollapseMesh V) :=
  if h : step = 0 then .ok m
  else
    let range := forSteps m.maxLevelVerticesLength step
    (range.foldlM (fun m y => range.foldlM (fun m x => initVertNode m level x y) m) m).bind fun m =>
      initVertNodes m (level + 1) (step / 2)
termination_by step
decreasing_by omega

/-- `buildVertNodes`. -/
def buildVertNodes (m : QuadCollapseMesh V) : Except MeshFault (QuadCollapseMesh V) :=
  let last := m.maxLevelVerticesLength - 1
  (m.initVertNodes 0 last).bind fun m =>
  (m.getCornerVertNodes 0 0 0 last).map fun roots =>
    { m with rootVertNodes := fun i => some (roots i) }

/-- The six indices of a cell of the full mesh. -/
def cellIndices (width x y : Nat) : List Nat :=
  let a := x * width + y
  let b := (x + 1) * width + y
  let c := (x + 1) * width + (y + 1)
  let d := x * width + (y + 1)
  [c, b, a, a, d, c]

/-- The indices that `build` writes; the test leaves out the last cell. -/
def buildIndices (width height : Nat) : List Nat :=
  let numIndices := (width - 1) * (height - 1) * 6
  (List.range (width - 1)).foldl (fun indices x =>
    (List.range (height - 1)).foldl (fun indices y =>
      if indices.length < numIndices - 6 then indices ++ cellIndices width x y
      else indices) indices) []

/-- `std::vector::resize`. -/
def resized {α : Type} (l : List α) (n : Nat) (a : α) : List α :=
  l.take n ++ List.replicate (n - l.length) a

/-- The number of levels: how often `temp` can be halved. -/
def levelCount (temp : Nat) : Nat := if h : temp = 0 then 0 else levelCount (temp / 2) + 1
termination_by temp
decreasing_by omega

/-- The variables of the loop that sizes the pools. -/
structure PoolSizes where
  quadCountPerEdge : Nat := 1
  vertCountPerEdge : Nat := 2
  quadLeafPoolSize : Nat := 0
  quadNodePoolSize : Nat := 0
  vertNodePoolSize : Nat := 0
  vertNodesLevelOffset : Nat → Nat

/-- The body of that loop. -/
def PoolSizes.addLevel (levels : Nat) (s : PoolSizes) (i : Nat) : PoolSizes where
  quadLeafPoolSize :=
    if i = levels - 1 then s.quadCountPerEdge * s.quadCountPerEdge else s.quadLeafPoolSize
  quadNodePoolSize :=
    if i = levels - 1 then s.quadNodePoolSize
    else s.quadNodePoolSize + s.quadCountPerEdge * s.quadCountPerEdge
  vertNodesLevelOffset := Function.update s.vertNodesLevelOffset i s.vertNodePoolSize
  vertNodePoolSize := s.vertNodePoolSize + s.vertCountPerEdge * s.vertCountPerEdge
  quadCountPerEdge := 2 * s.quadCountPerEdge
  vertCountPerEdge := s.vertCountPerEdge + s.vertCountPerEdge - 1

def poolSizes (levels : Nat) (vertNodesLevelOffset : Nat → Nat) : PoolSizes :=
  (List.range levels).foldl (PoolSizes.addLevel levels) { vertNodesLevelOffset }

/-- The part of `build` before the checks: the full mesh. -/
def setMesh (m : QuadCollapseMesh V) (vertices : List V) (width height : Nat) :
    QuadCollapseMesh V :=
  let numIndices := (width - 1) * (height - 1) * 6
  let written := buildIndices width height
  let indices := written ++ (resized m.indices numIndices 0).drop written.length
  { m with
    vertices := vertices
    lodIndices := m.lodIndices ++ List.range vertices.length
    indices := indices
    size := numIndices
    indexBuffer := indices
    vertexBuffer := []
    maxLevelVerticesLength := width }

/-- The part of `build` that resizes the pools. -/
def resizePools [Inhabited V] (m : QuadCollapseMesh V) (levels : Nat) : QuadCollapseMesh V :=
  let sizes := poolSizes levels m.vertNodesLevelOffset
  { m with
    maxLevel := levels - 1
    vertNodesLevelOffset := sizes.vertNodesLevelOffset
    vertNodePoolSize := sizes.vertNodePoolSize
    verts := fun i =>
      if i < m.vertNodePoolSize ∧ i < sizes.vertNodePoolSize then m.verts i
      else { originalVertex := default, interpolatedVertex := default }
    quadNodePoolSize := sizes.quadNodePoolSize
    quadLeafPoolSize := sizes.quadLeafPoolSize
    quads := fun
      | .node i => if i < m.quadNodePoolSize ∧ i < sizes.quadNodePoolSize then m.quads (.node i)
        else {}
      | .leaf i => if i < m.quadLeafPoolSize ∧ i < sizes.quadLeafPoolSize then m.quads (.leaf i)
        else {}
    inner := fun i =>
      if i < m.quadNodePoolSize ∧ i < sizes.quadNodePoolSize then m.inner i else {} }

/-- `build`. -/
def build [Inhabited V] (closer : V → V → V → Bool) (fuel : Nat) (m : QuadCollapseMesh V)
    (vertices : List V) (width height : Nat) : Except MeshFault (Bool × QuadCollapseMesh V) :=
  let m := m.setMesh vertices width height
  if m.maxLevelVerticesLength < 2 then .ok (false, m)
  else if m.limits.maxLength < m.maxLevelVerticesLength then .ok (false, m)
  else
    let levels := levelCount (m.maxLevelVerticesLength - 1)
    if m.limits.maxQuadLevelCount < levels then .ok (false, m)
    else
      (m.resizePools levels).buildVertNodes.bind fun m =>
      (recursiveBuildQuadNodes closer fuel m 0 0 0 (m.maxLevelVerticesLength - 1)).map
        fun (root, m) => (true, { m with rootQuadNode := some root })

/-! ### Marking -/

/-- What the distances of one frame decide: whether a vertex is within the active
distance of its level, and its interpolation with its parent. -/
structure FrameView (V : Type) where
  near : Nat → Bool
  interpolate : VertNode V → VertNode V → V

/-- A quad is marked. -/
def markQuad (m : QuadCollapseMesh V) (quadNode : QuadPtr) (state : NodeState) :
    QuadCollapseMesh V :=
  { m.modifyQuad quadNode fun q => { q with activeFrame := m.updateFrame % 2 ^ 26, state } with
    markedQuads := m.markedQuads ++ [quadNode] }

/-- A vertex is marked. -/
def markVert (m : QuadCollapseMesh V) (vertNode : Nat) : QuadCollapseMesh V :=
  { m.modifyVert vertNode fun v =>
      { v with activeFrame := m.updateFrame % 2 ^ 24, state := .boundary } with
    visits := m.visits ++ [vertNode] }

/-- The loop of `quadNodeSetBoundary` over the ancestors of the quad. -/
def activateParents : Nat → QuadCollapseMesh V → Option Nat →
    Except MeshFault (QuadCollapseMesh V)
  | 0, _, _ => .error .outOfFuel
  | _ + 1, m, none => .ok m
  | fuel + 1, m, some p =>
    if (m.quads (.node p)).activeFrame = m.updateFrame ∧ (m.quads (.node p)).state = .active then
      .ok m
    else
      activateParents fuel (m.markQuad (.node p) .active) (m.quads (.node p)).parent

/-- `quadNodeSetBoundary`. -/
def quadNodeSetBoundary (fuel : Nat) (m : QuadCollapseMesh V) (quadNode : QuadPtr) :
    Except MeshFault (QuadCollapseMesh V) :=
  if (m.quads quadNode).activeFrame = m.updateFrame ∧ (m.quads quadNode).state = .active then .ok m
  else
    activateParents fuel (m.markQuad quadNode .boundary) (m.quads quadNode).parent

/-- A vertex whose children are not in use: its place is set, and its quads are at
the border. -/
def setBoundary (fuel : Nat) (m : QuadCollapseMesh V) (vertNode : Nat) (interpolated : V) :
    Except MeshFault (QuadCollapseMesh V) :=
  (m.verts vertNode).adjcentQuads.foldlM (quadNodeSetBoundary fuel)
    (m.modifyVert vertNode fun v => { v with interpolatedVertex := interpolated })

/-- The loop of `recursiveUpdateVertNode` over the children. -/
def forSiblings (visit : QuadCollapseMesh V → Nat → Except MeshFault (QuadCollapseMesh V)) :
    Nat → QuadCollapseMesh V → Option Nat → Except MeshFault (QuadCollapseMesh V)
  | 0, _, _ => .error .outOfFuel
  | _ + 1, m, none => .ok m
  | fuel + 1, m, some child =>
    (visit m child).bind fun m => forSiblings visit fuel m (m.verts child).nextSibling

/-- `recursiveUpdateVertNode`. -/
def recursiveUpdateVertNode (view : FrameView V) : Nat → QuadCollapseMesh V → Nat →
    Except MeshFault (QuadCollapseMesh V)
  | 0, _, _ => .error .outOfFuel
  | fuel + 1, m, vertNode =>
    if (m.verts vertNode).activeFrame = m.updateFrame then .ok m
    else
      let m := m.markVert vertNode
      let v := m.verts vertNode
      if view.near vertNode then
        match v.firstChild with
        | some child =>
          forSiblings (recursiveUpdateVertNode view fuel) fuel
            (m.modifyVert vertNode fun v => { v with state := .active }) (some child)
        | none => setBoundary fuel m vertNode v.originalVertex
      else
        match v.parent with
        | some p => setBoundary fuel m vertNode (view.interpolate v (m.verts p))
        | none => setBoundary fuel m vertNode v.originalVertex

/-! ### The active mesh -/

/-- The loop of `addActiveVertNode`: the nearest ancestor in use. -/
def activeAncestor (m : QuadCollapseMesh V) : Nat → Option Nat → Except MeshFault (Option Nat)
  | 0, _ => .error .outOfFuel
  | _ + 1, none => .ok none
  | fuel + 1, some p =>
    if (m.verts p).activeFrame = m.updateFrame then .ok (some p)
    else activeAncestor m fuel (m.verts p).parent

/-- `addActiveVertNode`: the `VertNode` whose `interpolatedVertex` is appended to
`activeVertices`, if any. -/
def addActiveVertNode (fuel : Nat) (m : QuadCollapseMesh V) (vertNode : Nat) :
    Except MeshFault (Option Nat) :=
  if (m.verts vertNode).activeFrame = m.updateFrame then .ok (some vertNode)
  else activeAncestor m fuel (m.verts vertNode).parent

/-- The corners of the two triangles of a quad, in order. -/
def triangles : TriangulationMode → List (Fin 4)
  | .swNe => [0, 1, 2, 0, 2, 3]
  | .nwSe => [0, 1, 3, 1, 2, 3]

/-- The vertices that a quad appends. -/
def emit (fuel : Nat) (m : QuadCollapseMesh V) (quadNode : QuadPtr) : Except MeshFault Emission :=
  let q := m.quads quadNode
  ((triangles q.triangulationMode).foldlM (fun pushes c =>
    (addActiveVertNode fuel m (q.cornerVertNodes c)).map fun
      | some v => pushes ++ [(c, v)]
      | none => pushes) []).map fun pushes => { quad := quadNode, pushes }

/-- `recursiveSetActiveMesh`: what is appended to `activeVertices`, by quads. -/
def recursiveSetActiveMesh : Nat → QuadCollapseMesh V → Option QuadPtr →
    Except MeshFault (List Emission)
  | 0, _, _ => .error .outOfFuel
  | _ + 1, _, none => .ok []
  | fuel + 1, m, some quadNode =>
    if (m.quads quadNode).activeFrame = m.updateFrame then
      if (m.quads quadNode).state = .boundary then (emit fuel m quadNode).map ([·])
      else
        match quadNode with
        | .leaf _ => .error .pastLeaf
        | .node i =>
          ([0, 1, 2, 3] : List (Fin 4)).foldlM (fun emitted c =>
            (recursiveSetActiveMesh fuel m ((m.inner i).children c)).map (emitted ++ ·)) []
    else (emit fuel m quadNode).map ([·])

/-! ### `update` -/

/-- The loop of `update` over the root vertices. -/
def updateVertNodes (view : FrameView V) (fuel : Nat) (m : QuadCollapseMesh V) :
    Except MeshFault (QuadCollapseMesh V) :=
  ([0, 1, 2, 3] : List (Fin 4)).foldlM (fun m i =>
    match m.rootVertNodes i with
    | none => .error .nullptr
    | some root =>
      recursiveUpdateVertNode view fuel
        (m.modifyVert root fun v => { v with interpolatedVertex := v.originalVertex }) root) m

/-- The end of `update`: the active mesh is uploaded. -/
def uploadActive (m : QuadCollapseMesh V) (emitted : List Emission) : QuadCollapseMesh V :=
  let activeVertices := (emitted.flatMap Emission.pushes).map fun push =>
    (m.verts push.2).interpolatedVertex
  let m := { m with activeQuads := emitted, activeVertices := activeVertices }
  if activeVertices.length = 0 then m
  else
    { m with
      vertexBuffer := activeVertices
      size := activeVertices.length
      indexBuffer := if m.indexBuffer.length = m.lodIndices.length then m.indexBuffer
        else m.lodIndices }

/-- The update without levels of detail. -/
def uploadFull (m : QuadCollapseMesh V) : QuadCollapseMesh V :=
  if m.vertices.length = m.vertexBuffer.length then m
  else
    { m with
      vertexBuffer := m.vertices
      size := m.indices.length
      indexBuffer := if m.indexBuffer.length = m.indices.length then m.indexBuffer else m.indices }

/-- `setLod`. -/
def setLod (m : QuadCollapseMesh V) (lod : Bool) : QuadCollapseMesh V := { m with lod := lod }

/-- `update`. -/
def update (view : FrameView V) (fuel : Nat) (m : QuadCollapseMesh V) :
    Except MeshFault (QuadCollapseMesh V) :=
  let m := { m with updateFrame := (m.updateFrame + 1) % 2 ^ 32, visits := [], markedQuads := [] }
  if m.lod then
    (updateVertNodes view fuel m).bind fun m =>
      (recursiveSetActiveMesh fuel m m.rootQuadNode).map (uploadActive m)
  else .ok m.uploadFull

end QuadCollapseMesh

end Maple.Terrain
