import Mathlib.Algebra.Group.Defs
import Maple.Scene.Hierarchy

/-!
# Maple.Scene.SceneGraph

`Scene/SceneGraph.cpp` and the part of `Scene/Component/Transform.cpp` it uses:
world matrices are recomputed from local matrices, from the roots down.

Matrices are elements of a monoid `M`. A dirty transform recomputes its local
matrix from its local position, orientation and scale (`L`) by `compose`, which
stands for the body of `updateLocalMatrix`. The order in which a registry view
enumerates its entities is up to EnTT: `update` takes the enumerations of its two
views as arguments.
-/

namespace Maple

/-- `Transform`: local position, orientation and scale, the two matrices and the
two flags. -/
structure Transform (L M : Type) where
  components : L
  localMatrix : M
  worldMatrix : M
  dirty : Bool := false
  hasUpdate : Bool := false
  deriving DecidableEq, Repr

variable {L M : Type}

namespace Transform

variable (compose : L → M)

/-- `Transform::updateLocalMatrix`. -/
def updateLocalMatrix (t : Transform L M) : Transform L M :=
  { t with localMatrix := compose t.components, dirty := false, hasUpdate := true }

/-- `if (dirty) updateLocalMatrix();` -/
def refresh (t : Transform L M) : Transform L M :=
  if t.dirty then t.updateLocalMatrix compose else t

/-- `Transform::getWorldMatrix`, which may refresh the transform. -/
def getWorldMatrix (t : Transform L M) : M × Transform L M :=
  let t := t.refresh compose
  (t.worldMatrix, t)

/-- `Transform::setWorldMatrix`. -/
def setWorldMatrix [Mul M] (t : Transform L M) (mat : M) : Transform L M :=
  let t := t.refresh compose
  { t with worldMatrix := mat * t.localMatrix }

/-- The local matrix once it is up to date. -/
def effective (t : Transform L M) : M := (t.refresh compose).localMatrix

end Transform

/-- The state of an update: the registry, and the entities on whose transform
`setWorldMatrix` has been called. -/
structure Sweep (L M : Type) where
  registry : Registry (Transform L M)
  written : List Handle

namespace SceneGraph

open Hierarchy

variable [Monoid M] (compose : L → M)

/-- `setWorldMatrix` on the transform of `e`. -/
def setWorldMatrix (s : Sweep L M) (e : Handle) (mat : M) : Sweep L M :=
  match s.registry.transform e with
  | none => s
  | some t =>
    { registry := s.registry.putTransform e (t.setWorldMatrix compose mat)
      written := s.written ++ [e] }

/-- The part of `updateTransform` before the loop over the children. -/
def updateNode (s : Sweep L M) (entity : Handle) (hierarchyComponent : Hierarchy) :
    Except Fault (Sweep L M) :=
  (s.registry.tryGetTransform entity).bind fun
    | none => .ok s
    | some _ =>
      match hierarchyComponent.parent with
      | none => .ok (setWorldMatrix compose s entity 1)
      | some parent =>
        (s.registry.tryGetTransform parent).map fun
          | none => s
          | some parentTransform =>
            let (world, parentTransform) := parentTransform.getWorldMatrix compose
            setWorldMatrix compose
              { s with registry := s.registry.putTransform parent parentTransform } entity world

/-- `SceneGraph::updateTransform`. -/
def updateTransform : Nat → Sweep L M → Handle → Except Fault (Sweep L M)
  | 0, _, _ => .error .outOfFuel
  | fuel + 1, s, entity =>
    (s.registry.tryGet entity).bind fun
      | none => .ok s
      | some hierarchyComponent =>
        (updateNode compose s entity hierarchyComponent).bind fun s =>
          forChildren Sweep.registry (updateTransform fuel) fuel s hierarchyComponent.first

/-- The body of the first loop of `update`. -/
def updateFree (s : Sweep L M) (entity : Handle) : Except Fault (Sweep L M) :=
  (s.registry.tryGetTransform entity).bind fun
    | none => .error .assertion
    | some _ => .ok (setWorldMatrix compose s entity 1)

/-- The body of the second loop of `update`. -/
def updateRoot (fuel : Nat) (s : Sweep L M) (entity : Handle) : Except Fault (Sweep L M) :=
  (s.registry.tryGet entity).bind fun
    | none => .ok s
    | some hierarchy =>
      match hierarchy.parent with
      | none => updateTransform compose fuel s entity
      | some _ => .ok s

/-- `SceneGraph::update`; the two views are given by their enumerations. -/
def update (fuel : Nat) (nonHierarchyView view : List Handle)
    (r : Registry (Transform L M)) : Except Fault (Sweep L M) :=
  (nonHierarchyView.foldlM (updateFree compose) { registry := r, written := [] }).bind fun s =>
    view.foldlM (updateRoot compose fuel) s

end SceneGraph

/-- `l` enumerates the entities with the property `p`, each once. -/
def Enumerates (p : Handle → Prop) (l : List Handle) : Prop := l.Nodup ∧ ∀ e, e ∈ l ↔ p e

/-- `l` enumerates `registry.view<Transform>(entt::exclude<Hierarchy>)`. -/
def IsNonHierarchyView (r : Registry (Transform L M)) (l : List Handle) : Prop :=
  Enumerates (fun e => (r.transform e).isSome ∧ ¬ r.Has e) l

/-- `l` enumerates `registry.view<Transform, Hierarchy>()`. -/
def IsView (r : Registry (Transform L M)) (l : List Handle) : Prop :=
  Enumerates (fun e => (r.transform e).isSome ∧ r.Has e) l

end Maple
