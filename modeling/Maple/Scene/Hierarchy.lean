import Maple.Scene.Registry

/-!
# Maple.Scene.Hierarchy

The scene hierarchy: `Scene/Component/Component.cpp` (the listeners of the
`Hierarchy` pool and `reparent`), `Scene/Entity/Entity.cpp` and the operations
of `Editor/HierarchyWindow.cpp` on it.

The children of an entity form a doubly linked list through the components of
the children: `first` names the first child, `next` and `prev` the siblings.

Loops and recursions take fuel. References to components are read again where
the source goes through the reference: `assign` writes to the component that is
in the pool. `onConstruct` may move the components when it creates the one of
the parent; it does not use its own reference afterwards in that case.
-/

namespace Maple

variable {T : Type}

namespace Hierarchy

/-- The loop of `onConstruct`: the last of the siblings from `prevEnt` on. -/
def lastSibling : Nat → Registry T → Handle → Except Fault Handle
  | 0, _, _ => .error .outOfFuel
  | fuel + 1, r, prevEnt =>
    (r.tryGet prevEnt).bind fun
      | none => .error .nullptr
      | some currentHierarchy =>
        match currentHierarchy.next with
        | none => .ok prevEnt
        | some next => lastSibling fuel r next

/-- `Hierarchy::onConstruct`: append the entity to the children of its parent. -/
def onConstruct : Nat → Registry T → Handle → Except Fault (Registry T)
  | 0, _, _ => .error .outOfFuel
  | fuel + 1, r, entity =>
    (r.get entity).bind fun hierarchy =>
      match hierarchy.parent with
      | none => .ok r
      | some parent =>
        (r.getOrEmplace (onConstruct fuel) parent).bind fun r =>
        (r.get parent).bind fun parentHierarchy =>
          match parentHierarchy.first with
          | none => .ok (r.assign parent .first (some entity))
          | some first =>
            (lastSibling fuel r first).map fun prevEnt =>
              (r.assign prevEnt .next (some entity)).assign entity .prev (some prevEnt)

/-- `next`'s back link, set if there is a next sibling with a `Hierarchy`. -/
def linkBack (r : Registry T) (next prev : Option Handle) : Except Fault (Registry T) :=
  match next with
  | none => .ok r
  | some next =>
    (r.tryGet next).map fun
      | none => r
      | some _ => r.assign next .prev prev

/-- `Hierarchy::onDestroy`: take the entity out of the list of its siblings. -/
def onDestroy (r : Registry T) (entity : Handle) : Except Fault (Registry T) :=
  (r.get entity).bind fun hierarchy =>
    match hierarchy.prev.filter (r.Valid ·) with
    | none =>
      match hierarchy.parent.filter (r.Valid ·) with
      | none => .ok r
      | some parent =>
        (r.tryGet parent).bind fun
          | none => .ok r
          | some _ => linkBack (r.assign parent .first hierarchy.next) hierarchy.next none
    | some prev =>
      (r.tryGet prev).bind fun prevHierarchy =>
        linkBack (if prevHierarchy.isSome then r.assign prev .next hierarchy.next else r)
          hierarchy.next hierarchy.prev

/-- `Hierarchy::onUpdate`: the steps of `onDestroy`, without its checks that the
neighbours are valid. -/
def onUpdate (r : Registry T) (entity : Handle) : Except Fault (Registry T) :=
  (r.get entity).bind fun hierarchy =>
    match hierarchy.prev with
    | none =>
      match hierarchy.parent with
      | none => .ok r
      | some parent =>
        (r.tryGet parent).bind fun
          | none => .ok r
          | some _ => linkBack (r.assign parent .first hierarchy.next) hierarchy.next none
    | some prev =>
      (r.tryGet prev).bind fun prevHierarchy =>
        linkBack (if prevHierarchy.isSome then r.assign prev .next hierarchy.next else r)
          hierarchy.next hierarchy.prev

/-- `Hierarchy::reparent`. -/
def reparent (fuel : Nat) (r : Registry T) (ent : Handle) (parent : Option Handle) :
    Except Fault (Registry T) :=
  (onDestroy r ent).bind fun r =>
    let r := ((r.assign ent .parent none).assign ent .next none).assign ent .prev none
    match parent with
    | none => .ok r
    | some _ => onConstruct fuel (r.assign ent .parent parent) ent

/-- The loop of `Entity::isParent` and of `HierarchyWindow::isParentOfEntity`:
climb from `parent` until `ancestor` or the top is reached. -/
def climbsTo (ancestor : Handle) : Nat → Registry T → Option Handle → Except Fault Bool
  | 0, _, _ => .error .outOfFuel
  | _ + 1, _, none => .ok false
  | fuel + 1, r, some parent =>
    if parent = ancestor then .ok true
    else (r.tryGet parent).bind fun node => climbsTo ancestor fuel r (node.bind (·.parent))

/-- The test shared by `Entity::isParent` and `HierarchyWindow::isParentOfEntity`. -/
def isAbove (fuel : Nat) (r : Registry T) (node ancestor : Handle) : Except Fault Bool :=
  (r.tryGet node).bind fun
    | none => .ok false
    | some hierarchy => climbsTo ancestor fuel r hierarchy.parent

/-- `Hierarchy::compare`. The component of the parent is compared with the parent, not with
`rhs`, and the parent of `rhs` is read and not used. -/
def compare : Nat → Registry T → Hierarchy → Option Handle → Except Fault Bool
  | 0, _, _, _ => .error .outOfFuel
  | _ + 1, _, _, none => .ok true
  | fuel + 1, r, hierarchy, some rhs =>
    if some rhs = hierarchy.parent ∨ some rhs = hierarchy.prev then .ok true
    else
      match hierarchy.parent with
      | none => .ok false
      | some parent =>
        (r.get parent).bind fun thisParent =>
        (r.get rhs).bind fun _ => compare fuel r thisParent (some parent)

/-- The loop over the children of a node shared by `HierarchyWindow::destroyEntity`
and `SceneGraph::updateTransform`: the next sibling is read before the child is
visited. -/
def forChildren {σ : Type} (registry : σ → Registry T) (visit : σ → Handle → Except Fault σ) :
    Nat → σ → Option Handle → Except Fault σ
  | 0, _, _ => .error .outOfFuel
  | _ + 1, s, none => .ok s
  | fuel + 1, s, some child =>
    ((registry s).tryGet child).bind fun hierarchy =>
    (visit s child).bind fun s =>
      forChildren registry visit fuel s (hierarchy.bind (·.next))

end Hierarchy

/-! ### `Entity` -/

namespace Entity

open Hierarchy

/-- `Entity::isParent`: `potentialParent` is an ancestor of the entity. -/
def isParent (fuel : Nat) (r : Registry T) (entityHandle potentialParent : Handle) :
    Except Fault Bool :=
  isAbove fuel r entityHandle potentialParent

/-- The check of `Entity::setParent`. The last comparison is with the handle of
the entity itself, not with the new parent. -/
def acceptable (fuel : Nat) (r : Registry T) (entityHandle entity : Handle) :
    Option Hierarchy → Except Fault Bool
  | some hierarchy =>
    if entity = entityHandle then .ok false
    else (isParent fuel r entity entityHandle).map fun above =>
      !above && decide (hierarchy.parent ≠ some entityHandle)
  | none => .ok (decide (entity ≠ entityHandle))

/-- `Entity::setParent`. -/
def setParent (fuel : Nat) (r : Registry T) (entityHandle entity : Handle) :
    Except Fault (Registry T) :=
  (r.tryGet entityHandle).bind fun hierarchyComponent =>
  (acceptable fuel r entityHandle entity hierarchyComponent).bind fun acceptable =>
    if acceptable then
      match hierarchyComponent with
      | some _ => reparent fuel r entityHandle (some entity)
      | none => r.emplace (onConstruct fuel) entityHandle { parent := some entity }
    else .ok r

/-- `Entity::addOrReplaceComponent<Hierarchy>(parent)`. -/
def addOrReplaceComponent (fuel : Nat) (r : Registry T) (entityHandle parent : Handle) :
    Except Fault (Registry T) :=
  r.emplaceOrReplace (onConstruct fuel) onUpdate entityHandle { parent := some parent }

/-- `Entity::getParent`. -/
def getParent (r : Registry T) (entityHandle : Handle) : Except Fault (Option Handle) :=
  (r.tryGet entityHandle).map fun hierarchyComp => hierarchyComp.bind (·.parent)

/-- The loop of `Entity::getChildren`. A child without a `Hierarchy` is visited
again and again. -/
def collect : Nat → Registry T → Option Handle → Except Fault (List Handle)
  | 0, _, _ => .error .outOfFuel
  | _ + 1, _, none => .ok []
  | fuel + 1, r, some child =>
    if r.Valid child then
      (r.tryGet child).bind fun hierarchyComponent =>
        (collect fuel r (match hierarchyComponent with
          | some h => h.next
          | none => some child)).map (child :: ·)
    else .ok []

/-- `Entity::getChildren`. -/
def getChildren (fuel : Nat) (r : Registry T) (entityHandle : Handle) :
    Except Fault (List Handle) :=
  (r.tryGet entityHandle).bind fun
    | none => .ok []
    | some hierarchyComponent => collect fuel r hierarchyComponent.first

/-- `Entity::removeComponent<Hierarchy>`. -/
def removeComponent (r : Registry T) (entityHandle : Handle) : Except Fault (Registry T) :=
  r.remove onDestroy entityHandle

/-- `Entity::destroy`. -/
def destroy (r : Registry T) (entityHandle : Handle) : Except Fault (Registry T) :=
  r.destroy onDestroy entityHandle

end Entity

/-! ### `HierarchyWindow` -/

namespace HierarchyWindow

open Hierarchy

/-- `HierarchyWindow::isParentOfEntity`: `entity` is an ancestor of `child`. -/
def isParentOfEntity (fuel : Nat) (r : Registry T) (entity child : Handle) : Except Fault Bool :=
  isAbove fuel r child entity

/-- The check made before `entity` may be dropped on `node`. -/
def acceptable (fuel : Nat) (r : Registry T) (entity node : Handle) :
    Option Hierarchy → Except Fault Bool
  | some hierarchy =>
    if entity = node then .ok false
    else (isParentOfEntity fuel r entity node).map fun above =>
      !above && decide (hierarchy.parent ≠ some node)
  | none => .ok (decide (entity ≠ node))

/-- The drop of `entity` on `node` in `drawNode`. -/
def dropOnNode (fuel : Nat) (r : Registry T) (entity node : Handle) : Except Fault (Registry T) :=
  (r.tryGet entity).bind fun hierarchyComponent =>
  (acceptable fuel r entity node hierarchyComponent).bind fun acceptable =>
    if acceptable then
      match hierarchyComponent with
      | some _ => reparent fuel r entity (some node)
      | none => r.emplace (onConstruct fuel) entity { parent := some node }
    else .ok r

/-- The drop of `entity` on the header of the scene: `reparent` to null. -/
def dropOnHeader (r : Registry T) (entity : Handle) : Except Fault (Registry T) :=
  (r.tryGet entity).bind fun
    | none => .ok r
    | some _ => reparent 0 r entity none

/-- The drop of `entity` on empty space: it is accepted for an entity with a
parent, which is taken out of the hierarchy and loses its `Hierarchy`. -/
def dropOnEmptySpace (r : Registry T) (entity : Handle) : Except Fault (Registry T) :=
  (r.tryGet entity).bind fun
    | none => .ok r
    | some hierarchy =>
      match hierarchy.parent with
      | none => .ok r
      | some _ => (reparent 0 r entity none).bind fun r => Entity.removeComponent r entity

/-- `HierarchyWindow::destroyEntity`: delete a subtree. -/
def destroyEntity : Nat → Registry T → Handle → Except Fault (Registry T)
  | 0, _, _ => .error .outOfFuel
  | fuel + 1, r, entity =>
    (r.tryGet entity).bind fun hierarchyComponent =>
    (match hierarchyComponent with
      | none => Except.ok r
      | some hierarchy => forChildren id (destroyEntity fuel) fuel r hierarchy.first).bind fun r =>
    r.destroy onDestroy entity

end HierarchyWindow

end Maple
