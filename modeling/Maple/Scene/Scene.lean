import Maple.Scene.Hierarchy

/-!
# Maple.Scene.Scene

`Scene/Scene.cpp` with the parts of `EntityManager.cpp`, `SceneGraph.cpp`,
`Others/Serialization.cpp` and `Editor/HierarchyWindow.cpp` that create, edit,
save and load a scene.

Besides `Hierarchy`, an entity has the components listed in `ALL_COMPONENTS`.
Their values are opaque, apart from the name. What `Serialization::serialize`
writes is a snapshot of the registry, so a file is kept as the snapshot in it;
the decoder of the input archive is a parameter, which may stop with an
exception at any point of the load.
-/

namespace Maple

/-- The components of `ALL_COMPONENTS` other than `Hierarchy` and
`NameComponent`. -/
inductive Kind where
  | transform
  | active
  | camera
  | light
  | cameraController
  | model
  | meshRenderer
  | environment
  deriving DecidableEq, Repr

/-- The components of one entity, `Hierarchy` apart. -/
structure Components (V : Type) where
  name : Option String := none
  other : Kind → Option V := fun _ => none

namespace Components

variable {V : Type}

/-- The dependencies that the constructor of `Scene` declares: `get_or_emplace` of a
`Transform` when one of these components is constructed. -/
def needsTransform : Kind → Bool
  | .camera => true
  | .light => true
  | .meshRenderer => true
  | .model => true
  | _ => false

/-- `emplace` of a component; `initial` is a default constructed one. -/
def emplace (initial : Kind → V) (c : Components V) (k : Kind) (v : V) : Components V :=
  let c := { c with other := Function.update c.other k (some v) }
  if needsTransform k ∧ c.other .transform = none then
    { c with other := Function.update c.other .transform (some (initial .transform)) }
  else c

end Components

namespace Entities

/-- The identifiers in use, in the order of `registry.each`. -/
def alive (s : Entities) : List Handle :=
  (List.range s.versions.length).reverse.filterMap fun i =>
    if i ∈ s.destroyed then none else s.versions[i]?.map (Handle.mk i)

end Entities

/-- `Scene`. `connected` says whether `Hierarchy::onConstruct` is connected to
`on_construct<Hierarchy>`. -/
structure Scene (V : Type) where
  name : String
  filePath : String
  version : Int
  dirty : Bool
  connected : Bool
  registry : Registry (Components V)

/-- A file written by `Serialization::serialize`. -/
structure Snapshot (V : Type) where
  version : Int
  name : String
  registry : Registry (Components V)

/-- How the input archive leaves the scene: `threw` if it stopped with an exception. -/
structure LoadResult (V : Type) where
  threw : Bool
  name : String
  version : Int
  registry : Registry (Components V)

/-- How `Scene::loadFrom` ends; `aborted` is a failed assertion of the registry. -/
inductive LoadExit where
  | returned
  | threw
  | aborted (fault : Fault)
  deriving DecidableEq, Repr

namespace Scene

variable {V : Type}

/-- `Scene(name)`; `SceneGraph::init` connects the listeners. -/
def create (name : String) : Scene V where
  name := name
  filePath := ""
  version := 0
  dirty := false
  connected := true
  registry := .empty

/-! ### Creating entities -/

/-- `EntityManager::getEntityByName`. The callers below only ask whether there is one. -/
def getEntityByName (r : Registry (Components V)) (name : String) : Option Handle :=
  r.entities.alive.find? fun e => ((r.transform e).bind Components.name) = some name

/-- `EntityManager::create()`. -/
def createBlank (s : Scene V) : Except Fault (Handle × Scene V) :=
  (s.registry.create (some {})).map fun (e, r) => (e, { s with registry := r })

/-- `Scene::createEntity()`. -/
def createEntity (s : Scene V) : Except Fault (Handle × Scene V) :=
  createBlank { s with dirty := true }

/-- The name tried after `i` unsuccessful ones. -/
def candidate (name : String) (i : Nat) : String :=
  if i = 0 then name else name ++ "(" ++ toString i ++ ")"

/-- The loop of `Scene::createEntity(name)`: the first candidate from `i` on that is
not in use. -/
def freeName (r : Registry (Components V)) (name : String) : Nat → Nat → Except Fault String
  | 0, _ => .error .outOfFuel
  | fuel + 1, i =>
    match getEntityByName r (candidate name i) with
    | none => .ok (candidate name i)
    | some _ => freeName r name fuel (i + 1)

/-- `Scene::createEntity(name)`. -/
def createNamed (fuel : Nat) (s : Scene V) (name : String) : Except Fault (Handle × Scene V) :=
  (freeName s.registry name fuel 0).bind fun name =>
  (s.registry.create (some { name := some name })).map fun (e, r) =>
    (e, { s with dirty := true, registry := r })

/-! ### Editing -/

/-- The listener of `on_construct<Hierarchy>`. -/
def hook (s : Scene V) (fuel : Nat) (r : Registry (Components V)) (e : Handle) :
    Except Fault (Registry (Components V)) :=
  if s.connected then Hierarchy.onConstruct fuel r e else .ok r

theorem hook_connected {s : Scene V} (h : s.connected = true) (fuel : Nat) :
    s.hook fuel = Hierarchy.onConstruct fuel := by
  funext r e
  exact if_pos h

/-- `Entity::setParent`. An entity without a `Hierarchy` gets one, which is linked by
the listener. -/
def setParent (fuel : Nat) (s : Scene V) (e parent : Handle) : Except Fault (Scene V) :=
  (s.registry.tryGet e).bind fun hierarchyComponent =>
    (match hierarchyComponent with
      | some _ => Entity.setParent fuel s.registry e parent
      | none =>
        if parent ≠ e then s.registry.emplace (s.hook fuel) e { parent := some parent }
        else .ok s.registry).map fun r => { s with registry := r }

/-- `Scene::duplicateEntity(entity)`; `copyComponents` is not implemented. -/
def duplicateEntity (s : Scene V) (_entity : Handle) : Except Fault (Scene V) :=
  (createBlank { s with dirty := true }).map Prod.snd

/-- `Scene::duplicateEntity(entity, parent)`. -/
def duplicateUnder (fuel : Nat) (s : Scene V) (_entity : Handle) (parent : Option Handle) :
    Except Fault (Scene V) :=
  (createBlank { s with dirty := true }).bind fun (newEntity, s) =>
    match parent with
    | none => .ok s
    | some parent => s.setParent fuel newEntity parent

/-- A change of the registry that goes past the scene. -/
def edit (s : Scene V) (f : Registry (Components V) → Except Fault (Registry (Components V))) :
    Except Fault (Scene V) :=
  (f s.registry).map fun r => { s with registry := r }

/-- `Entity::destroy`. -/
def destroy (s : Scene V) (e : Handle) : Except Fault (Scene V) :=
  s.edit fun r => Entity.destroy r e

/-- `HierarchyWindow::destroyEntity`. -/
def destroyEntity (fuel : Nat) (s : Scene V) (e : Handle) : Except Fault (Scene V) :=
  s.edit fun r => HierarchyWindow.destroyEntity fuel r e

/-- A change of the components of an entity, `Hierarchy` apart. -/
def editComponents (s : Scene V) (e : Handle) (f : Components V → Components V) :
    Except Fault (Scene V) :=
  s.edit fun r => (r.tryGetTransform e).map fun c => r.putTransform e (f (c.getD {}))

/-- The rename in `HierarchyWindow::drawNode`. -/
def rename (s : Scene V) (e : Handle) (name : String) : Except Fault (Scene V) :=
  s.editComponents e fun c => { c with name := some name }

/-- The drop of `e` on `node` in `HierarchyWindow::drawNode`. -/
def dropOnNode (fuel : Nat) (s : Scene V) (e node : Handle) : Except Fault (Scene V) :=
  s.edit fun r => (r.tryGet e).bind fun
    | some _ => HierarchyWindow.dropOnNode fuel r e node
    | none =>
      if e ≠ node then r.emplace (s.hook fuel) e { parent := some node } else .ok r

/-- The drop of `e` on the header of the scene. -/
def dropOnHeader (s : Scene V) (e : Handle) : Except Fault (Scene V) :=
  s.edit fun r => HierarchyWindow.dropOnHeader r e

/-- The drop of `e` on empty space. -/
def dropOnEmptySpace (s : Scene V) (e : Handle) : Except Fault (Scene V) :=
  s.edit fun r => HierarchyWindow.dropOnEmptySpace r e

/-- `Add Child` in `HierarchyWindow::drawNode`: the entity manager creates the child,
not the scene. -/
def addChild (fuel : Nat) (s : Scene V) (node : Handle) : Except Fault (Scene V) :=
  s.createBlank.bind fun (child, s) => s.setParent fuel child node

/-! ### Saving and loading -/

/-- What `Serialization::serialize` writes. -/
def snapshot (s : Scene V) : Snapshot V := ⟨1, s.name, s.registry⟩

/-- The disk, by the files written to it. -/
abbrev Disk (V : Type) := String → Option (Snapshot V)

/-- `Scene::saveTo`. -/
def saveTo (delimiter : Char) (s : Scene V) (disk : Disk V) (path : String) :
    Scene V × Disk V :=
  if s.dirty then
    let filePath := if path ≠ "" ∧ path ≠ s.filePath then
      path ++ String.singleton delimiter ++ s.name ++ ".scene" else s.filePath
    let filePath := if filePath = "" then s.name ++ ".scene" else filePath
    let s := { s with filePath := filePath }
    ({ s with dirty := false }, Function.update disk filePath (some s.snapshot))
  else (s, disk)

/-- `EntityManager::clear`. -/
def clear (r : Registry (Components V)) : Except Fault (Registry (Components V)) :=
  r.entities.alive.foldlM (fun r e => r.destroy Hierarchy.onDestroy e) r

/-- `SceneGraph::disconnectOnConstruct`; connecting twice connects once. -/
def disconnectOnConstruct (s : Scene V) (disable : Bool) : Scene V :=
  { s with connected := !disable }

/-- `Scene::loadFrom`; `loadScene` is `Serialization::loadScene` on a file and a scene. -/
def loadFrom (loadScene : String → Scene V → LoadResult V) (s : Scene V) :
    LoadExit × Scene V :=
  if s.filePath ≠ "" then
    match clear s.registry with
    | .error fault => (.aborted fault, s)
    | .ok r =>
      let s := disconnectOnConstruct { s with registry := r } true
      let result := loadScene s.filePath s
      let s := { s with
        name := result.name, version := result.version, registry := result.registry }
      if result.threw then (.threw, s) else (.returned, s.disconnectOnConstruct false)
  else (.returned, s)

end Scene

end Maple
