import Maple.Lib.Fuel
import Maple.Scene.Hierarchy

/-!
# Maple.Scene.MeshRenderer

`Scene/Component/MeshRenderer.cpp`: **a loaded renderer cannot be saved as it is.**

`load` reads a mesh name and a material into fields of their own, and `save` writes the
name and the material of the mesh. The mesh comes from the `Model` of the entity or of
the nearest ancestor that has one: `getMesh` fetches it on first use and
`loadFromModel` fetches it and gives it the loaded material. What is saved is what was
loaded if `loadFromModel` has been called, or if `getMesh` has and the mesh had that
material anyway; without a call `save` reads through a null pointer
(`save_after_load_iff`).

Meshes are shared, so they are kept in a heap and are named by their address. Of a
material only its value is seen here.
-/

namespace Maple

open Lib

variable {M : Type}

/-- `PrimitiveType`. -/
inductive PrimitiveType where
  | plane
  | quad
  | cube
  | pyramid
  | sphere
  | capsule
  | cylinder
  | terrain
  | file
  deriving DecidableEq, Repr

/-- The fields of a `Mesh` that are saved. -/
structure Mesh (M : Type) where
  name : String := ""
  material : Option M := none

/-- `Model`; the resource is the map of a `MeshResource` from names to addresses. -/
structure Model where
  type : PrimitiveType
  resource : Option (String → Option Nat)

/-- The registry of the current scene, with the pool of `Model`, and the meshes in the
order of their creation. -/
structure ModelScene (M : Type) where
  registry : Registry Model
  meshes : List (Mesh M)

/-- What `MeshRenderer::save` writes. -/
structure SavedRenderer (M : Type) where
  meshName : String
  entity : Option Handle
  material : Option M

/-- `MeshRenderer`. -/
structure MeshRenderer (M : Type) where
  mesh : Option Nat := none
  meshName : String := ""
  material : Option M := none
  entity : Option Handle := none

namespace Entity

/-- The loop of `tryGetComponentFromParent`. -/
def climb (parent : Option Handle) : Nat → Registry Model → Except Fault (Option Model)
  | 0, _ => .error .outOfFuel
  | fuel + 1, r =>
    match parent.filter (r.Valid ·) with
    | none => .ok none
    | some p =>
      (r.tryGetTransform p).bind fun t =>
      (getParent r p).bind fun parent =>
        match t with
        | some t => .ok (some t)
        | none => climb parent fuel r

/-- `Entity::tryGetComponentFromParent<Model>`. -/
def tryGetComponentFromParent (fuel : Nat) (r : Registry Model) (entityHandle : Handle) :
    Except Fault (Option Model) :=
  (r.tryGetTransform entityHandle).bind fun
    | some t => .ok (some t)
    | none => (getParent r entityHandle).bind fun parent => climb parent fuel r

end Entity

namespace Mesh

/-- `Mesh::createCube`: a mesh without a name and a material. -/
def createCube (w : ModelScene M) : Nat × ModelScene M :=
  (w.meshes.length, { w with meshes := w.meshes ++ [{}] })

/-- `Mesh::createSphere`. -/
def createSphere (w : ModelScene M) : Nat × ModelScene M :=
  (w.meshes.length, { w with meshes := w.meshes ++ [{}] })

end Mesh

/-- `model->resource->find(name)`. -/
def Model.find (model : Model) (name : String) : Except Fault (Option Nat) :=
  match model.resource with
  | none => .error .nullptr
  | some resource => .ok (resource name)

namespace MeshRenderer

/-- `getMesh(name)`. -/
def fetchMesh (fuel : Nat) (w : ModelScene M) (c : MeshRenderer M) (name : String) :
    Except Fault (ModelScene M × MeshRenderer M) :=
  match c.entity with
  | none => .error .assertion
  | some entity =>
    (w.registry.tryGetTransform entity).bind fun
      | some model =>
        match model.type with
        | .cube => .ok ((Mesh.createCube w).2, { c with mesh := some (Mesh.createCube w).1 })
        | .sphere => .ok ((Mesh.createSphere w).2, { c with mesh := some (Mesh.createSphere w).1 })
        | .file => (model.find name).map fun mesh => (w, { c with mesh := mesh })
        | _ => .ok (w, c)
      | none =>
        (Entity.tryGetComponentFromParent fuel w.registry entity).bind fun
          | none => .error .nullptr
          | some model => (model.find name).map fun mesh => (w, { c with mesh := mesh })

/-- `getMesh()`, for its effect. -/
def getMesh (fuel : Nat) (w : ModelScene M) (c : MeshRenderer M) :
    Except Fault (ModelScene M × MeshRenderer M) :=
  match c.mesh with
  | none => fetchMesh fuel w c c.meshName
  | some _ => .ok (w, c)

/-- `mesh->setMaterial(material)`. -/
def setMaterial (w : ModelScene M) (mesh : Nat) (material : Option M) : ModelScene M :=
  { w with meshes := w.meshes.modify mesh fun m => { m with material := material } }

/-- `loadFromModel`. -/
def loadFromModel (fuel : Nat) (w : ModelScene M) (c : MeshRenderer M) :
    Except Fault (ModelScene M × MeshRenderer M) :=
  (fetchMesh fuel w c c.meshName).map fun (w, c) =>
    match c.mesh with
    | some mesh => (setMaterial w mesh c.material, c)
    | none => (w, c)

/-- `load`. -/
def load (c : MeshRenderer M) (saved : SavedRenderer M) : MeshRenderer M :=
  { c with meshName := saved.meshName, entity := saved.entity, material := saved.material }

/-- `save`. -/
def save (w : ModelScene M) (c : MeshRenderer M) : Except Fault (SavedRenderer M) :=
  match c.mesh.bind (w.meshes[·]?) with
  | none => .error .nullptr
  | some mesh => .ok ⟨mesh.name, c.entity, mesh.material⟩

/-- The calls between `load` and `save`. -/
inductive Call where
  | getMesh
  | loadFromModel
  deriving DecidableEq, Repr

def perform (fuel : Nat) (w : ModelScene M) (c : MeshRenderer M) :
    Call → Except Fault (ModelScene M × MeshRenderer M)
  | .getMesh => getMesh fuel w c
  | .loadFromModel => loadFromModel fuel w c

def performAll (fuel : Nat) : List Call → ModelScene M → MeshRenderer M →
    Except Fault (ModelScene M × MeshRenderer M)
  | [], w, c => .ok (w, c)
  | call :: calls, w, c => (perform fuel w c call).bind fun (w, c) => performAll fuel calls w c

/-! ### The mesh of an entity -/

/-- The `Model` of the nearest ancestor that has one. -/
inductive AncestorModel (r : Registry Model) : Handle → Model → Prop
  | parent {e p : Handle} {model : Model} : r.Valid e → r.link .parent e = some p → r.Valid p →
      r.transform p = some model → AncestorModel r e model
  | further {e p : Handle} {model : Model} : r.Valid e → r.link .parent e = some p → r.Valid p →
      r.transform p = none → AncestorModel r p model → AncestorModel r e model

/-- The resource holds a mesh of the name. -/
def Holds (w : ModelScene M) (model : Model) (name : String) (mesh : Mesh M) : Prop :=
  ∃ resource p, model.resource = some resource ∧ resource name = some p ∧
    w.meshes[p]? = some mesh ∧ mesh.name = name

/-- The entity's own model, or the nearest one above it, provides a mesh of the name. -/
inductive Provides (w : ModelScene M) (e : Handle) (name : String) : Mesh M → Prop
  | primitive {model : Model} : w.registry.Valid e → w.registry.transform e = some model →
      model.type = .cube ∨ model.type = .sphere → name = "" → Provides w e name {}
  | file {model : Model} {mesh : Mesh M} : w.registry.Valid e →
      w.registry.transform e = some model → model.type = .file → Holds w model name mesh →
      Provides w e name mesh
  | ancestor {model : Model} {mesh : Mesh M} : w.registry.Valid e →
      w.registry.transform e = none → AncestorModel w.registry e model →
      Holds w model name mesh → Provides w e name mesh

theorem Provides.name_eq {w : ModelScene M} {e : Handle} {name : String} {mesh : Mesh M}
    (h : Provides w e name mesh) : mesh.name = name := by
  cases h with
  | primitive _ _ _ hname => exact hname.symm
  | file _ _ _ hholds =>
      obtain ⟨-, -, -, -, -, hname⟩ := hholds
      exact hname
  | ancestor _ _ _ hholds =>
      obtain ⟨-, -, -, -, -, hname⟩ := hholds
      exact hname

theorem getParent_of_valid {r : Registry Model} {e : Handle} (hv : r.Valid e) :
    Entity.getParent r e = .ok (r.link .parent e) := by
  rw [Entity.getParent, Registry.tryGet_of_valid hv]
  rfl

/-- **The loop over the ancestors** finds the nearest one with a model. -/
theorem climb_settles {r : Registry Model} {e : Handle} {model : Model}
    (h : AncestorModel r e model) :
    Settles (fun fuel => Entity.climb (r.link .parent e) fuel r) (.ok (some model)) := by
  induction h with
  | @parent e p model hv hp hvp hmodel =>
      refine Settles.of_succ (Settles.of_forall fun fuel => ?_)
      rw [hp, Entity.climb, Option.filter_some, if_pos (by simpa using hvp)]
      simp only [Registry.tryGetTransform_of_valid hvp, hmodel, getParent_of_valid hvp, Except.bind]
  | @further e p model hv hp hvp hnone _ ih =>
      refine Settles.of_succ (ih.congr fun fuel => ?_)
      rw [hp, Entity.climb, Option.filter_some, if_pos (by simpa using hvp)]
      simp only [Registry.tryGetTransform_of_valid hvp, hnone, getParent_of_valid hvp, Except.bind]

theorem tryGetComponentFromParent_settles {r : Registry Model} {e : Handle} {model : Model}
    (hv : r.Valid e) (hnone : r.transform e = none) (h : AncestorModel r e model) :
    Settles (fun fuel => Entity.tryGetComponentFromParent fuel r e) (.ok (some model)) := by
  refine (climb_settles h).congr fun fuel => ?_
  rw [Entity.tryGetComponentFromParent, Registry.tryGetTransform_of_valid hv, hnone]
  simp only [getParent_of_valid hv, Except.bind]

/-! ### Fetching the mesh -/

/-- More meshes, and the registry as before. -/
theorem Provides.append {w : ModelScene M} {e : Handle} {name : String} {mesh : Mesh M}
    (h : Provides w e name mesh) (new : Mesh M) :
    Provides { w with meshes := w.meshes ++ [new] } e name mesh := by
  have hholds : ∀ {model : Model}, Holds w model name mesh →
      Holds { w with meshes := w.meshes ++ [new] } model name mesh := by
    intro model ⟨resource, p, hres, hp, hmesh, hname⟩
    have hlt : p < w.meshes.length := (List.getElem?_eq_some_iff.mp hmesh).1
    exact ⟨resource, p, hres, hp, (List.getElem?_append_left hlt).trans hmesh, hname⟩
  cases h with
  | primitive hv hmodel htype hname => exact .primitive hv hmodel htype hname
  | file hv hmodel htype h => exact .file hv hmodel htype (hholds h)
  | ancestor hv hnone hmodel h => exact .ancestor hv hnone hmodel (hholds h)

/-- **`getMesh(name)`** fetches the mesh that the model provides. -/
theorem fetchMesh_settles {w : ModelScene M} {c : MeshRenderer M} {e : Handle} {name : String}
    {mesh : Mesh M} (h : Provides w e name mesh) (hentity : c.entity = some e) :
    ∃ w' p, Settles (fun fuel => fetchMesh fuel w c name) (.ok (w', { c with mesh := some p })) ∧
      w'.meshes[p]? = some mesh ∧ Provides w' e name mesh := by
  have hfind : ∀ {model : Model}, Holds w model name mesh →
      ∃ p, model.find name = .ok (some p) ∧ w.meshes[p]? = some mesh := by
    intro model ⟨resource, p, hres, hp, hmesh, _⟩
    refine ⟨p, ?_, hmesh⟩
    rw [Model.find, hres]
    exact congrArg Except.ok hp
  cases h with
  | primitive hv hmodel htype hname =>
      refine ⟨{ w with meshes := w.meshes ++ [{}] }, w.meshes.length,
        Settles.of_forall fun fuel => ?_, by simp,
        Provides.append (.primitive hv hmodel htype hname) {}⟩
      rw [fetchMesh, hentity]
      obtain htype | htype := htype
      · simp only [Registry.tryGetTransform_of_valid hv, hmodel, Except.bind, htype]
        rfl
      · simp only [Registry.tryGetTransform_of_valid hv, hmodel, Except.bind, htype]
        rfl
  | file hv hmodel htype hholds =>
      obtain ⟨p, hp, hmesh⟩ := hfind hholds
      refine ⟨w, p, Settles.of_forall fun fuel => ?_, hmesh, .file hv hmodel htype hholds⟩
      rw [fetchMesh, hentity]
      simp only [Registry.tryGetTransform_of_valid hv, hmodel, Except.bind, htype, hp]
      rfl
  | ancestor hv hnone hmodel hholds =>
      obtain ⟨p, hp, hmesh⟩ := hfind hholds
      refine ⟨w, p, ?_, hmesh, .ancestor hv hnone hmodel hholds⟩
      have hclimb := tryGetComponentFromParent_settles hv hnone hmodel
      have hrun : Settles (fun fuel =>
          (Entity.tryGetComponentFromParent fuel w.registry e).bind fun
            | none => .error .nullptr
            | some model => (model.find name).map fun mesh => (w, { c with mesh := mesh }))
          (.ok (w, { c with mesh := some p })) :=
        hclimb.except_bind (Settles.of_forall fun _ => congrArg (Except.map _) hp)
      refine hrun.congr fun fuel => ?_
      rw [fetchMesh, hentity]
      simp only [Registry.tryGetTransform_of_valid hv, hnone, Except.bind]

/-- Assigning a material changes no name. -/
theorem Provides.setMaterial {w : ModelScene M} {e : Handle} {name : String} {mesh : Mesh M}
    (h : Provides w e name mesh) (p : Nat) (material : Option M) :
    ∃ mesh', Provides (setMaterial w p material) e name mesh' := by
  have hholds : ∀ {model : Model}, Holds w model name mesh →
      ∃ mesh', Holds (MeshRenderer.setMaterial w p material) model name mesh' := by
    intro model ⟨resource, q, hres, hq, hmesh, hname⟩
    by_cases hqp : p = q
    · refine ⟨{ mesh with material := material }, resource, q, hres, hq, ?_, hname⟩
      simp [MeshRenderer.setMaterial, hqp, hmesh]
    · refine ⟨mesh, resource, q, hres, hq, ?_, hname⟩
      simp [MeshRenderer.setMaterial, hqp, hmesh]
  cases h with
  | primitive hv hmodel htype hname => exact ⟨_, .primitive hv hmodel htype hname⟩
  | file hv hmodel htype h =>
      obtain ⟨mesh', h'⟩ := hholds h
      exact ⟨mesh', .file hv hmodel htype h'⟩
  | ancestor hv hnone hmodel h =>
      obtain ⟨mesh', h'⟩ := hholds h
      exact ⟨mesh', .ancestor hv hnone hmodel h'⟩

/-! ### Between `load` and `save` -/

/-- After the calls `done` on a renderer that was loaded from `saved`, where the model
provided `mesh` at first. -/
structure Loaded (saved : SavedRenderer M) (e : Handle) (mesh : Mesh M) (done : List Call)
    (w : ModelScene M) (c : MeshRenderer M) : Prop where
  meshName : c.meshName = saved.meshName
  entity : c.entity = saved.entity
  material : c.material = saved.material
  provides : ∃ mesh', Provides w e saved.meshName mesh'
  unused : done = [] → c.mesh = none ∧ Provides w e saved.meshName mesh
  used : done ≠ [] → ∃ p m, c.mesh = some p ∧ w.meshes[p]? = some m ∧ m.name = saved.meshName ∧
    m.material = if .loadFromModel ∈ done then saved.material else mesh.material

variable {saved : SavedRenderer M} {e : Handle} {mesh : Mesh M} {done : List Call}
  {w : ModelScene M} {c : MeshRenderer M}

theorem Loaded.getMesh (h : Loaded saved e mesh done w c) (hentity : saved.entity = some e) :
    ∃ w' c', Settles (fun fuel => getMesh fuel w c) (.ok (w', c')) ∧
      Loaded saved e mesh (done ++ [.getMesh]) w' c' := by
  cases done with
  | nil =>
      obtain ⟨hnone, hprovides⟩ := h.unused rfl
      rw [← h.meshName] at hprovides
      obtain ⟨w', p, hrun, hmesh, hprovides'⟩ :=
        fetchMesh_settles hprovides (h.entity.trans hentity)
      rw [h.meshName] at hprovides'
      refine ⟨w', { c with mesh := some p }, hrun.congr fun fuel => ?_, h.meshName, h.entity,
        h.material, ⟨_, hprovides'⟩, fun hnil => absurd hnil (by simp), fun _ => ?_⟩
      · rw [MeshRenderer.getMesh, hnone]
      · exact ⟨p, mesh, rfl, hmesh, hprovides'.name_eq, by simp⟩
  | cons first rest =>
      obtain ⟨p, m, hmesh, hm, hname, hmaterial⟩ := h.used (List.cons_ne_nil first rest)
      refine ⟨w, c, Settles.of_forall fun fuel => ?_, h.meshName, h.entity, h.material, h.provides,
        fun hnil => absurd hnil (by simp), fun _ => ⟨p, m, hmesh, hm, hname, ?_⟩⟩
      · rw [MeshRenderer.getMesh, hmesh]
      · simpa using hmaterial

theorem Loaded.loadFromModel (h : Loaded saved e mesh done w c) (hentity : saved.entity = some e) :
    ∃ w' c', Settles (fun fuel => loadFromModel fuel w c) (.ok (w', c')) ∧
      Loaded saved e mesh (done ++ [.loadFromModel]) w' c' := by
  obtain ⟨mesh', hprovides⟩ := h.provides
  rw [← h.meshName] at hprovides
  obtain ⟨w', p, hrun, hmesh, hprovides'⟩ := fetchMesh_settles hprovides (h.entity.trans hentity)
  rw [h.meshName] at hprovides'
  refine ⟨MeshRenderer.setMaterial w' p c.material, { c with mesh := some p },
    hrun.comp (Except.map _), h.meshName, h.entity, h.material,
    hprovides'.setMaterial p c.material, fun hnil => absurd hnil (by simp), fun _ => ?_⟩
  refine ⟨p, { mesh' with material := c.material }, rfl, ?_, hprovides'.name_eq, ?_⟩
  · simp [MeshRenderer.setMaterial, hmesh]
  · simpa using h.material

/-- **Every sequence of calls ends.** -/
theorem Loaded.performAll (h : Loaded saved e mesh done w c) (hentity : saved.entity = some e)
    (calls : List Call) :
    ∃ w' c', Settles (fun fuel => performAll fuel calls w c) (.ok (w', c')) ∧
      Loaded saved e mesh (done ++ calls) w' c' := by
  induction calls generalizing done w c with
  | nil => exact ⟨w, c, Settles.of_forall fun _ => rfl, by simpa using h⟩
  | cons call calls ih =>
      obtain ⟨w₁, c₁, hfirst, h₁⟩ : ∃ w₁ c₁, Settles (fun fuel => perform fuel w c call)
          (.ok (w₁, c₁)) ∧ Loaded saved e mesh (done ++ [call]) w₁ c₁ := by
        cases call with
        | getMesh => exact h.getMesh hentity
        | loadFromModel => exact h.loadFromModel hentity
      obtain ⟨w', c', hrest, h'⟩ := ih h₁
      have hboth : Settles (fun fuel => (perform fuel w c call).bind fun x =>
          MeshRenderer.performAll fuel calls x.1 x.2) (.ok (w', c')) :=
        hfirst.except_bind (g := fun x fuel => MeshRenderer.performAll fuel calls x.1 x.2) hrest
      exact ⟨w', c', hboth.congr fun _ => rfl, by simpa using h'⟩

/-- The calls end, and what `save` writes then is what was loaded. -/
def SavesAgain (w : ModelScene M) (saved : SavedRenderer M) (calls : List Call) : Prop :=
  ∃ w' c', Settles (fun fuel => performAll fuel calls w (load {} saved)) (.ok (w', c')) ∧
    save w' c' = .ok saved

/-- **What is saved after a load.** A renderer is loaded into an entity whose model, or
the nearest one above it, provides a mesh of its name. After any calls of `getMesh` and
`loadFromModel` it is saved as it was loaded exactly if `loadFromModel` is among them, or
`getMesh` is and the mesh had the saved material before. -/
theorem save_after_load_iff (hprovides : Provides w e saved.meshName mesh)
    (hentity : saved.entity = some e) (calls : List Call) :
    SavesAgain w saved calls ↔
      .loadFromModel ∈ calls ∨ (.getMesh ∈ calls ∧ mesh.material = saved.material) := by
  have hstart : Loaded saved e mesh [] w (load {} saved) :=
    ⟨rfl, rfl, rfl, ⟨mesh, hprovides⟩, fun _ => ⟨rfl, hprovides⟩, fun hne => absurd rfl hne⟩
  obtain ⟨w', c', hrun, h⟩ := hstart.performAll hentity calls
  rw [List.nil_append] at h
  have hsave : SavesAgain w saved calls ↔ save w' c' = .ok saved := by
    refine ⟨fun ⟨w₁, c₁, hrun₁, hsaved⟩ => ?_, fun hsaved => ⟨w', c', hrun, hsaved⟩⟩
    obtain ⟨rfl, rfl⟩ := Prod.mk.inj (Except.ok.inj (hrun.unique hrun₁))
    exact hsaved
  rw [hsave]
  by_cases hcalls : calls = []
  · obtain ⟨hnone, -⟩ := h.unused hcalls
    have hfault : save w' c' = .error .nullptr := by rw [save, hnone]; rfl
    rw [hfault, hcalls]
    simp
  · obtain ⟨p, m, hmesh, hm, hname, hmaterial⟩ := h.used hcalls
    have hwritten : save w' c' = .ok ⟨saved.meshName, saved.entity, m.material⟩ := by
      simp only [save, hmesh, Option.bind_some, hm, hname, h.entity]
    rw [hwritten, hmaterial]
    have hsaved : (Except.ok ⟨saved.meshName, saved.entity,
          if .loadFromModel ∈ calls then saved.material else mesh.material⟩ :
          Except Fault (SavedRenderer M)) = .ok saved ↔
        (if .loadFromModel ∈ calls then saved.material else mesh.material) = saved.material := by
      obtain ⟨name, entity, material⟩ := saved
      simp
    rw [hsaved]
    by_cases hloaded : .loadFromModel ∈ calls
    · simp [hloaded]
    · -- then all the calls are calls of `getMesh`
      have hget : .getMesh ∈ calls := by
        obtain ⟨call, hcall⟩ := List.exists_mem_of_ne_nil calls hcalls
        cases call with
        | getMesh => exact hcall
        | loadFromModel => exact absurd hcall hloaded
      simp [hloaded, hget]

theorem lt_of_destroyed : ∀ i ∈ ([] : List Nat), i < [0, 0].length := by simp

/-- A renderer below an entity with a model from a file. -/
def belowModel : ModelScene Nat where
  registry :=
    { entities := ⟨[0, 0], [], by simp, lt_of_destroyed⟩
      hierarchy := fun x => if x = ⟨1, 0⟩ then some { parent := some ⟨0, 0⟩ } else
        if x = ⟨0, 0⟩ then some { first := some ⟨1, 0⟩ } else none
      transform := fun x => if x = ⟨0, 0⟩ then
        some ⟨.file, some fun name => if name = "arm" then some 0 else none⟩ else none }
  meshes := [{ name := "arm", material := some 1 }]

theorem provides_belowModel :
    Provides belowModel ⟨1, 0⟩ "arm" { name := "arm", material := some 1 } :=
  .ancestor (by decide) rfl (.parent (by decide) rfl (by decide) rfl)
    ⟨_, 0, rfl, rfl, rfl, rfl⟩

/-- The model's own material is lost when another one is loaded from it. -/
theorem save_after_load_model :
    SavesAgain belowModel ⟨"arm", some ⟨1, 0⟩, some 2⟩ [.getMesh, .loadFromModel, .getMesh] :=
  (save_after_load_iff provides_belowModel rfl _).mpr (.inl (by decide))

/-- Without a call `save` fails, and after `getMesh` alone it writes the material that the
mesh has in the model. -/
theorem save_after_load_fails :
    Provides belowModel ⟨1, 0⟩ "arm" { name := "arm", material := some 1 } ∧
      ¬ SavesAgain belowModel ⟨"arm", some ⟨1, 0⟩, some 2⟩ [] ∧
      ¬ SavesAgain belowModel ⟨"arm", some ⟨1, 0⟩, some 2⟩ [.getMesh] := by
  refine ⟨provides_belowModel, fun ⟨w', c', hrun, hsaved⟩ => ?_, fun ⟨w', c', hrun, hsaved⟩ => ?_⟩
  · have hnone : Settles (fun fuel => performAll fuel [] belowModel
        (load {} ⟨"arm", some ⟨1, 0⟩, some 2⟩)) (.ok (belowModel, _)) :=
      Settles.of_forall fun _ => rfl
    obtain ⟨rfl, rfl⟩ := Prod.mk.inj (Except.ok.inj (hrun.unique hnone))
    exact absurd hsaved nofun
  · have hget : Settles (fun fuel => performAll fuel [.getMesh] belowModel
        (load {} ⟨"arm", some ⟨1, 0⟩, some 2⟩))
        (.ok (belowModel, ⟨some 0, "arm", some 2, some ⟨1, 0⟩⟩)) := Settles.of_add 2 fun _ => rfl
    obtain ⟨rfl, rfl⟩ := Prod.mk.inj (Except.ok.inj (hrun.unique hget))
    have hwritten : save belowModel ⟨some 0, "arm", some 2, some ⟨1, 0⟩⟩ =
        .ok ⟨"arm", some ⟨1, 0⟩, some 1⟩ := rfl
    rw [hwritten] at hsaved
    exact absurd (congrArg SavedRenderer.material (Except.ok.inj hsaved)) (by decide)

end MeshRenderer

end Maple
