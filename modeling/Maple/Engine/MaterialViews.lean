import Mathlib.Data.List.Induction
import Maple.Engine.Material
import Maple.Lib.SharedFlag

/-!
# Maple.Engine.MaterialViews

The materials that the game and the editor draw, from `DeferredOffScreenRenderer::beginScene`
up to the frames of the `Editor`. Each of the two has a pipeline, for which a material has a
descriptor set, but a material has one flag that tells of new textures, and the one that
draws first lowers it.

So a texture that is set while both draw is drawn by the game, and never by the editor: it
goes on with the textures of the first frame, `views_images`.
-/

namespace Maple

open Lib

open Vulkan (ImageInfo)

variable {M T P : Type} [DecidableEq P]

namespace Material

/-- What `beginScene` does with the material of a mesh. -/
def beginMesh (defaultTexture : T) (pipeline : P) (material : Material T P) : Material T P :=
  if (material.descriptorSets pipeline).isNone || material.texturesUpdated then
    { material.createDescriptorSet defaultTexture pipeline true with texturesUpdated := false }
  else material

end Material

/-- What the properties of a material are edited with. `setTextures` and `loadMaterial`, which
do not raise the flag, are left out. -/
inductive MaterialEdit (T : Type) where
  /-- One of the setters, `setAlbedoTexture` and so on. -/
  | setTexture (map : TextureMap) (tex : Option T)
  | setMaterialProperites (properties : MaterialProperties)

def MaterialEdit.apply (material : Material T P) : MaterialEdit T → Material T P
  | .setTexture map tex => material.setTexture map tex
  | .setMaterialProperites properties => material.setMaterialProperites properties

/-- A frame: what is edited, the materials of the meshes in the scene, and whether there is a
camera among its entities and one that the `SceneWindow` has put over it. -/
structure SceneFrame (M T : Type) where
  edits : List (M × MaterialEdit T)
  meshes : List (Option M)
  camera : Bool
  overrideCamera : Bool

/-- `Scene::getCamera`, as far as there is one. -/
def SceneFrame.getCamera (frame : SceneFrame M T) (gameView : Bool) : Bool :=
  if frame.camera && gameView then true else frame.overrideCamera

/-- A `RenderManager`, with the pipeline of its `DeferredOffScreenRenderer`. -/
structure RenderManager (P : Type) where
  isEditor : Bool
  pipeline : P

section

variable [DecidableEq M] (defaultTexture : T)

def editMaterials (materials : M → Material T P) (edit : M × MaterialEdit T) : M → Material T P :=
  Function.update materials edit.1 (edit.2.apply (materials edit.1))

/-- The material of a mesh, if it has one, in the loop of `beginScene`. -/
def onMesh (pipeline : P) (materials : M → Material T P) : Option M → M → Material T P
  | some material => Function.update materials material
      ((materials material).beginMesh defaultTexture pipeline)
  | none => materials

/-- `DeferredOffScreenRenderer::beginScene`. -/
def beginScene (materials : M → Material T P) (manager : RenderManager P)
    (frame : SceneFrame M T) : M → Material T P :=
  if frame.getCamera !manager.isEditor then
    frame.meshes.foldl (onMesh defaultTexture manager.pipeline) materials
  else materials

/-- A frame: `onImGui`, and then the managers in their order. -/
def onFrame (managers : List (RenderManager P)) (materials : M → Material T P)
    (frame : SceneFrame M T) : M → Material T P :=
  managers.foldl (fun materials manager => beginScene defaultTexture materials manager frame)
    (frame.edits.foldl editMaterials materials)

end

/-! ### What a descriptor set shows -/

/-- The images of a descriptor set that was created for textures. -/
def images (defaultTexture : T) (textures : TextureMap → Option T) : List (ImageInfo T) :=
  [⟨[some ((textures .albedo).getD defaultTexture)], 0, "albedoMap"⟩,
    ⟨[some ((textures .metallic).getD defaultTexture)], 1, "metallicMap"⟩,
    ⟨[some ((textures .roughness).getD defaultTexture)], 2, "roughnessMap"⟩,
    ⟨[some ((textures .normal).getD defaultTexture)], 3, "normalMap"⟩,
    ⟨[some ((textures .ao).getD defaultTexture)], 4, "aoMap"⟩,
    ⟨[some ((textures .emissive).getD defaultTexture)], 5, "emissiveMap"⟩]

variable {defaultTexture : T} {material : Material T P} {s : Shared (TextureMap → Option T) P}

omit [DecidableEq P] in
theorem getImageInfo_images (texture : Option T) (name : String) (value : TextureMap)
    (binding : Int) (s : MaterialProperties × List (ImageInfo T)) :
    (Material.getImageInfo defaultTexture texture name value binding s).2 =
      s.2 ++ [⟨[some (texture.getD defaultTexture)], binding, name⟩] := by
  cases texture <;> rfl

theorem createDescriptorSet_images (material : Material T P) (pipeline : P) :
    (material.createDescriptorSet defaultTexture pipeline true).descriptorSets =
      Function.update material.descriptorSets pipeline
        (some (images defaultTexture material.pbrMaterialTextures)) := by
  simp [Material.createDescriptorSet, getImageInfo_images, images]

/-- A material, and the textures that the pipelines have copies of. -/
structure Holds (defaultTexture : T) (material : Material T P)
    (s : Shared (TextureMap → Option T) P) : Prop where
  textures : material.pbrMaterialTextures = s.value
  updated : material.texturesUpdated = s.changed
  sets : ∀ pipeline, material.descriptorSets pipeline =
    (s.seen pipeline).map (images defaultTexture)

theorem Holds.beginMesh (h : Holds defaultTexture material s) (pipeline : P) :
    Holds defaultTexture (material.beginMesh defaultTexture pipeline) (s.read pipeline) := by
  have hcond : ((material.descriptorSets pipeline).isNone || material.texturesUpdated) =
      ((s.seen pipeline).isNone || s.changed) := by
    rw [h.sets, h.updated, Option.isNone_map]
  rw [Material.beginMesh, Shared.read, hcond]
  split
  next =>
    refine ⟨h.textures, rfl, fun pipeline' => ?_⟩
    rw [createDescriptorSet_images, h.textures]
    by_cases hp : pipeline' = pipeline
    · subst hp
      simp
    · simp [hp, h.sets]
  next => exact h

/-- What an edit does to the textures. -/
def MaterialEdit.change : MaterialEdit T → Option ((TextureMap → Option T) → TextureMap → Option T)
  | .setTexture map (some tex) => some fun textures => Function.update textures map (some tex)
  | .setTexture _ none | .setMaterialProperites _ => none

variable [DecidableEq M] {materials : M → Material T P} {a : M}

/-- The edits of a material, and the pipelines that draw it, in a frame. -/
def SceneFrame.round (managers : List (RenderManager P)) (a : M) (frame : SceneFrame M T) :
    Round (TextureMap → Option T) P where
  changes := frame.edits.filterMap fun edit => if edit.1 = a then edit.2.change else none
  readers := if some a ∈ frame.meshes then
      (managers.filter fun manager => frame.getCamera !manager.isEditor).map (·.pipeline)
    else []

omit [DecidableEq P] in
theorem Holds.apply (h : Holds defaultTexture material s) (edit : MaterialEdit T) :
    Holds defaultTexture (edit.apply material)
      (match edit.change with
        | some f => s.change f
        | none => s) := by
  cases edit with
  | setMaterialProperites properties => exact ⟨h.textures, h.updated, h.sets⟩
  | setTexture map tex =>
      cases tex with
      | none => exact h
      | some tex =>
          refine ⟨?_, rfl, h.sets⟩
          simp [MaterialEdit.apply, MaterialEdit.change, Material.setTexture, Shared.change,
            h.textures]

omit [DecidableEq P] in
theorem Holds.edits (h : Holds defaultTexture (materials a) s) (edits : List (M × MaterialEdit T)) :
    Holds defaultTexture (edits.foldl editMaterials materials a)
      ((edits.filterMap fun edit => if edit.1 = a then edit.2.change else none).foldl
        Shared.change s) := by
  induction edits generalizing materials s with
  | nil => exact h
  | cons edit edits ih =>
      rw [List.foldl_cons, List.filterMap_cons]
      by_cases hedit : edit.1 = a
      · have happly := h.apply edit.2
        have hself : editMaterials materials edit a = edit.2.apply (materials a) := by
          subst hedit
          exact Function.update_self ..
        rw [← hself] at happly
        rw [if_pos hedit]
        cases hchange : edit.2.change with
        | none =>
            rw [hchange] at happly
            exact ih happly
        | some f =>
            rw [hchange] at happly
            exact ih happly
      · rw [if_neg hedit]
        refine ih ?_
        rw [editMaterials, Function.update_of_ne (Ne.symm hedit)]
        exact h

theorem Holds.meshes (h : Holds defaultTexture (materials a) s) (pipeline : P)
    (meshes : List (Option M)) :
    Holds defaultTexture (meshes.foldl (onMesh defaultTexture pipeline) materials a)
      (if some a ∈ meshes then s.read pipeline else s) := by
  induction meshes generalizing materials s with
  | nil => exact h
  | cons mesh meshes ih =>
      rw [List.foldl_cons]
      by_cases hmesh : mesh = some a
      · subst hmesh
        have hread : Holds defaultTexture (onMesh defaultTexture pipeline materials (some a) a)
            (s.read pipeline) := by
          rw [onMesh, Function.update_self]
          exact h.beginMesh pipeline
        simpa using ih hread
      · have hkeep : onMesh defaultTexture pipeline materials mesh a = materials a := by
          cases mesh with
          | none => rfl
          | some material =>
              exact Function.update_of_ne (fun heq => hmesh (congrArg some heq.symm)) ..
        have hrest : Holds defaultTexture (onMesh defaultTexture pipeline materials mesh a) s := by
          rw [hkeep]
          exact h
        simpa [Ne.symm hmesh] using ih hrest

theorem Holds.managers (h : Holds defaultTexture (materials a) s)
    (managers : List (RenderManager P)) (frame : SceneFrame M T) :
    Holds defaultTexture (managers.foldl
        (fun materials manager => beginScene defaultTexture materials manager frame) materials a)
      ((if some a ∈ frame.meshes then
          (managers.filter fun manager => frame.getCamera !manager.isEditor).map (·.pipeline)
        else []).foldl Shared.read s) := by
  induction managers generalizing materials s with
  | nil => simpa using h
  | cons manager managers ih =>
      rw [List.foldl_cons, List.filter_cons]
      cases hcamera : frame.getCamera !manager.isEditor with
      | false =>
          refine ih ?_
          simpa [beginScene, hcamera] using h
      | true =>
          have hbegin : Holds defaultTexture (beginScene defaultTexture materials manager frame a)
              (if some a ∈ frame.meshes then s.read manager.pipeline else s) := by
            rw [beginScene, if_pos hcamera]
            exact h.meshes manager.pipeline frame.meshes
          by_cases ha : some a ∈ frame.meshes
          · simpa [ha] using ih hbegin
          · simpa [ha] using ih hbegin

theorem Holds.frame (h : Holds defaultTexture (materials a) s) (managers : List (RenderManager P))
    (frame : SceneFrame M T) :
    Holds defaultTexture (onFrame defaultTexture managers materials frame a)
      (s.round (frame.round managers a)) :=
  (h.edits frame.edits).managers managers frame

theorem Holds.frames (h : Holds defaultTexture (materials a) s) (managers : List (RenderManager P))
    (frames : List (SceneFrame M T)) :
    Holds defaultTexture (frames.foldl (onFrame defaultTexture managers) materials a)
      ((frames.map (SceneFrame.round managers a)).foldl Shared.round s) := by
  induction frames generalizing materials s with
  | nil => exact h
  | cons frame frames ih => exact ih (h.frame managers frame)

/-! ### The game and the editor -/

/-- The managers of `Application::init` and `Editor::init`. -/
def renderManagers (game editor : P) : List (RenderManager P) := [⟨false, game⟩, ⟨true, editor⟩]

/-- The frame draws the material, in the game's view or in the editor's. -/
def SceneFrame.Draws (frame : SceneFrame M T) (a : M) (gameView : Bool) : Prop :=
  some a ∈ frame.meshes ∧ frame.getCamera gameView = true

variable {game editor : P} {frame : SceneFrame M T}

omit [DecidableEq P] [DecidableEq M] in
/-- Where the editor has a camera, the game has one too. -/
theorem getCamera_of_editor (h : frame.getCamera false = true) : frame.getCamera true = true := by
  have hoverride : frame.overrideCamera = true := by simpa [SceneFrame.getCamera] using h
  simp [SceneFrame.getCamera, hoverride]

omit [DecidableEq P] in
theorem readers_of_draws (hgame : frame.Draws a true) :
    (frame.round (renderManagers game editor) a).readers =
      game :: if frame.getCamera false then [editor] else [] := by
  obtain ⟨ha, hcamera⟩ := hgame
  cases heditor : frame.getCamera false <;>
    simp [SceneFrame.round, renderManagers, ha, hcamera, heditor]

omit [DecidableEq P] in
theorem readers_of_not_draws (hgame : ¬ frame.Draws a true) :
    (frame.round (renderManagers game editor) a).readers = [] := by
  by_cases ha : some a ∈ frame.meshes
  · have hcamera : frame.getCamera true = false := by
      by_contra hcamera
      exact hgame ⟨ha, by simpa using hcamera⟩
    have heditor : frame.getCamera false = false := by
      by_contra heditor
      simp [getCamera_of_editor (by simpa using heditor)] at hcamera
    simp [SceneFrame.round, renderManagers, hcamera, heditor]
  · simp [SceneFrame.round, ha]

omit [DecidableEq P] in
theorem led (frame : SceneFrame M T) (a : M) :
    (frame.round (renderManagers game editor) a).Led game := by
  by_cases hgame : frame.Draws a true
  · exact .inr ⟨_, readers_of_draws hgame⟩
  · exact .inl (readers_of_not_draws hgame)

omit [DecidableEq P] in
theorem editor_mem_readers_iff (hne : game ≠ editor) :
    editor ∈ (frame.round (renderManagers game editor) a).readers ↔ frame.Draws a false := by
  by_cases hgame : frame.Draws a true
  · rw [readers_of_draws hgame, SceneFrame.Draws, and_iff_right hgame.1]
    cases frame.getCamera false <;> simp [Ne.symm hne]
  · rw [readers_of_not_draws hgame]
    refine iff_of_false List.not_mem_nil fun heditor => hgame ?_
    exact ⟨heditor.1, getCamera_of_editor heditor.2⟩

/-- Whatever is edited, and whichever frames have cameras: the game's descriptor set of a
material has the textures of the last frame in which the game drew it, and the editor's has
those of the first frame in which the editor drew it. -/
theorem views_images (defaultTexture : T) (hne : game ≠ editor)
    (properties : M → MaterialProperties) (textures : M → TextureMap → Option T) (a : M)
    (before : List (SceneFrame M T)) (frame : SceneFrame M T) (after : List (SceneFrame M T)) :
    let materials : M → Material T P := fun a => .new (properties a) (textures a)
    let run := List.foldl (onFrame defaultTexture (renderManagers game editor)) materials
    let shown := some (images defaultTexture (run (before ++ [frame]) a).pbrMaterialTextures)
    (frame.Draws a true → (∀ frame ∈ after, ¬ frame.Draws a true) →
      (run (before ++ frame :: after) a).descriptorSets game = shown) ∧
    (frame.Draws a false → (∀ frame ∈ before, ¬ frame.Draws a false) →
      (run (before ++ frame :: after) a).descriptorSets editor = shown) := by
  intro materials run shown
  have hnew : Holds defaultTexture (materials a) (.fresh (textures a)) := ⟨rfl, rfl, fun _ => rfl⟩
  have hframes := fun frames => hnew.frames (renderManagers game editor) frames
  have hshown := (hframes (before ++ [frame])).textures
  have hled : ∀ frames : List (SceneFrame M T),
      ∀ r ∈ frames.map (SceneFrame.round (renderManagers game editor) a), r.Led game := by
    intro frames r hr
    obtain ⟨frame, -, rfl⟩ := List.mem_map.mp hr
    exact led frame a
  rw [List.map_append, List.map_singleton] at hshown
  constructor
  · intro hgame hafter
    have hset := (hframes (before ++ frame :: after)).sets game
    have hfirst := hled (before ++ [frame])
    have hreaders : (frame.round (renderManagers game editor) a).readers ≠ [] := by
      rw [readers_of_draws hgame]
      exact List.cons_ne_nil _ _
    have hrest : ∀ r ∈ after.map (SceneFrame.round (renderManagers game editor) a),
        game ∉ r.readers := by
      intro r hr
      obtain ⟨frame, hframe, rfl⟩ := List.mem_map.mp hr
      rw [readers_of_not_draws (hafter frame hframe)]
      exact List.not_mem_nil
    rw [List.map_append, List.map_singleton] at hfirst
    rw [List.map_append, List.map_cons, Shared.seen_first _ hfirst hreaders hrest, ← hshown] at hset
    exact hset
  · intro heditor hbefore
    have hset := (hframes (before ++ frame :: after)).sets editor
    have hall := hled (before ++ frame :: after)
    have hrest : ∀ r ∈ before.map (SceneFrame.round (renderManagers game editor) a),
        editor ∉ r.readers := by
      intro r hr
      obtain ⟨frame, hframe, rfl⟩ := List.mem_map.mp hr
      exact mt (editor_mem_readers_iff hne).mp (hbefore frame hframe)
    rw [List.map_append, List.map_cons] at hall hset
    rw [Shared.seen_other _ hall (Ne.symm hne) ((editor_mem_readers_iff hne).mpr heditor) hrest,
      ← hshown] at hset
    exact hset

/-- A texture that is set in the second of two frames. -/
def albedoFrames : List (SceneFrame Unit Nat) :=
  [⟨[], [some ()], true, true⟩, ⟨[((), .setTexture .albedo (some 1))], [some ()], true, true⟩]

theorem views_images_albedo :
    let materials := albedoFrames.foldl (onFrame 0 (renderManagers false true))
      fun _ => .new {} fun _ => none
    (materials ()).descriptorSets false =
        some (images 0 (Function.update (fun _ => none) .albedo (some 1))) ∧
      (materials ()).descriptorSets true = some (images 0 fun _ => none) := by
  have hgame := (views_images 0 Bool.false_ne_true (fun _ : Unit => {})
    (fun _ _ => none) () [⟨[], [some ()], true, true⟩]
    ⟨[((), .setTexture .albedo (some 1))], [some ()], true, true⟩ []).1 ⟨by simp, rfl⟩ nofun
  have heditor := (views_images 0 Bool.false_ne_true (fun _ : Unit => {})
    (fun _ _ => none) () [] ⟨[], [some ()], true, true⟩
    [⟨[((), .setTexture .albedo (some 1))], [some ()], true, true⟩]).2 ⟨by simp, rfl⟩ nofun
  exact ⟨hgame, heditor⟩

end Maple
