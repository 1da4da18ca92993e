import Mathlib.Data.Rat.Defs
import Maple.Vulkan.DescriptorSet

/-!
# Maple.Engine.Material

`Material` of `Engine/Material.cpp`: **a flag is right while its texture was never
missing.** `createDescriptorSet` clears the flag of a missing texture in the material's
own properties, through a reference, so the flag stays cleared when the texture is set
later; and a missing emissive texture clears the flag of the ao map.
-/

namespace Maple

open Vulkan (ImageInfo)

/-- The members of `PBRMataterialTextures`, and with them the `using…Map` flags. -/
inductive TextureMap where
  | albedo
  | normal
  | metallic
  | roughness
  | ao
  | emissive
  deriving DecidableEq, Repr

/-- `MaterialProperties`, without its padding. -/
structure MaterialProperties where
  albedoColor : Fin 4 → ℚ := fun _ => 1
  roughnessColor : Fin 4 → ℚ := fun _ => 1
  metallicColor : Fin 4 → ℚ := fun _ => 1
  emissiveColor : Fin 4 → ℚ := fun i => if i = 3 then 1 else 0
  usingMap : TextureMap → ℚ := fun _ => 1
  workflow : ℚ := 0

/-- `Material`: its textures, which are pointers, its properties, the content of its
uniform buffer, if the buffer was created, and the images of the last update of each
pipeline's descriptor set. -/
structure Material (T P : Type) where
  pbrMaterialTextures : TextureMap → Option T
  materialProperties : MaterialProperties
  materialPropertiesBuffer : Option MaterialProperties
  descriptorSets : P → Option (List (ImageInfo T))
  texturesUpdated : Bool

namespace Material

variable {T P : Type}

/-- The constructors; both parameters have defaults. -/
def new (properties : MaterialProperties := {})
    (textures : TextureMap → Option T := fun _ => none) : Material T P where
  pbrMaterialTextures := textures
  materialProperties := properties
  materialPropertiesBuffer := none
  descriptorSets := fun _ => none
  texturesUpdated := false

/-- `getImageInfo` of `createDescriptorSet`: the flag is a reference into the properties. -/
def getImageInfo (defaultTexture : T) (texture : Option T) (name : String) (value : TextureMap)
    (binding : Int) (s : MaterialProperties × List (ImageInfo T)) :
    MaterialProperties × List (ImageInfo T) :=
  match texture with
  | some texture => (s.1, s.2 ++ [⟨[some texture], binding, name⟩])
  | none =>
    ({ s.1 with usingMap := Function.update s.1.usingMap value 0 },
      s.2 ++ [⟨[some defaultTexture], binding, name⟩])

/-- `createDescriptorSet`. With `pbr`, the uniform buffer is bound at binding `6`. -/
def createDescriptorSet [DecidableEq P] (defaultTexture : T) (m : Material T P) (pipeline : P)
    (pbr : Bool) : Material T P :=
  let textures := m.pbrMaterialTextures
  let getImageInfo := getImageInfo defaultTexture
  let s := getImageInfo (textures .albedo) "albedoMap" .albedo 0 (m.materialProperties, [])
  if pbr then
    let s := getImageInfo (textures .metallic) "metallicMap" .metallic 1 s
    let s := getImageInfo (textures .roughness) "roughnessMap" .roughness 2 s
    let s := getImageInfo (textures .normal) "normalMap" .normal 3 s
    let s := getImageInfo (textures .ao) "aoMap" .ao 4 s
    let s := getImageInfo (textures .emissive) "emissiveMap" .ao 5 s
    { m with
      materialProperties := s.1
      materialPropertiesBuffer := some s.1
      descriptorSets := Function.update m.descriptorSets pipeline (some s.2) }
  else
    { m with
      materialProperties := s.1
      descriptorSets := Function.update m.descriptorSets pipeline (some s.2) }

def setTextures (m : Material T P) (textures : TextureMap → Option T) : Material T P :=
  { m with pbrMaterialTextures := textures }

def setMaterialProperites (m : Material T P) (properties : MaterialProperties) : Material T P :=
  { m with
    materialProperties := properties
    materialPropertiesBuffer := m.materialPropertiesBuffer.map fun _ => properties }

/-- The functions that set one texture; `tex` is what `Texture2D::create` returns for the
path. -/
def setTexture (m : Material T P) (map : TextureMap) (tex : Option T) : Material T P :=
  match tex with
  | some tex =>
    { m with
      pbrMaterialTextures := Function.update m.pbrMaterialTextures map (some tex)
      texturesUpdated := true }
  | none => m

def setAlbedoTexture (m : Material T P) (tex : Option T) : Material T P := m.setTexture .albedo tex

def setNormalTexture (m : Material T P) (tex : Option T) : Material T P := m.setTexture .normal tex

def setRoughnessTexture (m : Material T P) (tex : Option T) : Material T P :=
  m.setTexture .roughness tex

def setMetallicTexture (m : Material T P) (tex : Option T) : Material T P :=
  m.setTexture .metallic tex

def setAOTexture (m : Material T P) (tex : Option T) : Material T P := m.setTexture .ao tex

def setEmissiveTexture (m : Material T P) (tex : Option T) : Material T P :=
  m.setTexture .emissive tex

/-! ### Runs -/

/-- The calls on a material. -/
inductive Call (T P : Type) where
  | setTextures (textures : TextureMap → Option T)
  | setAlbedoTexture (tex : Option T)
  | setNormalTexture (tex : Option T)
  | setRoughnessTexture (tex : Option T)
  | setMetallicTexture (tex : Option T)
  | setAOTexture (tex : Option T)
  | setEmissiveTexture (tex : Option T)
  | setMaterialProperites (properties : MaterialProperties)
  | createDescriptorSet (pipeline : P)

variable [DecidableEq P] (defaultTexture : T)

def call (m : Material T P) : Call T P → Material T P
  | .setTextures textures => m.setTextures textures
  | .setAlbedoTexture tex => m.setAlbedoTexture tex
  | .setNormalTexture tex => m.setNormalTexture tex
  | .setRoughnessTexture tex => m.setRoughnessTexture tex
  | .setMetallicTexture tex => m.setMetallicTexture tex
  | .setAOTexture tex => m.setAOTexture tex
  | .setEmissiveTexture tex => m.setEmissiveTexture tex
  | .setMaterialProperites properties => m.setMaterialProperites properties
  | .createDescriptorSet pipeline => m.createDescriptorSet defaultTexture pipeline true

/-- The material after a list of calls. -/
def run (m : Material T P) (calls : List (Call T P)) : Material T P :=
  calls.foldl (call defaultTexture) m

/-- The properties last given: by `setMaterialProperites`, or at the start. -/
def given (initial : MaterialProperties) (calls : List (Call T P)) : MaterialProperties :=
  calls.foldl (fun properties call =>
    match call with
    | .setMaterialProperites properties => properties
    | _ => properties) initial

/-! ### Cleared flags -/

/-- `createDescriptorSet` clears this flag with these textures. -/
def Clears (textures : TextureMap → Option T) (map : TextureMap) : Prop :=
  map ≠ .emissive ∧ textures map = none ∨ map = .ao ∧ textures .emissive = none

/-- Since the properties were last given, a `createDescriptorSet` cleared the flag. -/
def Cleared (m : Material T P) (calls : List (Call T P)) (map : TextureMap) : Prop :=
  ∃ before pipeline after, calls = before ++ .createDescriptorSet pipeline :: after ∧
    (∀ properties, .setMaterialProperites properties ∉ after) ∧
    Clears (run defaultTexture m before).pbrMaterialTextures map

variable {defaultTexture}

/-- One image info clears its flag if its texture is missing. -/
theorem getImageInfo_usingMap (texture : Option T) (name : String) (value map : TextureMap)
    (binding : Int) (s : MaterialProperties × List (ImageInfo T)) :
    (getImageInfo defaultTexture texture name value binding s).1.usingMap map =
      if texture = none ∧ map = value then 0 else s.1.usingMap map := by
  cases texture with
  | some texture => exact (if_neg fun h => nomatch h.1).symm
  | none =>
      refine (Function.update_apply ..).trans ?_
      simp only [true_and]

theorem createDescriptorSet_clears {m : Material T P} {map : TextureMap} (pipeline : P)
    (h : Clears m.pbrMaterialTextures map) :
    (m.createDescriptorSet defaultTexture pipeline true).materialProperties.usingMap map = 0 := by
  simp only [createDescriptorSet, if_true, getImageInfo_usingMap]
  cases h with
  | inl hown =>
      obtain ⟨hne, hnone⟩ := hown
      cases map <;> simp_all
  | inr hemissive =>
      obtain ⟨rfl, hnone⟩ := hemissive
      simp [hnone]

theorem createDescriptorSet_keeps {m : Material T P} {map : TextureMap} (pipeline : P)
    (h : ¬ Clears m.pbrMaterialTextures map) :
    (m.createDescriptorSet defaultTexture pipeline true).materialProperties.usingMap map =
      m.materialProperties.usingMap map := by
  obtain ⟨hown, hao⟩ := not_or.mp h
  simp only [createDescriptorSet, if_true, getImageInfo_usingMap]
  cases map <;> simp_all

/-- The properties are uploaded as they are after the call. -/
theorem createDescriptorSet_buffer (m : Material T P) (pipeline : P) :
    (m.createDescriptorSet defaultTexture pipeline true).materialPropertiesBuffer =
      some (m.createDescriptorSet defaultTexture pipeline true).materialProperties := by
  simp only [createDescriptorSet, if_true]

omit [DecidableEq P] in
theorem setTexture_materialProperties (m : Material T P) (map : TextureMap) (tex : Option T) :
    (m.setTexture map tex).materialProperties = m.materialProperties := by
  cases tex <;> rfl

/-! ### The flags of a run -/

variable {m : Material T P} {calls : List (Call T P)}

theorem run_concat (m : Material T P) (calls : List (Call T P)) (c : Call T P) :
    run defaultTexture m (calls ++ [c]) = (run defaultTexture m calls).call defaultTexture c :=
  List.foldl_append

omit [DecidableEq P] in
theorem given_concat (initial : MaterialProperties) (calls : List (Call T P)) (c : Call T P) :
    given initial (calls ++ [c]) =
      match c with
      | .setMaterialProperites properties => properties
      | _ => given initial calls :=
  List.foldl_append

theorem cleared_concat {c : Call T P} {map : TextureMap} :
    Cleared defaultTexture m (calls ++ [c]) map ↔
      (∃ pipeline, c = .createDescriptorSet pipeline) ∧
          Clears (run defaultTexture m calls).pbrMaterialTextures map ∨
        (∀ properties, c ≠ .setMaterialProperites properties) ∧
          Cleared defaultTexture m calls map := by
  constructor
  · intro hcleared
    obtain ⟨before, pipeline, after, heq, hafter, hclears⟩ := hcleared
    rcases List.eq_nil_or_concat' after with rfl | ⟨after, last, rfl⟩
    · obtain ⟨rfl, hc⟩ := List.append_inj' heq rfl
      exact .inl ⟨⟨pipeline, List.singleton_inj.mp hc⟩, hclears⟩
    · have hsplit :
          calls ++ [c] = (before ++ .createDescriptorSet pipeline :: after) ++ [last] := by
        simpa using heq
      obtain ⟨rfl, hc⟩ := List.append_inj' hsplit rfl
      obtain rfl := List.singleton_inj.mp hc
      refine .inr ⟨fun properties hc => hafter properties ?_, before, pipeline, after, rfl, ?_,
        hclears⟩
      · exact hc ▸ List.mem_concat_self
      · exact fun properties hmem => hafter properties (List.mem_append_left _ hmem)
  · intro h
    cases h with
    | inl hnow =>
        obtain ⟨⟨pipeline, rfl⟩, hclears⟩ := hnow
        exact ⟨calls, pipeline, [], rfl, fun _ => List.not_mem_nil, hclears⟩
    | inr hbefore =>
        obtain ⟨hc, before, pipeline, after, rfl, hafter, hclears⟩ := hbefore
        refine ⟨before, pipeline, after ++ [c], by simp, fun properties hmem => ?_, hclears⟩
        cases List.mem_append.mp hmem with
        | inl hmem => exact hafter properties hmem
        | inr hmem => exact hc properties (List.mem_singleton.mp hmem).symm

/-- A flag is the one last given, or zero if it was cleared since. -/
structure FlagOf (m : Material T P) (calls : List (Call T P)) (defaultTexture : T)
    (map : TextureMap) : Prop where
  cleared : Cleared defaultTexture m calls map →
    (run defaultTexture m calls).materialProperties.usingMap map = 0
  kept : ¬ Cleared defaultTexture m calls map →
    (run defaultTexture m calls).materialProperties.usingMap map =
      (given m.materialProperties calls).usingMap map

/-- A call that sets textures does not change the flags. -/
theorem FlagOf.concat_textures {c : Call T P} {map : TextureMap}
    (h : FlagOf m calls defaultTexture map)
    (hflags : ((run defaultTexture m calls).call defaultTexture c).materialProperties =
      (run defaultTexture m calls).materialProperties)
    (hgiven : given m.materialProperties (calls ++ [c]) = given m.materialProperties calls)
    (hcreate : ∀ pipeline, c ≠ .createDescriptorSet pipeline)
    (hset : ∀ properties, c ≠ .setMaterialProperites properties) :
    FlagOf m (calls ++ [c]) defaultTexture map := by
  have hcleared : Cleared defaultTexture m (calls ++ [c]) map ↔
      Cleared defaultTexture m calls map := by
    rw [cleared_concat]
    constructor
    · intro h
      cases h with
      | inl hnow =>
          obtain ⟨⟨pipeline, hc⟩, -⟩ := hnow
          exact absurd hc (hcreate pipeline)
      | inr hbefore => exact hbefore.2
    · exact fun hcalls => .inr ⟨hset, hcalls⟩
  constructor
  · intro hc
    rw [run_concat, hflags]
    exact h.cleared (hcleared.mp hc)
  · intro hc
    rw [run_concat, hflags, hgiven]
    exact h.kept (mt hcleared.mpr hc)

theorem flagOf_run (m : Material T P) (calls : List (Call T P)) (map : TextureMap) :
    FlagOf m calls defaultTexture map := by
  induction calls using List.reverseRecOn with
  | nil => exact ⟨fun ⟨_, _, _, heq, _⟩ => by simp at heq, fun _ => rfl⟩
  | append_singleton calls c ih =>
      cases c with
      | setTextures textures =>
          exact ih.concat_textures rfl (given_concat ..) nofun nofun
      | setAlbedoTexture tex | setNormalTexture tex | setRoughnessTexture tex
      | setMetallicTexture tex | setAOTexture tex | setEmissiveTexture tex =>
          exact ih.concat_textures (setTexture_materialProperties ..) (given_concat ..) nofun nofun
      | setMaterialProperites properties =>
          have hnot :
              ¬ Cleared defaultTexture m (calls ++ [.setMaterialProperites properties]) map := by
            rw [cleared_concat]
            intro h
            cases h with
            | inl hnow =>
                obtain ⟨⟨pipeline, hc⟩, -⟩ := hnow
                exact nomatch hc
            | inr hbefore => exact hbefore.1 properties rfl
          refine ⟨fun hc => absurd hc hnot, fun _ => ?_⟩
          rw [run_concat, given_concat]
          rfl
      | createDescriptorSet pipeline =>
          have hcleared : Cleared defaultTexture m (calls ++ [.createDescriptorSet pipeline]) map ↔
              Clears (run defaultTexture m calls).pbrMaterialTextures map ∨
                Cleared defaultTexture m calls map := by
            rw [cleared_concat, and_iff_right ⟨pipeline, rfl⟩, and_iff_right nofun]
          constructor
          · intro hc
            rw [run_concat]
            by_cases hnow : Clears (run defaultTexture m calls).pbrMaterialTextures map
            · exact createDescriptorSet_clears pipeline hnow
            · have hbefore := (hcleared.mp hc).resolve_left hnow
              exact (createDescriptorSet_keeps pipeline hnow).trans (ih.cleared hbefore)
          · intro hc
            obtain ⟨hnow, hbefore⟩ := not_or.mp (mt hcleared.mpr hc)
            rw [run_concat, given_concat]
            exact (createDescriptorSet_keeps pipeline hnow).trans (ih.kept hbefore)

/-! ### The uploaded flags -/

/-- The flags that `createDescriptorSet` uploads after the calls: each is zero if its own
texture is missing and otherwise the one last given. -/
def FlagsFollow (defaultTexture : T) (m : Material T P) (calls : List (Call T P)) (pipeline : P) :
    Prop :=
  let before := run defaultTexture m calls
  ∃ uploaded, (before.createDescriptorSet defaultTexture pipeline true).materialPropertiesBuffer =
      some uploaded ∧
    ∀ map, map ≠ .emissive → uploaded.usingMap map =
      if before.pbrMaterialTextures map = none then 0
      else (given m.materialProperties calls).usingMap map

/-- A flag whose texture is there is zero itself, or no `createDescriptorSet` found its
texture missing since the properties were last given, the present one included; for the
ao map, neither did one find the emissive texture missing. -/
def NeverMissing (defaultTexture : T) (m : Material T P) (calls : List (Call T P)) (pipeline : P) :
    Prop :=
  ∀ map, map ≠ .emissive → (run defaultTexture m calls).pbrMaterialTextures map ≠ none →
    (given m.materialProperties calls).usingMap map = 0 ∨
      ¬ Cleared defaultTexture m (calls ++ [.createDescriptorSet pipeline]) map

/-- In every run of a material, the flags uploaded by a `createDescriptorSet` follow their
own textures if and only if no texture that is there was missing before. -/
theorem flags_follow_iff (properties : MaterialProperties) (textures : TextureMap → Option T)
    (calls : List (Call T P)) (pipeline : P) :
    FlagsFollow defaultTexture (new properties textures) calls pipeline ↔
      NeverMissing defaultTexture (new properties textures) calls pipeline := by
  set m : Material T P := new properties textures
  have hflag : ∀ map, FlagOf m (calls ++ [.createDescriptorSet pipeline]) defaultTexture map :=
    flagOf_run m _
  have hgiven : given m.materialProperties (calls ++ [.createDescriptorSet pipeline]) =
      given m.materialProperties calls := given_concat ..
  constructor
  · intro hflags map hmap hthere
    obtain ⟨uploaded, hbuffer, hfollow⟩ := hflags
    rw [createDescriptorSet_buffer] at hbuffer
    obtain rfl := Option.some.inj hbuffer
    by_cases hcleared : Cleared defaultTexture m (calls ++ [.createDescriptorSet pipeline]) map
    · have hzero := (hflag map).cleared hcleared
      rw [run_concat] at hzero
      exact .inl ((hfollow map hmap).trans (if_neg hthere) ▸ hzero)
    · exact .inr hcleared
  · intro h
    refine ⟨_, createDescriptorSet_buffer .., fun map hmap => ?_⟩
    have hrun : ∀ value, (run defaultTexture m
        (calls ++ [.createDescriptorSet pipeline])).materialProperties.usingMap map = value →
        ((run defaultTexture m calls).createDescriptorSet defaultTexture pipeline
          true).materialProperties.usingMap map = value := by
      rw [run_concat]
      exact fun _ => id
    by_cases hthere : (run defaultTexture m calls).pbrMaterialTextures map = none
    · rw [if_pos hthere]
      have hcleared : Cleared defaultTexture m (calls ++ [.createDescriptorSet pipeline]) map :=
        cleared_concat.mpr (.inl ⟨⟨pipeline, rfl⟩, .inl ⟨hmap, hthere⟩⟩)
      exact hrun 0 ((hflag map).cleared hcleared)
    · rw [if_neg hthere]
      by_cases hcleared : Cleared defaultTexture m (calls ++ [.createDescriptorSet pipeline]) map
      · have hzero := (h map hmap hthere).resolve_right (not_not_intro hcleared)
        exact hrun _ (((hflag map).cleared hcleared).trans hzero.symm)
      · exact hrun _ (((hflag map).kept hcleared).trans (congrArg (·.usingMap map) hgiven))

/-- An albedo texture that is set after a `createDescriptorSet` stays unused, and an ao
texture without an emissive one is never used. -/
theorem flags_stay_cleared :
    ¬ FlagsFollow 0 (new : Material Nat Nat)
        [.createDescriptorSet 0, .setAlbedoTexture (some 1)] 0 ∧
    ¬ FlagsFollow 0 (new : Material Nat Nat) [.setAOTexture (some 1)] 0 := by
  constructor
  · intro hflags
    obtain ⟨uploaded, hbuffer, hfollow⟩ := hflags
    obtain rfl := Option.some.inj hbuffer
    exact absurd (hfollow .albedo (by decide)) (by decide +kernel)
  · intro hflags
    obtain ⟨uploaded, hbuffer, hfollow⟩ := hflags
    obtain rfl := Option.some.inj hbuffer
    exact absurd (hfollow .ao (by decide)) (by decide +kernel)

/-! ### The images -/

/-- The image infos of a material have one texture each, so their places agree. -/
theorem createDescriptorSet_images (m : Material T P) (pipeline : P)
    (pool : Vector (Option T) Vulkan.MAX_INFOS) : ∃ imageInfos,
      (m.createDescriptorSet defaultTexture pipeline true).descriptorSets pipeline =
        some imageInfos ∧ imageInfos.map ImageInfo.binding = [0, 1, 2, 3, 4, 5] ∧
      Vulkan.PlacesAgree pool imageInfos 1 := by
  have himage : ∀ (texture : Option T) name value binding
      (s : MaterialProperties × List (ImageInfo T)),
      (getImageInfo defaultTexture texture name value binding s).2 =
        s.2 ++ [⟨[some (texture.getD defaultTexture)], binding, name⟩] := by
    intro texture name value binding s
    cases texture <;> rfl
  simp only [createDescriptorSet, if_true, Function.update_self, himage]
  refine ⟨_, rfl, rfl, Vulkan.placesAgree_of_single ?_ (by simp [Vulkan.MAX_INFOS])⟩
  simp

end Material

end Maple
