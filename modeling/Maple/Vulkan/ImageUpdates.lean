import Maple.Engine.TextureAtlas
import Maple.Vulkan.Images

/-!
# Maple.Vulkan.ImageUpdates

`VulkanTexture2D::update`, through which a `TextureAtlas` gets its sprites, and
`VulkanTextureCube::update`, through which the environment maps get their faces.

`TextureAtlas` builds its texture as a render target, which may not be copied to, and
every `update` starts from the undefined layout, so that only the last sprite would be
left if it might (`atlas_uploads`). The barriers of `VulkanTextureCube::update` contradict
each other, `VulkanTextureCube.update_refused`.
-/

namespace Maple.Vulkan

open Maple.Lib

variable {T : Type}

namespace VulkanTexture2D

/-- The usage of an image that `buildTexture` creates. -/
def buildUsage : ImageUsage := { colorAttachment := true, sampled := true }

/-- `VulkanTexture2D::buildTexture`. -/
def buildTexture (width height : Nat) : Option (VkImage T) := do
  let image ← createImage width height 1 buildUsage 1 false
  if ViewFits image false 1 .twoD 1 0 then some image else none

/-- `VulkanTexture2D::update`. -/
def update (mipLevels x y w h : Nat) (data : Nat × Nat → T) : List (VkCommand T) :=
  [transitionImageLayout .undefined .transferDst mipLevels,
    copyBufferToImage w h x y data,
    transitionImageLayout .transferDst .shaderReadOnly mipLevels]

end VulkanTexture2D

/-- The rules of a device that does not look at the usage of an image. -/
abbrev layoutRules (filter : LinearFilter T) : ImageRules VkImageLayout ImageUsage T :=
  rulesFor filter fun _ _ => true

/-! ### Atlases -/

/-- The four bytes of a pixel of a sprite. -/
def spritePixel (w : Nat) (buffer : List UInt8) (xy : Nat × Nat) : List UInt8 :=
  (buffer.drop (4 * (xy.2 * w + xy.1))).take 4

/-- The region that an upload of an atlas copies. -/
def uploadRegion (upload : Quad2D × List UInt8) : ImageRegion (List UInt8) where
  part := ⟨0, 0⟩
  offset := (upload.1.x, upload.1.y)
  extent := (upload.1.w, upload.1.h)
  data := spritePixel upload.1.w upload.2

/-- The commands that the uploads of an atlas record. -/
def uploadCommands (uploads : List (Quad2D × List UInt8)) : List (VkCommand (List UInt8)) :=
  uploads.flatMap fun (quad, buffer) =>
    VulkanTexture2D.update 1 quad.x quad.y quad.w quad.h (spritePixel quad.w buffer)

/-- The pixel belongs to the quad. -/
def InQuad (quad : Quad2D) (xy : Nat × Nat) : Prop :=
  (quad.x ≤ xy.1 ∧ xy.1 < quad.x + quad.w) ∧ quad.y ≤ xy.2 ∧ xy.2 < quad.y + quad.h

/-- The quad is not empty and lies in a texture of a size. -/
def QuadFits (width height : Nat) (quad : Quad2D) : Prop :=
  (0 < quad.w ∧ quad.x + quad.w ≤ width) ∧ 0 < quad.h ∧ quad.y + quad.h ≤ height

variable {filter : LinearFilter (List UInt8)}

theorem uploadCommands_eq (filter : LinearFilter (List UInt8))
    (uploads : List (Quad2D × List UInt8)) :
    uploadCommands uploads = (uploads.map fun upload => [uploadRegion upload]).flatMap
      (LayeredImage.upload (layoutRules filter) ⟨0, 1, 0, 1⟩ .shaderReadOnly) := by
  rw [List.flatMap_map]
  rfl

theorem uploadRegion_covers (upload : Quad2D × List UInt8) (xy : Nat × Nat) :
    (uploadRegion upload).Covers ⟨0, 0⟩ xy ↔ InQuad upload.1 xy :=
  and_iff_right rfl

/-- The image of an atlas before its first sprite. -/
theorem buildTexture_eq {width height : Nat} {image : VkImage T}
    (h : VulkanTexture2D.buildTexture width height = some image) :
    (0 < width ∧ 0 < height) ∧
      image = ⟨1, 1, width, height, VulkanTexture2D.buildUsage, fun _ => .undefined,
        fun _ _ => none⟩ := by
  obtain ⟨created, hcreate, hview⟩ := Option.bind_eq_some_iff.mp h
  obtain ⟨⟨hsize, -, -⟩, rfl⟩ := createImage_eq hcreate
  split_ifs at hview
  exact ⟨hsize, (Option.some.inj hview).symm⟩

theorem accepts_iff {width height : Nat} {image : VkImage (List UInt8)}
    (hbuild : VulkanTexture2D.buildTexture width height = some image)
    (upload : Quad2D × List UInt8) :
    image.Accepts (layoutRules filter) ⟨0, 1, 0, 1⟩ .shaderReadOnly [uploadRegion upload] ↔
      QuadFits width height upload.1 := by
  obtain ⟨⟨hwidth, hheight⟩, rfl⟩ := buildTexture_eq hbuild
  have hextent : (max 1 (width >>> 0), max 1 (height >>> 0)) = (width, height) := by
    rw [Nat.shiftRight_zero, Nat.shiftRight_zero, Nat.max_eq_right hwidth,
      Nat.max_eq_right hheight]
  simp only [LayeredImage.Accepts, List.mem_singleton, forall_eq]
  constructor
  · rintro ⟨-, ⟨-, hfits⟩, -⟩
    simpa only [LayeredImage.extent, uploadRegion, hextent, QuadFits] using hfits
  · intro hfits
    have hrange : 0 < 1 ∧ 0 + 1 ≤ 1 := by decide
    refine ⟨⟨⟨⟨hrange, hrange⟩, by simp [rulesFor], rfl⟩,
      ⟨⟨hrange, hrange⟩, by simp [rulesFor], rfl⟩, List.cons_ne_nil _ _⟩,
      ⟨⟨Nat.one_pos, Nat.one_pos⟩, ?_⟩, Or.inl (by simp [PartRange.mem_parts, uploadRegion])⟩
    simpa only [LayeredImage.extent, uploadRegion, hextent, QuadFits] using hfits

/-- Whatever sprites an atlas has got: its texture may not be copied to. A device that does
not look at the usage accepts the uploads as long as their quads lie in the texture, and
then the pixels of the last sprite are the only ones left. -/
theorem atlas_uploads (filter : LinearFilter (List UInt8)) (a : TextureAtlas)
    {image : VkImage (List UInt8)}
    (hbuild : VulkanTexture2D.buildTexture a.width a.height = some image) :
    (a.uploads ≠ [] → image.run (rules filter) (uploadCommands a.uploads) = none) ∧
    ((image.run (layoutRules filter) (uploadCommands a.uploads)).isSome ↔
      ∀ upload ∈ a.uploads, QuadFits a.width a.height upload.1) ∧
    ∀ image', image.run (layoutRules filter) (uploadCommands a.uploads) = some image' →
      ∀ quad buffer, a.uploads.getLast? = some (quad, buffer) → ∀ xy,
        (InQuad quad xy → image'.texel ⟨0, 0⟩ xy =
          some (spritePixel quad.w buffer (xy.1 - quad.x, xy.2 - quad.y))) ∧
        (¬ InQuad quad xy → image'.texel ⟨0, 0⟩ xy = none) := by
  refine ⟨fun hsome => ?_, ?_, ?_⟩
  · obtain ⟨upload, hupload⟩ := List.exists_mem_of_ne_nil _ hsome
    rw [uploadCommands_eq filter, ← Option.not_isSome_iff_eq_none]
    intro hrun
    have haccepts := (LayeredImage.run_uploads_isSome_iff (rules_dst_ne filter _)).mp hrun _
      (List.mem_map_of_mem hupload)
    obtain ⟨-, rfl⟩ := buildTexture_eq hbuild
    exact Bool.false_ne_true haccepts.1.1.2.2
  · rw [uploadCommands_eq filter,
      LayeredImage.run_uploads_isSome_iff (rules_dst_ne filter _), List.forall_mem_map]
    exact forall₂_congr fun upload _ => accepts_iff hbuild upload
  · intro image' hrun quad buffer hlast xy
    obtain ⟨before, huploads⟩ := List.getLast?_eq_some_iff.mp hlast
    rw [uploadCommands_eq filter, huploads, List.map_append] at hrun
    have htexel := LayeredImage.texel_run_uploads (rules_dst_ne filter _) hrun
      (p := ⟨0, 0⟩) (by simp [PartRange.mem_parts]) xy
    rw [List.reverse_singleton, List.find?_singleton] at htexel
    have hcovers := uploadRegion_covers (quad, buffer) xy
    constructor
    · intro hin
      rw [htexel, if_pos (decide_eq_true (hcovers.mpr hin))]
      rfl
    · intro hout
      rw [htexel, if_neg (by simpa using fun h => hout (hcovers.mp h))]
      rfl

/-- An atlas of four by four texels with two sprites. -/
theorem atlas_uploads_two :
    ∃ image, VulkanTexture2D.buildTexture 4 4 = some image ∧
      image.run (rules fun _ _ => id)
        (uploadCommands [(⟨0, 0, 1, 1⟩, [1, 2, 3, 4]), (⟨1, 0, 1, 1⟩, [5, 6, 7, 8])]) = none :=
  ⟨_, rfl, (atlas_uploads (fun _ _ => id)
    { TextureAtlas.create 4 4 with
      uploads := [(⟨0, 0, 1, 1⟩, [1, 2, 3, 4]), (⟨1, 0, 1, 1⟩, [5, 6, 7, 8])] } rfl).1
    (List.cons_ne_nil _ _)⟩

/-! ### Cubes -/

namespace VulkanTextureCube

variable {ι : Type} [DecidableEq ι]

/-- `VulkanTextureCube::update`; `colorImage` is the first attachment of the frame buffer. -/
def update (colorImage textureImage : ι) (width height numMips cubeIndex mipmapLevel : Nat) :
    List (DeviceCommand ι VkImageLayout T) :=
  [.on colorImage (setFirstLayout .colorAttachment .transferSrc),
    .on textureImage (setFirstLayout .colorAttachment .transferSrc),
    .copyImage
      { src := colorImage
        srcPart := ⟨0, 0⟩
        srcLayout := .transferSrc
        dst := textureImage
        dstPart := ⟨mipmapLevel, cubeIndex⟩
        dstLayout := .transferDst
        extent := (width, height) },
    .on colorImage (setFirstLayout .transferSrc .colorAttachment),
    .on textureImage (setImageLayout .transferDst .shaderReadOnly ⟨0, numMips, cubeIndex, 6⟩)]

/-- A barrier on the first level and layer. -/
theorem setFirstLayout_iff {filter : LinearFilter T} {allows : ImageUsage → VkImageLayout → Bool}
    {old new : VkImageLayout} {i j : VkImage T} (hold : old ≠ .undefined)
    (h : i.exec (rulesFor filter allows) (setFirstLayout old new) = some j) :
    i.layout ⟨0, 0⟩ = old ∧ j.layout ⟨0, 0⟩ = new := by
  obtain ⟨-, ⟨-, hlayout⟩, rfl⟩ := (LayeredImage.barrier_iff hold).mp h
  have hfirst : (⟨0, 0⟩ : ImagePart) ∈ (⟨0, 1, 0, 1⟩ : PartRange).parts := by decide
  refine ⟨hlayout _ hfirst, ?_⟩
  rw [LayeredImage.layout_relayout, if_pos hfirst]

/-- Whatever was recorded before, and whatever usages a device looks at: no command buffer
with an update of a cube is accepted. The last barrier can only be in range for the first
face, whose first level is then in the layout of the second barrier. -/
theorem update_refused (filter : LinearFilter T) (allows : ImageUsage → VkImageLayout → Bool)
    {images : ι → VkImage T} {textureImage : ι} (hlayers : (images textureImage).layers = 6)
    (colorImage : ι) (width height numMips cubeIndex mipmapLevel : Nat)
    (before after : List (DeviceCommand ι VkImageLayout T)) :
    LayeredImage.runOn (rulesFor filter allows)
      (before ++ update colorImage textureImage width height numMips cubeIndex mipmapLevel ++
        after) images = none := by
  rw [Option.eq_none_iff_forall_not_mem]
  intro final hrun
  rw [Option.mem_def, LayeredImage.runOn_append, Option.bind_eq_some_iff] at hrun
  obtain ⟨updated, hrun, -⟩ := hrun
  rw [LayeredImage.runOn_append, Option.bind_eq_some_iff] at hrun
  obtain ⟨start, hbefore, hrun⟩ := hrun
  have hsix : (start textureImage).layers = 6 :=
    (LayeredImage.runOn_sameShape hbefore textureImage).layers.trans hlayers
  simp only [update, LayeredImage.runOn_cons, Option.bind_eq_some_iff,
    LayeredImage.execOn_on_iff] at hrun
  obtain ⟨_, ⟨color, hcolor, rfl⟩, _, ⟨cube, hcube, rfl⟩, copied, hcopy, _,
    ⟨restored, hrestored, rfl⟩, _, ⟨last, hlast, rfl⟩, -⟩ := hrun
  obtain ⟨-, hcolorFirst⟩ := setFirstLayout_iff (by decide) hcolor
  obtain ⟨hcubeFirst, hcubeLayout⟩ := setFirstLayout_iff (by decide) hcube
  have hne : textureImage ≠ colorImage := by
    rintro rfl
    rw [Function.update_self, hcolorFirst] at hcubeFirst
    cases hcubeFirst
  obtain ⟨hshape, hsame⟩ := LayeredImage.execOn_copyImage hcopy textureImage
  rw [Function.update_self] at hshape hsame
  rw [Function.update_of_ne hne] at hlast hcube
  obtain ⟨⟨⟨⟨hlevels, -⟩, -, hrange⟩, -⟩, ⟨-, hexpected⟩, -⟩ :=
    (LayeredImage.barrier_iff (rules_dst_ne filter _)).mp hlast
  rw [hshape.layers, (LayeredImage.exec_sameShape hcube).layers, hsix] at hrange
  have hfirst : (⟨0, 0⟩ : ImagePart) ∈ (⟨0, numMips, cubeIndex, 6⟩ : PartRange).parts :=
    PartRange.mem_parts.mpr ⟨⟨Nat.le_refl 0, by simpa using hlevels⟩, by simpa using hrange,
      Nat.succ_pos _⟩
  have hcontra := hexpected _ hfirst
  rw [hsame, hcubeLayout] at hcontra
  cases hcontra

/-- A render target and a cube of one level, which nothing was recorded for. -/
theorem update_refused_target :
    LayeredImage.runOn (rules (T := Nat) fun _ _ => id) (update false true 4 4 1 2 0)
      (fun image => ⟨1, if image then 6 else 1, 4, 4, { sampled := true },
        fun _ => .shaderReadOnly, fun _ _ => none⟩) = none := by
  let images : Bool → VkImage Nat := fun image =>
    ⟨1, if image then 6 else 1, 4, 4, { sampled := true }, fun _ => .shaderReadOnly,
      fun _ _ => none⟩
  have hlayers : (images true).layers = 6 := rfl
  exact update_refused _ ImageUsage.allows hlayers false 4 4 1 2 0 [] []

end VulkanTextureCube

end Maple.Vulkan
