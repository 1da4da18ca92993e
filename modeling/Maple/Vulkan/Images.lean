import Maple.Lib.ImageCommands
import Maple.Vulkan.Mipmaps

/-!
# Maple.Vulkan.Images

The images of `VulkanTexture.cpp` and the commands their loaders record, executed by the
rules of `Lib.ImageCommands`. Access masks and pipeline stages are left out; a texel of a
staging buffer is found by its number.

`VulkanTexture2D::load` brings all levels into the layout for reading before it calls
`generateMipmaps`, which expects them in the layout for copies. It copies in the format of the
texture, whatever that of the image is. Sizes are taken to fit their integers.
-/

namespace Maple.Vulkan

open Maple.Lib

/-- `VkImageLayout`. -/
inductive VkImageLayout where
  | undefined
  | general
  | colorAttachment
  | depthStencilAttachment
  | depthStencilReadOnly
  | shaderReadOnly
  | transferSrc
  | transferDst
  | preinitialized
  | presentSrc
  deriving DecidableEq, Repr

/-- The bits of `VkImageUsageFlags` that the engine sets. -/
structure ImageUsage where
  transferSrc : Bool := false
  transferDst : Bool := false
  sampled : Bool := false
  colorAttachment : Bool := false
  depthStencilAttachment : Bool := false
  deriving DecidableEq, Repr

/-- The layouts an image of a usage may be in. -/
def ImageUsage.allows (usage : ImageUsage) : VkImageLayout → Bool
  | .colorAttachment => usage.colorAttachment
  | .depthStencilAttachment | .depthStencilReadOnly => usage.depthStencilAttachment
  | .shaderReadOnly => usage.sampled
  | .transferSrc => usage.transferSrc
  | .transferDst => usage.transferDst
  | .undefined | .general | .preinitialized | .presentSrc => true

/-- How `VK_FILTER_LINEAR` scales an area to another size. -/
abbrev LinearFilter (T : Type) : Type :=
  Nat × Nat → Nat × Nat → (Nat × Nat → Option T) → Nat × Nat → Option T

variable {T : Type}

abbrev VkImage (T : Type) : Type := LayeredImage VkImageLayout ImageUsage T

abbrev VkCommand (T : Type) : Type := ImageCommand VkImageLayout T

/-- The rules of a device that allows an image of a usage some layouts. -/
def rulesFor (filter : LinearFilter T) (allows : ImageUsage → VkImageLayout → Bool) :
    ImageRules VkImageLayout ImageUsage T where
  undefined := .undefined
  transferSrc := .transferSrc
  transferDst := .transferDst
  allows := allows
  filter := filter

abbrev rules (filter : LinearFilter T) : ImageRules VkImageLayout ImageUsage T :=
  rulesFor filter ImageUsage.allows

theorem rules_dst_ne (filter : LinearFilter T) (allows : ImageUsage → VkImageLayout → Bool) :
    VkImageLayout.transferDst ≠ (rulesFor filter allows).undefined := by
  simp [rulesFor]

/-- The type of a view. -/
inductive ViewType where
  | twoD
  | twoDArray
  | cube
  deriving DecidableEq, Repr

/-- `VulkanHelper::createImage`; `cube` is `VK_IMAGE_CREATE_CUBE_COMPATIBLE_BIT`. -/
def createImage (width height mipLevels : Nat) (usage : ImageUsage) (arrayLayers : Nat)
    (cube : Bool) : Option (VkImage T) :=
  if (0 < width ∧ 0 < height) ∧ (0 < mipLevels ∧ mipLevels ≤ Nat.log2 (max width height) + 1) ∧
      0 < arrayLayers ∧ (cube = true → width = height ∧ 6 ≤ arrayLayers) then
    some ⟨mipLevels, arrayLayers, width, height, usage, fun _ => .undefined, fun _ _ => none⟩
  else none

theorem createImage_eq {width height mipLevels arrayLayers : Nat} {usage : ImageUsage}
    {cube : Bool} {image : VkImage T}
    (h : createImage width height mipLevels usage arrayLayers cube = some image) :
    ((0 < width ∧ 0 < height) ∧ 0 < arrayLayers ∧ (cube = true → width = height)) ∧
      image = ⟨mipLevels, arrayLayers, width, height, usage, fun _ => .undefined,
        fun _ _ => none⟩ := by
  unfold createImage at h
  split at h
  case isTrue hvalid =>
    obtain ⟨hsize, -, hlayers, hcube⟩ := hvalid
    exact ⟨⟨hsize, hlayers, fun heq => (hcube heq).1⟩, (Option.some.inj h).symm⟩
  case isFalse => cases h

/-- The number of layers in a view; a cube also demands that its image is made for it. -/
def ViewType.Allows (cube : Bool) (layerCount : Nat) : ViewType → Prop
  | .twoD => layerCount = 1
  | .twoDArray => True
  | .cube => cube = true ∧ layerCount = 6

instance (cube : Bool) (layerCount : Nat) (viewType : ViewType) :
    Decidable (viewType.Allows cube layerCount) :=
  match viewType with
  | .twoD => inferInstanceAs (Decidable (_ = _))
  | .twoDArray => inferInstanceAs (Decidable True)
  | .cube => inferInstanceAs (Decidable (_ ∧ _))

/-- `VulkanHelper::createImageView` accepts the image. -/
def ViewFits (image : VkImage T) (cube : Bool) (mipLevels : Nat) (viewType : ViewType)
    (layerCount baseArrayLayer : Nat) : Prop :=
  image.HasRange ⟨0, mipLevels, baseArrayLayer, layerCount⟩ ∧ viewType.Allows cube layerCount

instance (image : VkImage T) (cube : Bool) (mipLevels : Nat) (viewType : ViewType)
    (layerCount baseArrayLayer : Nat) :
    Decidable (ViewFits image cube mipLevels viewType layerCount baseArrayLayer) :=
  inferInstanceAs (Decidable (_ ∧ _))

/-- `VulkanHelper::transitionImageLayout`. -/
def transitionImageLayout (oldLayout newLayout : VkImageLayout) (mipLevels : Nat) : VkCommand T :=
  .barrier ⟨0, mipLevels, 0, 1⟩ oldLayout newLayout

/-- `VulkanHelper::setImageLayout` with a range. -/
def setImageLayout (oldLayout newLayout : VkImageLayout) (range : PartRange) : VkCommand T :=
  .barrier range oldLayout newLayout

/-- `VulkanHelper::setImageLayout` with an aspect: the first level and layer. -/
def setFirstLayout (oldLayout newLayout : VkImageLayout) : VkCommand T :=
  setImageLayout oldLayout newLayout ⟨0, 1, 0, 1⟩

/-- `VulkanHelper::copyBufferToImage`. -/
def copyBufferToImage (width height offsetX offsetY : Nat) (data : Nat × Nat → T) : VkCommand T :=
  .copyBuffer .transferDst [⟨⟨0, 0⟩, (offsetX, offsetY), (width, height), data⟩]

/-! ### Mipmaps -/

def ImageLayout.toVk : ImageLayout → VkImageLayout
  | .transferDst => .transferDst
  | .transferSrc => .transferSrc
  | .shaderReadOnly => .shaderReadOnly

/-- A command of `generateMipmaps`; its subresources have one level and the first layer. -/
def Command.toVk : Command → VkCommand T
  | .pipelineBarrier barrier =>
    .barrier ⟨barrier.baseMipLevel, 1, 0, 1⟩ barrier.oldLayout.toVk barrier.newLayout.toVk
  | .blitImage blit =>
    .blit
      { src := ⟨blit.srcLevel, 0⟩
        srcLayout := blit.srcLayout.toVk
        srcExtent := blit.srcExtent
        dst := ⟨blit.dstLevel, 0⟩
        dstLayout := blit.dstLayout.toVk
        dstExtent := blit.dstExtent }

/-! ### Images in memory -/

/-- The formats that images are decoded to and that textures are loaded with, of
`TextureFormat`. -/
inductive TextureFormat where
  | rgba
  | rgba8
  | rgba32
  deriving DecidableEq, Repr

/-- The bytes of a texel. -/
def TextureFormat.size : TextureFormat → Nat
  | .rgba | .rgba8 => 4
  | .rgba32 => 16

/-- `Image`, which `ImageLoader::loadAsset` has decoded, an `.hdr` file to `rgba32` and any
other to `rgba8`; or the data that a constructor is given, which are `rgba8`. -/
structure Image where
  pixelFormat : TextureFormat
  width : Nat
  height : Nat
  data : Nat → UInt8

namespace Image

def imageSize (image : Image) : Nat := image.width * image.height * image.pixelFormat.size

/-- The texel that is read of the bytes in a format. -/
def texel (image : Image) (format : TextureFormat) (xy : Nat × Nat) : List UInt8 :=
  (List.range format.size).map fun i =>
    image.data (format.size * (xy.2 * image.width + xy.1) + i)

/-- What is to be seen of the image. -/
def pixel (image : Image) (xy : Nat × Nat) : List UInt8 := image.texel image.pixelFormat xy

theorem texel_eq_pixel_iff (image : Image) (format : TextureFormat) (xy : Nat × Nat) :
    image.texel format xy = image.pixel xy ↔ format.size = image.pixelFormat.size := by
  unfold pixel texel
  refine ⟨fun h => ?_, fun h => by rw [h]⟩
  simpa using congrArg List.length h

/-- The bytes are enough for a copy in the format. -/
theorem size_le_imageSize_iff {image : Image} (hwidth : 0 < image.width)
    (hheight : 0 < image.height) (format : TextureFormat) :
    image.width * image.height * format.size ≤ image.imageSize ↔
      format.size ≤ image.pixelFormat.size :=
  Nat.mul_le_mul_left_iff (Nat.mul_pos hwidth hheight)

end Image

namespace VulkanTexture2D

/-- The usage of an image that `load` creates. -/
def loadUsage : ImageUsage := { transferSrc := true, transferDst := true, sampled := true }

/-- The levels that `load` creates; `std::log2` of a 32-bit number is exact enough for
`std::floor`. -/
def mipLevels (width height : Nat) (generateMipMaps : Bool) : Nat :=
  if generateMipMaps then Nat.log2 (max width height) + 1 else 1

/-- The copy of the pixels. -/
def copyCommands (width height mipLevels : Nat) (pixel : Nat × Nat → T) : List (VkCommand T) :=
  [transitionImageLayout .undefined .transferDst mipLevels,
    copyBufferToImage width height 0 0 pixel]

/-- The commands that `load` records before it looks at `generateMipMaps`. -/
def loadCommands (width height mipLevels : Nat) (pixel : Nat × Nat → T) : List (VkCommand T) :=
  copyCommands width height mipLevels pixel ++
    [transitionImageLayout .transferDst .shaderReadOnly mipLevels]

/-- The commands of `generateMipmaps`. -/
def mipCommands (width height mipLevels : Nat) : List (VkCommand T) :=
  (generateMipmaps width height mipLevels).map Command.toVk

/-- `VulkanTexture2D::load`, with the view that its constructors create. The copy has to lie in
the staging buffer. -/
def load (filter : LinearFilter (List UInt8)) (format : TextureFormat) (source : Image)
    (generateMipMaps : Bool) : Option (VkImage (List UInt8)) := do
  let mipLevels := mipLevels source.width source.height generateMipMaps
  let image ← createImage source.width source.height mipLevels loadUsage 1 false
  if source.width * source.height * format.size ≤ source.imageSize then
    let image ← image.run (rules filter)
      (loadCommands source.width source.height mipLevels (source.texel format))
    let image ← if generateMipMaps then
        image.run (rules filter) (mipCommands source.width source.height mipLevels)
      else some image
    if ViewFits image false mipLevels .twoD 1 0 then some image else none
  else none

/-! ### Loading a texture -/

variable {filter : LinearFilter T}

/-- The region that `load` copies. -/
def pixels (width height : Nat) (pixel : Nat × Nat → T) : ImageRegion T :=
  ⟨⟨0, 0⟩, (0, 0), (width, height), pixel⟩

/-- The image that `load` creates. -/
def created (width height mipLevels : Nat) : VkImage T :=
  ⟨mipLevels, 1, width, height, loadUsage, fun _ => .undefined, fun _ _ => none⟩

/-- The image that `load` leaves, without mipmaps. -/
def loaded (width height mipLevels : Nat) (pixel : Nat × Nat → T) : VkImage T :=
  (created width height mipLevels).uploaded ⟨0, mipLevels, 0, 1⟩ .shaderReadOnly
    [pixels width height pixel]

theorem mipLevels_plain (width height : Nat) : mipLevels width height false = 1 := rfl

theorem mipLevels_pos (width height : Nat) (generateMipMaps : Bool) :
    0 < mipLevels width height generateMipMaps := by
  unfold mipLevels
  split_ifs <;> omega

theorem mipLevels_le (width height : Nat) (generateMipMaps : Bool) :
    mipLevels width height generateMipMaps ≤ Nat.log2 (max width height) + 1 := by
  unfold mipLevels
  split_ifs <;> omega

theorem mem_levels {mipLevels level : Nat} (hlevel : level < mipLevels) :
    (⟨level, 0⟩ : ImagePart) ∈ (⟨0, mipLevels, 0, 1⟩ : PartRange).parts :=
  PartRange.mem_parts.mpr ⟨⟨Nat.zero_le _, by simpa using hlevel⟩, Nat.le_refl 0, Nat.one_pos⟩

theorem createImage_load {width height : Nat} (hwidth : 0 < width) (hheight : 0 < height)
    (generateMipMaps : Bool) :
    createImage (T := T) width height (mipLevels width height generateMipMaps) loadUsage 1 false =
      some (created width height (mipLevels width height generateMipMaps)) :=
  if_pos ⟨⟨hwidth, hheight⟩, ⟨mipLevels_pos .., mipLevels_le ..⟩, Nat.one_pos, by simp⟩

theorem run_loadCommands (filter : LinearFilter T) {width height mipLevels : Nat}
    (hwidth : 0 < width) (hheight : 0 < height) (hlevels : 0 < mipLevels) (pixel : Nat × Nat → T) :
    (created width height mipLevels).run (rules filter)
      (loadCommands width height mipLevels pixel) = some (loaded width height mipLevels pixel) := by
  have hrange : (created (T := T) width height mipLevels).HasRange ⟨0, mipLevels, 0, 1⟩ :=
    ⟨⟨hlevels, Nat.le_of_eq (Nat.zero_add _)⟩, Nat.one_pos, Nat.le_refl 1⟩
  have hadmits : ∀ layout, loadUsage.allows layout = true → layout ≠ .undefined →
      (created (T := T) width height mipLevels).Admits (rules filter) ⟨0, mipLevels, 0, 1⟩
        layout := fun layout hallows hdefined => ⟨hrange, hdefined, hallows⟩
  refine (LayeredImage.run_upload_iff (rules_dst_ne filter _)).mpr
    ⟨⟨hadmits .transferDst rfl (by decide), hadmits .shaderReadOnly rfl (by decide),
      List.cons_ne_nil _ _⟩, ?_, rfl⟩
  intro region hregion
  obtain rfl := List.mem_singleton.mp hregion
  refine ⟨⟨⟨hlevels, Nat.one_pos⟩, ⟨hwidth, ?_⟩, hheight, ?_⟩, Or.inl ?_⟩
  · exact Nat.le_trans (Nat.le_of_eq (Nat.zero_add width)) (Nat.le_max_right 1 width)
  · exact Nat.le_trans (Nat.le_of_eq (Nat.zero_add height)) (Nat.le_max_right 1 height)
  · exact mem_levels hlevels

/-- The first command of `generateMipmaps` expects the first level to be in the layout
for copies. -/
theorem mipCommands_head (width height : Nat) {mipLevels : Nat} (hlevels : 0 < mipLevels) :
    ∃ new rest, mipCommands (T := T) width height mipLevels =
      .barrier ⟨0, 1, 0, 1⟩ .transferDst new :: rest := by
  obtain ⟨levels, rfl⟩ := Nat.exists_eq_add_of_lt hlevels
  rw [Nat.zero_add]
  cases levels with
  | zero => exact ⟨_, _, rfl⟩
  | succ levels => exact ⟨_, _, rfl⟩

/-- `generateMipmaps` is refused after the second barrier of `load`. -/
theorem run_mipCommands_loaded {width height mipLevels : Nat} (hlevels : 0 < mipLevels)
    (pixel : Nat × Nat → T) :
    (loaded width height mipLevels pixel).run (rules filter)
      (mipCommands width height mipLevels) = none := by
  obtain ⟨new, rest, hhead⟩ := mipCommands_head (T := T) width height hlevels
  have hlayout : (loaded width height mipLevels pixel).layout ⟨0, 0⟩ = .shaderReadOnly := by
    rw [loaded, LayeredImage.layout_uploaded, if_pos (mem_levels hlevels)]
  rw [hhead, LayeredImage.run_cons, LayeredImage.exec,
    LayeredImage.barrier_eq_none (rules_dst_ne filter _) (by decide : (⟨0, 0⟩ : ImagePart) ∈ _)
      (by rw [hlayout]; decide)]
  rfl

/-! ### The mip chain -/

/-- An image of one layer in the layouts of `s`. -/
structure Follows (width height : Nat) (s : ImageState) (i : VkImage T) : Prop where
  levels : i.levels = s.mipLevels
  layers : i.layers = 1
  usage : i.usage = loadUsage
  size : i.width = width ∧ i.height = height
  layout : ∀ level < s.mipLevels, i.layout ⟨level, 0⟩ = (s.layout level).toVk

theorem Follows.fits {width height level : Nat} {s : ImageState} {i : VkImage T}
    (h : Follows width height s i) (hlevel : level < s.mipLevels) :
    i.Fits ⟨level, 0⟩ (0, 0) (mipExtent width height level) := by
  obtain ⟨rfl, rfl⟩ := h.size
  refine ⟨⟨h.levels ▸ hlevel, h.layers ▸ Nat.one_pos⟩, ⟨?_, ?_⟩, ?_, ?_⟩ <;>
    simp only [mipExtent, LayeredImage.extent] <;> omega

theorem toVk_defined (filter : LinearFilter T) (layout : ImageLayout) :
    layout.toVk ≠ (rules filter).undefined ∧ loadUsage.allows layout.toVk = true := by
  cases layout <;> simp [ImageLayout.toVk, rulesFor, loadUsage, ImageUsage.allows]

theorem Follows.relayout {width height level : Nat} {s : ImageState} {i : VkImage T}
    (h : Follows width height s i) (new : ImageLayout) :
    Follows width height { s with layout := Function.update s.layout level new }
      (i.relayout ⟨level, 1, 0, 1⟩ new.toVk) := by
  refine ⟨h.levels, h.layers, h.usage, h.size, fun other hother => ?_⟩
  have hmem : (⟨other, 0⟩ : ImagePart) ∈ (⟨level, 1, 0, 1⟩ : PartRange).parts ↔ other = level := by
    rw [PartRange.mem_parts]
    simp only [Nat.zero_le, true_and]
    omega
  simp only [LayeredImage.relayout, hmem]
  by_cases heq : other = level
  · rw [if_pos heq, heq, Function.update_self]
  · rw [if_neg heq, Function.update_of_ne heq, h.layout other hother]

theorem Follows.barrier {width height : Nat} {s s' : ImageState} {i : VkImage T}
    {barrier : ImageBarrier} (h : Follows width height s i)
    (hexec : s.exec (.pipelineBarrier barrier) = some s') :
    ∃ i', i.exec (rules filter) (Command.pipelineBarrier barrier).toVk = some i' ∧
      Follows width height s' i' := by
  simp only [ImageState.exec] at hexec
  split at hexec
  case isFalse => cases hexec
  case isTrue hvalid =>
    obtain ⟨hlevel, hlayout⟩ := hvalid
    obtain rfl := Option.some.inj hexec
    obtain ⟨hold, hallowsOld⟩ := toVk_defined filter barrier.oldLayout
    obtain ⟨hnew, hallowsNew⟩ := toVk_defined filter barrier.newLayout
    refine ⟨_, (LayeredImage.barrier_iff hold).mpr ⟨⟨⟨⟨Nat.one_pos, ?_⟩, Nat.one_pos, ?_⟩, hnew,
      h.usage ▸ hallowsNew⟩, ⟨h.usage ▸ hallowsOld, ?_⟩, rfl⟩, h.relayout barrier.newLayout⟩
    · rw [h.levels]
      exact hlevel
    · rw [h.layers]
      exact Nat.le_refl 1
    · intro p hp
      obtain ⟨⟨hlow, hhigh⟩, -, hlayer⟩ := PartRange.mem_parts.mp hp
      have hp : p = ⟨barrier.baseMipLevel, 0⟩ := by
        cases p
        simp only [ImagePart.mk.injEq] at hlow hhigh hlayer ⊢
        omega
      rw [hp, h.layout _ hlevel, hlayout]

theorem Follows.blit {width height k : Nat} {s s' : ImageState} {i : VkImage T}
    (h : Follows width height s i)
    (hexec : s.exec (.blitImage (mipBlit width height k)) = some s') :
    ∃ i', i.exec (rules filter) (Command.blitImage (mipBlit width height k)).toVk = some i' ∧
      Follows width height s' i' := by
  simp only [ImageState.exec] at hexec
  split at hexec
  case isFalse => cases hexec
  case isTrue hvalid =>
    obtain ⟨hsrc, hsrcLayout, -, hdst, hdstLayout⟩ := hvalid
    obtain rfl := Option.some.inj hexec
    have hparts : (⟨k, 0⟩ : ImagePart) ≠ ⟨k + 1, 0⟩ := by simp
    refine ⟨_, if_pos ⟨⟨rfl, rfl, hparts⟩, ⟨by rw [h.usage]; rfl, ?_, h.fits hsrc⟩,
      by rw [h.usage]; rfl, ?_, h.fits hdst⟩, h.levels, h.layers, h.usage, h.size, h.layout⟩
    · exact (h.layout k hsrc).trans (congrArg ImageLayout.toVk hsrcLayout)
    · exact (h.layout (k + 1) hdst).trans (congrArg ImageLayout.toVk hdstLayout)

/-- The commands whose blits have the extents of the chain are accepted together with
those of `ImageState`. -/
theorem Follows.run {width height : Nat} {commands : List Command} {s s' : ImageState}
    {i : VkImage T} (h : Follows width height s i) (filter : LinearFilter T)
    (hrun : commands.foldlM ImageState.exec s = some s')
    (hchain : ∀ blit ∈ blits commands, ∃ k, blit = mipBlit width height k) :
    ∃ i', i.run (rules filter) (commands.map Command.toVk) = some i' ∧
      Follows width height s' i' := by
  induction commands generalizing s i with
  | nil =>
      obtain rfl := Option.some.inj hrun
      exact ⟨i, rfl, h⟩
  | cons command commands ih =>
      rw [List.foldlM_cons, Option.bind_eq_bind, Option.bind_eq_some_iff] at hrun
      obtain ⟨t, hfirst, hrest⟩ := hrun
      have hstep : ∃ i', i.exec (rules filter) command.toVk = some i' ∧
          Follows width height t i' := by
        cases command with
        | pipelineBarrier barrier => exact h.barrier hfirst
        | blitImage blit =>
            obtain ⟨k, rfl⟩ := hchain blit (List.mem_cons_self ..)
            exact h.blit hfirst
      obtain ⟨i', hexec, hfollows⟩ := hstep
      obtain ⟨i'', hrun', hend⟩ := ih hfollows hrest fun blit hblit =>
        hchain blit (by cases command <;> simp [blits] at hblit ⊢ <;> simp [hblit])
      refine ⟨i'', ?_, hend⟩
      rw [List.map_cons, LayeredImage.run_cons, hexec]
      exact hrun'

/-- `generateMipmaps` brings the levels of a copied image into the layout for reading. -/
theorem generateMipmaps_run (width height : Nat) {mipLevels : Nat} (hlevels : 0 < mipLevels) :
    ∃ s, (generateMipmaps width height mipLevels).foldlM ImageState.exec (.copied mipLevels) =
        some s ∧ s.mipLevels = mipLevels ∧ ∀ level < mipLevels, s.layout level = .shaderReadOnly := by
  have hloop := ImageState.exec_mipLoop (show 0 + (mipLevels - 1) < mipLevels by omega)
    width height
  rw [ImageState.turn_zero, Nat.zero_add, Nat.zero_add] at hloop
  have hlast : (ImageState.turn mipLevels (mipLevels - 1)).layout (mipLevels - 1) = .transferDst :=
    if_neg (Nat.lt_irrefl _)
  rw [generateMipmaps, List.foldlM_append, hloop, Option.bind_eq_bind, Option.bind_some,
    List.foldlM_cons, ImageState.exec_pipelineBarrier (Nat.sub_lt hlevels Nat.one_pos) hlast]
  refine ⟨_, rfl, rfl, fun level hlevel => ?_⟩
  by_cases heq : level = mipLevels - 1
  · exact heq ▸ Function.update_self ..
  · exact (Function.update_of_ne heq ..).trans (if_pos (by omega))

theorem run_copyCommands (filter : LinearFilter T) {width height mipLevels : Nat}
    (hwidth : 0 < width) (hheight : 0 < height) (hlevels : 0 < mipLevels) (pixel : Nat × Nat → T) :
    ∃ i, (created width height mipLevels).run (rules filter)
        (copyCommands width height mipLevels pixel) = some i ∧
      Follows width height (.copied mipLevels) i := by
  have hload := run_loadCommands filter hwidth hheight hlevels pixel
  rw [loadCommands, LayeredImage.run_append, Option.bind_eq_some_iff] at hload
  obtain ⟨i, hcopy, hlast⟩ := hload
  have hshape := LayeredImage.run_sameShape hcopy
  rw [LayeredImage.run_cons, Option.bind_eq_some_iff] at hlast
  obtain ⟨j, hbarrier, -⟩ := hlast
  -- the next barrier of `load` finds all levels in the layout for copies
  obtain ⟨-, ⟨-, hopen⟩, -⟩ := (LayeredImage.barrier_iff (rules_dst_ne filter _)).mp hbarrier
  refine ⟨i, hcopy, hshape.levels, hshape.layers, hshape.usage, hshape.size,
    fun level hlevel => hopen _ (mem_levels hlevel)⟩

section

variable {filter : LinearFilter (List UInt8)} {format : TextureFormat} {source : Image}

theorem load_mipmaps (hwidth : 0 < source.width) (hheight : 0 < source.height) :
    load filter format source true = none := by
  have hlevels := mipLevels_pos source.width source.height true
  simp only [load, createImage_load hwidth hheight, Option.bind_eq_bind, Option.bind_some,
    run_loadCommands filter hwidth hheight hlevels, if_true, run_mipCommands_loaded hlevels,
    Option.bind_none, ite_self]

theorem load_plain (hwidth : 0 < source.width) (hheight : 0 < source.height) :
    load filter format source false = if format.size ≤ source.pixelFormat.size then
      some (loaded source.width source.height 1 (source.texel format)) else none := by
  have hview : ViewFits (loaded source.width source.height 1 (source.texel format)) false 1 .twoD
      1 0 := by
    refine ⟨?_, rfl⟩
    rw [loaded, LayeredImage.uploaded, LayeredImage.puts_eq]
    exact ⟨⟨Nat.one_pos, Nat.le_refl 1⟩, Nat.one_pos, Nat.le_refl 1⟩
  have hcreate := createImage_load (T := List UInt8) hwidth hheight false
  have hrun := run_loadCommands filter hwidth hheight Nat.one_pos (source.texel format)
  rw [mipLevels_plain] at hcreate
  simp only [load, mipLevels_plain, hcreate, Option.bind_eq_bind, Option.bind_some, hrun,
    Bool.false_eq_true, if_false, Image.size_le_imageSize_iff hwidth hheight]
  by_cases hsize : format.size ≤ source.pixelFormat.size
  · rw [if_pos hsize, if_pos hsize]
    exact if_pos hview
  · rw [if_neg hsize, if_neg hsize]

/-- `load` is accepted if and only if it makes no mipmaps and the image has the bytes for the
format; then the first level is readable, and it holds the pixels exactly if they are as long
as its texels. With mipmaps, `generateMipmaps` itself would be accepted straight after the
copy: it is the barrier in between that it does not expect. -/
theorem load_iff (format : TextureFormat) (hwidth : 0 < source.width)
    (hheight : 0 < source.height) :
    (∀ generateMipMaps, (load filter format source generateMipMaps).isSome ↔
      format.size ≤ source.pixelFormat.size ∧ generateMipMaps = false) ∧
    (∀ image, load filter format source false = some image →
      image.layout ⟨0, 0⟩ = .shaderReadOnly ∧
        ((∀ x < source.width, ∀ y < source.height,
          image.texel ⟨0, 0⟩ (x, y) = some (source.pixel (x, y))) ↔
            format.size = source.pixelFormat.size)) ∧
    ∃ image, (created source.width source.height
        (mipLevels source.width source.height true)).run (rules filter)
        (copyCommands source.width source.height (mipLevels source.width source.height true)
            (source.texel format) ++
          mipCommands source.width source.height (mipLevels source.width source.height true)) =
        some image ∧
      ∀ level < mipLevels source.width source.height true,
        image.layout ⟨level, 0⟩ = .shaderReadOnly := by
  refine ⟨fun generateMipMaps => ?_, fun image hload => ?_, ?_⟩
  · cases generateMipMaps
    · rw [load_plain hwidth hheight]
      split_ifs with hsize <;> simp [hsize]
    · simp [load_mipmaps hwidth hheight]
  · rw [load_plain hwidth hheight] at hload
    split_ifs at hload
    obtain rfl := Option.some.inj hload
    have htexel : ∀ x < source.width, ∀ y < source.height,
        (loaded source.width source.height 1 (source.texel format)).texel ⟨0, 0⟩ (x, y) =
          some (source.texel format (x, y)) := by
      intro x hx y hy
      rw [loaded, LayeredImage.texel_uploaded (mem_levels Nat.one_pos)]
      simp [pixels, ImageRegion.Covers, ImageRegion.texel, hx, hy]
    constructor
    · rw [loaded, LayeredImage.layout_uploaded, if_pos (mem_levels Nat.one_pos)]
    · refine ⟨fun h => ?_, fun hsize x hx y hy => ?_⟩
      · have hfirst := (htexel 0 hwidth 0 hheight).symm.trans (h 0 hwidth 0 hheight)
        exact (source.texel_eq_pixel_iff format (0, 0)).mp (Option.some.inj hfirst)
      · rw [htexel x hx y hy, (source.texel_eq_pixel_iff format (x, y)).mpr hsize]
  · have hlevels := mipLevels_pos source.width source.height true
    obtain ⟨copied, hcopy, hfollows⟩ :=
      run_copyCommands filter hwidth hheight hlevels (source.texel format)
    obtain ⟨s, hchain, hmipLevels, hreadable⟩ :=
      generateMipmaps_run source.width source.height hlevels
    obtain ⟨image, hrun, hend⟩ := hfollows.run filter hchain (by
      rw [blits_generateMipmaps hwidth hheight]
      intro blit hblit
      obtain ⟨k, -, rfl⟩ := List.mem_map.mp hblit
      exact ⟨k, rfl⟩)
    refine ⟨image, ?_, fun level hlevel => ?_⟩
    · rw [LayeredImage.run_append, hcopy]
      exact hrun
    · rw [hend.layout level (hmipLevels.symm ▸ hlevel), hreadable level hlevel]
      rfl

end

/-- Two pixels, of four bytes each or of sixteen. -/
private def twoByOne (pixelFormat : TextureFormat) : Image := ⟨pixelFormat, 2, 1, fun _ => 7⟩

theorem load_iff_two_by_one :
    (load (fun _ _ => id) .rgba (twoByOne .rgba8) true).isNone ∧
      (load (fun _ _ => id) .rgba (twoByOne .rgba8) false).isSome ∧
      (load (fun _ _ => id) .rgba32 (twoByOne .rgba8) false).isNone ∧
      ∀ image, load (fun _ _ => id) .rgba (twoByOne .rgba32) false = some image →
        ¬ ∀ x < 2, ∀ y < 1, image.texel ⟨0, 0⟩ (x, y) = some ((twoByOne .rgba32).pixel (x, y)) := by
  have hpos : ∀ pixelFormat, 0 < (twoByOne pixelFormat).width ∧ 0 < (twoByOne pixelFormat).height :=
    fun _ => ⟨Nat.two_pos, Nat.one_pos⟩
  have hplain : ∀ format pixelFormat generateMipMaps,
      (load (fun _ _ => id) format (twoByOne pixelFormat) generateMipMaps).isSome ↔
        format.size ≤ pixelFormat.size ∧ generateMipMaps = false := fun format pixelFormat =>
    (load_iff format (hpos pixelFormat).1 (hpos pixelFormat).2).1
  have hhdr := (@load_iff (fun _ _ => id) _ .rgba (hpos .rgba32).1 (hpos .rgba32).2).2.1
  refine ⟨?_, (hplain .rgba .rgba8 false).mpr (by decide), ?_, fun image hload h => ?_⟩
  · rw [Option.isNone_iff_eq_none, ← Option.not_isSome_iff_eq_none, hplain]
    decide
  · rw [Option.isNone_iff_eq_none, ← Option.not_isSome_iff_eq_none, hplain]
    decide
  · exact absurd ((hhdr image hload).2.mp h) (by decide)

end VulkanTexture2D

/-! ### KTX files -/

/-- A KTX file of a format with four bytes a texel, as the library has read it: it has six faces
if it is a cube map, and one otherwise, with slices. -/
structure KtxFile extends KtxTexture where
  isCubemap : Bool
  baseDepth : Nat
  numLayers_pos : 0 < numLayers

/-- The faces or slices of a level. -/
def KtxFile.slices (ktxTexture : KtxFile) (level : Nat) : Nat :=
  if ktxTexture.isCubemap then 6 else max 1 (ktxTexture.baseDepth >>> level)

/-- `ktxTexture_GetImageOffset`; the loaders assert that it succeeds. -/
def KtxFile.getImageOffset (ktxTexture : KtxFile) (level layer faceSlice : Nat) : Option Nat :=
  if level < ktxTexture.numLevels ∧ layer < ktxTexture.numLayers ∧
      faceSlice < ktxTexture.slices level then
    some (ktxTexture.imageOffset level layer faceSlice)
  else none

theorem KtxFile.getImageOffset_isSome {ktxTexture : KtxFile} {level layer faceSlice : Nat} :
    (ktxTexture.getImageOffset level layer faceSlice).isSome ↔
      level < ktxTexture.numLevels ∧ layer < ktxTexture.numLayers ∧
        faceSlice < ktxTexture.slices level := by
  unfold getImageOffset
  split_ifs with h <;> simp [h]

/-- The assertions hold in a loop over layers, faces and levels. -/
def KtxFile.HasOffsets (ktxTexture : KtxFile) (layers faces : Nat) : Prop :=
  ∀ layer ∈ List.range layers, ∀ face ∈ List.range faces,
    ∀ level ∈ List.range ktxTexture.numLevels,
      (ktxTexture.getImageOffset level layer face).isSome

instance (ktxTexture : KtxFile) (layers faces : Nat) :
    Decidable (ktxTexture.HasOffsets layers faces) :=
  inferInstanceAs (Decidable (∀ layer ∈ _, ∀ face ∈ _, ∀ level ∈ _, _))

theorem KtxFile.hasOffsets_iff {ktxTexture : KtxFile} {layers faces : Nat}
    (hlayers : 0 < layers) (hle : layers ≤ ktxTexture.numLayers) (hfaces : 0 < faces) :
    ktxTexture.HasOffsets layers faces ↔
      ∀ level < ktxTexture.numLevels, faces ≤ ktxTexture.slices level := by
  simp only [HasOffsets, List.mem_range, getImageOffset_isSome]
  constructor
  · intro h level hlevel
    have hlast := (h 0 hlayers (faces - 1) (by omega) level hlevel).2.2
    omega
  · intro h layer hlayer face hface level hlevel
    exact ⟨hlevel, by omega, Nat.lt_of_lt_of_le hface (h level hlevel)⟩

theorem KtxFile.slices_pos (ktxTexture : KtxFile) (level : Nat) :
    0 < ktxTexture.slices level := by
  unfold slices
  split_ifs <;> omega

/-- The copy of a level out of the staging buffer, whose texels have four bytes. -/
def BufferImageCopy.region (buffer : Nat → T) (copy : BufferImageCopy) : ImageRegion T where
  part := ⟨copy.mipLevel, copy.baseArrayLayer⟩
  offset := (0, 0)
  extent := copy.imageExtent
  data := fun xy => buffer (copy.bufferOffset + 4 * (xy.2 * copy.imageExtent.1 + xy.1))

/-- The commands of `VulkanTexture2D::loadKTX` and `VulkanTextureCube::load`. -/
def ktxCommands (range : PartRange) (buffer : Nat → T) (copies : List BufferImageCopy) :
    List (VkCommand T) :=
  [setImageLayout .undefined .transferDst range,
    .copyBuffer .transferDst (copies.map (BufferImageCopy.region buffer)),
    setImageLayout .transferDst .shaderReadOnly range]

/-- The usage of an image that is loaded from a KTX file. -/
def ktxUsage : ImageUsage := { transferDst := true, sampled := true }

/-- `VulkanTexture2D::loadKTX` up to its view. -/
def VulkanTexture2D.uploadKTX (filter : LinearFilter T) (ktxTexture : KtxFile)
    (buffer : Nat → T) : Option (VkImage T) := do
  if ktxTexture.HasOffsets ktxTexture.numLayers 1 then
    let image ← createImage ktxTexture.baseWidth ktxTexture.baseHeight ktxTexture.numLevels
      ktxUsage ktxTexture.numLayers false
    image.run (rules filter)
      (ktxCommands ⟨0, ktxTexture.numLevels, 0, 1⟩ buffer
        (Vulkan.loadKTX ktxTexture.toKtxTexture))
  else none

/-- `VulkanTexture2D::loadKTX`; its view is that of a cube. -/
def VulkanTexture2D.loadKTX (filter : LinearFilter T) (ktxTexture : KtxFile)
    (buffer : Nat → T) : Option (VkImage T) := do
  let image ← uploadKTX filter ktxTexture buffer
  if ViewFits image false ktxTexture.numLevels .cube ktxTexture.numLayers 0 then some image
  else none

/-- `VulkanTextureCube::load`. -/
def VulkanTextureCube.load (filter : LinearFilter T) (ktxTexture : KtxFile)
    (buffer : Nat → T) : Option (VkImage T) := do
  let image ← createImage ktxTexture.baseWidth ktxTexture.baseHeight ktxTexture.numLevels
    ktxUsage 6 true
  if ktxTexture.HasOffsets 1 6 then
    let image ← image.run (rules filter)
      (ktxCommands ⟨0, ktxTexture.numLevels, 0, 6⟩ buffer (loadCube ktxTexture.toKtxTexture))
    if ViewFits image true ktxTexture.numLevels .cube 6 0 then some image else none
  else none

/-- Every level has six faces, or as many slices. -/
def KtxFile.SixFaces (ktxTexture : KtxFile) : Prop :=
  ∀ level < ktxTexture.numLevels, 6 ≤ ktxTexture.slices level

/-- There are levels, and both sides have a bit left at each of them. -/
def KtxTexture.Full (ktxTexture : KtxTexture) : Prop :=
  0 < ktxTexture.numLevels ∧ ∀ level < ktxTexture.numLevels,
    2 ^ level ≤ ktxTexture.baseWidth ∧ 2 ^ level ≤ ktxTexture.baseHeight

/-- A new image for a KTX file. -/
def ktxCreated (ktxTexture : KtxTexture) (layers : Nat) : VkImage T :=
  ⟨ktxTexture.numLevels, layers, ktxTexture.baseWidth, ktxTexture.baseHeight, ktxUsage,
    fun _ => .undefined, fun _ _ => none⟩

theorem KtxTexture.Full.sizes {ktxTexture : KtxTexture} (h : ktxTexture.Full) :
    (0 < ktxTexture.baseWidth ∧ 0 < ktxTexture.baseHeight) ∧ 0 < ktxTexture.numLevels ∧
      ktxTexture.numLevels ≤ Nat.log2 (max ktxTexture.baseWidth ktxTexture.baseHeight) + 1 := by
  obtain ⟨hlevels, hbits⟩ := h
  refine ⟨hbits 0 hlevels, hlevels, ?_⟩
  obtain ⟨hwidth, -⟩ := hbits (ktxTexture.numLevels - 1) (by omega)
  have hmax : 2 ^ (ktxTexture.numLevels - 1) ≤ max ktxTexture.baseWidth ktxTexture.baseHeight :=
    Nat.le_trans hwidth (Nat.le_max_left ..)
  have hpos : max ktxTexture.baseWidth ktxTexture.baseHeight ≠ 0 := by
    have := Nat.two_pow_pos (ktxTexture.numLevels - 1)
    omega
  have := (Nat.le_log2 hpos).mpr hmax
  omega

/-- A shifted extent lies in its level if it is not empty. -/
theorem fits_shifted (image : VkImage T) (p : ImagePart) :
    image.Fits p (0, 0) (image.width >>> p.level, image.height >>> p.level) ↔
      image.Has p ∧ 2 ^ p.level ≤ image.width ∧ 2 ^ p.level ≤ image.height := by
  have hpos : ∀ size, 0 < size >>> p.level ↔ 2 ^ p.level ≤ size := by
    intro size
    rw [Nat.shiftRight_eq_div_pow, Nat.div_pos_iff]
    exact and_iff_right (Nat.two_pow_pos _)
  simp only [LayeredImage.Fits, LayeredImage.extent, Nat.zero_add, hpos]
  constructor
  · rintro ⟨hhas, ⟨hwidth, -⟩, hheight, -⟩
    exact ⟨hhas, hwidth, hheight⟩
  · rintro ⟨hhas, hwidth, hheight⟩
    exact ⟨hhas, ⟨hwidth, Nat.le_max_right ..⟩, hheight, Nat.le_max_right ..⟩

/-- A copy lies in its level and in the range of the barriers. -/
theorem ktx_copy_iff {ktxTexture : KtxTexture} {layers layerCount : Nat} {copy : BufferImageCopy}
    (hextent : copy.imageExtent =
      (ktxTexture.baseWidth >>> copy.mipLevel, ktxTexture.baseHeight >>> copy.mipLevel))
    (hlayers : layerCount ≤ layers) :
    ((ktxCreated (T := T) ktxTexture layers).Fits ⟨copy.mipLevel, copy.baseArrayLayer⟩ (0, 0)
        copy.imageExtent ∧
      ((⟨copy.mipLevel, copy.baseArrayLayer⟩ : ImagePart) ∈
          (⟨0, ktxTexture.numLevels, 0, layerCount⟩ : PartRange).parts ∨
        (ktxCreated (T := T) ktxTexture layers).layout ⟨copy.mipLevel, copy.baseArrayLayer⟩ =
          .transferDst)) ↔
    (copy.mipLevel < ktxTexture.numLevels ∧ copy.baseArrayLayer < layerCount) ∧
      2 ^ copy.mipLevel ≤ ktxTexture.baseWidth ∧ 2 ^ copy.mipLevel ≤ ktxTexture.baseHeight := by
  have hfits := fits_shifted (ktxCreated (T := T) ktxTexture layers)
    ⟨copy.mipLevel, copy.baseArrayLayer⟩
  have hparts : (⟨copy.mipLevel, copy.baseArrayLayer⟩ : ImagePart) ∈
      (⟨0, ktxTexture.numLevels, 0, layerCount⟩ : PartRange).parts ↔
      copy.mipLevel < ktxTexture.numLevels ∧ copy.baseArrayLayer < layerCount := by
    simp [PartRange.mem_parts]
  have hlayout : (ktxCreated (T := T) ktxTexture layers).layout
      ⟨copy.mipLevel, copy.baseArrayLayer⟩ ≠ .transferDst := by
    simp [ktxCreated]
  rw [hextent, hparts, or_iff_left hlayout]
  refine (and_congr_left fun _ => hfits).trans ⟨?_, ?_⟩
  · rintro ⟨⟨-, hbits⟩, hrange⟩
    exact ⟨hrange, hbits⟩
  · rintro ⟨hrange, hbits⟩
    exact ⟨⟨⟨hrange.1, Nat.lt_of_lt_of_le hrange.2 hlayers⟩, hbits⟩, hrange⟩

/-- The copies of a KTX file are accepted if and only if they lie in the range of the
barriers and every one of them has a bit left. -/
theorem run_ktxCommands_iff {filter : LinearFilter T} {ktxTexture : KtxTexture}
    {layers layerCount : Nat} {buffer : Nat → T} {copies : List BufferImageCopy} {j : VkImage T}
    (hextent : ∀ copy ∈ copies, copy.imageExtent =
      (ktxTexture.baseWidth >>> copy.mipLevel, ktxTexture.baseHeight >>> copy.mipLevel))
    (hlayers : layerCount ≤ layers) :
    (ktxCreated ktxTexture layers).run (rules filter)
        (ktxCommands ⟨0, ktxTexture.numLevels, 0, layerCount⟩ buffer copies) = some j ↔
      (0 < ktxTexture.numLevels ∧ 0 < layerCount ∧ copies ≠ []) ∧
        (∀ copy ∈ copies,
          (copy.mipLevel < ktxTexture.numLevels ∧ copy.baseArrayLayer < layerCount) ∧
            2 ^ copy.mipLevel ≤ ktxTexture.baseWidth ∧
            2 ^ copy.mipLevel ≤ ktxTexture.baseHeight) ∧
        j = (ktxCreated ktxTexture layers).uploaded ⟨0, ktxTexture.numLevels, 0, layerCount⟩
          .shaderReadOnly (copies.map (BufferImageCopy.region buffer)) := by
  have hadmits : ∀ layout, ktxUsage.allows layout = true → layout ≠ .undefined →
      ((ktxCreated (T := T) ktxTexture layers).Admits (rules filter)
        ⟨0, ktxTexture.numLevels, 0, layerCount⟩ layout ↔
        0 < ktxTexture.numLevels ∧ 0 < layerCount) := by
    intro layout hallows hdefined
    refine ⟨fun h => ⟨h.1.1.1, h.1.2.1⟩, fun h => ⟨⟨⟨h.1, ?_⟩, h.2, ?_⟩, hdefined, hallows⟩⟩
    · exact Nat.le_of_eq (Nat.zero_add _)
    · exact Nat.le_trans (Nat.le_of_eq (Nat.zero_add _)) hlayers
  refine (LayeredImage.run_upload_iff (rules_dst_ne filter _)).trans
    (and_congr ?_ (and_congr_left' ?_))
  · refine (and_congr (hadmits .transferDst rfl (by decide))
      (and_congr_left' (hadmits .shaderReadOnly rfl (by decide)))).trans ?_
    rw [ne_eq, List.map_eq_nil_iff]
    exact ⟨fun h => ⟨h.1.1, h.1.2, h.2.2⟩, fun h => ⟨⟨h.1, h.2.1⟩, ⟨h.1, h.2.1⟩, h.2.2⟩⟩
  · rw [List.forall_mem_map]
    exact forall₂_congr fun copy hcopy => ktx_copy_iff (hextent copy hcopy) hlayers

theorem mem_loadKTX {ktxTexture : KtxTexture} {copy : BufferImageCopy} :
    copy ∈ Vulkan.loadKTX ktxTexture ↔
      ∃ layer < ktxTexture.numLayers, ∃ level < ktxTexture.numLevels,
        copy = ⟨level, layer, (ktxTexture.baseWidth >>> level, ktxTexture.baseHeight >>> level),
          ktxTexture.imageOffset level layer 0⟩ := by
  simp [Vulkan.loadKTX, eq_comm]

theorem mem_loadCube {ktxTexture : KtxTexture} {copy : BufferImageCopy} :
    copy ∈ loadCube ktxTexture ↔
      ∃ face < 6, ∃ level < ktxTexture.numLevels,
        copy = ⟨level, face, (ktxTexture.baseWidth >>> level, ktxTexture.baseHeight >>> level),
          ktxTexture.imageOffset level 0 face⟩ := by
  simp [loadCube, eq_comm]

variable {filter : LinearFilter T} {ktxTexture : KtxFile} {buffer : Nat → T}

namespace VulkanTexture2D

theorem uploadKTX_isSome_iff :
    (uploadKTX filter ktxTexture buffer).isSome ↔
      ktxTexture.numLayers = 1 ∧ ktxTexture.Full := by
  have hextent : ∀ copy ∈ Vulkan.loadKTX ktxTexture.toKtxTexture, copy.imageExtent =
      (ktxTexture.baseWidth >>> copy.mipLevel, ktxTexture.baseHeight >>> copy.mipLevel) := by
    intro copy hcopy
    obtain ⟨layer, -, level, -, rfl⟩ := mem_loadKTX.mp hcopy
    rfl
  have hoffsets : ktxTexture.HasOffsets ktxTexture.numLayers 1 :=
    (KtxFile.hasOffsets_iff ktxTexture.numLayers_pos (Nat.le_refl _) Nat.one_pos).mpr
      fun level _ => ktxTexture.slices_pos level
  rw [uploadKTX, if_pos hoffsets, Option.isSome_iff_exists]
  constructor
  · rintro ⟨image, hupload⟩
    obtain ⟨created, hcreate, hrun⟩ := Option.bind_eq_some_iff.mp hupload
    obtain ⟨⟨-, hlayers, -⟩, rfl⟩ := createImage_eq hcreate
    obtain ⟨⟨hlevels, -, -⟩, hcopies, -⟩ := (run_ktxCommands_iff hextent hlayers).mp hrun
    have hlevel : ∀ layer < ktxTexture.numLayers, ∀ level < ktxTexture.numLevels,
        (level < ktxTexture.numLevels ∧ layer < 1) ∧ 2 ^ level ≤ ktxTexture.baseWidth ∧
          2 ^ level ≤ ktxTexture.baseHeight := fun layer hlayer level hlevel =>
      hcopies _ (mem_loadKTX.mpr ⟨layer, hlayer, level, hlevel, rfl⟩)
    -- the barriers cover the first layer only
    have hone : ¬ 1 < ktxTexture.numLayers := fun hmore =>
      absurd (hlevel 1 hmore 0 hlevels).1.2 (Nat.lt_irrefl 1)
    exact ⟨by omega, hlevels, fun level hl => (hlevel 0 hlayers level hl).2⟩
  · rintro ⟨hlayers, hfull⟩
    have hcreate : createImage (T := T) ktxTexture.baseWidth ktxTexture.baseHeight
        ktxTexture.numLevels ktxUsage ktxTexture.numLayers false =
        some (ktxCreated ktxTexture.toKtxTexture ktxTexture.numLayers) :=
      if_pos ⟨hfull.sizes.1, hfull.sizes.2, hlayers ▸ Nat.one_pos, by simp⟩
    refine ⟨_, Option.bind_eq_some_iff.mpr ⟨_, hcreate, (run_ktxCommands_iff hextent
      (Nat.le_of_eq hlayers.symm)).mpr ⟨⟨hfull.1, Nat.one_pos, ?_⟩, ?_, rfl⟩⟩⟩
    · exact List.ne_nil_of_mem (mem_loadKTX.mpr
        ⟨0, hlayers ▸ Nat.one_pos, 0, hfull.1, rfl⟩)
    · intro copy hcopy
      obtain ⟨layer, hlayer, level, hlevel, rfl⟩ := mem_loadKTX.mp hcopy
      exact ⟨⟨hlevel, hlayers ▸ hlayer⟩, hfull.2 level hlevel⟩

end VulkanTexture2D

namespace VulkanTextureCube

theorem load_eq_some_iff {image : VkImage T} :
    load filter ktxTexture buffer = some image ↔
      (ktxTexture.baseWidth = ktxTexture.baseHeight ∧ ktxTexture.Full ∧ ktxTexture.SixFaces) ∧
        image = (ktxCreated ktxTexture.toKtxTexture 6).uploaded ⟨0, ktxTexture.numLevels, 0, 6⟩
          .shaderReadOnly ((loadCube ktxTexture.toKtxTexture).map (BufferImageCopy.region buffer)) := by
  have hextent : ∀ copy ∈ loadCube ktxTexture.toKtxTexture, copy.imageExtent =
      (ktxTexture.baseWidth >>> copy.mipLevel, ktxTexture.baseHeight >>> copy.mipLevel) := by
    intro copy hcopy
    obtain ⟨face, -, level, -, rfl⟩ := mem_loadCube.mp hcopy
    rfl
  have hrun : ∀ j : VkImage T, (ktxCreated ktxTexture.toKtxTexture 6).run (rules filter)
      (ktxCommands ⟨0, ktxTexture.numLevels, 0, 6⟩ buffer (loadCube ktxTexture.toKtxTexture)) =
        some j ↔ _ :=
    fun j => run_ktxCommands_iff hextent (Nat.le_refl 6)
  have hoffsets : ktxTexture.HasOffsets 1 6 ↔ ktxTexture.SixFaces :=
    KtxFile.hasOffsets_iff Nat.one_pos ktxTexture.numLayers_pos (by decide)
  constructor
  · intro hload
    obtain ⟨created, hcreate, hload⟩ := Option.bind_eq_some_iff.mp hload
    obtain ⟨⟨-, -, hsquare⟩, rfl⟩ := createImage_eq hcreate
    by_cases hfaces : ktxTexture.HasOffsets 1 6
    case neg => exact nomatch (if_neg hfaces).symm.trans hload
    replace hload := (if_pos hfaces).symm.trans hload
    obtain ⟨uploaded, hupload, hview⟩ := Option.bind_eq_some_iff.mp hload
    obtain ⟨⟨hlevels, -, -⟩, hcopies, rfl⟩ := (hrun _).mp hupload
    split_ifs at hview
    obtain rfl := Option.some.inj hview
    refine ⟨⟨hsquare rfl, ⟨hlevels, fun level hlevel => ?_⟩, hoffsets.mp hfaces⟩, rfl⟩
    exact (hcopies _ (mem_loadCube.mpr ⟨0, by decide, level, hlevel, rfl⟩)).2
  · rintro ⟨⟨hsquare, hfull, hfaces⟩, rfl⟩
    have hcreate : createImage (T := T) ktxTexture.baseWidth ktxTexture.baseHeight
        ktxTexture.numLevels ktxUsage 6 true = some (ktxCreated ktxTexture.toKtxTexture 6) :=
      if_pos ⟨hfull.sizes.1, hfull.sizes.2, by decide, fun _ => ⟨hsquare, Nat.le_refl 6⟩⟩
    refine Option.bind_eq_some_iff.mpr ⟨_, hcreate, (if_pos (hoffsets.mpr hfaces)).trans
      (Option.bind_eq_some_iff.mpr
        ⟨_, (hrun _).mpr ⟨⟨hfull.1, by decide, ?_⟩, ?_, rfl⟩, if_pos ⟨?_, rfl, rfl⟩⟩)⟩
    · exact List.ne_nil_of_mem (mem_loadCube.mpr ⟨0, by decide, 0, hfull.1, rfl⟩)
    · intro copy hcopy
      obtain ⟨face, hface, level, hlevel, rfl⟩ := mem_loadCube.mp hcopy
      exact ⟨⟨hlevel, hface⟩, hfull.2 level hlevel⟩
    · rw [LayeredImage.uploaded, LayeredImage.puts_eq]
      exact ⟨⟨hfull.1, Nat.le_of_eq (Nat.zero_add _)⟩, Nat.succ_pos 5, Nat.le_refl 6⟩

/-- Every texel of a face comes from its own copy. -/
theorem texel_loaded {face level x y : Nat} (hface : face < 6)
    (hlevel : level < ktxTexture.numLevels) (hx : x < ktxTexture.baseWidth >>> level)
    (hy : y < ktxTexture.baseHeight >>> level) :
    ((ktxCreated ktxTexture.toKtxTexture 6).uploaded ⟨0, ktxTexture.numLevels, 0, 6⟩ .shaderReadOnly
        ((loadCube ktxTexture.toKtxTexture).map (BufferImageCopy.region buffer))).texel
          ⟨level, face⟩ (x, y) =
      some (buffer (ktxTexture.imageOffset level 0 face +
        4 * (y * (ktxTexture.baseWidth >>> level) + x))) := by
  let copy : BufferImageCopy :=
    ⟨level, face, (ktxTexture.baseWidth >>> level, ktxTexture.baseHeight >>> level),
      ktxTexture.imageOffset level 0 face⟩
  have hregion : copy.region buffer ∈
      (loadCube ktxTexture.toKtxTexture).map (BufferImageCopy.region buffer) :=
    List.mem_map_of_mem (mem_loadCube.mpr ⟨face, hface, level, hlevel, rfl⟩)
  refine LayeredImage.texel_uploaded_of_agree ?_ hregion ?_ ?_
  · simpa [PartRange.mem_parts] using ⟨hlevel, hface⟩
  · simpa [ImageRegion.Covers, BufferImageCopy.region, copy] using ⟨hx, hy⟩
  · intro other hother hcovers
    obtain ⟨otherCopy, hmem, rfl⟩ := List.mem_map.mp hother
    obtain ⟨otherFace, -, otherLevel, -, rfl⟩ := mem_loadCube.mp hmem
    obtain ⟨rfl, rfl⟩ := ImagePart.mk.inj hcovers.1
    rfl

end VulkanTextureCube

/-- The upload of a two-dimensional KTX file is accepted if and only if it has one layer
and both sides have a bit left at every level, but the view of a cube is never one of its
image. A cube is loaded if and only if it is square and full and has six faces; then every face
of every level is readable and holds its own texels. -/
theorem ktx_load_iff (filter : LinearFilter T) (ktxTexture : KtxFile) (buffer : Nat → T) :
    ((VulkanTexture2D.uploadKTX filter ktxTexture buffer).isSome ↔
      ktxTexture.numLayers = 1 ∧ ktxTexture.Full) ∧
    VulkanTexture2D.loadKTX filter ktxTexture buffer = none ∧
    ((VulkanTextureCube.load filter ktxTexture buffer).isSome ↔
      ktxTexture.baseWidth = ktxTexture.baseHeight ∧ ktxTexture.Full ∧ ktxTexture.SixFaces) ∧
    ∀ image, VulkanTextureCube.load filter ktxTexture buffer = some image →
      ∀ face < 6, ∀ level < ktxTexture.numLevels,
        image.layout ⟨level, face⟩ = .shaderReadOnly ∧
          ∀ x < ktxTexture.baseWidth >>> level, ∀ y < ktxTexture.baseHeight >>> level,
            image.texel ⟨level, face⟩ (x, y) =
              some (buffer (ktxTexture.imageOffset level 0 face +
                4 * (y * (ktxTexture.baseWidth >>> level) + x))) := by
  refine ⟨VulkanTexture2D.uploadKTX_isSome_iff, ?_, ?_, ?_⟩
  · unfold VulkanTexture2D.loadKTX
    cases VulkanTexture2D.uploadKTX filter ktxTexture buffer with
    | none => rfl
    | some image => exact if_neg fun hview => absurd hview.2.1 Bool.false_ne_true
  · rw [Option.isSome_iff_exists]
    simp only [VulkanTextureCube.load_eq_some_iff, exists_and_left, exists_eq, and_true]
  · intro image hload face hface level hlevel
    obtain ⟨-, rfl⟩ := VulkanTextureCube.load_eq_some_iff.mp hload
    refine ⟨?_, fun x hx y hy => VulkanTextureCube.texel_loaded hface hlevel hx hy⟩
    rw [LayeredImage.layout_uploaded, if_pos]
    simpa [PartRange.mem_parts] using ⟨hlevel, hface⟩

end Maple.Vulkan
