import Mathlib.Algebra.Group.Nat.Defs
import Mathlib.Data.Nat.Bits
import Mathlib.Logic.Function.Basic
import Mathlib.Tactic.SplitIfs

/-!
# Maple.Vulkan.Mipmaps

The commands that `generateMipmaps` and the KTX loaders of `VulkanTexture.cpp` record.
**The blit chain keeps the layouts of its levels** (`ImageState.exec` checks every
command against the layouts the image has), and its extents are the sizes of the mip
chain, `mipExtent`. The KTX loaders shift the base size without a lower bound, so their
copies have these extents as long as both sides have a bit left.
-/

namespace Maple.Vulkan

/-- `VkImageLayout`. -/
inductive ImageLayout where
  | transferDst
  | transferSrc
  | shaderReadOnly
  deriving DecidableEq, Repr

inductive AccessMask where
  | transferWrite
  | transferRead
  | shaderRead
  deriving DecidableEq, Repr

inductive PipelineStage where
  | transfer
  | fragmentShader
  deriving DecidableEq, Repr

/-- What is set of `VkImageMemoryBarrier`, with the stages of `vkCmdPipelineBarrier`. -/
structure ImageBarrier where
  baseMipLevel : Nat
  oldLayout : ImageLayout
  newLayout : ImageLayout
  srcAccessMask : AccessMask
  dstAccessMask : AccessMask
  srcStage : PipelineStage
  dstStage : PipelineStage
  deriving DecidableEq, Repr

/-- What is set of `VkImageBlit`, with the layouts given to `vkCmdBlitImage`. Both areas
start at the origin. -/
structure ImageBlit where
  srcLevel : Nat
  srcLayout : ImageLayout
  srcExtent : Nat × Nat
  dstLevel : Nat
  dstLayout : ImageLayout
  dstExtent : Nat × Nat
  deriving DecidableEq, Repr

inductive Command where
  | pipelineBarrier (barrier : ImageBarrier)
  | blitImage (blit : ImageBlit)
  deriving DecidableEq, Repr

/-- `if (size > 1) size /= 2`. -/
def halve (size : Nat) : Nat := if size > 1 then size / 2 else size

/-- The commands of one turn of the loop. -/
def mipTurn (i mipWidth mipHeight : Nat) : List Command :=
  [.pipelineBarrier
    { baseMipLevel := i - 1
      oldLayout := .transferDst, newLayout := .transferSrc
      srcAccessMask := .transferWrite, dstAccessMask := .transferRead
      srcStage := .transfer, dstStage := .transfer },
   .blitImage
    { srcLevel := i - 1
      srcLayout := .transferSrc
      srcExtent := (mipWidth, mipHeight)
      dstLevel := i
      dstLayout := .transferDst
      dstExtent := (if mipWidth > 1 then mipWidth / 2 else 1,
        if mipHeight > 1 then mipHeight / 2 else 1) },
   .pipelineBarrier
    { baseMipLevel := i - 1
      oldLayout := .transferSrc, newLayout := .shaderReadOnly
      srcAccessMask := .transferRead, dstAccessMask := .shaderRead
      srcStage := .transfer, dstStage := .fragmentShader }]

/-- The loop from turn `i` on, with the number of turns to go. -/
def mipLoop : Nat → Nat → Nat → Nat → List Command
  | 0, _, _, _ => []
  | turns + 1, i, mipWidth, mipHeight =>
    mipTurn i mipWidth mipHeight ++ mipLoop turns (i + 1) (halve mipWidth) (halve mipHeight)

/-- `generateMipmaps`, for at least one level. -/
def generateMipmaps (texWidth texHeight mipLevels : Nat) : List Command :=
  mipLoop (mipLevels - 1) 1 texWidth texHeight ++
    [.pipelineBarrier
      { baseMipLevel := mipLevels - 1
        oldLayout := .transferDst, newLayout := .shaderReadOnly
        srcAccessMask := .transferWrite, dstAccessMask := .shaderRead
        srcStage := .transfer, dstStage := .fragmentShader }]

/-! ### The levels of an image -/

/-- The layout of every level of an image, and whether it has a content. -/
structure ImageState where
  mipLevels : Nat
  layout : Nat → ImageLayout
  written : Nat → Bool

namespace ImageState

/-- The image before `generateMipmaps`: its first level was copied from a buffer. -/
def copied (mipLevels : Nat) : ImageState where
  mipLevels := mipLevels
  layout := fun _ => .transferDst
  written := fun level => level == 0

/-- A command and its effect. There is none if the command names a level the image does
not have or a layout its level does not have, or reads a level without a content. -/
def exec (s : ImageState) : Command → Option ImageState
  | .pipelineBarrier barrier =>
    if barrier.baseMipLevel < s.mipLevels ∧ s.layout barrier.baseMipLevel = barrier.oldLayout then
      some { s with layout := Function.update s.layout barrier.baseMipLevel barrier.newLayout }
    else none
  | .blitImage blit =>
    if blit.srcLevel < s.mipLevels ∧ s.layout blit.srcLevel = blit.srcLayout ∧
        s.written blit.srcLevel ∧ blit.dstLevel < s.mipLevels ∧
        s.layout blit.dstLevel = blit.dstLayout then
      some { s with written := Function.update s.written blit.dstLevel true }
    else none

/-- The image before turn `k + 1`: the levels below `k` are done, level `k` is written. -/
def turn (mipLevels k : Nat) : ImageState where
  mipLevels := mipLevels
  layout := fun level => if level < k then .shaderReadOnly else .transferDst
  written := fun level => decide (level ≤ k)

theorem turn_zero (mipLevels : Nat) : turn mipLevels 0 = copied mipLevels := by
  rw [turn, copied]
  congr
  funext level
  simp only [Nat.le_zero]
  rfl

theorem exec_pipelineBarrier {s : ImageState} {barrier : ImageBarrier}
    (hlevel : barrier.baseMipLevel < s.mipLevels)
    (hlayout : s.layout barrier.baseMipLevel = barrier.oldLayout) :
    s.exec (.pipelineBarrier barrier) =
      some { s with
        layout := Function.update s.layout barrier.baseMipLevel barrier.newLayout } :=
  if_pos ⟨hlevel, hlayout⟩

/-- One turn of the loop. -/
theorem exec_mipTurn {mipLevels k : Nat} (hk : k + 1 < mipLevels) (mipWidth mipHeight : Nat) :
    (mipTurn (k + 1) mipWidth mipHeight).foldlM exec (turn mipLevels k) =
      some (turn mipLevels (k + 1)) := by
  have hk' : k < mipLevels := Nat.lt_of_succ_lt hk
  have hsource : (turn mipLevels k).layout k = .transferDst := if_neg (Nat.lt_irrefl k)
  have htarget : (turn mipLevels k).layout (k + 1) = .transferDst :=
    if_neg (Nat.not_lt.mpr (Nat.le_succ k))
  have hread : Function.update (turn mipLevels k).layout k .transferSrc k = .transferSrc :=
    Function.update_self ..
  have hwrite : Function.update (turn mipLevels k).layout k .transferSrc (k + 1) =
      .transferDst := by
    rw [Function.update_of_ne (Nat.succ_ne_self k), htarget]
  have hwritten : (turn mipLevels k).written k = true := decide_eq_true (Nat.le_refl k)
  rw [mipTurn, Nat.add_sub_cancel, List.foldlM_cons, exec_pipelineBarrier hk' hsource,
    Option.bind_eq_bind, Option.bind_some, List.foldlM_cons, exec,
    if_pos ⟨hk', hread, hwritten, hk, hwrite⟩, Option.bind_eq_bind, Option.bind_some,
    List.foldlM_cons, exec_pipelineBarrier hk' hread]
  -- level `k` is done and level `k + 1` is written
  refine congrArg some (ImageState.mk.injEq .. ▸ ⟨rfl, ?_, ?_⟩)
  · funext level
    simp only [Function.update_apply, turn]
    split_ifs <;> first | rfl | omega
  · funext level
    simp only [Function.update_apply, turn]
    split_ifs with heq
    · simp [heq]
    · exact decide_eq_decide.mpr (by omega)

/-- The whole loop. -/
theorem exec_mipLoop {mipLevels turns k : Nat} (hturns : k + turns < mipLevels)
    (mipWidth mipHeight : Nat) :
    (mipLoop turns (k + 1) mipWidth mipHeight).foldlM exec (turn mipLevels k) =
      some (turn mipLevels (k + turns)) := by
  induction turns generalizing k mipWidth mipHeight with
  | zero => rfl
  | succ turns ih =>
      rw [mipLoop, List.foldlM_append, exec_mipTurn (by omega), Option.bind_eq_bind,
        Option.bind_some, ih (by omega), Nat.add_right_comm, Nat.add_assoc]

end ImageState

/-! ### The extents -/

/-- The size of a level: half of the one before, rounded down, but at least one. -/
def mipExtent (width height level : Nat) : Nat × Nat :=
  (max 1 (width >>> level), max 1 (height >>> level))

def blits (commands : List Command) : List ImageBlit :=
  commands.filterMap fun command =>
    match command with
    | .blitImage blit => some blit
    | .pipelineBarrier _ => none

theorem halve_max (a : Nat) : halve (max 1 a) = max 1 (a / 2) := by
  unfold halve
  split_ifs <;> omega

theorem blit_max (a : Nat) : (if max 1 a > 1 then max 1 a / 2 else 1) = max 1 (a / 2) := by
  split_ifs <;> omega

/-- The blit that writes level `k + 1`. -/
def mipBlit (width height k : Nat) : ImageBlit where
  srcLevel := k
  srcLayout := .transferSrc
  srcExtent := mipExtent width height k
  dstLevel := k + 1
  dstLayout := .transferDst
  dstExtent := mipExtent width height (k + 1)

theorem blits_mipLoop (width height turns k : Nat) :
    blits (mipLoop turns (k + 1) (max 1 (width >>> k)) (max 1 (height >>> k))) =
      (List.range' k turns).map (mipBlit width height) := by
  induction turns generalizing k with
  | zero => rfl
  | succ turns ih =>
      have hblit : blits (mipTurn (k + 1) (max 1 (width >>> k)) (max 1 (height >>> k))) =
          [mipBlit width height k] := by
        simp only [mipTurn, blits, List.filterMap_cons, List.filterMap_nil, Nat.add_sub_cancel,
          blit_max, mipBlit, mipExtent, Nat.shiftRight_succ]
      have hrest := ih (k + 1)
      rw [Nat.shiftRight_succ, Nat.shiftRight_succ] at hrest
      have happend : ∀ xs ys, blits (xs ++ ys) = blits xs ++ blits ys := fun _ _ =>
        List.filterMap_append
      rw [mipLoop, happend, hblit, halve_max, halve_max, hrest]
      rfl

theorem blits_generateMipmaps {width height : Nat} (hwidth : 1 ≤ width) (hheight : 1 ≤ height)
    (mipLevels : Nat) : blits (generateMipmaps width height mipLevels) =
      (List.range (mipLevels - 1)).map (mipBlit width height) := by
  have hloop := blits_mipLoop width height (mipLevels - 1) 0
  rw [Nat.shiftRight_zero, Nat.shiftRight_zero, Nat.max_eq_right hwidth,
    Nat.max_eq_right hheight] at hloop
  rw [List.range_eq_range', ← hloop, generateMipmaps, blits, List.filterMap_append]
  exact List.append_nil _

/-- Every command finds the layouts it names, every blit reads a level that was written,
with the extents of the mip chain, and every level ends up readable by shaders. -/
theorem generateMipmaps_chain {texWidth texHeight mipLevels : Nat} (hwidth : 1 ≤ texWidth)
    (hheight : 1 ≤ texHeight) (hlevels : 1 ≤ mipLevels) :
    (∃ s, (generateMipmaps texWidth texHeight mipLevels).foldlM ImageState.exec
        (.copied mipLevels) = some s ∧
      ∀ level < mipLevels, s.layout level = .shaderReadOnly) ∧
    blits (generateMipmaps texWidth texHeight mipLevels) =
      (List.range (mipLevels - 1)).map fun k =>
        { srcLevel := k
          srcLayout := .transferSrc
          srcExtent := (max 1 (texWidth >>> k), max 1 (texHeight >>> k))
          dstLevel := k + 1
          dstLayout := .transferDst
          dstExtent := (max 1 (texWidth >>> (k + 1)), max 1 (texHeight >>> (k + 1))) } := by
  refine ⟨?_, blits_generateMipmaps hwidth hheight mipLevels⟩
  have hturns : 0 + (mipLevels - 1) < mipLevels := by omega
  have hloop := ImageState.exec_mipLoop hturns texWidth texHeight
  rw [ImageState.turn_zero, Nat.zero_add, Nat.zero_add] at hloop
  have hlast : (ImageState.turn mipLevels (mipLevels - 1)).layout (mipLevels - 1) =
      .transferDst := if_neg (Nat.lt_irrefl _)
  rw [generateMipmaps, List.foldlM_append, hloop, Option.bind_eq_bind, Option.bind_some,
    List.foldlM_cons, ImageState.exec_pipelineBarrier (Nat.sub_lt hlevels Nat.one_pos) hlast]
  refine ⟨_, rfl, fun level hlevel => ?_⟩
  by_cases heq : level = mipLevels - 1
  · exact (congrArg _ heq).trans (Function.update_self ..)
  · have hdone : level < mipLevels - 1 := by omega
    exact (Function.update_of_ne heq ..).trans (if_pos hdone)

/-- A texture of five by three texels. -/
theorem generateMipmaps_chain_odd :
    blits (generateMipmaps 5 3 3) =
      [⟨0, .transferSrc, (5, 3), 1, .transferDst, (2, 1)⟩,
       ⟨1, .transferSrc, (2, 1), 2, .transferDst, (1, 1)⟩] :=
  (generateMipmaps_chain (by decide : 1 ≤ 5) (by decide : 1 ≤ 3) (by decide : 1 ≤ 3)).2

/-! ### KTX files -/

/-- What is read of a `ktxTexture`. `ktxTexture_GetImageOffset` takes a level, a layer and
a face, and is asserted to succeed. -/
structure KtxTexture where
  baseWidth : Nat
  baseHeight : Nat
  numLevels : Nat
  numLayers : Nat
  imageOffset : Nat → Nat → Nat → Nat

/-- What is set of `VkBufferImageCopy`. -/
structure BufferImageCopy where
  mipLevel : Nat
  baseArrayLayer : Nat
  imageExtent : Nat × Nat
  bufferOffset : Nat
  deriving DecidableEq, Repr

/-- The copies of `VulkanTexture2D::loadKTX`. -/
def loadKTX (ktxTexture : KtxTexture) : List BufferImageCopy :=
  (List.range ktxTexture.numLayers).flatMap fun layer =>
    (List.range ktxTexture.numLevels).map fun level =>
      { mipLevel := level
        baseArrayLayer := layer
        imageExtent := (ktxTexture.baseWidth >>> level, ktxTexture.baseHeight >>> level)
        bufferOffset := ktxTexture.imageOffset level layer 0 }

/-- The copies of `VulkanTextureCube::load`. -/
def loadCube (ktxTexture : KtxTexture) : List BufferImageCopy :=
  (List.range 6).flatMap fun face =>
    (List.range ktxTexture.numLevels).map fun level =>
      { mipLevel := level
        baseArrayLayer := face
        imageExtent := (ktxTexture.baseWidth >>> level, ktxTexture.baseHeight >>> level)
        bufferOffset := ktxTexture.imageOffset level 0 face }

/-- The copies of a level have its extent in the mip chain, which is not empty. -/
def CopiesLevel (width height level : Nat) (copies : List BufferImageCopy) : Prop :=
  ∀ copy ∈ copies, copy.mipLevel = level →
    copy.imageExtent = mipExtent width height level ∧
      copy.imageExtent.1 ≠ 0 ∧ copy.imageExtent.2 ≠ 0

/-- A shifted size is at least one as long as a bit is left. -/
theorem max_shiftRight_iff (size : Nat) {level : Nat} :
    size >>> level = max 1 (size >>> level) ↔ 2 ^ level ≤ size := by
  rw [Nat.shiftRight_eq_div_pow, ← Nat.one_le_div_iff (Nat.two_pow_pos level)]
  omega

theorem copiesLevel_iff {width height level : Nat} {copies : List BufferImageCopy}
    (hextent : ∀ copy ∈ copies,
      copy.imageExtent = (width >>> copy.mipLevel, height >>> copy.mipLevel))
    (hlevel : ∃ copy ∈ copies, copy.mipLevel = level) :
    CopiesLevel width height level copies ↔ 2 ^ level ≤ width ∧ 2 ^ level ≤ height := by
  rw [← max_shiftRight_iff width, ← max_shiftRight_iff height]
  constructor
  · intro h
    obtain ⟨copy, hcopy, rfl⟩ := hlevel
    have hsame := (h copy hcopy rfl).1
    rw [hextent copy hcopy] at hsame
    exact Prod.mk.inj hsame
  · intro hbits copy hcopy heq
    subst heq
    obtain ⟨hwidth, hheight⟩ := hbits
    rw [hextent copy hcopy]
    refine ⟨Prod.ext hwidth hheight, ?_, ?_⟩
    · rw [hwidth]
      exact Nat.ne_of_gt (Nat.le_max_left ..)
    · rw [hheight]
      exact Nat.ne_of_gt (Nat.le_max_left ..)

/-- The copies of a level have the extents of the mip chain if and only if both sides
have a bit left at this level. -/
theorem ktx_extents_iff (ktxTexture : KtxTexture) {level : Nat}
    (hlevel : level < ktxTexture.numLevels) (hlayers : 0 < ktxTexture.numLayers) :
    (CopiesLevel ktxTexture.baseWidth ktxTexture.baseHeight level (loadKTX ktxTexture) ↔
      2 ^ level ≤ ktxTexture.baseWidth ∧ 2 ^ level ≤ ktxTexture.baseHeight) ∧
    (CopiesLevel ktxTexture.baseWidth ktxTexture.baseHeight level (loadCube ktxTexture) ↔
      2 ^ level ≤ ktxTexture.baseWidth ∧ 2 ^ level ≤ ktxTexture.baseHeight) := by
  constructor
  · apply copiesLevel_iff
    · intro copy hcopy
      obtain ⟨layer, -, hcopy⟩ := List.mem_flatMap.mp hcopy
      obtain ⟨level, -, rfl⟩ := List.mem_map.mp hcopy
      rfl
    · exact ⟨_, List.mem_flatMap.mpr ⟨0, List.mem_range.mpr hlayers,
        List.mem_map.mpr ⟨level, List.mem_range.mpr hlevel, rfl⟩⟩, rfl⟩
  · apply copiesLevel_iff
    · intro copy hcopy
      obtain ⟨face, -, hcopy⟩ := List.mem_flatMap.mp hcopy
      obtain ⟨level, -, rfl⟩ := List.mem_map.mp hcopy
      rfl
    · exact ⟨_, List.mem_flatMap.mpr ⟨0, List.mem_range.mpr (by decide),
        List.mem_map.mpr ⟨level, List.mem_range.mpr hlevel, rfl⟩⟩, rfl⟩

/-- A texture of four by one texels, with its full chain of three levels. -/
def wide : KtxTexture := ⟨4, 1, 3, 1, fun _ _ _ => 0⟩

theorem ktx_extents_iff_wide :
    CopiesLevel 4 1 0 (loadKTX wide) ∧ ¬ CopiesLevel 4 1 1 (loadCube wide) :=
  ⟨(ktx_extents_iff wide (by decide : 0 < wide.numLevels) (by decide)).1.mpr (by decide),
    fun h => absurd ((ktx_extents_iff wide (by decide : 1 < wide.numLevels) (by decide)).2.mp h)
      (by decide)⟩

/-- Level one of it is copied with a height of zero. -/
theorem ktx_extents_zero : ¬ CopiesLevel 4 1 1 (loadKTX wide) := by
  intro h
  exact (h ⟨1, 0, (2, 0), 0⟩ (by decide) rfl).2.2 rfl

end Maple.Vulkan
