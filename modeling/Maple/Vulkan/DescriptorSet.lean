import Mathlib.Data.List.ReduceOption
import Maple.Vulkan.PipelineLayout

/-!
# Maple.Vulkan.DescriptorSet

`VulkanDescriptorSet::updateInternal`: **a descriptor write carries its own images, where
the places of the textures do not collide.** All writes share one pool of image infos.
Texture `i` of the image info at position `j` is stored at place `i + j`, null textures
are skipped but keep their places, and the write reads as many places from `j` on as the
image info has textures that are not null.

A pool that was not written yet holds `none`.
-/

namespace Maple.Vulkan

open Lib (OutOfRange Holds LastStore store storeAll)

/-- `ImageInfo`; its type is never read. A texture is the `VkDescriptorImageInfo` its
`getHandle` points to, `none` for a null pointer. -/
structure ImageInfo (H : Type) where
  textures : List (Option H)
  binding : Int
  name : String := ""

/-- What is read of `BufferInfo`. -/
structure BufferInfo (B : Type) where
  buffer : B
  offset : UInt32
  size : UInt32
  binding : Int := 0
  type : DescriptorType

structure VkDescriptorBufferInfo (B : Type) where
  buffer : B
  offset : UInt32
  range : UInt32

/-- What `pImageInfo` or `pBufferInfo` points to: an index in one of the pools. -/
inductive PoolPointer where
  | imageInfo (index : Nat)
  | bufferInfo (index : Nat)
  deriving DecidableEq, Repr

/-- `VkWriteDescriptorSet`; all of them have the same `dstSet`. -/
structure VkWriteDescriptorSet where
  dstBinding : Int
  descriptorType : VkDescriptorType
  info : PoolPointer
  descriptorCount : Nat
  deriving DecidableEq, Repr

/-- `MAX_IMAGE_INFOS`, `MAX_BUFFER_INFOS` and `MAX_WRITE_DESCTIPTORS`. -/
abbrev MAX_INFOS : Nat := 16

/-- `VulkanDescriptorSet`, by its pools. -/
structure VulkanDescriptorSet (H B : Type) where
  imageInfoPool : Vector (Option H) MAX_INFOS
  bufferInfoPool : Vector (Option (VkDescriptorBufferInfo B)) MAX_INFOS
  writeDescriptorSetPool : Vector (Option VkWriteDescriptorSet) MAX_INFOS
  dynamic : Bool

/-- The pools right after the constructor. -/
def VulkanDescriptorSet.new (H B : Type) : VulkanDescriptorSet H B where
  imageInfoPool := .replicate MAX_INFOS none
  bufferInfoPool := .replicate MAX_INFOS none
  writeDescriptorSetPool := .replicate MAX_INFOS none
  dynamic := false

variable {H B : Type}

/-- The loop over the textures of one image info: the pool and `descriptorCount`. -/
def writeTextures (imageIndex : Nat) (pool : Vector (Option H) MAX_INFOS)
    (textures : List (Option H)) : Except OutOfRange (Vector (Option H) MAX_INFOS × Nat) :=
  textures.zipIdx.foldlM (fun (pool, descriptorCount) (texture, i) =>
    match texture with
    | some des =>
      (store pool (i + imageIndex) (some des)).map fun pool => (pool, descriptorCount + 1)
    | none => .ok (pool, descriptorCount)) (pool, 0)

/-- The body of the first loop; `index` is `imageIndex` and `descriptorWritesCount`. -/
def writeImage (set : VulkanDescriptorSet H B) (imageInfo : ImageInfo H) (index : Nat) :
    Except OutOfRange (VulkanDescriptorSet H B) :=
  (writeTextures index set.imageInfoPool imageInfo.textures).bind fun (pool, descriptorCount) =>
  if index < MAX_INFOS then
    (store set.writeDescriptorSetPool index (some {
      dstBinding := imageInfo.binding
      descriptorType := .combinedImageSampler
      info := .imageInfo index
      descriptorCount := descriptorCount })).map fun writes =>
    { set with imageInfoPool := pool, writeDescriptorSetPool := writes }
  else .error (.at index)

/-- The body of the second loop. -/
def writeBuffer (set : VulkanDescriptorSet H B) (bufferInfo : BufferInfo B)
    (index descriptorWritesCount : Nat) : Except OutOfRange (VulkanDescriptorSet H B) :=
  (store set.bufferInfoPool index
    (some ⟨bufferInfo.buffer, bufferInfo.offset, bufferInfo.size⟩)).bind fun pool =>
  (store set.writeDescriptorSetPool descriptorWritesCount (some {
    dstBinding := bufferInfo.binding
    descriptorType := descriptorTypeToVK bufferInfo.type
    info := .bufferInfo index
    descriptorCount := 1 })).map fun writes =>
  { set with
    bufferInfoPool := pool
    writeDescriptorSetPool := writes
    dynamic := set.dynamic || bufferInfo.type == .uniformBufferDynamic }

/-- The loop over the image infos. -/
def writeImages (set : VulkanDescriptorSet H B) (imageInfos : List (ImageInfo H)) :
    Except OutOfRange (VulkanDescriptorSet H B) :=
  imageInfos.zipIdx.foldlM (fun set (imageInfo, index) => writeImage set imageInfo index) set

/-- The loop over the buffer infos, after a number of writes. -/
def writeBuffers (set : VulkanDescriptorSet H B) (bufferInfos : List (BufferInfo B))
    (descriptorWritesCount : Nat) : Except OutOfRange (VulkanDescriptorSet H B) :=
  bufferInfos.zipIdx.foldlM (fun set (bufferInfo, index) =>
    writeBuffer set bufferInfo index (descriptorWritesCount + index)) set

/-- `updateInternal`, up to `vkUpdateDescriptorSets`, which gets the first writes of the
pool. A missing list is a null pointer. -/
def updateInternal (set : VulkanDescriptorSet H B) (imageInfos : Option (List (ImageInfo H)))
    (bufferInfos : Option (List (BufferInfo B))) :
    Except OutOfRange (VulkanDescriptorSet H B × Nat) :=
  let images := imageInfos.getD []
  let buffers := bufferInfos.getD []
  (writeImages { set with dynamic := false } images).bind fun set =>
  (writeBuffers set buffers images.length).map fun set => (set, images.length + buffers.length)

/-! ### The stores -/

/-- The stores of the textures of an image info; the first texture of the list has the
number `start`. -/
def textureStores (index start : Nat) (textures : List (Option H)) : List (Nat × Option H) :=
  (textures.zipIdx start).filterMap fun (texture, i) =>
    texture.map fun des => (i + index, some des)

/-- The write of the image info at a position. -/
def imageWrite (imageInfo : ImageInfo H) (index : Nat) : VkWriteDescriptorSet where
  dstBinding := imageInfo.binding
  descriptorType := .combinedImageSampler
  info := .imageInfo index
  descriptorCount := imageInfo.textures.reduceOption.length

/-- The textures that are not null with their places: texture `i` of the image info at
position `j` has the place `i + j`. -/
def places (start : Nat) (imageInfos : List (ImageInfo H)) : List (Nat × Option H) :=
  (imageInfos.zipIdx start).flatMap fun (imageInfo, j) => textureStores j 0 imageInfo.textures

/-- The writes of the image infos with their positions. -/
def imageWrites (start : Nat) (imageInfos : List (ImageInfo H)) :
    List (Nat × Option VkWriteDescriptorSet) :=
  (imageInfos.zipIdx start).map fun (imageInfo, j) => (j, some (imageWrite imageInfo j))

theorem writeTextures_loop (index start count : Nat) (pool : Vector (Option H) MAX_INFOS)
    (textures : List (Option H)) :
    (textures.zipIdx start).foldlM (fun (pool, descriptorCount) (texture, i) =>
      match texture with
      | some des =>
        (store pool (i + index) (some des)).map fun pool => (pool, descriptorCount + 1)
      | none => .ok (pool, descriptorCount)) (pool, count) =
    (storeAll pool (textureStores index start textures)).map fun pool =>
      (pool, count + textures.reduceOption.length) := by
  induction textures generalizing start count pool with
  | nil => rfl
  | cons texture textures ih =>
      rw [List.zipIdx_cons, List.foldlM_cons]
      cases texture with
      | none => exact ih (start + 1) count pool
      | some des =>
          have hstores : textureStores index start (some des :: textures) =
              (start + index, some des) :: textureStores index (start + 1) textures := rfl
          rw [hstores, Lib.storeAll_cons, List.reduceOption_cons_of_some, List.length_cons]
          dsimp only
          cases store pool (start + index) (some des) with
          | error fault => rfl
          | ok pool =>
              refine (ih (start + 1) (count + 1) pool).trans ?_
              rw [Nat.add_assoc, Nat.add_comm 1]
              rfl

theorem writeTextures_eq (index : Nat) (pool : Vector (Option H) MAX_INFOS)
    (textures : List (Option H)) : writeTextures index pool textures =
      (storeAll pool (textureStores index 0 textures)).map fun pool =>
        (pool, textures.reduceOption.length) := by
  rw [writeTextures, writeTextures_loop, Nat.zero_add]

/-- The stores that one image info makes when it succeeds. -/
theorem writeImage_ok_iff {set set' : VulkanDescriptorSet H B} {imageInfo : ImageInfo H}
    {index : Nat} : writeImage set imageInfo index = .ok set' ↔
      storeAll set.imageInfoPool (textureStores index 0 imageInfo.textures) =
        .ok set'.imageInfoPool ∧
      store set.writeDescriptorSetPool index (some (imageWrite imageInfo index)) =
        .ok set'.writeDescriptorSetPool ∧
      set'.bufferInfoPool = set.bufferInfoPool ∧ set'.dynamic = set.dynamic := by
  rw [writeImage, writeTextures_eq]
  constructor
  · intro h
    obtain ⟨⟨pool, count⟩, hpool, h⟩ := Lib.bind_eq_ok h
    obtain ⟨pool, hstores, heq⟩ := Lib.map_eq_ok hpool
    obtain ⟨rfl, rfl⟩ := Prod.mk.inj heq
    dsimp only at h
    by_cases hindex : index < MAX_INFOS
    · rw [if_pos hindex] at h
      obtain ⟨writes, hwrites, rfl⟩ := Lib.map_eq_ok h
      exact ⟨hstores, hwrites, rfl, rfl⟩
    · rw [if_neg hindex] at h
      exact nomatch h
  · intro hset
    obtain ⟨hstores, hwrites, hbuffers, hdynamic⟩ := hset
    rw [hstores]
    have hindex := Lib.lt_of_store hwrites
    refine (if_pos hindex).trans ?_
    refine (congrArg (Except.map _) hwrites).trans ?_
    obtain ⟨pool, buffers, writes, dynamic⟩ := set'
    obtain rfl : buffers = set.bufferInfoPool := hbuffers
    obtain rfl : dynamic = set.dynamic := hdynamic
    rfl

theorem VulkanDescriptorSet.eq_iff {set set' : VulkanDescriptorSet H B} : set = set' ↔
    set.imageInfoPool = set'.imageInfoPool ∧
      set.writeDescriptorSetPool = set'.writeDescriptorSetPool ∧
      set'.bufferInfoPool = set.bufferInfoPool ∧ set'.dynamic = set.dynamic := by
  obtain ⟨pool, buffers, writes, dynamic⟩ := set
  obtain ⟨pool', buffers', writes', dynamic'⟩ := set'
  rw [VulkanDescriptorSet.mk.injEq]
  constructor
  · exact fun ⟨hpool, hbuffers, hwrites, hdynamic⟩ => ⟨hpool, hwrites, hbuffers.symm, hdynamic.symm⟩
  · exact fun ⟨hpool, hwrites, hbuffers, hdynamic⟩ => ⟨hpool, hbuffers.symm, hwrites, hdynamic.symm⟩

/-- The stores of the first loop, from a position on. -/
theorem writeImages_ok_iff {imageInfos : List (ImageInfo H)} {start : Nat}
    {set set' : VulkanDescriptorSet H B} :
    (imageInfos.zipIdx start).foldlM (fun set (imageInfo, index) => writeImage set imageInfo index)
        set = .ok set' ↔
      storeAll set.imageInfoPool (places start imageInfos) = .ok set'.imageInfoPool ∧
      storeAll set.writeDescriptorSetPool (imageWrites start imageInfos) =
        .ok set'.writeDescriptorSetPool ∧
      set'.bufferInfoPool = set.bufferInfoPool ∧ set'.dynamic = set.dynamic := by
  induction imageInfos generalizing start set with
  | nil =>
      have hnil : ∀ {α : Type} {x y : α}, (Except.ok x : Except OutOfRange α) = .ok y ↔ x = y :=
        fun {_ _ _} => ⟨Except.ok.inj, congrArg Except.ok⟩
      exact hnil.trans (VulkanDescriptorSet.eq_iff.trans
        (and_congr hnil.symm (and_congr_left' hnil.symm)))
  | cons imageInfo imageInfos ih =>
      have hplaces : places start (imageInfo :: imageInfos) =
          textureStores start 0 imageInfo.textures ++ places (start + 1) imageInfos := rfl
      have hwrites : imageWrites start (imageInfo :: imageInfos) =
          (start, some (imageWrite imageInfo start)) :: imageWrites (start + 1) imageInfos := rfl
      rw [List.zipIdx_cons, hplaces, hwrites, Lib.storeAll_append, Lib.storeAll_cons]
      constructor
      · intro h
        obtain ⟨mid, hmid, hrest⟩ := Lib.bind_eq_ok h
        obtain ⟨hpool, hwrite, hbuffers, hdynamic⟩ := writeImage_ok_iff.mp hmid
        obtain ⟨hpool', hwrite', hbuffers', hdynamic'⟩ := ih.mp hrest
        refine ⟨?_, ?_, hbuffers'.trans hbuffers, hdynamic'.trans hdynamic⟩
        · rw [hpool]
          exact hpool'
        · rw [hwrite]
          exact hwrite'
      · intro hset
        obtain ⟨hpool, hwrite, hbuffers, hdynamic⟩ := hset
        obtain ⟨pool, hpool, hpool'⟩ := Lib.bind_eq_ok hpool
        obtain ⟨writes, hwrite, hwrite'⟩ := Lib.bind_eq_ok hwrite
        let mid : VulkanDescriptorSet H B :=
          { set with imageInfoPool := pool, writeDescriptorSetPool := writes }
        have hmid : writeImage set imageInfo start = .ok mid :=
          writeImage_ok_iff.mpr ⟨hpool, hwrite, rfl, rfl⟩
        refine (Lib.foldlM_cons_ok hmid).trans ?_
        exact ih.mpr ⟨hpool', hwrite', hbuffers, hdynamic⟩

/-! ### The writes of the buffers -/

/-- The write of the buffer info at a position. -/
def bufferWrite (bufferInfo : BufferInfo B) (index : Nat) : VkWriteDescriptorSet where
  dstBinding := bufferInfo.binding
  descriptorType := descriptorTypeToVK bufferInfo.type
  info := .bufferInfo index
  descriptorCount := 1

/-- The writes of the buffer infos, behind a number of others. -/
def bufferWrites (before start : Nat) (bufferInfos : List (BufferInfo B)) :
    List (Nat × Option VkWriteDescriptorSet) :=
  (bufferInfos.zipIdx start).map fun (bufferInfo, i) =>
    (before + i, some (bufferWrite bufferInfo i))

/-- The second loop leaves the image infos alone and adds its writes. -/
theorem writeBuffers_ok {bufferInfos : List (BufferInfo B)} {before start : Nat}
    {set set' : VulkanDescriptorSet H B}
    (h : (bufferInfos.zipIdx start).foldlM (fun set (bufferInfo, index) =>
      writeBuffer set bufferInfo index (before + index)) set = .ok set') :
    set'.imageInfoPool = set.imageInfoPool ∧
      storeAll set.writeDescriptorSetPool (bufferWrites before start bufferInfos) =
        .ok set'.writeDescriptorSetPool := by
  induction bufferInfos generalizing start set with
  | nil =>
      obtain rfl := Except.ok.inj h
      exact ⟨rfl, rfl⟩
  | cons bufferInfo bufferInfos ih =>
      rw [List.zipIdx_cons, List.foldlM_cons] at h
      obtain ⟨mid, hmid, hrest⟩ := Lib.bind_eq_ok h
      obtain ⟨pool, -, hmid⟩ := Lib.bind_eq_ok hmid
      obtain ⟨writes, hwrite, rfl⟩ := Lib.map_eq_ok hmid
      obtain ⟨hpool', hwrite'⟩ := ih hrest
      refine ⟨hpool', ?_⟩
      exact (Lib.storeAll_cons_ok hwrite).trans hwrite'

/-- The second loop succeeds if there is room for its writes. -/
theorem exists_writeBuffers {bufferInfos : List (BufferInfo B)} {before : Nat} (start : Nat)
    (hroom : before + start + bufferInfos.length ≤ MAX_INFOS) (set : VulkanDescriptorSet H B) :
    ∃ set', (bufferInfos.zipIdx start).foldlM (fun set (bufferInfo, index) =>
      writeBuffer set bufferInfo index (before + index)) set = .ok set' := by
  induction bufferInfos generalizing start set with
  | nil => exact ⟨set, rfl⟩
  | cons bufferInfo bufferInfos ih =>
      rw [List.length_cons] at hroom
      rw [List.zipIdx_cons]
      have hfirst : ∃ mid, writeBuffer set bufferInfo start (before + start) = .ok mid := by
        unfold writeBuffer
        rw [Lib.store_of_lt _ _ (by omega : start < MAX_INFOS),
          Lib.store_of_lt _ _ (by omega : before + start < MAX_INFOS)]
        exact ⟨_, rfl⟩
      obtain ⟨mid, hmid⟩ := hfirst
      obtain ⟨set', hset'⟩ := ih (start + 1) (by omega) mid
      exact ⟨set', (Lib.foldlM_cons_ok hmid).trans hset'⟩

/-! ### The whole update -/

/-- All writes, those of the image infos first. -/
def writes (imageInfos : List (ImageInfo H)) (bufferInfos : List (BufferInfo B)) :
    List (Nat × Option VkWriteDescriptorSet) :=
  imageWrites 0 imageInfos ++ bufferWrites imageInfos.length 0 bufferInfos

/-- The writes fill the pool from the front, without a gap. -/
theorem map_fst_writes (imageInfos : List (ImageInfo H)) (bufferInfos : List (BufferInfo B)) :
    (writes imageInfos bufferInfos).map Prod.fst =
      List.range (imageInfos.length + bufferInfos.length) := by
  have himages : (imageWrites 0 imageInfos).map Prod.fst = List.range imageInfos.length := by
    rw [imageWrites, List.map_map, List.range_eq_range', ← List.zipIdx_map_snd 0 imageInfos]
    rfl
  have hbuffers : (bufferWrites imageInfos.length 0 bufferInfos).map Prod.fst =
      (List.range bufferInfos.length).map (imageInfos.length + ·) := by
    rw [bufferWrites, List.map_map, List.range_eq_range', ← List.zipIdx_map_snd 0 bufferInfos,
      List.map_map]
    rfl
  rw [writes, List.map_append, himages, hbuffers, List.range_add]

/-- The update succeeds if its indices are below the sizes of the pools. -/
theorem exists_updateInternal (set : VulkanDescriptorSet H B)
    {imageInfos : Option (List (ImageInfo H))} {bufferInfos : Option (List (BufferInfo B))}
    (hwrites : (imageInfos.getD []).length + (bufferInfos.getD []).length ≤ MAX_INFOS)
    (hplaces : ∀ w ∈ places 0 (imageInfos.getD []), w.1 < MAX_INFOS) :
    ∃ set' count, updateInternal set imageInfos bufferInfos = .ok (set', count) := by
  obtain ⟨pool, hpool⟩ := (Lib.storeAll_ok_iff set.imageInfoPool).mpr hplaces
  have hindices : ∀ w ∈ imageWrites 0 (imageInfos.getD []), w.1 < MAX_INFOS := by
    intro w hw
    have hmem : w.1 ∈ (writes (imageInfos.getD []) (bufferInfos.getD [])).map Prod.fst :=
      List.mem_map_of_mem (List.mem_append_left _ hw)
    rw [map_fst_writes, List.mem_range] at hmem
    exact Nat.lt_of_lt_of_le hmem hwrites
  obtain ⟨writes, hwrites'⟩ := (Lib.storeAll_ok_iff set.writeDescriptorSetPool).mpr hindices
  let mid : VulkanDescriptorSet H B :=
    { set with dynamic := false, imageInfoPool := pool, writeDescriptorSetPool := writes }
  have hmid : writeImages { set with dynamic := false } (imageInfos.getD []) = .ok mid :=
    writeImages_ok_iff.mpr ⟨hpool, hwrites', rfl, rfl⟩
  obtain ⟨set', hset'⟩ := exists_writeBuffers 0 (by simpa using hwrites) mid
  have hset'' : writeBuffers mid (bufferInfos.getD []) (imageInfos.getD []).length = .ok set' :=
    hset'
  refine ⟨set', (imageInfos.getD []).length + (bufferInfos.getD []).length, ?_⟩
  unfold updateInternal
  simp only [hmid, Except.bind, hset'', Except.map]

/-- The pools after an update. -/
theorem updateInternal_ok {set set' : VulkanDescriptorSet H B}
    {imageInfos : Option (List (ImageInfo H))} {bufferInfos : Option (List (BufferInfo B))}
    {count : Nat} (h : updateInternal set imageInfos bufferInfos = .ok (set', count)) :
    storeAll set.imageInfoPool (places 0 (imageInfos.getD [])) = .ok set'.imageInfoPool ∧
      storeAll set.writeDescriptorSetPool (writes (imageInfos.getD []) (bufferInfos.getD [])) =
        .ok set'.writeDescriptorSetPool := by
  obtain ⟨mid, hmid, hrest⟩ := Lib.bind_eq_ok h
  obtain ⟨set', hset', heq⟩ := Lib.map_eq_ok hrest
  obtain ⟨rfl, -⟩ := Prod.mk.inj heq
  obtain ⟨hpool, hwrites, -, -⟩ := writeImages_ok_iff.mp hmid
  obtain ⟨hpool', hwrites'⟩ := writeBuffers_ok hset'
  refine ⟨hpool'.symm ▸ hpool, ?_⟩
  rw [writes, Lib.storeAll_append, hwrites]
  exact hwrites'

/-- Every write of an image info reads, from its `pImageInfo` on, the handles of the
textures that are not null, in their order. -/
def Carries (imageInfos : List (ImageInfo H)) (set : VulkanDescriptorSet H B) : Prop :=
  ∀ (j : Nat) (imageInfo : ImageInfo H), imageInfos[j]? = some imageInfo →
    ∃ (w : VkWriteDescriptorSet) (p : Nat), set.writeDescriptorSetPool[j]? = some (some w) ∧
      w.info = .imageInfo p ∧
      (List.range w.descriptorCount).map (fun k => set.imageInfoPool[p + k]?) =
        imageInfo.textures.reduceOption.map fun des => some (some des)

/-- Texture `i` of the image info at position `j`, if it is not null. -/
def textureAt (imageInfos : List (ImageInfo H)) (j i : Nat) : Option H :=
  imageInfos[j]?.bind fun imageInfo => imageInfo.textures[i]?.join

/-- The image info at position `j` without its null textures, at `k`. -/
def textureLeft (imageInfos : List (ImageInfo H)) (j k : Nat) : Option H :=
  imageInfos[j]?.bind fun imageInfo => imageInfo.textures.reduceOption[k]?

/-- There is room for the writes, and the textures have places below the size of the pool.
Without their null textures, image infos have the same textures at the same places. A texture
behind a null one, unless it is replaced by one of a later image info, is the one that has its
place without the null ones; and a place of these at which there is no texture held the right
one before. -/
structure PlacesAgree (pool : Vector (Option H) MAX_INFOS) (imageInfos : List (ImageInfo H))
    (buffers : Nat) : Prop where
  room : imageInfos.length + buffers ≤ MAX_INFOS
  inside : ∀ j i, (textureAt imageInfos j i).isSome → i + j < MAX_INFOS
  same : ∀ j k j' k' des des', textureLeft imageInfos j k = some des →
    textureLeft imageInfos j' k' = some des' → j + k = j' + k' → des = des'
  behind : ∀ j i des, textureAt imageInfos j i = some des →
    (∃ i' < i, textureAt imageInfos j i' = none) →
    (∀ j' i', j < j' → j' + i' = j + i → textureAt imageInfos j' i' = none) →
    ∀ j' k des', j' + k = j + i → textureLeft imageInfos j' k = some des' → des = des'
  before : ∀ j k des, textureLeft imageInfos j k = some des →
    (∀ j' i, j' + i = j + k → textureAt imageInfos j' i = none) →
    pool[j + k]? = some (some des)

theorem mem_imageWrites {imageInfos : List (ImageInfo H)} {j : Nat} {imageInfo : ImageInfo H}
    (h : imageInfos[j]? = some imageInfo) :
    (j, some (imageWrite imageInfo j)) ∈ imageWrites 0 imageInfos :=
  List.mem_map.mpr ⟨(imageInfo, j), List.mem_zipIdx_iff_getElem?.mpr h, rfl⟩

/-- Reading as many entries as a list has elements. -/
theorem map_range_eq_iff {α β : Type} {read : Nat → β} (xs : List α) {g : α → β} :
    (List.range xs.length).map read = xs.map g ↔ ∀ k x, xs[k]? = some x → read k = g x := by
  constructor
  · intro h k x hx
    have hk : k < xs.length := (List.getElem?_eq_some_iff.mp hx).1
    have hget := congrArg (·[k]?) h
    simpa [List.getElem?_range hk, hx] using hget
  · intro h
    apply List.ext_getElem?
    intro k
    by_cases hk : k < xs.length
    · have hget := h k xs[k] (List.getElem?_eq_getElem hk)
      simp [List.getElem?_range hk, hget, List.getElem?_eq_getElem hk]
    · simp [not_lt.mp hk]

/-! ### The last texture at a place -/

theorem nodup_textureStores (index : Nat) (textures : List (Option H)) :
    ((textureStores index 0 textures).map Prod.fst).Nodup := by
  have hplaces : (textures.zipIdx.map Prod.snd).Nodup := by
    rw [List.zipIdx_map_snd]
    exact List.nodup_range'
  rw [List.Nodup, List.pairwise_map] at hplaces ⊢
  rw [textureStores, List.pairwise_filterMap]
  refine hplaces.imp fun {a a'} hne w hw w' hw' heq => hne ?_
  obtain ⟨des, -, rfl⟩ := Option.map_eq_some_iff.mp hw
  obtain ⟨des', -, rfl⟩ := Option.map_eq_some_iff.mp hw'
  exact Nat.add_right_cancel heq

theorem mem_textureStores {index place : Nat} {textures : List (Option H)} {des : H} :
    (place, some des) ∈ textureStores index 0 textures ↔
      ∃ i, index + i = place ∧ textures[i]?.join = some des := by
  rw [textureStores, List.mem_filterMap]
  constructor
  · rintro ⟨⟨texture, i⟩, hmem, hsome⟩
    obtain ⟨des', rfl, heq⟩ := Option.map_eq_some_iff.mp hsome
    obtain ⟨hplace, hdes⟩ := Prod.mk.inj heq
    obtain rfl := Option.some.inj hdes
    refine ⟨i, (Nat.add_comm ..).trans hplace, ?_⟩
    rw [List.mem_zipIdx_iff_getElem?.mp hmem]
    rfl
  · rintro ⟨i, hplace, hdes⟩
    exact ⟨(some des, i), List.mem_zipIdx_iff_getElem?.mpr (Option.join_eq_some_iff.mp hdes),
      by rw [← hplace, Nat.add_comm index]; rfl⟩

theorem lastStore_textureStores {index place : Nat} {textures : List (Option H)} {des : H} :
    LastStore (textureStores index 0 textures) place (some des) ↔
      ∃ i, index + i = place ∧ textures[i]?.join = some des :=
  (⟨Lib.lastStore_mem, Lib.lastStore_of_nodup (nodup_textureStores index textures)⟩ :
    LastStore _ place (some des) ↔ _).trans mem_textureStores

theorem exists_mem_textureStores {index place : Nat} {textures : List (Option H)} :
    (∀ w ∈ textureStores index 0 textures, w.1 ≠ place) ↔
      ∀ i, index + i = place → textures[i]?.join = none := by
  constructor
  · intro h i hplace
    by_contra hne
    obtain ⟨des, hdes⟩ := Option.ne_none_iff_exists'.mp hne
    exact h (place, some des) (mem_textureStores.mpr ⟨i, hplace, hdes⟩) rfl
  · rintro h ⟨place', texture⟩ hmem rfl
    obtain ⟨⟨texture', i⟩, -, hsome⟩ := List.mem_filterMap.mp hmem
    obtain ⟨des, -, heq⟩ := Option.map_eq_some_iff.mp hsome
    obtain rfl := (Prod.mk.inj heq).2
    obtain ⟨i, hplace, hdes⟩ := mem_textureStores.mp hmem
    exact nomatch (h i hplace).symm.trans hdes

/-- A place is stored at if some texture has it. -/
theorem places_avoid_iff {start place : Nat} {imageInfos : List (ImageInfo H)} :
    (∀ w ∈ places start imageInfos, w.1 ≠ place) ↔
      ∀ j i, start + j + i = place → textureAt imageInfos j i = none := by
  induction imageInfos generalizing start with
  | nil => exact iff_of_true (fun _ hw => absurd hw List.not_mem_nil) fun _ _ _ => rfl
  | cons imageInfo imageInfos ih =>
      have hplaces : places start (imageInfo :: imageInfos) =
          textureStores start 0 imageInfo.textures ++ places (start + 1) imageInfos := rfl
      rw [hplaces, List.forall_mem_append, ih, exists_mem_textureStores]
      constructor
      · intro ⟨hfirst, hrest⟩ j i hplace
        cases j with
        | zero => exact hfirst i hplace
        | succ j => exact hrest j i (by omega)
      · intro h
        exact ⟨fun i hplace => h 0 i hplace, fun j i hplace => h (j + 1) i (by omega)⟩

/-- The last store at a place is that of the last image info with a texture there. -/
theorem lastStore_places {start place : Nat} {imageInfos : List (ImageInfo H)} {des : H} :
    LastStore (places start imageInfos) place (some des) ↔
      ∃ j i, start + j + i = place ∧ textureAt imageInfos j i = some des ∧
        ∀ j' i', j < j' → start + j' + i' = place → textureAt imageInfos j' i' = none := by
  induction imageInfos generalizing start with
  | nil =>
      refine iff_of_false (fun hlast => absurd (Lib.lastStore_mem hlast) List.not_mem_nil) ?_
      rintro ⟨j, i, -, hdes, -⟩
      exact nomatch hdes
  | cons imageInfo imageInfos ih =>
      have hplaces : places start (imageInfo :: imageInfos) =
          textureStores start 0 imageInfo.textures ++ places (start + 1) imageInfos := rfl
      rw [hplaces, Lib.lastStore_append, ih, places_avoid_iff, lastStore_textureStores]
      constructor
      · rintro (⟨j, i, hplace, hdes, hlater⟩ | ⟨hlater, i, hplace, hdes⟩)
        · refine ⟨j + 1, i, by omega, hdes, fun j' i' hlt hplace' => ?_⟩
          cases j' with
          | zero => exact absurd hlt (by omega)
          | succ j' => exact hlater j' i' (by omega) (by omega)
        · refine ⟨0, i, hplace, hdes, fun j' i' hlt hplace' => ?_⟩
          cases j' with
          | zero => exact absurd hlt (by omega)
          | succ j' => exact hlater j' i' (by omega)
      · rintro ⟨j, i, hplace, hdes, hlater⟩
        cases j with
        | zero => exact .inr ⟨fun j' i' hplace' => hlater (j' + 1) i' (by omega) (by omega),
            i, hplace, hdes⟩
        | succ j => exact .inl ⟨j, i, by omega, hdes, fun j' i' hlt hplace' =>
            hlater (j' + 1) i' (by omega) (by omega)⟩

theorem places_inside {imageInfos : List (ImageInfo H)}
    (h : ∀ j i, (textureAt imageInfos j i).isSome → i + j < MAX_INFOS) :
    ∀ w ∈ places 0 imageInfos, w.1 < MAX_INFOS := by
  intro w hw
  by_contra hout
  refine absurd rfl (places_avoid_iff.mpr (fun j i hplace => ?_) w hw)
  by_contra hsome
  have hlt := h j i (Option.isSome_iff_ne_none.mpr hsome)
  omega

/-- A texture with no null one before it keeps its place. -/
theorem textureLeft_of_full {imageInfos : List (ImageInfo H)} {j i : Nat} {des : H}
    (hdes : textureAt imageInfos j i = some des)
    (hfull : ∀ i' < i, textureAt imageInfos j i' ≠ none) :
    textureLeft imageInfos j i = some des := by
  unfold textureAt at hdes hfull
  unfold textureLeft
  cases hinfo : imageInfos[j]? with
  | none => simp [hinfo] at hdes
  | some imageInfo =>
      simp only [hinfo, Option.bind_some] at hdes hfull ⊢
      generalize imageInfo.textures = textures at hdes hfull
      induction textures generalizing i with
      | nil => simp at hdes
      | cons texture textures ih =>
          cases i with
          | zero =>
              obtain rfl : texture = some des := by simpa using hdes
              rfl
          | succ i =>
              obtain ⟨des', rfl⟩ : ∃ des', texture = some des' :=
                Option.ne_none_iff_exists'.mp (by simpa using hfull 0 (Nat.succ_pos i))
              rw [List.reduceOption_cons_of_some, List.getElem?_cons_succ]
              exact ih (by simpa using hdes) fun i' hlt => by simpa using hfull (i' + 1) (by omega)

/-- If a place has a texture, it has a last one. -/
theorem exists_last {imageInfos : List (ImageInfo H)} {place j i : Nat} (hplace : j + i = place)
    (hsome : textureAt imageInfos j i ≠ none) :
    ∃ j i des, j + i = place ∧ textureAt imageInfos j i = some des ∧
      ∀ j' i', j < j' → j' + i' = place → textureAt imageInfos j' i' = none := by
  by_contra hnone
  have hgrow : ∀ n, ∃ j i, n ≤ j ∧ j + i = place ∧ textureAt imageInfos j i ≠ none := by
    intro n
    induction n with
    | zero => exact ⟨j, i, Nat.zero_le j, hplace, hsome⟩
    | succ n ih =>
        obtain ⟨j, i, hle, hplace, hsome⟩ := ih
        obtain ⟨des, hdes⟩ := Option.ne_none_iff_exists'.mp hsome
        by_contra hlast
        refine hnone ⟨j, i, des, hplace, hdes, fun j' i' hlt hplace' => ?_⟩
        by_contra hsome'
        exact hlast ⟨j', i', by omega, hplace', hsome'⟩
  obtain ⟨j', i', hle, hplace', -⟩ := hgrow (place + 1)
  omega

/-- The places agree if every place that is read holds what is read there. -/
theorem placesAgree_iff {pool : Vector (Option H) MAX_INFOS} {imageInfos : List (ImageInfo H)}
    {buffers : Nat} (hroom : imageInfos.length + buffers ≤ MAX_INFOS)
    (hinside : ∀ w ∈ places 0 imageInfos, w.1 < MAX_INFOS) :
    PlacesAgree pool imageInfos buffers ↔ ∀ j k des, textureLeft imageInfos j k = some des →
      Holds pool (places 0 imageInfos) (j + k) (some des) := by
  have hlast : ∀ {place des}, LastStore (places 0 imageInfos) place (some des) ↔
      ∃ j i, j + i = place ∧ textureAt imageInfos j i = some des ∧
        ∀ j' i', j < j' → j' + i' = place → textureAt imageInfos j' i' = none := by
    intro place des
    simpa using @lastStore_places H 0 place imageInfos des
  have havoid : ∀ {place}, (∀ w ∈ places 0 imageInfos, w.1 ≠ place) ↔
      ∀ j i, j + i = place → textureAt imageInfos j i = none := by
    intro place
    simpa using @places_avoid_iff H 0 place imageInfos
  obtain ⟨pool', hpool⟩ := (Lib.storeAll_ok_iff pool).mpr hinside
  constructor
  · intro h j k des hleft
    by_cases hnone : ∀ j' i, j' + i = j + k → textureAt imageInfos j' i = none
    · exact .inr ⟨havoid.mpr hnone, h.before j k des hleft hnone⟩
    · push Not at hnone
      obtain ⟨j', i', hplace, hsome⟩ := hnone
      obtain ⟨j', i', des', hplace, hdes', hlater⟩ := exists_last hplace hsome
      -- the last texture at the place is the one that is read there
      have heq : des' = des := by
        by_cases hnull : ∃ i < i', textureAt imageInfos j' i = none
        · exact h.behind j' i' des' hdes' hnull (fun j'' i'' hlt heq => hlater j'' i'' hlt
            (heq.trans hplace)) j k des hplace.symm hleft
        · push Not at hnull
          exact h.same j' i' j k des' des (textureLeft_of_full hdes' hnull) hleft hplace
      exact .inl (hlast.mpr ⟨j', i', hplace, heq ▸ hdes', hlater⟩)
  · intro h
    have hread : ∀ {j k des}, textureLeft imageInfos j k = some des →
        pool'[j + k]? = some (some des) := fun hleft =>
      (Lib.getElem?_storeAll hpool).mpr (h _ _ _ hleft)
    refine ⟨hroom, fun j i hsome => ?_, ?_, ?_, ?_⟩
    · by_contra hout
      have hplace := (@havoid (i + j)).mp (fun w hw heq => hout (heq ▸ hinside w hw)) j i
        (Nat.add_comm ..)
      rw [hplace] at hsome
      exact nomatch hsome
    · intro j k j' k' des des' hleft hleft' hplace
      have heq := (hread hleft).symm.trans (hplace ▸ hread hleft')
      exact Option.some.inj (Option.some.inj heq)
    · intro j i des hdes _ hlater j' k des' hplace hleft
      have hstored := (Lib.getElem?_storeAll hpool).mpr
        (.inl (hlast.mpr ⟨j, i, rfl, hdes, hlater⟩))
      have heq := hstored.symm.trans (hplace ▸ hread hleft)
      exact Option.some.inj (Option.some.inj heq)
    · intro j k des hleft hnone
      cases h j k des hleft with
      | inl hstored =>
          obtain ⟨j', i, hplace, hdes, -⟩ := hlast.mp hstored
          exact nomatch (hnone j' i hplace).symm.trans hdes
      | inr hinit => exact hinit.2

/-! ### Single textures -/

/-- Image infos with one texture each, as a material has them, agree. -/
theorem placesAgree_of_single {pool : Vector (Option H) MAX_INFOS}
    {imageInfos : List (ImageInfo H)} {buffers : Nat}
    (h : ∀ imageInfo ∈ imageInfos, imageInfo.textures.length ≤ 1)
    (hroom : imageInfos.length + buffers ≤ MAX_INFOS) : PlacesAgree pool imageInfos buffers := by
  have hat : ∀ {j i des}, textureAt imageInfos j i = some des → i = 0 ∧ j < imageInfos.length := by
    intro j i des hdes
    obtain ⟨imageInfo, hinfo, hdes⟩ := Option.bind_eq_some_iff.mp hdes
    have hi := (List.getElem?_eq_some_iff.mp (Option.join_eq_some_iff.mp hdes)).1
    have hlength := h imageInfo (List.mem_of_getElem? hinfo)
    exact ⟨by omega, (List.getElem?_eq_some_iff.mp hinfo).1⟩
  have hleft : ∀ {j k des}, textureLeft imageInfos j k = some des →
      k = 0 ∧ textureAt imageInfos j 0 = some des := by
    intro j k des hdes
    obtain ⟨imageInfo, hinfo, hdes⟩ := Option.bind_eq_some_iff.mp hdes
    have hlength := h imageInfo (List.mem_of_getElem? hinfo)
    rw [textureAt, hinfo, Option.bind_some]
    match htextures : imageInfo.textures with
    | [] => simp [htextures, List.reduceOption] at hdes
    | [none] => simp [htextures, List.reduceOption] at hdes
    | [some des'] =>
        simpa [htextures, List.reduceOption, List.getElem?_singleton] using hdes
    | _ :: _ :: _ => simp [htextures] at hlength
  refine ⟨hroom, fun j i hsome => ?_, ?_, ?_, ?_⟩
  · obtain ⟨des, hdes⟩ := Option.isSome_iff_exists.mp hsome
    obtain ⟨rfl, hj⟩ := hat hdes
    omega
  · intro j k j' k' des des' hdes hdes' hplace
    obtain ⟨rfl, hdes⟩ := hleft hdes
    obtain ⟨rfl, hdes'⟩ := hleft hdes'
    obtain rfl : j = j' := hplace
    exact Option.some.inj (hdes.symm.trans hdes')
  · intro j i des hdes hnull
    obtain ⟨i', hlt, -⟩ := hnull
    exact absurd hlt (by rw [(hat hdes).1]; exact Nat.not_lt_zero i')
  · intro j k des hdes hnone
    obtain ⟨rfl, htexture⟩ := hleft hdes
    exact nomatch (hnone j 0 rfl).symm.trans htexture

/-! ### When the writes carry their images -/

/-- The update succeeds with writes that carry their own images if and only if the
places agree. -/
theorem updateInternal_carries_iff (set : VulkanDescriptorSet H B)
    (imageInfos : Option (List (ImageInfo H))) (bufferInfos : Option (List (BufferInfo B))) :
    (∃ set' count, updateInternal set imageInfos bufferInfos = .ok (set', count) ∧
        Carries (imageInfos.getD []) set') ↔
      PlacesAgree set.imageInfoPool (imageInfos.getD []) (bufferInfos.getD []).length := by
  have hread : ∀ {set' : VulkanDescriptorSet H B},
      storeAll set.writeDescriptorSetPool (writes (imageInfos.getD []) (bufferInfos.getD [])) =
        .ok set'.writeDescriptorSetPool → ∀ {j : Nat} {imageInfo : ImageInfo H},
      (imageInfos.getD [])[j]? = some imageInfo →
        set'.writeDescriptorSetPool[j]? = some (some (imageWrite imageInfo j)) := by
    intro set' hwrites j imageInfo hinfo
    refine (Lib.getElem?_storeAll hwrites).mpr (.inl (Lib.lastStore_of_nodup ?_ ?_))
    · rw [map_fst_writes]
      exact List.nodup_range
    · exact List.mem_append_left _ (mem_imageWrites hinfo)
  constructor
  · intro hupdate
    obtain ⟨set', count, h, hcarries⟩ := hupdate
    obtain ⟨hpool, hwrites⟩ := updateInternal_ok h
    have hinside := (Lib.storeAll_ok_iff _).mp ⟨_, hpool⟩
    have hindices := (Lib.storeAll_ok_iff _).mp ⟨_, hwrites⟩
    have hroom : (imageInfos.getD []).length + (bufferInfos.getD []).length ≤ MAX_INFOS := by
      by_contra hroom
      have hlast :
          MAX_INFOS ∈ (writes (imageInfos.getD []) (bufferInfos.getD [])).map Prod.fst := by
        rw [map_fst_writes, List.mem_range]
        exact not_le.mp hroom
      obtain ⟨w, hw, hindex⟩ := List.mem_map.mp hlast
      exact absurd (hindices w hw) (by rw [hindex]; exact lt_irrefl _)
    refine (placesAgree_iff hroom hinside).mpr fun j k des hleft => ?_
    obtain ⟨imageInfo, hinfo, hdes⟩ := Option.bind_eq_some_iff.mp hleft
    obtain ⟨w, p, hw, hinfo', hentries⟩ := hcarries j imageInfo hinfo
    rw [hread hwrites hinfo] at hw
    obtain rfl := Option.some.inj (Option.some.inj hw)
    obtain rfl := PoolPointer.imageInfo.inj hinfo'
    exact (Lib.getElem?_storeAll hpool).mp ((map_range_eq_iff _).mp hentries k des hdes)
  · intro hplaces
    have hinside := places_inside hplaces.inside
    obtain ⟨set', count, h⟩ := exists_updateInternal set hplaces.room hinside
    obtain ⟨hpool, hwrites⟩ := updateInternal_ok h
    refine ⟨set', count, h, fun j imageInfo hinfo => ?_⟩
    refine ⟨imageWrite imageInfo j, j, hread hwrites hinfo, rfl, ?_⟩
    refine (map_range_eq_iff _).mpr fun k des hdes => ?_
    refine (Lib.getElem?_storeAll hpool).mpr ?_
    exact (placesAgree_iff hplaces.room hinside).mp hplaces j k des
      (Option.bind_eq_some_iff.mpr ⟨imageInfo, hinfo, hdes⟩)

/-- An image info with two textures in front of one with a third. -/
def twoThenOne : List (ImageInfo Nat) :=
  [⟨[some 1, some 2], 0, "first"⟩, ⟨[some 3], 1, "second"⟩]

/-- The third texture replaces the second. -/
theorem updateInternal_overwrites :
    ¬ ∃ set' count, updateInternal (.new Nat Nat) (some twoThenOne) none =
        .ok (set', count) ∧ Carries twoThenOne set' := by
  intro hupdate
  obtain ⟨set', count, h, hcarries⟩ := hupdate
  have hentry : (updateInternal (.new Nat Nat) (some twoThenOne) none).map
      (fun r => (r.1.writeDescriptorSetPool[0]?, r.1.imageInfoPool[1]?)) =
      .ok (some (some ⟨0, .combinedImageSampler, .imageInfo 0, 2⟩), some (some 3)) := rfl
  rw [h] at hentry
  obtain ⟨hwrite, hthird⟩ := Prod.mk.inj (Except.ok.inj hentry)
  obtain ⟨w, p, hw, hp, hentries⟩ := hcarries 0 ⟨[some 1, some 2], 0, "first"⟩ rfl
  rw [hwrite] at hw
  obtain rfl := Option.some.inj (Option.some.inj hw)
  obtain rfl := PoolPointer.imageInfo.inj hp
  have hsecond : set'.imageInfoPool[1]? = some (some 2) :=
    (map_range_eq_iff [1, 2]).mp hentries 1 2 rfl
  exact absurd (hthird.symm.trans hsecond) (by decide)

end Maple.Vulkan
