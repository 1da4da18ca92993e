import Mathlib.Algebra.Group.Nat.Defs
import Mathlib.Data.List.Induction
import Mathlib.Data.Nat.Basic
import Maple.Lib.Buckets
import Maple.Lib.Stores

/-!
# Maple.Vulkan.PipelineLayout

`VulkanPipeline::createPipelineLayout`: **the descriptor layouts of a shader are grouped
by set, where the set ids come in order.** For each layout the vector of sets grows by
one at most, so a set id that leaves a gap behind the ones before it is out of range.
-/

namespace Maple.Vulkan

open Lib (OutOfRange)

inductive DescriptorType where
  | uniformBuffer
  | uniformBufferDynamic
  | imageSampler
  deriving DecidableEq, Repr

inductive ShaderType where
  | unknown
  | vertexShader
  | fragmentShader
  | geometryShader
  | computeShader
  | typeLength
  deriving DecidableEq, Repr

structure DescriptorLayoutInfo where
  type : DescriptorType
  stage : ShaderType
  binding : UInt32 := 0
  setId : UInt32 := 0
  count : UInt32 := 1
  deriving DecidableEq, Repr

/-- What `VkConverter::descriptorTypeToVK` returns. -/
inductive VkDescriptorType where
  | uniformBuffer
  | uniformBufferDynamic
  | combinedImageSampler
  deriving DecidableEq, Repr

def descriptorTypeToVK : DescriptorType → VkDescriptorType
  | .uniformBuffer => .uniformBuffer
  | .uniformBufferDynamic => .uniformBufferDynamic
  | .imageSampler => .combinedImageSampler

/-- What `VkConverter::shaderTypeToVK` returns. -/
inductive VkShaderStageFlagBits where
  | vertex
  | fragment
  deriving DecidableEq, Repr

def shaderTypeToVK : ShaderType → VkShaderStageFlagBits
  | .vertexShader => .vertex
  | .fragmentShader => .fragment
  | .unknown | .geometryShader | .computeShader | .typeLength => .vertex

structure VkDescriptorSetLayoutBinding where
  descriptorType : VkDescriptorType
  stageFlags : VkShaderStageFlagBits
  binding : UInt32
  descriptorCount : UInt32
  deriving DecidableEq, Repr

/-- The body of the first loop of `createPipelineLayout`. -/
def addLayout (layouts : List (List DescriptorLayoutInfo))
    (descriptorLayout : DescriptorLayoutInfo) :
    Except OutOfRange (List (List DescriptorLayoutInfo)) :=
  let setId := descriptorLayout.setId
  let layouts := if layouts.length < (setId + 1).toNat then layouts ++ [[]] else layouts
  match layouts[setId.toNat]? with
  | some l => .ok (layouts.set setId.toNat (l ++ [descriptorLayout]))
  | none => .error (.at setId.toNat)

/-- `layouts` after the first loop. -/
def groupLayouts (infos : List DescriptorLayoutInfo) :
    Except OutOfRange (List (List DescriptorLayoutInfo)) :=
  infos.foldlM addLayout []

/-- The binding made of one layout. -/
def layoutBinding (info : DescriptorLayoutInfo) : VkDescriptorSetLayoutBinding where
  descriptorType := descriptorTypeToVK info.type
  stageFlags := shaderTypeToVK info.stage
  binding := info.binding
  descriptorCount := info.count

/-- `createPipelineLayout`, up to the descriptor set layouts. -/
def createPipelineLayout (infos : List DescriptorLayoutInfo) :
    Except OutOfRange (List (List VkDescriptorSetLayoutBinding)) :=
  (groupLayouts infos).map fun layouts => layouts.map (List.map layoutBinding)

/-! ### Sets in order -/

/-- The set an info belongs to. -/
def DescriptorLayoutInfo.set (info : DescriptorLayoutInfo) : Nat := info.setId.toNat

/-- The greatest set id and one, `0` for no info. -/
def setCount (infos : List DescriptorLayoutInfo) : Nat :=
  infos.foldr (fun info n => max (info.set + 1) n) 0

/-- Every set id is at most one above those before it, and `setId + 1` is a number. -/
def SetsInOrder (infos : List DescriptorLayoutInfo) : Prop :=
  ∀ before info after, infos = before ++ info :: after →
    info.set ≤ setCount before ∧ info.set + 1 < 2 ^ 32

theorem setCount_concat (infos : List DescriptorLayoutInfo) (info : DescriptorLayoutInfo) :
    setCount (infos ++ [info]) = max (setCount infos) (info.set + 1) := by
  induction infos with
  | nil => simp [setCount]
  | cons x xs ih =>
      have hcons : ∀ ys, setCount (x :: ys) = max (x.set + 1) (setCount ys) := fun _ => rfl
      rw [List.cons_append, hcons, hcons, ih, max_assoc]

theorem set_lt_setCount {infos : List DescriptorLayoutInfo} :
    ∀ info ∈ infos, info.set < setCount infos := by
  induction infos using List.reverseRecOn with
  | nil => simp
  | append_singleton infos x ih =>
      intro info hinfo
      rw [setCount_concat]
      cases List.mem_append.mp hinfo with
      | inl hmem => exact Nat.lt_of_lt_of_le (ih info hmem) (Nat.le_max_left ..)
      | inr hlast =>
          rw [List.mem_singleton.mp hlast]
          exact Nat.lt_of_lt_of_le (Nat.lt_succ_self _) (Nat.le_max_right ..)

theorem setsInOrder_concat {infos : List DescriptorLayoutInfo} {info : DescriptorLayoutInfo} :
    SetsInOrder (infos ++ [info]) ↔
      SetsInOrder infos ∧ info.set ≤ setCount infos ∧ info.set + 1 < 2 ^ 32 := by
  constructor
  · intro h
    refine ⟨fun before x after heq => h before x (after ++ [info]) (by simp [heq]), ?_⟩
    exact h infos info [] rfl
  · intro horder before x after heq
    obtain ⟨hinfos, hinfo⟩ := horder
    rcases List.eq_nil_or_concat after with rfl | ⟨after, y, rfl⟩
    · obtain ⟨rfl, hx⟩ := List.append_inj' heq rfl
      exact List.singleton_inj.mp hx ▸ hinfo
    · have hsplit : infos ++ [info] = before ++ x :: after ++ [y] := by simpa using heq
      exact hinfos before x after (List.append_inj' hsplit rfl).1

/-! ### The loop -/

/-- The sets of the infos, each with its own in their order. -/
def sets (infos : List DescriptorLayoutInfo) : List (List DescriptorLayoutInfo) :=
  Lib.buckets DescriptorLayoutInfo.set (setCount infos) infos

theorem toNat_succ (setId : UInt32) : (setId + 1).toNat = (setId.toNat + 1) % 2 ^ 32 := rfl

/-- A set id in order extends the sets by its info. -/
theorem addLayout_sets {infos : List DescriptorLayoutInfo} {info : DescriptorLayoutInfo}
    (hset : info.set ≤ setCount infos) (hlt : info.set + 1 < 2 ^ 32) :
    addLayout (sets infos) info = .ok (sets (infos ++ [info])) := by
  have hsucc : (info.setId + 1).toNat = info.set + 1 := by
    rw [toNat_succ]
    exact Nat.mod_eq_of_lt hlt
  have hgrown :
      (if (sets infos).length < (info.setId + 1).toNat then sets infos ++ [[]] else sets infos) =
        Lib.buckets DescriptorLayoutInfo.set (setCount (infos ++ [info])) infos := by
    rw [sets, Lib.length_buckets, hsucc, setCount_concat]
    by_cases hnew : setCount infos < info.set + 1
    · rw [if_pos hnew, max_eq_right (Nat.le_of_lt hnew), le_antisymm hset (Nat.lt_succ_iff.mp hnew)]
      exact (Lib.buckets_succ set_lt_setCount).symm
    · rw [if_neg hnew, max_eq_left (not_lt.mp hnew)]
  have hinside : info.set < setCount (infos ++ [info]) :=
    set_lt_setCount info (List.mem_append_right _ List.mem_cons_self)
  unfold addLayout
  simp only [hgrown]
  rw [show info.setId.toNat = info.set from rfl, Lib.getElem?_buckets hinside, sets,
    Lib.buckets_concat hinside]

/-- Any other set id is out of range. -/
theorem addLayout_error {infos : List DescriptorLayoutInfo} {info : DescriptorLayoutInfo}
    (h : ¬ (info.set ≤ setCount infos ∧ info.set + 1 < 2 ^ 32)) (hbound : setCount infos < 2 ^ 32) :
    addLayout (sets infos) info = .error (.at info.set) := by
  have hlt : info.set < 2 ^ 32 := info.setId.toNat_lt
  have hlength : (if (sets infos).length < (info.setId + 1).toNat then sets infos ++ [[]]
      else sets infos).length ≤ info.set := by
    rw [sets, Lib.length_buckets, toNat_succ, apply_ite List.length, List.length_append,
      Lib.length_buckets, List.length_singleton]
    by_cases hnumber : info.set + 1 < 2 ^ 32
    · have hgap : setCount infos < info.set := not_le.mp fun hle => h ⟨hle, hnumber⟩
      split <;> omega
    · -- the greatest id: `setId + 1` is `0` and nothing grows
      have hzero : (info.setId.toNat + 1) % 2 ^ 32 = 0 := by
        have hmax : info.setId.toNat + 1 = 2 ^ 32 := le_antisymm hlt (not_lt.mp hnumber)
        rw [hmax, Nat.mod_self]
      rw [hzero, if_neg (Nat.not_lt_zero _)]
      omega
  unfold addLayout
  simp only []
  rw [show info.setId.toNat = info.set from rfl, List.getElem?_eq_none hlength]

theorem setCount_lt {infos : List DescriptorLayoutInfo} (h : SetsInOrder infos) :
    setCount infos < 2 ^ 32 := by
  induction infos using List.reverseRecOn with
  | nil => exact Nat.two_pow_pos 32
  | append_singleton infos x ih =>
      obtain ⟨hinfos, -, hx⟩ := setsInOrder_concat.mp h
      rw [setCount_concat]
      exact max_lt (ih hinfos) hx

theorem groupLayouts_concat (infos : List DescriptorLayoutInfo) (info : DescriptorLayoutInfo) :
    groupLayouts (infos ++ [info]) = (groupLayouts infos).bind (addLayout · info) := by
  rw [groupLayouts, List.foldlM_append]
  refine bind_congr fun layouts => ?_
  exact bind_pure _

theorem groupLayouts_eq {infos : List DescriptorLayoutInfo} (h : SetsInOrder infos) :
    groupLayouts infos = .ok (sets infos) := by
  induction infos using List.reverseRecOn with
  | nil => rfl
  | append_singleton infos x ih =>
      obtain ⟨hinfos, hset, hlt⟩ := setsInOrder_concat.mp h
      rw [groupLayouts_concat, ih hinfos]
      exact addLayout_sets hset hlt

theorem groupLayouts_error {infos : List DescriptorLayoutInfo} (h : ¬ SetsInOrder infos) :
    ∃ index, groupLayouts infos = .error (.at index) := by
  induction infos using List.reverseRecOn with
  | nil => exact absurd (fun before info after heq => by simp at heq) h
  | append_singleton infos x ih =>
      rw [groupLayouts_concat]
      by_cases hinfos : SetsInOrder infos
      · have hx := fun hx => h (setsInOrder_concat.mpr ⟨hinfos, hx⟩)
        rw [groupLayouts_eq hinfos]
        exact ⟨x.set, addLayout_error hx (setCount_lt hinfos)⟩
      · obtain ⟨index, hindex⟩ := ih hinfos
        exact ⟨index, by rw [hindex]; rfl⟩

/-- The vector has an element for each set up to the greatest, which lists the infos of
this set in their order. -/
structure Grouped (infos : List DescriptorLayoutInfo)
    (layouts : List (List DescriptorLayoutInfo)) : Prop where
  length_eq : layouts.length = setCount infos
  element : ∀ i < setCount infos, layouts[i]? = some (infos.filter fun info => info.set = i)

/-- The infos are grouped by set, without an access out of range, if and only if no set
id leaves a gap behind the ones before it. -/
theorem groupLayouts_iff (infos : List DescriptorLayoutInfo) :
    (∃ layouts, groupLayouts infos = .ok layouts ∧ Grouped infos layouts) ↔ SetsInOrder infos := by
  constructor
  · intro hgrouped
    obtain ⟨layouts, hlayouts, -⟩ := hgrouped
    by_contra h
    obtain ⟨index, herror⟩ := groupLayouts_error h
    exact nomatch hlayouts.symm.trans herror
  · intro h
    exact ⟨sets infos, groupLayouts_eq h, Lib.length_buckets, fun i hi => Lib.getElem?_buckets hi⟩

/-- A sampler in set `1` of the fragment shader, reflected before the vertex shader. -/
theorem groupLayouts_fragment_first :
    ¬ ∃ layouts, groupLayouts [⟨.imageSampler, .fragmentShader, 0, 1, 1⟩,
        ⟨.uniformBuffer, .vertexShader, 0, 0, 1⟩] = .ok layouts ∧
      Grouped [⟨.imageSampler, .fragmentShader, 0, 1, 1⟩,
        ⟨.uniformBuffer, .vertexShader, 0, 0, 1⟩] layouts := by
  intro hgrouped
  obtain ⟨layouts, hlayouts, -⟩ := hgrouped
  have herror : groupLayouts [⟨.imageSampler, .fragmentShader, 0, 1, 1⟩,
      ⟨.uniformBuffer, .vertexShader, 0, 0, 1⟩] = .error (.at 1) := rfl
  exact nomatch hlayouts.symm.trans herror

end Maple.Vulkan
