import Mathlib.Algebra.GroupWithZero.Nat
import Mathlib.Order.CompletePartialOrder
import Maple.Lib.Offsets

/-!
# Maple.Vulkan.VertexInputs

The vertex inputs of `VulkanShader::createShader` in `Engine/Vulkan/VulkanShader.cpp`.
**The attributes are laid out one behind the other exactly where both tables know their
format.** The format of an input is chosen by one table (`getVulkanFormat`), the bytes by
which the next offset is moved on by another (`getStrideFromVulkanFormat`); a format that
is missing in the second counts for no bytes.
-/

namespace Maple.Vulkan

/-- `SPIRType::BaseType`; `other` stands for the types `getVulkanFormat` does not map. -/
inductive BaseType where
  | uint
  | int
  | float
  | double
  | other
  deriving DecidableEq, Repr

/-- What is read of `spirv_cross::SPIRType`. -/
structure SPIRType where
  basetype : BaseType
  vecsize : UInt32
  deriving DecidableEq, Repr

inductive VkFormat where
  | r8Sint
  | r32Uint
  | r32g32Uint
  | r32g32b32Uint
  | r32g32b32a32Uint
  | r32Sint
  | r32g32Sint
  | r32g32b32Sint
  | r32g32b32a32Sint
  | r32Sfloat
  | r32g32Sfloat
  | r32g32b32Sfloat
  | r32g32b32a32Sfloat
  | r64Sfloat
  | r64g64Sfloat
  | r64g64b64Sfloat
  | r64g64b64a64Sfloat
  deriving DecidableEq, Repr

/-- A format the `switch` does not name is logged as unsupported. -/
def getStrideFromVulkanFormat : VkFormat → UInt32
  | .r8Sint | .r32Sint => 4
  | .r32Sfloat => 4
  | .r32g32Sfloat => 8
  | .r32g32b32Sfloat => 12
  | .r32g32b32a32Sfloat => 16
  | .r32g32Sint => 8
  | .r32g32b32Sint => 12
  | .r32g32b32a32Sint => 16
  | .r32g32Uint => 8
  | .r32g32b32Uint => 12
  | .r32g32b32a32Uint => 16
  | _ => 0

def uintTypes : List VkFormat := [.r32Uint, .r32g32Uint, .r32g32b32Uint, .r32g32b32a32Uint]

def intTypes : List VkFormat := [.r32Sint, .r32g32Sint, .r32g32b32Sint, .r32g32b32a32Sint]

def floatTypes : List VkFormat :=
  [.r32Sfloat, .r32g32Sfloat, .r32g32b32Sfloat, .r32g32b32a32Sfloat]

def doubleTypes : List VkFormat :=
  [.r64Sfloat, .r64g64Sfloat, .r64g64b64Sfloat, .r64g64b64a64Sfloat]

/-- `none` is an index out of range. -/
def getVulkanFormat (type : SPIRType) : Option VkFormat :=
  match type.basetype with
  | .uint => uintTypes[(type.vecsize - 1).toNat]?
  | .int => intTypes[(type.vecsize - 1).toNat]?
  | .float => floatTypes[(type.vecsize - 1).toNat]?
  | .double => doubleTypes[(type.vecsize - 1).toNat]?
  | .other => some .r32g32b32a32Sfloat

/-- A stage input of the vertex shader, with its decorations. -/
structure StageInput where
  binding : UInt32
  location : UInt32
  type : SPIRType
  deriving DecidableEq, Repr

structure VkVertexInputAttributeDescription where
  binding : UInt32
  location : UInt32
  offset : UInt32
  format : VkFormat
  deriving DecidableEq, Repr

/-- `vertexInputAttributeDescriptions` and `vertexInputStride`. -/
abbrev VertexInputs := List VkVertexInputAttributeDescription × UInt32

/-- One turn of the loop over the stage inputs. -/
def addStageInput (s : VertexInputs) (resource : StageInput) : Option VertexInputs :=
  (getVulkanFormat resource.type).map fun format =>
    (s.1 ++ [{ binding := resource.binding
               location := resource.location
               offset := s.2
               format := format }],
      s.2 + getStrideFromVulkanFormat format)

/-- The vertex inputs of `createShader`. -/
def vertexInputs (stageInputs : List StageInput) : Option VertexInputs :=
  stageInputs.foldlM addStageInput ([], 0)

/-! ### Sizes and strides -/

namespace SPIRType

/-- A type that `getVulkanFormat` maps. -/
structure Mapped (type : SPIRType) : Prop where
  basetype : type.basetype ≠ .other
  pos : 1 ≤ type.vecsize
  le : type.vecsize ≤ 4

instance (type : SPIRType) : Decidable type.Mapped :=
  decidable_of_iff (type.basetype ≠ .other ∧ 1 ≤ type.vecsize ∧ type.vecsize ≤ 4)
    ⟨fun h => ⟨h.1, h.2.1, h.2.2⟩, fun h => ⟨h.basetype, h.pos, h.le⟩⟩

/-- The bytes of a value of the type. -/
def size (type : SPIRType) : Nat :=
  type.vecsize.toNat * if type.basetype = .double then 8 else 4

/-- The stride table has no entry for the format of the type. -/
def Missing (type : SPIRType) : Prop :=
  type.basetype = .double ∨ type.basetype = .uint ∧ type.vecsize = 1

instance (type : SPIRType) : Decidable type.Missing := inferInstanceAs (Decidable (_ ∨ _))

/-- The bytes by which the next offset is moved on. -/
def stride (type : SPIRType) : Nat := if type.Missing then 0 else type.size

theorem Mapped.vecsize_cases {type : SPIRType} (h : type.Mapped) :
    type.vecsize = 1 ∨ type.vecsize = 2 ∨ type.vecsize = 3 ∨ type.vecsize = 4 := by
  have hpos : 1 ≤ type.vecsize.toNat := h.pos
  have hle : type.vecsize.toNat ≤ 4 := h.le
  simp only [← UInt32.toNat_inj]
  show _ = 1 ∨ _ = 2 ∨ _ = 3 ∨ _ = 4
  omega

/-- The two tables together: a mapped type has a format, and the stride of the format is
the size of the type or, where it is missing, zero. -/
theorem Mapped.format {type : SPIRType} (h : type.Mapped) :
    ∃ format, getVulkanFormat type = some format ∧
      (getStrideFromVulkanFormat format).toNat = type.stride := by
  obtain ⟨basetype, vecsize⟩ := type
  have hcases : vecsize = 1 ∨ vecsize = 2 ∨ vecsize = 3 ∨ vecsize = 4 := h.vecsize_cases
  rcases hcases with rfl | rfl | rfl | rfl
  all_goals
    cases basetype with
    | other => exact absurd rfl h.basetype
    | uint | int | float | double => exact ⟨_, rfl, rfl⟩

theorem stride_le_size (type : SPIRType) : type.stride ≤ type.size := by
  rw [stride]
  split
  next => exact Nat.zero_le _
  next => exact le_rfl

theorem Mapped.stride_eq_size_iff {type : SPIRType} (h : type.Mapped) :
    type.stride = type.size ↔ ¬ type.Missing := by
  have hpos : 0 < type.size := by
    have hvecsize : 1 ≤ type.vecsize.toNat := h.pos
    refine Nat.mul_pos hvecsize ?_
    split
    next => decide
    next => decide
  rw [stride]
  split
  next hmissing => exact iff_of_false hpos.ne (not_not.mpr hmissing)
  next hmissing => exact iff_of_true rfl hmissing

end SPIRType

/-! ### The loop -/

/-- The loop lays the inputs out by their strides, in 32 bits. -/
theorem foldlM_addStageInput {inputs : List StageInput}
    (hmapped : ∀ input ∈ inputs, input.type.Mapped)
    (descriptions : List VkVertexInputAttributeDescription) (start : Nat) :
    ∃ added, inputs.foldlM addStageInput (descriptions, .ofNat start) =
        some (descriptions ++ added,
          .ofNat (start + (inputs.map fun input => input.type.stride).sum)) ∧
      added.map VkVertexInputAttributeDescription.offset =
        (Lib.offsets start (inputs.map fun input => input.type.stride)).map UInt32.ofNat := by
  induction inputs generalizing descriptions start with
  | nil => exact ⟨[], by rw [List.append_nil]; rfl, rfl⟩
  | cons input inputs ih =>
      obtain ⟨format, hformat, hstride⟩ := (hmapped input List.mem_cons_self).format
      have hnext : UInt32.ofNat start + getStrideFromVulkanFormat format =
          .ofNat (start + input.type.stride) := by
        rw [UInt32.ofNat_add, ← hstride, UInt32.ofNat_toNat]
      obtain ⟨added, hadded, hoffsets⟩ := ih
        (fun x hx => hmapped x (List.mem_cons_of_mem _ hx))
        (descriptions ++ [⟨input.binding, input.location, .ofNat start, format⟩])
        (start + input.type.stride)
      refine ⟨⟨input.binding, input.location, .ofNat start, format⟩ :: added, ?_, ?_⟩
      · rw [List.foldlM_cons, addStageInput, hformat]
        simp only [Option.map_some, hnext]
        refine hadded.trans ?_
        rw [List.append_assoc, List.map_cons, List.sum_cons, Nat.add_assoc]
        rfl
      · rw [List.map_cons, hoffsets]
        rfl

/-- What the layout promises: the offsets are the running sums of the sizes, no two
attributes share a byte, and the stride is the sum of all sizes. -/
structure LaidOut (inputs : List StageInput) (result : VertexInputs) : Prop where
  offsets : result.1.map (fun description => description.offset.toNat) =
    Lib.offsets 0 (inputs.map fun input => input.type.size)
  disjoint : (result.1.zip inputs).Pairwise fun a b =>
    Disjoint (Set.Ico a.1.offset.toNat (a.1.offset.toNat + a.2.type.size))
      (Set.Ico b.1.offset.toNat (b.1.offset.toNat + b.2.type.size))
  stride : result.2.toNat = (inputs.map fun input => input.type.size).sum

/-- The disjointness follows from the offsets. -/
theorem disjoint_of_offsets {inputs : List StageInput}
    {descriptions : List VkVertexInputAttributeDescription}
    (h : descriptions.map (fun description => description.offset.toNat) =
      Lib.offsets 0 (inputs.map fun input => input.type.size)) :
    (descriptions.zip inputs).Pairwise fun a b =>
      Disjoint (Set.Ico a.1.offset.toNat (a.1.offset.toNat + a.2.type.size))
        (Set.Ico b.1.offset.toNat (b.1.offset.toNat + b.2.type.size)) := by
  have hdisjoint := Lib.disjoint_offsets 0 (inputs.map fun input => input.type.size)
  rw [← h, List.zip_map, List.pairwise_map] at hdisjoint
  exact hdisjoint

/-- The attributes of mapped inputs are laid out by their sizes if and only if no format
is missing in the stride table and all of them have less than `2 ^ 32` bytes. -/
theorem vertexInputs_laidOut_iff {inputs : List StageInput}
    (hmapped : ∀ input ∈ inputs, input.type.Mapped) :
    (∃ result, vertexInputs inputs = some result ∧ LaidOut inputs result) ↔
      (∀ input ∈ inputs, ¬ input.type.Missing) ∧
        (inputs.map fun input => input.type.size).sum < 2 ^ 32 := by
  obtain ⟨added, hadded, hoffsets⟩ := foldlM_addStageInput hmapped [] 0
  rw [Nat.zero_add] at hadded
  have hsizes : (∀ input ∈ inputs, ¬ input.type.Missing) ↔
      (inputs.map fun input => input.type.stride).sum =
        (inputs.map fun input => input.type.size).sum := by
    rw [Lib.sum_map_eq_iff fun input _ => input.type.stride_le_size]
    exact forall₂_congr fun input hinput => (hmapped input hinput).stride_eq_size_iff.symm
  constructor
  · intro h
    obtain ⟨result, hresult, hlaid⟩ := h
    obtain rfl := Option.some.inj (hadded.symm.trans hresult)
    have hstride := (UInt32.toNat_ofNat' ..).symm.trans hlaid.stride
    have hle : (inputs.map fun input => input.type.stride).sum ≤
        (inputs.map fun input => input.type.size).sum :=
      List.sum_le_sum fun input _ => input.type.stride_le_size
    have hmod := Nat.mod_le (inputs.map fun input => input.type.stride).sum (2 ^ 32)
    have hlt := Nat.mod_lt (inputs.map fun input => input.type.stride).sum (by decide : 0 < 2 ^ 32)
    exact ⟨hsizes.mpr (le_antisymm hle (hstride ▸ hmod)), hstride ▸ hlt⟩
  · intro h
    obtain ⟨hmissing, hlt⟩ := h
    have hsame : (inputs.map fun input => input.type.stride) =
        inputs.map fun input => input.type.size :=
      List.map_congr_left fun input hinput =>
        (hmapped input hinput).stride_eq_size_iff.mpr (hmissing input hinput)
    rw [hsame] at hoffsets hadded
    have hadded' : added.map (fun description => description.offset.toNat) =
        Lib.offsets 0 (inputs.map fun input => input.type.size) := by
      have htoNat := congrArg (List.map UInt32.toNat) hoffsets
      rw [List.map_map, List.map_map] at htoNat
      refine htoNat.trans ((List.map_congr_left fun offset hoffset => ?_).trans (List.map_id _))
      have hle := Lib.le_of_mem_offsets hoffset
      rw [Nat.zero_add] at hle
      exact UInt32.toNat_ofNat_of_lt' (hle.trans_lt hlt)
    refine ⟨_, hadded, hadded', disjoint_of_offsets hadded', ?_⟩
    exact UInt32.toNat_ofNat_of_lt' hlt

/-- A position, a colour and an index. -/
def stageInputs : List StageInput :=
  [⟨0, 0, ⟨.float, 3⟩⟩, ⟨0, 1, ⟨.float, 4⟩⟩, ⟨0, 2, ⟨.int, 1⟩⟩]

theorem vertexInputs_laidOut_iff_three :
    ∃ result, vertexInputs stageInputs = some result ∧ LaidOut stageInputs result :=
  (vertexInputs_laidOut_iff (by decide)).mpr ⟨by decide, by decide⟩

/-- Two inputs of one unsigned integer have the same offset. -/
theorem vertexInputs_uint_overlap :
    ¬ ∃ result, vertexInputs [⟨0, 0, ⟨.uint, 1⟩⟩, ⟨0, 1, ⟨.uint, 1⟩⟩] = some result ∧
      LaidOut [⟨0, 0, ⟨.uint, 1⟩⟩, ⟨0, 1, ⟨.uint, 1⟩⟩] result := by
  intro h
  obtain ⟨result, hresult, hlaid⟩ := h
  obtain rfl := Option.some.inj hresult
  exact absurd hlaid.offsets (by decide)

end Maple.Vulkan
