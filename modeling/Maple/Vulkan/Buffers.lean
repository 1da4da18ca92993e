import Mathlib.Data.List.Basic
import Mathlib.Tactic.SplitIfs
import Mathlib.Tactic.Tauto
import Maple.Lib.Schedule

/-!
# Maple.Vulkan.Buffers

`VulkanBuffer.cpp` and `VertexBuffer.cpp` against what Vulkan asks for: memory is mapped once
at a time, is written to within what is mapped, and is flushed and unmapped while it is.

A vertex buffer stands for its bytes and for a pointer that is held or not. It takes calls as
long as its size does not change while the pointer is held, and then it holds the bytes of
the last `setData` or `setSubData`, at whatever offset, with what was written through the
pointer, `vertexBuffer_iff`. The rule that `vkFlushMappedMemoryRanges` has for sizes, multiples
of `nonCoherentAtomSize`, is left out.
-/

namespace Maple.Vulkan

open Lib

variable {B : Type}

/-- `VulkanBuffer`, and the `mappedBuffer` of `VertexBuffer`. Memory objects are numbered, the
bytes of the one that is there are those of `memory`, undefined until they are written, and
`range` is where it is mapped, with what size. The pointer `mapped` is into the memory object
of its number. -/
structure VulkanBuffer (B : Type) where
  size : Nat
  memory : List (Option B)
  object : Nat
  range : Option (Nat × Nat)
  mapped : Option (Nat × Nat)
  mappedBuffer : Bool

/-- Bytes that are written over others. -/
def overwrite (memory : List (Option B)) (offset : Nat) (data : List B) : List (Option B) :=
  memory.take offset ++ data.map some ++ memory.drop (offset + data.length)

@[simp] theorem overwrite_length (memory : List (Option B)) {offset : Nat} {data : List B}
    (hle : offset + data.length ≤ memory.length) :
    (overwrite memory offset data).length = memory.length := by
  simp only [overwrite, List.length_append, List.length_take, List.length_map, List.length_drop]
  omega

theorem overwrite_all {memory : List (Option B)} {data : List B}
    (hlen : memory.length = data.length) : overwrite memory 0 data = data.map some := by
  simp [overwrite, ← hlen]

theorem overwrite_append (before after : List (Option B)) (data : List B) :
    overwrite (before ++ after) before.length data =
      before ++ data.map some ++ after.drop data.length := by
  rw [overwrite, List.take_left, ← List.drop_drop, List.drop_left]

namespace VulkanBuffer

/-- `VertexBuffer::create`: no memory yet. -/
def create : VulkanBuffer B where
  size := 0
  memory := []
  object := 0
  range := none
  mapped := none
  mappedBuffer := false

/-- `map`; the whole memory has no size. There has to be memory, which is not mapped. -/
def map (buffer : VulkanBuffer B) (size : Option Nat) (offset : Nat) : Option (VulkanBuffer B) :=
  let size := size.getD (buffer.memory.length - offset)
  if buffer.range = none ∧ offset < buffer.memory.length ∧ 0 < size ∧
      offset + size ≤ buffer.memory.length then
    some { buffer with range := some (offset, size), mapped := some (buffer.object, offset) }
  else none

def unmap (buffer : VulkanBuffer B) : Option (VulkanBuffer B) :=
  if buffer.mapped.isSome then
    if buffer.range.isSome then some { buffer with range := none, mapped := none } else none
  else some buffer

def flush (buffer : VulkanBuffer B) : Option (VulkanBuffer B) :=
  if buffer.range.isSome then some buffer else none

/-- `memcpy` to the pointer: it has to be into the memory that is there, where it is mapped. -/
def memcpy (buffer : VulkanBuffer B) (position : Nat) (data : List B) : Option (VulkanBuffer B) :=
  match buffer.mapped, buffer.range with
  | some (object, start), some (offset, size) =>
    if object = buffer.object ∧ offset ≤ start + position ∧
        start + position + data.length ≤ offset + size then
      some { buffer with memory := overwrite buffer.memory (start + position) data }
    else none
  | _, _ => none

/-- The data is copied to the offset within what is mapped from the offset on. -/
def setData (buffer : VulkanBuffer B) (data : List B) (offset : Nat) :
    Option (VulkanBuffer B) := do
  let buffer ← buffer.map (some data.length) offset
  let buffer ← buffer.memcpy offset data
  buffer.unmap

/-- `init`; a buffer has a size. -/
def init (buffer : VulkanBuffer B) (size : Nat) (data : Option (List B)) :
    Option (VulkanBuffer B) :=
  if 0 < size then
    let buffer := { buffer with
      size, memory := List.replicate size none, object := buffer.object + 1, range := none }
    match data with
    | some data => buffer.setData data 0
    | none => some buffer
  else none

/-- `resize`: memory that is freed is not mapped any more. -/
def resize (buffer : VulkanBuffer B) (size : Nat) (data : Option (List B)) :
    Option (VulkanBuffer B) :=
  buffer.init size data

end VulkanBuffer

/-! ### Vertex buffers -/

/-- The calls of a `VertexBuffer`, and what its pointer is used for. -/
inductive BufferCall (B : Type) where
  | setData (data : List B)
  | setSubData (data : List B) (offset : Nat)
  | resize (size : Nat)
  | getPointer
  | write (position : Nat) (data : List B)
  | releasePointer

namespace VertexBuffer

def setData (buffer : VulkanBuffer B) (data : List B) : Option (VulkanBuffer B) :=
  if data.length ≠ buffer.size then
    VulkanBuffer.resize { buffer with size := data.length } data.length (some data)
  else buffer.setData data 0

/-- The offset is not used. -/
def setSubData (buffer : VulkanBuffer B) (data : List B) (_offset : Nat) :
    Option (VulkanBuffer B) :=
  if data.length ≠ buffer.size then
    VulkanBuffer.resize { buffer with size := data.length } data.length (some data)
  else buffer.setData data 0

def getPointer (buffer : VulkanBuffer B) : Option (VulkanBuffer B) :=
  if buffer.mappedBuffer then some buffer
  else (buffer.map none 0).map fun buffer => { buffer with mappedBuffer := true }

def releasePointer (buffer : VulkanBuffer B) : Option (VulkanBuffer B) :=
  if buffer.mappedBuffer then do
    let buffer ← buffer.flush
    let buffer ← buffer.unmap
    some { buffer with mappedBuffer := false }
  else some buffer

end VertexBuffer

def VulkanBuffer.call (buffer : VulkanBuffer B) : BufferCall B → Option (VulkanBuffer B)
  | .setData data => VertexBuffer.setData buffer data
  | .setSubData data offset => VertexBuffer.setSubData buffer data offset
  | .resize size => buffer.resize size none
  | .getPointer => VertexBuffer.getPointer buffer
  | .write position data => buffer.memcpy position data
  | .releasePointer => VertexBuffer.releasePointer buffer

/-- Runs of calls. -/
abbrev BufferCalls : VulkanBuffer B → List (BufferCall B) → VulkanBuffer B → Prop :=
  Run fun buffer call buffer' => buffer.call call = some buffer'

/-! ### What a vertex buffer stands for -/

/-- What became of the pointer. -/
inductive Pointer where
  | free
  | held
  /-- The memory was replaced while the pointer was held. -/
  | lost
  deriving DecidableEq, Repr

structure VertexData (B : Type) where
  bytes : List (Option B)
  pointer : Pointer

namespace VertexData

/-- The memory is replaced. -/
def replace (vertices : VertexData B) (bytes : List (Option B)) : VertexData B where
  bytes := bytes
  pointer := if vertices.pointer = .free then .free else .lost

/-- All bytes are set. -/
def set (vertices : VertexData B) (data : List B) : VertexData B :=
  if data.length = vertices.bytes.length then { vertices with bytes := data.map some }
  else vertices.replace (data.map some)

def next (vertices : VertexData B) : BufferCall B → VertexData B
  | .setData data | .setSubData data _ => vertices.set data
  | .resize size => vertices.replace (List.replicate size none)
  | .getPointer =>
    { vertices with pointer := if vertices.pointer = .free then .held else vertices.pointer }
  | .write position data => { vertices with bytes := overwrite vertices.bytes position data }
  | .releasePointer => { vertices with pointer := .free }

/-- Memory of the same size is not set while the pointer is held; the pointer is used and
released while it is not lost. -/
def Allows (vertices : VertexData B) : BufferCall B → Prop
  | .setData data | .setSubData data _ =>
    data ≠ [] ∧ (data.length = vertices.bytes.length → vertices.pointer ≠ .held)
  | .resize size => 0 < size
  | .getPointer => vertices.pointer = .free → vertices.bytes ≠ []
  | .write position data =>
    vertices.pointer = .held ∧ position + data.length ≤ vertices.bytes.length
  | .releasePointer => vertices.pointer ≠ .lost

end VertexData

/-- A buffer stands for its data. -/
structure VulkanBuffer.Shows (buffer : VulkanBuffer B) (vertices : VertexData B) : Prop where
  memory : buffer.memory = vertices.bytes
  size : buffer.size = vertices.bytes.length
  mappedBuffer : buffer.mappedBuffer = true ↔ vertices.pointer ≠ .free
  range : buffer.range = if vertices.pointer = .held then some (0, buffer.memory.length) else none
  mapped : vertices.pointer = .held → buffer.mapped = some (buffer.object, 0)

namespace VulkanBuffer

variable {buffer buffer' : VulkanBuffer B} {vertices : VertexData B} {data : List B}

/-- Memory that is not mapped takes all its bytes. -/
theorem setData_all (hrange : buffer.range = none) (hlen : buffer.memory.length = data.length)
    (hdata : data ≠ []) :
    buffer.setData data 0 =
      some { buffer with memory := data.map some, range := none, mapped := none } := by
  have hpos : 0 < data.length := List.length_pos_iff.mpr hdata
  have hmap : buffer.map (some data.length) 0 =
      some { buffer with range := some (0, data.length), mapped := some (buffer.object, 0) } := by
    simp [map, hrange, hlen, hpos]
  simp [setData, hmap, memcpy, unmap, overwrite_all hlen]

theorem setData_held {offset size : Nat} (hrange : buffer.range = some (offset, size)) :
    buffer.setData data 0 = none := by
  simp [setData, map, hrange]

theorem init_data (hdata : data ≠ []) :
    buffer.init data.length (some data) = some { buffer with
      size := data.length
      memory := data.map some
      object := buffer.object + 1
      range := none
      mapped := none } := by
  have hpos : 0 < data.length := List.length_pos_iff.mpr hdata
  simp [init, hpos, setData_all, hdata]

theorem shows_create : (create : VulkanBuffer B).Shows ⟨[], .free⟩ where
  memory := rfl
  size := rfl
  mappedBuffer := by simp [create]
  range := rfl
  mapped h := nomatch h

theorem Shows.range_none (hshows : buffer.Shows vertices) (hheld : vertices.pointer ≠ .held) :
    buffer.range = none := by
  rw [hshows.range, if_neg hheld]

/-- A buffer that takes all its bytes, with the memory object that it has then. -/
theorem Shows.set (hshows : buffer.Shows vertices) (hdata : data ≠ [])
    (hheld : data.length = vertices.bytes.length → vertices.pointer ≠ .held) :
    VertexBuffer.setData buffer data = some { buffer with
      size := data.length
      memory := data.map some
      object := if data.length = vertices.bytes.length then buffer.object else buffer.object + 1
      range := none
      mapped := none } := by
  have hsize := hshows.size
  by_cases hlen : data.length = vertices.bytes.length
  · have hmemory : buffer.memory.length = data.length := by rw [hshows.memory, hlen]
    rw [VertexBuffer.setData, if_neg (by simp [hsize, hlen]),
      setData_all (hshows.range_none (hheld hlen)) hmemory hdata]
    simp [hlen, hsize]
  · rw [VertexBuffer.setData, if_pos (by simpa [hsize] using hlen), resize, init_data hdata]
    simp [hlen]

theorem Shows.not_set (hshows : buffer.Shows vertices)
    (hnot : ¬ (data ≠ [] ∧ (data.length = vertices.bytes.length → vertices.pointer ≠ .held))) :
    VertexBuffer.setData buffer data = none := by
  have hsize := hshows.size
  by_cases hlen : data.length = vertices.bytes.length
  · rw [VertexBuffer.setData, if_neg (by simp [hsize, hlen])]
    by_cases hheld : vertices.pointer = .held
    · exact setData_held (by rw [hshows.range, if_pos hheld])
    · obtain rfl : data = [] := by
        by_contra hdata
        exact hnot ⟨hdata, fun _ => hheld⟩
      simp [VulkanBuffer.setData, map]
  · obtain rfl : data = [] := by
      by_contra hdata
      exact hnot ⟨hdata, fun h => absurd h hlen⟩
    rw [VertexBuffer.setData, if_pos (by simpa [hsize] using hlen)]
    rfl

theorem Shows.set_iff (hshows : buffer.Shows vertices) :
    (∃ buffer', VertexBuffer.setData buffer data = some buffer') ↔
      data ≠ [] ∧ (data.length = vertices.bytes.length → vertices.pointer ≠ .held) := by
  constructor
  · rintro ⟨buffer', hset⟩
    by_contra hnot
    simp [hshows.not_set hnot] at hset
  · rintro ⟨hdata, hheld⟩
    exact ⟨_, hshows.set hdata hheld⟩

theorem Shows.of_set (hshows : buffer.Shows vertices)
    (hset : VertexBuffer.setData buffer data = some buffer') : buffer'.Shows (vertices.set data) := by
  obtain ⟨hdata, hheld⟩ := hshows.set_iff.mp ⟨buffer', hset⟩
  obtain rfl := Option.some.inj (hset.symm.trans (hshows.set hdata hheld))
  have hmapped := hshows.mappedBuffer
  unfold VertexData.set VertexData.replace
  split_ifs with hlen hfree
  · exact ⟨rfl, by simp, hmapped, by simp [hheld hlen], fun h => absurd h (hheld hlen)⟩
  · exact ⟨rfl, by simp, by simpa [hfree] using hmapped, rfl, nofun⟩
  · exact ⟨rfl, by simp, by simpa [hfree] using hmapped, rfl, nofun⟩

/-- The calls that map, use and unmap the pointer, by what became of it. -/
theorem Shows.getPointer (hshows : buffer.Shows vertices) :
    VertexBuffer.getPointer buffer =
      if vertices.pointer = .free then
        if vertices.bytes = [] then none
        else some { buffer with
          range := some (0, buffer.memory.length)
          mapped := some (buffer.object, 0)
          mappedBuffer := true }
      else some buffer := by
  have hmapped := hshows.mappedBuffer
  by_cases hfree : vertices.pointer = .free
  · have hflag : buffer.mappedBuffer = false := by simpa [hfree] using hmapped
    have hrange := hshows.range_none (by simp [hfree])
    rw [if_pos hfree]
    by_cases hbytes : vertices.bytes = []
    · simp [VertexBuffer.getPointer, hflag, map, hshows.memory, hbytes]
    · have hpos : 0 < buffer.memory.length := by
        rw [hshows.memory]
        exact List.length_pos_iff.mpr hbytes
      simp [VertexBuffer.getPointer, hflag, map, hrange, hpos, hbytes]
  · have hflag : buffer.mappedBuffer = true := hmapped.mpr hfree
    simp [VertexBuffer.getPointer, hflag, hfree]

theorem Shows.write (hshows : buffer.Shows vertices) (position : Nat) :
    buffer.memcpy position data =
      if vertices.pointer = .held ∧ position + data.length ≤ vertices.bytes.length then
        some { buffer with memory := overwrite buffer.memory position data }
      else none := by
  by_cases hheld : vertices.pointer = .held
  · have hrange := hshows.range
    rw [if_pos hheld] at hrange
    simp [memcpy, hshows.mapped hheld, hrange, hheld, hshows.memory]
  · rw [if_neg fun h => hheld h.1]
    have hrange := hshows.range_none hheld
    cases hmapped : buffer.mapped <;> simp [memcpy, hmapped, hrange]

theorem Shows.releasePointer (hshows : buffer.Shows vertices) :
    VertexBuffer.releasePointer buffer =
      match vertices.pointer with
      | .free => some buffer
      | .held => some { buffer with range := none, mapped := none, mappedBuffer := false }
      | .lost => none := by
  have hmapped := hshows.mappedBuffer
  cases hpointer : vertices.pointer with
  | free =>
      have hflag : buffer.mappedBuffer = false := by simpa [hpointer] using hmapped
      simp [VertexBuffer.releasePointer, hflag]
  | held =>
      have hflag : buffer.mappedBuffer = true := hmapped.mpr (by simp [hpointer])
      have hrange := hshows.range
      rw [if_pos hpointer] at hrange
      simp [VertexBuffer.releasePointer, hflag, flush, unmap, hrange, hshows.mapped hpointer]
  | lost =>
      have hflag : buffer.mappedBuffer = true := hmapped.mpr (by simp [hpointer])
      simp [VertexBuffer.releasePointer, hflag, flush, hshows.range_none (by simp [hpointer])]

theorem Shows.call_iff (hshows : buffer.Shows vertices) (call : BufferCall B) :
    (∃ buffer', buffer.call call = some buffer') ↔ vertices.Allows call := by
  cases call with
  | setData data => exact hshows.set_iff
  | setSubData data offset => exact hshows.set_iff
  | resize size => by_cases hsize : 0 < size <;> simp [call, resize, init, VertexData.Allows, hsize]
  | getPointer =>
      simp only [call, hshows.getPointer, VertexData.Allows]
      split_ifs <;> simp_all
  | write position data =>
      simp only [call, hshows.write, VertexData.Allows]
      split_ifs <;> simp_all
  | releasePointer =>
      simp only [call, hshows.releasePointer, VertexData.Allows]
      cases vertices.pointer <;> simp

theorem Shows.call (hshows : buffer.Shows vertices) {call : BufferCall B}
    (hcall : buffer.call call = some buffer') : buffer'.Shows (vertices.next call) := by
  have hmapped := hshows.mappedBuffer
  cases call with
  | setData data => exact hshows.of_set hcall
  | setSubData data offset => exact hshows.of_set hcall
  | resize size =>
      simp only [VulkanBuffer.call, resize, init] at hcall
      split_ifs at hcall
      obtain rfl := Option.some.inj hcall
      simp only [VertexData.next, VertexData.replace]
      split_ifs with hfree
      · exact ⟨rfl, by simp, by simpa [hfree] using hmapped, rfl, nofun⟩
      · exact ⟨rfl, by simp, by simpa [hfree] using hmapped, rfl, nofun⟩
  | getPointer =>
      simp only [VulkanBuffer.call, hshows.getPointer] at hcall
      simp only [VertexData.next]
      split_ifs at hcall ⊢ with hfree hbytes
      · obtain rfl := Option.some.inj hcall
        exact ⟨hshows.memory, hshows.size, by simp, rfl, fun _ => rfl⟩
      · obtain rfl := Option.some.inj hcall
        exact hshows
  | write position data =>
      simp only [VulkanBuffer.call, hshows.write] at hcall
      split_ifs at hcall with hallowed
      obtain rfl := Option.some.inj hcall
      have hlen := overwrite_length vertices.bytes hallowed.2
      exact ⟨by simp [VertexData.next, hshows.memory], by simp [VertexData.next, hshows.size, hlen],
        hmapped, by simp [VertexData.next, hshows.range, hshows.memory, hlen], hshows.mapped⟩
  | releasePointer =>
      simp only [VulkanBuffer.call, hshows.releasePointer] at hcall
      cases hpointer : vertices.pointer with
      | lost => simp [hpointer] at hcall
      | free =>
          simp only [hpointer, Option.some.injEq] at hcall
          obtain rfl := hcall
          exact ⟨hshows.memory, hshows.size, by simpa [VertexData.next, hpointer] using hmapped,
            by simpa [VertexData.next, hpointer] using hshows.range, nofun⟩
      | held =>
          simp only [hpointer, Option.some.injEq] at hcall
          obtain rfl := hcall
          exact ⟨hshows.memory, hshows.size, by simp [VertexData.next], rfl, nofun⟩

end VulkanBuffer

/-- A vertex buffer takes calls if and only if it stands for data that allows them: its size
does not change while the pointer is held, memory of the same size is not set then, and the
pointer is used only while it is held. Then its bytes are those of that data: `setSubData`
replaces all of them, whatever its offset. -/
theorem vertexBuffer_iff (calls : List (BufferCall B)) :
    ((∃ buffer, BufferCalls .create calls buffer) ↔
      Lawful VertexData.Allows VertexData.next ⟨[], .free⟩ calls) ∧
    ∀ buffer, BufferCalls .create calls buffer →
      buffer.Shows (calls.foldl VertexData.next ⟨[], .free⟩) := by
  refine ⟨exists_run_iff_lawful (R := VulkanBuffer.Shows)
    (fun _ _ call hshows => hshows.call_iff call)
    (fun _ _ _ _ hshows hcall => hshows.call hcall) VulkanBuffer.shows_create,
    fun buffer hrun => ?_⟩
  exact hrun.sim (R := VulkanBuffer.Shows) (fun _ _ _ _ hshows hcall => hshows.call hcall)
    VulkanBuffer.shows_create

end Maple.Vulkan
