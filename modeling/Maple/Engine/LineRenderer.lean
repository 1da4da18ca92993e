import Mathlib.Data.List.Basic
import Maple.Vulkan.Buffers

/-!
# Maple.Engine.LineRenderer

`LineRenderer.cpp`, which is what the debug renderer draws with. The lines of a frame are
written through the pointer of a vertex buffer, released, and drawn with indices that count
up; `flush` is not called when there are many.

A frame is accepted as long as it has no more lines than there are indices for, and draws
the lines that were submitted since the last one or since `clear`, `lineRenderer_iff`.
-/

namespace Maple

open Lib Vulkan

variable {B : Type}

/-! ### The renderer -/

/-- A `glm::vec3`, by its bytes. -/
abbrev Vec3Bytes (B : Type) : Type := { bytes : List B // bytes.length = 12 }

/-- A `glm::vec4`, by its bytes. -/
abbrev Vec4Bytes (B : Type) : Type := { bytes : List B // bytes.length = 16 }

structure LineVertex (B : Type) where
  vertex : Vec3Bytes B
  color : Vec4Bytes B

structure Line (B : Type) where
  start : Vec3Bytes B
  stop : Vec3Bytes B
  color : Vec4Bytes B

def sizeofLineVertex : Nat := 28

def LineVertex.bytes (vertex : LineVertex B) : List B := vertex.vertex.1 ++ vertex.color.1

@[simp] theorem LineVertex.length_bytes (vertex : LineVertex B) :
    vertex.bytes.length = sizeofLineVertex := by
  rw [bytes, List.length_append, vertex.vertex.2, vertex.color.2]
  rfl

namespace LineRenderer

def maxLines : Nat := 10000
def maxLineVertices : Nat := maxLines * 2
def maxLineIndices : Nat := maxLines * 6
def rendererLineSize : Nat := sizeofLineVertex * 4
def rendererBufferSize : Nat := rendererLineSize * maxLineVertices

end LineRenderer

/-- `LineRenderer`. The pointer `buffer` is where the next vertex goes in the vertex buffer
that is mapped, and `drawn` is what was drawn: for every draw call, the bytes of the
vertices that it read. -/
structure LineRenderer (B : Type) where
  vertexBuffers : List (VulkanBuffer B)
  indexBuffer : List Nat
  batchDrawCallIndex : Nat
  lineIndexCount : Nat
  lines : List (Line B)
  buffer : Nat
  drawn : List (List (List (Option B)))

namespace LineRenderer

/-- `createUniformBuffer`. -/
def init : Option (LineRenderer B) := do
  let vertexBuffer ← VulkanBuffer.create.resize rendererBufferSize none
  some {
    vertexBuffers := List.replicate 100 vertexBuffer
    indexBuffer := List.range maxLineIndices
    batchDrawCallIndex := 0
    lineIndexCount := 0
    lines := []
    buffer := 0
    drawn := [] }

/-- What is done to the current vertex buffer. -/
def withBuffer (renderer : LineRenderer B) (f : VulkanBuffer B → Option (VulkanBuffer B)) :
    Option (LineRenderer B) := do
  let vertexBuffer ← renderer.vertexBuffers[renderer.batchDrawCallIndex]?
  let vertexBuffer ← f vertexBuffer
  some { renderer with
    vertexBuffers := renderer.vertexBuffers.set renderer.batchDrawCallIndex vertexBuffer }

/-- One vertex of a line, and `buffer++`. -/
def submitVertex (renderer : LineRenderer B) (vertex : LineVertex B) :
    Option (LineRenderer B) := do
  let renderer ← renderer.withBuffer fun buffer => buffer.memcpy renderer.buffer vertex.bytes
  some { renderer with buffer := renderer.buffer + sizeofLineVertex }

def submitLine (renderer : LineRenderer B) (line : Line B) : Option (LineRenderer B) := do
  let renderer ← renderer.submitVertex ⟨line.start, line.color⟩
  let renderer ← renderer.submitVertex ⟨line.stop, line.color⟩
  some { renderer with lineIndexCount := renderer.lineIndexCount + 2 }

def submitLines (renderer : LineRenderer B) : Option (LineRenderer B) :=
  renderer.lines.foldlM submitLine renderer

/-- `drawIndexed`: the vertices that the indices name have to be in the vertex buffer. -/
def drawIndexed (indices : List Nat) (count : Nat) (memory : List (Option B)) :
    Option (List (List (Option B))) :=
  if count ≤ indices.length ∧
      ∀ i ∈ indices.take count, sizeofLineVertex * (i + 1) ≤ memory.length then
    some ((indices.take count).map fun i =>
      (memory.drop (sizeofLineVertex * i)).take sizeofLineVertex)
  else none

def present (renderer : LineRenderer B) : Option (LineRenderer B) := do
  let renderer ← renderer.withBuffer VertexBuffer.releasePointer
  let vertexBuffer ← renderer.vertexBuffers[renderer.batchDrawCallIndex]?
  let vertices ← drawIndexed renderer.indexBuffer renderer.lineIndexCount vertexBuffer.memory
  some { renderer with
    drawn := renderer.drawn ++ [vertices]
    lineIndexCount := 0
    batchDrawCallIndex := renderer.batchDrawCallIndex + 1 }

/-- `renderScene`, with the `end` of the frame. -/
def renderScene (renderer : LineRenderer B) : Option (LineRenderer B) := do
  let renderer ← renderer.withBuffer VertexBuffer.getPointer
  let renderer ← { renderer with buffer := 0 }.submitLines
  let renderer ← renderer.present
  some { renderer with batchDrawCallIndex := 0, lineIndexCount := 0, lines := [] }

end LineRenderer

inductive LineCall (B : Type) where
  | submit (line : Line B)
  | clear
  | renderScene

def LineRenderer.call (renderer : LineRenderer B) : LineCall B → Option (LineRenderer B)
  | .submit line => some { renderer with lines := renderer.lines ++ [line] }
  | .clear => some { renderer with lines := [] }
  | .renderScene => renderer.renderScene

/-- Runs of calls. -/
abbrev LineCalls : LineRenderer B → List (LineCall B) → LineRenderer B → Prop :=
  Run fun renderer call renderer' => renderer.call call = some renderer'

/-! ### The lines of a frame -/

/-- The lines that wait, and the vertices of the frames so far. -/
structure LineFrames (B : Type) where
  waiting : List (Line B)
  frames : List (List (LineVertex B))

namespace LineFrames

def vertices (lines : List (Line B)) : List (LineVertex B) :=
  lines.flatMap fun line => [⟨line.start, line.color⟩, ⟨line.stop, line.color⟩]

def next (frames : LineFrames B) : LineCall B → LineFrames B
  | .submit line => { frames with waiting := frames.waiting ++ [line] }
  | .clear => { frames with waiting := [] }
  | .renderScene => ⟨[], frames.frames ++ [vertices frames.waiting]⟩

/-- There are indices for three lines where vertices are counted for one. -/
def Allows (frames : LineFrames B) : LineCall B → Prop
  | .submit _ | .clear => True
  | .renderScene => frames.waiting.length ≤ 3 * LineRenderer.maxLines

@[simp] theorem length_vertices (lines : List (Line B)) :
    (vertices lines).length = 2 * lines.length := by
  induction lines with
  | nil => rfl
  | cons line lines ih =>
      rw [vertices, List.flatMap_cons, List.length_append, ← vertices, ih, List.length_cons]
      simp
      omega

@[simp] theorem vertices_append (lines : List (Line B)) (line : Line B) :
    vertices (lines ++ [line]) =
      vertices lines ++ [⟨line.start, line.color⟩] ++ [⟨line.stop, line.color⟩] := by
  simp [vertices]

end LineFrames

/-! ### What the vertex buffer holds -/

theorem length_flatMap_bytes (vertices : List (LineVertex B)) :
    (vertices.flatMap fun vertex => vertex.bytes.map some).length =
      sizeofLineVertex * vertices.length := by
  induction vertices with
  | nil => rfl
  | cons vertex vertices ih =>
      rw [List.flatMap_cons, List.length_append, ih, List.length_map, vertex.length_bytes,
        List.length_cons, Nat.mul_succ, Nat.add_comm]

/-- Memory that begins with vertices is cut into them. -/
theorem map_drop_take (vertices : List (LineVertex B)) (tail : List (Option B)) :
    ((List.range vertices.length).map fun i =>
      (((vertices.flatMap fun vertex => vertex.bytes.map some) ++ tail).drop
        (sizeofLineVertex * i)).take sizeofLineVertex) =
      vertices.map fun vertex => vertex.bytes.map some := by
  induction vertices with
  | nil => rfl
  | cons vertex vertices ih =>
      have hlen : (vertex.bytes.map some).length = sizeofLineVertex := by simp
      rw [List.length_cons, List.range_succ_eq_map, List.map_cons, List.map_map, List.map_cons,
        ← ih, List.flatMap_cons, List.append_assoc]
      congr 1
      · rw [Nat.mul_zero, List.drop_zero, List.take_left' hlen]
      · refine List.map_congr_left fun i _ => ?_
        have hdrop : sizeofLineVertex * (i + 1) = (vertex.bytes.map some).length +
            sizeofLineVertex * i := by
          rw [hlen, Nat.mul_succ, Nat.add_comm]
        simp only [Function.comp_apply, Nat.succ_eq_add_one, hdrop, ← List.drop_drop,
          List.drop_left]

/-- A vertex buffer of the size of `createUniformBuffer`, with what became of its pointer,
begins with vertices. -/
def BeginsWith (vertexBuffer : VulkanBuffer B) (pointer : Pointer)
    (vertices : List (LineVertex B)) : Prop :=
  ∃ tail, vertexBuffer.Shows
      ⟨(vertices.flatMap fun vertex => vertex.bytes.map some) ++ tail, pointer⟩ ∧
    sizeofLineVertex * vertices.length + tail.length = LineRenderer.rendererBufferSize

namespace BeginsWith

variable {vertexBuffer vertexBuffer' : VulkanBuffer B} {pointer : Pointer}
  {vertices : List (LineVertex B)} {vertex : LineVertex B}

theorem nothing (h : BeginsWith vertexBuffer pointer vertices) :
    BeginsWith vertexBuffer pointer [] := by
  obtain ⟨tail, hshows, hlen⟩ := h
  refine ⟨(vertices.flatMap fun vertex => vertex.bytes.map some) ++ tail, hshows, ?_⟩
  rw [List.length_append, length_flatMap_bytes, hlen, List.length_nil, Nat.mul_zero, Nat.zero_add]

theorem getPointer (h : BeginsWith vertexBuffer .free []) :
    ∃ vertexBuffer', VertexBuffer.getPointer vertexBuffer = some vertexBuffer' ∧
      BeginsWith vertexBuffer' .held [] := by
  obtain ⟨tail, hshows, hlen⟩ := h
  have hpos : 0 ≠ LineRenderer.rendererBufferSize := by decide
  have hne : tail ≠ [] := by
    rintro rfl
    exact hpos hlen
  obtain ⟨vertexBuffer', hcall⟩ := (hshows.call_iff .getPointer).mpr fun _ => by simpa using hne
  exact ⟨vertexBuffer', hcall, tail, hshows.call hcall, hlen⟩

/-- The next vertex goes behind the ones that are there, if there is room for it. -/
theorem write_iff (h : BeginsWith vertexBuffer .held vertices) (vertex : LineVertex B) :
    (∃ vertexBuffer', vertexBuffer.memcpy (sizeofLineVertex * vertices.length) vertex.bytes =
      some vertexBuffer') ↔
      sizeofLineVertex * (vertices.length + 1) ≤ LineRenderer.rendererBufferSize := by
  obtain ⟨tail, hshows, hlen⟩ := h
  refine (hshows.call_iff (.write _ vertex.bytes)).trans ?_
  simp only [VertexData.Allows, true_and, List.length_append, length_flatMap_bytes,
    vertex.length_bytes, hlen, Nat.mul_succ]

theorem write (h : BeginsWith vertexBuffer .held vertices)
    (hwrite : vertexBuffer.memcpy (sizeofLineVertex * vertices.length) vertex.bytes =
      some vertexBuffer') : BeginsWith vertexBuffer' .held (vertices ++ [vertex]) := by
  have hroom := (h.write_iff vertex).mp ⟨vertexBuffer', hwrite⟩
  obtain ⟨tail, hshows, hlen⟩ := h
  have hcall : vertexBuffer.call (.write _ vertex.bytes) = some vertexBuffer' := hwrite
  have hnext := hshows.call hcall
  refine ⟨tail.drop sizeofLineVertex, ?_, ?_⟩
  · rw [VertexData.next, ← length_flatMap_bytes, overwrite_append, vertex.length_bytes] at hnext
    simpa using hnext
  · rw [Nat.mul_succ] at hroom
    rw [List.length_append, List.length_singleton, List.length_drop, Nat.mul_succ]
    omega

theorem releasePointer (h : BeginsWith vertexBuffer .held vertices) :
    ∃ vertexBuffer', VertexBuffer.releasePointer vertexBuffer = some vertexBuffer' ∧
      BeginsWith vertexBuffer' .free vertices := by
  obtain ⟨tail, hshows, hlen⟩ := h
  obtain ⟨vertexBuffer', hcall⟩ :=
    (hshows.call_iff .releasePointer).mpr (by simp [VertexData.Allows])
  exact ⟨vertexBuffer', hcall, tail, hshows.call hcall, hlen⟩

/-- As many vertices are drawn as there are, while the indices last. -/
theorem drawIndexed (h : BeginsWith vertexBuffer pointer vertices) (n : Nat) :
    LineRenderer.drawIndexed (List.range n) vertices.length vertexBuffer.memory =
      if vertices.length ≤ n then some (vertices.map fun vertex => vertex.bytes.map some)
      else none := by
  obtain ⟨tail, hshows, hlen⟩ := h
  by_cases hle : vertices.length ≤ n
  · have hfit : ∀ i < vertices.length, sizeofLineVertex * (i + 1) ≤
        sizeofLineVertex * vertices.length + tail.length := fun i hi =>
      Nat.le_add_right_of_le (Nat.mul_le_mul_left _ hi)
    have hmemory :
        sizeofLineVertex * vertices.length + tail.length = vertexBuffer.memory.length := by
      rw [hshows.memory, List.length_append, length_flatMap_bytes]
    rw [hmemory] at hfit
    rw [LineRenderer.drawIndexed, List.take_range, Nat.min_eq_left hle, List.length_range,
      if_pos hle, if_pos ⟨hle, fun i hi => hfit i (List.mem_range.mp hi)⟩, hshows.memory,
      map_drop_take]
  · simp [LineRenderer.drawIndexed, hle]

end BeginsWith

namespace LineRenderer

variable {base renderer renderer' : LineRenderer B} {vertices : List (LineVertex B)}
  {frames : LineFrames B} {count : Nat}

theorem withBuffer_first {first : VulkanBuffer B} {rest : List (VulkanBuffer B)}
    (hcall : renderer.batchDrawCallIndex = 0) (hfirst : renderer.vertexBuffers = first :: rest)
    (f : VulkanBuffer B → Option (VulkanBuffer B)) :
    renderer.withBuffer f =
      (f first).map fun first => { renderer with vertexBuffers := first :: rest } := by
  cases hf : f first <;> simp [withBuffer, hcall, hfirst, hf]

/-- A renderer that has written vertices since the frame began. -/
def Fills (base : LineRenderer B) (count : Nat) (vertices : List (LineVertex B))
    (renderer : LineRenderer B) : Prop :=
  ∃ first rest, BeginsWith first .held vertices ∧ renderer = { base with
    vertexBuffers := first :: rest
    lineIndexCount := count
    buffer := sizeofLineVertex * vertices.length }

theorem Fills.withBuffer (hcall : base.batchDrawCallIndex = 0)
    (h : base.Fills count vertices renderer) :
    ∃ first rest, BeginsWith first .held vertices ∧
      renderer.buffer = sizeofLineVertex * vertices.length ∧
      ∀ f, renderer.withBuffer f = (f first).map fun first => { base with
        vertexBuffers := first :: rest
        lineIndexCount := count
        buffer := sizeofLineVertex * vertices.length } := by
  obtain ⟨first, rest, hbegins, rfl⟩ := h
  exact ⟨first, rest, hbegins, rfl, fun f => withBuffer_first (by exact hcall) rfl f⟩

theorem Fills.submitVertex_iff (hcall : base.batchDrawCallIndex = 0)
    (h : base.Fills count vertices renderer) (vertex : LineVertex B) :
    (∃ renderer', renderer.submitVertex vertex = some renderer') ↔
      sizeofLineVertex * (vertices.length + 1) ≤ rendererBufferSize := by
  obtain ⟨first, rest, hbegins, hbuffer, hwith⟩ := h.withBuffer hcall
  rw [← hbegins.write_iff vertex, submitVertex, hwith, hbuffer]
  simp [Option.bind_eq_some_iff]

theorem Fills.submitVertex (hcall : base.batchDrawCallIndex = 0)
    (h : base.Fills count vertices renderer) {vertex : LineVertex B}
    (hsubmit : renderer.submitVertex vertex = some renderer') :
    base.Fills count (vertices ++ [vertex]) renderer' := by
  obtain ⟨first, rest, hbegins, hbuffer, hwith⟩ := h.withBuffer hcall
  rw [LineRenderer.submitVertex, hwith, hbuffer] at hsubmit
  simp only [Option.bind_eq_bind, Option.bind_eq_some_iff, Option.map_eq_some_iff,
    Option.some.injEq] at hsubmit
  obtain ⟨_, ⟨first', hwrite, rfl⟩, rfl⟩ := hsubmit
  exact ⟨first', rest, hbegins.write hwrite, by simp [Nat.mul_succ]⟩

theorem Fills.submitLine_iff (hcall : base.batchDrawCallIndex = 0)
    (h : base.Fills count vertices renderer) (line : Line B) :
    (∃ renderer', renderer.submitLine line = some renderer') ↔
      sizeofLineVertex * (vertices.length + 2) ≤ rendererBufferSize := by
  constructor
  · rintro ⟨renderer', hsubmit⟩
    simp only [submitLine, Option.bind_eq_bind, Option.bind_eq_some_iff] at hsubmit
    obtain ⟨renderer₁, h₁, renderer₂, h₂, -⟩ := hsubmit
    simpa using ((h.submitVertex hcall h₁).submitVertex_iff hcall _).mp ⟨renderer₂, h₂⟩
  · intro hroom
    obtain ⟨renderer₁, h₁⟩ := (h.submitVertex_iff hcall ⟨line.start, line.color⟩).mpr
      (Nat.le_trans (Nat.mul_le_mul_left _ (by omega)) hroom)
    obtain ⟨renderer₂, h₂⟩ := ((h.submitVertex hcall h₁).submitVertex_iff hcall
      ⟨line.stop, line.color⟩).mpr (by simpa using hroom)
    exact ⟨{ renderer₂ with lineIndexCount := renderer₂.lineIndexCount + 2 },
      by simp [submitLine, h₁, h₂]⟩

theorem Fills.submitLine (hcall : base.batchDrawCallIndex = 0)
    (h : base.Fills count vertices renderer) {line : Line B}
    (hsubmit : renderer.submitLine line = some renderer') :
    base.Fills (count + 2)
      (vertices ++ [⟨line.start, line.color⟩] ++ [⟨line.stop, line.color⟩]) renderer' := by
  simp only [LineRenderer.submitLine, Option.bind_eq_bind, Option.bind_eq_some_iff,
    Option.some.injEq] at hsubmit
  obtain ⟨renderer₁, h₁, renderer₂, h₂, rfl⟩ := hsubmit
  obtain ⟨first, rest, hbegins, rfl⟩ := (h.submitVertex hcall h₁).submitVertex hcall h₂
  exact ⟨first, rest, hbegins, rfl⟩

/-- A line is written while there is room for it. -/
def LineFits (lines : List (Line B)) (_line : Line B) : Prop :=
  sizeofLineVertex * (2 * lines.length + 2) ≤ rendererBufferSize

theorem lawful_lineFits (lines lines' : List (Line B))
    (hle : lines.length + lines'.length ≤ 3 * maxLines) :
    Lawful LineFits (fun lines line => lines ++ [line]) lines lines' := by
  induction lines' generalizing lines with
  | nil => exact lawful_nil
  | cons line lines' ih =>
      rw [List.length_cons] at hle
      refine lawful_cons.mpr ⟨?_, ih (lines ++ [line]) ?_⟩
      · simp only [LineFits, sizeofLineVertex, rendererBufferSize, rendererLineSize,
          maxLineVertices]
        omega
      · rw [List.length_append, List.length_singleton]
        omega

theorem foldl_append (lines lines' : List (Line B)) :
    lines'.foldl (fun lines line => lines ++ [line]) lines = lines ++ lines' := by
  induction lines' generalizing lines with
  | nil => simp
  | cons line lines' ih => simp [ih]

/-- The lines that a renderer has written since the frame began. -/
def Wrote (base : LineRenderer B) (renderer : LineRenderer B) (lines : List (Line B)) : Prop :=
  base.Fills (2 * lines.length) (LineFrames.vertices lines) renderer

theorem Wrote.submitLine_iff (hcall : base.batchDrawCallIndex = 0) (renderer : LineRenderer B)
    (lines : List (Line B)) (line : Line B) (h : base.Wrote renderer lines) :
    (∃ renderer', renderer.submitLine line = some renderer') ↔ LineFits lines line := by
  simpa [LineFits] using Fills.submitLine_iff hcall h line

theorem Wrote.submitLine (hcall : base.batchDrawCallIndex = 0) (renderer : LineRenderer B)
    (lines : List (Line B)) (line : Line B) (renderer' : LineRenderer B)
    (h : base.Wrote renderer lines) (hsubmit : renderer.submitLine line = some renderer') :
    base.Wrote renderer' (lines ++ [line]) := by
  simpa [Wrote, Nat.mul_succ] using Fills.submitLine hcall h hsubmit

theorem Wrote.submitLines (hcall : base.batchDrawCallIndex = 0) {lines : List (Line B)}
    (h : base.Wrote renderer [])
    (hrun : lines.foldlM LineRenderer.submitLine renderer = some renderer') :
    base.Wrote renderer' lines := by
  have hwrote := Run.sim (Wrote.submitLine hcall) h (Run.partial_iff.mpr hrun)
  rwa [foldl_append, List.nil_append] at hwrote

theorem Wrote.exists_submitLines (hcall : base.batchDrawCallIndex = 0) {lines : List (Line B)}
    (h : base.Wrote renderer []) (hle : lines.length ≤ 3 * maxLines) :
    ∃ renderer', lines.foldlM LineRenderer.submitLine renderer = some renderer' := by
  obtain ⟨renderer', hrun⟩ := (exists_run_iff_lawful
    (Wrote.submitLine_iff hcall) (Wrote.submitLine hcall) h).mpr
    (lawful_lineFits [] lines (by simpa using hle))
  exact ⟨renderer', Run.partial_iff.mp hrun⟩

/-- A frame is drawn while the indices last, with the vertex buffer released. -/
theorem Wrote.present (hcall : base.batchDrawCallIndex = 0)
    (hindices : base.indexBuffer = List.range maxLineIndices) {lines : List (Line B)}
    (h : base.Wrote renderer lines) :
    ∃ first rest, BeginsWith first .free [] ∧
      renderer.present = if lines.length ≤ 3 * maxLines then some { base with
        vertexBuffers := first :: rest
        buffer := sizeofLineVertex * (2 * lines.length)
        drawn := base.drawn ++
          [(LineFrames.vertices lines).map fun vertex => vertex.bytes.map some]
        lineIndexCount := 0
        batchDrawCallIndex := 1 }
      else none := by
  obtain ⟨first, rest, hbegins, -, hwith⟩ := Fills.withBuffer hcall h
  obtain ⟨first', hrelease, hfree⟩ := hbegins.releasePointer
  refine ⟨first', rest, hfree.nothing, ?_⟩
  have hdraw := hfree.drawIndexed maxLineIndices
  have hiff : 2 * lines.length ≤ maxLineIndices ↔ lines.length ≤ 3 * maxLines := by
    simp only [maxLineIndices, maxLines]
    omega
  rw [LineFrames.length_vertices] at hdraw
  simp only [hiff] at hdraw
  rw [LineRenderer.present, hwith, hrelease]
  by_cases hle : lines.length ≤ 3 * maxLines
  · simp [hcall, hindices, hdraw, hle]
  · simp [hcall, hindices, hdraw, hle]

/-- The renderer between two frames, and the lines that wait and were drawn. -/
structure Shows (renderer : LineRenderer B) (frames : LineFrames B) : Prop where
  lines : renderer.lines = frames.waiting
  drawn : renderer.drawn =
    frames.frames.map fun vertices => vertices.map fun vertex => vertex.bytes.map some
  call : renderer.batchDrawCallIndex = 0
  count : renderer.lineIndexCount = 0
  indices : renderer.indexBuffer = List.range maxLineIndices
  first : ∃ first rest, renderer.vertexBuffers = first :: rest ∧ BeginsWith first .free []

theorem Shows.getPointer (hshows : renderer.Shows frames) :
    ∃ renderer', renderer.withBuffer VertexBuffer.getPointer = some renderer' ∧
      renderer.Wrote { renderer' with buffer := 0 } [] ∧ renderer'.lines = frames.waiting := by
  obtain ⟨first, rest, hfirst, hbegins⟩ := hshows.first
  obtain ⟨first', hget, hheld⟩ := hbegins.getPointer
  refine ⟨{ renderer with vertexBuffers := first' :: rest }, ?_, ⟨first', rest, hheld, ?_⟩,
    hshows.lines⟩
  · rw [withBuffer_first hshows.call hfirst, hget]
    rfl
  · simp [hshows.count]

theorem Shows.renderScene (hshows : renderer.Shows frames) :
    ∃ first rest, BeginsWith first .free [] ∧
      renderer.renderScene = if frames.waiting.length ≤ 3 * maxLines then some { renderer with
        vertexBuffers := first :: rest
        buffer := sizeofLineVertex * (2 * frames.waiting.length)
        drawn := renderer.drawn ++
          [(LineFrames.vertices frames.waiting).map fun vertex => vertex.bytes.map some]
        lineIndexCount := 0
        batchDrawCallIndex := 0
        lines := [] }
      else none := by
  obtain ⟨renderer₁, hget, hnone, hlines⟩ := hshows.getPointer
  have hsubmits : ({ renderer₁ with buffer := 0 } : LineRenderer B).submitLines =
      frames.waiting.foldlM submitLine { renderer₁ with buffer := 0 } :=
    congrArg (fun lines => lines.foldlM submitLine { renderer₁ with buffer := 0 }) hlines
  by_cases hle : frames.waiting.length ≤ 3 * maxLines
  · obtain ⟨renderer₂, hsubmit⟩ := hnone.exists_submitLines hshows.call hle
    obtain ⟨first, rest, hbegins, hpresent⟩ :=
      (hnone.submitLines hshows.call hsubmit).present hshows.call hshows.indices
    refine ⟨first, rest, hbegins, ?_⟩
    simp [LineRenderer.renderScene, hget, hsubmits, hsubmit, hpresent, hle]
  · obtain ⟨first, rest, hfirst, hbegins⟩ := hshows.first
    refine ⟨first, rest, hbegins, ?_⟩
    rw [if_neg hle]
    cases hsubmit : frames.waiting.foldlM submitLine { renderer₁ with buffer := 0 } with
    | none => simp [LineRenderer.renderScene, hget, hsubmits, hsubmit]
    | some renderer₂ =>
        obtain ⟨_, _, -, hpresent⟩ :=
          (hnone.submitLines hshows.call hsubmit).present hshows.call hshows.indices
        rw [if_neg hle] at hpresent
        simp [LineRenderer.renderScene, hget, hsubmits, hsubmit, hpresent]

theorem Shows.call_iff (hshows : renderer.Shows frames) (call : LineCall B) :
    (∃ renderer', renderer.call call = some renderer') ↔ frames.Allows call := by
  cases call with
  | submit line => simp [LineRenderer.call, LineFrames.Allows]
  | clear => simp [LineRenderer.call, LineFrames.Allows]
  | renderScene =>
      obtain ⟨_, _, -, hscene⟩ := hshows.renderScene
      rw [LineRenderer.call, hscene, LineFrames.Allows]
      split_ifs with hle <;> simp [hle]

theorem Shows.step (renderer : LineRenderer B) (frames : LineFrames B) (call : LineCall B)
    (renderer' : LineRenderer B) (hshows : renderer.Shows frames)
    (hcall : renderer.call call = some renderer') : renderer'.Shows (frames.next call) := by
  cases call with
  | submit line =>
      obtain rfl := Option.some.inj hcall
      exact { hshows with lines := congrArg (· ++ [line]) hshows.lines }
  | clear =>
      obtain rfl := Option.some.inj hcall
      exact { hshows with lines := rfl }
  | renderScene =>
      obtain ⟨first, rest, hbegins, hscene⟩ := hshows.renderScene
      rw [LineRenderer.call, hscene] at hcall
      split_ifs at hcall
      obtain rfl := Option.some.inj hcall
      exact {
        lines := rfl
        drawn := by simp [LineFrames.next, hshows.drawn]
        call := rfl
        count := rfl
        indices := hshows.indices
        first := ⟨first, rest, rfl, hbegins⟩ }

theorem exists_init :
    ∃ renderer : LineRenderer B, init = some renderer ∧ renderer.Shows ⟨[], []⟩ := by
  have hshows := VulkanBuffer.shows_create (B := B)
  have hpos : 0 < rendererBufferSize := by decide
  obtain ⟨first, hresize⟩ := (hshows.call_iff (.resize rendererBufferSize)).mpr hpos
  have hnext : first.Shows ⟨List.replicate rendererBufferSize none, .free⟩ := by
    simpa [VertexData.next, VertexData.replace] using hshows.call hresize
  rw [VulkanBuffer.call] at hresize
  refine ⟨_, by rw [init, hresize]; rfl, ?_⟩
  exact {
    lines := rfl
    drawn := rfl
    call := rfl
    count := rfl
    indices := by dsimp only
    first := ⟨first, List.replicate 99 first, rfl, List.replicate rendererBufferSize none, hnext,
      by simp⟩ }

end LineRenderer

/-- The line renderer draws a frame if and only if no more than thirty thousand lines wait for
it: the vertices find room, and the indices are for that many. Then each frame has drawn the two
ends of the lines that were submitted since the frame before it and since the last `clear`, in
their order. -/
theorem lineRenderer_iff (calls : List (LineCall B)) :
    ∃ renderer, LineRenderer.init = some renderer ∧
      ((∃ renderer', LineCalls renderer calls renderer') ↔
        Lawful LineFrames.Allows LineFrames.next ⟨[], []⟩ calls) ∧
      ∀ renderer', LineCalls renderer calls renderer' →
        renderer'.drawn = (calls.foldl LineFrames.next ⟨[], []⟩).frames.map
          fun vertices => vertices.map fun vertex => vertex.bytes.map some := by
  obtain ⟨renderer, hinit, hshows⟩ := LineRenderer.exists_init (B := B)
  exact ⟨renderer, hinit, exists_run_iff_lawful (fun _ _ call hshows => hshows.call_iff call)
    LineRenderer.Shows.step hshows, fun renderer' hrun =>
      (Run.sim LineRenderer.Shows.step hshows hrun).drawn⟩

end Maple
