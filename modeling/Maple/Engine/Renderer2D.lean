import Mathlib.LinearAlgebra.Matrix.Notation
import Mathlib.Data.Rat.Defs
import Maple.Lib.Fuel

/-!
# Maple.Engine.Renderer2D

`Renderer2D` of `Engine/Renderer/Renderer2D.cpp`: quads are written into vertex buffers
batch by batch, each batch with its own buffer and a table of textures. An access out of
range is a `Fault`. The state keeps, as history, the vertices written and the draw calls
recorded, in order.

What the draw commands do besides (pipelines, command buffers, frame buffers) is left
out, and the index buffer is the list of its indices.
-/

namespace Maple.Batching

/-- `Config2D`; sizes of buffers are in vertices. -/
structure Config2D where
  maxQuads : Nat := 10000
  bufferSize : Nat := 10000 * 4
  indiciesSize : Nat := 10000 * 6
  maxTextures : Nat := 16
  maxBatchDrawCalls : Nat := 10

/-- `Renderer2D::config`, which is never changed. -/
def config : Config2D := {}

/-- What is read of `Quad2D`; the texture is a pointer. -/
structure Quad2D (T : Type) where
  texture : Option T
  offset : Fin 2 → ℚ
  width : Nat
  height : Nat
  color : Fin 4 → ℚ
  texCoords : Fin 4 → Fin 2 → ℚ

structure Command2D (T : Type) where
  quad : Quad2D T
  transform : Matrix (Fin 4) (Fin 4) ℚ

structure Vertex2D where
  vertex : Fin 3 → ℚ
  uv : Fin 3 → ℚ
  color : Fin 4 → ℚ

/-- What is seen of a frame: a vertex written into a vertex buffer, and a draw call with
its vertex buffer, its indices and the textures of the descriptor set. -/
inductive Event (T : Type) where
  | write (buffer offset : Nat) (vertex : Vertex2D)
  | draw (buffer : Nat) (indices : List Nat) (textures : List (Option T))

/-- The accesses that can be out of range: `vertexBuffers[i]`, `textures[i]`, and a
vertex behind the end of a vertex buffer. -/
inductive Fault where
  | vertexBuffers (i : Nat)
  | textures (i : Nat)
  | vertex (offset : Nat)
  deriving DecidableEq, Repr

/-- `Renderer2D`. `buffer` is a vertex buffer with the vertex it points to, and
`descriptorSet` has the textures of its last update. -/
structure Renderer2D (T : Type) where
  textures : List (Option T)
  descriptorSet : List (Option T)
  buffer : Nat × Nat
  indexCount : Nat
  textureCount : Nat
  batchDrawCallIndex : Nat
  events : List (Event T)

variable {T : Type}

/-- `Renderer2D(width, height)` and `init`. -/
def Renderer2D.new : Renderer2D T where
  textures := List.replicate 16 none
  descriptorSet := []
  buffer := (0, 0)
  indexCount := 0
  textureCount := 0
  batchDrawCallIndex := 0
  events := []

/-- The six indices of a quad whose first vertex is at the offset. -/
def quadIndices (offset : Nat) : List Nat :=
  [offset + 0, offset + 1, offset + 2, offset + 2, offset + 3, offset + 0]

/-- The index buffer that `init` fills. -/
def indexBuffer : List Nat :=
  (List.range (config.indiciesSize / 6)).flatMap fun i => quadIndices (4 * i)

namespace Renderer2D

/-- `vertexBuffers[i]`. -/
def vertexBufferAt (i : Nat) : Except Fault Unit :=
  if i < config.maxBatchDrawCalls then .ok () else .error (.vertexBuffers i)

/-- `begin`, and the end of `flush`: the vertex buffer of the batch is mapped. -/
def map (r : Renderer2D T) : Except Fault (Renderer2D T) :=
  (vertexBufferAt r.batchDrawCallIndex).map fun _ =>
    { r with textureCount := 0, buffer := (r.batchDrawCallIndex, 0) }

def begin (r : Renderer2D T) : Except Fault (Renderer2D T) := r.map

def updateDesciptorSet (r : Renderer2D T) : Renderer2D T :=
  if r.textureCount = 0 then r else { r with descriptorSet := r.textures }

def present (r : Renderer2D T) : Except Fault (Renderer2D T) :=
  if r.indexCount = 0 then (vertexBufferAt r.batchDrawCallIndex).map fun _ => r
  else
    let r := r.updateDesciptorSet
    (vertexBufferAt r.batchDrawCallIndex).map fun _ =>
      { r with
        events := r.events ++
          [.draw r.batchDrawCallIndex (indexBuffer.take r.indexCount) r.descriptorSet]
        indexCount := 0
        batchDrawCallIndex := r.batchDrawCallIndex + 1 }

def flush (r : Renderer2D T) : Except Fault (Renderer2D T) := r.present.bind map

/-- `*buffer = vertex; buffer++`. -/
def write (r : Renderer2D T) (vertex : Vertex2D) : Except Fault (Renderer2D T) :=
  if r.buffer.2 < config.bufferSize then
    .ok { r with
      events := r.events ++ [.write r.buffer.1 r.buffer.2 vertex]
      buffer := (r.buffer.1, r.buffer.2 + 1) }
  else .error (.vertex r.buffer.2)

/-- The four vertices of a quad, with the slot of its texture. -/
def quadVertices (command : Command2D T) (textureSlot : Int) : List Vertex2D :=
  let quad := command.quad
  let min := quad.offset
  let max := ![min 0 + quad.width, min 1 + quad.height]
  let corner (x y : ℚ) (i : Fin 4) : Vertex2D :=
    { vertex := command.transform.mulVec ![x, y, 0, 1] ∘ Fin.castSucc
      uv := ![quad.texCoords i 0, quad.texCoords i 1, textureSlot]
      color := quad.color }
  [corner (min 0) (min 1) 0, corner (max 0) (min 1) 1, corner (max 0) (max 1) 2,
    corner (min 0) (max 1) 3]

variable [DecidableEq T]

def submitTexture (r : Renderer2D T) (texture : T) : Except Fault (Int × Renderer2D T) :=
  match (r.textures.take r.textureCount).idxOf? (some texture) with
  | some i => .ok (i + 1, r)
  | none =>
    (if r.textureCount ≥ config.maxTextures then r.flush else .ok r).bind fun r =>
    if r.textureCount < r.textures.length then
      .ok (r.textureCount + 1, { r with
        textures := r.textures.set r.textureCount (some texture)
        textureCount := r.textureCount + 1 })
    else .error (.textures r.textureCount)

/-- `textureSlot` in `submitQuad`: `-1` for a quad without texture. -/
def textureSlot (r : Renderer2D T) : Option T → Except Fault (Int × Renderer2D T)
  | some texture => r.submitTexture texture
  | none => .ok (-1, r)

/-- One turn of the loop of `submitQuad`. -/
def submitCommand (r : Renderer2D T) (command : Command2D T) : Except Fault (Renderer2D T) :=
  (if r.indexCount ≥ config.indiciesSize then r.flush else .ok r).bind fun r =>
  (r.textureSlot command.quad.texture).bind fun (textureSlot, r) =>
  ((quadVertices command textureSlot).foldlM write r).map fun (r : Renderer2D T) =>
  ({ r with indexCount := r.indexCount + 6 } : Renderer2D T)

def submitQuad (r : Renderer2D T) (commands : List (Command2D T)) : Except Fault (Renderer2D T) :=
  commands.foldlM submitCommand r

/-- `end`. -/
def finish (r : Renderer2D T) : Renderer2D T := { r with batchDrawCallIndex := 0 }

def renderScene (r : Renderer2D T) (commands : List (Command2D T)) : Except Fault (Renderer2D T) :=
  (r.begin.bind fun r => (r.submitQuad commands).bind present).map finish

end Renderer2D

end Maple.Batching
