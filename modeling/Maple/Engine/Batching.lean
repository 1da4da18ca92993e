import Mathlib.Data.Finset.Card
import Mathlib.Data.Finset.Dedup
import Mathlib.Data.List.Dedup
import Maple.Engine.Renderer2D
import Maple.Lib.Segments

/-!
# Maple.Engine.Batching

**Two-dimensional batching is the greedy cut.** A quad starts a new batch where the
current one has no room for it, because of its vertices or because of its texture, so
the batches of a frame are those of `Lib.segments` and no cut has fewer
(`Lib.length_segments_le`). The invariant `Batched` describes the renderer in the middle
of a frame by the commands it has seen. Nothing bounds the number of batches: the frame
leaves the vertex buffers exactly where the commands need more batches than there are
buffers.
-/

namespace Maple.Batching

variable {T : Type}

/-! ### The steps of the renderer -/

namespace Renderer2D

/-- The vertex buffer of the batch is mapped, which fails behind the last one. -/
theorem map_eq (r : Renderer2D T) :
    r.map = if r.batchDrawCallIndex < config.maxBatchDrawCalls then
        .ok { r with textureCount := 0, buffer := (r.batchDrawCallIndex, 0) }
      else .error (.vertexBuffers r.batchDrawCallIndex) := by
  rw [map, vertexBufferAt]
  split
  next => rfl
  next => rfl

theorem present_nothing {r : Renderer2D T} (hcount : r.indexCount = 0)
    (hin : r.batchDrawCallIndex < config.maxBatchDrawCalls) : r.present = .ok r := by
  rw [present, if_pos hcount, vertexBufferAt, if_pos hin]
  rfl

/-- The quads of the batch are drawn with the textures, where there are any. -/
theorem present_quads {r : Renderer2D T} (hcount : r.indexCount ≠ 0)
    (hin : r.batchDrawCallIndex < config.maxBatchDrawCalls) :
    ∃ descriptorSet, (r.textureCount ≠ 0 → descriptorSet = r.textures) ∧
      r.present = .ok { r with
        descriptorSet := descriptorSet
        events := r.events ++
          [.draw r.batchDrawCallIndex (indexBuffer.take r.indexCount) descriptorSet]
        indexCount := 0
        batchDrawCallIndex := r.batchDrawCallIndex + 1 } := by
  by_cases htextures : r.textureCount = 0
  · refine ⟨r.descriptorSet, fun h => absurd htextures h, ?_⟩
    simp only [present, if_neg hcount, updateDesciptorSet, if_pos htextures, vertexBufferAt,
      if_pos hin]
    rfl
  · refine ⟨r.textures, fun _ => rfl, ?_⟩
    simp only [present, if_neg hcount, updateDesciptorSet, if_neg htextures, vertexBufferAt,
      if_pos hin]
    rfl

theorem present_indexCount {r r' : Renderer2D T} (h : r.present = .ok r') : r'.indexCount = 0 := by
  rw [present] at h
  split at h
  next hcount =>
      cases hbuffer : vertexBufferAt r.batchDrawCallIndex with
      | error fault => rw [hbuffer] at h; injection h
      | ok => rw [hbuffer] at h; exact Except.ok.inj h ▸ hcount
  next =>
      cases hbuffer : vertexBufferAt r.updateDesciptorSet.batchDrawCallIndex with
      | error fault => simp only [hbuffer] at h; injection h
      | ok => simp only [hbuffer] at h; exact Except.ok.inj h ▸ rfl

/-- A flush leaves the table and the open batch empty. -/
theorem flush_empty {r r' : Renderer2D T} (h : r.flush = .ok r') :
    r'.textureCount = 0 ∧ r'.indexCount = 0 := by
  rw [flush] at h
  cases hpresent : r.present with
  | error fault =>
      rw [hpresent] at h
      injection h
  | ok presented =>
      rw [hpresent] at h
      change presented.map = _ at h
      rw [map_eq] at h
      split at h
      next =>
          have hzero := present_indexCount hpresent
          exact Except.ok.inj h ▸ ⟨rfl, hzero⟩
      next => injection h

theorem foldlM_write (vertices : List Vertex2D) (r : Renderer2D T)
    (hroom : r.buffer.2 + vertices.length ≤ config.bufferSize) :
    vertices.foldlM write r = .ok { r with
      events := r.events ++ (vertices.zipIdx r.buffer.2).map fun (vertex, offset) =>
        .write r.buffer.1 offset vertex
      buffer := (r.buffer.1, r.buffer.2 + vertices.length) } := by
  induction vertices generalizing r with
  | nil =>
      simp only [List.foldlM_nil, List.zipIdx_nil, List.map_nil, List.append_nil,
        List.length_nil, Nat.add_zero]
      rfl
  | cons vertex vertices ih =>
      rw [List.length_cons] at hroom
      have hlt : r.buffer.2 < config.bufferSize := by omega
      rw [List.foldlM_cons, write, if_pos hlt]
      refine (ih _ ?_).trans ?_
      · show r.buffer.2 + 1 + vertices.length ≤ config.bufferSize
        omega
      · rw [List.zipIdx_cons, List.map_cons, List.append_assoc, List.length_cons,
          Nat.add_comm vertices.length 1, ← Nat.add_assoc]
        rfl

end Renderer2D

variable [DecidableEq T]

/-! ### What a batch is -/

/-- The textures of the quads. -/
def texturesOf (commands : List (Command2D T)) : Finset T :=
  (commands.filterMap fun command => command.quad.texture).toFinset

/-- The quads have room in one vertex buffer and their textures in one table. -/
def Fits (commands : List (Command2D T)) : Prop :=
  commands.length ≤ config.maxQuads ∧ (texturesOf commands).card ≤ config.maxTextures

instance : DecidablePred (Fits (T := T)) := fun _ => inferInstanceAs (Decidable (_ ∧ _))

/-- The commands can be cut, in order, into at most so many batches. -/
def NeedsAtMost (n : Nat) (commands : List (Command2D T)) : Prop :=
  ∃ cut : List (List (Command2D T)), cut.flatten = commands ∧ (∀ batch ∈ cut, Fits batch) ∧
    cut.length ≤ n

theorem texturesOf_mono {xs ys : List (Command2D T)} (h : xs.Sublist ys) :
    texturesOf xs ⊆ texturesOf ys := by
  intro t ht
  rw [texturesOf, List.mem_toFinset] at ht ⊢
  exact (h.filterMap _).subset ht

theorem Fits.sublist (xs ys : List (Command2D T)) (h : xs.Sublist ys) (hys : Fits ys) : Fits xs :=
  ⟨h.length_le.trans hys.1, (Finset.card_le_card (texturesOf_mono h)).trans hys.2⟩

theorem fits_nil : Fits ([] : List (Command2D T)) := ⟨Nat.zero_le _, Nat.zero_le _⟩

theorem fits_singleton (command : Command2D T) : Fits [command] := by
  refine ⟨by rw [List.length_singleton]; decide, ?_⟩
  have hle : (texturesOf [command]).card ≤ 1 :=
    (List.toFinset_card_le _).trans (List.length_filterMap_le ..)
  exact hle.trans (by decide)

/-- The greedy cut decides how many batches are needed. -/
theorem needsAtMost_iff {n : Nat} {commands : List (Command2D T)} :
    NeedsAtMost n commands ↔ (Lib.segments Fits commands).length ≤ n := by
  constructor
  · intro hneeds
    obtain ⟨cut, hcut, hfits, hle⟩ := hneeds
    exact (Lib.length_segments_le fits_singleton Fits.sublist hcut hfits).trans hle
  · exact fun hle => ⟨_, Lib.flatten_segments _, fun batch hbatch =>
      (Lib.fits_of_mem_segments fits_nil fits_singleton hbatch).2, hle⟩

/-! ### The table of textures -/

/-- The table after a quad with this texture. -/
def addTexture (table : List T) : Option T → List T
  | some texture => if texture ∈ table then table else table ++ [texture]
  | none => table

/-- The textures of the quads in the order in which they first occur. -/
def textureTable (commands : List (Command2D T)) : List T :=
  commands.foldl (fun table command => addTexture table command.quad.texture) []

/-- The slot of a texture: one above its position, and `-1` for no texture. -/
def slotOf (table : List T) : Option T → Int
  | some texture => table.idxOf texture + 1
  | none => -1

theorem textureTable_concat (commands : List (Command2D T)) (command : Command2D T) :
    textureTable (commands ++ [command]) =
      addTexture (textureTable commands) command.quad.texture :=
  List.foldl_append

theorem prefix_addTexture (table : List T) (texture : Option T) :
    table <+: addTexture table texture := by
  unfold addTexture
  split
  · split
    · exact List.prefix_refl _
    · exact List.prefix_append ..
  · exact List.prefix_refl _

theorem texturesOf_append (xs ys : List (Command2D T)) :
    texturesOf (xs ++ ys) = texturesOf xs ∪ texturesOf ys := by
  rw [texturesOf, List.filterMap_append, List.toFinset_append]
  rfl

theorem texturesOf_concat (commands : List (Command2D T)) (command : Command2D T) :
    texturesOf (commands ++ [command]) = texturesOf commands ∪ command.quad.texture.toFinset := by
  have hsingle : texturesOf [command] = command.quad.texture.toFinset := by
    cases htexture : command.quad.texture with
    | none => simp [texturesOf, htexture]
    | some texture => simp [texturesOf, htexture]
  rw [texturesOf_append, hsingle]

/-- The table lists the textures of the quads, each once. -/
theorem textureTable_spec (commands : List (Command2D T)) :
    (textureTable commands).Nodup ∧ (textureTable commands).toFinset = texturesOf commands := by
  induction commands using List.reverseRecOn with
  | nil => exact ⟨List.nodup_nil, rfl⟩
  | append_singleton commands command ih =>
      obtain ⟨hnodup, heq⟩ := ih
      rw [textureTable_concat, texturesOf_concat, ← heq]
      cases command.quad.texture with
      | none => exact ⟨hnodup, by simp [addTexture]⟩
      | some texture =>
          by_cases hmem : texture ∈ textureTable commands
          · rw [addTexture, if_pos hmem]
            exact ⟨hnodup, by simp [hmem]⟩
          · rw [addTexture, if_neg hmem]
            refine ⟨List.nodup_append.mpr ⟨hnodup, List.nodup_singleton _, ?_⟩, by simp⟩
            intro a ha b hb heq'
            exact hmem (List.mem_singleton.mp hb ▸ heq' ▸ ha)

theorem length_textureTable (commands : List (Command2D T)) :
    (textureTable commands).length = (texturesOf commands).card := by
  obtain ⟨hnodup, heq⟩ := textureTable_spec commands
  rw [← heq, List.toFinset_card_of_nodup hnodup]

theorem mem_textureTable {commands : List (Command2D T)} {command : Command2D T} {texture : T}
    (hmem : command ∈ commands) (htexture : command.quad.texture = some texture) :
    texture ∈ textureTable commands := by
  rw [← List.mem_toFinset, (textureTable_spec commands).2, texturesOf, List.mem_toFinset]
  exact List.mem_filterMap.mpr ⟨command, hmem, htexture⟩

/-- The slot of a texture that is in the table does not change when the table grows. -/
theorem slotOf_addTexture {table : List T} {texture new : Option T}
    (hmem : ∀ t, texture = some t → t ∈ table) :
    slotOf (addTexture table new) texture = slotOf table texture := by
  cases texture with
  | none => rfl
  | some t =>
      obtain ⟨rest, hrest⟩ := prefix_addTexture table new
      rw [slotOf, slotOf, ← hrest, List.idxOf_append_of_mem (hmem t rfl)]

/-! ### What a frame leaves behind -/

/-- The vertices of one quad, from the offset on. -/
def quadWrites (buffer offset : Nat) (table : List T) (command : Command2D T) : List (Event T) :=
  ((Renderer2D.quadVertices command (slotOf table command.quad.texture)).zipIdx offset).map
    fun (vertex, offset) => .write buffer offset vertex

/-- The vertices of the quads of a batch, four for each, from the start of the buffer. -/
def vertexWrites (buffer : Nat) (table : List T) (commands : List (Command2D T)) :
    List (Event T) :=
  commands.zipIdx.flatMap fun (command, i) => quadWrites buffer (4 * i) table command

/-- The indices of so many quads. -/
def quadsIndices (n : Nat) : List Nat := (List.range n).flatMap fun i => quadIndices (4 * i)

/-- A batch: its quads, and the textures bound when it is drawn. -/
structure Batch (T : Type) where
  commands : List (Command2D T)
  textures : List (Option T)

/-- The vertices of the batch and the draw call over them. -/
def Batch.events (buffer : Nat) (batch : Batch T) : List (Event T) :=
  vertexWrites buffer (textureTable batch.commands) batch.commands ++
    [.draw buffer (quadsIndices batch.commands.length) batch.textures]

/-- The events of the batches, the first in the vertex buffer `0`. -/
def batchEvents (batches : List (Batch T)) : List (Event T) :=
  batches.zipIdx.flatMap fun (batch, buffer) => batch.events buffer

/-- The batch keeps the limits, and each textured quad finds its texture in its slot. -/
structure Batch.Right (batch : Batch T) : Prop where
  nonempty : batch.commands ≠ []
  quads : batch.commands.length ≤ config.maxQuads
  vertices : 4 * batch.commands.length ≤ config.bufferSize
  textures : (texturesOf batch.commands).card ≤ config.maxTextures
  slots : ∀ command ∈ batch.commands, ∀ texture, command.quad.texture = some texture →
    ∃ i : Nat, slotOf (textureTable batch.commands) command.quad.texture = i + 1 ∧
      batch.textures[i]? = some (some texture)

theorem vertexWrites_concat (buffer : Nat) (table : List T) (commands : List (Command2D T))
    (command : Command2D T) :
    vertexWrites buffer table (commands ++ [command]) =
      vertexWrites buffer table commands ++
        quadWrites buffer (4 * commands.length) table command := by
  rw [vertexWrites, List.zipIdx_append, List.flatMap_append, Nat.zero_add]
  exact congrArg _ (List.append_nil _)

/-- Another texture in the table changes no slot that is in use. -/
theorem vertexWrites_addTexture (buffer : Nat) (commands : List (Command2D T))
    (texture : Option T) :
    vertexWrites buffer (addTexture (textureTable commands) texture) commands =
      vertexWrites buffer (textureTable commands) commands := by
  refine List.flatMap_congr fun (command, i) hmem => ?_
  have hslot : slotOf (addTexture (textureTable commands) texture) command.quad.texture =
      slotOf (textureTable commands) command.quad.texture :=
    slotOf_addTexture fun t ht => mem_textureTable (List.fst_mem_of_mem_zipIdx hmem) ht
  simp only [quadWrites, hslot]

theorem batchEvents_concat (batches : List (Batch T)) (batch : Batch T) :
    batchEvents (batches ++ [batch]) = batchEvents batches ++ batch.events batches.length := by
  rw [batchEvents, List.zipIdx_append, List.flatMap_append, Nat.zero_add]
  exact congrArg _ (List.append_nil _)

theorem length_quadsIndices (n : Nat) : (quadsIndices n).length = 6 * n := by
  induction n with
  | zero => rfl
  | succ n ih =>
      have hsucc : quadsIndices (n + 1) = quadsIndices n ++ quadIndices (4 * n) := by
        rw [quadsIndices, List.range_succ, List.flatMap_append, List.flatMap_singleton]
        rfl
      rw [hsucc, List.length_append, ih]
      rfl

/-- The first `6 * n` indices of the index buffer are those of the first `n` quads. -/
theorem take_indexBuffer {n : Nat} (hle : n ≤ config.maxQuads) :
    indexBuffer.take (6 * n) = quadsIndices n := by
  obtain ⟨rest, hrest⟩ := Nat.exists_eq_add_of_le hle
  have hsplit : indexBuffer = quadsIndices n ++
      ((List.range rest).map (n + ·)).flatMap fun i => quadIndices (4 * i) := by
    have hcount : config.indiciesSize / 6 = n + rest := hrest ▸ by decide
    rw [indexBuffer, hcount, List.range_add, List.flatMap_append]
    rfl
  rw [hsplit]
  exact List.take_left' (length_quadsIndices n)

/-! ### The invariant of a frame -/

/-- The renderer has these textures in the slots in use. -/
structure Tabled (table : List T) (r : Renderer2D T) : Prop where
  size : r.textures.length = config.maxTextures
  count : r.textureCount = table.length
  slots : r.textures.take r.textureCount = table.map some

/-- The renderer in the middle of a frame, with the drawn batches and the quads of the
open one. -/
structure Batched (start : List (Event T)) (batches : List (Batch T)) (opened : List (Command2D T))
    (r : Renderer2D T) : Prop where
  index : r.batchDrawCallIndex = batches.length
  inside : batches.length < config.maxBatchDrawCalls
  right : ∀ batch ∈ batches, batch.Right
  count : r.indexCount = 6 * opened.length
  cursor : r.buffer = (batches.length, 4 * opened.length)
  table : Tabled (textureTable opened) r
  events : r.events = start ++ batchEvents batches ++
    vertexWrites batches.length (textureTable opened) opened

namespace Renderer2D

theorem idxOf?_map_some (table : List T) (texture : T) :
    (table.map some).idxOf? (some texture) =
      if texture ∈ table then some (table.idxOf texture) else none := by
  induction table with
  | nil => rfl
  | cons first table ih =>
      rw [List.map_cons, List.idxOf?_cons, ih]
      by_cases heq : first = texture
      · rw [if_pos (by rw [heq]; exact beq_self_eq_true _), heq, if_pos List.mem_cons_self,
          List.idxOf_cons_self]
      · have hne : ¬ (some first == some texture) = true := fun h =>
          heq (Option.some.inj (eq_of_beq h))
        rw [if_neg hne, List.idxOf_cons_ne _ heq]
        by_cases hmem : texture ∈ table
        · rw [if_pos hmem, if_pos (List.mem_cons_of_mem _ hmem)]
          rfl
        · have hnot : texture ∉ first :: table := fun h =>
            (List.mem_cons.mp h).elim (fun h => heq h.symm) hmem
          rw [if_neg hmem, if_neg hnot]
          rfl

/-- A texture that has a slot or room for one gets it; only the table changes. -/
theorem submitTexture_room {table : List T} {r : Renderer2D T} (hr : Tabled table r) {texture : T}
    (hroom : (addTexture table (some texture)).length ≤ config.maxTextures) :
    ∃ textures count, r.submitTexture texture =
        .ok (slotOf (addTexture table (some texture)) (some texture),
          { r with textures := textures, textureCount := count }) ∧
      Tabled (addTexture table (some texture))
        { r with textures := textures, textureCount := count } := by
  by_cases hmem : texture ∈ table
  · refine ⟨r.textures, r.textureCount, ?_, ?_⟩
    · rw [submitTexture, hr.slots, idxOf?_map_some, if_pos hmem, addTexture, if_pos hmem]
      rfl
    · rw [addTexture, if_pos hmem]
      exact hr
  · rw [addTexture, if_neg hmem] at hroom ⊢
    have hlt : r.textureCount < config.maxTextures := by
      rw [hr.count]
      rw [List.length_append] at hroom
      exact hroom
    have hin : r.textureCount < r.textures.length := hr.size ▸ hlt
    refine ⟨r.textures.set r.textureCount (some texture), r.textureCount + 1, ?_, ?_, ?_, ?_⟩
    · have hslot : slotOf (table ++ [texture]) (some texture) = (r.textureCount : Int) + 1 := by
        rw [slotOf, List.idxOf_append_of_notMem hmem, List.idxOf_cons_self, hr.count]
        rfl
      rw [submitTexture, hr.slots, idxOf?_map_some, if_neg hmem, hslot]
      simp only [if_neg (Nat.not_le.mpr hlt), Except.bind, if_pos hin]
    · rw [List.length_set]
      exact hr.size
    · rw [List.length_append, hr.count]
      rfl
    · rw [List.map_append, ← hr.slots]
      rw [List.take_add_one, List.take_set_of_le (Nat.le_refl _), List.getElem?_set_self hin]
      rfl

/-- With the table full, a new texture is submitted after a flush. -/
theorem submitTexture_full {table : List T} {r : Renderer2D T} (hr : Tabled table r) {texture : T}
    (hroom : ¬ (addTexture table (some texture)).length ≤ config.maxTextures)
    (hle : table.length ≤ config.maxTextures) :
    r.submitTexture texture = r.flush.bind fun r => r.submitTexture texture := by
  have hmem : texture ∉ table := fun hmem => hroom (by
    rw [addTexture, if_pos hmem]
    exact hle)
  have hfull : r.textureCount ≥ config.maxTextures := by
    rw [addTexture, if_neg hmem, List.length_append] at hroom
    rw [hr.count]
    exact Nat.le_of_lt_succ (Nat.not_le.mp hroom)
  rw [submitTexture, hr.slots, idxOf?_map_some, if_neg hmem]
  simp only [if_pos hfull]
  cases hflush : r.flush with
  | error fault => rfl
  | ok flushed =>
      have hnone : flushed.textureCount = 0 := (flush_empty hflush).1
      have hroom : ¬ (0 ≥ config.maxTextures) := by decide
      simp only [Except.bind, submitTexture, hnone, List.take_zero, List.idxOf?_nil, if_neg hroom]

/-- The slot of a quad's texture, where the table has room for it. -/
theorem textureSlot_room {table : List T} {r : Renderer2D T} (hr : Tabled table r)
    {texture : Option T} (hroom : (addTexture table texture).length ≤ config.maxTextures) :
    ∃ textures count, r.textureSlot texture =
        .ok (slotOf (addTexture table texture) texture,
          { r with textures := textures, textureCount := count }) ∧
      Tabled (addTexture table texture) { r with textures := textures, textureCount := count } := by
  cases texture with
  | none => exact ⟨r.textures, r.textureCount, rfl, hr⟩
  | some texture => exact submitTexture_room hr hroom

variable {start : List (Event T)} {batches : List (Batch T)} {opened : List (Command2D T)}
  {r : Renderer2D T} {command : Command2D T}

/-- With the slot of its texture, a quad is written at the cursor. -/
theorem submitCommand_room {r₁ : Renderer2D T} {slot : Int}
    (hcount : ¬ r.indexCount ≥ config.indiciesSize)
    (hslot : r.textureSlot command.quad.texture = .ok (slot, r₁))
    (hroom : r₁.buffer.2 + 4 ≤ config.bufferSize) :
    r.submitCommand command = .ok { r₁ with
      events := r₁.events ++ ((quadVertices command slot).zipIdx r₁.buffer.2).map
        fun (vertex, offset) => .write r₁.buffer.1 offset vertex
      buffer := (r₁.buffer.1, r₁.buffer.2 + 4)
      indexCount := r₁.indexCount + 6 } := by
  have hwrite := foldlM_write (quadVertices command slot) r₁ hroom
  rw [submitCommand, if_neg hcount]
  simp only [Except.bind]
  rw [hslot]
  simp only
  rw [hwrite]
  rfl

/-- A quad that fits joins the open batch. -/
theorem submitCommand_fits (hr : Batched start batches opened r)
    (hfits : Fits (opened ++ [command])) :
    ∃ r', r.submitCommand command = .ok r' ∧ Batched start batches (opened ++ [command]) r' := by
  have hlength : (opened ++ [command]).length = opened.length + 1 := List.length_append
  have hquads : opened.length < config.maxQuads := by
    have hle := hfits.1
    rwa [hlength] at hle
  have hroom : (addTexture (textureTable opened) command.quad.texture).length ≤
      config.maxTextures := by
    rw [← textureTable_concat, length_textureTable]
    exact hfits.2
  have hcount : ¬ r.indexCount ≥ config.indiciesSize := by
    have hsize : config.indiciesSize = 6 * config.maxQuads := rfl
    rw [hr.count, hsize]
    omega
  obtain ⟨textures, count, hslot, htable⟩ := textureSlot_room hr.table hroom
  have hvertices : r.buffer.2 + 4 ≤ config.bufferSize := by
    have hsize : config.bufferSize = 4 * config.maxQuads := rfl
    rw [hr.cursor, hsize]
    show 4 * opened.length + 4 ≤ _
    omega
  refine ⟨_, submitCommand_room hcount hslot hvertices, ?_⟩
  rw [← textureTable_concat] at htable
  exact {
    index := hr.index
    inside := hr.inside
    right := hr.right
    count := by
      rw [hlength]
      exact congrArg (· + 6) hr.count
    cursor := by
      rw [hlength]
      show (r.buffer.1, r.buffer.2 + 4) = _
      rw [hr.cursor]
      rfl
    table := ⟨htable.size, htable.count, htable.slots⟩
    events := by
      rw [vertexWrites_concat, textureTable_concat, vertexWrites_addTexture, ← List.append_assoc,
        ← hr.events]
      show r.events ++ _ = _
      rw [hr.cursor]
      rfl }

/-- A quad that does not fit is submitted after a flush, at the one limit or the other. -/
theorem submitCommand_full (hr : Batched start batches opened r) (hopened : Fits opened)
    (hfull : ¬ Fits (opened ++ [command])) :
    r.submitCommand command = r.flush.bind fun r => r.submitCommand command := by
  have hzero : ¬ 0 ≥ config.indiciesSize := by decide
  by_cases hcount : r.indexCount ≥ config.indiciesSize
  · -- the vertex buffer is full
    rw [submitCommand, if_pos hcount]
    cases hflush : r.flush with
    | error fault => rfl
    | ok flushed =>
        simp only [Except.bind, submitCommand, (flush_empty hflush).2, if_neg hzero]
  · -- the table is full, and the quad has a texture which is not in it
    have hsize : config.indiciesSize = 6 * config.maxQuads := rfl
    have hquads : (opened ++ [command]).length ≤ config.maxQuads := by
      rw [hr.count, hsize] at hcount
      rw [List.length_append, List.length_singleton]
      omega
    have hroom : ¬ (addTexture (textureTable opened) command.quad.texture).length ≤
        config.maxTextures := by
      rw [← textureTable_concat, length_textureTable]
      exact fun hle => hfull ⟨hquads, hle⟩
    have hle : (textureTable opened).length ≤ config.maxTextures := by
      rw [length_textureTable]
      exact hopened.2
    cases htexture : command.quad.texture with
    | none => exact absurd hle (by rw [htexture] at hroom; exact hroom)
    | some texture =>
        rw [htexture] at hroom
        rw [submitCommand, if_neg hcount, htexture]
        simp only [Except.bind, textureSlot]
        rw [submitTexture_full hr.table hroom hle]
        cases hflush : r.flush with
        | error fault => rfl
        | ok flushed =>
            simp only [Except.bind, submitCommand, (flush_empty hflush).2, if_neg hzero, htexture,
              textureSlot]

/-- Drawn with the textures in the slots, the open batch is right. -/
theorem right_opened (hr : Batched start batches opened r) (hopened : Fits opened)
    (hne : opened ≠ []) {textures : List (Option T)}
    (htextures : r.textureCount ≠ 0 → textures = r.textures) :
    (Batch.mk opened textures).Right where
  nonempty := hne
  quads := hopened.1
  vertices := Nat.mul_le_mul_left 4 hopened.1
  textures := hopened.2
  slots := by
    intro command hmem texture htexture
    have hin : texture ∈ textureTable opened := mem_textureTable hmem htexture
    have hlt : (textureTable opened).idxOf texture < (textureTable opened).length :=
      List.idxOf_lt_length_iff.mpr hin
    have hcount : r.textureCount ≠ 0 := by
      rw [hr.table.count]
      omega
    have hget : (r.textures.take r.textureCount)[(textureTable opened).idxOf texture]? =
        some (some texture) := by
      rw [hr.table.slots, List.getElem?_map, List.getElem?_idxOf hin]
      rfl
    refine ⟨(textureTable opened).idxOf texture, by rw [htexture]; rfl, ?_⟩
    rw [htextures hcount]
    rwa [List.getElem?_take_of_lt (by rw [hr.table.count]; exact hlt)] at hget

/-- Presenting the open batch draws it. -/
theorem present_opened (hr : Batched start batches opened r) (hopened : Fits opened)
    (hne : opened ≠ []) :
    ∃ r' batch, r.present = .ok r' ∧ batch.commands = opened ∧ batch.Right ∧
      r'.events = start ++ batchEvents (batches ++ [batch]) ∧
      r'.indexCount = 0 ∧ r'.batchDrawCallIndex = batches.length + 1 ∧
      r'.textures.length = config.maxTextures := by
  have hpos : 0 < opened.length := List.length_pos_iff.mpr hne
  have hcount : r.indexCount ≠ 0 := by
    rw [hr.count]
    omega
  have hin : r.batchDrawCallIndex < config.maxBatchDrawCalls := hr.index ▸ hr.inside
  obtain ⟨textures, htextures, hpresent⟩ := present_quads hcount hin
  refine ⟨_, ⟨opened, textures⟩, hpresent, rfl, right_opened hr hopened hne htextures, ?_, rfl,
    congrArg (· + 1) hr.index, hr.table.size⟩
  show r.events ++ _ = _
  rw [hr.events, hr.index, hr.count, take_indexBuffer hopened.1, batchEvents_concat]
  simp only [List.append_assoc, Batch.events]

/-- A flush draws the open batch and begins the next one, if there is a vertex buffer for
it. -/
theorem flush_opened (hr : Batched start batches opened r) (hopened : Fits opened)
    (hne : opened ≠ []) :
    if batches.length + 1 < config.maxBatchDrawCalls then
      ∃ r' batch, r.flush = .ok r' ∧ batch.commands = opened ∧
        Batched start (batches ++ [batch]) [] r'
    else r.flush = .error (.vertexBuffers (batches.length + 1)) := by
  obtain ⟨r', batch, hpresent, hcommands, hright, hevents, hcount, hindex, hsize⟩ :=
    present_opened hr hopened hne
  have hflush : r.flush = r'.map := by
    rw [flush, hpresent]
    rfl
  have hlength : (batches ++ [batch]).length = batches.length + 1 := List.length_append
  rw [hflush, map_eq, hindex]
  split
  next hroom =>
      refine ⟨_, batch, rfl, hcommands, ?_⟩
      exact {
        index := by rw [hlength]
        inside := by rwa [hlength]
        right := fun b hb => (List.mem_append.mp hb).elim (hr.right b)
          fun hb => List.mem_singleton.mp hb ▸ hright
        count := hcount
        cursor := by rw [hlength]; rfl
        table := ⟨hsize, rfl, rfl⟩
        events := hevents.trans (List.append_nil _).symm }
  next => rfl

/-- A quad that does not fit begins a batch, if there is a vertex buffer for it. -/
theorem submitCommand_begins (hr : Batched start batches opened r) (hopened : Fits opened)
    (hfull : ¬ Fits (opened ++ [command])) :
    if batches.length + 1 < config.maxBatchDrawCalls then
      ∃ r' batch, r.submitCommand command = .ok r' ∧ batch.commands = opened ∧
        Batched start (batches ++ [batch]) [command] r'
    else r.submitCommand command = .error (.vertexBuffers (batches.length + 1)) := by
  have hne : opened ≠ [] := fun hnil => hfull (by rw [hnil]; exact fits_singleton command)
  have hflush := flush_opened hr hopened hne
  rw [submitCommand_full hr hopened hfull]
  split
  next hroom =>
      rw [if_pos hroom] at hflush
      obtain ⟨flushed, batch, heq, hcommands, hbatched⟩ := hflush
      obtain ⟨r', hsubmit, hr'⟩ := submitCommand_fits hbatched (fits_singleton command)
      exact ⟨r', batch, by rw [heq]; exact hsubmit, hcommands, hr'⟩
  next hroom =>
      rw [if_neg hroom] at hflush
      rw [hflush]
      rfl

/-- The loop makes the greedy cut, and leaves the vertex buffers where it has finished as
many batches as there are. -/
theorem submitQuad_greedy (hr : Batched start [] [] r) (commands : List (Command2D T)) :
    if (Lib.greedy Fits commands).1.length < config.maxBatchDrawCalls then
      ∃ r' batches, r.submitQuad commands = .ok r' ∧
        batches.map Batch.commands = (Lib.greedy Fits commands).1 ∧
        Batched start batches (Lib.greedy Fits commands).2 r'
    else r.submitQuad commands = .error (.vertexBuffers config.maxBatchDrawCalls) := by
  induction commands using List.reverseRecOn with
  | nil => exact ⟨r, [], rfl, rfl, hr⟩
  | append_singleton commands command ih =>
      have hopened := (Lib.greedy_fits fits_nil fits_singleton commands).1
      have hsubmit : r.submitQuad (commands ++ [command]) =
          (r.submitQuad commands).bind fun r => r.submitCommand command := by
        rw [submitQuad, List.foldlM_append]
        cases hquads : commands.foldlM submitCommand r with
        | error fault => rw [submitQuad, hquads]; rfl
        | ok r' =>
            rw [submitQuad, hquads]
            exact bind_pure (submitCommand r' command)
      rw [hsubmit, Lib.greedy_concat]
      by_cases hroom : (Lib.greedy Fits commands).1.length < config.maxBatchDrawCalls
      · rw [if_pos hroom] at ih
        obtain ⟨r', batches, heq, hbatches, hr'⟩ := ih
        have hlength : batches.length = (Lib.greedy Fits commands).1.length := by
          rw [← hbatches, List.length_map]
        rw [heq]
        by_cases hfits : Fits ((Lib.greedy Fits commands).2 ++ [command])
        · rw [Lib.extend, if_pos hfits, if_pos hroom]
          obtain ⟨r'', hcommand, hr''⟩ := submitCommand_fits hr' hfits
          exact ⟨r'', batches, hcommand, hbatches, hr''⟩
        · have hbegins := submitCommand_begins hr' hopened hfits
          rw [Lib.extend, if_neg hfits, List.length_append, List.length_singleton, ← hlength]
          split
          next hnext =>
              rw [if_pos hnext] at hbegins
              obtain ⟨r'', batch, hcommand, hbatch, hr''⟩ := hbegins
              refine ⟨r'', batches ++ [batch], hcommand, ?_, hr''⟩
              rw [List.map_append, hbatches, List.map_singleton, hbatch]
          next hnext =>
              rw [if_neg hnext] at hbegins
              have hlast : batches.length + 1 = config.maxBatchDrawCalls := by
                rw [← hlength] at hroom
                exact le_antisymm hroom (Nat.not_lt.mp hnext)
              exact hbegins.trans (by rw [hlast])
      · rw [if_neg hroom] at ih
        have hmore : ¬ (Lib.extend Fits (Lib.greedy Fits commands) command).1.length <
            config.maxBatchDrawCalls := fun hlt =>
          hroom ((Lib.length_le_extend ..).trans_lt hlt)
        rw [if_neg hmore, ih]
        rfl

/-- At the end of the loop the open batch, if there is one, is drawn. -/
theorem present_last (hr : Batched start batches opened r) (hopened : Fits opened) :
    ∃ r' last, r.present = .ok r' ∧
      last.map Batch.commands = (if opened = [] then [] else [opened]) ∧
      (∀ batch ∈ batches ++ last, batch.Right) ∧
      r'.events = start ++ batchEvents (batches ++ last) ∧
      r'.indexCount = 0 ∧ r'.textures.length = config.maxTextures := by
  by_cases hnil : opened = []
  · subst hnil
    refine ⟨r, [], present_nothing hr.count (hr.index ▸ hr.inside), rfl, ?_, ?_, hr.count,
      hr.table.size⟩
    · rw [List.append_nil]
      exact hr.right
    · rw [List.append_nil]
      exact hr.events.trans (List.append_nil _)
  · obtain ⟨r', batch, hpresent, hcommands, hright, hevents, hcount, -, hsize⟩ :=
      present_opened hr hopened hnil
    refine ⟨r', [batch], hpresent, ?_, fun b hb => ?_, hevents, hcount, hsize⟩
    · rw [if_neg hnil, List.map_singleton, hcommands]
    · cases List.mem_append.mp hb with
      | inl hb => exact hr.right b hb
      | inr hb => exact List.mem_singleton.mp hb ▸ hright

end Renderer2D

/-! ### Frames -/

/-- Between frames nothing waits to be drawn. -/
structure Idle (r : Renderer2D T) : Prop where
  size : r.textures.length = config.maxTextures
  count : r.indexCount = 0
  index : r.batchDrawCallIndex = 0

/-- The states in which a frame begins: the new one, and those that a frame leaves. -/
inductive Ready : Renderer2D T → Prop where
  | new : Ready Renderer2D.new
  | frame {r r' : Renderer2D T} (hr : Ready r) (commands : List (Command2D T))
      (h : r.renderScene commands = .ok r') : Ready r'

/-- `begin`, `submitQuad` and `present`. -/
def drawFrame (r : Renderer2D T) (commands : List (Command2D T)) : Except Fault (Renderer2D T) :=
  r.begin.bind fun r => (r.submitQuad commands).bind Renderer2D.present

/-- `renderScene` is `drawFrame`, after which the batches are counted anew. -/
theorem renderScene_eq (r : Renderer2D T) (commands : List (Command2D T)) :
    r.renderScene commands = (drawFrame r commands).map Renderer2D.finish := rfl

theorem needsAtMost_buffers {commands : List (Command2D T)} :
    NeedsAtMost config.maxBatchDrawCalls commands ↔
      (Lib.greedy Fits commands).1.length < config.maxBatchDrawCalls :=
  needsAtMost_iff.trans (Lib.length_segments_le_iff (by decide) commands)

/-- The frame begins with the first vertex buffer. -/
theorem Idle.begin {r : Renderer2D T} (hr : Idle r) :
    ∃ r', r.begin = .ok r' ∧ Batched r.events [] [] r' := by
  have hin : r.batchDrawCallIndex < config.maxBatchDrawCalls := by
    rw [hr.index]
    decide
  refine ⟨_, (Renderer2D.map_eq r).trans (if_pos hin), ?_⟩
  exact {
    index := hr.index
    inside := (by decide : 0 < config.maxBatchDrawCalls)
    right := fun batch hbatch => absurd hbatch List.not_mem_nil
    count := hr.count
    cursor := congrArg (·, 0) hr.index
    table := ⟨hr.size, rfl, rfl⟩
    events := by
      show r.events = r.events ++ [] ++ []
      rw [List.append_nil, List.append_nil] }

/-- A frame draws the segments of the greedy cut, where there are vertex buffers for
them. -/
theorem drawFrame_ok {r : Renderer2D T} (hr : Idle r) {commands : List (Command2D T)}
    (hneeds : NeedsAtMost config.maxBatchDrawCalls commands) :
    ∃ r' batches, drawFrame r commands = .ok r' ∧
      batches.map Batch.commands = Lib.segments Fits commands ∧
      (∀ batch ∈ batches, batch.Right) ∧ r'.events = r.events ++ batchEvents batches ∧
      r'.indexCount = 0 ∧ r'.textures.length = config.maxTextures := by
  obtain ⟨begun, hbegin, hbegun⟩ := hr.begin
  have hloop := Renderer2D.submitQuad_greedy hbegun commands
  rw [if_pos (needsAtMost_buffers.mp hneeds)] at hloop
  obtain ⟨submitted, batches, hsubmit, hbatches, hsubmitted⟩ := hloop
  obtain ⟨r', last, hpresent, hlast, hright, hevents, hcount, hsize⟩ :=
    Renderer2D.present_last hsubmitted (Lib.greedy_fits fits_nil fits_singleton commands).1
  refine ⟨r', batches ++ last, ?_, ?_, hright, hevents, hcount, hsize⟩
  · rw [drawFrame, hbegin]
    show (begun.submitQuad commands).bind _ = _
    rw [hsubmit]
    exact hpresent
  · rw [List.map_append, hbatches, hlast, Lib.segments]
    split
    next => exact List.append_nil _
    next => rfl

/-- It leaves the vertex buffers where there are not. -/
theorem drawFrame_outside {r : Renderer2D T} (hr : Idle r) {commands : List (Command2D T)}
    (hneeds : ¬ NeedsAtMost config.maxBatchDrawCalls commands) :
    drawFrame r commands = .error (.vertexBuffers config.maxBatchDrawCalls) := by
  obtain ⟨begun, hbegin, hbegun⟩ := hr.begin
  have hloop := Renderer2D.submitQuad_greedy hbegun commands
  rw [if_neg (mt needsAtMost_buffers.mpr hneeds)] at hloop
  rw [drawFrame, hbegin]
  show (begun.submitQuad commands).bind _ = _
  rw [hloop]
  rfl

/-- A frame leaves the renderer idle. -/
theorem Ready.idle {r : Renderer2D T} (hr : Ready r) : Idle r := by
  induction hr with
  | new => exact ⟨rfl, rfl, rfl⟩
  | @frame r r' hr commands h ih =>
      rw [renderScene_eq] at h
      by_cases hneeds : NeedsAtMost config.maxBatchDrawCalls commands
      · obtain ⟨drawn, batches, hdraw, -, -, -, hcount, hsize⟩ := drawFrame_ok ih hneeds
        rw [hdraw] at h
        exact Except.ok.inj h ▸ ⟨hsize, hcount, rfl⟩
      · rw [drawFrame_outside ih hneeds] at h
        injection h

/-! ### How many batches commands need at least -/

/-- So many batches take so many quads and textures at most. -/
theorem NeedsAtMost.bounds {n : Nat} {commands : List (Command2D T)}
    (hneeds : NeedsAtMost n commands) :
    commands.length ≤ n * config.maxQuads ∧
      (texturesOf commands).card ≤ n * config.maxTextures := by
  obtain ⟨cut, rfl, hfits, hle⟩ := hneeds
  have hcut : cut.flatten.length ≤ cut.length * config.maxQuads ∧
      (texturesOf cut.flatten).card ≤ cut.length * config.maxTextures := by
    clear hle
    induction cut with
    | nil => exact ⟨Nat.zero_le _, Nat.zero_le _⟩
    | cons batch cut ih =>
        obtain ⟨hquads, htextures⟩ := hfits batch List.mem_cons_self
        have hrest := ih fun batch hbatch => hfits batch (List.mem_cons_of_mem _ hbatch)
        rw [List.flatten_cons, List.length_append, texturesOf_append, List.length_cons,
          Nat.add_mul, Nat.add_mul, Nat.one_mul, Nat.one_mul]
        exact ⟨(Nat.add_le_add hquads hrest.1).trans_eq (Nat.add_comm ..),
          (Finset.card_union_le ..).trans
            ((Nat.add_le_add htextures hrest.2).trans_eq (Nat.add_comm ..))⟩
  exact ⟨hcut.1.trans (Nat.mul_le_mul_right _ hle), hcut.2.trans (Nat.mul_le_mul_right _ hle)⟩

/-- So many quads, each with its own texture. -/
def sprites (n : Nat) : List (Command2D Nat) :=
  (List.range n).map fun i => ⟨⟨some i, ![0, 0], 1, 1, fun _ => 1, fun _ => ![0, 0]⟩, 1⟩

theorem texturesOf_sprites (n : Nat) : texturesOf (sprites n) = Finset.range n := by
  rw [texturesOf, sprites, List.filterMap_map]
  exact (congrArg List.toFinset List.filterMap_some).trans (List.toFinset_range n)

/-! ### The whole frame -/

/-- A frame for which there are vertex buffers writes and draws every quad once, in
order: it is cut into batches that keep the limits, and a batch's vertices come before
the draw call over them, with the textures of its quads in their slots. -/
theorem drawFrame_every_quad_once {r : Renderer2D T} (hr : Ready r)
    {commands : List (Command2D T)} (hneeds : NeedsAtMost config.maxBatchDrawCalls commands) :
    ∃ r' batches, drawFrame r commands = .ok r' ∧
      (batches.map Batch.commands).flatten = commands ∧
      batches.length ≤ config.maxBatchDrawCalls ∧ (∀ batch ∈ batches, batch.Right) ∧
      r'.events = r.events ++ batchEvents batches := by
  obtain ⟨r', batches, hdraw, hbatches, hright, hevents, -, -⟩ := drawFrame_ok hr.idle hneeds
  refine ⟨r', batches, hdraw, ?_, ?_, hright, hevents⟩
  · rw [hbatches, Lib.flatten_segments]
  · rw [← List.length_map Batch.commands, hbatches]
    exact needsAtMost_iff.mp hneeds

/-- Twenty quads, each with its own texture, are drawn in two batches or more. -/
theorem drawFrame_every_quad_once_sprites :
    ∃ r' batches, drawFrame (Renderer2D.new : Renderer2D Nat) (sprites 20) = .ok r' ∧
      (batches.map Batch.commands).flatten = sprites 20 ∧ 1 < batches.length ∧
      batches.length ≤ config.maxBatchDrawCalls ∧ (∀ batch ∈ batches, batch.Right) ∧
      r'.events = Renderer2D.new.events ++ batchEvents batches := by
  have hneeds : NeedsAtMost config.maxBatchDrawCalls (sprites 20) :=
    ⟨[(sprites 20).take 16, (sprites 20).drop 16], rfl, by decide, by decide⟩
  obtain ⟨r', batches, hdraw, hflatten, hle, hright, hevents⟩ :=
    drawFrame_every_quad_once .new hneeds
  refine ⟨r', batches, hdraw, hflatten, ?_, hle, hright, hevents⟩
  by_contra hone
  -- one batch has sixteen textures at most
  have hneedsOne : NeedsAtMost 1 (sprites 20) := by
    refine ⟨batches.map Batch.commands, hflatten, fun commands hmem => ?_, ?_⟩
    · obtain ⟨batch, hbatch, rfl⟩ := List.mem_map.mp hmem
      exact ⟨(hright batch hbatch).quads, (hright batch hbatch).textures⟩
    · rw [List.length_map]
      exact Nat.not_lt.mp hone
  have hcard := hneedsOne.bounds.2
  rw [texturesOf_sprites, Finset.card_range] at hcard
  exact absurd hcard (by decide)

/-- `renderScene` stays in the vertex buffers exactly where the commands can be cut into
as many batches as there are vertex buffers. -/
theorem renderScene_inside_iff {r : Renderer2D T} (hr : Ready r)
    (commands : List (Command2D T)) :
    (∀ i, r.renderScene commands ≠ .error (.vertexBuffers i)) ↔
      NeedsAtMost config.maxBatchDrawCalls commands := by
  rw [renderScene_eq]
  constructor
  · intro hinside
    by_contra hneeds
    refine hinside config.maxBatchDrawCalls ?_
    rw [drawFrame_outside hr.idle hneeds]
    rfl
  · intro hneeds i
    obtain ⟨r', batches, hdraw, -⟩ := drawFrame_ok hr.idle hneeds
    rw [hdraw]
    intro hfault
    injection hfault

/-- With 160 textures there are ten batches. -/
theorem renderScene_inside_iff_sprites :
    NeedsAtMost config.maxBatchDrawCalls (sprites 160) ∧
      ∀ i, (Renderer2D.new : Renderer2D Nat).renderScene (sprites 160) ≠
        .error (.vertexBuffers i) := by
  have hneeds : NeedsAtMost config.maxBatchDrawCalls (sprites 160) :=
    ⟨(List.range 10).map fun n => ((sprites 160).drop (16 * n)).take 16, rfl, by decide +kernel,
      by decide⟩
  exact ⟨hneeds, (renderScene_inside_iff .new (sprites 160)).mpr hneeds⟩

/-- With 161 textures an eleventh batch is begun, and there are ten vertex buffers. -/
theorem renderScene_eleventh_batch :
    (Renderer2D.new : Renderer2D Nat).renderScene (sprites 161) = .error (.vertexBuffers 10) := by
  have hneeds : ¬ NeedsAtMost config.maxBatchDrawCalls (sprites 161) := by
    intro hneeds
    have hle := hneeds.bounds.2
    rw [texturesOf_sprites, Finset.card_range] at hle
    exact absurd hle (by decide)
  rw [renderScene_eq, drawFrame_outside Ready.new.idle hneeds]
  rfl

end Maple.Batching
