import Mathlib.Data.Fintype.Card
import Mathlib.Data.List.Nodup
import Mathlib.Tactic.Linarith
import Maple.Lib.Interning
import Maple.Lib.Stores

/-!
# Maple.FileSystem.MeshLoader

`MeshLoader::load`, from what `tinyobj::LoadObj` has read. This module is the loop that
keeps the vertices of a shape once each: **the buffers give every corner its vertex, and
no vertex twice, as long as the vertices can be numbered by a `uint32_t`**.

A vertex is looked up in a hash map, by an equality that may hold between vertices that
are not identical (`-0.0f == 0.0f`) and that the hash respects. The type `F` of the
components is a parameter.
-/

namespace Maple.MeshLoader

open Lib (OutOfRange)

/-- `Vertex`. -/
structure Vertex (F : Type) where
  pos : F × F × F
  color : F × F × F × F
  texCoord : F × F
  normal : F × F × F
  tangent : F × F × F

section

variable {F : Type}

/-- `Vertex::operator==`. -/
instance [BEq F] : BEq (Vertex F) where
  beq vertex other := vertex.pos == other.pos && vertex.color == other.color &&
    vertex.texCoord == other.texCoord && vertex.normal == other.normal &&
    vertex.tangent == other.tangent

instance [Hashable F] : Hashable (Vertex F) where
  hash vertex := hash vertex.pos ^^^ (hash vertex.texCoord <<< 1) ^^^
    (hash vertex.color <<< 1) ^^^ (hash vertex.normal <<< 1)

instance [BEq F] [LawfulBEq F] : LawfulBEq (Vertex F) where
  eq_of_beq {vertex other} h := by
    obtain ⟨⟨⟨⟨hpos, hcolor⟩, htexCoord⟩, hnormal⟩, htangent⟩ :
        (((vertex.pos == other.pos ∧ vertex.color == other.color) ∧
          vertex.texCoord == other.texCoord) ∧ vertex.normal == other.normal) ∧
          vertex.tangent == other.tangent := by
      simpa only [BEq.beq, Bool.and_eq_true] using h
    cases vertex
    cases other
    rw [Vertex.mk.injEq]
    exact ⟨eq_of_beq hpos, eq_of_beq hcolor, eq_of_beq htexCoord, eq_of_beq hnormal,
      eq_of_beq htangent⟩
  rfl {vertex} := by
    change (vertex.pos == vertex.pos && vertex.color == vertex.color &&
      vertex.texCoord == vertex.texCoord && vertex.normal == vertex.normal &&
      vertex.tangent == vertex.tangent) = true
    simp only [BEq.rfl, Bool.and_self]

end

/-! ### The loop over the corners -/

/-- The locals of the loop. -/
structure Buffers (V : Type) [BEq V] [Hashable V] where
  vertices : List V := []
  indices : List UInt32 := []
  uniqueVertices : Std.HashMap V UInt32 := ∅

variable {V : Type} [BEq V] [Hashable V]

/-- The end of the body, from `uniqueVertices.count(vertex)` on. -/
def Buffers.addCorner (buffers : Buffers V) (vertex : V) : Buffers V :=
  let buffers := if buffers.uniqueVertices.contains vertex then buffers
    else { buffers with
      uniqueVertices := buffers.uniqueVertices.insert vertex (UInt32.ofNat buffers.vertices.length)
      vertices := buffers.vertices ++ [vertex] }
  { buffers with indices := buffers.indices ++ [buffers.uniqueVertices.getD vertex 0] }

def addCorners (corners : List V) : Buffers V := corners.foldl Buffers.addCorner {}

/-- What the buffers of a shape are for. -/
structure Deduplicated (corners vertices : List V) (indices : List UInt32) : Prop where
  length : indices.length = corners.length
  lt : ∀ index ∈ indices, index.toNat < vertices.length
  corner : ∀ (i : Nat) (index : UInt32) (corner : V), indices[i]? = some index →
    corners[i]? = some corner → ∃ vertex, vertices[index.toNat]? = some vertex ∧ vertex == corner
  distinct : vertices.Pairwise fun vertex other => ¬ vertex == other
  used : ∀ k < vertices.length, ∃ index ∈ indices, index.toNat = k

variable [EquivBEq V] [LawfulHashable V] {corners : List V} {buffers : Buffers V}

/-- The loop invariant: a vertex is kept at its place among the corners so far. -/
structure Loaded (corners : List V) (buffers : Buffers V) : Prop where
  vertices : buffers.vertices = corners.eraseDups
  indices : buffers.indices = corners.map fun c => UInt32.ofNat (Lib.number corners c)
  unique : ∀ v, buffers.uniqueVertices[v]? =
    if corners.any (· == v) then some (UInt32.ofNat (Lib.number corners v)) else none

namespace Loaded

theorem contains (h : Loaded corners buffers) (v : V) :
    buffers.uniqueVertices.contains v = corners.any (· == v) := by
  rw [Std.HashMap.contains_eq_isSome_getElem?, h.unique]
  split
  next hany => rw [hany, Option.isSome_some]
  next hany => rw [Option.isSome_none, Bool.eq_false_iff.mpr hany]

omit [LawfulHashable V] in
/-- The corners before keep their indices. -/
theorem indices_concat (h : Loaded corners buffers) (c : V) :
    buffers.indices = corners.map fun c' => UInt32.ofNat (Lib.number (corners ++ [c]) c') := by
  rw [h.indices]
  refine List.map_congr_left fun c' hc' => ?_
  rw [Lib.number_concat (List.any_eq_true.mpr ⟨c', hc', BEq.rfl⟩)]

theorem addCorner (h : Loaded corners buffers) (c : V) :
    Loaded (corners ++ [c]) (buffers.addCorner c) := by
  by_cases hany : corners.any (· == c)
  · have hstep : buffers.addCorner c = { buffers with
        indices := buffers.indices ++ [buffers.uniqueVertices.getD c 0] } := by
      rw [Buffers.addCorner, if_pos ((h.contains c).trans hany)]
    rw [hstep]
    constructor
    · rw [h.vertices, Lib.eraseDups_concat, if_pos hany]
    · rw [h.indices_concat c, List.map_append, List.map_singleton,
        Std.HashMap.getD_eq_getD_getElem?, h.unique, if_pos hany, Option.getD_some,
        Lib.number_concat hany]
    · intro v
      rw [h.unique, Lib.any_concat hany]
      split
      next hv => rw [Lib.number_concat hv]
      next => rfl
  · have hstep : buffers.addCorner c =
        { vertices := buffers.vertices ++ [c]
          indices := buffers.indices ++ [UInt32.ofNat buffers.vertices.length]
          uniqueVertices :=
            buffers.uniqueVertices.insert c (UInt32.ofNat buffers.vertices.length) } := by
      rw [Buffers.addCorner, if_neg ((h.contains c).trans_ne hany)]
      rw [Std.HashMap.getD_insert_self]
    rw [hstep, h.vertices, ← Lib.number_concat_self hany]
    constructor
    · rw [Lib.eraseDups_concat, if_neg hany]
    · rw [h.indices_concat c, List.map_append, List.map_singleton]
    · intro v
      rw [Std.HashMap.getElem?_insert, h.unique, List.any_append, List.any_cons, List.any_nil,
        Bool.or_false]
      cases hcv : c == v with
      | true => rw [if_pos rfl, Bool.or_true, if_pos rfl, Lib.number_congr hcv]
      | false =>
          rw [if_neg Bool.false_ne_true, Bool.or_false]
          split
          next hv => rw [Lib.number_concat hv]
          next => rfl

end Loaded

theorem addCorners_loaded (corners : List V) : Loaded corners (addCorners corners) := by
  induction corners using List.reverseRecOn with
  | nil => exact ⟨rfl, rfl, fun v => Std.HashMap.getElem?_empty⟩
  | append_singleton corners c ih =>
      rw [addCorners, List.foldl_append]
      exact ih.addCorner c

omit [Hashable V] [LawfulHashable V] in
/-- An index is below `2 ^ 32`, so there are no more vertices to be told apart. -/
theorem Deduplicated.length_le {vertices : List V} {indices : List UInt32}
    (h : Deduplicated corners vertices indices) : corners.eraseDups.length ≤ 2 ^ 32 := by
  -- every distinct corner has an index
  have hindex : ∀ k : Fin corners.eraseDups.length, ∃ index : UInt32, ∃ vertex,
      vertices[index.toNat]? = some vertex ∧ vertex == corners.eraseDups[k] := by
    intro k
    obtain ⟨i, hi, hcorner⟩ :=
      List.mem_iff_getElem.mp (Lib.mem_of_mem_eraseDups (List.getElem_mem k.isLt))
    have hlt : i < indices.length := h.length ▸ hi
    exact ⟨indices[i], h.corner i _ _ (List.getElem?_eq_getElem hlt)
      ((List.getElem?_eq_getElem hi).trans (congrArg some hcorner))⟩
  choose index hindex using hindex
  -- and no two of them have one
  have hinj : Function.Injective fun k : Fin corners.eraseDups.length =>
      (⟨(index k).toNat, (index k).toNat_lt⟩ : Fin (2 ^ 32)) := by
    intro j k hjk
    obtain ⟨v, hv, hvj⟩ := hindex j
    obtain ⟨w, hw, hwk⟩ := hindex k
    have hsame : (index j).toNat = (index k).toNat := Fin.mk.inj hjk
    rw [hsame, hw] at hv
    obtain rfl := Option.some.inj hv
    have heq : corners.eraseDups[j] == corners.eraseDups[k] :=
      BEq.trans (BEq.symm hvj) hwk
    by_contra hne
    rcases lt_or_gt_of_ne (Fin.val_ne_of_ne hne) with hlt | hlt
    · exact List.pairwise_iff_getElem.mp (Lib.pairwise_eraseDups corners) j k _ _ hlt heq
    · exact List.pairwise_iff_getElem.mp (Lib.pairwise_eraseDups corners) k j _ _ hlt
        (BEq.symm heq)
  simpa using Fintype.card_le_of_injective _ hinj

theorem deduplicated_of_length_le (hlength : corners.eraseDups.length ≤ 2 ^ 32) :
    Deduplicated corners (addCorners corners).vertices (addCorners corners).indices := by
  have hloaded := addCorners_loaded corners
  rw [hloaded.vertices, hloaded.indices]
  have hany : ∀ c ∈ corners, corners.any (· == c) :=
    fun c hc => List.any_eq_true.mpr ⟨c, hc, BEq.rfl⟩
  -- no place is too large for an index
  have hindex : ∀ c ∈ corners,
      (UInt32.ofNat (Lib.number corners c)).toNat = Lib.number corners c := fun c hc =>
    UInt32.toNat_ofNat_of_lt' ((Lib.number_lt (hany c hc)).trans_le hlength)
  constructor
  · rw [List.length_map]
  · intro index hindices
    obtain ⟨c, hc, rfl⟩ := List.mem_map.mp hindices
    rw [hindex c hc]
    exact Lib.number_lt (hany c hc)
  · intro i index corner hi hcorner
    rw [List.getElem?_map, hcorner, Option.map_some] at hi
    obtain rfl := Option.some.inj hi
    have hc := List.mem_of_getElem? hcorner
    rw [hindex corner hc]
    exact Lib.exists_getElem_number (hany corner hc)
  · exact Lib.pairwise_eraseDups corners
  · intro k hk
    have hc := Lib.mem_of_mem_eraseDups (List.getElem_mem hk)
    refine ⟨_, List.mem_map_of_mem hc, ?_⟩
    rw [hindex _ hc, Lib.number_getElem hk]

/-- **Mesh vertex de-duplication.** For every list of corners, the buffers have each vertex
once and give each corner its own if and only if no more than `2 ^ 32` vertices are
distinct. -/
theorem deduplicated_iff (corners : List V) :
    Deduplicated corners (addCorners corners).vertices (addCorners corners).indices ↔
      corners.eraseDups.length ≤ 2 ^ 32 :=
  ⟨Deduplicated.length_le, deduplicated_of_length_le⟩

/-- A strip of three triangles has five vertices. -/
theorem deduplicated_iff_strip :
    Deduplicated [0, 1, 2, 2, 1, 3, 2, 3, 4] (addCorners [0, 1, 2, 2, 1, 3, 2, 3, 4]).vertices
        (addCorners [0, 1, 2, 2, 1, 3, 2, 3, 4]).indices :=
  (deduplicated_iff _).mpr (by decide)

/-- One of 65536 positions, with one of as many normals as there are rows; all of the
components are exact as floats. -/
def gridVertex (i : Nat) : Vertex Nat where
  pos := (i % 65536, 0, 0)
  color := (1, 1, 1, 1)
  texCoord := (0, 0)
  normal := (i / 65536, 0, 1)
  tangent := (0, 0, 0)

theorem gridVertex_injective : gridVertex.Injective := by
  intro i j h
  obtain ⟨hcolumn, hrow⟩ : i % 65536 = j % 65536 ∧ i / 65536 = j / 65536 := by
    have hpos := congrArg Vertex.pos h
    have hnormal := congrArg Vertex.normal h
    simp only [gridVertex, Prod.mk.injEq] at hpos hnormal
    exact ⟨hpos.1, hnormal.1⟩
  rw [← Nat.div_add_mod i 65536, hcolumn, hrow, Nat.div_add_mod]

/-- One vertex more than can be numbered: the last one gets the index of the first. -/
theorem deduplicated_overflow :
    ¬ Deduplicated ((List.range (2 ^ 32 + 1)).map gridVertex)
      (addCorners ((List.range (2 ^ 32 + 1)).map gridVertex)).vertices
      (addCorners ((List.range (2 ^ 32 + 1)).map gridVertex)).indices := by
  have hdistinct : ((List.range (2 ^ 32 + 1)).map gridVertex).Pairwise fun v w => ¬ v == w :=
    (List.Nodup.map gridVertex_injective List.nodup_range).imp fun hne heq =>
      hne (eq_of_beq heq)
  intro h
  have hlength := h.length_le
  rw [Lib.eraseDups_eq_self hdistinct, List.length_map, List.length_range] at hlength
  exact Nat.not_succ_le_self _ hlength

end Maple.MeshLoader
