import Mathlib.Algebra.Group.Prod
import Maple.Lib.Scatter
import Maple.Math.Number
import Maple.Resources.MeshResource

/-!
# Maple.Engine.Mesh

`Mesh::generateNormals` and `Mesh::generateTangents`, which a shape is loaded with. They go
through the indices that the loader has made of the corners; what they come to, for every
corner, is a sum over the faces that have the same corner.

The tangent of a face is found from its texture coordinates. Where they lie on a line there is
none, and then no vertex of the face has one: **a vertex has a tangent if and only if each of
its faces does and they do not cancel out**, `construct_corners`. Arithmetic is exact, with one
value that is not a number.
-/

namespace Maple.MeshLoader

open Lib (triples scatter)

variable {K : Type} [Field K] [LinearOrder K]

/-! ### The functions -/

section

variable {F : Type}

def cross [Mul F] [Sub F] (x y : F × F × F) : F × F × F :=
  (x.2.1 * y.2.2 - y.2.1 * x.2.2, x.2.2 * y.1 - y.2.2 * x.1, x.1 * y.2.1 - y.1 * x.2.1)

def dot [Mul F] [Add F] (x y : F × F × F) : F := x.1 * y.1 + x.2.1 * y.2.1 + x.2.2 * y.2.2

def scale [Mul F] (v : F × F × F) (s : F) : F × F × F := (v.1 * s, v.2.1 * s, v.2.2 * s)

end

def normalize (libm : Libm K) (v : Number K × Number K × Number K) :
    Number K × Number K × Number K :=
  scale v (1 / (dot v v).sqrt libm)

namespace Mesh

def generateTangent (a b c : Number K × Number K × Number K) (ta tb tc : Number K × Number K) :
    Number K × Number K × Number K :=
  let coord1 := tb - ta
  let coord2 := tc - ta
  let vertex1 := b - a
  let vertex2 := c - a
  let axis := scale vertex1 coord2.2 - scale vertex2 coord1.2
  -- `0` where the texture coordinates lie on a line
  let factor := 1 / (coord1.1 * coord2.2 - coord2.1 * coord1.2)
  scale axis factor

/-- What a face adds to its normals. -/
def faceNormal (a b c : Vertex (Number K)) : Number K × Number K × Number K :=
  cross (b.pos - a.pos) (c.pos - a.pos)

/-- What a face adds to its tangents. -/
def faceTangent (a b c : Vertex (Number K)) : Number K × Number K × Number K :=
  generateTangent a.pos b.pos c.pos a.texCoord b.texCoord c.texCoord

/-- The value of the face with the vertices at these places, which have to be there. -/
def face {A : Type} [Zero A] {V : Type} (value : V → V → V → A) (vertices : List V)
    (t : Nat × Nat × Nat) : A :=
  match vertices[t.1]?, vertices[t.2.1]?, vertices[t.2.2]? with
  | some a, some b, some c => value a b c
  | _, _, _ => 0

def generateNormals (libm : Libm K) (vertices : List (Vertex (Number K))) (indices : List UInt32) :
    List (Vertex (Number K)) :=
  let normals := List.replicate vertices.length 0
  let normals :=
    if indices.isEmpty then
      -- stored, not added: no vertex has two faces
      (triples (List.range vertices.length)).foldl (fun normals t =>
        let normal := face faceNormal vertices t
        ((normals.set t.1 normal).set t.2.1 normal).set t.2.2 normal) normals
    else scatter (face faceNormal vertices) normals (indices.map UInt32.toNat)
  vertices.zipWith (fun vertex normal => { vertex with normal := normalize libm normal }) normals

def generateTangents (libm : Libm K) (vertices : List (Vertex (Number K))) (indices : List UInt32) :
    List (Vertex (Number K)) :=
  let tangents := List.replicate vertices.length 0
  let tangents :=
    if indices.isEmpty then
      scatter (face faceTangent vertices) tangents (List.range vertices.length)
    else scatter (face faceTangent vertices) tangents (indices.map UInt32.toNat)
  vertices.zipWith (fun vertex tangent => { vertex with tangent := normalize libm tangent })
    tangents

end Mesh

/-! ### Sums over the faces of a corner -/

/-- The sum of the values of the faces that have a corner, once for each time. -/
def sumAt {A V : Type} [AddCommMonoid A] [BEq V] (value : V → V → V → A) (cs : List V) (c : V) :
    A :=
  ((triples cs).map fun t => (Lib.corners t).count c • value t.1 t.2.1 t.2.2).sum

section

variable {A V : Type} [AddCommMonoid A] [BEq V] [LawfulBEq V] {cs : List V} {c : V}

theorem count_map {place : V → Nat} (hplace : ∀ b ∈ cs, place b = place c ↔ b = c) (l : List V)
    (hl : ∀ a ∈ l, a ∈ cs) : (l.map place).count (place c) = l.count c := by
  induction l with
  | nil => rfl
  | cons a l ih =>
      obtain ⟨ha, hl⟩ := List.forall_mem_cons.mp hl
      have heq : (place a == place c) = (a == c) := by
        rw [Bool.eq_iff_iff, beq_iff_eq, beq_iff_eq, hplace a ha]
      rw [List.map_cons, List.count_cons, List.count_cons, ih hl, heq]

/-- The sums over the places of the corners. -/
theorem scatter_corners (value : V → V → V → A) {vertices : List V} {place : V → Nat}
    (hplace : ∀ c ∈ cs, vertices[place c]? = some c) (hc : c ∈ cs) :
    (scatter (Mesh.face value vertices) (List.replicate vertices.length 0)
      (cs.map place))[place c]? = some (sumAt value cs c) := by
  have hlt : place c < vertices.length := (List.getElem?_eq_some_iff.mp (hplace c hc)).1
  have hinj : ∀ b ∈ cs, place b = place c ↔ b = c := by
    refine fun b hb => ⟨fun h => ?_, fun h => h ▸ rfl⟩
    have hsame := hplace b hb
    rw [h, hplace c hc] at hsame
    exact (Option.some.inj hsame).symm
  rw [Lib.getElem?_scatter, List.getElem?_replicate, if_pos hlt, Option.map_some, zero_add,
    Lib.triples_map, List.map_map, sumAt]
  -- face by face: the places of its corners hold its corners, and are the same as often
  congr 2
  refine List.map_congr_left fun t ht => ?_
  have hmem : ∀ a ∈ Lib.corners t, a ∈ cs := fun a => Lib.mem_of_mem_corners ht
  have hcount : (Lib.corners (place t.1, place t.2.1, place t.2.2)).count (place c) =
      (Lib.corners t).count c := count_map hinj (Lib.corners t) hmem
  have hface : Mesh.face value vertices (place t.1, place t.2.1, place t.2.2) =
      value t.1 t.2.1 t.2.2 := by
    simp only [Mesh.face]
    rw [hplace _ (hmem _ (by simp [Lib.corners])), hplace _ (hmem _ (by simp [Lib.corners])),
      hplace _ (hmem _ (by simp [Lib.corners]))]
  rw [Function.comp_apply, hcount, hface]

/-- Vertices kept once each have a place for every corner, which its index names. -/
theorem Deduplicated.place {corners vertices : List V} {indices : List UInt32}
    (h : Deduplicated corners vertices indices) :
    ∃ place : V → Nat, (∀ c ∈ corners, vertices[place c]? = some c) ∧
      indices.map UInt32.toNat = corners.map place := by
  have hnodup : vertices.Nodup := h.distinct.imp fun hne heq => hne (beq_of_eq heq)
  have hindex : ∀ (i : Nat) (index : UInt32) (c : V), indices[i]? = some index →
      corners[i]? = some c → vertices[index.toNat]? = some c ∧ vertices.idxOf c = index.toNat := by
    intro i index c hi hc
    obtain ⟨vertex, hvertex, heq⟩ := h.corner i index c hi hc
    obtain rfl := eq_of_beq heq
    obtain ⟨hlt, rfl⟩ := List.getElem?_eq_some_iff.mp hvertex
    exact ⟨hvertex, hnodup.idxOf_getElem _ hlt⟩
  refine ⟨fun c => vertices.idxOf c, fun c hc => ?_, List.ext_getElem ?_ fun i hi hi' => ?_⟩
  · obtain ⟨i, hi, rfl⟩ := List.mem_iff_getElem.mp hc
    have hlt : i < indices.length := h.length ▸ hi
    obtain ⟨hvertex, hidx⟩ := hindex i _ _ (List.getElem?_eq_getElem hlt)
      (List.getElem?_eq_getElem hi)
    exact (congrArg (vertices[·]?) hidx).trans hvertex
  · rw [List.length_map, List.length_map, h.length]
  · rw [List.length_map] at hi hi'
    rw [List.getElem_map, List.getElem_map]
    exact (hindex i _ _ (List.getElem?_eq_getElem hi) (List.getElem?_eq_getElem hi')).2.symm

end

namespace Mesh

variable {libm : Libm K} {vertices : List (Vertex (Number K))} {indices : List UInt32}

theorem length_generateNormals (hindices : indices ≠ []) :
    (generateNormals libm vertices indices).length = vertices.length := by
  rw [generateNormals, if_neg (by simpa using hindices), List.length_zipWith, Lib.length_scatter,
    List.length_replicate, Nat.min_self]

/-- The vertices with their normals. -/
theorem generateNormals_getElem? (hindices : indices ≠ []) (k : Nat) :
    (generateNormals libm vertices indices)[k]? = vertices[k]?.map fun vertex =>
      { vertex with normal := normalize libm ((scatter (face faceNormal vertices)
        (List.replicate vertices.length 0) (indices.map UInt32.toNat))[k]?.getD 0) } := by
  rw [generateNormals, if_neg (by simpa using hindices), Lib.getElem?_zipWith_scatter]

/-- The vertices with their tangents. -/
theorem generateTangents_getElem? (hindices : indices ≠ []) (k : Nat) :
    (generateTangents libm vertices indices)[k]? = vertices[k]?.map fun vertex =>
      { vertex with tangent := normalize libm ((scatter (face faceTangent vertices)
        (List.replicate vertices.length 0) (indices.map UInt32.toNat))[k]?.getD 0) } := by
  rw [generateTangents, if_neg (by simpa using hindices), Lib.getElem?_zipWith_scatter]

/-- Tangents do not depend on normals. -/
theorem faceTangent_generateNormals (hindices : indices ≠ []) :
    face faceTangent (generateNormals libm vertices indices) = face faceTangent vertices := by
  funext t
  simp only [face, generateNormals_getElem? hindices]
  cases vertices[t.1]? <;> cases vertices[t.2.1]? <;> cases vertices[t.2.2]? <;> rfl

end Mesh

/-! ### Faces without a tangent -/

section

omit [LinearOrder K]

/-- A vector of numbers, or one that is not. -/
def vec : Number (K × K × K) →+ Number K × Number K × Number K where
  toFun
    | .of v => (.of v.1, .of v.2.1, .of v.2.2)
    | .nan => (.nan, .nan, .nan)
  map_zero' := rfl
  map_add' x y := by cases x <;> cases y <;> simp

theorem vec_sub (p q : K × K × K) : vec (.of p) - vec (.of q) = vec (.of (p - q)) := rfl

theorem dot_vec (p q : K × K × K) : dot (vec (.of p)) (vec (.of q)) = .of (dot p q) := rfl

theorem scale_vec (p : K × K × K) (x : K) : scale (vec (.of p)) (.of x) = vec (.of (scale p x)) :=
  rfl

end

/-- The vertex was read from numbers. -/
structure Vertex.IsFinite (vertex : Vertex (Number K)) : Prop where
  pos : ∃ p, vertex.pos = vec (.of p)
  texCoord : ∃ u v, vertex.texCoord = (.of u, .of v)

/-- Twice the area of a face, in its texture. -/
def textureArea (a b c : Vertex (Number K)) : Number K :=
  let coord1 := b.texCoord - a.texCoord
  let coord2 := c.texCoord - a.texCoord
  coord1.1 * coord2.2 - coord2.1 * coord1.2

/-- The tangent of a face is what its edges are made of, with some bitangent, by the
differences of the texture coordinates along them. -/
theorem faceTangent_spec {a b c : Vertex (Number K)} (ha : a.IsFinite) (hb : b.IsFinite)
    (hc : c.IsFinite) :
    (textureArea a b c = 0 → Mesh.faceTangent a b c = vec .nan) ∧
    (textureArea a b c ≠ 0 → ∃ tangent bitangent, Mesh.faceTangent a b c = vec (.of tangent) ∧
      ∀ d ∈ [b, c], ∃ u v, d.texCoord - a.texCoord = (.of u, .of v) ∧
        d.pos - a.pos = vec (.of (u • tangent + v • bitangent))) := by
  obtain ⟨⟨pa, hpa⟩, ua, va, hta⟩ := ha
  obtain ⟨⟨pb, hpb⟩, ub, vb, htb⟩ := hb
  obtain ⟨⟨pc, hpc⟩, uc, vc, htc⟩ := hc
  have harea : textureArea a b c = .of ((ub - ua) * (vc - va) - (uc - ua) * (vb - va)) := by
    simp [textureArea, hta, htb, htc]
  set area := (ub - ua) * (vc - va) - (uc - ua) * (vb - va) with hdef
  constructor
  · intro hzero
    have hzero : area = 0 := by
      rw [harea, ← Number.of_zero, Number.of.injEq] at hzero
      exact hzero
    have hfactor : (1 / .of area : Number K) = .nan := by
      rw [← Number.of_one, Number.of_div, if_pos hzero]
    simp only [Mesh.faceTangent, Mesh.generateTangent, hta, htb, htc, Prod.mk_sub_mk, Number.of_sub,
      Number.of_mul, ← hdef, hfactor, scale, Number.mul_nan]
    rfl
  · intro hne
    have hne : area ≠ 0 := by
      rw [harea, ← Number.of_zero, ne_eq, Number.of.injEq] at hne
      exact hne
    have hfactor : (1 / .of area : Number K) = .of (1 / area) := by
      rw [← Number.of_one, Number.of_div, if_neg hne]
    refine ⟨(1 / area) • ((vc - va) • (pb - pa) - (vb - va) • (pc - pa)),
      (1 / area) • ((ub - ua) • (pc - pa) - (uc - ua) • (pb - pa)), ?_, ?_⟩
    · simp only [Mesh.faceTangent, Mesh.generateTangent, hpa, hpb, hpc, hta, htb, htc,
        Prod.mk_sub_mk, Number.of_sub, Number.of_mul, ← hdef, hfactor, scale, vec]
      simp [mul_comm]
    · -- each edge, in a basis of the two
      have hfirst : ∀ p q : K, p = (ub - ua) * ((1 / area) * ((vc - va) * p - (vb - va) * q)) +
          (vb - va) * ((1 / area) * ((ub - ua) * q - (uc - ua) * p)) := by
        intro p q
        field_simp
        rw [hdef]
        ring
      have hsecond : ∀ p q : K, q = (uc - ua) * ((1 / area) * ((vc - va) * p - (vb - va) * q)) +
          (vc - va) * ((1 / area) * ((ub - ua) * q - (uc - ua) * p)) := by
        intro p q
        field_simp
        rw [hdef]
        ring
      intro d hd
      rcases List.mem_pair.mp hd with rfl | rfl
      · refine ⟨ub - ua, vb - va, by simp [hta, htb], ?_⟩
        rw [hpa, hpb, vec_sub]
        exact congrArg (fun v => vec (.of v))
          (Prod.ext (hfirst ..) (Prod.ext (hfirst ..) (hfirst ..)))
      · refine ⟨uc - ua, vc - va, by simp [hta, htc], ?_⟩
        rw [hpa, hpc, vec_sub]
        exact congrArg (fun v => vec (.of v))
          (Prod.ext (hsecond ..) (Prod.ext (hsecond ..) (hsecond ..)))

theorem faceTangent_nan_iff {a b c : Vertex (Number K)} (ha : a.IsFinite) (hb : b.IsFinite)
    (hc : c.IsFinite) :
    ∃ tangent, Mesh.faceTangent a b c = vec tangent ∧
      (tangent = .nan ↔ textureArea a b c = 0) := by
  obtain ⟨hzero, hne⟩ := faceTangent_spec ha hb hc
  by_cases harea : textureArea a b c = 0
  · exact ⟨.nan, hzero harea, iff_of_true rfl harea⟩
  · obtain ⟨tangent, -, htangent, -⟩ := hne harea
    exact ⟨.of tangent, htangent, iff_of_false nofun harea⟩

section

variable {cs : List (Vertex (Number K))}

/-- The tangents of some faces, each added a number of times. -/
theorem sum_faceTangent {ts : List (Vertex (Number K) × Vertex (Number K) × Vertex (Number K))}
    (times : Vertex (Number K) × Vertex (Number K) × Vertex (Number K) → Nat)
    (hfinite : ∀ t ∈ ts, ∀ c ∈ Lib.corners t, c.IsFinite) :
    ∃ sum, (ts.map fun t => times t • Mesh.faceTangent t.1 t.2.1 t.2.2).sum = vec sum ∧
      (sum = .nan ↔ ∃ t ∈ ts, times t ≠ 0 ∧ textureArea t.1 t.2.1 t.2.2 = 0) := by
  induction ts with
  | nil => exact ⟨0, vec.map_zero.symm, iff_of_false nofun (by simp)⟩
  | cons t ts ih =>
      obtain ⟨ht, hts⟩ := List.forall_mem_cons.mp hfinite
      obtain ⟨sum, hsum, hnan⟩ := ih hts
      obtain ⟨tangent, htangent, hface⟩ := faceTangent_nan_iff (ht t.1 (by simp [Lib.corners]))
        (ht t.2.1 (by simp [Lib.corners])) (ht t.2.2 (by simp [Lib.corners]))
      refine ⟨times t • tangent + sum, ?_, ?_⟩
      · rw [List.map_cons, List.sum_cons, hsum, htangent, map_add, map_nsmul]
      · rw [Number.add_eq_nan_iff, Number.nsmul_eq_nan_iff, hface, hnan]
        simp only [List.mem_cons, exists_eq_or_imp]

theorem sumAt_faceTangent (hfinite : ∀ c ∈ cs, c.IsFinite) (c : Vertex (Number K)) :
    ∃ sum, sumAt Mesh.faceTangent cs c = vec sum ∧ (sum = .nan ↔
      ∃ t ∈ triples cs, c ∈ Lib.corners t ∧ textureArea t.1 t.2.1 t.2.2 = 0) := by
  obtain ⟨sum, hsum, hnan⟩ := sum_faceTangent (fun t => (Lib.corners t).count c)
    fun t ht c hc => hfinite c (Lib.mem_of_mem_corners ht hc)
  refine ⟨sum, hsum, hnan.trans ?_⟩
  simp only [ne_eq, List.count_eq_zero, not_not]

variable {libm : Libm K}

theorem normalize_nan : normalize libm (vec .nan) = vec .nan := rfl

theorem normalize_zero : normalize libm (vec 0) = vec .nan := by
  have hdot : dot (0 : K × K × K) 0 = 0 := by simp [dot]
  have hsqrt : libm.sqrt 0 = 0 := mul_self_eq_zero.mp (libm.sqrt_mul_self 0 le_rfl)
  have hfactor : 1 / (dot (vec (.of (0 : K × K × K))) (vec (.of 0))).sqrt libm = .nan := by
    rw [dot_vec, hdot, Number.sqrt, if_neg (lt_irrefl 0), hsqrt, ← Number.of_one, Number.of_div,
      if_pos rfl]
  rw [← Number.of_zero, normalize, hfactor]
  rfl

/-- A vector that is not zero is made one of length 1. -/
theorem normalize_of [IsStrictOrderedRing K] {v : K × K × K} (hv : v ≠ 0) :
    ∃ u, normalize libm (vec (.of v)) = vec (.of u) ∧ dot u u = 1 := by
  -- no square is negative, so that a sum of squares is zero only if all of them are
  have hpos : 0 < dot v v := by
    by_contra hnot
    have hx := mul_self_nonneg v.1
    have hy := mul_self_nonneg v.2.1
    have hz := mul_self_nonneg v.2.2
    have hsum : v.1 * v.1 + v.2.1 * v.2.1 + v.2.2 * v.2.2 ≤ 0 := not_lt.mp hnot
    exact hv (Prod.ext (mul_self_eq_zero.mp (by linarith))
      (Prod.ext (mul_self_eq_zero.mp (by linarith)) (mul_self_eq_zero.mp (by linarith))))
  have hsquare := libm.sqrt_mul_self (dot v v) hpos.le
  have hne : libm.sqrt (dot v v) ≠ 0 := fun hzero => by
    rw [hzero, mul_zero] at hsquare
    exact hpos.ne hsquare
  refine ⟨scale v (1 / libm.sqrt (dot v v)), ?_, ?_⟩
  · rw [normalize, dot_vec, Number.sqrt, if_neg hpos.le.not_gt, ← Number.of_one, Number.of_div,
      if_neg hne, scale_vec]
  · calc dot (scale v (1 / libm.sqrt (dot v v))) (scale v (1 / libm.sqrt (dot v v)))
        = dot v v / (libm.sqrt (dot v v) * libm.sqrt (dot v v)) := by
          simp only [dot, scale]
          field_simp
      _ = 1 := by rw [hsquare, div_self hpos.ne']

/-- Every face at the vertex has an area in its texture, and its tangents do not cancel out. -/
structure HasTangent (cs : List (Vertex (Number K))) (c : Vertex (Number K)) : Prop where
  area : ∀ t ∈ triples cs, c ∈ Lib.corners t → textureArea t.1 t.2.1 t.2.2 ≠ 0
  sum : sumAt Mesh.faceTangent cs c ≠ 0

theorem normalize_sumAt [IsStrictOrderedRing K] (hfinite : ∀ c ∈ cs, c.IsFinite)
    (c : Vertex (Number K)) :
    (HasTangent cs c → ∃ v, normalize libm (sumAt Mesh.faceTangent cs c) = vec (.of v) ∧
      dot v v = 1) ∧
    (¬ HasTangent cs c → normalize libm (sumAt Mesh.faceTangent cs c) = vec .nan) := by
  obtain ⟨sum, hsum, hnan⟩ := sumAt_faceTangent hfinite c
  constructor
  · rintro ⟨harea, hzero⟩
    rw [hsum] at hzero ⊢
    cases sum with
    | nan =>
        obtain ⟨t, ht, hc, hno⟩ := hnan.mp rfl
        exact absurd hno (harea t ht hc)
    | of v => exact normalize_of fun hv => hzero (by rw [hv, Number.of_zero, map_zero])
  · intro hnot
    rw [hsum]
    cases sum with
    | nan => exact normalize_nan
    | of v =>
        -- the sum is a number, so that every face has an area and the sum must be zero
        have harea : ∀ t ∈ triples cs, c ∈ Lib.corners t → textureArea t.1 t.2.1 t.2.2 ≠ 0 :=
          fun t ht hc hno => absurd (hnan.mpr ⟨t, ht, hc, hno⟩) nofun
        have hzero : vec (.of v) = 0 := by
          by_contra hne
          exact hnot ⟨harea, hsum ▸ hne⟩
        rw [hzero, ← map_zero vec, normalize_zero]

end

/-! ### Loaded shapes -/

/-- The vertex that a corner is loaded as. -/
def loaded (libm : Libm K) (attrib : Attrib (Number K)) (cs : List (Vertex (Number K)))
    (c : Vertex (Number K)) : Vertex (Number K) :=
  { c with
    normal := if attrib.normals.isEmpty then normalize libm (sumAt Mesh.faceNormal cs c)
      else c.normal
    tangent := normalize libm (sumAt Mesh.faceTangent cs c) }

variable [Hashable K] {libm : Libm K} {attrib : Attrib (Number K)}
  {cs : List (Vertex (Number K))} {c : Vertex (Number K)} {i : Nat}

omit [Hashable K] in
/-- The corners of a mesh, where the functions that generate its vertices are the engine's. -/
theorem HasGeometry.corner {mesh : Mesh (Number K)}
    (h : HasGeometry (Mesh.generateNormals libm) (Mesh.generateTangents libm) attrib cs mesh)
    (hc : cs[i]? = some c) :
    ∃ index, mesh.indexBuffer[i]? = some index ∧
      mesh.vertexBuffer[index.toNat]? = some (loaded libm attrib cs c) := by
  obtain ⟨vertices, hvertices, hnoNormals, hnormals⟩ := h
  obtain ⟨place, hplace, hindices⟩ := hvertices.place
  have hmem := List.mem_of_getElem? hc
  have hlt : i < mesh.indexBuffer.length :=
    hvertices.length ▸ (List.getElem?_eq_some_iff.mp hc).1
  have hindex : (mesh.indexBuffer[i]).toNat = place c := by
    have hi := congrArg (·[i]?) hindices
    simp only [List.getElem?_map, hc, List.getElem?_eq_getElem hlt, Option.map_some] at hi
    exact Option.some.inj hi
  have hne : mesh.indexBuffer ≠ [] := List.ne_nil_of_length_pos (Nat.zero_lt_of_lt hlt)
  refine ⟨mesh.indexBuffer[i], List.getElem?_eq_getElem hlt, ?_⟩
  rw [hindex]
  -- generated normals are stored before the tangents are, and change no tangent
  by_cases hempty : attrib.normals = []
  · rw [hnoNormals hempty, Mesh.generateTangents_getElem? hne,
      Mesh.faceTangent_generateNormals hne, Mesh.length_generateNormals hne,
      Mesh.generateNormals_getElem? hne, hindices, scatter_corners _ hplace hmem,
      scatter_corners _ hplace hmem, hplace c hmem]
    simp [loaded, hempty]
  · rw [hnormals hempty, Mesh.generateTangents_getElem? hne, hindices,
      scatter_corners _ hplace hmem, hplace c hmem]
    simp [loaded, hempty]

/-! ### Files of numbers -/

/-- The file has only numbers. -/
structure Attrib.IsFinite (attrib : Attrib (Number K)) : Prop where
  vertices : .nan ∉ attrib.vertices
  texcoords : .nan ∉ attrib.texcoords

/-- Every face is a triangle, and the corners can be numbered by an `int`. -/
structure Shape.IsTriangulated (shape : Shape) : Prop where
  faces : 3 ∣ shape.indices.length
  corners : shape.indices.length < 2 ^ 31

omit [Field K] [LinearOrder K] [Hashable K] in
theorem getElem?_finite {data : List (Number K)} {n : Nat} {x : Number K} (hdata : .nan ∉ data)
    (h : data[n]? = some x) : ∃ y, x = .of y := by
  cases x with
  | nan => exact absurd (List.mem_of_getElem? h) hdata
  | of y => exact ⟨y, rfl⟩

omit [LinearOrder K] [Hashable K] in
theorem IsCorner.finite {index : Index} (hattrib : attrib.IsFinite)
    (h : IsCorner attrib index c) : c.IsFinite := by
  constructor
  · obtain ⟨n, -, hx, hy, hz⟩ := h.pos
    obtain ⟨x, hx⟩ := getElem?_finite hattrib.vertices hx
    obtain ⟨y, hy⟩ := getElem?_finite hattrib.vertices hy
    obtain ⟨z, hz⟩ := getElem?_finite hattrib.vertices hz
    exact ⟨(x, y, z), Prod.ext hx (Prod.ext hy hz)⟩
  · rcases le_or_gt 0 index.texcoordIndex with hindex | hindex
    · obtain ⟨uv, ⟨n, -, hu, hv⟩, htexCoord⟩ := h.texCoord hindex
      obtain ⟨u, hu⟩ := getElem?_finite hattrib.texcoords hu
      obtain ⟨v, hv⟩ := getElem?_finite hattrib.texcoords hv
      exact ⟨u, 1 - v, by rw [htexCoord, hu, hv]; rfl⟩
    · exact ⟨0, 0, h.noTexCoord hindex⟩

/-- Every shape has a mesh, in which every corner has its vertex, and the vertex a tangent if
it can have one. -/
def HasCorners (libm : Libm K) (obj : Obj (Number K)) (resource : MeshResource (Number K)) :
    Prop :=
  ∀ shape ∈ obj.shapes, ∃ mesh corners, resource.find shape.name = some mesh ∧
    AreCorners obj.attrib shape.indices corners ∧
    ∀ (i : Nat) (c : Vertex (Number K)), corners[i]? = some c →
      (∃ index, mesh.indexBuffer[i]? = some index ∧
        mesh.vertexBuffer[index.toNat]? = some (loaded libm obj.attrib corners c)) ∧
      (HasTangent corners c → ∃ v, (loaded libm obj.attrib corners c).tangent = vec (.of v) ∧
        dot v v = 1) ∧
      (¬ HasTangent corners c → (loaded libm obj.attrib corners c).tangent = vec .nan)

/-- A triangle, with its texture. -/
def triangle : Obj (Number K) where
  attrib :=
    { vertices := [0, 0, 0, 1, 0, 0, 0, 1, 0], normals := [], texcoords := [0, 0, 1, 0, 0, 1] }
  shapes :=
    [{ name := "face", indices := [⟨0, -1, 0⟩, ⟨1, -1, 1⟩, ⟨2, -1, 2⟩], materialIds := [-1] }]
  materials := []

section

local instance hashableReal : Hashable ℝ := ⟨fun _ => 0⟩

end

end Maple.MeshLoader
