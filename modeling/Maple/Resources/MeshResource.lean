import Mathlib.Data.List.Nodup
import Mathlib.Data.List.Perm.Subperm
import Mathlib.Order.Lattice
import Maple.FileSystem.MeshLoader
import Maple.Lib.Fuel
import Maple.Others.StringUtils

/-!
# Maple.Resources.MeshResource

`MeshResource` and the rest of `MeshLoader::load`: from the shapes of an OBJ file to a
table of meshes, which is keyed by their names. **Every shape has a mesh of its own in it
exactly if no two shapes have one name and each can be drawn**: `emplace` drops the mesh of a
name that is taken. A shape without a face, an index past the attributes of the file and a
texture that cannot be read are not checked for, beyond an assertion.

`generateNormals` and `generateTangents` are arithmetic on floats and are parameters, and
the textures of a material are the paths they are loaded from.
-/

namespace Maple.MeshLoader

open Lib (OutOfRange)

/-! ### What `tinyobj` has read -/

/-- `tinyobj::attrib_t`. -/
structure Attrib (F : Type) where
  vertices : List F
  normals : List F
  texcoords : List F

/-- `tinyobj::index_t`. -/
structure Index where
  vertexIndex : Int
  normalIndex : Int
  texcoordIndex : Int

/-- `tinyobj::material_t`. -/
structure Material where
  diffuseTexname : String := ""
  bumpTexname : String := ""
  roughnessTexname : String := ""
  metallicTexname : String := ""
  specularHighlightTexname : String := ""

/-- `tinyobj::shape_t`; a shape of lines or points has no faces in its mesh. -/
structure Shape where
  name : String
  indices : List Index
  materialIds : List Int

/-- What `tinyobj::LoadObj` returns. -/
structure Obj (F : Type) where
  attrib : Attrib F
  shapes : List Shape
  materials : List Material

/-! ### The corners of a shape -/

section

variable {F : Type}

/-- `data[stride * index + offset]`. An `int` below zero is past the end as a `size_t`, and
one from `2 ^ 31` on overflows. -/
def component (data : List F) (stride : Nat) (index : Int) (offset : Nat) : Except OutOfRange F :=
  let position : Int := stride * index + offset
  if 0 ≤ position ∧ position < 2 ^ 31 then
    match data[position.toNat]? with
    | some x => .ok x
    | none => .error (.at position.toNat)
  else .error (.at (position % 2 ^ 64).toNat)

def vec3 (data : List F) (index : Int) : Except OutOfRange (F × F × F) := do
  let x ← component data 3 index 0
  let y ← component data 3 index 1
  let z ← component data 3 index 2
  return (x, y, z)

def vec2 (data : List F) (index : Int) : Except OutOfRange (F × F) := do
  let x ← component data 2 index 0
  let y ← component data 2 index 1
  return (x, y)

/-- An attribute that a corner need not have. -/
def readIf {α : Type} (index : Int) (read : Except OutOfRange α) (zero : α) :
    Except OutOfRange α :=
  if index ≥ 0 then read else .ok zero

/-- The body of the inner loop of `load`, up to the vertex. -/
def corner [Zero F] [One F] [Sub F] (attrib : Attrib F) (index : Index) :
    Except OutOfRange (Vertex F) := do
  let pos ← vec3 attrib.vertices index.vertexIndex
  let normal ← readIf index.normalIndex (vec3 attrib.normals index.normalIndex) (0, 0, 0)
  let uv ← readIf index.texcoordIndex
    ((vec2 attrib.texcoords index.texcoordIndex).map fun uv => (uv.1, 1 - uv.2)) (0, 0)
  return { pos, normal, texCoord := uv, color := (1, 1, 1, 1), tangent := (0, 0, 0) }

/-- `stride` values at the index are in the array. -/
def InRange (data : List F) (stride : Nat) (index : Int) : Prop :=
  0 ≤ index ∧ stride * (index + 1) ≤ data.length ∧ stride * (index + 1) ≤ 2 ^ 31

/-- The indices of a corner are in the attributes. -/
structure Readable (attrib : Attrib F) (index : Index) : Prop where
  vertex : InRange attrib.vertices 3 index.vertexIndex
  normal : 0 ≤ index.normalIndex → InRange attrib.normals 3 index.normalIndex
  texcoord : 0 ≤ index.texcoordIndex → InRange attrib.texcoords 2 index.texcoordIndex

theorem readable_iff {attrib : Attrib F} {index : Index} :
    Readable attrib index ↔ InRange attrib.vertices 3 index.vertexIndex ∧
      (0 ≤ index.normalIndex → InRange attrib.normals 3 index.normalIndex) ∧
      (0 ≤ index.texcoordIndex → InRange attrib.texcoords 2 index.texcoordIndex) :=
  ⟨fun h => ⟨h.vertex, h.normal, h.texcoord⟩, fun h => ⟨h.1, h.2.1, h.2.2⟩⟩

theorem component_ok_iff {data : List F} {stride : Nat} {index : Int} {offset : Nat} :
    (∃ x, component data stride index offset = .ok x) ↔ 0 ≤ (stride * index + offset : Int) ∧
      (stride * index + offset : Int) < data.length ∧ (stride * index + offset : Int) < 2 ^ 31 := by
  unfold component
  by_cases hint : 0 ≤ (stride * index + offset : Int) ∧ (stride * index + offset : Int) < 2 ^ 31
  · rw [if_pos hint]
    cases hdata : data[(stride * index + offset : Int).toNat]? with
    | none =>
        have hlength := List.getElem?_eq_none_iff.mp hdata
        exact iff_of_false nofun (by omega)
    | some x =>
        obtain ⟨hlength, -⟩ := List.getElem?_eq_some_iff.mp hdata
        exact iff_of_true ⟨x, rfl⟩ (by omega)
  · rw [if_neg hint]
    exact iff_of_false nofun (by omega)

theorem vec3_ok_iff {data : List F} {index : Int} :
    (∃ v, vec3 data index = .ok v) ↔ InRange data 3 index := by
  simp only [vec3, Lib.exists_bind_ok, Lib.exists_pure_ok, and_true, exists_and_right,
    component_ok_iff, InRange]
  omega

theorem vec2_ok_iff {data : List F} {index : Int} :
    (∃ v, vec2 data index = .ok v) ↔ InRange data 2 index := by
  simp only [vec2, Lib.exists_bind_ok, Lib.exists_pure_ok, and_true, exists_and_right,
    component_ok_iff, InRange]
  omega

theorem readIf_ok_iff {α : Type} {index : Int} {read : Except OutOfRange α} {zero : α} :
    (∃ a, readIf index read zero = .ok a) ↔ (0 ≤ index → ∃ a, read = .ok a) := by
  unfold readIf
  by_cases hindex : index ≥ 0
  · rw [if_pos hindex, imp_iff_right hindex]
  · rw [if_neg hindex]
    exact iff_of_true ⟨zero, rfl⟩ fun h => absurd h hindex

theorem corner_ok_iff [Zero F] [One F] [Sub F] {attrib : Attrib F} {index : Index} :
    (∃ vertex, corner attrib index = .ok vertex) ↔ Readable attrib index := by
  have hmap : ∀ {o : Except OutOfRange (F × F)} {f : F × F → F × F},
      (∃ b, o.map f = .ok b) ↔ ∃ b, o = .ok b := by
    intro o f
    cases o with
    | error e => exact iff_of_false nofun nofun
    | ok a => exact iff_of_true ⟨f a, rfl⟩ ⟨a, rfl⟩
  simp only [corner, Lib.exists_bind_ok, Lib.exists_pure_ok, and_true, exists_and_right,
    readIf_ok_iff, hmap, vec3_ok_iff, vec2_ok_iff, readable_iff]

/-- The three values of an attribute at an index. -/
def IsVec3 (data : List F) (index : Int) (v : F × F × F) : Prop :=
  ∃ n : Nat, index = n ∧ data[3 * n]? = some v.1 ∧ data[3 * n + 1]? = some v.2.1 ∧
    data[3 * n + 2]? = some v.2.2

def IsVec2 (data : List F) (index : Int) (v : F × F) : Prop :=
  ∃ n : Nat, index = n ∧ data[2 * n]? = some v.1 ∧ data[2 * n + 1]? = some v.2

/-- The vertex is the one that a corner names; the image of a texture begins at its foot. -/
structure IsCorner [Zero F] [One F] [Sub F] (attrib : Attrib F) (index : Index)
    (vertex : Vertex F) : Prop where
  pos : IsVec3 attrib.vertices index.vertexIndex vertex.pos
  normal : 0 ≤ index.normalIndex → IsVec3 attrib.normals index.normalIndex vertex.normal
  noNormal : index.normalIndex < 0 → vertex.normal = (0, 0, 0)
  texCoord : 0 ≤ index.texcoordIndex → ∃ uv, IsVec2 attrib.texcoords index.texcoordIndex uv ∧
    vertex.texCoord = (uv.1, 1 - uv.2)
  noTexCoord : index.texcoordIndex < 0 → vertex.texCoord = (0, 0)
  color : vertex.color = (1, 1, 1, 1)
  tangent : vertex.tangent = (0, 0, 0)

theorem component_ok {data : List F} {stride offset n : Nat} {x : F}
    (h : component data stride n offset = .ok x) : data[stride * n + offset]? = some x := by
  simp only [component] at h
  split at h
  next =>
      split at h
      next y hy =>
          obtain rfl := Except.ok.inj h
          exact hy
      next => exact nomatch h
  next => exact nomatch h

theorem vec3_ok {data : List F} {index : Int} {v : F × F × F} (h : vec3 data index = .ok v) :
    IsVec3 data index v := by
  obtain ⟨hindex, -⟩ : InRange data 3 index := vec3_ok_iff.mp ⟨v, h⟩
  obtain ⟨x, hx, h⟩ := Lib.bind_eq_ok (h : Except.bind _ _ = _)
  obtain ⟨y, hy, h⟩ := Lib.bind_eq_ok (h : Except.bind _ _ = _)
  obtain ⟨z, hz, h⟩ := Lib.bind_eq_ok (h : Except.bind _ _ = _)
  obtain rfl := Except.ok.inj h
  lift index to Nat using hindex with n
  exact ⟨n, rfl, component_ok hx, component_ok hy, component_ok hz⟩

theorem vec2_ok {data : List F} {index : Int} {v : F × F} (h : vec2 data index = .ok v) :
    IsVec2 data index v := by
  obtain ⟨hindex, -⟩ : InRange data 2 index := vec2_ok_iff.mp ⟨v, h⟩
  obtain ⟨x, hx, h⟩ := Lib.bind_eq_ok (h : Except.bind _ _ = _)
  obtain ⟨y, hy, h⟩ := Lib.bind_eq_ok (h : Except.bind _ _ = _)
  obtain rfl := Except.ok.inj h
  lift index to Nat using hindex with n
  exact ⟨n, rfl, component_ok hx, component_ok hy⟩

theorem readIf_ok {α : Type} {index : Int} {read : Except OutOfRange α} {zero a : α}
    (h : readIf index read zero = .ok a) :
    (0 ≤ index → read = .ok a) ∧ (index < 0 → a = zero) := by
  unfold readIf at h
  split at h
  next hindex => exact ⟨fun _ => h, fun hneg => absurd hindex (not_le.mpr hneg)⟩
  next hindex => exact ⟨fun hpos => absurd hpos hindex, fun _ => (Except.ok.inj h).symm⟩

/-- What is read of a corner is its vertex. -/
theorem corner_ok [Zero F] [One F] [Sub F] {attrib : Attrib F} {index : Index}
    {vertex : Vertex F} (h : corner attrib index = .ok vertex) : IsCorner attrib index vertex := by
  obtain ⟨pos, hpos, h⟩ := Lib.bind_eq_ok (h : Except.bind _ _ = _)
  obtain ⟨normal, hnormal, h⟩ := Lib.bind_eq_ok (h : Except.bind _ _ = _)
  obtain ⟨uv, huv, h⟩ := Lib.bind_eq_ok (h : Except.bind _ _ = _)
  obtain rfl := Except.ok.inj h
  obtain ⟨hnormal, hnoNormal⟩ := readIf_ok hnormal
  obtain ⟨huv, hnoTexCoord⟩ := readIf_ok huv
  refine ⟨vec3_ok hpos, fun h => vec3_ok (hnormal h), hnoNormal, fun h => ?_, hnoTexCoord, rfl, rfl⟩
  obtain ⟨v, hv, rfl⟩ := Lib.map_eq_ok (huv h)
  exact ⟨v, vec2_ok hv, rfl⟩

theorem IsVec3.unique {data : List F} {index : Int} {v w : F × F × F} (hv : IsVec3 data index v)
    (hw : IsVec3 data index w) : v = w := by
  obtain ⟨n, rfl, hx, hy, hz⟩ := hv
  obtain ⟨m, heq, hx', hy', hz'⟩ := hw
  obtain rfl := Int.ofNat.inj heq
  exact Prod.ext (Option.some.inj (hx.symm.trans hx')) (Prod.ext
    (Option.some.inj (hy.symm.trans hy')) (Option.some.inj (hz.symm.trans hz')))

theorem IsVec2.unique {data : List F} {index : Int} {v w : F × F} (hv : IsVec2 data index v)
    (hw : IsVec2 data index w) : v = w := by
  obtain ⟨n, rfl, hx, hy⟩ := hv
  obtain ⟨m, heq, hx', hy'⟩ := hw
  obtain rfl := Int.ofNat.inj heq
  exact Prod.ext (Option.some.inj (hx.symm.trans hx')) (Option.some.inj (hy.symm.trans hy'))

/-- A corner names one vertex. -/
theorem IsCorner.unique [Zero F] [One F] [Sub F] {attrib : Attrib F} {index : Index}
    {vertex other : Vertex F} (h : IsCorner attrib index vertex)
    (hother : IsCorner attrib index other) : vertex = other := by
  have hpos := h.pos.unique hother.pos
  have hnormal : vertex.normal = other.normal := by
    rcases le_or_gt 0 index.normalIndex with hindex | hindex
    · exact (h.normal hindex).unique (hother.normal hindex)
    · rw [h.noNormal hindex, hother.noNormal hindex]
  have htexCoord : vertex.texCoord = other.texCoord := by
    rcases le_or_gt 0 index.texcoordIndex with hindex | hindex
    · obtain ⟨uv, huv, heq⟩ := h.texCoord hindex
      obtain ⟨uv', huv', heq'⟩ := hother.texCoord hindex
      rw [heq, heq', huv.unique huv']
    · rw [h.noTexCoord hindex, hother.noTexCoord hindex]
  have hcolor := h.color.trans hother.color.symm
  have htangent := h.tangent.trans hother.tangent.symm
  cases vertex
  cases other
  simp_all only

/-- The vertices of the corners of a shape. -/
abbrev AreCorners [Zero F] [One F] [Sub F] (attrib : Attrib F) (indices : List Index)
    (corners : List (Vertex F)) : Prop :=
  List.Forall₂ (IsCorner attrib) indices corners

section

variable [Zero F] [One F] [Sub F] {attrib : Attrib F} {indices : List Index}
  {corners others : List (Vertex F)}

theorem areCorners_of_mapM (h : indices.mapM (corner attrib) = .ok corners) :
    AreCorners attrib indices corners :=
  (Lib.forall₂_of_mapM h).imp fun _ _ => corner_ok

theorem AreCorners.unique (h : AreCorners attrib indices corners)
    (hothers : AreCorners attrib indices others) : corners = others :=
  have hunique : Relator.RightUnique (IsCorner attrib) := fun _ _ _ => IsCorner.unique
  List.right_unique_forall₂' hunique h hothers

end

end

/-! ### The textures of a material -/

/-- Why `load` ends early. -/
inductive LoadFault
  | outOfRange (access : OutOfRange)
  /-- The assertion of `ImageLoader::loadAsset`. -/
  | unreadable (fileName : String)

structure Texture2D where
  fileName : String
  deriving DecidableEq

/-- `PBRMataterialTextures`, without the two that `load` does not set. -/
@[ext]
structure PBRMataterialTextures where
  albedo : Option Texture2D := none
  normal : Option Texture2D := none
  metallic : Option Texture2D := none
  roughness : Option Texture2D := none

section

-- whether `Texture2D::create` gets a texture for a path: `TextureCache` has one, or the image
-- there can be decoded
variable (readable : String → Bool)

/-- `loadMaterialTextures`. `texturesLoaded` is searched by path. -/
def loadMaterialTextures (name directory : String) :
    StateT (List Texture2D) (Except LoadFault) Texture2D := fun texturesLoaded =>
  let path := directory ++ "/" ++ name
  match texturesLoaded.find? fun texture => texture.fileName = path with
  | some texture => .ok (texture, texturesLoaded)
  | none =>
    if readable path then .ok (⟨path⟩, texturesLoaded ++ [⟨path⟩])
    else .error (.unreadable path)

/-- A texture that the material may not name. -/
def loadTexname (directory name : String) :
    StateT (List Texture2D) (Except LoadFault) (Option Texture2D) :=
  if name.length > 0 then do
    let texture ← loadMaterialTextures readable name directory
    return some texture
  else return none

/-- The textures of a material; a specular highlight replaces the metallic one. -/
def loadTextures (directory : String) (mp : Material) :
    StateT (List Texture2D) (Except LoadFault) PBRMataterialTextures := do
  let albedo ← loadTexname readable directory mp.diffuseTexname
  let normal ← loadTexname readable directory mp.bumpTexname
  let roughness ← loadTexname readable directory mp.roughnessTexname
  let metallic ← loadTexname readable directory mp.metallicTexname
  let specular ← loadTexname readable directory mp.specularHighlightTexname
  return { albedo, normal, roughness, metallic := specular.or metallic }

/-- The texture of this path has been loaded, or can be. -/
def Available (texturesCache : List Texture2D) (path : String) : Prop :=
  ⟨path⟩ ∈ texturesCache ∨ readable path

end

/-- The path of a texture that the material may not name. -/
def pathTexture (directory name : String) : Option Texture2D :=
  if name.length > 0 then some ⟨directory ++ "/" ++ name⟩ else none

/-- The textures of a material, by their paths. -/
def materialTextures (directory : String) (mp : Material) : PBRMataterialTextures where
  albedo := pathTexture directory mp.diffuseTexname
  normal := pathTexture directory mp.bumpTexname
  metallic := (pathTexture directory mp.specularHighlightTexname).or
    (pathTexture directory mp.metallicTexname)
  roughness := pathTexture directory mp.roughnessTexname

/-- The names of the textures that `load` asks for. -/
def Material.texnames (mp : Material) : List String :=
  [mp.diffuseTexname, mp.bumpTexname, mp.roughnessTexname, mp.metallicTexname,
    mp.specularHighlightTexname]

section

variable {readable : String → Bool} {directory name : String}
  {texturesCache texturesCache' : List Texture2D}

/-- A texture that is loaded has the path asked for, and no path becomes available by it. -/
theorem loadMaterialTextures_ok {texture : Texture2D}
    (h : loadMaterialTextures readable name directory texturesCache =
      .ok (texture, texturesCache')) :
    texture = ⟨directory ++ "/" ++ name⟩ ∧
      Available readable texturesCache (directory ++ "/" ++ name) ∧
      Available readable texturesCache' = Available readable texturesCache := by
  simp only [loadMaterialTextures] at h
  split at h
  next found hfind =>
      obtain ⟨rfl, rfl⟩ := Prod.mk.inj (Except.ok.inj h)
      have hpath := List.find?_some hfind
      have hpath : found = ⟨directory ++ "/" ++ name⟩ :=
        congrArg Texture2D.mk (of_decide_eq_true hpath)
      exact ⟨hpath, .inl (hpath ▸ List.mem_of_find?_eq_some hfind), rfl⟩
  next =>
      split at h
      next hreadable =>
          obtain ⟨rfl, rfl⟩ := Prod.mk.inj (Except.ok.inj h)
          refine ⟨rfl, .inr hreadable, funext fun path => propext ?_⟩
          simp only [Available, List.mem_append, List.mem_singleton]
          constructor
          · rintro ((hmem | heq) | hpath)
            · exact .inl hmem
            · exact .inr (Texture2D.mk.inj heq ▸ hreadable)
            · exact .inr hpath
          · exact Or.imp_left .inl
      next => exact nomatch h

theorem loadMaterialTextures_total
    (h : Available readable texturesCache (directory ++ "/" ++ name)) :
    ∃ r, loadMaterialTextures readable name directory texturesCache = .ok r := by
  simp only [loadMaterialTextures]
  split
  next => exact ⟨_, rfl⟩
  next hfind =>
      rw [if_pos]
      · exact ⟨_, rfl⟩
      · exact h.resolve_left fun hmem =>
          absurd (decide_eq_true rfl) (List.find?_eq_none.mp hfind _ hmem)

theorem loadTexname_ok {texture : Option Texture2D}
    (h : loadTexname readable directory name texturesCache = .ok (texture, texturesCache')) :
    texture = pathTexture directory name ∧
      (name.length > 0 → Available readable texturesCache (directory ++ "/" ++ name)) ∧
      Available readable texturesCache' = Available readable texturesCache := by
  unfold loadTexname at h
  unfold pathTexture
  split at h
  next hname =>
      obtain ⟨loaded, cache, hloaded, h⟩ := Lib.stateT_bind_eq_ok h
      obtain ⟨rfl, rfl⟩ := Prod.mk.inj (Except.ok.inj h)
      obtain ⟨rfl, havailable, hsame⟩ := loadMaterialTextures_ok hloaded
      exact ⟨(if_pos hname).symm, fun _ => havailable, hsame⟩
  next hname =>
      obtain ⟨rfl, rfl⟩ := Prod.mk.inj (Except.ok.inj h)
      exact ⟨(if_neg hname).symm, fun h => absurd h hname, rfl⟩

theorem loadTexname_total
    (h : name.length > 0 → Available readable texturesCache (directory ++ "/" ++ name)) :
    ∃ texture texturesCache', loadTexname readable directory name texturesCache =
      .ok (texture, texturesCache') := by
  unfold loadTexname
  split
  next hname =>
      obtain ⟨⟨texture, cache⟩, hr⟩ := loadMaterialTextures_total (h hname)
      refine ⟨some texture, cache, ?_⟩
      change Except.bind _ _ = _
      rw [hr]
      rfl
  next => exact ⟨_, _, rfl⟩

/-- Whatever is in the cache, the textures are those of the paths. -/
theorem loadTextures_ok {mp : Material} {textures : PBRMataterialTextures}
    (h : loadTextures readable directory mp texturesCache = .ok (textures, texturesCache')) :
    textures = materialTextures directory mp ∧
      (∀ name ∈ mp.texnames, name.length > 0 →
        Available readable texturesCache (directory ++ "/" ++ name)) ∧
      Available readable texturesCache' = Available readable texturesCache := by
  obtain ⟨albedo, cache₁, halbedo, h⟩ := Lib.stateT_bind_eq_ok h
  obtain ⟨normal, cache₂, hnormal, h⟩ := Lib.stateT_bind_eq_ok h
  obtain ⟨roughness, cache₃, hroughness, h⟩ := Lib.stateT_bind_eq_ok h
  obtain ⟨metallic, cache₄, hmetallic, h⟩ := Lib.stateT_bind_eq_ok h
  obtain ⟨specular, cache₅, hspecular, h⟩ := Lib.stateT_bind_eq_ok h
  obtain ⟨rfl, rfl⟩ := Prod.mk.inj (Except.ok.inj h)
  obtain ⟨rfl, ha, hsame⟩ := loadTexname_ok halbedo
  obtain ⟨rfl, hn, hsame₂⟩ := loadTexname_ok hnormal
  obtain ⟨rfl, hr, hsame₃⟩ := loadTexname_ok hroughness
  obtain ⟨rfl, hm, hsame₄⟩ := loadTexname_ok hmetallic
  obtain ⟨rfl, hs, hsame₅⟩ := loadTexname_ok hspecular
  -- what is available to one of them is available to the first
  rw [hsame] at hn hsame₂
  rw [hsame₂] at hr hsame₃
  rw [hsame₃] at hm hsame₄
  rw [hsame₄] at hs hsame₅
  refine ⟨rfl, ?_, hsame₅⟩
  simp only [Material.texnames, List.forall_mem_cons]
  exact ⟨ha, hn, hr, hm, hs, nofun⟩

theorem loadTextures_total {mp : Material} (h : ∀ name ∈ mp.texnames, name.length > 0 →
      Available readable texturesCache (directory ++ "/" ++ name)) :
    ∃ r, loadTextures readable directory mp texturesCache = .ok r := by
  simp only [Material.texnames, List.forall_mem_cons] at h
  obtain ⟨ha, hn, hr, hm, hs, -⟩ := h
  obtain ⟨albedo, cache₁, halbedo⟩ := loadTexname_total ha
  have hsame := (loadTexname_ok halbedo).2.2
  rw [← hsame] at hn hr hm hs
  obtain ⟨normal, cache₂, hnormal⟩ := loadTexname_total hn
  have hsame := (loadTexname_ok hnormal).2.2
  rw [← hsame] at hr hm hs
  obtain ⟨roughness, cache₃, hroughness⟩ := loadTexname_total hr
  have hsame := (loadTexname_ok hroughness).2.2
  rw [← hsame] at hm hs
  obtain ⟨metallic, cache₄, hmetallic⟩ := loadTexname_total hm
  have hsame := (loadTexname_ok hmetallic).2.2
  rw [← hsame] at hs
  obtain ⟨specular, cache₅, hspecular⟩ := loadTexname_total hs
  exact Lib.exists_bind_ok.mpr ⟨_, halbedo, Lib.exists_bind_ok.mpr ⟨_, hnormal,
    Lib.exists_bind_ok.mpr ⟨_, hroughness, Lib.exists_bind_ok.mpr ⟨_, hmetallic,
      Lib.exists_bind_ok.mpr ⟨_, hspecular, _, rfl⟩⟩⟩⟩⟩

end

/-! ### The shapes -/

structure Mesh (F : Type) where
  name : String
  vertexBuffer : List (Vertex F)
  indexBuffer : List UInt32
  textures : PBRMataterialTextures

/-- The map that `load` fills, and the global cache of textures. -/
structure State (F : Type) where
  meshes : Std.HashMap String (Mesh F) := ∅
  texturesCache : List Texture2D := []

variable {F : Type} [Zero F] [One F] [Sub F] [BEq F] [Hashable F]
variable (generateNormals generateTangents : List (Vertex F) → List UInt32 → List (Vertex F))
variable (readable : String → Bool)

/-- The vertex buffer of a shape. -/
def finish (attrib : Attrib F) (buffers : Buffers (Vertex F)) : List (Vertex F) :=
  let vertices :=
    if attrib.normals.isEmpty then generateNormals buffers.vertices buffers.indices
    else buffers.vertices
  generateTangents vertices buffers.indices

/-- The textures of the first face's material. -/
def shapeTextures (directory : String) (materials : List Material) (materialIds : List Int)
    (texturesCache : List Texture2D) :
    Except LoadFault (PBRMataterialTextures × List Texture2D) :=
  match materialIds[0]? with
  | none => .error (.outOfRange (.at 0))
  | some id =>
    if id ≥ 0 then
      match materials[id.toNat]? with
      | none => .error (.outOfRange (.at id.toNat))
      | some mp => loadTextures readable directory mp texturesCache
    else .ok ({}, texturesCache)

/-- The body of the outer loop of `load`. -/
def loadShape (directory : String) (obj : Obj F) (state : State F) (shape : Shape) :
    Except LoadFault (State F) := do
  let corners ← (shape.indices.mapM (corner obj.attrib)).mapError .outOfRange
  let buffers := addCorners corners
  let vertices := finish generateNormals generateTangents obj.attrib buffers
  let (textures, texturesCache) ←
    shapeTextures readable directory obj.materials shape.materialIds state.texturesCache
  let mesh : Mesh F :=
    { name := shape.name, vertexBuffer := vertices, indexBuffer := buffers.indices, textures }
  return { meshes := state.meshes.insertIfNew shape.name mesh, texturesCache }

/-- The directory of the file, where its textures are: everything before the last
delimiter. -/
def directoryOf (delimiter : Char) (resolvedPath : String) : String :=
  if delimiter ∈ resolvedPath.toList then
    String.ofList (resolvedPath.toList.reverse.dropWhile (· ≠ delimiter)).tail.reverse
  else resolvedPath

/-- `MeshLoader::load`, once `LoadObj` has succeeded. -/
def load (directory : String) (obj : Obj F) (state : State F) : Except LoadFault (State F) :=
  obj.shapes.foldlM (loadShape generateNormals generateTangents readable directory obj) state

/-! ### What a shape needs -/

/-- The shape has a face, the material of the first one is in the table, the textures it names
can be had, and the indices are in the attributes. -/
structure Loadable (available : String → Prop) (directory : String) (obj : Obj F)
    (shape : Shape) : Prop where
  corners : ∀ index ∈ shape.indices, Readable obj.attrib index
  material : ∃ id, shape.materialIds[0]? = some id ∧ (0 ≤ id →
    ∃ mp, obj.materials[id.toNat]? = some mp ∧
      ∀ name ∈ mp.texnames, name.length > 0 → available (directory ++ "/" ++ name))

/-- The distinct vertices of the shape can be told apart by the values of an index. -/
def Numbered (obj : Obj F) (shape : Shape) : Prop :=
  ∀ corners, AreCorners obj.attrib shape.indices corners → corners.eraseDups.length ≤ 2 ^ 32

omit [Hashable F] in
theorem numbered_of_length_lt {obj : Obj F} {shape : Shape} [EquivBEq (Vertex F)]
    (h : shape.indices.length < 2 ^ 31) : Numbered obj shape := by
  intro corners hcorners
  have hle := Lib.length_eraseDups_le corners
  rw [hcorners.length_eq] at h
  omega

/-- The shape can be loaded, and with it each of its vertices. -/
structure Drawable (available : String → Prop) (directory : String) (obj : Obj F)
    (shape : Shape) : Prop extends Loadable available directory obj shape where
  numbered : Numbered obj shape

/-- The buffers have the vertices of the corners once each, with the normals and tangents
that are generated for them. -/
def HasGeometry (attrib : Attrib F) (corners : List (Vertex F)) (mesh : Mesh F) : Prop :=
  ∃ vertices, Deduplicated corners vertices mesh.indexBuffer ∧
    (attrib.normals = [] → mesh.vertexBuffer =
      generateTangents (generateNormals vertices mesh.indexBuffer) mesh.indexBuffer) ∧
    (attrib.normals ≠ [] → mesh.vertexBuffer = generateTangents vertices mesh.indexBuffer)

/-- The mesh has the geometry and the material of the shape. -/
structure BuiltFrom (directory : String) (obj : Obj F) (shape : Shape) (mesh : Mesh F) : Prop where
  name : mesh.name = shape.name
  geometry : ∃ corners, AreCorners obj.attrib shape.indices corners ∧
    HasGeometry generateNormals generateTangents obj.attrib corners mesh
  material : ∃ id, shape.materialIds[0]? = some id ∧
    (0 ≤ id → ∃ mp, obj.materials[id.toNat]? = some mp ∧
      mesh.textures = materialTextures directory mp) ∧
    (id < 0 → mesh.textures = {})

variable {generateNormals generateTangents readable} {directory : String} {obj : Obj F}
variable {state state' : State F} {shape : Shape}

omit [Zero F] [One F] [Sub F] [BEq F] [Hashable F] in
theorem shapeTextures_spec {materials : List Material} {materialIds : List Int}
    {texturesCache texturesCache' : List Texture2D} {textures : PBRMataterialTextures}
    (h : shapeTextures readable directory materials materialIds texturesCache =
      .ok (textures, texturesCache')) :
    Available readable texturesCache' = Available readable texturesCache ∧
    ∃ id, materialIds[0]? = some id ∧
      (0 ≤ id → ∃ mp, materials[id.toNat]? = some mp ∧
        textures = materialTextures directory mp ∧ ∀ name ∈ mp.texnames, name.length > 0 →
          Available readable texturesCache (directory ++ "/" ++ name)) ∧
      (id < 0 → textures = {}) := by
  unfold shapeTextures at h
  cases hids : materialIds[0]? with
  | none =>
      rw [hids] at h
      exact nomatch h
  | some id =>
      rw [hids] at h
      by_cases hid : 0 ≤ id
      · cases hmp : materials[id.toNat]? with
        | none =>
            simp only [ge_iff_le, if_pos hid, hmp] at h
            exact nomatch h
        | some mp =>
            simp only [ge_iff_le, if_pos hid, hmp] at h
            obtain ⟨htextures, havailable, hsame⟩ := loadTextures_ok h
            exact ⟨hsame, id, rfl, fun _ => ⟨mp, hmp, htextures, havailable⟩,
              fun hneg => absurd hid (not_le.mpr hneg)⟩
      · simp only [ge_iff_le, if_neg hid] at h
        obtain ⟨rfl, rfl⟩ := Prod.mk.inj (Except.ok.inj h)
        exact ⟨rfl, id, rfl, fun hpos => absurd hpos hid, fun _ => rfl⟩

omit [Zero F] [One F] [Sub F] [BEq F] [Hashable F] in
theorem shapeTextures_total {texturesCache : List Texture2D}
    (h : Loadable (Available readable texturesCache) directory obj shape) :
    ∃ r, shapeTextures readable directory obj.materials shape.materialIds texturesCache =
      .ok r := by
  obtain ⟨id, hids, hmaterial⟩ := h.material
  simp only [shapeTextures, hids]
  by_cases hid : id ≥ 0
  · obtain ⟨mp, hmp, htexnames⟩ := hmaterial hid
    rw [if_pos hid, hmp]
    exact loadTextures_total htexnames
  · rw [if_neg hid]
    exact ⟨_, rfl⟩

/-- A turn of the outer loop puts a mesh of the shape in the table, unless its name is
taken. -/
theorem loadShape_ok [EquivBEq (Vertex F)] [LawfulHashable (Vertex F)]
    (h : loadShape generateNormals generateTangents readable directory obj state shape =
      .ok state') :
    Loadable (Available readable state.texturesCache) directory obj shape ∧
      Available readable state'.texturesCache = Available readable state.texturesCache ∧
      ∃ mesh, (Numbered obj shape →
        BuiltFrom generateNormals generateTangents directory obj shape mesh) ∧
        state'.meshes = state.meshes.insertIfNew shape.name mesh := by
  obtain ⟨corners, hcorners, h⟩ := Lib.bind_eq_ok (h : Except.bind _ _ = _)
  obtain ⟨⟨textures, texturesCache⟩, htextures, h⟩ := Lib.bind_eq_ok (h : Except.bind _ _ = _)
  obtain rfl := Except.ok.inj h
  have hcorners := Lib.mapError_eq_ok.mp hcorners
  obtain ⟨hsame, id, hid, hpos, hneg⟩ := shapeTextures_spec htextures
  refine ⟨⟨fun index hindex => ?_, id, hid, fun h => ?_⟩, hsame, _, fun hnumbered => ⟨rfl, ?_, ?_⟩,
    rfl⟩
  · exact corner_ok_iff.mp (Lib.exists_mapM_ok.mp ⟨corners, hcorners⟩ index hindex)
  · obtain ⟨mp, hmp, -, htexnames⟩ := hpos h
    exact ⟨mp, hmp, htexnames⟩
  · have hare := areCorners_of_mapM hcorners
    refine ⟨corners, hare, (addCorners corners).vertices,
      deduplicated_of_length_le (hnumbered corners hare), fun hempty => ?_, fun hne => ?_⟩
    · simp only [finish, hempty, List.isEmpty_nil, if_true]
    · simp only [finish, List.isEmpty_iff, if_neg hne]
  · refine ⟨id, hid, fun h => ?_, hneg⟩
    obtain ⟨mp, hmp, htextures, -⟩ := hpos h
    exact ⟨mp, hmp, htextures⟩

theorem loadShape_total
    (generateNormals generateTangents : List (Vertex F) → List UInt32 → List (Vertex F))
    (hshape : Loadable (Available readable state.texturesCache) directory obj shape) :
    ∃ state', loadShape generateNormals generateTangents readable directory obj state shape =
      .ok state' := by
  obtain ⟨corners, hcorners⟩ := Lib.exists_mapM_ok.mpr fun index hindex =>
    corner_ok_iff.mpr (hshape.corners index hindex)
  obtain ⟨r, hr⟩ := shapeTextures_total hshape
  exact Lib.exists_bind_ok.mpr ⟨corners, Lib.mapError_eq_ok.mpr hcorners,
    Lib.exists_bind_ok.mpr ⟨r, hr, _, rfl⟩⟩

/-! ### All shapes -/

variable {shapes : List Shape} [EquivBEq (Vertex F)] [LawfulHashable (Vertex F)]

theorem loadShapes_total
    (generateNormals generateTangents : List (Vertex F) → List UInt32 → List (Vertex F))
    (hshapes : ∀ shape ∈ shapes,
      Loadable (Available readable state.texturesCache) directory obj shape) :
    ∃ state', shapes.foldlM
      (loadShape generateNormals generateTangents readable directory obj) state = .ok state' := by
  induction shapes generalizing state with
  | nil => exact ⟨state, rfl⟩
  | cons shape shapes ih =>
      obtain ⟨hshape, hshapes⟩ := List.forall_mem_cons.mp hshapes
      obtain ⟨mid, hmid⟩ := loadShape_total generateNormals generateTangents hshape
      rw [Lib.foldlM_cons_ok hmid]
      rw [← (loadShape_ok hmid).2.1] at hshapes
      exact ih hshapes

/-- The shapes can be loaded, their names are the new ones in the table, and what was in it
stays. -/
theorem loadShapes_ok
    (h : shapes.foldlM (loadShape generateNormals generateTangents readable directory obj) state =
      .ok state') :
    (∀ shape ∈ shapes, Loadable (Available readable state.texturesCache) directory obj shape) ∧
      (∀ name ∈ state'.meshes, name ∈ state.meshes ∨ name ∈ shapes.map Shape.name) ∧
      ∀ name ∈ state.meshes, state'.meshes[name]? = state.meshes[name]? := by
  induction shapes generalizing state with
  | nil =>
      obtain rfl := Except.ok.inj h
      exact ⟨nofun, fun name hname => .inl hname, fun name hname => rfl⟩
  | cons shape shapes ih =>
      obtain ⟨mid, hmid, hrest⟩ := Lib.bind_eq_ok (h : Except.bind _ _ = _)
      obtain ⟨hshape, hsame, mesh, -, htable⟩ := loadShape_ok hmid
      obtain ⟨hshapes, hnames, hkept⟩ := ih hrest
      rw [hsame] at hshapes
      rw [htable] at hnames hkept
      refine ⟨List.forall_mem_cons.mpr ⟨hshape, hshapes⟩, fun name hname => ?_,
        fun name hname => ?_⟩
      · rw [List.map_cons, List.mem_cons]
        cases hnames name hname with
        | inl hmem =>
            cases Std.HashMap.mem_insertIfNew.mp hmem with
            | inl heq => exact .inr (.inl (eq_of_beq heq).symm)
            | inr hmem => exact .inl hmem
        | inr hmem => exact .inr (.inr hmem)
      · rw [hkept name (Std.HashMap.mem_insertIfNew.mpr (.inr hname)),
          Std.HashMap.getElem?_insertIfNew, if_neg]
        exact fun hnew => hnew.2 ((eq_of_beq hnew.1).symm ▸ hname)

/-- Shapes with names of their own all get their meshes into the table. -/
theorem loadShapes_built (hnames : (shapes.map Shape.name).Nodup)
    (hnew : ∀ shape ∈ shapes, shape.name ∉ state.meshes)
    (hnumbered : ∀ shape ∈ shapes, Numbered obj shape)
    (h : shapes.foldlM (loadShape generateNormals generateTangents readable directory obj) state =
      .ok state') :
    ∀ shape ∈ shapes, ∃ mesh, state'.meshes[shape.name]? = some mesh ∧
      BuiltFrom generateNormals generateTangents directory obj shape mesh := by
  induction shapes generalizing state with
  | nil => exact nofun
  | cons shape shapes ih =>
      obtain ⟨mid, hmid, hrest⟩ := Lib.bind_eq_ok (h : Except.bind _ _ = _)
      obtain ⟨-, -, mesh, hbuilt, htable⟩ := loadShape_ok hmid
      obtain ⟨hfirst, hothers⟩ := List.nodup_cons.mp hnames
      obtain ⟨hshape, hnumbered⟩ := List.forall_mem_cons.mp hnumbered
      refine List.forall_mem_cons.mpr
        ⟨⟨mesh, ?_, hbuilt hshape⟩, ih hothers (fun other hother => ?_) hnumbered hrest⟩
      · rw [(loadShapes_ok hrest).2.2 shape.name, htable, Std.HashMap.getElem?_insertIfNew, if_pos]
        · exact ⟨BEq.rfl, hnew shape (List.mem_cons_self ..)⟩
        · rw [htable]
          exact Std.HashMap.mem_insertIfNew_self
      · rw [htable, Std.HashMap.mem_insertIfNew]
        intro hmem
        cases hmem with
        | inl heq => exact hfirst (List.mem_map.mpr ⟨other, hother, (eq_of_beq heq).symm⟩)
        | inr hmem => exact hnew other (List.mem_cons_of_mem _ hother) hmem

end Maple.MeshLoader

/-! ### The resource -/

namespace Maple

open MeshLoader

structure MeshResource (F : Type) where
  meshes : Std.HashMap String (Mesh F)
  name : String

namespace MeshResource

variable {F : Type}

/-- `MeshResource::addMesh`. -/
def addMesh (resource : MeshResource F) (name : String) (mesh : Mesh F) : MeshResource F :=
  { resource with meshes := resource.meshes.insertIfNew name mesh }

/-- `MeshResource::find`. -/
def find (resource : MeshResource F) (name : String) : Option (Mesh F) := resource.meshes[name]?

variable [Zero F] [One F] [Sub F] [BEq F] [Hashable F]
variable (generateNormals generateTangents : List (Vertex F) → List UInt32 → List (Vertex F))
variable (readable : String → Bool)

/-- The constructor, from what is read of the file and the textures loaded so far. -/
def construct (delimiter : Char) (name : String) (obj : Obj F) (texturesCache : List Texture2D) :
    Except LoadFault (MeshResource F) :=
  (load generateNormals generateTangents readable (directoryOf delimiter name) obj
    { texturesCache }).map fun state => { meshes := state.meshes, name }

/-- Every shape has a mesh of its own in the table; its meshes are separate objects. -/
def Complete (delimiter : Char) (name : String) (obj : Obj F) (resource : MeshResource F) : Prop :=
  ∃ keys : List String, keys.Nodup ∧ List.Forall₂ (fun key shape => ∃ mesh,
    resource.find key = some mesh ∧ BuiltFrom generateNormals generateTangents
      (directoryOf delimiter name) obj shape mesh) keys obj.shapes

variable {generateNormals generateTangents readable} {delimiter : Char} {name : String}
  {obj : Obj F} {texturesCache : List Texture2D} {resource : MeshResource F}
variable [EquivBEq (Vertex F)] [LawfulHashable (Vertex F)]

/-- There are no more meshes than names. -/
theorem names_nodup
    (h : construct generateNormals generateTangents readable delimiter name obj texturesCache =
      .ok resource)
    (hcomplete : Complete generateNormals generateTangents delimiter name obj resource) :
    (obj.shapes.map Shape.name).Nodup := by
  obtain ⟨state, hload, rfl⟩ := Lib.map_eq_ok h
  obtain ⟨keys, hkeys, hmeshes⟩ := hcomplete
  have hsubset : keys ⊆ obj.shapes.map Shape.name := by
    intro key hkey
    obtain ⟨i, hi, rfl⟩ := List.mem_iff_getElem.mp hkey
    obtain ⟨mesh, hfind, -⟩ := hmeshes.get hi (hmeshes.length_eq ▸ hi)
    have hmem : keys[i] ∈ state.meshes :=
      Std.HashMap.mem_iff_isSome_getElem?.mpr (Option.isSome_of_eq_some hfind)
    exact ((loadShapes_ok hload).2.1 _ hmem).resolve_left Std.HashMap.not_mem_empty
  have hperm := (List.subperm_of_subset hkeys hsubset).perm_of_length_le
    (by rw [List.length_map, hmeshes.length_eq])
  exact hperm.nodup_iff.mp hkeys

omit [Hashable F] [LawfulHashable (Vertex F)] in
/-- A mesh of a shape has an index for each of its vertices. -/
theorem numbered_of_built {directory : String} {shape : Shape} {mesh : Mesh F}
    (h : BuiltFrom generateNormals generateTangents directory obj shape mesh) :
    Numbered obj shape := by
  obtain ⟨corners, hcorners, vertices, hvertices, -⟩ := h.geometry
  intro others hothers
  rw [hothers.unique hcorners]
  exact hvertices.length_le

/-- Two triangles of one square, under the names of two objects. -/
def square (first second : String) : Obj Int where
  attrib := { vertices := [0, 0, 0, 1, 0, 0, 0, 1, 0, 1, 1, 0], normals := [], texcoords := [] }
  shapes :=
    [{ name := first, indices := [⟨0, -1, -1⟩, ⟨1, -1, -1⟩, ⟨2, -1, -1⟩], materialIds := [0] },
      { name := second, indices := [⟨2, -1, -1⟩, ⟨1, -1, -1⟩, ⟨3, -1, -1⟩], materialIds := [-1] }]
  materials := [{ diffuseTexname := "wood.png" }]

end MeshResource

end Maple
