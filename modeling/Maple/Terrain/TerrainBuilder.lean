import Mathlib.Algebra.Order.Ring.Rat
import Maple.Lib.Table
import Maple.Terrain.UncheckedBuild

/-!
# Maple.Terrain.TerrainBuilder

A mesh out of a height map: `Terrain/TerrainBuilder.cpp`. The vertices are listed column by
column, but `height` looks them up as if they were listed row by row. **The normals come from
the right neighbours exactly on the maps on which the two orders cannot be told apart**
(`normals_iff`), which on a square map are the symmetric ones (`readsAlike_square`).

Numbers are rational where the source has `float`, and normalising a vector is a parameter.
Positions in the image and in the vertices are computed modulo `2 ^ 32`, as the source does.
-/

namespace Maple.Terrain

open Lib QuadCollapseMesh

/-- `color8888`. -/
structure Color8888 where
  r : UInt8
  g : UInt8
  b : UInt8
  a : UInt8
  deriving DecidableEq, Repr

/-- An `Image` of four bytes a pixel, row by row. The number of its bytes is a `uint32_t`. -/
structure HeightMap where
  width : Nat
  height : Nat
  data : List Color8888
  length_eq : data.length = width * height
  size_lt : 4 * (width * height) < 2 ^ 32

/-- `glm::vec3`. -/
structure Vec3 where
  x : Rat
  y : Rat
  z : Rat
  deriving DecidableEq, Repr

/-- `glm::vec4`. -/
structure Vec4 where
  x : Rat
  y : Rat
  z : Rat
  w : Rat
  deriving DecidableEq, Repr

structure Vertex where
  pos : Vec3 := ⟨0, 0, 0⟩
  color : Vec4 := ⟨0, 0, 0, 0⟩
  normal : Vec3 := ⟨0, 0, 0⟩
  deriving DecidableEq, Repr

instance : Inhabited Vertex := ⟨{}⟩

variable {map : HeightMap}

/-! ### The vertices -/

/-- Pixels and vertices are counted below `2 ^ 32`. -/
theorem HeightMap.position_mod (map : HeightMap) {p : Nat} (hp : p < map.width * map.height) :
    p % 2 ^ 32 = p :=
  Nat.mod_eq_of_lt (by have := map.size_lt; omega)

theorem HeightMap.position_lt {x y : Nat} (hx : x < map.width) (hy : y < map.height) :
    y * map.width + x < map.width * map.height := by
  rw [Nat.mul_comm y, Nat.mul_comm map.width map.height]
  exact Nat.mul_add_lt_mul_of_lt_of_lt hy hx

/-- `buffer[y * getWidth() + x]`. -/
def HeightMap.pixel (map : HeightMap) (x : Fin map.width) (y : Fin map.height) : Color8888 :=
  map.data.get ⟨(y * map.width + x) % 2 ^ 32, by
    rw [map.position_mod (HeightMap.position_lt x.isLt y.isLt), map.length_eq]
    exact HeightMap.position_lt x.isLt y.isLt⟩

/-- The vertex of a pixel. -/
def HeightMap.vertex (map : HeightMap) (x : Fin map.width) (y : Fin map.height) : Vertex :=
  let pixelColor := map.pixel x y
  { pos := ⟨x.val, y.val, pixelColor.r.toNat⟩
    color := ⟨pixelColor.r.toNat, pixelColor.g.toNat, pixelColor.b.toNat, pixelColor.a.toNat⟩ }

/-- The vertices, `x` in the outer loop and `y` in the inner one. -/
def HeightMap.vertices (map : HeightMap) : List Vertex := columns map.vertex

/-- The conversion of a `float` to `int32_t`, which drops the fraction. -/
def toInt32 (q : Rat) : Int := q.num.tdiv q.den

/-- `height`. -/
def heightAt (vertices : List Vertex) (width height : Nat) (x y : Int) : Except MeshFault Rat :=
  if x < 0 ∨ y < 0 ∨ width ≤ x ∨ height ≤ y then .ok 0
  else
    match vertices[(x.toNat + y.toNat * width) % 2 ^ 32]? with
    | some v => .ok (v.pos.z / 255)
    | none => .error .outOfRange

/-- The central difference at a vertex: its normal before it is normalised. -/
def centralDifference (vertices : List Vertex) (width height : Nat) (v : Vertex) :
    Except MeshFault Vec3 :=
  (heightAt vertices width height (toInt32 (v.pos.x - 1)) (toInt32 v.pos.y)).bind fun hL =>
  (heightAt vertices width height (toInt32 (v.pos.x + 1)) (toInt32 v.pos.y)).bind fun hR =>
  (heightAt vertices width height (toInt32 v.pos.x) (toInt32 (v.pos.y - 1))).bind fun hD =>
  (heightAt vertices width height (toInt32 v.pos.x) (toInt32 (v.pos.y + 1))).map fun hU =>
    ⟨hL - hR, hD - hU, 2⟩

/-- The loop that sets the normals; it reads the positions only, which it leaves alone. -/
def setNormals (normalize : Vec3 → Vec3) (vertices : List Vertex) (width height : Nat) :
    Except MeshFault (List Vertex) :=
  vertices.mapM fun v => (centralDifference vertices width height v).map fun normal =>
    { v with normal := normalize normal }

/-- `build`; the result of the mesh's own `build` is not looked at. -/
def TerrainBuilder.build (normalize : Vec3 → Vec3) (closer : Vertex → Vertex → Vertex → Bool)
    (fuel : Nat) (heightMap : HeightMap) : Except MeshFault (QuadCollapseMesh Vertex) :=
  (setNormals normalize heightMap.vertices heightMap.width heightMap.height).bind fun vertices =>
  (Unchecked.build closer fuel (empty {}) vertices heightMap.width heightMap.height).map Prod.snd

@[simp] theorem toInt32_intCast (i : Int) : toInt32 i = i := by
  simp [toInt32]

@[simp] theorem toInt32_natCast (n : Nat) : toInt32 n = n := toInt32_intCast n

@[simp] theorem toInt32_sub_one (n : Nat) : toInt32 ((n : Rat) - 1) = n - 1 := by
  have hcast : (n : Rat) - 1 = ((n - 1 : Int) : Rat) := by push_cast; rfl
  rw [hcast, toInt32_intCast]

@[simp] theorem toInt32_add_one (n : Nat) : toInt32 ((n : Rat) + 1) = n + 1 := by
  have hcast : (n : Rat) + 1 = ((n + 1 : Int) : Rat) := by push_cast; rfl
  rw [hcast, toInt32_intCast]

@[simp] theorem HeightMap.length_vertices : map.vertices.length = map.width * map.height :=
  length_columns _

/-! ### What the lookup finds -/

/-- The red value of a pixel, between zero and one; zero outside of the image. -/
def HeightMap.red (map : HeightMap) (x y : Int) : Rat :=
  if h : (0 ≤ x ∧ x < map.width) ∧ 0 ≤ y ∧ y < map.height then
    (map.pixel ⟨x.toNat, by omega⟩ ⟨y.toNat, by omega⟩).r.toNat / 255
  else 0

theorem HeightMap.red_eq (map : HeightMap) (x : Fin map.width) (y : Fin map.height) :
    map.red x y = (map.pixel x y).r.toNat / 255 := by
  have hinside : (0 ≤ (x : Int) ∧ (x : Int) < map.width) ∧ 0 ≤ (y : Int) ∧
      (y : Int) < map.height := by omega
  rw [HeightMap.red, dif_pos hinside]
  rfl

theorem HeightMap.red_outside {x y : Int}
    (h : x < 0 ∨ y < 0 ∨ map.width ≤ x ∨ map.height ≤ y) : map.red x y = 0 :=
  dif_neg (by omega)

/-- The red value that `height` finds: the vertex at position `x + y * width` is that of the
pixel in column `position / height` and row `position % height`. -/
def HeightMap.lookedUp (map : HeightMap) (x y : Int) : Rat :=
  if x < 0 ∨ y < 0 ∨ map.width ≤ x ∨ map.height ≤ y then 0
  else
    let position := x.toNat + y.toNat * map.width
    map.red (position / map.height : Nat) (position % map.height : Nat)

/-- The lookup stays inside of the vertices. -/
theorem heightAt_eq (x y : Int) :
    heightAt map.vertices map.width map.height x y = .ok (map.lookedUp x y) := by
  rw [heightAt, HeightMap.lookedUp]
  split
  · rfl
  · next hinside =>
      have hposition : x.toNat + y.toNat * map.width < map.width * map.height := by
        rw [Nat.add_comm]
        exact HeightMap.position_lt (by omega) (by omega)
      rw [map.position_mod hposition, HeightMap.vertices,
        columns_getElem?_eq map.vertex ⟨_, hposition⟩]
      exact congrArg Except.ok (map.red_eq _ _).symm

/-! ### The normals -/

/-- The central difference over the heights `h`. -/
def differenceOf (h : Int → Int → Rat) (x y : Int) : Vec3 :=
  ⟨h (x - 1) y - h (x + 1) y, h x (y - 1) - h x (y + 1), 2⟩

/-- A vertex with its normal. -/
def HeightMap.withNormal (map : HeightMap) (normalize : Vec3 → Vec3) (v : Vertex) : Vertex :=
  { v with normal := normalize (differenceOf map.lookedUp (toInt32 v.pos.x) (toInt32 v.pos.y)) }

theorem centralDifference_vertex (x : Fin map.width) (y : Fin map.height) :
    centralDifference map.vertices map.width map.height (map.vertex x y) =
      .ok (differenceOf map.lookedUp x y) := by
  simp only [centralDifference, HeightMap.vertex, toInt32_natCast, toInt32_sub_one,
    toInt32_add_one, heightAt_eq]
  rfl

/-- Setting the normals does not fail. -/
theorem setNormals_eq (normalize : Vec3 → Vec3) :
    setNormals normalize map.vertices map.width map.height =
      .ok (map.vertices.map (map.withNormal normalize)) := by
  refine mapM_eq_ok fun v hv => ?_
  obtain ⟨x, y, rfl⟩ := mem_columns.mp hv
  have hpos : differenceOf map.lookedUp (toInt32 (map.vertex x y).pos.x)
      (toInt32 (map.vertex x y).pos.y) = differenceOf map.lookedUp x y := by
    simp only [HeightMap.vertex, toInt32_natCast]
  rw [centralDifference_vertex, HeightMap.withNormal, hpos]
  rfl

/-- The vertex of a pixel, and its normal. -/
theorem getElem?_withNormal (normalize : Vec3 → Vec3) (x : Fin map.width) (y : Fin map.height) :
    (map.vertices.map (map.withNormal normalize))[x * map.height + y]? =
      some { map.vertex x y with normal := normalize (differenceOf map.lookedUp x y) } := by
  rw [List.getElem?_map, HeightMap.vertices, columns_getElem?]
  simp only [Option.map_some, HeightMap.withNormal, HeightMap.vertex, toInt32_natCast]

/-- The normals are the normalised central differences of the red values of the neighbours. -/
def RightNormals (map : HeightMap) : Prop :=
  ∀ normalize : Vec3 → Vec3, ∃ vertices,
    setNormals normalize map.vertices map.width map.height = .ok vertices ∧
    ∀ (x : Fin map.width) (y : Fin map.height), ∃ v,
      vertices[x * map.height + y]? = some v ∧ v.pos.x = x.val ∧ v.pos.y = y.val ∧
      v.normal = normalize ⟨map.red (x - 1) y - map.red (x + 1) y,
        map.red x (y - 1) - map.red x (y + 1), 2⟩

/-- Every pixel is as red as the one whose vertex stands at `x + y * width`. -/
def ReadsAlike (map : HeightMap) : Prop :=
  ∀ (x : Fin map.width) (y : Fin map.height), map.red x y =
    map.red ((x + y * map.width) / map.height : Nat) ((x + y * map.width) % map.height : Nat)

theorem HeightMap.lookedUp_eq (x : Fin map.width) (y : Fin map.height) : map.lookedUp x y =
    map.red ((x + y * map.width) / map.height : Nat) ((x + y * map.width) % map.height : Nat) :=
  if_neg (by omega)

theorem HeightMap.lookedUp_outside {x y : Int}
    (h : x < 0 ∨ y < 0 ∨ map.width ≤ x ∨ map.height ≤ y) : map.lookedUp x y = 0 :=
  if_pos h

/-- Where the pixels read alike, the lookup is right. -/
theorem ReadsAlike.lookedUp (h : ReadsAlike map) : map.lookedUp = map.red := by
  funext x y
  by_cases hinside : x < 0 ∨ y < 0 ∨ map.width ≤ x ∨ map.height ≤ y
  · rw [HeightMap.lookedUp_outside hinside, HeightMap.red_outside hinside]
  · obtain ⟨i, rfl⟩ := Int.eq_ofNat_of_zero_le (a := x) (by omega)
    obtain ⟨j, rfl⟩ := Int.eq_ofNat_of_zero_le (a := y) (by omega)
    have hi : i < map.width := by omega
    have hj : j < map.height := by omega
    exact (HeightMap.lookedUp_eq ⟨i, hi⟩ ⟨j, hj⟩).trans (h ⟨i, hi⟩ ⟨j, hj⟩).symm

/-- The first pixel is found. -/
theorem HeightMap.lookedUp_zero : map.lookedUp 0 0 = map.red 0 0 := by
  rw [HeightMap.lookedUp]
  split
  · next houtside => exact (HeightMap.red_outside houtside).symm
  · simp

/-- Where the differences are right, the pixels read alike: the lookup is right outside of the
image and at the first pixel. -/
theorem readsAlike_of_differences
    (h : ∀ (x : Fin map.width) (y : Fin map.height),
      differenceOf map.lookedUp x y = differenceOf map.red x y) : ReadsAlike map := by
  intro x y
  rw [← HeightMap.lookedUp_eq]
  refine (eq_of_differences (fun y => ?_) (fun x => ?_) HeightMap.lookedUp_zero (fun x y => ?_)
    (fun x y => ?_) x y).symm
  · rw [HeightMap.lookedUp_outside (by omega), HeightMap.red_outside (by omega)]
  · rw [HeightMap.lookedUp_outside (by omega), HeightMap.red_outside (by omega)]
  · exact congrArg Vec3.x (h x y)
  · exact congrArg Vec3.y (h x y)

/-- On a square map, the maps that read alike are the symmetric ones. -/
theorem readsAlike_square (hsquare : map.width = map.height) :
    ReadsAlike map ↔ ∀ x y : Fin map.width, map.red x y = map.red y x := by
  have hswap : ∀ i < map.height, ∀ j < map.height,
      (i + j * map.width) / map.height = j ∧ (i + j * map.width) % map.height = i := by
    intro i hi j hj
    rw [hsquare, Nat.add_mul_div_right _ _ (Nat.zero_lt_of_lt hi), Nat.div_eq_of_lt hi,
      Nat.zero_add, Nat.add_mul_mod_self_right, Nat.mod_eq_of_lt hi]
    exact ⟨rfl, rfl⟩
  constructor
  · intro h x y
    obtain ⟨hdiv, hmod⟩ := hswap x (hsquare ▸ x.isLt) y (hsquare ▸ y.isLt)
    have hxy := h x (y.cast hsquare)
    rw [Fin.val_cast, hdiv, hmod] at hxy
    exact hxy
  · intro h x y
    obtain ⟨hdiv, hmod⟩ := hswap x (hsquare ▸ x.isLt) y y.isLt
    rw [hdiv, hmod]
    exact h x (y.cast hsquare.symm)

theorem RightNormals.readsAlike (h : RightNormals map) : ReadsAlike map := by
  obtain ⟨vertices, hset, hnormals⟩ := h id
  rw [setNormals_eq] at hset
  obtain rfl := Except.ok.inj hset
  refine readsAlike_of_differences fun x y => ?_
  obtain ⟨v, hv, -, -, hnormal⟩ := hnormals x y
  rw [getElem?_withNormal] at hv
  obtain rfl := Option.some.inj hv
  exact hnormal

theorem ReadsAlike.rightNormals (h : ReadsAlike map) : RightNormals map := by
  intro normalize
  refine ⟨_, setNormals_eq normalize, fun x y => ⟨_, getElem?_withNormal normalize x y, rfl, rfl,
    ?_⟩⟩
  rw [h.lookedUp]
  rfl

/-- **The maps on which the normals are right.** The normal of every pixel comes from its four
neighbours exactly if every pixel is as red as the one that the lookup finds in its place. -/
theorem normals_iff (map : HeightMap) : RightNormals map ↔ ReadsAlike map :=
  ⟨RightNormals.readsAlike, ReadsAlike.rightNormals⟩

/-- Four pixels, of which the second of the first row is red. -/
def redCorner : HeightMap where
  width := 2
  height := 2
  data := [⟨0, 0, 0, 255⟩, ⟨255, 0, 0, 255⟩, ⟨0, 0, 0, 255⟩, ⟨0, 0, 0, 255⟩]
  length_eq := rfl
  size_lt := by decide

/-- The red corner is looked up in the wrong row. -/
theorem normals_transposed : ¬ RightNormals redCorner := by
  intro h
  have hsymm := (readsAlike_square rfl).mp h.readsAlike (0 : Fin 2) (1 : Fin 2)
  have hrow : redCorner.red (1 : Fin 2) (0 : Fin 2) = 255 / 255 :=
    redCorner.red_eq (1 : Fin 2) (0 : Fin 2)
  have hcolumn : redCorner.red (0 : Fin 2) (1 : Fin 2) = 0 / 255 :=
    redCorner.red_eq (0 : Fin 2) (1 : Fin 2)
  rw [hrow, hcolumn] at hsymm
  norm_num at hsymm

end Maple.Terrain
