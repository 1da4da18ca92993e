import Mathlib.Algebra.GroupWithZero.Defs
import Mathlib.Data.List.Count
import Mathlib.Tactic.Ring
import Mathlib.Tactic.SplitIfs
import Maple.Lib.ForLoop

/-!
# Maple.Engine.Sphere

**The grid of `Mesh::createSphere`.** The vertices form the rows of a grid, from one pole of
the sphere to the other, with `xSegments + 1` vertices in a row. Two running indices name the
corners of a cell in the row above and in the row below, and each cell is cut into two
triangles. In the first and the last row one of them has two corners at the pole, and it is
left out.

The loops compare their counters with the segment counts as `float`s, which is exact below
`2 ^ 24`. The coordinates of a vertex are floating-point numbers and stay a parameter.
-/

namespace Maple

open Lib

/-- The value of an integer that is converted to `float`: 24 significant bits, ties to
even. -/
def float32 (n : Int) : Int :=
  let ulp := 2 ^ (n.natAbs.log2 - 23)
  let q := n.natAbs / ulp
  let r := n.natAbs % ulp
  let rounded := if 2 * r < ulp ∨ 2 * r = ulp ∧ q % 2 = 0 then q * ulp else (q + 1) * ulp
  n.sign * rounded

example : float32 16777215 = 16777215 ∧ float32 16777217 = 16777216 ∧
    float32 16777219 = 16777220 := by decide

namespace Sphere

/-- What `createSphere` gives to the constructor of `Mesh`. -/
structure Mesh (V : Type) where
  indices : List UInt32
  data : List V

variable {V : Type}

/-- The first double loop of `createSphere`; `vertex i j` is the vertex that its body
computes. -/
def vertices (vertex : Int → Int → V) (sectorCount stackCount : Int) (fuel : Nat) :
    Option (List V) :=
  forLoop (· + 1) (fun i => decide (float32 i ≤ stackCount))
    (fun i data fuel =>
      forLoop (· + 1) (fun j => decide (float32 j ≤ sectorCount))
        (fun j data _ => some (data ++ [vertex i j])) fuel (0 : Int) data)
    fuel (0 : Int) []

/-- `k1`, `k2` and the vector of indices. -/
structure Cursor where
  k1 : UInt32
  k2 : UInt32
  indices : List UInt32

/-- The body of the second double loop, with the increments of `k1` and `k2`. -/
def cell (stackCount : Int) (i : UInt32) (c : Cursor) : Cursor :=
  let indices := if i ≠ 0 then c.indices ++ [c.k1, c.k2, c.k1 + 1] else c.indices
  let indices :=
    if float32 i.toNat ≠ float32 (stackCount - 1) then indices ++ [c.k1 + 1, c.k2, c.k2 + 1]
    else indices
  ⟨c.k1 + 1, c.k2 + 1, indices⟩

/-- The second double loop of `createSphere`. -/
def indices (sectorCount stackCount : Int) (fuel : Nat) : Option (List UInt32) :=
  forLoop (· + 1) (fun i : UInt32 => decide (float32 i.toNat < stackCount))
    (fun i indices fuel =>
      let k1 := i * (UInt32.ofNat sectorCount.toNat + 1)
      let k2 := k1 + UInt32.ofNat sectorCount.toNat + 1
      (forLoop (· + 1) (fun j : UInt32 => decide (float32 j.toNat < sectorCount))
        (fun _ c _ => some (cell stackCount i c)) fuel 0 ⟨k1, k2, indices⟩).map Cursor.indices)
    fuel 0 []

/-- `Mesh::createSphere`. -/
def createSphere (vertex : Int → Int → V) (xSegments ySegments : Nat) (fuel : Nat) :
    Option (Mesh V) :=
  let sectorCount := float32 xSegments
  let stackCount := float32 ySegments
  (vertices vertex sectorCount stackCount fuel).bind fun data =>
    (indices sectorCount stackCount fuel).map fun indices => ⟨indices, data⟩

/-! ### The grid -/

/-- A corner of a cell: its row and its place in the row. -/
structure Corner where
  row : Nat
  column : Nat
  deriving DecidableEq, Repr

/-- The index of the vertex at a corner. -/
def Corner.index (xs : Nat) (c : Corner) : Nat := c.row * (xs + 1) + c.column

/-- A triangle between corners, in the order in which it is drawn. -/
structure Triangle where
  a : Corner
  b : Corner
  c : Corner
  deriving DecidableEq, Repr

/-- The indices of a triangle. -/
def Triangle.indices (xs : Nat) (t : Triangle) : List Nat :=
  [t.a.index xs, t.b.index xs, t.c.index xs]

/-- The triangle is degenerate: two of its corners are in the first row, or two are in the
last one, and so at one pole. -/
def Triangle.AtPole (ys : Nat) (t : Triangle) : Prop :=
  2 ≤ [t.a.row, t.b.row, t.c.row].count 0 ∨ 2 ≤ [t.a.row, t.b.row, t.c.row].count ys

instance (ys : Nat) (t : Triangle) : Decidable (t.AtPole ys) := by
  unfold Triangle.AtPole
  infer_instance

/-- The two triangles of the cell between the rows `i` and `i + 1` and the columns `j` and
`j + 1`. -/
def cellTriangles (i j : Nat) : List Triangle :=
  [⟨⟨i, j⟩, ⟨i + 1, j⟩, ⟨i, j + 1⟩⟩, ⟨⟨i, j + 1⟩, ⟨i + 1, j⟩, ⟨i + 1, j + 1⟩⟩]

/-- The triangles of a cell without the one at a pole. -/
def emitted (ys i j : Nat) : List Triangle :=
  (cellTriangles i j).filter fun t => ¬ t.AtPole ys

/-- The indices that a cell should give. -/
def cellIndices (xs ys i j : Nat) : List Nat := (emitted ys i j).flatMap (Triangle.indices xs)

/-! ### The poles -/

theorem two_le_count_iff {a b c k : Nat} :
    2 ≤ [a, b, c].count k ↔ (a = k ∧ b = k) ∨ (a = k ∧ c = k) ∨ (b = k ∧ c = k) := by
  simp only [List.count_cons, List.count_nil, beq_iff_eq]
  split_ifs <;> simp_all

/-! ### The loop bounds -/

theorem float32_of_le {n : Int} (h : 0 ≤ n) (h' : n ≤ 2 ^ 24) : float32 n = n := by
  rcases Int.lt_or_eq_of_le h' with hlt | rfl
  · have hlog : n.natAbs.log2 - 23 = 0 := by
      by_cases hzero : n.natAbs = 0
      · rw [hzero]
        rfl
      · have := (Nat.log2_lt hzero).mpr (show n.natAbs < 2 ^ 24 by omega)
        omega
    unfold float32
    simp only [hlog, Nat.pow_zero, Nat.div_one, Nat.mod_one]
    simpa using Int.sign_mul_natAbs n
  · decide

/-! ### The vertices -/

/-- Rows of the same length, one after another. -/
theorem getElem?_rows {α : Type} {m : Nat} (row : Nat → List α) (hrow : ∀ i, (row i).length = m)
    (n : Nat) :
    ((List.range n).flatMap row).length = n * m ∧
      ∀ i < n, ∀ j < m, ((List.range n).flatMap row)[i * m + j]? = (row i)[j]? := by
  induction n with
  | zero => simp
  | succ n ih =>
      obtain ⟨hlength, hget⟩ := ih
      rw [List.range_succ, List.flatMap_append, List.flatMap_singleton]
      refine ⟨by rw [List.length_append, hlength, hrow, Nat.succ_mul], fun i hi j hj => ?_⟩
      cases Nat.lt_succ_iff_lt_or_eq.mp hi with
      | inl hlt =>
          have hle : (i + 1) * m ≤ n * m := Nat.mul_le_mul_right m hlt
          rw [Nat.succ_mul] at hle
          rw [List.getElem?_append_left (by omega)]
          exact hget i hlt j hj
      | inr heq =>
          subst heq
          rw [List.getElem?_append_right (by omega), hlength, Nat.add_sub_cancel_left]

/-- The vertices, row by row. -/
def grid (vertex : Int → Int → V) (xs ys : Nat) : List V :=
  (List.range (ys + 1)).flatMap fun i : Nat => (List.range (xs + 1)).map fun j : Nat => vertex i j

theorem length_grid (vertex : Int → Int → V) (xs ys : Nat) :
    (grid vertex xs ys).length = (xs + 1) * (ys + 1) := by
  rw [Nat.mul_comm]
  exact (getElem?_rows _ (fun i => by simp) (ys + 1)).1

theorem grid_index (vertex : Int → Int → V) {xs ys i j : Nat} (hi : i ≤ ys) (hj : j ≤ xs) :
    (grid vertex xs ys)[(Corner.mk i j).index xs]? = some (vertex i j) := by
  have hrow := (getElem?_rows (m := xs + 1) (fun i : Nat =>
    (List.range (xs + 1)).map fun j : Nat => vertex i j) (fun i => by simp) (ys + 1)).2
      i (by omega) j (by omega)
  rw [grid, Corner.index, hrow, List.getElem?_map, List.getElem?_range (by omega)]
  rfl

/-- The condition of a loop up to and including a segment count. -/
theorem continues_le {n k : Nat} (hn : n < 2 ^ 24) (hk : k ≤ n + 1) :
    decide (float32 k ≤ n) = decide (k < n + 1) := by
  rw [float32_of_le (by omega) (by omega)]
  exact decide_eq_decide.mpr (by omega)

theorem vertices_settles (vertex : Int → Int → V) {xs ys : Nat} (hxs : xs < 2 ^ 24)
    (hys : ys < 2 ^ 24) : Settles (vertices vertex xs ys) (some (grid vertex xs ys)) := by
  have hrow : ∀ (i : Int) (data : List V), Settles
      (fun fuel => forLoop (· + 1) (fun j => decide (float32 j ≤ xs))
        (fun j data _ => some (data ++ [vertex i j])) fuel (0 : Int) data)
      (some (data ++ (List.range (xs + 1)).map fun j : Nat => vertex i j)) := by
    intro i data
    have hloop := forLoop_settles (· + 1) (fun j => decide (float32 j ≤ xs))
      (fun j data _ => some (data ++ [vertex i j])) (n := xs + 1) (fun k => (k : Int))
      (fun k => data ++ (List.range k).map fun j : Nat => vertex i j) (fun k _ => rfl)
      (fun k hk => continues_le hxs hk) (fun k _ => .of_forall fun _ => by
        rw [List.range_succ, List.map_append, ← List.append_assoc]
        rfl)
    rwa [List.range_zero, List.map_nil, List.append_nil] at hloop
  unfold vertices grid
  refine forLoop_settles (· + 1) (fun i => decide (float32 i ≤ ys)) _ (n := ys + 1)
    (fun k => (k : Int))
    (fun k => (List.range k).flatMap fun i : Nat =>
      (List.range (xs + 1)).map fun j : Nat => vertex i j)
    (fun k _ => rfl) (fun k hk => continues_le hys hk) fun k _ => ?_
  rw [List.range_succ (n := k), List.flatMap_append, List.flatMap_singleton]
  exact hrow k _

/-! ### The cells -/

/-- What the two conditions of the body leave of a cell. -/
theorem cellIndices_eq {xs ys i : Nat} (hi : i < ys) (j : Nat) :
    cellIndices xs ys i j =
      (if i ≠ 0 then
        [i * (xs + 1) + j, (i + 1) * (xs + 1) + j, i * (xs + 1) + (j + 1)] else []) ++
      if i + 1 ≠ ys then
        [i * (xs + 1) + (j + 1), (i + 1) * (xs + 1) + j, (i + 1) * (xs + 1) + (j + 1)]
      else [] := by
  have hupper : Triangle.AtPole ys ⟨⟨i, j⟩, ⟨i + 1, j⟩, ⟨i, j + 1⟩⟩ ↔ i = 0 := by
    simp only [Triangle.AtPole, two_le_count_iff]
    omega
  have hlower : Triangle.AtPole ys ⟨⟨i, j + 1⟩, ⟨i + 1, j⟩, ⟨i + 1, j + 1⟩⟩ ↔ i + 1 = ys := by
    simp only [Triangle.AtPole, two_le_count_iff]
    omega
  unfold cellIndices emitted cellTriangles
  simp only [List.filter_cons, List.filter_nil, hupper, hlower, decide_eq_true_eq, ne_eq]
  split_ifs <;> rfl

/-- Corners of the grid have the indices of vertices. -/
theorem Corner.index_lt {xs ys : Nat} {c : Corner} (hrow : c.row ≤ ys) (hcolumn : c.column ≤ xs) :
    c.index xs < (ys + 1) * (xs + 1) := by
  calc
    c.row * (xs + 1) + c.column < (c.row + 1) * (xs + 1) := by
      rw [Nat.succ_mul]
      omega
    _ ≤ (ys + 1) * (xs + 1) := Nat.mul_le_mul_right _ (Nat.succ_le_succ hrow)

theorem cellIndices_lt {xs ys i j : Nat} (hi : i < ys) (hj : j < xs) :
    ∀ k ∈ cellIndices xs ys i j, k < (ys + 1) * (xs + 1) := by
  intro k hk
  obtain ⟨t, ht, hk⟩ := List.mem_flatMap.mp hk
  have hcell := (List.mem_filter.mp ht).1
  simp only [cellTriangles, List.mem_cons, List.not_mem_nil, or_false] at hcell
  rcases hcell with rfl | rfl <;>
    · simp only [Triangle.indices, List.mem_cons, List.not_mem_nil, or_false] at hk
      rcases hk with rfl | rfl | rfl <;>
        exact Corner.index_lt (by simp only; omega) (by simp only; omega)

/-- The state of the inner loop in front of a cell. -/
def cursorAt (xs ys i j : Nat) (before : List UInt32) : Cursor :=
  ⟨UInt32.ofNat (i * (xs + 1) + j), UInt32.ofNat ((i + 1) * (xs + 1) + j),
    before ++ ((List.range j).flatMap (cellIndices xs ys i)).map UInt32.ofNat⟩

/-- **The body of the inner loop** emits the triangles of the cell. -/
theorem cell_cursorAt {xs ys i : Nat} (hys : ys < 2 ^ 24) (hi : i < ys) (j : Nat)
    (before : List UInt32) :
    cell ys (UInt32.ofNat i) (cursorAt xs ys i j before) = cursorAt xs ys i (j + 1) before := by
  have hfirst : UInt32.ofNat i ≠ 0 ↔ i ≠ 0 := by
    rw [ne_eq, ← UInt32.toNat_inj, UInt32.toNat_ofNat_of_lt' (by simp [UInt32.size]; omega)]
    rfl
  have hlast : float32 (UInt32.ofNat i).toNat ≠ float32 ((ys : Int) - 1) ↔ i + 1 ≠ ys := by
    rw [UInt32.toNat_ofNat_of_lt' (by simp [UInt32.size]; omega),
      float32_of_le (by omega) (by omega), float32_of_le (by omega) (by omega)]
    omega
  have hk1 : UInt32.ofNat (i * (xs + 1) + j) + 1 = UInt32.ofNat (i * (xs + 1) + (j + 1)) :=
    (UInt32.ofNat_add _ _).symm
  have hk2 : UInt32.ofNat ((i + 1) * (xs + 1) + j) + 1 =
      UInt32.ofNat ((i + 1) * (xs + 1) + (j + 1)) := (UInt32.ofNat_add _ _).symm
  unfold cell cursorAt
  simp only [hfirst, hlast, hk1, hk2, List.range_succ, List.flatMap_append,
    List.flatMap_singleton, List.map_append, cellIndices_eq hi]
  split_ifs <;> simp

/-- The indices of the rows above the one with this number. -/
def rowIndices (xs ys i : Nat) : List Nat :=
  (List.range i).flatMap fun i => (List.range xs).flatMap (cellIndices xs ys i)

/-- The condition of a loop up to a segment count. -/
theorem continues_lt {n k : Nat} (hn : n < 2 ^ 24) (hk : k ≤ n) :
    decide (float32 (UInt32.ofNat k).toNat < n) = decide (k < n) := by
  rw [UInt32.toNat_ofNat_of_lt' (by simp [UInt32.size]; omega),
    float32_of_le (by omega) (by omega)]
  exact decide_eq_decide.mpr (by omega)

/-- The inner loop, from the first cell of a row to the last one. -/
theorem row_settles {xs ys i : Nat} (hxs : xs < 2 ^ 24) (hys : ys < 2 ^ 24) (hi : i < ys)
    (before : List UInt32) :
    Settles (fun fuel => forLoop (· + 1) (fun j : UInt32 => decide (float32 j.toNat < xs))
        (fun _ c _ => some (cell ys (UInt32.ofNat i) c)) fuel 0 (cursorAt xs ys i 0 before))
      (some (cursorAt xs ys i xs before)) := by
  refine forLoop_settles (· + 1) (fun j : UInt32 => decide (float32 j.toNat < xs)) _ (n := xs)
    UInt32.ofNat (fun j => cursorAt xs ys i j before) (fun k _ => (UInt32.ofNat_add k 1).symm)
    (fun k hk => continues_lt hxs hk) fun k _ => .of_forall fun _ => ?_
  rw [cell_cursorAt hys hi]

theorem indices_settles {xs ys : Nat} (hxs : xs < 2 ^ 24) (hys : ys < 2 ^ 24) :
    Settles (indices xs ys) (some ((rowIndices xs ys ys).map UInt32.ofNat)) := by
  unfold indices
  refine forLoop_settles (· + 1) (fun i : UInt32 => decide (float32 i.toNat < ys)) _ (n := ys)
    UInt32.ofNat (fun i => (rowIndices xs ys i).map UInt32.ofNat)
    (fun k _ => (UInt32.ofNat_add k 1).symm) (fun k hk => continues_lt hys hk) fun i hi => ?_
  have hrow := row_settles hxs hys hi ((rowIndices xs ys i).map UInt32.ofNat)
  have hk1 : UInt32.ofNat i * (UInt32.ofNat xs + 1) = UInt32.ofNat (i * (xs + 1) + 0) := by
    rw [Nat.add_zero, UInt32.ofNat_mul, UInt32.ofNat_add]
    rfl
  have hk2 : UInt32.ofNat (i * (xs + 1) + 0) + UInt32.ofNat xs + 1 =
      UInt32.ofNat ((i + 1) * (xs + 1) + 0) := by
    rw [Nat.succ_mul, ← UInt32.ofNat_add]
    exact (UInt32.ofNat_add _ 1).symm
  have hstart : cursorAt xs ys i 0 ((rowIndices xs ys i).map UInt32.ofNat) =
      ⟨UInt32.ofNat (i * (xs + 1) + 0), UInt32.ofNat ((i + 1) * (xs + 1) + 0),
        (rowIndices xs ys i).map UInt32.ofNat⟩ :=
    congrArg (Cursor.mk _ _) (List.append_nil _)
  have hend : (cursorAt xs ys i xs ((rowIndices xs ys i).map UInt32.ofNat)).indices =
      (rowIndices xs ys (i + 1)).map UInt32.ofNat := by
    rw [rowIndices, rowIndices, List.range_succ, List.flatMap_append, List.flatMap_singleton,
      List.map_append]
    rfl
  rw [← hend]
  refine (hrow.comp (Option.map Cursor.indices)).congr fun fuel => ?_
  simp only [Int.toNat_natCast, hk1, hk2, hstart]

/-! ### The number of triangles -/

theorem length_cellIndices {xs ys i : Nat} (hi : i < ys) (j : Nat) :
    (cellIndices xs ys i j).length =
      (if i ≠ 0 then 3 else 0) + if i + 1 ≠ ys then 3 else 0 := by
  rw [cellIndices_eq hi]
  split_ifs <;> rfl

theorem length_row {xs ys i : Nat} (hi : i < ys) :
    ((List.range xs).flatMap (cellIndices xs ys i)).length =
      xs * ((if i ≠ 0 then 3 else 0) + if i + 1 ≠ ys then 3 else 0) :=
  (getElem?_rows _ (fun j => length_cellIndices hi j) xs).1

/-- Above the last row the first one has one triangle in a cell, every other one two. -/
theorem length_rowIndices {xs ys i : Nat} (hi : i < ys) :
    (rowIndices xs ys i).length = 3 * (xs * (2 * i - 1)) := by
  induction i with
  | zero => simp [rowIndices]
  | succ i ih =>
      have hrow : ((List.range xs).flatMap (cellIndices xs ys i)).length = _ :=
        length_row (show i < ys by omega)
      rw [if_pos (by omega : i + 1 ≠ ys)] at hrow
      rw [rowIndices, List.range_succ, List.flatMap_append, List.flatMap_singleton,
        List.length_append, hrow, ← rowIndices, ih (by omega)]
      cases i with
      | zero => simp [Nat.mul_comm]
      | succ i =>
          rw [if_pos (Nat.succ_ne_zero i), show 2 * (i + 1) - 1 = 2 * i + 1 by omega,
            show 2 * (i + 1 + 1) - 1 = 2 * i + 3 by omega]
          ring

theorem length_rowIndices_all (xs : Nat) {ys : Nat} (hys : 1 ≤ ys) :
    (rowIndices xs ys ys).length = 3 * (2 * xs * (ys - 1)) := by
  obtain ⟨i, rfl⟩ := Nat.exists_eq_add_of_le' hys
  have hrow : ((List.range xs).flatMap (cellIndices xs (i + 1) i)).length = _ :=
    length_row (Nat.lt_succ_self i)
  rw [if_neg (not_not_intro rfl : ¬ i + 1 ≠ i + 1)] at hrow
  rw [rowIndices, List.range_succ, List.flatMap_append, List.flatMap_singleton,
    List.length_append, hrow, ← rowIndices, length_rowIndices (Nat.lt_succ_self i)]
  cases i with
  | zero => simp
  | succ i =>
      rw [if_pos (Nat.succ_ne_zero i), Nat.add_sub_cancel,
        show 2 * (i + 1) - 1 = 2 * i + 1 by omega]
      ring

theorem rowIndices_lt {xs ys : Nat} : ∀ k ∈ rowIndices xs ys ys, k < (ys + 1) * (xs + 1) := by
  intro k hk
  obtain ⟨i, hi, hk⟩ := List.mem_flatMap.mp hk
  obtain ⟨j, hj, hk⟩ := List.mem_flatMap.mp hk
  exact cellIndices_lt (List.mem_range.mp hi) (List.mem_range.mp hj) k hk

/-- **`createSphere`.** The vertices are the rows of the grid, and the indices are the
triangles of the cells, row by row, without those at a pole. -/
theorem createSphere_settles (vertex : Int → Int → V) {xs ys : Nat}
    (hxs : 1 ≤ xs ∧ xs < 2 ^ 24) (hys : 1 ≤ ys ∧ ys < 2 ^ 24)
    (hsize : (xs + 1) * (ys + 1) < 2 ^ 31) :
    ∃ mesh, Settles (createSphere vertex xs ys) (some mesh) ∧
      mesh.data.length = (xs + 1) * (ys + 1) ∧
      (∀ i ≤ ys, ∀ j ≤ xs, mesh.data[(Corner.mk i j).index xs]? = some (vertex i j)) ∧
      mesh.indices.map UInt32.toNat =
        ((List.range ys).flatMap fun i => (List.range xs).flatMap fun j =>
          (emitted ys i j).flatMap (Triangle.indices xs)) ∧
      mesh.indices.length = 3 * (2 * xs * (ys - 1)) ∧
      ∀ k ∈ mesh.indices, k.toNat < mesh.data.length := by
  have hsmall : ∀ k ∈ rowIndices xs ys ys, (UInt32.ofNat k).toNat = k := by
    intro k hk
    have hlt := rowIndices_lt k hk
    rw [Nat.mul_comm] at hlt
    exact UInt32.toNat_ofNat_of_lt' (by simp [UInt32.size]; omega)
  refine ⟨⟨(rowIndices xs ys ys).map UInt32.ofNat, grid vertex xs ys⟩, ?_,
    length_grid vertex xs ys, fun i hi j hj => grid_index vertex hi hj, ?_, ?_, fun k hk => ?_⟩
  · have hmesh := (vertices_settles vertex hxs.2 hys.2).option_bind
      (g := fun data fuel => (indices xs ys fuel).map fun indices => Mesh.mk indices data)
      ((indices_settles hxs.2 hys.2).comp _)
    refine hmesh.congr fun fuel => ?_
    rw [createSphere, float32_of_le (by omega) (by omega), float32_of_le (by omega) (by omega)]
  · show (List.map UInt32.ofNat _).map UInt32.toNat = rowIndices xs ys ys
    rw [List.map_map]
    exact (List.map_congr_left (g := id) hsmall).trans (List.map_id _)
  · rw [List.length_map, length_rowIndices_all xs hys.1]
  · obtain ⟨k, hmem, rfl⟩ := List.mem_map.mp hk
    rw [hsmall k hmem, length_grid, Nat.mul_comm]
    exact rowIndices_lt k hmem

/-- The default sphere. -/
theorem createSphere_settles_default :
    ∃ mesh, Settles (createSphere (fun i j : Int => (i, j)) 64 64) (some mesh) ∧
      mesh.data.length = 65 * 65 ∧ mesh.indices.length = 3 * 8064 := by
  obtain ⟨mesh, hrun, hdata, -, -, hindices, -⟩ :=
    createSphere_settles (fun i j : Int => (i, j)) (show 1 ≤ 64 ∧ 64 < 2 ^ 24 by decide)
      (show 1 ≤ 64 ∧ 64 < 2 ^ 24 by decide) (by decide)
  exact ⟨mesh, hrun, hdata, hindices⟩

end Sphere

end Maple
