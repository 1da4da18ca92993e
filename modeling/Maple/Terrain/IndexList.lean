import Mathlib.Data.List.Perm.Basic
import Maple.Terrain.TerrainBuilder
import Maple.Terrain.Built

/-!
# Maple.Terrain.IndexList

The indices of the full mesh, with the machine numbers of the source: `numIndices` and the
indices are `uint32_t`, the counter of the loop an `int32_t`. **The list is never a
triangulation** (`fillIndices_never`): the test that guards the loop leaves out the last cell,
whose six indices stay zero. On maps that are not square the rows have the wrong stride too.
-/

namespace Maple.Terrain

open Lib QuadCollapseMesh

/-! ### The loop -/

/-- The cells of a grid, in the order of the loops. -/
def cells (width height : Nat) : List (Nat × Nat) :=
  (List.range (width - 1)).flatMap fun x => (List.range (height - 1)).map fun y => (x, y)

/-- `indices[indicesCount++] = value`. -/
def putIndex (s : List Nat × Nat) (value : Nat) : Except MeshFault (List Nat × Nat) :=
  if s.2 < s.1.length ∧ s.2 + 1 < 2 ^ 31 then .ok (s.1.set s.2 (value % 2 ^ 32), s.2 + 1)
  else .error .outOfRange

/-- The body of the loops. -/
def fillCell (width numIndices : Nat) (s : List Nat × Nat) (cell : Nat × Nat) :
    Except MeshFault (List Nat × Nat) :=
  if s.2 < (numIndices + 2 ^ 32 - 6) % 2 ^ 32 then
    (cellIndices width cell.1 cell.2).foldlM putIndex s
  else .ok s

/-- The part of `build` that fills `indices`, whose old contents are `old`. -/
def fillIndices (old : List Nat) (width height : Nat) : Except MeshFault (List Nat) :=
  let numIndices := (width - 1) * (height - 1) * 6 % 2 ^ 32
  ((cells width height).foldlM (fillCell width numIndices) (resized old numIndices 0, 0)).map
    Prod.fst

theorem length_cells (width height : Nat) :
    (cells width height).length = (width - 1) * (height - 1) := by
  simp [cells, List.length_flatMap]

theorem mem_cells {width height : Nat} {c : Nat × Nat} :
    c ∈ cells width height ↔ c.1 < width - 1 ∧ c.2 < height - 1 := by
  obtain ⟨x, y⟩ := c
  simp [cells]

/-- Of the indices of a cell, that of its corner `c` is the largest. -/
theorem le_of_mem_cellIndices {width x y i : Nat} (h : i ∈ cellIndices width x y) :
    i ≤ (x + 1) * width + (y + 1) := by
  have hnext : (x + 1) * width = x * width + width := Nat.succ_mul x width
  simp only [cellIndices, List.mem_cons, List.not_mem_nil, or_false] at h
  omega

/-! ### What the loop leaves -/

/-- The loop after the indices `l` of `N`. -/
def filled (N : Nat) (l : List Nat) : List Nat × Nat :=
  (l ++ List.replicate (N - l.length) 0, l.length)

/-- The indices of some cells. -/
def indicesOf (width : Nat) (cells : List (Nat × Nat)) : List Nat :=
  cells.flatMap fun c => (cellIndices width c.1 c.2).map (· % 2 ^ 32)

variable {N width height : Nat}

theorem putIndex_filled {l : List Nat} (hroom : l.length < N) (value : Nat) :
    putIndex (filled N l) value =
      if l.length + 1 < 2 ^ 31 then .ok (filled N (l ++ [value % 2 ^ 32]))
      else .error .outOfRange := by
  obtain ⟨n, hn⟩ : ∃ n, N - l.length = n + 1 := ⟨N - l.length - 1, by omega⟩
  have hlength : l.length < (filled N l).1.length := by
    rw [filled, List.length_append, List.length_replicate]
    omega
  have hset : (filled N l).1.set l.length (value % 2 ^ 32) =
      (filled N (l ++ [value % 2 ^ 32])).1 := by
    have hrest : N - (l ++ [value % 2 ^ 32]).length = n := by
      rw [List.length_append, List.length_singleton]
      omega
    rw [filled, filled, hrest, hn, List.set_append_right _ _ (Nat.le_refl _), Nat.sub_self,
      List.replicate_succ, List.set_cons_zero, List.append_assoc, List.singleton_append]
  rw [putIndex]
  show (if l.length < _ ∧ l.length + 1 < 2 ^ 31 then Except.ok
    ((filled N l).1.set l.length _, l.length + 1) else _) = _
  rw [hset]
  by_cases hcount : l.length + 1 < 2 ^ 31
  · rw [if_pos ⟨hlength, hcount⟩, if_pos hcount]
    have hcounter : l.length + 1 = (l ++ [value % 2 ^ 32]).length := by simp
    exact congrArg Except.ok (Prod.ext rfl hcounter)
  · rw [if_neg fun h => hcount h.2, if_neg hcount]

/-- Some indices are written, unless the counter overflows. -/
theorem foldlM_putIndex {c l : List Nat} (hc : c ≠ []) (hroom : l.length + c.length ≤ N) :
    c.foldlM putIndex (filled N l) =
      if l.length + c.length < 2 ^ 31 then .ok (filled N (l ++ c.map (· % 2 ^ 32)))
      else .error .outOfRange := by
  induction c generalizing l with
  | nil => exact absurd rfl hc
  | cons value c ih =>
      rw [List.length_cons] at hroom ⊢
      have hfirst := putIndex_filled (show l.length < N by omega) value
      by_cases hcount : l.length + 1 < 2 ^ 31
      · rw [if_pos hcount] at hfirst
        rw [foldlM_cons_ok hfirst]
        cases c with
        | nil => exact (if_pos hcount).symm
        | cons value' c =>
            have hlength : (l ++ [value % 2 ^ 32]).length = l.length + 1 := by simp
            have hrest := ih (l := l ++ [value % 2 ^ 32]) (List.cons_ne_nil _ _) (by omega)
            rw [hlength, List.append_assoc, Nat.add_assoc, Nat.add_comm 1] at hrest
            exact hrest
      · rw [if_neg hcount] at hfirst
        rw [foldlM_cons_error hfirst, if_neg (by omega)]

@[simp] theorem length_indicesOf (cells : List (Nat × Nat)) :
    (indicesOf width cells).length = 6 * cells.length := by
  simp [indicesOf, cellIndices, List.length_flatMap, Nat.mul_comm]

theorem indicesOf_cons (c : Nat × Nat) (cells : List (Nat × Nat)) :
    indicesOf width (c :: cells) =
      (cellIndices width c.1 c.2).map (· % 2 ^ 32) ++ indicesOf width cells :=
  List.flatMap_cons

/-- **The loop leaves out the last cell.** From the cell number `i` on it writes the indices of
every cell but the last, unless the counter overflows. -/
theorem foldlM_fillCell (width : Nat) {as : List (Nat × Nat)} {l : List Nat} {i : Nat}
    (has : as ≠ []) (hl : l.length = 6 * i) (hcount : l.length < 2 ^ 31)
    (hN : N = 6 * (i + as.length)) (hlt : N < 2 ^ 32) :
    as.foldlM (fillCell width N) (filled N l) =
      if 6 * (i + as.length - 1) < 2 ^ 31 then .ok (filled N (l ++ indicesOf width as.dropLast))
      else .error .outOfRange := by
  have hguard : (N + 2 ^ 32 - 6) % 2 ^ 32 = N - 6 := by
    have hpos := List.length_pos_iff.mpr has
    omega
  induction as generalizing l i with
  | nil => exact absurd rfl has
  | cons a as ih =>
      rw [List.length_cons] at hN ⊢
      cases as with
      | nil =>
          rw [List.length_nil] at hN ⊢
          -- the guard fails at the last cell
          have hlast : ¬ (filled N l).2 < (N + 2 ^ 32 - 6) % 2 ^ 32 := by
            rw [hguard]
            show ¬ l.length < N - 6
            omega
          rw [foldlM_cons_ok (if_neg hlast), if_pos (by omega), List.dropLast_singleton, indicesOf,
            List.flatMap_nil, List.append_nil]
          rfl
      | cons b as =>
          rw [List.length_cons] at hN ⊢
          have hmore : (filled N l).2 < (N + 2 ^ 32 - 6) % 2 ^ 32 := by
            rw [hguard]
            show l.length < N - 6
            omega
          have hsix : (cellIndices width a.1 a.2).length = 6 := rfl
          have hput := foldlM_putIndex (l := l) (c := cellIndices width a.1 a.2) (N := N)
            (List.cons_ne_nil _ _) (by omega)
          rw [hsix] at hput
          by_cases hnext : l.length + 6 < 2 ^ 31
          · rw [if_pos hnext] at hput
            rw [foldlM_cons_ok ((if_pos hmore).trans hput)]
            have hlength : (l ++ (cellIndices width a.1 a.2).map (· % 2 ^ 32)).length =
                6 * (i + 1) := by
              rw [List.length_append, List.length_map, hsix]
              omega
            have hrest := ih (List.cons_ne_nil _ _) hlength (by omega)
              (by rw [List.length_cons]; omega)
            have hsum : i + 1 + (as.length + 1) = i + (as.length + 1 + 1) := by omega
            rw [List.length_cons, List.append_assoc, hsum] at hrest
            rw [List.dropLast_cons_cons, indicesOf_cons]
            exact hrest
          · rw [if_neg hnext] at hput
            rw [foldlM_cons_error ((if_pos hmore).trans hput), if_neg (by omega)]

/-- The index list of a mesh whose number of indices fits in 32 bits. -/
theorem fillIndices_eq (hw : 2 ≤ width) (hh : 2 ≤ height)
    (hfits : (width - 1) * (height - 1) * 6 < 2 ^ 32) :
    fillIndices [] width height =
      if 6 * ((width - 1) * (height - 1) - 1) < 2 ^ 31 then
        .ok (indicesOf width (cells width height).dropLast ++ List.replicate 6 0)
      else .error .outOfRange := by
  have hpos : 0 < (width - 1) * (height - 1) := Nat.mul_pos (by omega) (by omega)
  have hlength := length_cells width height
  have hcells : cells width height ≠ [] := List.length_pos_iff.mp (by omega)
  have hstart : (resized ([] : List Nat) ((width - 1) * (height - 1) * 6) 0, 0) =
      filled ((width - 1) * (height - 1) * 6) [] := by
    simp [resized, filled]
  have hloop := foldlM_fillCell width (l := []) (i := 0) hcells rfl (by decide)
    (by rw [hlength]; omega) hfits
  rw [Nat.zero_add, hlength, List.nil_append] at hloop
  rw [fillIndices, Nat.mod_eq_of_lt hfits]
  show Except.map Prod.fst ((cells width height).foldlM _ (_, 0)) = _
  rw [hstart, hloop]
  split
  · have hrest : (width - 1) * (height - 1) * 6 -
        (indicesOf width (cells width height).dropLast).length = 6 := by
      rw [length_indicesOf, List.length_dropLast, hlength]
      omega
    rw [filled, hrest]
    rfl
  · rfl

theorem fillCell_length {width numIndices : Nat} {s s' : List Nat × Nat} {cell : Nat × Nat}
    (h : fillCell width numIndices s cell = .ok s') : s'.1.length = s.1.length := by
  unfold fillCell at h
  split at h
  · refine foldlM_keeps (g := fun s : List Nat × Nat => s.1.length) (fun {s value s'} hput => ?_) h
    unfold putIndex at hput
    split at hput
    · obtain rfl := Except.ok.inj hput
      exact List.length_set
    · exact absurd hput nofun
  · obtain rfl := Except.ok.inj h
    rfl

/-- The length of the list is counted in 32 bits. -/
theorem fillIndices_length {l : List Nat} (h : fillIndices [] width height = .ok l) :
    l.length = (width - 1) * (height - 1) * 6 % 2 ^ 32 := by
  obtain ⟨s, hloop, rfl⟩ := map_eq_ok h
  refine (foldlM_keeps (g := fun s : List Nat × Nat => s.1.length) fillCell_length hloop).trans ?_
  simp [resized]

/-! ### Triangulations -/

/-- Two triangles with their corners at those of a cell: its halves along one of its diagonals.
The vertex of the pixel `(x, y)` is at position `x * height + y`. -/
def Halves (height x y : Nat) (s t : List Nat) : Prop :=
  let a := x * height + y
  let b := (x + 1) * height + y
  let c := (x + 1) * height + (y + 1)
  let d := x * height + (y + 1)
  (s.Perm [a, b, c] ∧ t.Perm [a, c, d]) ∨ (s.Perm [a, b, d] ∧ t.Perm [b, c, d])

/-- The list of indices consists of the two halves of every cell, each of them once, and its
indices are those of vertices. -/
structure Triangulates (width height : Nat) (indices : List Nat) : Prop where
  inside : ∀ i ∈ indices, i < width * height
  halved : ∃ (halves : Nat × Nat → List Nat × List Nat) (triangles : List (List Nat)),
    (∀ c ∈ cells width height, Halves height c.1 c.2 (halves c).1 (halves c).2) ∧
    triangles.Perm ((cells width height).flatMap fun c => [(halves c).1, (halves c).2]) ∧
    indices = triangles.flatten

namespace Halves

variable {x y : Nat} {s t : List Nat}

theorem length_eq (h : Halves height x y s t) : s.length = 3 ∧ t.length = 3 := by
  rcases h with ⟨hs, ht⟩ | ⟨hs, ht⟩
  · exact ⟨hs.length_eq, ht.length_eq⟩
  · exact ⟨hs.length_eq, ht.length_eq⟩

/-- Each half has a corner other than the first vertex. -/
theorem exists_pos (h : Halves height x y s t) : (∃ i ∈ s, 0 < i) ∧ ∃ i ∈ t, 0 < i := by
  rcases h with ⟨hs, ht⟩ | ⟨hs, ht⟩
  · have hfirst : (x + 1) * height + (y + 1) ∈ s := hs.mem_iff.mpr (by simp)
    have hsecond : (x + 1) * height + (y + 1) ∈ t := ht.mem_iff.mpr (by simp)
    exact ⟨⟨_, hfirst, Nat.succ_pos _⟩, ⟨_, hsecond, Nat.succ_pos _⟩⟩
  · have hfirst : x * height + (y + 1) ∈ s := hs.mem_iff.mpr (by simp)
    have hsecond : (x + 1) * height + (y + 1) ∈ t := ht.mem_iff.mpr (by simp)
    exact ⟨⟨_, hfirst, Nat.succ_pos _⟩, ⟨_, hsecond, Nat.succ_pos _⟩⟩

end Halves

namespace Triangulates

variable {indices : List Nat}

/-- What is said of both halves of every cell is said of every triangle. -/
theorem exists_triangles {P : List Nat → Prop} (h : Triangulates width height indices)
    (hP : ∀ {x y s t}, Halves height x y s t → P s ∧ P t) :
    ∃ triangles : List (List Nat), indices = triangles.flatten ∧
      triangles.length = 2 * ((width - 1) * (height - 1)) ∧ ∀ t ∈ triangles, P t := by
  obtain ⟨halves, triangles, hhalves, hperm, hflat⟩ := h.halved
  refine ⟨triangles, hflat, ?_, fun t ht => ?_⟩
  · rw [hperm.length_eq, ← length_cells]
    simp [List.length_flatMap, Nat.mul_comm]
  · obtain ⟨c, hc, ht⟩ := List.mem_flatMap.mp (hperm.mem_iff.mp ht)
    obtain ⟨hfirst, hsecond⟩ := hP (hhalves c hc)
    rcases List.mem_pair.mp ht with rfl | rfl
    · exact hfirst
    · exact hsecond

theorem length_eq (h : Triangulates width height indices) :
    indices.length = (width - 1) * (height - 1) * 6 := by
  obtain ⟨triangles, rfl, hlength, hthree⟩ := h.exists_triangles Halves.length_eq
  rw [List.length_flatten, List.map_congr_left hthree, List.map_const', List.sum_replicate_nat,
    hlength]
  omega

/-- The last triangle is not degenerate. -/
theorem not_zeros (l : List Nat) : ¬ Triangulates width height (l ++ [0, 0, 0]) := by
  intro h
  obtain ⟨triangles, hflat, -, hboth⟩ :=
    h.exists_triangles (P := fun t => t.length = 3 ∧ ∃ i ∈ t, 0 < i)
      fun hhalves => ⟨⟨hhalves.length_eq.1, hhalves.exists_pos.1⟩,
        ⟨hhalves.length_eq.2, hhalves.exists_pos.2⟩⟩
  rcases List.eq_nil_or_concat triangles with rfl | ⟨init, t, rfl⟩
  · exact absurd hflat (by simp)
  · obtain ⟨hthree, i, hi, hpos⟩ := hboth t (by simp)
    rw [List.concat_eq_append, List.flatten_append, List.flatten_singleton] at hflat
    obtain ⟨-, rfl⟩ := List.append_inj' hflat hthree.symm
    have hzero : i = 0 := by simpa using hi
    omega

end Triangulates

/-- A triangulation uses the last vertex. -/
theorem Triangulates.last_mem {indices : List Nat} (hw : 2 ≤ width) (hh : 2 ≤ height)
    (h : Triangulates width height indices) : width * height - 1 ∈ indices := by
  obtain ⟨halves, triangles, hhalves, hperm, rfl⟩ := h.halved
  have hc : (width - 2, height - 2) ∈ cells width height := mem_cells.mpr (by omega)
  have hlast : (width - 2 + 1) * height + (height - 2 + 1) = width * height - 1 := by
    obtain ⟨w, rfl⟩ := Nat.exists_eq_add_of_le' hw
    rw [Nat.add_sub_cancel, Nat.succ_mul (w + 1)]
    omega
  have hcorner : (width - 2 + 1) * height + (height - 2 + 1) ∈
      (halves (width - 2, height - 2)).2 := by
    rcases hhalves _ hc with ⟨-, ht⟩ | ⟨-, ht⟩
    · exact ht.mem_iff.mpr (by simp)
    · exact ht.mem_iff.mpr (by simp)
  rw [← hlast]
  refine List.mem_flatten.mpr ⟨_, hperm.mem_iff.mpr ?_, hcorner⟩
  exact List.mem_flatMap.mpr ⟨_, hc, by simp⟩

/-- The cells with the stride of the vertices, none left out, are a triangulation. -/
theorem triangulates_cells (width height : Nat) : Triangulates width height
    ((cells width height).flatMap fun c => cellIndices height c.1 c.2) := by
  constructor
  · intro i hi
    obtain ⟨⟨x, y⟩, hc, hi⟩ := List.mem_flatMap.mp hi
    obtain ⟨hx, hy⟩ := mem_cells.mp hc
    have hbound : (x + 1) * height + height ≤ width * height := by
      rw [← Nat.succ_mul]
      exact Nat.mul_le_mul_right _ (by omega)
    have hle : i ≤ (x + 1) * height + (y + 1) := le_of_mem_cellIndices hi
    omega
  · let halves : Nat × Nat → List Nat × List Nat := fun c =>
      ((cellIndices height c.1 c.2).take 3, (cellIndices height c.1 c.2).drop 3)
    refine ⟨halves, _, fun c _ => .inl ⟨?_, ?_⟩, List.Perm.refl _, ?_⟩
    · exact List.reverse_perm [c.1 * height + c.2, (c.1 + 1) * height + c.2,
        (c.1 + 1) * height + (c.2 + 1)]
    · exact (List.Perm.swap _ _ _).cons _
    · rw [← List.flatMap_id, List.flatMap_assoc]
      rfl

/-- With the stride of the source, and no cell left out, the list would be a triangulation on
square maps only. -/
theorem triangulates_width_iff (hw : 2 ≤ width) (hh : 2 ≤ height) :
    Triangulates width height ((cells width height).flatMap fun c => cellIndices width c.1 c.2) ↔
      width = height := by
  constructor
  · intro h
    have hlast : (width - 2 + 1) * width + (height - 2 + 1) < width * height :=
      h.inside _ (List.mem_flatMap.mpr ⟨(width - 2, height - 2), mem_cells.mpr (by omega),
        by simp [cellIndices]⟩)
    obtain ⟨⟨x, y⟩, hc, hmem⟩ := List.mem_flatMap.mp (h.last_mem hw hh)
    obtain ⟨hx, hy⟩ := mem_cells.mp hc
    have hle : width * height - 1 ≤ (x + 1) * width + (y + 1) := le_of_mem_cellIndices hmem
    have hrow : (x + 1) * width ≤ (width - 1) * width := Nat.mul_le_mul_right _ (by omega)
    obtain ⟨w, rfl⟩ := Nat.exists_eq_add_of_le' hw
    obtain ⟨h', rfl⟩ := Nat.exists_eq_add_of_le' hh
    have hproduct : (w + 2) * (h' + 2) = (w + 1) * (h' + 2) + (h' + 2) := Nat.succ_mul _ _
    rw [Nat.add_sub_cancel, Nat.add_sub_cancel] at hlast
    -- both bounds say the same of the last row
    have hupper : (w + 1) * (w + 2) ≤ (w + 1) * (h' + 2) := by omega
    have hlower : (w + 1) * (h' + 2) ≤ (w + 1) * (w + 2) := by
      have hrow' : (x + 1) * (w + 2) ≤ (w + 1) * (w + 2) := hrow
      omega
    have hw' := Nat.le_of_mul_le_mul_left hupper (Nat.succ_pos w)
    have hh' := Nat.le_of_mul_le_mul_left hlower (Nat.succ_pos w)
    omega
  · rintro rfl
    exact triangulates_cells width width

/-- **The index list is never a triangulation.** -/
theorem fillIndices_never (hw : 2 ≤ width) (hh : 2 ≤ height) :
    ¬ ∃ l, fillIndices [] width height = .ok l ∧ Triangulates width height l := by
  rintro ⟨l, hfill, htriangulates⟩
  have hlength := htriangulates.length_eq
  rw [fillIndices_length hfill] at hlength
  have hfits : (width - 1) * (height - 1) * 6 < 2 ^ 32 := by
    rw [← hlength]
    exact Nat.mod_lt _ (by decide)
  rw [fillIndices_eq hw hh hfits] at hfill
  split at hfill
  · obtain rfl := Except.ok.inj hfill
    exact Triangulates.not_zeros (indicesOf width (cells width height).dropLast ++ [0, 0, 0])
      (by simpa using htriangulates)
  · exact absurd hfill nofun

/-- Three columns of four vertices. -/
theorem fillIndices_never_three_four :
    ¬ ∃ l, fillIndices [] 3 4 = .ok l ∧ Triangulates 3 4 l :=
  fillIndices_never (by decide) (by decide)

/-- The single cell of four vertices is left out. -/
theorem fillIndices_two :
    fillIndices [] 2 2 = .ok [0, 0, 0, 0, 0, 0] ∧ ¬ Triangulates 2 2 [0, 0, 0, 0, 0, 0] :=
  ⟨by decide, Triangulates.not_zeros [0, 0, 0]⟩

/-! ### The mesh of a height map -/

/-- On plain numbers the loop leaves out the last cell too. -/
theorem foldl_cells (width : Nat) {as : List (Nat × Nat)} {l : List Nat} {i : Nat}
    (has : as ≠ []) (hl : l.length = 6 * i) (hN : N = 6 * (i + as.length)) :
    as.foldl (fun indices c =>
      if indices.length < N - 6 then indices ++ cellIndices width c.1 c.2 else indices) l =
      l ++ as.dropLast.flatMap fun c => cellIndices width c.1 c.2 := by
  induction as generalizing l i with
  | nil => exact absurd rfl has
  | cons a as ih =>
      rw [List.length_cons] at hN
      cases as with
      | nil =>
          rw [List.length_nil] at hN
          have hlast : ¬ l.length < N - 6 := by omega
          rw [List.foldl_cons, if_neg hlast]
          exact (List.append_nil l).symm
      | cons b as =>
          rw [List.length_cons] at hN
          have hmore : l.length < N - 6 := by omega
          have hlength : (l ++ cellIndices width a.1 a.2).length = 6 * (i + 1) := by
            rw [List.length_append, hl]
            rfl
          rw [List.foldl_cons, if_pos hmore, ih (List.cons_ne_nil _ _) hlength
            (by rw [List.length_cons]; omega), List.append_assoc]
          rfl

theorem buildIndices_eq (hw : 2 ≤ width) (hh : 2 ≤ height) :
    buildIndices width height =
      (cells width height).dropLast.flatMap fun c => cellIndices width c.1 c.2 := by
  have hpos : 0 < (width - 1) * (height - 1) := Nat.mul_pos (by omega) (by omega)
  have hlength := length_cells width height
  have hcells : cells width height ≠ [] := List.length_pos_iff.mp (by omega)
  have hloop := foldl_cells width (l := []) (i := 0)
    (N := (width - 1) * (height - 1) * 6) hcells rfl (by omega)
  rw [List.nil_append] at hloop
  rw [← hloop, cells, List.foldl_flatMap]
  simp only [List.foldl_map]
  rfl

/-- The mesh that `build` makes of a new one holds the list, where nothing overflows. -/
theorem fillIndices_setMesh {V : Type} [Inhabited V] (limits : Limits) (vertices : List V)
    (hw : 2 ≤ width) (hw' : width ≤ 4097) (hh : 2 ≤ height)
    (hfits : (width - 1) * (height - 1) * 6 < 2 ^ 31) :
    fillIndices [] width height = .ok ((empty limits).setMesh vertices width height).indices := by
  have hpos : 0 < (width - 1) * (height - 1) := Nat.mul_pos (by omega) (by omega)
  have hlength := length_cells width height
  have hsmall : indicesOf width (cells width height).dropLast = buildIndices width height := by
    rw [buildIndices_eq hw hh]
    refine List.flatMap_congr fun c hc => ?_
    obtain ⟨hx, hy⟩ := mem_cells.mp (List.mem_of_mem_dropLast hc)
    have hrow : (c.1 + 1) * width ≤ 4096 * 4097 := Nat.mul_le_mul (by omega) hw'
    have hrows : height - 1 ≤ (width - 1) * (height - 1) :=
      Nat.le_mul_of_pos_left _ (by omega)
    rw [List.map_congr_left (g := id), List.map_id]
    intro i hi
    have hle := le_of_mem_cellIndices hi
    exact Nat.mod_eq_of_lt (by omega)
  have hwritten : (buildIndices width height).length = 6 * ((width - 1) * (height - 1) - 1) := by
    rw [← hsmall, length_indicesOf, List.length_dropLast, hlength]
  rw [fillIndices_eq hw hh (by omega), if_pos (by omega), hsmall]
  show _ = Except.ok (buildIndices width height ++ (resized [] _ 0).drop _)
  have hrest : (resized ([] : List Nat) ((width - 1) * (height - 1) * 6) 0).drop
      (buildIndices width height).length = List.replicate 6 0 := by
    have hall : resized ([] : List Nat) ((width - 1) * (height - 1) * 6) 0 =
        List.replicate ((width - 1) * (height - 1) * 6) 0 := by
      simp [resized]
    have hsix : (width - 1) * (height - 1) * 6 - 6 * ((width - 1) * (height - 1) - 1) = 6 := by
      omega
    rw [hall, hwritten, List.drop_replicate, hsix]
  rw [hrest]

/-- A square height map of `2 ^ k + 1` pixels a side makes a mesh, with the vertices and the
index list that are spoken of above. -/
theorem TerrainBuilder.build_settles (normalize : Vec3 → Vec3)
    (closer : Vertex → Vertex → Vertex → Bool) {map : HeightMap} {k : Nat} (hk : k ≤ 12)
    (hw : map.width = 2 ^ k + 1) (hh : map.height = 2 ^ k + 1) :
    ∃ m, Settles (fun fuel => TerrainBuilder.build normalize closer fuel map) (.ok m) ∧
      setNormals normalize map.vertices map.width map.height = .ok m.vertices ∧
      fillIndices [] map.width map.height = .ok m.indices := by
  have hlength : (map.vertices.map (map.withNormal normalize)).length =
      (2 ^ k + 1) * (2 ^ k + 1) := by
    rw [List.length_map, HeightMap.length_vertices, hw, hh]
  obtain ⟨m, hrun, -, hfrom⟩ := build_settles_from closer (shipped_admits hk) hlength.ge
  have hpow : 2 ^ k ≤ 2 ^ 12 := Nat.pow_le_pow_right (by decide) hk
  have hpos := Nat.two_pow_pos k
  have hcells : 2 ^ k * 2 ^ k ≤ 2 ^ 12 * 2 ^ 12 := Nat.mul_le_mul hpow hpow
  refine ⟨m, ?_, ?_, ?_⟩
  · have hmesh := (hrun.succeedsAs fun fuel =>
      Unchecked.build_succeedsAs closer fuel _ _ _).comp (Except.map Prod.snd)
    refine hmesh.congr fun fuel => ?_
    rw [TerrainBuilder.build, setNormals_eq, hw, hh]
    rfl
  · rw [setNormals_eq, hfrom]
    rfl
  · rw [hw, hh, fillIndices_setMesh {} (map.vertices.map (map.withNormal normalize)) (by omega)
      (by omega) (by omega) (by rw [Nat.add_sub_cancel]; omega), hfrom]
    rfl

end Maple.Terrain
