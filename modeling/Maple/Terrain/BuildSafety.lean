import Mathlib.Data.Nat.Log
import Mathlib.Tactic.Linarith
import Maple.Terrain.UncheckedBuild

/-!
# Maple.Terrain.BuildSafety

**Which sizes `build` can be given.** `build` accepts every width from 2 to 4097 and does not
look at the height. It addresses the vertices of a level by shifts, which fits the pools only
if the width is one more than a power of two, and it reads a square of vertices, so that no
row may be missing. On these sizes it is safe (`build_safe_iff`); on every other size that it
accepts, one of the accesses of `buildVertNodes` is out of range.
-/

namespace Maple.Terrain

open Lib QuadCollapseMesh

variable {V : Type} {m m' : QuadCollapseMesh V} {level x y n : Nat}

/-! ### What a call that ends has read -/

/-- Only vertices have been written. -/
def Unmoved (m m' : QuadCollapseMesh V) : Prop := m' = { m with verts := m'.verts }

theorem Unmoved.trans {m'' : QuadCollapseMesh V} (h : Unmoved m m') (h' : Unmoved m' m'') :
    Unmoved m m'' := by
  unfold Unmoved at *
  rw [h', h]

/-- The two accesses for a vertex of a level are in range. -/
structure InReach (m : QuadCollapseMesh V) (level x y : Nat) : Prop where
  pool : m.vertNodesLevelOffset level + (y >>> (m.maxLevel - level)) * (2 ^ level + 1) +
    (x >>> (m.maxLevel - level)) < m.vertNodePoolSize
  vertices : y * m.maxLevelVerticesLength + x < m.vertices.length

theorem InReach.of_unmoved (h : Unmoved m m') (hreach : InReach m' level x y) :
    InReach m level x y := by
  rw [h] at hreach
  exact ⟨hreach.pool, hreach.vertices⟩

theorem initVertNode_ok (h : Unchecked.initVertNode m level x y = .ok m') :
    Unmoved m m' ∧ InReach m level x y := by
  obtain ⟨i, hget, hwrite⟩ := bind_eq_ok h
  have hpool : m.vertNodesLevelOffset level + (y >>> (m.maxLevel - level)) * (2 ^ level + 1) +
      (x >>> (m.maxLevel - level)) < m.vertNodePoolSize := by
    simp only [Unchecked.getVertNode] at hget
    split at hget
    · next hin => exact hin.2.2
    · exact absurd hget nofun
  cases hread : m.vertices[y * m.maxLevelVerticesLength + x]? with
  | none =>
      rw [hread] at hwrite
      exact absurd hwrite nofun
  | some v =>
      rw [hread] at hwrite
      obtain rfl := Except.ok.inj hwrite
      exact ⟨rfl, hpool, (List.getElem?_eq_some_iff.mp hread).1⟩

/-- A loop over `xs` that ends, where each turn leaves all but the vertices and makes sure of
`P`. -/
theorem foldlM_unmoved {f : QuadCollapseMesh V → Nat → Except MeshFault (QuadCollapseMesh V)}
    {P : QuadCollapseMesh V → Nat → Prop}
    (hP : ∀ {m m' : QuadCollapseMesh V} {x}, Unmoved m m' → P m' x → P m x)
    (hf : ∀ {m m' x}, f m x = .ok m' → Unmoved m m' ∧ P m x) {xs : List Nat}
    (h : xs.foldlM f m = .ok m') : Unmoved m m' ∧ ∀ x ∈ xs, P m x := by
  induction xs generalizing m with
  | nil =>
      obtain rfl := Except.ok.inj h
      exact ⟨rfl, nofun⟩
  | cons x xs ih =>
      obtain ⟨m₁, hfirst, hrest⟩ := bind_eq_ok (h : Except.bind _ _ = _)
      obtain ⟨hmoved, hx⟩ := hf hfirst
      obtain ⟨hmoved', hxs⟩ := ih hrest
      refine ⟨hmoved.trans hmoved', fun z hz => ?_⟩
      rcases List.mem_cons.mp hz with rfl | hz
      · exact hx
      · exact hP hmoved (hxs z hz)

/-- The loops of one level, and the levels after it. -/
theorem initVertNodes_ok {step : Nat} (hstep : step ≠ 0)
    (h : Unchecked.initVertNodes m level step = .ok m') :
    (∀ y ∈ forSteps m.maxLevelVerticesLength step, ∀ x ∈ forSteps m.maxLevelVerticesLength step,
      InReach m level x y) ∧
    ∃ m₁, Unmoved m m₁ ∧ Unchecked.initVertNodes m₁ (level + 1) (step / 2) = .ok m' := by
  rw [Unchecked.initVertNodes, dif_neg hstep] at h
  obtain ⟨m₁, hrows, hrest⟩ := bind_eq_ok h
  obtain ⟨hmoved, hall⟩ := foldlM_unmoved
    (P := fun s y => ∀ x ∈ forSteps m.maxLevelVerticesLength step, InReach s level x y)
    (fun hmoved hrow x hx => (hrow x hx).of_unmoved hmoved)
    (fun hrow => foldlM_unmoved (P := fun s x => InReach s level x _)
      (fun hmoved hreach => hreach.of_unmoved hmoved) initVertNode_ok hrow) hrows
  exact ⟨hall, m₁, hmoved, hrest⟩

/-- The loops come to every level that has a step. -/
theorem initVertNodes_level (h : Unchecked.initVertNodes m 0 n = .ok m') {j : Nat}
    (hj : n / 2 ^ j ≠ 0) :
    ∃ m₁, Unmoved m m₁ ∧ Unchecked.initVertNodes m₁ j (n / 2 ^ j) = .ok m' := by
  induction j with
  | zero => exact ⟨m, rfl, by simpa using h⟩
  | succ j ih =>
      have hhalf : n / 2 ^ (j + 1) = n / 2 ^ j / 2 := by rw [Nat.pow_succ, Nat.div_div_eq_div_mul]
      rw [hhalf] at hj ⊢
      have hstep : n / 2 ^ j ≠ 0 := fun hzero => hj (by rw [hzero])
      obtain ⟨m₁, hmoved, hrun⟩ := ih hstep
      obtain ⟨-, m₂, hmoved', hrest⟩ := initVertNodes_ok hstep hrun
      exact ⟨m₂, hmoved.trans hmoved', hrest⟩

/-- The last vertex of every level has been read and written. -/
theorem inReach_last (h : Unchecked.initVertNodes m 0 n = .ok m')
    (hlength : m.maxLevelVerticesLength = n + 1) {j : Nat} (hj : n / 2 ^ j ≠ 0)
    (hlast : n % (n / 2 ^ j) = 0) : InReach m j n n := by
  obtain ⟨m₁, hmoved, hrun⟩ := initVertNodes_level h hj
  obtain ⟨hall, -⟩ := initVertNodes_ok hj hrun
  have hlength₁ : m₁.maxLevelVerticesLength = n + 1 := by rw [hmoved, hlength]
  have hmem : n ∈ forSteps m₁.maxLevelVerticesLength (n / 2 ^ j) := by
    rw [hlength₁, forSteps, List.mem_map]
    refine ⟨n / (n / 2 ^ j), List.mem_range.mpr (Nat.lt_succ_self _), ?_⟩
    exact Nat.div_mul_cancel (Nat.dvd_of_mod_eq_zero hlast)
  exact (hall n hmem n hmem).of_unmoved hmoved

/-! ### The sizes -/

theorem levelCount_eq (hn : n ≠ 0) : levelCount n = Nat.log 2 n + 1 := by
  induction n using Nat.strongRecOn with
  | ind n ih =>
      rw [levelCount, dif_neg hn]
      by_cases hhalf : n / 2 = 0
      · rw [hhalf, levelCount, dif_pos rfl, Nat.log_of_lt (by omega)]
      · rw [ih _ (by omega) hhalf, ← Nat.log_of_one_lt_of_le (by decide) (by omega)]

/-- A width that is one more than a power of two, and no fewer rows than columns. -/
def Fits (width height : Nat) : Prop := (∃ k, width = 2 ^ k + 1) ∧ width ≤ height

variable [Inhabited V] {vertices : List V} {width height : Nat}

/-- `build` of a new mesh ends without a fault. -/
def BuildSafe (closer : V → V → V → Bool) (vertices : List V) (width height : Nat) : Prop :=
  ∃ r, Settles (fun fuel => Unchecked.build closer fuel (empty {}) vertices width height) (.ok r)

/-- None of the checks of `build` fails. -/
theorem unchecked_build_eq (closer : V → V → V → Bool) (hw : 2 ≤ width) (hw' : width ≤ 4097)
    (fuel : Nat) :
    Unchecked.build closer fuel (empty {}) vertices width height =
      Unchecked.buildTrees closer fuel (((empty {}).setMesh vertices width height).resizePools
        (Nat.log 2 (width - 1) + 1)) := by
  have hlength : ((empty {}).setMesh vertices width height).maxLevelVerticesLength = width := rfl
  have hlimits : ((empty {}).setMesh vertices width height).limits = {} := rfl
  have hcount := levelCount_eq (n := width - 1) (by omega)
  have hlog : Nat.log 2 (width - 1) < 13 := Nat.log_lt_of_lt_pow (by omega) (by omega)
  have hshort : ¬ width < 2 := by omega
  have hlong : ¬ ({} : Limits).maxLength < width := by
    show ¬ 4097 < width
    omega
  have hmany : ¬ ({} : Limits).maxQuadLevelCount < Nat.log 2 (width - 1) + 1 := by
    show ¬ 13 < Nat.log 2 (width - 1) + 1
    omega
  simp only [Unchecked.build, hlength, hlimits, if_neg hshort, if_neg hlong, hcount, if_neg hmany]

/-- A build that ends has had enough vertices and a width that fits. -/
theorem Fits.of_safe {closer : V → V → V → Bool} (hw : 2 ≤ width) (hw' : width ≤ 4097)
    (hvertices : vertices.length = width * height) (h : BuildSafe closer vertices width height) :
    Fits width height := by
  obtain ⟨r, N, hN⟩ := h
  obtain ⟨n, rfl⟩ : ∃ n, width = n + 1 := ⟨width - 1, by omega⟩
  have hrun := (unchecked_build_eq closer hw hw' N).symm.trans (hN N (Nat.le_refl N))
  rw [Nat.add_sub_cancel] at hrun
  obtain ⟨m₁, hverts, -⟩ := bind_eq_ok hrun
  obtain ⟨m₂, hinit, -⟩ := bind_eq_ok hverts
  have hn : n ≠ 0 := by omega
  obtain ⟨hpool, hoffset, -, -⟩ := poolSizes_eq (Nat.log 2 n) fun _ => 0
  have hlow := Nat.pow_log_le_self 2 hn
  have hhigh : n < 2 ^ (Nat.log 2 n + 1) := Nat.lt_pow_succ_log_self (by decide) n
  constructor
  · -- the last vertex of the last level lies in the pool
    have hone : n / 2 ^ Nat.log 2 n = 1 := by
      rw [Nat.pow_succ] at hhigh
      exact Nat.div_eq_of_lt_le (by omega) (by omega)
    have hreach := (inReach_last (n := n) hinit rfl (j := Nat.log 2 n) (by rw [hone]; decide)
      (by rw [hone, Nat.mod_one])).pool
    change (poolSizes (Nat.log 2 n + 1) fun _ => 0).vertNodesLevelOffset (Nat.log 2 n) +
      (n >>> (Nat.log 2 n - Nat.log 2 n)) * (2 ^ Nat.log 2 n + 1) +
      (n >>> (Nat.log 2 n - Nat.log 2 n)) <
      (poolSizes (Nat.log 2 n + 1) fun _ => 0).vertNodePoolSize at hreach
    rw [hpool, hoffset _ (Nat.le_refl _), Nat.sub_self, Nat.shiftRight_zero, vertOffset] at hreach
    refine ⟨Nat.log 2 n, ?_⟩
    generalize 2 ^ Nat.log 2 n = t at *
    by_contra hne
    have hlt : t + 1 ≤ n := by omega
    have hrow := Nat.mul_le_mul_right (t + 1) hlt
    omega
  · -- the last vertex of the first level has been given
    have hself : n / 2 ^ 0 = n := by simp
    have hreach := (inReach_last (n := n) hinit rfl (j := 0) (by rw [hself]; exact hn)
      (by rw [hself, Nat.mod_self])).vertices
    change n * (n + 1) + n < vertices.length at hreach
    by_contra hlt
    have hrow := Nat.mul_le_mul_left (n + 1) (show height ≤ n by omega)
    rw [hvertices] at hreach
    nlinarith

/-- On a width that fits and enough vertices, `build` ends and builds both trees. -/
theorem Fits.safe (closer : V → V → V → Bool) (h : Fits width height) (hw : 2 ≤ width)
    (hw' : width ≤ 4097) (hvertices : vertices.length = width * height) :
    BuildSafe closer vertices width height := by
  obtain ⟨⟨k, rfl⟩, hrows⟩ := h
  have hk : k ≤ 12 := (Nat.pow_le_pow_iff_right (a := 2) (by decide)).mp (by omega)
  have hsquare : (2 ^ k + 1) * (2 ^ k + 1) ≤ vertices.length := by
    rw [hvertices]
    exact Nat.mul_le_mul_left _ hrows
  have hlog : Nat.log 2 (2 ^ k + 1 - 1) + 1 = k + 1 := by
    rw [Nat.add_sub_cancel, Nat.log_pow (by decide)]
  obtain ⟨m, hrun, -⟩ := (initialising_resizePools (shipped_admits hk) height hsquare).buildTrees
    closer unused_resizePools rfl
  refine ⟨(true, m), (hrun.succeedsAs fun fuel =>
    Unchecked.buildTrees_succeedsAs closer fuel).congr fun fuel => ?_⟩
  rw [unchecked_build_eq closer hw hw', hlog]

/-- **The sizes on which `build` is safe.** Of the sizes it accepts, `build` ends without an
access out of range, without a failed allocation and with a recursion that ends exactly on
those whose width is one more than a power of two and no larger than the height. -/
theorem build_safe_iff (closer : V → V → V → Bool) (hw : 2 ≤ width) (hw' : width ≤ 4097)
    (hvertices : vertices.length = width * height) :
    BuildSafe closer vertices width height ↔ (∃ k, width = 2 ^ k + 1) ∧ width ≤ height :=
  ⟨Fits.of_safe hw hw' hvertices, fun h => Fits.safe closer h hw hw' hvertices⟩

/-- Three columns and four rows. -/
theorem build_safe_three_four :
    BuildSafe (fun _ _ _ => true) (List.range 12) 3 4 := by
  have hvertices : (List.range 12).length = 3 * 4 := by decide
  exact (build_safe_iff (fun _ _ _ => true) (by decide) (by decide) hvertices).mpr
    ⟨⟨1, rfl⟩, by decide⟩

/-- Four columns do not fit the pools, and a third row is missing for three columns. -/
theorem build_unsafe :
    ¬ BuildSafe (fun _ _ _ => true) (List.range 16) 4 4 ∧
      ¬ BuildSafe (fun _ _ _ => true) (List.range 6) 3 2 := by
  constructor
  · intro hsafe
    have hvertices : (List.range 16).length = 4 * 4 := by decide
    obtain ⟨⟨k, hk⟩, -⟩ := Fits.of_safe (by decide) (by decide) hvertices hsafe
    match k with
    | 0 => exact absurd hk (by decide)
    | 1 => exact absurd hk (by decide)
    | k + 2 =>
        rw [Nat.pow_add] at hk
        omega
  · intro hsafe
    have hvertices : (List.range 6).length = 3 * 2 := by decide
    obtain ⟨-, hrows⟩ := Fits.of_safe (by decide) (by decide) hvertices hsafe
    exact absurd hrows (by decide)

end Maple.Terrain
