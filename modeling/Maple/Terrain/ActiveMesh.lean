import Mathlib.Topology.Order.DenselyOrdered
import Mathlib.Topology.Instances.Real.Lemmas
import Mathlib.Tactic.Linarith
import Mathlib.Tactic.Positivity
import Maple.Lib.Tiling
import Maple.Terrain.Marking

/-!
# Maple.Terrain.ActiveMesh

**The emitted quads tile the terrain.** `recursiveSetActiveMesh` walks down from the
root quad as long as the quads are active, and emits the first quad on each path
that is not. A leaf is never active, so the walk ends in time, and the squares of the
emitted quads tile the square of the root (`Emits`). Each corner of a quad is drawn
with the vertex that addActiveVertNode finds, the nearest visited ancestor
(`Source`); in every frame there is one if the root vertices have been visited.
-/

namespace Maple.Terrain

open Lib QuadCollapseMesh

variable {V : Type} {k l : Nat} {m m' : QuadCollapseMesh V}

/-! ### Sources -/

/-- What `addActiveVertNode` finds for a vertex: the vertex itself or its nearest
ancestor that has been visited. -/
def Source (m : QuadCollapseMesh V) (v : Nat) (r : Option Nat) : Prop :=
  Settles (fun fuel => addActiveVertNode fuel m v) (.ok r)

theorem Source.unique {v : Nat} {r r' : Option Nat} (h : Source m v r) (h' : Source m v r') :
    r = r' :=
  Except.ok.inj (Settles.unique h h')

theorem Source.visited {v : Nat} (hv : Visited m v) : Source m v (some v) :=
  Settles.of_forall fun _ => if_pos hv

/-- An unvisited vertex has the source of its parent. -/
theorem Source.of_parent {v p : Nat} {r : Option Nat} (hv : ¬ Visited m v)
    (hp : (m.verts v).parent = some p) (h : Source m p r) : Source m v r := by
  refine Settles.of_succ (h.congr fun fuel => ?_)
  have hunvisited : ¬ (m.verts v).activeFrame = m.updateFrame := hv
  rw [addActiveVertNode, if_neg hunvisited, hp]
  rfl

/-- Every vertex has a source, if the root vertices do. -/
theorem Shape.exists_source (h : Shape k m) {i j : Nat} (hg : InGrid k l i j) :
    ∃ r, Source m (vertIndex l i j) r ∧
      ((∀ c, Visited m (vertIndex 0 (dx c) (dy c))) → ∃ v, r = some v) := by
  induction l generalizing i j with
  | zero =>
      by_cases hv : Visited m (vertIndex 0 i j)
      · exact ⟨_, Source.visited hv, fun _ => ⟨_, rfl⟩⟩
      · have hnone : (m.verts (vertIndex 0 i j)).parent = none := by
          cases hp : (m.verts (vertIndex 0 i j)).parent with
          | none => rfl
          | some p =>
              obtain ⟨l', x, y, -, -, hg', heq, -⟩ := h.tree.parent hp
              exact absurd (vertIndex_inj hg hg' heq).1 (by simp)
        refine ⟨none, Settles.of_succ (Settles.of_forall fun fuel => ?_), fun hroots => ?_⟩
        · have hunvisited : ¬ (m.verts (vertIndex 0 i j)).activeFrame = m.updateFrame := hv
          rw [addActiveVertNode, if_neg hunvisited, hnone]
          rfl
        · obtain ⟨c, rfl, rfl⟩ := exists_corner i (Nat.lt_succ_of_le hg.column) j
            (Nat.lt_succ_of_le hg.row)
          exact absurd (hroots c) hv
  | succ l ih =>
      by_cases hv : Visited m (vertIndex (l + 1) i j)
      · exact ⟨_, Source.visited hv, fun _ => ⟨_, rfl⟩⟩
      · obtain ⟨p, hp⟩ := Option.isSome_iff_exists.mp (h.collapsed hg)
        obtain ⟨i', j', rfl, hi, hj⟩ := h.tree.parent_vert hg hp
        obtain ⟨r, hr, hsome⟩ := ih ⟨Nat.le_of_succ_le hg.level, hi.le hg.column, hj.le hg.row⟩
        exact ⟨r, Source.of_parent hv hp hr, hsome⟩

/-! ### Emissions -/

/-- The vertices that are appended for the corners `cs`. -/
def pushesOf (src : Fin 4 → Option Nat) (cs : List (Fin 4)) : List (Fin 4 × Nat) :=
  cs.filterMap fun c => (src c).map fun v => (c, v)

theorem le_sum_corners (N : Fin 4 → Nat) (c : Fin 4) : N c ≤ N 0 + N 1 + N 2 + N 3 := by
  match c with
  | 0 => omega
  | 1 => omega
  | 2 => omega
  | 3 => omega

/-- A loop that appends what every corner gives. -/
theorem foldlM_pushes {src : Fin 4 → Option Nat}
    {f : List (Fin 4 × Nat) → Fin 4 → Except MeshFault (List (Fin 4 × Nat))}
    (hf : ∀ acc c, f acc c = .ok (acc ++ pushesOf src [c])) (cs : List (Fin 4))
    (acc : List (Fin 4 × Nat)) : cs.foldlM f acc = .ok (acc ++ pushesOf src cs) := by
  induction cs generalizing acc with
  | nil => exact congrArg Except.ok (List.append_nil acc).symm
  | cons c cs ih =>
      rw [List.foldlM_cons, hf]
      refine (ih (acc ++ pushesOf src [c])).trans ?_
      rw [List.append_assoc]
      exact congrArg (fun pushes => Except.ok (acc ++ pushes)) List.filterMap_append.symm

theorem emit_settles {q : QuadPtr} {src : Fin 4 → Option Nat}
    (hsrc : ∀ c, Source m ((m.quads q).cornerVertNodes c) (src c)) :
    Settles (fun fuel => emit fuel m q)
      (.ok { quad := q, pushes := pushesOf src (triangles (m.quads q).triangulationMode) }) := by
  choose N hN using hsrc
  refine ⟨N 0 + N 1 + N 2 + N 3, fun n hn => ?_⟩
  have hcorner : ∀ c, addActiveVertNode n m ((m.quads q).cornerVertNodes c) = .ok (src c) :=
    fun c => hN c n ((le_sum_corners N c).trans hn)
  refine congrArg (Except.map (Emission.mk q)) (foldlM_pushes (fun acc c => ?_) _ [])
  rw [hcorner c]
  cases hc : src c with
  | none => simp [pushesOf, hc, Except.map]
  | some v => simp [pushesOf, hc, Except.map]

/-- The square of a quad, in units of the last level. -/
def square (k l a b : Nat) : Set (ℝ × ℝ) :=
  Set.Icc (a * 2 ^ (k - l) : ℝ) ((a + 1) * 2 ^ (k - l)) ×ˢ
    Set.Icc (b * 2 ^ (k - l) : ℝ) ((b + 1) * 2 ^ (k - l))

/-- The part of the terrain that a quad covers. -/
def region (k : Nat) (m : QuadCollapseMesh V) (q : QuadPtr) : Set (ℝ × ℝ) :=
  {x | ∃ l a b, IsQuad k m q l a b ∧ x ∈ square k l a b}

theorem region_eq {q : QuadPtr} {a b : Nat} (hq : IsQuad k m q l a b) :
    region k m q = square k l a b := by
  ext x
  refine ⟨fun ⟨l', a', b', hq', hx⟩ => ?_, fun hx => ⟨l, a, b, hq, hx⟩⟩
  obtain ⟨rfl, rfl, rfl⟩ := hq.inj hq'
  exact hx

theorem interior_square (k l a b : Nat) :
    interior (square k l a b) =
      Set.Ioo (a * 2 ^ (k - l) : ℝ) ((a + 1) * 2 ^ (k - l)) ×ˢ
        Set.Ioo (b * 2 ^ (k - l) : ℝ) ((b + 1) * 2 ^ (k - l)) := by
  rw [square, interior_prod_eq, interior_Icc, interior_Icc]

/-- The halves of a side of a quad make it up. -/
theorem mem_halves {s x : ℝ} (hs : 0 < s) (a : Nat) :
    (a * (2 * s) ≤ x ∧ x ≤ (a + 1) * (2 * s)) ↔
      ∃ u < 2, (2 * a + u : Nat) * s ≤ x ∧ x ≤ ((2 * a + u : Nat) + 1) * s := by
  constructor
  · rintro ⟨hlow, hhigh⟩
    by_cases hx : x ≤ (2 * a + 1) * s
    · refine ⟨0, by decide, ?_, ?_⟩ <;> push_cast <;> linarith
    · refine ⟨1, by decide, ?_, ?_⟩ <;> push_cast <;> linarith
  · rintro ⟨u, hu, hlow, hhigh⟩
    obtain rfl | rfl : u = 0 ∨ u = 1 := by omega
    all_goals
      push_cast at hlow hhigh
      exact ⟨by linarith, by linarith⟩

/-- The halves have no inner points in common. -/
theorem halves_disjoint {s x : ℝ} {a u v : Nat} (hs : 0 < s) (huv : u < v)
    (hu : x < ((2 * a + u : Nat) + 1) * s) : ¬ (2 * a + v : Nat) * s < x := by
  intro hv
  have hle : ((2 * a + u : Nat) + 1 : ℝ) ≤ (2 * a + v : Nat) := by
    exact_mod_cast (show 2 * a + u + 1 ≤ 2 * a + v by omega)
  have := mul_le_mul_of_nonneg_right hle hs.le
  linarith

/-- The children of a quad tile it. -/
theorem tiles_children {a b : Nat} (hl : l < k) :
    Tiles (([0, 1, 2, 3] : List (Fin 4)).map fun c =>
      square k (l + 1) (2 * a + dx c) (2 * b + dy c)) (square k l a b) := by
  have hpos : (0 : ℝ) < 2 ^ (k - (l + 1)) := by positivity
  have hdouble : (2 : ℝ) ^ (k - l) = 2 * 2 ^ (k - (l + 1)) := by
    rw [← pow_succ']
    congr 1
    omega
  have hmem : ∀ c : Fin 4, c ∈ ([0, 1, 2, 3] : List (Fin 4)) := by decide
  refine ⟨fun x => ?_, List.pairwise_map.mpr ?_⟩
  · simp only [square, hdouble, List.mem_map, exists_exists_and_eq_and, Set.mem_prod, Set.mem_Icc,
      mem_halves hpos]
    constructor
    · rintro ⟨⟨u, hu, hx⟩, v, hv, hy⟩
      obtain ⟨c, rfl, rfl⟩ := exists_corner u hu v hv
      exact ⟨c, hmem c, hx, hy⟩
    · rintro ⟨c, -, hx, hy⟩
      exact ⟨⟨dx c, Nat.lt_succ_of_le (dx_le c), hx⟩, dy c, Nat.lt_succ_of_le (dy_le c), hy⟩
  · refine List.Pairwise.imp (fun {c c'} hne => ?_)
      (show ([0, 1, 2, 3] : List (Fin 4)).Nodup by decide)
    rw [interior_square, interior_square, Set.disjoint_left]
    rintro x ⟨⟨hx, hx'⟩, hy, hy'⟩ ⟨⟨hu, hu'⟩, hv, hv'⟩
    rcases Nat.lt_trichotomy (dx c) (dx c') with hlt | heq | hlt
    · exact halves_disjoint hpos hlt hx' hu
    · rcases Nat.lt_trichotomy (dy c) (dy c') with hlt | heq' | hlt
      · exact halves_disjoint hpos hlt hy' hv
      · exact hne (corner_ext heq heq')
      · exact halves_disjoint hpos hlt hv' hy
    · exact halves_disjoint hpos hlt hu' hx

/-! ### The walk over the quads -/

/-- The emission of the quad in column `a` and row `b` of level `l`. -/
structure Emitted (k : Nat) (m : QuadCollapseMesh V) (e : Emission) (l a b : Nat) : Prop where
  quad : IsQuad k m e.quad l a b
  inactive : ¬ Active m e.quad
  pushes : ∃ src, (∀ c, Source m (vertIndex l (a + dx c) (b + dy c)) (src c)) ∧
    e.pushes = pushesOf src (triangles (m.quads e.quad).triangulationMode)

/-- What the walk from a quad emits. -/
structure Emits (k : Nat) (m : QuadCollapseMesh V) (l a b : Nat) (es : List Emission) : Prop where
  tiles : Tiles (es.map fun e => region k m e.quad) (square k l a b)
  emitted : ∀ e ∈ es, ∃ l' a' b', Emitted k m e l' a' b'

/-- A quad that is not active is emitted. -/
theorem emits_self (h : Shape k m) {q : QuadPtr} {a b : Nat} (hq : IsQuad k m q l a b)
    (hactive : ¬ Active m q) :
    ∃ es, Settles (fun fuel => recursiveSetActiveMesh fuel m (some q)) (.ok es) ∧
      Emits k m l a b es := by
  have hsource : ∀ c, ∃ r, Source m (vertIndex l (a + dx c) (b + dy c)) r := fun c => by
    obtain ⟨r, hr, -⟩ := h.exists_source (hq.grid.corner c)
    exact ⟨r, hr⟩
  choose src hsrc using hsource
  have hemit := emit_settles (q := q) fun c => (hq.corner c).symm ▸ hsrc c
  refine ⟨_, Settles.of_succ ((hemit.comp (Except.map ([·]))).congr fun fuel => ?_), ?_, ?_⟩
  · unfold recursiveSetActiveMesh
    by_cases hstamp : (m.quads q).activeFrame = m.updateFrame
    · have hstate : (m.quads q).state = .boundary := by
        cases hcase : (m.quads q).state with
        | active => exact absurd ⟨hstamp, hcase⟩ hactive
        | boundary => rfl
      rw [if_pos hstamp, if_pos hstate]
    · rw [if_neg hstamp]
  · rw [List.map_singleton, region_eq hq]
    exact Tiles.singleton _
  · intro e he
    obtain rfl := List.mem_singleton.mp he
    exact ⟨l, a, b, hq, hactive, src, hsrc, rfl⟩

/-- **`recursiveSetActiveMesh`** ends and emits a tiling of the quad. -/
theorem emits {d : Nat} (h : Shape k m)
    (hleaf : ∀ i, (m.quads (.leaf i)).activeFrame ≠ 0 → (m.quads (.leaf i)).state = .boundary)
    (hframe : m.updateFrame ≠ 0) {q : QuadPtr} {a b : Nat} (hd : l + d = k)
    (hq : IsQuad k m q l a b) :
    ∃ es, Settles (fun fuel => recursiveSetActiveMesh fuel m (some q)) (.ok es) ∧
      Emits k m l a b es := by
  induction d generalizing l q a b with
  | zero =>
      refine emits_self h hq fun hactive => ?_
      cases q with
      | node i => exact absurd (hq.isNode.mp trivial) (by omega)
      | leaf i =>
          have hstate := hleaf i (hactive.1 ▸ hframe)
          exact absurd (hactive.2.symm.trans hstate) (by simp)
  | succ d ih =>
      by_cases hactive : Active m q
      · have hl : l < k := by omega
        obtain ⟨i, hi, hchild⟩ := h.linked hq.grid hl
        obtain rfl := h.unique hq hi
        have hwalk : ∀ c, ∃ es, Settles (fun fuel => recursiveSetActiveMesh fuel m
            ((m.inner i).children c)) (.ok es) ∧
            Emits k m (l + 1) (2 * a + dx c) (2 * b + dy c) es := by
          intro c
          obtain ⟨x, hx, hxq, -⟩ := hchild c
          rw [hx]
          exact ih (by omega) hxq
        choose es hrun hemits using hwalk
        choose N hN using hrun
        refine ⟨([0, 1, 2, 3] : List (Fin 4)).flatMap es,
          ⟨N 0 + N 1 + N 2 + N 3 + 1, fun n hn => ?_⟩, ?_, fun e he => ?_⟩
        · obtain ⟨n, rfl⟩ : ∃ x, n = x + 1 := ⟨n - 1, by omega⟩
          have hcall : ∀ c, recursiveSetActiveMesh n m ((m.inner i).children c) = .ok (es c) := by
            have hsum : N 0 + N 1 + N 2 + N 3 ≤ n := Nat.le_of_succ_le_succ hn
            exact fun c => hN c n ((le_sum_corners N c).trans hsum)
          have hstate : ¬ (m.quads (.node i)).state = .boundary := by
            rw [hactive.2]
            decide
          show recursiveSetActiveMesh (n + 1) m (some (.node i)) = _
          rw [recursiveSetActiveMesh, if_pos hactive.1, if_neg hstate]
          simp only [List.foldlM_cons, List.foldlM_nil, hcall, Except.map, bind, Except.bind]
          simp [pure, Except.pure]
        · rw [List.map_flatMap]
          exact Tiles.flatMap (fun c => (hemits c).tiles) (tiles_children hl)
        · obtain ⟨c, -, he⟩ := List.mem_flatMap.mp he
          exact (hemits c).emitted e he
      · exact emits_self h hq hactive

end Maple.Terrain
