import Maple.Engine.LeftOverSearch

/-!
# Maple.Engine.OrderedTree

**Searching an ordered quad tree**, whatever history it has. The order is stated on the links
in the map: what a path from the child in a direction leads to compares to the node in this
direction. It is the search invariant of the tree that the links spell out, so `findFrom` and
`findNode` miss nothing, and `add` keeps it.
-/

namespace Maple

open Lib

namespace QuadTree

variable {K V : Type} [Zero K] [DecidableEq K]

/-- Everything below a node in a direction compares to it in this direction. -/
def Sides (cmp : V → V → Direction) (m : K → Option (Node K V)) : Prop :=
  ∀ k n d path j x, m k = some n → follow m (n.leaf d) path = some j → m j = some x →
    cmp x.value n.value = d

theorem Repr.ordered_of_sides {cmp : V → V → Direction} {m : K → Option (Node K V)}
    (hsides : Sides cmp m) (h0 : m 0 = none) {T : DirTree Direction K V} {p k : K}
    (hT : Repr m T p k) : T.Ordered cmp := by
  induction T generalizing p k with
  | nil => trivial
  | node key v sub ih =>
      obtain ⟨rfl, -, n, hn, rfl, -, hsub⟩ := hT
      refine ⟨fun d j w hj => ?_, fun d => ih d (hsub d)⟩
      obtain ⟨-, x, hx, rfl⟩ := (hsub d).entry hj
      obtain ⟨path, hpath⟩ := ((hsub d).mem_iff_follow h0).mp hj.mem
      exact hsides k n d path j x hn hpath hx

theorem Repr.side_of_ordered {cmp : V → V → Direction} {m : K → Option (Node K V)}
    (h0 : m 0 = none) {T : DirTree Direction K V} {p start : K} (hT : Repr m T p start)
    (hord : T.Ordered cmp) {k : K} (hk : T.Mem k) {n : Node K V} {d : Direction}
    {path : List Direction} {j : K} {x : Node K V} (hn : m k = some n)
    (hpath : follow m (n.leaf d) path = some j) (hx : m j = some x) :
    cmp x.value n.value = d := by
  induction T generalizing p start with
  | nil => exact absurd hk (DirTree.mem_nil k)
  | node key v sub ih =>
      obtain ⟨rfl, -, n', hn', rfl, -, hsub⟩ := hT
      cases DirTree.mem_node.mp hk with
      | inl heq =>
          subst heq
          obtain rfl : n = n' := Option.some.inj (hn.symm.trans hn')
          obtain ⟨w, hw⟩ := ((hsub d).mem_iff_follow h0).mpr ⟨path, hpath⟩
          obtain ⟨-, x', hx', rfl⟩ := (hsub d).entry hw
          obtain rfl : x = x' := Option.some.inj (hx.symm.trans hx')
          exact hord.1 d j x.value hw
      | inr hbelow =>
          obtain ⟨e, he⟩ := hbelow
          exact ih e (hsub e) (hord.2 e) he

/-- On the links or on the tree that they spell out, the order is the same. -/
theorem Shape.sides_iff {t : QuadTree K V} {T : DirTree Direction K V} (h : Shape t T) :
    Sides t.comparator t.nodes.find ↔ T.Ordered t.comparator := by
  constructor
  · exact fun hsides => h.repr.ordered_of_sides hsides h.zero_free
  · intro hord k n d path j x hn
    exact h.repr.side_of_ordered h.zero_free hord (h.covers k (by simp [hn])) hn

end QuadTree

namespace TextureAtlas

open QuadTree

/-- An ordered finite tree of leftovers. -/
structure OrderedTree (t : QuadTree Nat LeftOver) : Prop where
  comparator : t.comparator = TextureAtlas.comparator
  finite : ∃ T, Shape t T
  sides : Sides TextureAtlas.comparator t.nodes.find

theorem OrderedTree.exists_shape {t : QuadTree Nat LeftOver} (h : OrderedTree t) :
    ∃ T, Shape t T ∧ T.Ordered TextureAtlas.comparator := by
  obtain ⟨hc, ⟨T, hT⟩, hsides⟩ := h
  have hiff := hT.sides_iff
  rw [hc] at hiff
  exact ⟨T, hT, hiff.mp hsides⟩

/-- **Ordered trees.** For every size `findFrom` and `findNode` find a rectangle that fits if
one is stored, and `add` of a fresh key leads to an ordered tree. -/
theorem orderedTree_search {t : QuadTree Nat LeftOver} (h : OrderedTree t) :
    (∀ v j n, t.nodes.find j = some n → fits v n.value →
      ∃ k x, Settles (fun fuel => findFrom v fits t.comparator fuel t.nodes t.root)
          (some (k, t.nodes)) ∧
        k ≠ 0 ∧ t.nodes.find k = some x ∧ fits v x.value) ∧
    (∀ v, SearchExact t v) ∧
    ∀ key value, key ≠ 0 → t.nodes.find key = none →
      ∃ t', Settles (fun fuel => t.add fuel key value) (some t') ∧ OrderedTree t' := by
  obtain ⟨T, hT, hord⟩ := h.exists_shape
  refine ⟨fun v j n hn hfit => ?_, searchExact_of_ordered hT h.comparator hord,
    fun key value hkey hfresh => ?_⟩
  · have hj : T.Entry j n.value := hT.entry_iff.mpr (by rw [hn]; rfl)
    obtain ⟨e, he, hefit⟩ := probe_complete hord hj hfit
    obtain ⟨he0, x, hx, hvalue⟩ := hT.repr.entry (probe_entry he)
    have hfind := findFrom_settles v fits t.comparator hT.repr
    rw [h.comparator, he, ← h.comparator] at hfind
    exact ⟨e.1, x, hfind, he0, hx, hvalue ▸ hefit⟩
  · obtain ⟨t', hrun, hc, T', hT', hord'⟩ :=
      add_ordered hT (h.comparator.symm ▸ hord) hkey hfresh value
    rw [← hc, ← hT'.sides_iff, hc, h.comparator] at hord'
    exact ⟨t', hrun, hc.trans h.comparator, ⟨T', hT'⟩, hord'⟩

/-- The tree of four leftovers, one to the left of the first, one to its right and one above
it. -/
theorem orderedTree_search_four :
    ∃ t : QuadTree Nat LeftOver,
      t.nodes.find 1 = some ⟨.make 0 0 10 10, 0, 2, 3, 4, 0⟩ ∧
      (∃ k x, Settles (fun fuel => findFrom (.make 0 0 8 12) fits t.comparator fuel t.nodes t.root)
          (some (k, t.nodes)) ∧
        k ≠ 0 ∧ t.nodes.find k = some x ∧ fits (.make 0 0 8 12) x.value) ∧
      SearchExact t (.make 0 0 13 13) ∧
      ∃ t', Settles (fun fuel => t.add fuel 5 (.make 0 0 12 8)) (some t') ∧ OrderedTree t' := by
  have h : OrderedTree (empty TextureAtlas.comparator) :=
    ⟨rfl, ⟨.nil, shape_empty _⟩, fun k n d path j x hn => absurd hn nofun⟩
  obtain ⟨t₁, hadd₁, h₁⟩ := (orderedTree_search h).2.2 1 (.make 0 0 10 10) (by decide) rfl
  obtain rfl := Option.some.inj (hadd₁.unique (.of_forall fun _ => rfl))
  obtain ⟨t₂, hadd₂, h₂⟩ := (orderedTree_search h₁).2.2 2 (.make 0 0 5 5) (by decide) rfl
  obtain rfl := Option.some.inj (hadd₂.unique (.of_add 3 fun _ => rfl))
  obtain ⟨t₃, hadd₃, h₃⟩ := (orderedTree_search h₂).2.2 3 (.make 0 0 12 12) (by decide) rfl
  obtain rfl := Option.some.inj (hadd₃.unique (.of_add 3 fun _ => rfl))
  obtain ⟨t₄, hadd₄, h₄⟩ := (orderedTree_search h₃).2.2 4 (.make 0 0 9 14) (by decide) rfl
  obtain rfl := Option.some.inj (hadd₄.unique (.of_add 3 fun _ => rfl))
  obtain ⟨hfind, hexact, hadd⟩ := orderedTree_search h₄
  exact ⟨_, rfl, hfind _ 4 _ rfl (by decide), hexact _, hadd 5 _ (by decide) rfl⟩

end TextureAtlas

end Maple
