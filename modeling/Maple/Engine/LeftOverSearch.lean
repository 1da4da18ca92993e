import Maple.Engine.QuadTreeRuns
import Maple.Engine.TextureAtlas

/-!
# Maple.Engine.LeftOverSearch

When does the search for a leftover find one?

`findFrom` prunes: it only looks where `TextureAtlas::comparator` says a fitting
rectangle can be. That is justified on *ordered* trees (`probe_complete`), and
`add` keeps trees ordered. `erase` does not: it rehangs whole subtrees after
comparing their root alone, which can leave a node on the wrong side of another
(`search_misses`). It does keep them ordered when the subtrees of the erased
node agree with each other (`Rehangable`), and then no history makes the search
miss anything (`search_complete`).
-/

namespace Maple

open Lib QuadTree

namespace TextureAtlas

/-! ### Searching ordered trees -/

/-- A rectangle that fits `val` lies where `findFrom` looks next, unless the
current node fits already. -/
theorem mem_turns_of_fits {val leaf : LeftOver} (hfit : fits val leaf) (here : LeftOver) :
    fits val here ∨ comparator leaf here ∈ turns (comparator val here) := by
  simp only [fits, Bool.and_eq_true, decide_eq_true_eq] at hfit ⊢
  obtain ⟨hw, hh⟩ := hfit
  by_cases h₁ : val.width ≥ here.width <;> by_cases h₂ : val.height ≥ here.height
  · have h₃ : leaf.width ≥ here.width := by omega
    have h₄ : leaf.height ≥ here.height := by omega
    exact Or.inr (by simp [comparator, turns, h₁, h₂, h₃, h₄])
  · have h₃ : leaf.width ≥ here.width := by omega
    by_cases h₄ : leaf.height ≥ here.height <;>
      exact Or.inr (by simp [comparator, turns, h₁, h₂, h₃, h₄])
  · have h₄ : leaf.height ≥ here.height := by omega
    by_cases h₃ : leaf.width ≥ here.width <;>
      exact Or.inr (by simp [comparator, turns, h₁, h₂, h₃, h₄])
  · exact Or.inl ⟨by omega, by omega⟩

variable {K : Type}

/-- The loop over the turns ends with a fitting rectangle if the start node fits
or one of the attempts finds something. -/
theorem probeAlong_fits {val : LeftOver} {hit : Direction → Option (K × LeftOver)}
    (here : K × LeftOver) (hhit : ∀ d e, hit d = some e → fits val e.2) {ds : List Direction}
    (h : fits val here.2 ∨ ∃ d ∈ ds, (hit d).isSome) :
    fits val (probeAlong hit (fits val here.2) here ds).2 := by
  induction ds with
  | nil =>
      rcases h with h | ⟨d, hd, -⟩
      · exact h
      · exact absurd hd List.not_mem_nil
  | cons d ds ih =>
      cases hd : hit d with
      | some e => simpa [probeAlong, hd] using hhit d e hd
      | none =>
          by_cases hhere : fits val here.2
          · simp [probeAlong, hd, hhere]
          · simp only [probeAlong, hd, Option.getD_none, if_neg hhere]
            refine ih ?_
            rcases h with h | ⟨e, he, hsome⟩
            · exact Or.inl h
            · rcases List.mem_cons.mp he with rfl | he
              · simp [hd] at hsome
              · exact Or.inr ⟨e, he, hsome⟩

/-- **Search is complete on ordered trees.** -/
theorem probe_complete {val : LeftOver} {T : DirTree Direction K LeftOver}
    (hord : T.Ordered comparator) {k : K} {o : LeftOver} (ho : T.Entry k o)
    (hfit : fits val o) :
    ∃ e, probe val fits comparator T = some e ∧ fits val e.2 := by
  induction T generalizing k o with
  | nil => exact absurd ho (DirTree.entry_nil k o)
  | node key here sub ih =>
      obtain ⟨hside, hsub⟩ := hord
      refine ⟨_, rfl, probeAlong_fits (key, here) ?_ ?_⟩
      · intro d e he
        exact (Option.filter_eq_some_iff.mp he).2
      · rcases ho with ⟨-, rfl⟩ | ⟨d, hd⟩
        · exact Or.inl hfit
        · rcases mem_turns_of_fits hfit here with h | h
          · exact Or.inl h
          · obtain ⟨e, he, hefit⟩ := ih d (hsub d) hd hfit
            rw [hside d k o hd] at h
            exact Or.inr ⟨d, h, by simp [he, Option.filter_some, hefit]⟩

end TextureAtlas

/-! ### Which erasures keep a tree ordered -/

namespace QuadTree

variable {K V : Type} [Zero K] [DecidableEq K]

/-- The subtrees that `erase key` rehangs agree: every node of a subtree takes,
at every node of a subtree rehung before it, the turn that the root of its own
subtree takes there. -/
def Rehangable (t : QuadTree K V) (key : K) : Prop :=
  ∀ n, t.nodes.find key = some n →
    Direction.all.Pairwise fun d e =>
      ∀ path x nx path' y ny ne,
        follow t.nodes.find (n.leaf d) path = some x → t.nodes.find x = some nx →
        follow t.nodes.find (n.leaf e) path' = some y → t.nodes.find y = some ny →
        t.nodes.find (n.leaf e) = some ne →
        t.comparator ny.value nx.value = t.comparator ne.value nx.value

/-- Paths stay among keys that hold their children. -/
theorem follow_mem {m : K → Option (Node K V)} {keys : List K} (h0 : m 0 = none)
    (hkeys : ∀ k ∈ keys, ∀ n, m k = some n → ∀ d, n.leaf d = 0 ∨ n.leaf d ∈ keys)
    {k x : K} (hk : k ∈ keys) {path : List Direction} (hx : follow m k path = some x) :
    x ∈ keys := by
  induction path generalizing k with
  | nil =>
      rw [follow] at hx
      split at hx
      · cases hx
      · exact Option.some.inj hx ▸ hk
  | cons d path ih =>
      obtain ⟨n, hn, hfollow⟩ := Option.bind_eq_some_iff.mp hx
      rcases hkeys k hk n hn d with hzero | hmem
      · rw [hzero, follow_zero h0] at hfollow
        cases hfollow
      · exact ih hmem hfollow

/-- Subtrees agree when the keys that they stay among do. -/
theorem rehangable_of_keys {t : QuadTree K V} {key : K} {n : Node K V}
    (hn : t.nodes.find key = some n) (h0 : t.nodes.find 0 = none) (keys : Direction → List K)
    (hroot : ∀ d ∈ Direction.all, n.leaf d = 0 ∨ n.leaf d ∈ keys d)
    (hkeys : ∀ d ∈ Direction.all, ∀ k ∈ keys d, ∀ n ∈ t.nodes.find k,
      ∀ e ∈ Direction.all, n.leaf e = 0 ∨ n.leaf e ∈ keys d)
    (hagree : Direction.all.Pairwise fun d e => ∀ x ∈ keys d, ∀ nx ∈ t.nodes.find x,
      ∀ y ∈ keys e, ∀ ny ∈ t.nodes.find y, ∀ ne ∈ t.nodes.find (n.leaf e),
        t.comparator ny.value nx.value = t.comparator ne.value nx.value) :
    Rehangable t key := by
  have hmem {d : Direction} {path : List Direction} {x : K}
      (hx : follow t.nodes.find (n.leaf d) path = some x) : x ∈ keys d := by
    rcases hroot d d.mem_all with hzero | hroot
    · rw [hzero, follow_zero h0] at hx
      cases hx
    · exact follow_mem h0 (fun k hk n hn e => hkeys d d.mem_all k hk n hn e e.mem_all) hroot hx
  intro n' hn'
  obtain rfl := Option.some.inj (hn.symm.trans hn')
  exact hagree.imp fun h path x nx path' y ny ne hx hnx hy hny hne =>
    h x (hmem hx) nx hnx y (hmem hy) ny hny ne hne

omit [DecidableEq K] in
/-- The subtrees below a key are represented below its node. -/
theorem Repr.below {m : K → Option (Node K V)} {T : DirTree Direction K V} {p k key : K}
    {sub : Direction → DirTree Direction K V} (hT : Repr m T p k) (hsub : T.Below key sub) :
    ∃ n, m key = some n ∧ ∀ d, Repr m (sub d) key (n.leaf d) := by
  induction T generalizing p k with
  | nil => exact absurd hsub id
  | node key' v sub' ih =>
      obtain ⟨-, -, n, hn, -, -, hsubs⟩ := hT
      rcases hsub with ⟨rfl, rfl⟩ | ⟨d, hd⟩
      · exact ⟨n, hn, hsubs⟩
      · exact ih d (hsubs d) hd

theorem Shape.agree_of_rehangable {t : QuadTree K V} {T : DirTree Direction K V}
    (h : Shape t T) {key : K} (hre : Rehangable t key) {sub : Direction → DirTree Direction K V}
    (hsub : T.Below key sub) :
    (Direction.all.map sub).Pairwise (DirTree.Agree t.comparator) := by
  obtain ⟨n, hn, hrepr⟩ := h.repr.below hsub
  have h0 := h.zero_free
  rw [List.pairwise_map]
  refine (hre n hn).imp fun {d e} hturn => ?_
  intro w hw x vx y vy hx hy
  obtain ⟨-, nx, hnx, rfl⟩ := (hrepr d).entry hx
  obtain ⟨-, ny, hny, rfl⟩ := (hrepr e).entry hy
  obtain ⟨path, hpath⟩ := ((hrepr d).mem_iff_follow h0).mp hx.mem
  obtain ⟨path', hpath'⟩ := ((hrepr e).mem_iff_follow h0).mp hy.mem
  -- the root value of the `e`-subtree is the value at the key the slot holds
  obtain ⟨ne, hne, rfl⟩ : ∃ ne, t.nodes.find (n.leaf e) = some ne ∧ ne.value = w := by
    have hroot := hrepr e
    cases hs : sub e with
    | nil => simp [hs, DirTree.rootValue] at hw
    | node a b c =>
        rw [hs] at hroot
        obtain ⟨ha, -, ne, hne, hb, -, -⟩ := hroot
        refine ⟨ne, ha ▸ hne, ?_⟩
        simpa [hs, DirTree.rootValue, hb] using hw
  exact hturn path x nx path' y ny ne hpath hnx hpath' hny hne

variable [Inhabited V]

/-- A new leaf hangs where its own value belongs, so `add` keeps a tree ordered. -/
theorem add_ordered {t : QuadTree K V} {T : DirTree Direction K V} (h : Shape t T)
    (hord : T.Ordered t.comparator) {key : K} (hkey : key ≠ 0)
    (hfresh : t.nodes.find key = none) (value : V) :
    ∃ t', Settles (fun fuel => t.add fuel key value) (some t') ∧
      t'.comparator = t.comparator ∧ ∃ T', Shape t' T' ∧ T'.Ordered t.comparator := by
  obtain ⟨t', hrun, hcmp, hshape⟩ := add_settles h hkey hfresh value
  refine ⟨t', hrun, hcmp, _, hshape, hord.graft (DirTree.ordered_leaf _ _ _) ?_⟩
  intro k x j v _ hj
  rw [(DirTree.entry_leaf.mp hj).2]

/-- One operation of a history whose erasures are all `Rehangable`. -/
def SafeStep (t : QuadTree K V) (op : TreeOp K V) (t' : QuadTree K V) : Prop :=
  Step t op t' ∧ ∀ key, op = .erase key → Rehangable t key

/-- Such a history keeps the tree ordered. -/
theorem SafeStep.ordered {t t' : QuadTree K V} {op : TreeOp K V} (hstep : SafeStep t op t')
    {T : DirTree Direction K V} (h : Shape t T) (hord : T.Ordered t.comparator) :
    t'.comparator = t.comparator ∧ ∃ T', Shape t' T' ∧ T'.Ordered t.comparator := by
  obtain ⟨hstep, hre⟩ := hstep
  cases hstep with
  | add key value hkey hfresh hrun =>
      obtain ⟨t₁, hrun₁, hordered⟩ := add_ordered h hord hkey hfresh value
      obtain rfl := Option.some.inj (hrun.unique hrun₁)
      exact hordered
  | erase key hrun =>
      obtain ⟨t₁, hrun₁, hcmp, hshape, -⟩ := erase_settles h key
      obtain rfl := Option.some.inj (hrun.unique hrun₁)
      exact ⟨hcmp, _, hshape, hord.erase Direction.mem_all h.distinct
        fun sub hsub => h.agree_of_rehangable (hre key rfl) hsub⟩

theorem ordered_of_run {c : V → V → Direction} {ops : List (TreeOp K V)} {t : QuadTree K V}
    (hrun : Run SafeStep (empty c) ops t) :
    t.comparator = c ∧ ∃ T, Shape t T ∧ T.Ordered c := by
  refine hrun.state_invariant
    (I := fun t => t.comparator = c ∧ ∃ T, Shape t T ∧ T.Ordered c)
    ⟨rfl, _, shape_empty c, trivial⟩ ?_
  intro t op t' ⟨hc, T, h, hord⟩ hstep
  obtain ⟨hcmp, T', h', hord'⟩ := hstep.ordered h (hc ▸ hord)
  exact ⟨hcmp.trans hc, T', h', hc ▸ hord'⟩

end QuadTree

/-! ### Searching the leftovers -/

namespace TextureAtlas

/-- The search for a leftover of size `v` ends; it answers with a key exactly if
some stored leftover fits, and then with the key of a stored leftover that
fits. -/
def SearchExact (t : QuadTree Nat LeftOver) (v : LeftOver) : Prop :=
  ∃ k, Settles (fun fuel => findNode v fits fuel t) (some (k, t)) ∧
    (k ≠ 0 ↔ ∃ j n, t.nodes.find j = some n ∧ fits v n.value) ∧
    (k ≠ 0 → ∃ n, t.nodes.find k = some n ∧ fits v n.value)

/-- The search in an ordered tree. -/
theorem searchExact_of_ordered {t : QuadTree Nat LeftOver} {T : DirTree Direction Nat LeftOver}
    (h : Shape t T) (hc : t.comparator = comparator) (hord : T.Ordered comparator)
    (v : LeftOver) : SearchExact t v := by
  have hfind := findNode_settles v fits h
  rw [hc] at hfind
  refine ⟨_, hfind, ?_⟩
  cases hp : (probe v fits comparator T).filter fun e => fits v e.2 with
  | none =>
      refine ⟨⟨fun hk => absurd rfl hk, fun ⟨j, n, hn, hfit⟩ => ?_⟩, fun hk => absurd rfl hk⟩
      have hj : T.Entry j n.value := h.entry_iff.mpr (by simp [hn])
      obtain ⟨e, he, hefit⟩ := probe_complete hord hj hfit
      simp [he, Option.filter_some, hefit] at hp
  | some e =>
      obtain ⟨he, hefit⟩ := Option.filter_eq_some_iff.mp hp
      obtain ⟨he0, n, hn, hv⟩ := h.repr.entry (probe_entry he)
      have hfound : ∃ n, t.nodes.find e.1 = some n ∧ fits v n.value := ⟨n, hn, hv ▸ hefit⟩
      exact ⟨⟨fun _ => ⟨e.1, hfound⟩, fun _ => he0⟩, fun _ => hfound⟩

/-- **Search completeness over histories** whose erasures are all `Rehangable`. -/
theorem search_complete {ops : List (TreeOp Nat LeftOver)} {t : QuadTree Nat LeftOver}
    (hrun : Run SafeStep (empty comparator) ops t) (v : LeftOver) : SearchExact t v := by
  obtain ⟨hc, T, h, hord⟩ := ordered_of_run hrun
  exact searchExact_of_ordered h hc hord v

/-- Erasing a node with two children is `Rehangable` where both leftovers below the second one
are larger than the first one, and the search then finds them. -/
theorem search_complete_two_children :
    ∃ t : QuadTree Nat LeftOver,
      Run SafeStep (empty comparator)
        [.add 1 (.make 0 0 10 10), .add 2 (.make 0 0 12 12), .add 3 (.make 0 0 5 5),
          .add 4 (.make 0 0 13 13), .erase 1] t ∧
      SearchExact t (.make 0 0 11 11) ∧ SearchExact t (.make 0 0 4 4) := by
  have hrun := (((((Run.nil (empty comparator) : Run SafeStep _ _ _).snoc
    ⟨Step.add 1 (.make 0 0 10 10) (by decide) rfl (Settles.of_add 5 fun _ => rfl), by simp⟩).snoc
    ⟨Step.add 2 (.make 0 0 12 12) (by decide) rfl (Settles.of_add 5 fun _ => rfl), by simp⟩).snoc
    ⟨Step.add 3 (.make 0 0 5 5) (by decide) rfl (Settles.of_add 5 fun _ => rfl), by simp⟩).snoc
    ⟨Step.add 4 (.make 0 0 13 13) (by decide) rfl (Settles.of_add 5 fun _ => rfl), by simp⟩).snoc
    ⟨Step.erase 1 (Settles.of_add 5 fun _ => rfl), by
      intro key hkey
      obtain rfl := TreeOp.erase.inj hkey
      refine rehangable_of_keys rfl rfl
        (fun d => if d = .left then [3] else if d = .right then [2, 4] else [])
        (by decide) (by decide) (by decide)⟩
  exact ⟨_, hrun, search_complete hrun _, search_complete hrun _⟩

/-- A search that answers `0` beside a stored leftover that fits is not exact. -/
theorem not_searchExact {t : QuadTree Nat LeftOver} {v : LeftOver} {j : Nat} {n : Node Nat LeftOver}
    (hrun : Settles (fun fuel => findNode v fits fuel t) (some (0, t)))
    (hn : t.nodes.find j = some n) (hfit : fits v n.value) : ¬ SearchExact t v := by
  intro ⟨k, hk, hiff, _⟩
  have hzero := hk.unique hrun
  have hk0 : k = 0 := congrArg Prod.fst (Option.some.inj hzero)
  exact hiff.mpr ⟨j, n, hn, hfit⟩ hk0

/-- The defect: erasing the root of this tree hangs the leftover `3` above the
leftover `2` after comparing `3` alone, so that the 8 by 13 rectangle below `3`
ends up above the 5 by 5 one, where a search for 6 by 6 does not look. -/
theorem search_misses :
    ∃ t : QuadTree Nat LeftOver,
      Run Step (empty comparator)
        [.add 1 (.make 0 0 10 10), .add 2 (.make 0 0 5 5), .add 3 (.make 0 0 4 12),
          .add 4 (.make 0 0 8 13), .erase 1] t ∧
      ¬ SearchExact t (.make 0 0 6 6) := by
  have hrun := (((((Run.nil (empty comparator)).snoc
    (Step.add 1 (.make 0 0 10 10) (by decide) rfl (Settles.of_add 5 fun _ => rfl))).snoc
    (Step.add 2 (.make 0 0 5 5) (by decide) rfl (Settles.of_add 5 fun _ => rfl))).snoc
    (Step.add 3 (.make 0 0 4 12) (by decide) rfl (Settles.of_add 5 fun _ => rfl))).snoc
    (Step.add 4 (.make 0 0 8 13) (by decide) rfl (Settles.of_add 5 fun _ => rfl))).snoc
    (Step.erase 1 (Settles.of_add 5 fun _ => rfl))
  exact ⟨_, hrun, not_searchExact (j := 4) (Settles.of_add 5 fun _ => rfl) rfl (by decide)⟩

end TextureAtlas

end Maple
