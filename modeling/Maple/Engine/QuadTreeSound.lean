import Maple.Lib.DirTree
import Maple.Lib.Fuel
import Maple.Lib.Run
import Maple.Engine.QuadTree

/-!
# Maple.Engine.QuadTreeSound

The node map of `QuadTree` **represents a tree** (`Lib.DirTree`), and the map
operations are the tree operations: `add` grafts a one-node tree, `erase` is
`DirTree.erase`, `findFrom` reads without writing. Everything is proved for an
arbitrary comparator.

`Repr m T p k` says that the links of the map `m`, followed from the key `k`
with parent field `p`, spell out the tree `T`; `Shape t T` adds that the map
holds nothing else, that no key occurs twice and that no default node was ever
inserted. `Shape` is what every operation keeps, and the whole-run statements
(links, parents, termination) are read off it.
-/

namespace Maple

open Lib

variable {K V : Type}

/-- From `m` to `m'` only nodes with keys in `P` changed, none of them its value,
and no node appeared or disappeared. -/
structure Confined (P : K → Prop) (m m' : Nodes K V) : Prop where
  defaulted : m'.defaulted = m.defaulted
  outside : ∀ j, ¬ P j → m'.find j = m.find j
  values : ∀ j, (m'.find j).map Node.value = (m.find j).map Node.value

theorem Confined.refl (P : K → Prop) (m : Nodes K V) : Confined P m m :=
  ⟨rfl, fun _ _ => rfl, fun _ => rfl⟩

theorem Confined.trans {P Q R : K → Prop} {m m' m'' : Nodes K V} (h : Confined P m m')
    (h' : Confined Q m' m'') (hP : ∀ j, P j → R j) (hQ : ∀ j, Q j → R j) : Confined R m m'' :=
  ⟨h'.defaulted.trans h.defaulted,
    fun j hj => (h'.outside j fun hq => hj (hQ j hq)).trans (h.outside j fun hp => hj (hP j hp)),
    fun j => (h'.values j).trans (h.values j)⟩

/-- Rewriting the links of one node is confined to it. -/
theorem Confined.set [DecidableEq K] {m : Nodes K V} {k : K} {n n' : Node K V}
    (hn : m.find k = some n) (hv : n'.value = n.value) : Confined (· = k) m (m.set k n') := by
  refine ⟨rfl, fun j hj => Function.update_of_ne hj .., fun j => ?_⟩
  by_cases hj : j = k
  · subst hj
    simp [Nodes.set, hn, hv]
  · simp [Nodes.set, Function.update_of_ne hj]

namespace Node

@[simp] theorem leaf_setLeaf (n : Node K V) (key : K) (d : Direction) :
    (n.setLeaf key d).leaf = Function.update n.leaf d key := by
  funext e
  cases d <;> cases e <;> rfl

@[simp] theorem value_setLeaf (n : Node K V) (key : K) (d : Direction) :
    (n.setLeaf key d).value = n.value := by
  cases d <;> rfl

@[simp] theorem parent_setLeaf (n : Node K V) (key : K) (d : Direction) :
    (n.setLeaf key d).parent = n.parent := by
  cases d <;> rfl

variable [Zero K] [DecidableEq K]

@[simp] theorem value_erase (n : Node K V) (key : K) : (n.erase key).value = n.value := by
  unfold erase
  split_ifs <;> rfl

@[simp] theorem parent_erase (n : Node K V) (key : K) : (n.erase key).parent = n.parent := by
  unfold erase
  split_ifs <;> rfl

/-- Erasing a key that sits in exactly one slot clears that slot. -/
theorem leaf_erase {n : Node K V} {key : K} {d : Direction} (hd : n.leaf d = key)
    (huniq : ∀ e, e ≠ d → n.leaf e ≠ key) : (n.erase key).leaf = Function.update n.leaf d 0 := by
  have hl := huniq .left
  have hr := huniq .right
  have hu := huniq .up
  have hb := huniq .down
  funext e
  cases d <;> cases e <;> simp_all [leaf, erase]

end Node

namespace Nodes

variable [Zero K] [DecidableEq K] [Inhabited V]

theorem subscript_of_some {m : Nodes K V} {k : K} {n : Node K V} (h : m.find k = some n) :
    m.subscript k = (n, m) := by
  simp [subscript, h]

end Nodes

namespace QuadTree

variable [Zero K]

/-- The links of `m` from the key `k`, whose node has parent field `p`, spell out
the tree. -/
def Repr (m : K → Option (Node K V)) : DirTree Direction K V → K → K → Prop
  | .nil, _, k => k = 0
  | .node key value sub, p, k =>
    k = key ∧ key ≠ 0 ∧
      ∃ n, m key = some n ∧ n.value = value ∧ n.parent = p ∧ ∀ d, Repr m (sub d) key (n.leaf d)

theorem Repr.frame {m m' : K → Option (Node K V)} {T : DirTree Direction K V} {p k : K}
    (h : Repr m T p k) (hm : ∀ j, T.Mem j → m' j = m j) : Repr m' T p k := by
  induction T generalizing p k with
  | nil => exact h
  | node key value sub ih =>
      obtain ⟨hk, h0, n, hn, hv, hp, hsub⟩ := h
      refine ⟨hk, h0, n, ?_, hv, hp, fun d => ?_⟩
      · rw [hm key (DirTree.mem_node.mpr (Or.inl rfl)), hn]
      · exact ih d (hsub d) fun j hj => hm j (DirTree.mem_node.mpr (Or.inr ⟨d, hj⟩))

/-- A represented tree only has nonzero keys of the map. -/
theorem Repr.entry {m : K → Option (Node K V)} {T : DirTree Direction K V} {p k j : K} {v : V}
    (h : Repr m T p k) (hj : T.Entry j v) : j ≠ 0 ∧ ∃ n, m j = some n ∧ n.value = v := by
  induction T generalizing p k with
  | nil => exact absurd hj (DirTree.entry_nil j v)
  | node key value sub ih =>
      obtain ⟨hk, h0, n, hn, hv, hp, hsub⟩ := h
      rcases hj with ⟨rfl, rfl⟩ | ⟨d, hd⟩
      · exact ⟨h0, n, hn, hv⟩
      · exact ih d (hsub d) hd

theorem Repr.nonzero {m : K → Option (Node K V)} {T : DirTree Direction K V} {p k j : K}
    (h : Repr m T p k) (hj : T.Mem j) : j ≠ 0 := by
  obtain ⟨v, hv⟩ := hj
  exact (h.entry hv).1

/-- The start key of a represented tree is the key at its root. -/
theorem Repr.rootKey {m : K → Option (Node K V)} {T : DirTree Direction K V} {p k : K}
    (h : Repr m T p k) (hk : k ≠ 0) : T.rootKey = some k := by
  cases T with
  | nil => exact absurd h hk
  | node key value sub => rw [h.1]; rfl

theorem Repr.mem_root {m : K → Option (Node K V)} {T : DirTree Direction K V} {p k : K}
    (h : Repr m T p k) (hk : k ≠ 0) : T.Mem k := by
  cases T with
  | nil => exact absurd h hk
  | node key value sub => exact DirTree.mem_node.mpr (Or.inl h.1)

/-- Two trees the same links spell out are equal. -/
theorem Repr.unique {m : K → Option (Node K V)} {T T' : DirTree Direction K V} {p p' k : K}
    (h : Repr m T p k) (h' : Repr m T' p' k) : T = T' := by
  induction T generalizing p p' k T' with
  | nil =>
      cases T' with
      | nil => rfl
      | node key value sub => exact absurd (h'.1.symm.trans h) h'.2.1
  | node key value sub ih =>
      obtain ⟨rfl, h0, n, hn, rfl, hp, hsub⟩ := h
      cases T' with
      | nil => exact absurd h' h0
      | node key' value' sub' =>
          obtain ⟨rfl, -, n', hn', rfl, -, hsub'⟩ := h'
          obtain rfl : n = n' := Option.some.inj (hn.symm.trans hn')
          congr 1
          funext d
          exact ih d (hsub d) (hsub' d)

/-- A tree away from the changes is still represented. -/
theorem Repr.confined {P : K → Prop} {m m' : Nodes K V} {T : DirTree Direction K V} {p k : K}
    (hT : Repr m.find T p k) (h : Confined P m m') (hP : ∀ j, T.Mem j → ¬ P j) :
    Repr m'.find T p k :=
  hT.frame fun j hj => h.outside j (hP j hj)

/-! ### The walk of `add` and `readd` -/

variable [DecidableEq K]

/-- Give the root of a represented tree another parent field. -/
theorem Repr.setParent {m : K → Option (Node K V)} {T : DirTree Direction K V} {p q k : K}
    {n : Node K V} (h : Repr m T p k) (hdist : T.Distinct) (hn : m k = some n) :
    Repr (Function.update m k (some { n with parent := q })) T q k := by
  cases T with
  | nil => exact h
  | node key value sub =>
      obtain ⟨rfl, h0, n', hn', hv, -, hsub⟩ := h
      obtain rfl : n' = n := Option.some.inj (hn'.symm.trans hn)
      refine ⟨rfl, h0, _, Function.update_self .., hv, rfl, fun d => ?_⟩
      refine (hsub d).frame fun j hj => ?_
      have hne : j ≠ k := fun hjk => hdist.1 d (hjk ▸ hj)
      rw [Function.update_of_ne hne]

variable [Inhabited V]

/-- What the walk from the root of `T` for a value `w` leaves behind: it ends at
a node `parent` of `T`, changes links of nodes of `T` only, and once anything
that spells out `S` below `parent` sits at `key`, the links spell out `T` with
`S` grafted. -/
structure Walked (cmp : V → V → Direction) (w : V) (key : K) (T : DirTree Direction K V)
    (p k : K) (m : Nodes K V) (parent : K) (m' : Nodes K V) : Prop where
  parent_mem : T.Mem parent
  confined : Confined T.Mem m m'
  grafted : ∀ (m'' : K → Option (Node K V)) (S : DirTree Direction K V),
    (∀ j, T.Mem j → m'' j = m'.find j) → Repr m'' S parent key →
      Repr m'' (T.graft cmp w S) p k

theorem descend_settles (cmp : V → V → Direction) {key : K} {w : V}
    (read : Nodes K V → V × Nodes K V) {T : DirTree Direction K V} {m : Nodes K V} {p q k : K}
    (hdist : T.Distinct) (hrepr : Repr m.find T p k) (hk : k ≠ 0) (hkey : ¬ T.Mem key)
    (hread : ∀ m' : Nodes K V, m'.find key = m.find key → read m' = (w, m')) :
    ∃ parent m', Settles (fun fuel => descend cmp key read fuel m q k) (some (parent, m')) ∧
      Walked cmp w key T p k m parent m' := by
  induction T generalizing m p q k with
  | nil => exact absurd hrepr hk
  | node key' value sub ih =>
      obtain ⟨rfl, h0, n, hn, rfl, rfl, hsub⟩ := hrepr
      obtain ⟨hroot, hsubs, hsubdist⟩ := hdist
      have hkk : key ≠ k := fun h => hkey (DirTree.mem_node.mpr (Or.inl h))
      have hkd : ∀ d, ¬ (sub d).Mem key := fun d h => hkey (DirTree.mem_node.mpr (Or.inr ⟨d, h⟩))
      have hunfold : ∀ fuel, descend cmp key read (fuel + 1) m q k =
          descend cmp key read fuel
            (m.set k (if n.leaf (cmp w n.value) = 0 then n.setLeaf key (cmp w n.value) else n))
            k (n.leaf (cmp w n.value)) := by
        intro fuel
        rw [descend, if_neg hk]
        simp only [hread m rfl, Nodes.subscript_of_some hn, Node.addOrNext]
      by_cases hslot : n.leaf (cmp w n.value) = 0
      · -- the slot is free: the walk ends here
        rw [if_pos hslot] at hunfold
        refine ⟨k, m.set k (n.setLeaf key (cmp w n.value)), ?_, ?_⟩
        · refine Settles.of_succ (Settles.congr ?_ hunfold)
          refine Settles.of_succ (Settles.of_forall fun fuel => ?_)
          rw [descend, if_pos hslot]
        · refine ⟨DirTree.mem_node.mpr (Or.inl rfl), ?_, ?_⟩
          · exact (Confined.refl _ _).trans (Confined.set hn (by simp)) (fun j hj => hj)
              fun j hj => DirTree.mem_node.mpr (Or.inl hj)
          · intro m'' S hm'' hS
            have hm''k := hm'' k (DirTree.mem_node.mpr (Or.inl rfl))
            simp only [Nodes.set, Function.update_self] at hm''k
            refine ⟨rfl, h0, _, hm''k, by simp, by simp, fun d => ?_⟩
            rw [Node.leaf_setLeaf]
            have hempty : ∀ e, n.leaf e = 0 → sub e = .nil := by
              intro e he
              cases hs : sub e with
              | nil => rfl
              | node a b c =>
                  have := hsub e
                  rw [hs] at this
                  exact absurd (he ▸ this.1).symm this.2.1
            by_cases hd : d = cmp w n.value
            · subst hd
              rw [Function.update_self, Function.update_self, hempty _ hslot]
              exact hS
            · rw [Function.update_of_ne hd, Function.update_of_ne hd]
              refine (hsub d).frame fun j hj => ?_
              rw [hm'' j (DirTree.mem_node.mpr (Or.inr ⟨d, hj⟩))]
              have : j ≠ k := by
                rintro rfl
                exact hroot d hj
              simp [Nodes.set, Function.update_of_ne this]
      · -- the slot is taken: the walk goes on below it
        rw [if_neg hslot] at hunfold
        have hset : m.set k n = m := by
          cases m
          simp only [Nodes.set, Nodes.mk.injEq, and_true]
          exact Function.update_eq_self_iff.mpr hn.symm
        rw [hset] at hunfold
        obtain ⟨parent, m', hrun, hw⟩ :=
          ih (cmp w n.value) (q := k) (hsubdist _) (hsub _) hslot (hkd _) hread
        refine ⟨parent, m', Settles.of_succ (hrun.congr hunfold), ?_⟩
        refine ⟨DirTree.mem_node.mpr (Or.inr ⟨_, hw.parent_mem⟩), ?_, ?_⟩
        · exact hw.confined.trans (Confined.refl _ _)
            (fun j hj => DirTree.mem_node.mpr (Or.inr ⟨_, hj⟩)) fun j hj => hj
        · intro m'' S hm'' hS
          have hm''k : m'' k = some n := by
            rw [hm'' k (DirTree.mem_node.mpr (Or.inl rfl)), hw.confined.outside k (hroot _), hn]
          refine ⟨rfl, h0, n, hm''k, rfl, rfl, fun d => ?_⟩
          by_cases hd : d = cmp w n.value
          · subst hd
            rw [Function.update_self]
            exact hw.grafted m'' S (fun j hj => hm'' j (DirTree.mem_node.mpr (Or.inr ⟨_, hj⟩))) hS
          · rw [Function.update_of_ne hd]
            refine (hsub d).frame fun j hj => ?_
            rw [hm'' j (DirTree.mem_node.mpr (Or.inr ⟨d, hj⟩)),
              hw.confined.outside j (fun h => hsubs d _ hd j hj h)]

/-- **`readd` from a start node.** Hanging the tree at `key` below the tree at
`start` is `DirTree.hang`. -/
theorem readdFrom_settles {t : QuadTree K V} {H S : DirTree Direction K V} {p q start key : K}
    (hH : Repr t.nodes.find H p start) (hHd : H.Distinct) (hstart : start ≠ 0)
    (hS : Repr t.nodes.find S q key) (hSd : S.Distinct) (hkey : key ≠ 0)
    (hdisj : ∀ j, H.Mem j → ¬ S.Mem j) :
    ∃ m', Settles (fun fuel => t.readdFrom fuel start key) (some { t with nodes := m' }) ∧
      Repr m'.find (H.hang t.comparator S) p start ∧
        Confined (fun j => H.Mem j ∨ S.Mem j) t.nodes m' := by
  cases S with
  | nil => exact absurd hS hkey
  | node key' w sub =>
      obtain ⟨rfl, -, n, hn, rfl, hq, hsub⟩ := id hS
      have hkeyH : ¬ H.Mem key := fun h => hdisj key h (DirTree.mem_node.mpr (Or.inl rfl))
      obtain ⟨parent, m', hrun, hw⟩ := descend_settles (q := 0) (w := n.value) t.comparator
        (fun m => ((m.subscript key).1.value, (m.subscript key).2)) hHd hH hstart hkeyH (by
          intro m' hm'
          simp only [Nodes.subscript_of_some (hm'.trans hn)])
      have hn' : m'.find key = some n := (hw.confined.outside key hkeyH).trans hn
      refine ⟨m'.set key { n with parent := parent }, ?_, ?_, ?_⟩
      · obtain ⟨N, hN⟩ := hrun
        refine ⟨N, fun fuel hfuel => ?_⟩
        refine Option.map_eq_some_iff.mpr ⟨(parent, m'), hN fuel hfuel, ?_⟩
        simp only [Nodes.subscript_of_some hn']
      · -- the hung tree is untouched by the walk, then gets its new parent
        have hS' : Repr m'.find (.node key n.value sub) q key :=
          hS.confined hw.confined fun j hj hjH => hdisj j hjH hj
        refine hw.grafted _ _ (fun j hj => ?_) (hS'.setParent hSd hn')
        have hne : j ≠ key := fun h => hkeyH (h ▸ hj)
        exact Function.update_of_ne hne ..
      · refine hw.confined.trans (Confined.set hn' rfl) (fun j => Or.inl) fun j hj => ?_
        exact Or.inr (DirTree.mem_node.mpr (Or.inl hj))

/-- Where the walk of `readd` starts: at the start node, or at the root if there
is none. -/
def anchor (t : QuadTree K V) (start : K) : K := if start = 0 then t.root else start

omit [DecidableEq K] [Inhabited V] in
theorem Repr.eq_nil {m : K → Option (Node K V)} {T : DirTree Direction K V} {p : K}
    (h : Repr m T p 0) : T = .nil := by
  cases T with
  | nil => rfl
  | node key value sub => exact absurd h.1.symm h.2.1

/-- **`readd`**, in its three cases. -/
theorem readd_settles {t : QuadTree K V} {H S : DirTree Direction K V} {p q start key : K}
    (hp : start = 0 → p = 0) (hH : Repr t.nodes.find H p (t.anchor start)) (hHd : H.Distinct)
    (hS : Repr t.nodes.find S q key) (hSd : S.Distinct) (hkey : key ≠ 0)
    (hdisj : ∀ j, H.Mem j → ¬ S.Mem j) :
    ∃ t', Settles (fun fuel => t.readd fuel start key) (some t') ∧
      t'.comparator = t.comparator ∧ (start ≠ 0 → t'.root = t.root) ∧
        Repr t'.nodes.find (H.hang t.comparator S) p (t'.anchor start) ∧
          Confined (fun j => H.Mem j ∨ S.Mem j) t.nodes t'.nodes := by
  by_cases hstart : start = 0
  · obtain rfl := hp hstart
    subst hstart
    simp only [anchor, if_pos] at hH ⊢
    by_cases hroot : t.root = 0
    · -- the tree is empty: the hung tree becomes the whole tree
      rw [hroot] at hH
      obtain rfl := hH.eq_nil
      have hSroot := hS.mem_root hkey
      obtain ⟨v, hv⟩ := hSroot
      obtain ⟨-, n, hn, -⟩ := hS.entry hv
      refine ⟨{ t with root := key, nodes := t.nodes.set key { n with parent := 0 } },
        Settles.of_forall fun fuel => ?_, rfl, fun h => absurd rfl h, ?_, ?_⟩
      · simp [readd, hroot, Nodes.subscript_of_some hn]
      · have hnil : (DirTree.nil : DirTree Direction K V).hang t.comparator S = S := by
          cases S <;> rfl
        rw [hnil]
        exact hS.setParent hSd hn
      · exact (Confined.refl _ _).trans (Confined.set hn rfl) (fun j hj => hj)
          fun j hj => Or.inr (hj ▸ hS.mem_root hkey)
    · obtain ⟨m', hrun, hrepr, hconf⟩ := readdFrom_settles hH hHd hroot hS hSd hkey hdisj
      refine ⟨{ t with nodes := m' }, hrun.congr fun fuel => ?_, rfl, fun _ => rfl, hrepr, hconf⟩
      simp [readd, Ne.symm hroot]
  · simp only [anchor, if_neg hstart] at hH ⊢
    obtain ⟨m', hrun, hrepr, hconf⟩ := readdFrom_settles hH hHd hstart hS hSd hkey hdisj
    refine ⟨{ t with nodes := m' }, hrun.congr fun fuel => ?_, rfl, fun _ => rfl, hrepr, hconf⟩
    simp [readd, hstart]

/-- **The loop of `erase` over the leaves** rehangs the subtrees in order. -/
theorem rehang_settles {n : Node K V} {sub : Direction → DirTree Direction K V} {q p : K}
    (start : K) (hp : start = 0 → p = 0) (ds : List Direction) {t : QuadTree K V}
    {H : DirTree Direction K V} (hH : Repr t.nodes.find H p (t.anchor start)) (hHd : H.Distinct)
    (hsub : ∀ d ∈ ds, Repr t.nodes.find (sub d) q (n.leaf d)) (hsd : ∀ d ∈ ds, (sub d).Distinct)
    (hdisj : ∀ d ∈ ds, ∀ j, H.Mem j → ¬ (sub d).Mem j)
    (hpair : ds.Pairwise fun d e => ∀ j, (sub d).Mem j → ¬ (sub e).Mem j) :
    ∃ t', Settles (fun fuel => ((ds.map n.leaf).filter (· ≠ 0)).foldlM
        (fun t leaf => t.readd fuel start leaf) t) (some t') ∧
      t'.comparator = t.comparator ∧ (start ≠ 0 → t'.root = t.root) ∧
        Repr t'.nodes.find (H.rehang t.comparator (ds.map sub)) p (t'.anchor start) ∧
          Confined (fun j => H.Mem j ∨ ∃ d ∈ ds, (sub d).Mem j) t.nodes t'.nodes := by
  induction ds generalizing t H with
  | nil =>
      exact ⟨t, Settles.of_forall fun _ => rfl, rfl, fun _ => rfl, hH, Confined.refl _ _⟩
  | cons d ds ih =>
      obtain ⟨hd, hpair⟩ := List.pairwise_cons.mp hpair
      have hmem : ∀ e ∈ ds, e ∈ d :: ds := fun e he => List.mem_cons_of_mem _ he
      have hreprd := hsub d List.mem_cons_self
      by_cases hleaf : n.leaf d = 0
      · -- no subtree here: nothing is hung
        rw [hleaf] at hreprd
        have hnil := hreprd.eq_nil
        obtain ⟨t', hrun, hcmp, hroot, hrepr, hconf⟩ := ih hH hHd (fun e he => hsub e (hmem e he))
          (fun e he => hsd e (hmem e he)) (fun e he => hdisj e (hmem e he)) hpair
        refine ⟨t', hrun.congr fun fuel => ?_, hcmp, hroot, ?_, ?_⟩
        · simp [hleaf]
        · simpa [hnil, DirTree.hang] using hrepr
        · refine hconf.trans (Confined.refl _ _) (fun j hj => ?_) fun j hj => hj
          rcases hj with hj | ⟨e, he, hej⟩
          · exact Or.inl hj
          · exact Or.inr ⟨e, hmem e he, hej⟩
      · obtain ⟨t₁, hrun₁, hcmp₁, hroot₁, hrepr₁, hconf₁⟩ := readd_settles hp hH hHd hreprd
          (hsd d List.mem_cons_self) hleaf (hdisj d List.mem_cons_self)
        have hH₁ : (H.hang t.comparator (sub d)).Distinct :=
          hHd.hang (hsd d List.mem_cons_self) (hdisj d List.mem_cons_self)
        obtain ⟨t', hrun, hcmp, hroot, hrepr, hconf⟩ := ih hrepr₁ hH₁
          (fun e he => (hsub e (hmem e he)).confined hconf₁ fun j hj hbad => by
            rcases hbad with hbad | hbad
            · exact hdisj e (hmem e he) j hbad hj
            · exact hd e he j hbad hj)
          (fun e he => hsd e (hmem e he))
          (fun e he j hj => by
            rcases DirTree.mem_hang.mp hj with h | h
            · exact hdisj e (hmem e he) j h
            · exact hd e he j h)
          hpair
        refine ⟨t', ?_, hcmp.trans hcmp₁, fun h => (hroot h).trans (hroot₁ h), ?_, ?_⟩
        · refine (Settles.bind (g := fun o fuel => o.bind fun t =>
            ((ds.map n.leaf).filter (· ≠ 0)).foldlM (fun t leaf => t.readd fuel start leaf) t)
            hrun₁ hrun).congr fun fuel => ?_
          simp [hleaf]
        · rw [hcmp₁] at hrepr
          exact hrepr
        · refine hconf₁.trans hconf (fun j hj => ?_) fun j hj => ?_
          · rcases hj with h | h
            · exact Or.inl h
            · exact Or.inr ⟨d, List.mem_cons_self, h⟩
          · rcases hj with h | ⟨e, he, h⟩
            · rcases DirTree.mem_hang.mp h with h | h
              · exact Or.inl h
              · exact Or.inr ⟨d, List.mem_cons_self, h⟩
            · exact Or.inr ⟨e, hmem e he, h⟩

/-- The part of the map that `erase` works on, for a key below the root of a
represented tree. -/
structure ErasedBelow (t : QuadTree K V) (T : DirTree Direction K V) (p k key : K)
    (t' : QuadTree K V) : Prop where
  comparator : t'.comparator = t.comparator
  root : t'.root = t.root
  defaulted : t'.nodes.defaulted = t.nodes.defaulted
  repr : Repr t'.nodes.find (T.erase t.comparator Direction.all key) p k
  outside : ∀ j, ¬ T.Mem j → t'.nodes.find j = t.nodes.find j
  values : ∀ j, (t'.nodes.find j).map Node.value =
    if j = key then none else (t.nodes.find j).map Node.value

theorem erase_below {t : QuadTree K V} {T : DirTree Direction K V} {p k key : K}
    (hT : Repr t.nodes.find T p k) (hdist : T.Distinct) (hmem : T.Mem key) (hne : key ≠ k) :
    ∃ n nq, t.nodes.find key = some n ∧ t.nodes.find n.parent = some nq ∧
      ∃ t', Settles (fun fuel => ((Direction.all.map n.leaf).filter (· ≠ 0)).foldlM
          (fun t leaf => t.readd fuel n.parent leaf)
          { t with nodes := (t.nodes.set n.parent (nq.erase key)).remove key }) (some t') ∧
        ErasedBelow t T p k key t' := by
  induction T using DirTree.erase_induction (k := key) generalizing p k with
  | hnil => exact absurd hmem (DirTree.mem_nil key)
  | hroot value sub => exact absurd hT.1.symm hne
  | hchild key' value sub d v sub' hk hd =>
      obtain ⟨rfl, h0, nq, hnq, rfl, rfl, hsub⟩ := hT
      obtain ⟨hroot, hsubs, hsubdist⟩ := id hdist
      have hreprd := hsub d
      have hdistd := hsubdist d
      rw [hd] at hreprd hdistd
      obtain ⟨hleafd, hkey0, n, hn, rfl, hparent, hsub'⟩ := hreprd
      have hkeyd : (sub d).Mem key := by rw [hd]; exact DirTree.mem_node.mpr (Or.inl rfl)
      have hbelow : ∀ e j, (sub' e).Mem j → (sub d).Mem j := by
        intro e j hj
        rw [hd]
        exact DirTree.mem_node.mpr (Or.inr ⟨e, hj⟩)
      have huniq : ∀ e, e ≠ d → nq.leaf e ≠ key := by
        intro e he h
        exact hsubs e d he key ((hsub e).mem_root (h ▸ hkey0) |> fun hm => h ▸ hm) hkeyd
      -- after the unlinking, what is left at the parent is the tree without its `d`-subtree
      have hfind : ∀ j, j ≠ k → j ≠ key →
          (((t.nodes.set k (nq.erase key)).remove key).find j) = t.nodes.find j := by
        intro j hjk hj
        simp [Nodes.set, Nodes.remove, Function.update_of_ne hj, Function.update_of_ne hjk]
      have hH : Repr ((t.nodes.set k (nq.erase key)).remove key).find
          (.node k nq.value (Function.update sub d .nil)) nq.parent k := by
        refine ⟨rfl, h0, nq.erase key, ?_, by simp, by simp, fun e => ?_⟩
        · simp [Nodes.set, Nodes.remove, Function.update_of_ne hk]
        · rw [Node.leaf_erase hleafd huniq]
          by_cases he : e = d
          · subst he
            simp only [Function.update_self]
            rfl
          · rw [Function.update_of_ne he, Function.update_of_ne he]
            refine (hsub e).frame fun j hj => hfind j ?_ ?_
            · exact fun h => hroot e (h ▸ hj)
            · exact fun h => hsubs e d he key (h ▸ hj) hkeyd
      obtain ⟨t', hrun, hcmp, hroot', hrepr, hconf⟩ := rehang_settles (n := n) (q := key)
        (t := { t with nodes := (t.nodes.set k (nq.erase key)).remove key })
        k (fun h => absurd h h0) Direction.all (by simpa [anchor, h0] using hH) (hdist.clear d)
        (fun e _ => (hsub' e).frame fun j hj => hfind j
          (fun h => hroot d (h ▸ hbelow e j hj)) fun h => hdistd.1 e (h ▸ hj))
        (fun e _ => hdistd.2.2 e) (fun e _ j hj he => (hdist.mem_clear hj).2 (hbelow e j he))
        (Direction.nodup_all.imp fun hef => hdistd.2.1 _ _ hef)
      refine ⟨n, nq, hn, by rw [hparent]; exact hnq, t', by rw [hparent]; exact hrun, ?_⟩
      refine ⟨hcmp, hroot' h0, hconf.defaulted, ?_, ?_, ?_⟩
      · rw [DirTree.erase_child Direction.mem_all hdist hk hd]
        simpa [anchor, h0] using hrepr
      · intro j hj
        rw [hconf.outside j]
        · refine hfind j (fun h => hj (DirTree.mem_node.mpr (Or.inl h))) fun h => ?_
          exact hj (DirTree.mem_node.mpr (Or.inr ⟨d, h ▸ hkeyd⟩))
        · intro hbad
          rcases hbad with h | ⟨e, -, h⟩
          · exact hj (hdist.mem_clear h).1
          · exact hj (DirTree.mem_node.mpr (Or.inr ⟨d, hbelow e j h⟩))
      · intro j
        rw [hconf.values j]
        by_cases hj : j = key
        · subst hj
          simp [Nodes.remove]
        · rw [if_neg hj]
          by_cases hjk : j = k
          · subst hjk
            simp [Nodes.set, Nodes.remove, Function.update_of_ne hj, hnq]
          · rw [hfind j hjk hj]
  | hdeep key' value sub hk hroots ih =>
      obtain ⟨rfl, h0, nk, hnk, rfl, rfl, hsub⟩ := hT
      obtain ⟨hroot, hsubs, hsubdist⟩ := hdist
      obtain ⟨d, hd⟩ : ∃ d, (sub d).Mem key :=
        (DirTree.mem_node.mp hmem).resolve_left fun h => hne h
      have hleaf : key ≠ nk.leaf d := by
        intro h
        have hkey0 := (hsub d).nonzero hd
        exact hroots d (h ▸ (hsub d).rootKey (h ▸ hkey0))
      obtain ⟨n, nq, hn, hnq, t', hrun, he⟩ := ih d (hsub d) (hsubdist d) hd hleaf
      refine ⟨n, nq, hn, hnq, t', hrun, he.comparator, he.root, he.defaulted, ?_, ?_, he.values⟩
      · rw [DirTree.erase_deep hk hroots]
        refine ⟨rfl, h0, nk, (he.outside k (hroot d)).trans hnk, rfl, rfl, fun e => ?_⟩
        by_cases hed : e = d
        · subst hed
          exact he.repr
        · show Repr _ ((sub e).erase _ _ key) k (nk.leaf e)
          rw [DirTree.erase_of_not_mem fun h => hsubs e d hed key h hd]
          exact (hsub e).frame fun j hj => he.outside j fun h => hsubs e d hed j hj h
      · exact fun j hj => he.outside j fun h => hj (DirTree.mem_node.mpr (Or.inr ⟨d, h⟩))

end QuadTree

end Maple
