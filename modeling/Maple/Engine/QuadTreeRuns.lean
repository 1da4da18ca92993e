import Mathlib.Algebra.GroupWithZero.Nat
import Maple.Engine.QuadTreeSound

/-!
# Maple.Engine.QuadTreeRuns

What holds of a `QuadTree` after **any history** of `add` and `erase`.

`Shape t T` ties a tree in the map to the abstract tree it represents. Each
operation settles (so its loops end), moves the abstract tree as `DirTree` says,
and inserts no default node; the run-level theorem follows by induction over the
history. Searching never writes: `findFrom` returns what `probe` computes on the
abstract tree and leaves the map alone.
-/

namespace Maple

open Lib

variable {K V : Type} [Zero K]

namespace QuadTree

/-- The map holds exactly the links of `T`, without repeated keys, and no
default node was ever inserted. -/
structure Shape (t : QuadTree K V) (T : DirTree Direction K V) : Prop where
  distinct : T.Distinct
  repr : Repr t.nodes.find T 0 t.root
  covers : ∀ k, (t.nodes.find k).isSome → T.Mem k
  defaulted : t.nodes.defaulted = 0

theorem Shape.find_iff {t : QuadTree K V} {T : DirTree Direction K V} (h : Shape t T) {k : K} :
    (t.nodes.find k).isSome ↔ T.Mem k := by
  refine ⟨h.covers k, fun hk => ?_⟩
  obtain ⟨v, hv⟩ := hk
  obtain ⟨-, n, hn, -⟩ := h.repr.entry hv
  simp [hn]

theorem Shape.entry_iff {t : QuadTree K V} {T : DirTree Direction K V} (h : Shape t T) {k : K}
    {v : V} : T.Entry k v ↔ (t.nodes.find k).map Node.value = some v := by
  refine ⟨fun hk => ?_, fun hk => ?_⟩
  · obtain ⟨-, n, hn, rfl⟩ := h.repr.entry hk
    simp [hn]
  · obtain ⟨n, hn, rfl⟩ := Option.map_eq_some_iff.mp hk
    obtain ⟨w, hw⟩ := h.covers k (by simp [hn])
    obtain ⟨-, n', hn', rfl⟩ := h.repr.entry hw
    obtain rfl : n = n' := Option.some.inj (hn.symm.trans hn')
    exact hw

theorem shape_empty (c : V → V → Direction) : Shape (empty c : QuadTree K V) .nil :=
  ⟨trivial, rfl, fun k hk => by simp [empty] at hk, rfl⟩

variable [DecidableEq K] [Inhabited V]

/-! ### The operations -/

/-- **`add`** grafts a one-node tree: the new key appears with its value and no
other key changes its value. -/
theorem add_settles {t : QuadTree K V} {T : DirTree Direction K V} (h : Shape t T) {key : K}
    (hkey : key ≠ 0) (hfresh : t.nodes.find key = none) (value : V) :
    ∃ t', Settles (fun fuel => t.add fuel key value) (some t') ∧
      t'.comparator = t.comparator ∧
        Shape t' (T.graft t.comparator value (DirTree.leaf key value)) := by
  have hmem : ¬ T.Mem key := fun hk => by simpa [hfresh] using h.find_iff.mpr hk
  have hleafdisj : ∀ j, T.Mem j → ¬ (DirTree.leaf key value : DirTree Direction K V).Mem j :=
    fun j hj hjk => hmem (DirTree.mem_leaf.mp hjk ▸ hj)
  -- the new node spells out a one-node tree wherever it hangs
  have hleaf : ∀ (m : K → Option (Node K V)) (p : K),
      Repr (Function.update m key (some ⟨value, p, 0, 0, 0, 0⟩)) (DirTree.leaf key value) p
        key := by
    intro m p
    refine ⟨rfl, hkey, _, Function.update_self .., rfl, rfl, fun d => ?_⟩
    cases d <;> rfl
  by_cases hroot : t.root = 0
  · have hnil : T = .nil := by
      have hrepr := h.repr
      rw [hroot] at hrepr
      exact hrepr.eq_nil
    subst hnil
    refine ⟨{ t with root := key, nodes := t.nodes.set key ⟨value, 0, 0, 0, 0, 0⟩ },
      Settles.of_forall fun fuel => ?_, rfl, DirTree.distinct_leaf _ _, hleaf _ _, ?_, h.defaulted⟩
    · simp [add, hroot, Nodes.emplace, hfresh]
    · intro k hk
      by_cases hkk : k = key
      · exact DirTree.mem_leaf.mpr hkk
      · simp only [Nodes.set, Function.update_of_ne hkk] at hk
        exact absurd (h.covers k hk) (DirTree.mem_nil k)
  · obtain ⟨parent, m', hrun, hw⟩ := descend_settles (q := 0) (w := value) t.comparator
      (fun m => (value, m)) h.distinct h.repr hroot hmem fun _ _ => rfl
    have hfresh' : m'.find key = none := (hw.confined.outside key hmem).trans hfresh
    refine ⟨{ t with nodes := m'.set key ⟨value, parent, 0, 0, 0, 0⟩ }, ?_, rfl,
      h.distinct.graft (DirTree.distinct_leaf _ _) hleafdisj, ?_, ?_,
      hw.confined.defaulted.trans h.defaulted⟩
    · obtain ⟨N, hN⟩ := hrun
      refine ⟨N, fun fuel hfuel => ?_⟩
      have hrun := hN fuel hfuel
      simp only at hrun
      simp [add, hroot, hrun, Nodes.emplace, hfresh']
    · refine hw.grafted _ _ (fun j hj => ?_) (hleaf _ _)
      have hne : j ≠ key := fun hjk => hmem (hjk ▸ hj)
      exact Function.update_of_ne hne ..
    · intro k hk
      by_cases hkk : k = key
      · exact DirTree.mem_graft.mpr (Or.inr (DirTree.mem_leaf.mpr hkk))
      · refine DirTree.mem_graft.mpr (Or.inl (h.covers k ?_))
        have hv := hw.confined.values k
        simp only [Nodes.set, Function.update_of_ne hkk] at hk
        rw [← Option.isSome_map (f := Node.value), ← hv, Option.isSome_map]
        exact hk

omit [Inhabited V] in
/-- After the graft of `add`, the new key has its value and every other key the
value it had. -/
theorem Shape.values_of_graft {t t' : QuadTree K V} {T : DirTree Direction K V} {key : K}
    {value : V} (h : Shape t T)
    (h' : Shape t' (T.graft t.comparator value (DirTree.leaf key value))) (j : K) :
    (t'.nodes.find j).map Node.value =
      if j = key then some value else (t.nodes.find j).map Node.value := by
  by_cases hj : j = key
  · rw [if_pos hj]
    refine h'.entry_iff.mp (DirTree.entry_graft.mpr (Or.inr ?_))
    exact DirTree.entry_leaf.mpr ⟨hj, rfl⟩
  · rw [if_neg hj]
    refine Option.ext fun v => ?_
    rw [← h'.entry_iff, ← h.entry_iff, DirTree.entry_graft, DirTree.entry_leaf]
    exact or_iff_left fun hjk => hj hjk.1

/-- **`erase`** is `DirTree.erase`, and erases nothing else from the map. -/
theorem erase_settles {t : QuadTree K V} {T : DirTree Direction K V} (h : Shape t T) (key : K) :
    ∃ t', Settles (fun fuel => t.erase fuel key) (some t') ∧
      t'.comparator = t.comparator ∧ Shape t' (T.erase t.comparator Direction.all key) ∧
        ∀ j, (t'.nodes.find j).map Node.value =
          if j = key then none else (t.nodes.find j).map Node.value := by
  cases hfind : t.nodes.find key with
  | none =>
      have hmem : ¬ T.Mem key := fun hk => by simpa [hfind] using h.find_iff.mpr hk
      refine ⟨t, Settles.of_forall fun fuel => ?_, rfl, ?_, fun j => ?_⟩
      · simp [erase, hfind]
      · rw [DirTree.erase_of_not_mem hmem]
        exact h
      · by_cases hj : j = key
        · subst hj
          simp [hfind]
        · rw [if_neg hj]
  | some n =>
      have hmem : T.Mem key := h.covers key (by simp [hfind])
      suffices hmain : ∃ t', Settles (fun fuel => t.erase fuel key) (some t') ∧
          t'.comparator = t.comparator ∧ t'.nodes.defaulted = t.nodes.defaulted ∧
            Repr t'.nodes.find (T.erase t.comparator Direction.all key) 0 t'.root ∧
              ∀ j, (t'.nodes.find j).map Node.value =
                if j = key then none else (t.nodes.find j).map Node.value by
        obtain ⟨t', hrun, hcmp, hdef, hrepr, hvalues⟩ := hmain
        refine ⟨t', hrun, hcmp, ⟨?_, hrepr, ?_, hdef.trans h.defaulted⟩, hvalues⟩
        · exact h.distinct.erase Direction.mem_all Direction.nodup_all key
        · intro k hk
          rw [← Option.isSome_map (f := Node.value), hvalues k] at hk
          by_cases hkk : k = key
          · simp [hkk] at hk
          · rw [if_neg hkk, Option.isSome_map] at hk
            exact (DirTree.mem_erase Direction.mem_all h.distinct).mpr ⟨h.covers k hk, hkk⟩
      by_cases hroot : t.root = key
      · -- the root goes: its subtrees are rehung below nothing
        have hT := h.repr
        have hdist := h.distinct
        cases T with
        | nil => exact absurd hmem (DirTree.mem_nil key)
        | node key' v sub =>
            obtain ⟨hk, h0, n', hn', rfl, hparent, hsub⟩ := hT
            obtain rfl : key' = key := hk.symm.trans hroot
            obtain rfl : n' = n := Option.some.inj (hn'.symm.trans hfind)
            obtain ⟨t', hrun, hcmp, -, hrepr, hconf⟩ := rehang_settles (n := n') (q := key')
              (t := { t with root := 0, nodes := t.nodes.remove key' }) (H := .nil)
              0 (fun _ => rfl) Direction.all (by simp [anchor, Repr]) trivial
              (fun d _ => (hsub d).frame fun j hj => by
                have hne : j ≠ key' := fun hjk => hdist.1 d (hjk ▸ hj)
                exact Function.update_of_ne hne ..)
              (fun d _ => hdist.2.2 d) (fun d _ j hj => absurd hj (DirTree.mem_nil j))
              (Direction.nodup_all.imp fun hde => hdist.2.1 _ _ hde)
            refine ⟨t', hrun.congr fun fuel => ?_, hcmp, hconf.defaulted, ?_, fun j => ?_⟩
            · simp [erase, hfind, detach, hroot, hparent]
            · rw [DirTree.erase_root]
              simpa [anchor] using hrepr
            · rw [hconf.values j]
              by_cases hj : j = key'
              · subst hj
                simp [Nodes.remove]
              · rw [if_neg hj]
                simp [Nodes.remove, Function.update_of_ne hj]
      · obtain ⟨n', nq, hn', hnq, t', hrun, he⟩ :=
          erase_below h.repr h.distinct hmem (Ne.symm hroot)
        obtain rfl : n = n' := Option.some.inj (hfind.symm.trans hn')
        refine ⟨t', hrun.congr fun fuel => ?_, he.comparator, he.defaulted, ?_, he.values⟩
        · simp [erase, hfind, detach, hroot, hnq]
        · rw [he.root]
          exact he.repr

/-! ### Searching -/

section Probe

variable (value : V) (predicate : V → V → Bool) (cmp : V → V → Direction)

/-- The subtrees `findFrom` looks into, in order, by the side on which the
searched value lies. -/
def turns : Direction → List Direction
  | .right => [.right]
  | .down => [.down, .right]
  | .up => [.up, .right]
  | .left => [.left, .down, .up, .right]

/-- The body of `findFrom` as a loop over `turns`: after a failed attempt the
start node is returned if it satisfies the predicate or nothing is left to try. -/
def attempts (find : Nodes K V → K → Option (K × Nodes K V)) (start : K) (fulfilled : Bool) :
    List Direction → Nodes K V → Option (K × Nodes K V)
  | [], m => some (start, m)
  | d :: ds, m => attempt value predicate find m start d fun m =>
      if fulfilled then some (start, m) else attempts find start fulfilled ds m

theorem findFrom_eq_attempts {m : Nodes K V} {k : K} {n : Node K V} (hk : k ≠ 0)
    (hn : m.find k = some n) (fuel : Nat) :
    findFrom value predicate cmp (fuel + 1) m k =
      attempts value predicate (findFrom value predicate cmp fuel) k (predicate value n.value)
        (turns (cmp value n.value)) m := by
  rw [findFrom, if_neg hk]
  simp only [Nodes.subscript_of_some hn]
  cases cmp value n.value <;> simp only [turns, attempts, ite_self]

/-- The loop over `turns` on the abstract tree, given what each attempt finds. -/
def probeAlong (hit : Direction → Option (K × V)) (fulfilled : Bool) (here : K × V) :
    List Direction → K × V
  | [] => here
  | d :: ds => (hit d).getD (if fulfilled then here else probeAlong hit fulfilled here ds)

/-- What `findFrom` computes, on the abstract tree. -/
def probe : DirTree Direction K V → Option (K × V)
  | .nil => none
  | .node key v sub =>
    some (probeAlong (fun d => (probe (sub d)).filter fun e => predicate value e.2)
      (predicate value v) (key, v) (turns (cmp value v)))

variable {value predicate cmp}

omit [Zero K] [DecidableEq K] [Inhabited V] in
/-- A probe returns the start node or something an attempt found. -/
theorem probeAlong_cases (hit : Direction → Option (K × V)) (fulfilled : Bool) (here : K × V)
    (ds : List Direction) :
    probeAlong hit fulfilled here ds = here ∨
      ∃ d ∈ ds, hit d = some (probeAlong hit fulfilled here ds) := by
  induction ds with
  | nil => exact Or.inl rfl
  | cons d ds ih =>
      cases hd : hit d with
      | some e => exact Or.inr ⟨d, List.mem_cons_self, by simp [probeAlong, hd]⟩
      | none =>
          cases fulfilled with
          | true => exact Or.inl (by simp [probeAlong, hd])
          | false =>
              simp only [probeAlong, hd, Option.getD_none, Bool.false_eq_true, if_false]
              exact ih.imp_right fun ⟨e, he, h⟩ => ⟨e, List.mem_cons_of_mem _ he, h⟩

omit [Zero K] [DecidableEq K] [Inhabited V] in
/-- A probe returns an entry of the tree. -/
theorem probe_entry {T : DirTree Direction K V} {e : K × V}
    (h : probe value predicate cmp T = some e) : T.Entry e.1 e.2 := by
  induction T generalizing e with
  | nil => simp [probe] at h
  | node key w sub ih =>
      obtain rfl := Option.some.inj h
      rcases probeAlong_cases (fun d => (probe value predicate cmp (sub d)).filter
        fun e => predicate value e.2) (predicate value w) (key, w) (turns (cmp value w)) with
        hhere | ⟨d, -, hd⟩
      · rw [hhere]
        exact Or.inl ⟨rfl, rfl⟩
      · exact Or.inr ⟨d, ih d (Option.filter_eq_some_iff.mp hd).1⟩

/-- One alternative of `findFrom`, once the search below and the continuation
settle without touching the map. -/
theorem attempt_settles {m : Nodes K V} {start : K} {n : Node K V} {d : Direction}
    (f : Nat → Nodes K V → K → Option (K × Nodes K V)) {T : DirTree Direction K V} {p : K}
    (g : Nat → Nodes K V → Option (K × Nodes K V)) {o : K × V}
    (hn : m.find start = some n) (hT : Repr m.find T p (n.leaf d))
    (hf : Settles (fun fuel => f fuel m (n.leaf d))
      (some ((probe value predicate cmp T).elim 0 Prod.fst, m)))
    (hg : Settles (fun fuel => g fuel m) (some (o.1, m))) :
    Settles (fun fuel => attempt value predicate (f fuel) m start d (g fuel))
      (some ((((probe value predicate cmp T).filter fun e => predicate value e.2).getD o).1,
        m)) := by
  obtain ⟨N, hN⟩ := hf
  obtain ⟨M, hM⟩ := hg
  refine ⟨N + M, fun fuel hfuel => ?_⟩
  have hf := hN fuel (by omega)
  have hg := hM fuel (by omega)
  simp only at hf hg
  simp only [attempt, Nodes.subscript_of_some hn, hf, Option.bind_some]
  cases hp : probe value predicate cmp T with
  | none => simp [hg]
  | some e =>
      obtain ⟨k, v⟩ := e
      obtain ⟨hk0, n', hn', hv⟩ := hT.entry (probe_entry hp)
      subst hv
      simp only at hk0 hn'
      simp only [Option.elim_some, if_neg hk0, Nodes.subscript_of_some hn']
      by_cases hpred : predicate value n'.value
      · simp [Option.filter_some, hpred]
      · simp [Option.filter_some, hpred, hg]

variable (value predicate cmp)

/-- **`findFrom`** ends, returns the probed key and leaves the map alone. -/
theorem findFrom_settles {m : Nodes K V} {T : DirTree Direction K V} {p k : K}
    (hT : Repr m.find T p k) :
    Settles (fun fuel => findFrom value predicate cmp fuel m k)
      (some ((probe value predicate cmp T).elim 0 Prod.fst, m)) := by
  induction T generalizing p k with
  | nil =>
      refine Settles.of_succ (Settles.of_forall fun fuel => ?_)
      rw [findFrom, if_pos (show k = 0 from hT)]
      rfl
  | node key v sub ih =>
      obtain ⟨rfl, h0, n, hn, rfl, hp, hsub⟩ := hT
      refine Settles.of_succ (Settles.congr ?_ (findFrom_eq_attempts value predicate cmp h0 hn))
      -- the loop over the turns settles, whatever turns are still to come
      have hloop : ∀ ds, Settles (fun fuel => attempts value predicate
          (findFrom value predicate cmp fuel) k (predicate value n.value) ds m)
          (some ((probeAlong (fun d => (probe value predicate cmp (sub d)).filter
            fun e => predicate value e.2) (predicate value n.value) (k, n.value) ds).1, m)) := by
        intro ds
        induction ds with
        | nil => exact Settles.of_forall fun _ => rfl
        | cons d ds ihds =>
            refine attempt_settles _ (fun fuel m => if predicate value n.value then some (k, m) else
              attempts value predicate (findFrom value predicate cmp fuel) k
                (predicate value n.value) ds m) hn (hsub d) (ih d (hsub d)) ?_
            cases hful : predicate value n.value with
            | true => exact Settles.of_forall fun _ => rfl
            | false => simpa [hful] using ihds
      exact hloop _

/-- **`findNode`** ends, leaves the tree alone, and returns the probed key if it
satisfies the predicate. -/
theorem findNode_settles {t : QuadTree K V} {T : DirTree Direction K V} (h : Shape t T) :
    Settles (fun fuel => findNode value predicate fuel t)
      (some (((probe value predicate t.comparator T).filter fun e =>
        predicate value e.2).elim 0 Prod.fst, t)) := by
  by_cases hroot : t.root = 0
  · have hnil : T = .nil := by
      have hrepr := h.repr
      rw [hroot] at hrepr
      exact hrepr.eq_nil
    refine Settles.of_forall fun fuel => ?_
    simp [findNode, hroot, hnil, probe]
  · obtain ⟨N, hN⟩ := findFrom_settles value predicate t.comparator h.repr
    refine ⟨N, fun fuel hfuel => ?_⟩
    have hfind := hN fuel hfuel
    simp only at hfind
    cases hp : probe value predicate t.comparator T with
    | none =>
        cases T with
        | nil => exact absurd h.repr hroot
        | node key v sub => simp [probe] at hp
    | some e =>
        obtain ⟨k, v⟩ := e
        obtain ⟨-, n, hn, hv⟩ := h.repr.entry (probe_entry hp)
        subst hv
        simp only at hn
        rw [hp] at hfind
        simp only [findNode, hroot, ne_eq, not_false_eq_true, if_true, hfind, Option.map_some,
          Option.elim_some, Nodes.subscript_of_some hn]
        by_cases hpred : predicate value n.value
        · simp [Option.filter_some, hpred]
        · simp [Option.filter_some, hpred]

end Probe

/-! ### Links -/

/-- Follow child links from a key along a path of directions. -/
def follow (m : K → Option (Node K V)) : K → List Direction → Option K
  | k, [] => if k = 0 then none else some k
  | k, d :: path => (m k).bind fun n => follow m (n.leaf d) path

omit [Inhabited V] in
theorem follow_zero {m : K → Option (Node K V)} (h0 : m 0 = none) (path : List Direction) :
    follow m 0 path = none := by
  cases path <;> simp [follow, h0]

omit [Inhabited V] in
/-- Paths from the start of a represented tree reach exactly its keys. -/
theorem Repr.mem_iff_follow {m : K → Option (Node K V)} {T : DirTree Direction K V} {p k j : K}
    (h0 : m 0 = none) (hT : Repr m T p k) : T.Mem j ↔ ∃ path, follow m k path = some j := by
  induction T generalizing p k with
  | nil =>
      obtain rfl : k = 0 := hT
      simp [follow_zero h0]
  | node key v sub ih =>
      obtain ⟨rfl, hk, n, hn, rfl, hp, hsub⟩ := hT
      rw [DirTree.mem_node]
      refine ⟨fun h => ?_, fun ⟨path, hpath⟩ => ?_⟩
      · rcases h with rfl | ⟨d, hd⟩
        · exact ⟨[], by simp [follow, hk]⟩
        · obtain ⟨path, hpath⟩ := (ih d (hsub d)).mp hd
          exact ⟨d :: path, by simp [follow, hn, hpath]⟩
      · cases path with
        | nil => exact Or.inl (by simpa [follow, hk, eq_comm] using hpath)
        | cons d path =>
            refine Or.inr ⟨d, (ih d (hsub d)).mpr ⟨path, ?_⟩⟩
            simpa [follow, hn] using hpath

omit [Inhabited V] in
/-- With distinct keys, no key is reached along two paths. -/
theorem Repr.follow_inj {m : K → Option (Node K V)} {T : DirTree Direction K V} {p k j : K}
    (h0 : m 0 = none) (hT : Repr m T p k) (hdist : T.Distinct) {path path' : List Direction}
    (hpath : follow m k path = some j) (hpath' : follow m k path' = some j) : path = path' := by
  induction T generalizing p k path path' with
  | nil =>
      obtain rfl : k = 0 := hT
      simp [follow_zero h0] at hpath
  | node key v sub ih =>
      obtain ⟨rfl, hk, n, hn, rfl, hp, hsub⟩ := hT
      -- the key reached below `d` lies in the `d`-subtree, the empty path reaches the root
      have hbelow : ∀ d path, follow m k (d :: path) = some j → (sub d).Mem j := by
        intro d path h
        exact ((hsub d).mem_iff_follow h0).mpr ⟨path, by simpa [follow, hn] using h⟩
      have hhere : follow m k [] = some j → j = k := by
        intro h
        simpa [follow, hk, eq_comm] using h
      cases path with
      | nil =>
          cases path' with
          | nil => rfl
          | cons d path' => exact absurd (hhere hpath ▸ hbelow d path' hpath') (hdist.1 d)
      | cons d path =>
          cases path' with
          | nil => exact absurd (hhere hpath' ▸ hbelow d path hpath) (hdist.1 d)
          | cons e path' =>
              by_cases hde : d = e
              · subst hde
                exact congrArg (d :: ·) (ih d (hsub d) (hdist.2.2 d)
                  (by simpa [follow, hn] using hpath) (by simpa [follow, hn] using hpath'))
              · exact absurd (hbelow e path' hpath') (hdist.2.1 d e hde j (hbelow d path hpath))

omit [Inhabited V] in
/-- The parent field of a key reached in one more step names the key before it;
at the start it is `p`. -/
theorem Repr.follow_parent {m : K → Option (Node K V)} {T : DirTree Direction K V} {p k j : K}
    (h0 : m 0 = none) (hT : Repr m T p k) {path : List Direction} {d : Direction}
    (hpath : follow m k (path ++ [d]) = some j) :
    ∃ n q, m j = some n ∧ follow m k path = some q ∧ n.parent = q ∧ q ≠ 0 := by
  induction T generalizing p k path with
  | nil =>
      obtain rfl : k = 0 := hT
      simp [follow_zero h0] at hpath
  | node key v sub ih =>
      obtain ⟨rfl, hk, n, hn, rfl, hp, hsub⟩ := hT
      cases path with
      | nil =>
          simp only [List.nil_append, follow, hn, Option.bind_some] at hpath
          have hleaf : n.leaf d ≠ 0 := fun h => by simp [h] at hpath
          obtain rfl : n.leaf d = j := by simpa [hleaf] using hpath
          obtain ⟨v', hv'⟩ := (hsub d).mem_root hleaf
          cases hs : sub d with
          | nil => simp [hs] at hv'
          | node a b c =>
              have hrepr := hsub d
              rw [hs] at hrepr
              obtain ⟨ha, -, n', hn', -, hparent, -⟩ := hrepr
              exact ⟨n', k, ha ▸ hn', by simp [follow, hk], hparent, hk⟩
      | cons e path =>
          simp only [List.cons_append, follow, hn, Option.bind_some] at hpath
          obtain ⟨n', q, hn', hq, hparent, hq0⟩ := ih e (hsub e) hpath
          exact ⟨n', q, hn', by simpa [follow, hn] using hq, hparent, hq0⟩

/-- The links of the map form one tree that holds every node: each node is
reached from `root` along exactly one path, nothing else is reached, and the
parent field names the node before it on that path. -/
structure Linked (t : QuadTree K V) : Prop where
  zero_free : t.nodes.find 0 = none
  reached : ∀ k, (t.nodes.find k).isSome → ∃! path, follow t.nodes.find t.root path = some k
  present : ∀ path k, follow t.nodes.find t.root path = some k → (t.nodes.find k).isSome
  hangs : ∀ path d k, follow t.nodes.find t.root (path ++ [d]) = some k →
    ∃ n q, t.nodes.find k = some n ∧ follow t.nodes.find t.root path = some q ∧ n.parent = q
  orphan : ∀ k n, t.nodes.find k = some n → (n.parent = 0 ↔ k = t.root)
  defaulted : t.nodes.defaulted = 0

omit [DecidableEq K] [Inhabited V] in
theorem Shape.zero_free {t : QuadTree K V} {T : DirTree Direction K V} (h : Shape t T) :
    t.nodes.find 0 = none := by
  cases hfind : t.nodes.find 0 with
  | none => rfl
  | some n => exact absurd rfl (h.repr.nonzero (h.covers 0 (by simp [hfind])))

omit [Inhabited V] in
theorem Shape.linked {t : QuadTree K V} {T : DirTree Direction K V} (h : Shape t T) :
    Linked t := by
  have h0 := h.zero_free
  refine ⟨h0, fun k hk => ?_, fun path k hpath => ?_, fun path d k hpath => ?_,
    fun k n hn => ?_, h.defaulted⟩
  · obtain ⟨path, hpath⟩ := (h.repr.mem_iff_follow h0).mp (h.covers k hk)
    exact ⟨path, hpath, fun path' hpath' => h.repr.follow_inj h0 h.distinct hpath' hpath⟩
  · exact h.find_iff.mpr ((h.repr.mem_iff_follow h0).mpr ⟨path, hpath⟩)
  · obtain ⟨n, q, hn, hq, hparent, -⟩ := h.repr.follow_parent h0 hpath
    exact ⟨n, q, hn, hq, hparent⟩
  · obtain ⟨path, hpath⟩ := (h.repr.mem_iff_follow h0).mp (h.covers k (by simp [hn]))
    -- the root is the one node reached by the empty path
    rcases List.eq_nil_or_concat' path with rfl | ⟨path, d, rfl⟩
    · have hroot : t.root ≠ 0 := fun hr => by simp [follow, hr] at hpath
      obtain rfl : t.root = k := by simpa [follow, hroot] using hpath
      refine ⟨fun _ => rfl, fun _ => ?_⟩
      have hrepr := h.repr
      cases T with
      | nil => exact absurd hrepr hroot
      | node key v sub =>
          obtain ⟨hk, -, n', hn', -, hparent, -⟩ := hrepr
          rw [hk] at hn
          rw [Option.some.inj (hn.symm.trans hn'), hparent]
    · obtain ⟨n', q, hn', -, hparent, hq⟩ := h.repr.follow_parent h0 hpath
      obtain rfl : n = n' := Option.some.inj (hn.symm.trans hn')
      refine ⟨fun hp => absurd (hparent ▸ hp) hq, fun hk => ?_⟩
      have hroot : t.root ≠ 0 := fun hr => h.repr.nonzero (h.covers k (by simp [hn])) (hk.trans hr)
      have hnil : follow t.nodes.find t.root [] = some k := by simp [follow, hroot, hk]
      exact absurd (h.repr.follow_inj h0 h.distinct hnil hpath) (by simp)

/-! ### Histories -/

/-- The mutating operations of a tree. -/
inductive TreeOp (K V : Type) where
  | add (key : K) (value : V)
  | erase (key : K)

/-- One operation of a history: `add` is given fresh nonzero keys. -/
inductive Step : QuadTree K V → TreeOp K V → QuadTree K V → Prop
  | add {t t' : QuadTree K V} (key : K) (value : V) (hkey : key ≠ 0)
      (hfresh : t.nodes.find key = none)
      (hrun : Settles (fun fuel => t.add fuel key value) (some t')) : Step t (.add key value) t'
  | erase {t t' : QuadTree K V} (key : K)
      (hrun : Settles (fun fuel => t.erase fuel key) (some t')) : Step t (.erase key) t'

theorem Step.shape {t t' : QuadTree K V} {op : TreeOp K V} (hstep : Step t op t')
    {T : DirTree Direction K V} (h : Shape t T) :
    t'.comparator = t.comparator ∧ ∃ T', Shape t' T' := by
  cases hstep with
  | add key value hkey hfresh hrun =>
      obtain ⟨t₁, hrun₁, hcmp, hshape⟩ := add_settles h hkey hfresh _
      obtain rfl := Option.some.inj (hrun.unique hrun₁)
      exact ⟨hcmp, _, hshape⟩
  | erase key hrun =>
      obtain ⟨t₁, hrun₁, hcmp, hshape, -⟩ := erase_settles h _
      obtain rfl := Option.some.inj (hrun.unique hrun₁)
      exact ⟨hcmp, _, hshape⟩

/-- Every history leads to a map that represents some tree. -/
theorem shape_of_run {c : V → V → Direction} {ops : List (TreeOp K V)} {t : QuadTree K V}
    (hrun : Run Step (empty c) ops t) : ∃ T, Shape t T :=
  hrun.state_invariant (I := fun t => ∃ T, Shape t T) ⟨_, shape_empty c⟩
    fun _ _ _ ⟨_, h⟩ hstep => (hstep.shape h).2

/-- **Structural integrity.** After any history of `add` with fresh nonzero keys
and `erase` with arbitrary keys, under any comparator: the nodes form one tree
with correct parent fields; every further operation ends; `add` and `erase`
change the set of keys by exactly their key and keep every other value; a search
changes nothing; and no default node is ever inserted. -/
theorem tree_integrity (c : V → V → Direction) {ops : List (TreeOp K V)} {t : QuadTree K V}
    (hrun : Run Step (empty c) ops t) :
    Linked t ∧
      (∀ key value, key ≠ 0 → t.nodes.find key = none →
        ∃ t', Settles (fun fuel => t.add fuel key value) (some t') ∧ t'.nodes.defaulted = 0 ∧
          ∀ j, (t'.nodes.find j).map Node.value =
            if j = key then some value else (t.nodes.find j).map Node.value) ∧
      (∀ key, ∃ t', Settles (fun fuel => t.erase fuel key) (some t') ∧ t'.nodes.defaulted = 0 ∧
          ∀ j, (t'.nodes.find j).map Node.value =
            if j = key then none else (t.nodes.find j).map Node.value) ∧
      ∀ value predicate, ∃ key,
        Settles (fun fuel => findNode value predicate fuel t) (some (key, t)) := by
  obtain ⟨T, h⟩ := shape_of_run hrun
  refine ⟨h.linked, fun key value hkey hfresh => ?_, fun key => ?_, fun value predicate => ?_⟩
  · obtain ⟨t', hadd, -, h'⟩ := add_settles h hkey hfresh value
    exact ⟨t', hadd, h'.defaulted, h.values_of_graft h'⟩
  · obtain ⟨t', herase, -, h', hvalues⟩ := erase_settles h key
    exact ⟨t', herase, h'.defaulted, hvalues⟩
  · exact ⟨_, findNode_settles value predicate h⟩

/-- A history that erases the root of a three-node tree, and what integrity says
of the state it leads to. -/
theorem tree_integrity_root_erased :
    ∃ t : QuadTree Nat Nat,
      Run Step (empty fun a b => if a < b then .left else .right)
        [.add 1 5, .add 2 3, .add 3 9, .erase 1] t ∧
      t.root = 2 ∧ Linked t ∧ ∀ value predicate, ∃ key,
        Settles (fun fuel => findNode value predicate fuel t) (some (key, t)) := by
  have hrun := (((Run.nil (empty fun a b : Nat => if a < b then .left else .right)).snoc
    (Step.add 1 5 (by decide) rfl (Settles.of_add 4 fun _ => rfl))).snoc
    (Step.add 2 3 (by decide) rfl (Settles.of_add 4 fun _ => rfl))).snoc
    (Step.add 3 9 (by decide) rfl (Settles.of_add 4 fun _ => rfl)) |>.snoc
    (Step.erase 1 (Settles.of_add 4 fun _ => rfl))
  obtain ⟨hlinked, -, -, hfind⟩ := tree_integrity _ hrun
  exact ⟨_, hrun, rfl, hlinked, hfind⟩

end QuadTree

end Maple
