import Mathlib.Logic.Function.Basic
import Mathlib.Data.List.Basic

/-!
# Maple.Lib.DirTree

**Search trees with one subtree per direction.** A node carries a key, a value
and, for every direction `d : D`, a (possibly empty) subtree. A comparator
`cmp : V → V → D` says on which side of a node a value belongs; nothing is
assumed of it, so the structural facts hold for every comparator whatsoever.

The operations are the ones a pointer implementation performs:

* `graft` hangs a whole tree below another by walking down from the root, at
  each node going in the direction of the hung tree's *root* value;
* `rehang` grafts a list of trees one after another;
* `erase` removes a key and rehangs the subtrees of its node, starting the walk
  at the node they were removed from (at the root of nothing, if the key was
  the root).

`Ordered` is the search invariant. `graft` keeps it only when every value of the
hung tree agrees with its root value on the nodes of the host
(`Ordered.graft`): comparing roots alone is not enough.
-/

namespace Maple.Lib

/-- A search tree with one subtree per direction. -/
inductive DirTree (D K V : Type) where
  | nil
  | node (key : K) (value : V) (sub : D → DirTree D K V)

namespace DirTree

variable {D K V : Type}

/-- `t.Entry k v`: the tree has a node with key `k` and value `v`. -/
def Entry : DirTree D K V → K → V → Prop
  | nil, _, _ => False
  | node key value sub, k, v => (k = key ∧ v = value) ∨ ∃ d, (sub d).Entry k v

/-- `t.Mem k`: the tree has a node with key `k`. -/
def Mem (t : DirTree D K V) (k : K) : Prop := ∃ v, t.Entry k v

/-- No key occurs twice. -/
def Distinct : DirTree D K V → Prop
  | nil => True
  | node key _ sub =>
    (∀ d, ¬ (sub d).Mem key) ∧
      (∀ d e, d ≠ e → ∀ k, (sub d).Mem k → ¬ (sub e).Mem k) ∧ ∀ d, (sub d).Distinct

/-- The search invariant: everything below a node in direction `d` compares to
the node in direction `d`. -/
def Ordered (cmp : V → V → D) : DirTree D K V → Prop
  | nil => True
  | node _ value sub =>
    (∀ d k v, (sub d).Entry k v → cmp v value = d) ∧ ∀ d, (sub d).Ordered cmp

/-- The subtrees of the root (all empty for the empty tree). -/
def children : DirTree D K V → D → DirTree D K V
  | nil, _ => nil
  | node _ _ sub, d => sub d

/-- The key at the root. -/
def rootKey : DirTree D K V → Option K
  | nil => none
  | node key _ _ => some key

/-- The value at the root. -/
def rootValue : DirTree D K V → Option V
  | nil => none
  | node _ value _ => some value

/-- A tree of one node. -/
def leaf (k : K) (v : V) : DirTree D K V := node k v fun _ => nil

/-! ### Membership -/

@[simp] theorem entry_nil (k : K) (v : V) : ¬ (nil : DirTree D K V).Entry k v := id

@[simp] theorem entry_node {key : K} {value : V} {sub : D → DirTree D K V} {k : K} {v : V} :
    (node key value sub).Entry k v ↔ (k = key ∧ v = value) ∨ ∃ d, (sub d).Entry k v :=
  Iff.rfl

@[simp] theorem mem_nil (k : K) : ¬ (nil : DirTree D K V).Mem k := by
  rintro ⟨v, hv⟩
  exact hv

@[simp] theorem mem_node {key : K} {value : V} {sub : D → DirTree D K V} {k : K} :
    (node key value sub).Mem k ↔ k = key ∨ ∃ d, (sub d).Mem k := by
  constructor
  · rintro ⟨v, ⟨rfl, -⟩ | ⟨d, hd⟩⟩
    · exact Or.inl rfl
    · exact Or.inr ⟨d, v, hd⟩
  · rintro (rfl | ⟨d, v, hv⟩)
    · exact ⟨value, Or.inl ⟨rfl, rfl⟩⟩
    · exact ⟨v, Or.inr ⟨d, hv⟩⟩

theorem Entry.mem {t : DirTree D K V} {k : K} {v : V} (h : t.Entry k v) : t.Mem k := ⟨v, h⟩

@[simp] theorem entry_leaf {k j : K} {v w : V} :
    (leaf k v : DirTree D K V).Entry j w ↔ j = k ∧ w = v := by
  simp [leaf]

@[simp] theorem mem_leaf {k j : K} {v : V} : (leaf k v : DirTree D K V).Mem j ↔ j = k := by
  simp [leaf]

theorem distinct_leaf (k : K) (v : V) : (leaf k v : DirTree D K V).Distinct := by
  simp [leaf, Distinct]

theorem ordered_leaf (cmp : V → V → D) (k : K) (v : V) :
    (leaf k v : DirTree D K V).Ordered cmp := by
  simp [leaf, Ordered]

/-- The three positions of `k` that `erase` tells apart: at the root, just below
it, and anywhere deeper (or nowhere). -/
theorem erase_induction {motive : DirTree D K V → Prop} {k : K} (hnil : motive nil)
    (hroot : ∀ value sub, motive (node k value sub))
    (hchild : ∀ key value sub d v sub', key ≠ k → sub d = node k v sub' →
      motive (node key value sub))
    (hdeep : ∀ key value sub, key ≠ k → (∀ d, (sub d).rootKey ≠ some k) →
      (∀ d, motive (sub d)) → motive (node key value sub))
    (t : DirTree D K V) : motive t := by
  induction t with
  | nil => exact hnil
  | node key value sub ih =>
      by_cases hk : key = k
      · subst hk
        exact hroot value sub
      · by_cases hd : ∃ d, (sub d).rootKey = some k
        · obtain ⟨d, hd⟩ := hd
          cases hs : sub d with
          | nil => simp [hs, rootKey] at hd
          | node k' v sub' =>
              obtain rfl : k' = k := by simpa [hs, rootKey] using hd
              exact hchild key value sub d v sub' hk hs
        · exact hdeep key value sub hk (fun d h => hd ⟨d, h⟩) ih

/-- The subtrees below a node with distinct keys are distinct and disjoint. -/
theorem Distinct.pairwise_map {key : K} {value : V} {sub : D → DirTree D K V} {dirs : List D}
    (hdist : (node key value sub).Distinct) (hnd : dirs.Nodup) :
    (dirs.map sub).Pairwise fun s s' => ∀ k, s.Mem k → ¬ s'.Mem k := by
  rw [List.pairwise_map]
  exact hnd.imp fun hde => hdist.2.1 _ _ hde

section Graft

variable [DecidableEq D] (cmp : V → V → D)

/-- Hang a tree, given after its root value, below the first tree. -/
def graft : DirTree D K V → V → DirTree D K V → DirTree D K V
  | nil, _, s => s
  | node key value sub, w, s =>
    node key value (Function.update sub (cmp w value) ((sub (cmp w value)).graft w s))

/-- Hang a tree below another; hanging nothing changes nothing. -/
def hang (t s : DirTree D K V) : DirTree D K V :=
  match s with
  | nil => t
  | node _ value _ => t.graft cmp value s

/-- Hang a list of trees, one after another. -/
def rehang (t : DirTree D K V) (ss : List (DirTree D K V)) : DirTree D K V :=
  ss.foldl (fun t s => t.hang cmp s) t

@[simp] theorem rehang_nil (t : DirTree D K V) : t.rehang cmp [] = t := rfl

@[simp] theorem rehang_cons (t s : DirTree D K V) (ss : List (DirTree D K V)) :
    t.rehang cmp (s :: ss) = (t.hang cmp s).rehang cmp ss := rfl

/-- Clearing the `d`-subtree of a node with distinct keys keeps keys distinct. -/
theorem Distinct.clear {key : K} {value : V} {sub : D → DirTree D K V}
    (h : (node key value sub).Distinct) (d : D) :
    (node key value (Function.update sub d nil)).Distinct := by
  obtain ⟨hroot, hsub, hdist⟩ := h
  refine ⟨fun e => ?_, fun e f hef k => ?_, fun e => ?_⟩
  · by_cases he : e = d
    · subst he; simp
    · rw [Function.update_of_ne he]; exact hroot e
  · by_cases he : e = d
    · subst he; simp
    · by_cases hf : f = d
      · subst hf; simp
      · rw [Function.update_of_ne he, Function.update_of_ne hf]
        exact hsub e f hef k
  · by_cases he : e = d
    · subst he; simp [Distinct]
    · rw [Function.update_of_ne he]; exact hdist e

/-- What is left after clearing the `d`-subtree was not in it. -/
theorem Distinct.mem_clear {key : K} {value : V} {sub : D → DirTree D K V}
    (h : (node key value sub).Distinct) {d : D} {k : K}
    (hk : (node key value (Function.update sub d nil)).Mem k) :
    (node key value sub).Mem k ∧ ¬ (sub d).Mem k := by
  obtain ⟨hroot, hsub, -⟩ := h
  rcases mem_node.mp hk with rfl | ⟨e, he⟩
  · exact ⟨mem_node.mpr (Or.inl rfl), hroot d⟩
  · by_cases hed : e = d
    · subst hed; simp at he
    · rw [Function.update_of_ne hed] at he
      exact ⟨mem_node.mpr (Or.inr ⟨e, he⟩), hsub e d hed k he⟩

variable {cmp}

/-- Grafting adds the entries of the hung tree and nothing else. -/
theorem entry_graft {w : V} {s t : DirTree D K V} {k : K} {v : V} :
    (t.graft cmp w s).Entry k v ↔ t.Entry k v ∨ s.Entry k v := by
  induction t with
  | nil => simp [graft]
  | node key value sub ih =>
      simp only [graft, entry_node]
      constructor
      · rintro (h | ⟨d, hd⟩)
        · exact Or.inl (Or.inl h)
        · by_cases hc : d = cmp w value
          · subst hc
            rw [Function.update_self] at hd
            rcases (ih _).mp hd with h | h
            · exact Or.inl (Or.inr ⟨_, h⟩)
            · exact Or.inr h
          · rw [Function.update_of_ne hc] at hd
            exact Or.inl (Or.inr ⟨d, hd⟩)
      · rintro ((h | ⟨d, hd⟩) | h)
        · exact Or.inl h
        · refine Or.inr ⟨d, ?_⟩
          by_cases hc : d = cmp w value
          · subst hc
            rw [Function.update_self]
            exact (ih _).mpr (Or.inl hd)
          · rw [Function.update_of_ne hc]
            exact hd
        · refine Or.inr ⟨cmp w value, ?_⟩
          rw [Function.update_self]
          exact (ih _).mpr (Or.inr h)

theorem mem_graft {w : V} {s t : DirTree D K V} {k : K} :
    (t.graft cmp w s).Mem k ↔ t.Mem k ∨ s.Mem k := by
  simp only [Mem, entry_graft, exists_or]

theorem entry_hang {s t : DirTree D K V} {k : K} {v : V} :
    (t.hang cmp s).Entry k v ↔ t.Entry k v ∨ s.Entry k v := by
  cases s with
  | nil => simp [hang]
  | node key value sub => exact entry_graft

theorem mem_hang {s t : DirTree D K V} {k : K} :
    (t.hang cmp s).Mem k ↔ t.Mem k ∨ s.Mem k := by
  simp only [Mem, entry_hang, exists_or]

theorem entry_rehang {t : DirTree D K V} {ss : List (DirTree D K V)} {k : K} {v : V} :
    (t.rehang cmp ss).Entry k v ↔ t.Entry k v ∨ ∃ s ∈ ss, s.Entry k v := by
  induction ss generalizing t with
  | nil => simp
  | cons s ss ih =>
      rw [rehang_cons, ih, entry_hang]
      simp only [List.mem_cons, exists_eq_or_imp]
      exact or_assoc

/-- Grafting disjoint trees keeps keys distinct. -/
theorem Distinct.graft {w : V} {s t : DirTree D K V} (ht : t.Distinct) (hs : s.Distinct)
    (hdisj : ∀ k, t.Mem k → ¬ s.Mem k) : (t.graft cmp w s).Distinct := by
  induction t with
  | nil => exact hs
  | node key value sub ih =>
      obtain ⟨hroot, hsub, hdist⟩ := ht
      have hkey : ¬ s.Mem key := hdisj key (mem_node.mpr (Or.inl rfl))
      have hsubdisj : ∀ d k, (sub d).Mem k → ¬ s.Mem k :=
        fun d k hk => hdisj k (mem_node.mpr (Or.inr ⟨d, hk⟩))
      -- the updated subtree holds what the old one held and what was hung
      have hmem : ∀ d k, (Function.update sub (cmp w value)
          ((sub (cmp w value)).graft cmp w s) d).Mem k →
          (sub d).Mem k ∨ (d = cmp w value ∧ s.Mem k) := by
        intro d k hk
        by_cases hc : d = cmp w value
        · subst hc
          rw [Function.update_self, mem_graft] at hk
          exact hk.imp_right fun h => ⟨rfl, h⟩
        · rw [Function.update_of_ne hc] at hk
          exact Or.inl hk
      refine ⟨?_, ?_, ?_⟩
      · intro d hd
        rcases hmem d key hd with h | ⟨-, h⟩
        · exact hroot d h
        · exact hkey h
      · intro d e hde k hd he
        rcases hmem d k hd with h | ⟨hdc, h⟩ <;> rcases hmem e k he with h' | ⟨hec, h'⟩
        · exact hsub d e hde k h h'
        · exact hsubdisj d k h h'
        · exact hsubdisj e k h' h
        · exact hde (hdc.trans hec.symm)
      · intro d
        by_cases hc : d = cmp w value
        · subst hc
          rw [Function.update_self]
          exact ih _ (hdist _) (hsubdisj _)
        · rw [Function.update_of_ne hc]
          exact hdist d

theorem Distinct.hang {s t : DirTree D K V} (ht : t.Distinct) (hs : s.Distinct)
    (hdisj : ∀ k, t.Mem k → ¬ s.Mem k) : (t.hang cmp s).Distinct := by
  cases s with
  | nil => exact ht
  | node key value sub => exact ht.graft hs hdisj

/-- Grafting keeps the search invariant when every value of the hung tree takes
the turns its root value takes. -/
theorem Ordered.graft {w : V} {s t : DirTree D K V} (ht : t.Ordered cmp) (hs : s.Ordered cmp)
    (hturn : ∀ k x j v, t.Entry k x → s.Entry j v → cmp v x = cmp w x) :
    (t.graft cmp w s).Ordered cmp := by
  induction t with
  | nil => exact hs
  | node key value sub ih =>
      obtain ⟨hside, hsub⟩ := ht
      refine ⟨?_, ?_⟩
      · intro d k v hd
        by_cases hc : d = cmp w value
        · subst hc
          rw [Function.update_self] at hd
          rcases entry_graft.mp hd with h | h
          · exact hside _ k v h
          · exact hturn key value k v (Or.inl ⟨rfl, rfl⟩) h
        · rw [Function.update_of_ne hc] at hd
          exact hside d k v hd
      · intro d
        by_cases hc : d = cmp w value
        · subst hc
          rw [Function.update_self]
          exact ih _ (hsub _) fun k x j v hk hj => hturn k x j v (Or.inr ⟨_, hk⟩) hj
        · rw [Function.update_of_ne hc]
          exact hsub d

/-- Grafting a list of disjoint trees keeps keys distinct. -/
theorem Distinct.rehang {t : DirTree D K V} {ss : List (DirTree D K V)} (ht : t.Distinct)
    (hss : ∀ s ∈ ss, s.Distinct) (hdisj : ∀ s ∈ ss, ∀ k, t.Mem k → ¬ s.Mem k)
    (hpair : ss.Pairwise fun s s' => ∀ k, s.Mem k → ¬ s'.Mem k) :
    (t.rehang cmp ss).Distinct := by
  induction ss generalizing t with
  | nil => exact ht
  | cons s ss ih =>
      obtain ⟨hs, hpair⟩ := List.pairwise_cons.mp hpair
      refine ih (ht.hang (hss s List.mem_cons_self) (hdisj s List.mem_cons_self))
        (fun s' hs' => hss s' (List.mem_cons_of_mem _ hs')) ?_ hpair
      intro s' hs' k hk
      rcases mem_hang.mp hk with h | h
      · exact hdisj s' (List.mem_cons_of_mem _ hs') k h
      · exact hs s' hs' k h

/-- `Agree cmp t s`: on every node of `t`, every value of `s` takes the turn the
root value of `s` takes. -/
def Agree (cmp : V → V → D) (t s : DirTree D K V) : Prop :=
  ∀ w, s.rootValue = some w → ∀ k x j v, t.Entry k x → s.Entry j v → cmp v x = cmp w x

theorem Ordered.hang {s t : DirTree D K V} (ht : t.Ordered cmp) (hs : s.Ordered cmp)
    (hagree : Agree cmp t s) : (t.hang cmp s).Ordered cmp := by
  cases s with
  | nil => exact ht
  | node key value sub => exact ht.graft hs (hagree value rfl)

/-- Grafting a list of trees keeps the search invariant when each agrees with
the host and with the trees grafted before it. -/
theorem Ordered.rehang {t : DirTree D K V} {ss : List (DirTree D K V)} (ht : t.Ordered cmp)
    (hss : ∀ s ∈ ss, s.Ordered cmp) (hagree : ∀ s ∈ ss, Agree cmp t s)
    (hpair : ss.Pairwise (Agree cmp)) : (t.rehang cmp ss).Ordered cmp := by
  induction ss generalizing t with
  | nil => exact ht
  | cons s ss ih =>
      obtain ⟨hs, hpair⟩ := List.pairwise_cons.mp hpair
      refine ih (ht.hang (hss s List.mem_cons_self) (hagree s List.mem_cons_self))
        (fun s' hs' => hss s' (List.mem_cons_of_mem _ hs')) ?_ hpair
      intro s' hs' w hw k x j v hk hj
      rcases entry_hang.mp hk with h | h
      · exact hagree s' (List.mem_cons_of_mem _ hs') w hw k x j v h hj
      · exact hs s' hs' w hw k x j v h hj

/-- Trees whose roots all belong on side `d` of a node are rehung into that
node's `d`-subtree. -/
theorem rehang_node_side {key : K} {value : V} {sub : D → DirTree D K V} {d : D}
    {ss : List (DirTree D K V)}
    (hside : ∀ s ∈ ss, ∀ w, s.rootValue = some w → cmp w value = d) :
    (node key value sub).rehang cmp ss =
      node key value (Function.update sub d ((sub d).rehang cmp ss)) := by
  induction ss generalizing sub with
  | nil => simp
  | cons s ss ih =>
      have htail : ∀ s' ∈ ss, ∀ w, s'.rootValue = some w → cmp w value = d :=
        fun s' hs' => hside s' (List.mem_cons_of_mem _ hs')
      cases s with
      | nil => exact ih htail
      | node k v sub' =>
          have hd : cmp v value = d := hside _ List.mem_cons_self v rfl
          subst hd
          rw [rehang_cons, rehang_cons]
          simp only [hang, graft]
          rw [ih htail]
          simp

section Erase

variable [DecidableEq K] (cmp) (dirs : List D)

/-- Remove `k` and rehang the subtrees of its node, in the order of `dirs`. The
walk that rehangs them starts at the node above (there is none at the root). -/
def erase (k : K) : DirTree D K V → DirTree D K V
  | nil => nil
  | node key value sub =>
    if key = k then nil.rehang cmp (dirs.map sub)
    else
      match dirs.find? fun d => (sub d).rootKey = some k with
      | some d =>
        (node key value (Function.update sub d nil)).rehang cmp (dirs.map (sub d).children)
      | none => node key value fun d => (sub d).erase k

variable {cmp dirs}

theorem erase_root (k : K) (value : V) (sub : D → DirTree D K V) :
    (node k value sub).erase cmp dirs k = nil.rehang cmp (dirs.map sub) := by
  rw [erase, if_pos rfl]

theorem erase_child {key k : K} {value v : V} {sub sub' : D → DirTree D K V} {d : D}
    (hall : ∀ d, d ∈ dirs) (hdist : (node key value sub).Distinct) (hk : key ≠ k)
    (hd : sub d = node k v sub') :
    (node key value sub).erase cmp dirs k =
      (node key value (Function.update sub d nil)).rehang cmp (dirs.map sub') := by
  have hmem : ∀ e, (sub e).rootKey = some k → e = d := by
    intro e he
    by_contra hne
    have hek : (sub e).Mem k := by
      cases hs : sub e with
      | nil => simp [hs, rootKey] at he
      | node k' v' sub'' =>
          obtain rfl : k' = k := by simpa [hs, rootKey] using he
          exact mem_node.mpr (Or.inl rfl)
    have hdk : (sub d).Mem k := by rw [hd]; exact mem_node.mpr (Or.inl rfl)
    exact hdist.2.1 e d hne k hek hdk
  have hfind : (dirs.find? fun d => (sub d).rootKey = some k) = some d := by
    cases hf : dirs.find? fun d => (sub d).rootKey = some k with
    | none =>
        have := List.find?_eq_none.mp hf d (hall d)
        simp [hd, rootKey] at this
    | some e =>
        have he := List.find?_some hf
        rw [hmem e (by simpa using he)]
  rw [erase, if_neg hk, hfind]
  simp only [hd]
  rfl

theorem erase_deep {key k : K} {value : V} {sub : D → DirTree D K V} (hk : key ≠ k)
    (hroot : ∀ d, (sub d).rootKey ≠ some k) :
    (node key value sub).erase cmp dirs k =
      node key value fun d => (sub d).erase cmp dirs k := by
  have hfind : (dirs.find? fun d => (sub d).rootKey = some k) = none :=
    List.find?_eq_none.mpr fun d _ => by simpa using hroot d
  rw [erase, if_neg hk, hfind]

/-- Erasing a key that does not occur changes nothing. -/
theorem erase_of_not_mem {k : K} {t : DirTree D K V} (hk : ¬ t.Mem k) :
    t.erase cmp dirs k = t := by
  induction t with
  | nil => rfl
  | node key value sub ih =>
      have hkey : key ≠ k := fun h => hk (mem_node.mpr (Or.inl h.symm))
      have hsub : ∀ d, ¬ (sub d).Mem k := fun d h => hk (mem_node.mpr (Or.inr ⟨d, h⟩))
      have hroot : ∀ d, (sub d).rootKey ≠ some k := by
        intro d h
        cases hs : sub d with
        | nil => simp [hs, rootKey] at h
        | node k' v sub' =>
            refine hsub d ?_
            rw [hs]
            exact mem_node.mpr (Or.inl (by simpa [hs, rootKey, eq_comm] using h))
      rw [erase_deep hkey hroot]
      simp only [ih _ (hsub _)]

/-- Erasing removes exactly the entry of the erased key. -/
theorem entry_erase (hall : ∀ d, d ∈ dirs) {t : DirTree D K V} (hdist : t.Distinct)
    {k j : K} {v : V} : (t.erase cmp dirs k).Entry j v ↔ t.Entry j v ∧ j ≠ k := by
  induction t using erase_induction (k := k) with
  | hnil => simp [erase]
  | hroot value sub =>
      rw [erase_root, entry_rehang]
      simp only [entry_nil, false_or, List.mem_map, exists_exists_and_eq_and, entry_node]
      constructor
      · rintro ⟨d, -, hd⟩
        refine ⟨Or.inr ⟨d, hd⟩, ?_⟩
        rintro rfl
        exact hdist.1 d hd.mem
      · rintro ⟨⟨rfl, -⟩ | ⟨d, hd⟩, hne⟩
        · exact absurd rfl hne
        · exact ⟨d, hall d, hd⟩
  | hchild key value sub d v' sub' hk hd =>
      rw [erase_child hall hdist hk hd, entry_rehang]
      simp only [List.mem_map, exists_exists_and_eq_and, entry_node]
      obtain ⟨hroot, hsub, hsubdist⟩ := hdist
      have hdd := hsubdist d
      rw [hd] at hdd
      have hkd : (sub d).Mem k := by rw [hd]; exact mem_node.mpr (Or.inl rfl)
      constructor
      · rintro ((⟨rfl, hv⟩ | ⟨e, he⟩) | ⟨e, -, he⟩)
        · exact ⟨Or.inl ⟨rfl, hv⟩, hk⟩
        · by_cases hed : e = d
          · subst hed
            rw [Function.update_self] at he
            exact absurd he (entry_nil j v)
          · rw [Function.update_of_ne hed] at he
            refine ⟨Or.inr ⟨e, he⟩, ?_⟩
            rintro rfl
            exact hsub e d hed j he.mem hkd
        · refine ⟨Or.inr ⟨d, ?_⟩, ?_⟩
          · rw [hd]
            exact Or.inr ⟨e, he⟩
          · rintro rfl
            exact hdd.1 e he.mem
      · rintro ⟨⟨rfl, hv⟩ | ⟨e, he⟩, hne⟩
        · exact Or.inl (Or.inl ⟨rfl, hv⟩)
        · by_cases hed : e = d
          · subst hed
            rw [hd] at he
            rcases he with ⟨h, -⟩ | ⟨e', he'⟩
            · exact absurd h hne
            · exact Or.inr ⟨e', hall e', he'⟩
          · refine Or.inl (Or.inr ⟨e, ?_⟩)
            rw [Function.update_of_ne hed]
            exact he
  | hdeep key value sub hk hroot ih =>
      rw [erase_deep hk hroot]
      simp only [entry_node]
      constructor
      · rintro (⟨rfl, hv⟩ | ⟨d, hd⟩)
        · exact ⟨Or.inl ⟨rfl, hv⟩, hk⟩
        · obtain ⟨h, hne⟩ := (ih d (hdist.2.2 d)).mp hd
          exact ⟨Or.inr ⟨d, h⟩, hne⟩
      · rintro ⟨h | ⟨d, hd⟩, hne⟩
        · exact Or.inl h
        · exact Or.inr ⟨d, (ih d (hdist.2.2 d)).mpr ⟨hd, hne⟩⟩

theorem mem_erase (hall : ∀ d, d ∈ dirs) {t : DirTree D K V} (hdist : t.Distinct) {k j : K} :
    (t.erase cmp dirs k).Mem j ↔ t.Mem j ∧ j ≠ k := by
  simp only [Mem, entry_erase hall hdist, exists_and_right]

/-- Erasing keeps keys distinct. -/
theorem Distinct.erase (hall : ∀ d, d ∈ dirs) (hnd : dirs.Nodup) {t : DirTree D K V}
    (hdist : t.Distinct) (k : K) : (t.erase cmp dirs k).Distinct := by
  induction t using erase_induction (k := k) with
  | hnil => trivial
  | hroot value sub =>
      rw [erase_root]
      refine Distinct.rehang trivial ?_ (fun s _ j hj => absurd hj (mem_nil j))
        (hdist.pairwise_map hnd)
      simp only [List.mem_map]
      rintro s ⟨d, -, rfl⟩
      exact hdist.2.2 d
  | hchild key value sub d v' sub' hk hd =>
      rw [erase_child hall hdist hk hd]
      have hdd := hdist.2.2 d
      rw [hd] at hdd
      refine (hdist.clear d).rehang ?_ ?_ (hdd.pairwise_map hnd)
      · simp only [List.mem_map]
        rintro s ⟨e, -, rfl⟩
        exact hdd.2.2 e
      · simp only [List.mem_map]
        rintro s ⟨e, -, rfl⟩ j hj hs
        refine (hdist.mem_clear hj).2 ?_
        rw [hd]
        exact mem_node.mpr (Or.inr ⟨e, hs⟩)
  | hdeep key value sub hk hroot ih =>
      rw [erase_deep hk hroot]
      obtain ⟨hkey, hsub, hsubdist⟩ := hdist
      refine ⟨?_, ?_, fun d => ih d (hsubdist d)⟩
      · intro d hd
        exact hkey d ((mem_erase hall (hsubdist d)).mp hd).1
      · intro d e hde j hd he
        exact hsub d e hde j ((mem_erase hall (hsubdist d)).mp hd).1
          ((mem_erase hall (hsubdist e)).mp he).1

/-- `t.Below k sub`: the node of `t` with key `k` has the subtrees `sub`. -/
def Below (k : K) (below : D → DirTree D K V) : DirTree D K V → Prop
  | nil => False
  | node key _ sub => (key = k ∧ below = sub) ∨ ∃ d, (sub d).Below k below

/-- Erasing keeps the search invariant when the subtrees of the erased node
agree with the ones rehung before them. -/
theorem Ordered.erase (hall : ∀ d, d ∈ dirs) {t : DirTree D K V} (hdist : t.Distinct)
    (hord : t.Ordered cmp) {k : K}
    (hagree : ∀ sub, t.Below k sub → (dirs.map sub).Pairwise (Agree cmp)) :
    (t.erase cmp dirs k).Ordered cmp := by
  induction t using erase_induction (k := k) with
  | hnil => trivial
  | hroot value sub =>
      rw [erase_root]
      refine Ordered.rehang trivial ?_ (fun s _ w _ j x _ _ hj => absurd hj (entry_nil j x))
        (hagree sub (Or.inl ⟨rfl, rfl⟩))
      simp only [List.mem_map]
      rintro s ⟨d, -, rfl⟩
      exact hord.2 d
  | hchild key value sub d v' sub' hk hd =>
      obtain ⟨hside, hsub⟩ := hord
      have hdd := hsub d
      rw [hd] at hdd
      -- everything below the erased node belongs on its side of the parent
      have hbelow : ∀ e j x, (sub' e).Entry j x → (sub d).Entry j x := by
        intro e j x hx
        rw [hd]
        exact Or.inr ⟨e, hx⟩
      have hroots : ∀ s ∈ dirs.map sub', ∀ w, s.rootValue = some w → cmp w value = d := by
        simp only [List.mem_map]
        rintro s ⟨e, -, rfl⟩ w hw
        cases hs : sub' e with
        | nil => simp [hs, rootValue] at hw
        | node j x sub'' =>
            obtain rfl : x = w := by simpa [hs, rootValue] using hw
            refine hside d j x (hbelow e j x ?_)
            rw [hs]
            exact Or.inl ⟨rfl, rfl⟩
      rw [erase_child hall hdist hk hd, rehang_node_side hroots]
      simp only [Function.update_self, Function.update_idem]
      refine ⟨?_, ?_⟩
      · intro e j x hx
        by_cases hed : e = d
        · subst hed
          rw [Function.update_self, entry_rehang] at hx
          rcases hx with hx | ⟨s, hs, hx⟩
          · exact absurd hx (entry_nil j x)
          · obtain ⟨f, -, rfl⟩ := List.mem_map.mp hs
            exact hside e j x (hbelow f j x hx)
        · rw [Function.update_of_ne hed] at hx
          exact hside e j x hx
      · intro e
        by_cases hed : e = d
        · subst hed
          rw [Function.update_self]
          refine Ordered.rehang trivial ?_ (fun s _ w _ j x _ _ hj => absurd hj (entry_nil j x))
            (hagree sub' (Or.inr ⟨e, ?_⟩))
          · simp only [List.mem_map]
            rintro s ⟨f, -, rfl⟩
            exact hdd.2 f
          · rw [hd]
            exact Or.inl ⟨rfl, rfl⟩
        · rw [Function.update_of_ne hed]
          exact hsub e
  | hdeep key value sub hk hroot ih =>
      rw [erase_deep hk hroot]
      obtain ⟨hside, hsub⟩ := hord
      refine ⟨?_, ?_⟩
      · intro d j x hx
        exact hside d j x ((entry_erase hall (hdist.2.2 d)).mp hx).1
      · intro d
        exact ih d (hdist.2.2 d) (hsub d) fun sub' h => hagree sub' (Or.inr ⟨d, h⟩)

end Erase

end Graft

end DirTree

end Maple.Lib
