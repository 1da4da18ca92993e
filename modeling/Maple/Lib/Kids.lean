import Mathlib.Data.List.Nodup
import Mathlib.Logic.Relation

/-!
# Maple.Lib.Kids

**Ordered forests by child lists.** A forest over a type of nodes is given by
the ordered list of children of every node. Being a forest (`Kids`) is being
acyclic with at most one parent for each node; depths that grow from parent to
child and are bounded make both directions well founded.

Forests change in two ways: children are taken away (`Kids.sub`), and a root is
appended to the children of a node outside its own subtree (`Kids.append`).
Recursions down a forest go by `Fall`, which bounds the chains below a node.
-/

namespace Maple.Lib

variable {α : Type*}

/-- The child lists of a forest: no entity is in two places, and depths that
grow from parent to child are bounded. -/
structure Kids (kids : α → List α) : Prop where
  nodup : ∀ p, (kids p).Nodup
  unique : ∀ p q c, c ∈ kids p → c ∈ kids q → p = q
  layered : ∃ (depth : α → Nat) (bound : Nat),
    ∀ p, ∀ c ∈ kids p, depth p < depth c ∧ depth c ≤ bound

/-- `Below kids e x`: `x` is `e` or a descendant of `e`. -/
def Below (kids : α → List α) : α → α → Prop :=
  Relation.ReflTransGen fun p c => c ∈ kids p

/-- More children, more descendants. -/
theorem Below.mono {kids kids' : α → List α} (hsub : ∀ p c, c ∈ kids p → c ∈ kids' p) {e x : α}
    (h : Below kids e x) : Below kids' e x := by
  induction h with
  | refl => exact Relation.ReflTransGen.refl
  | tail _ hc ih => exact Relation.ReflTransGen.tail ih (hsub _ _ hc)

/-- Without children there is nobody below. -/
theorem Below.eq_of_leaf {kids : α → List α} {e x : α} (h : Below kids e x)
    (hleaf : kids e = []) : x = e := by
  rcases Relation.ReflTransGen.cases_head h with heq | ⟨c, hc, -⟩
  · exact heq.symm
  · simp [hleaf] at hc

namespace Kids

variable {kids : α → List α}

/-- Children may be taken away. -/
theorem sub {kids' : α → List α} (h : Kids kids)
    (hsub : ∀ p, List.Sublist (kids' p) (kids p)) : Kids kids' := by
  obtain ⟨depth, bound, hdepth⟩ := h.layered
  refine ⟨fun p => (hsub p).nodup (h.nodup p), fun p q c hp hq => ?_, depth, bound,
    fun p c hc => ?_⟩
  · exact h.unique p q c ((hsub p).subset hp) ((hsub q).subset hq)
  · exact hdepth p c ((hsub p).subset hc)

/-- A chain from parents to children never comes back. -/
theorem not_below_parent (h : Kids kids) {p c : α} (hc : c ∈ kids p) : ¬ Below kids c p := by
  obtain ⟨depth, bound, hdepth⟩ := h.layered
  intro hbelow
  have hle : depth c ≤ depth p := by
    clear hc
    induction hbelow with
    | refl => exact Nat.le_refl _
    | tail _ hstep ih => exact Nat.le_trans ih (Nat.le_of_lt (hdepth _ _ hstep).1)
  exact absurd (hdepth p c hc).1 (by omega)

/-- The parent of an entity below `e` is below `e`, unless the entity is `e`. -/
theorem below_parent (h : Kids kids) {e p c : α} (hbelow : Below kids e c)
    (hc : c ∈ kids p) (hne : c ≠ e) : Below kids e p := by
  rcases Relation.ReflTransGen.cases_tail hbelow with heq | ⟨q, hq, hcq⟩
  · exact absurd heq hne
  · exact h.unique q p c hcq hc ▸ hq

/-- The ancestors of a node are comparable. -/
theorem below_or_below (h : Kids kids) {a b x : α} (ha : Below kids a x) (hb : Below kids b x) :
    Below kids a b ∨ Below kids b a := by
  induction ha with
  | refl => exact Or.inr hb
  | tail hq hc ih =>
      rcases Relation.ReflTransGen.cases_tail hb with heq | ⟨p, hp, hcp⟩
      · exact Or.inl (heq ▸ Relation.ReflTransGen.tail hq hc)
      · exact ih (h.unique p _ _ hcp hc ▸ hp)

/-- The subtrees of two children of a node are disjoint. -/
theorem siblings_disjoint (h : Kids kids) {p c d x : α} (hc : c ∈ kids p) (hd : d ∈ kids p)
    (hcd : c ≠ d) (hcx : Below kids c x) : ¬ Below kids d x := by
  intro hdx
  rcases h.below_or_below hcx hdx with hbelow | hbelow
  · exact h.not_below_parent hc (h.below_parent hbelow hd (Ne.symm hcd))
  · exact h.not_below_parent hd (h.below_parent hbelow hc hcd)

variable [DecidableEq α] in
/-- A root may be appended to the children of an entity that is not below it: the
whole subtree moves down below its new parent. -/
theorem append (h : Kids kids) {e p : α} (hroot : ∀ q, e ∉ kids q)
    (hp : ¬ Below kids e p) : Kids (Function.update kids p (kids p ++ [e])) := by
  have hmem : ∀ {q c}, c ∈ Function.update kids p (kids p ++ [e]) q →
      c ∈ kids q ∨ (q = p ∧ c = e) := by
    intro q c hc
    by_cases hq : q = p
    · subst hq
      simpa using hc
    · exact Or.inl (by simpa [hq] using hc)
  refine ⟨fun q => ?_, fun q q' c hc hc' => ?_, ?_⟩
  · by_cases hq : q = p
    · subst hq
      simpa using List.nodup_append.mpr ⟨h.nodup q, by simp, by
        intro x hx y hy
        obtain rfl : y = e := by simpa using hy
        exact fun heq => hroot q (heq ▸ hx)⟩
    · simpa [hq] using h.nodup q
  · rcases hmem hc with hc | ⟨hq, hce⟩
    · rcases hmem hc' with hc' | ⟨-, hce⟩
      · exact h.unique q q' c hc hc'
      · exact absurd (hce ▸ hc) (hroot q)
    · rcases hmem hc' with hc' | ⟨hq', -⟩
      · exact absurd (hce ▸ hc') (hroot q')
      · exact hq.trans hq'.symm
  · classical
    obtain ⟨depth, bound, hdepth⟩ := h.layered
    refine ⟨fun x => if Below kids e x then depth p + 1 + depth x else depth x,
      depth p + 1 + depth e + bound, fun q c hc => ?_⟩
    show (if Below kids e q then _ else _) < (if Below kids e c then _ else _) ∧
      (if Below kids e c then _ else _) ≤ _
    rcases hmem hc with hc | ⟨hq, hce⟩
    · obtain ⟨hlt, hle⟩ := hdepth q c hc
      by_cases hqe : Below kids e q
      · have hce : Below kids e c := Relation.ReflTransGen.tail hqe hc
        rw [if_pos hqe, if_pos hce]
        omega
      · have hce : ¬ Below kids e c := fun hce =>
          hqe (h.below_parent hce hc fun heq => hroot q (heq ▸ hc))
        rw [if_neg hqe, if_neg hce]
        omega
    · subst hq hce
      have hself : Below kids c c := Relation.ReflTransGen.refl
      rw [if_neg hp, if_pos hself]
      omega

end Kids

/-! ### Taking a node out of the list it is in -/

section Detach

variable [DecidableEq α]

/-- `e` is taken out of the children of its parent. -/
def detach (kids : α → List α) (e p : α) : List α := (kids p).erase e

variable {kids : α → List α} {e : α}

theorem mem_detach (h : Kids kids) {p c : α} : c ∈ detach kids e p ↔ c ≠ e ∧ c ∈ kids p :=
  (h.nodup p).mem_erase_iff

theorem Kids.detach (h : Kids kids) : Kids (detach kids e) :=
  h.sub fun _ => List.erase_sublist

theorem detach_of_root (hroot : ∀ p, e ∉ kids p) : detach kids e = kids :=
  funext fun p => List.erase_of_not_mem (hroot p)

/-- The subtree of `e` is not changed. -/
theorem below_detach (h : Kids kids) {x : α} : Below (detach kids e) e x ↔ Below kids e x := by
  refine ⟨fun hx => ?_, fun hx => ?_⟩
  · exact hx.mono fun _ _ hc => List.mem_of_mem_erase hc
  · induction hx with
    | refl => exact Relation.ReflTransGen.refl
    | tail hq hc ih =>
        refine Relation.ReflTransGen.tail ih ((mem_detach h).mpr ⟨fun heq => ?_, hc⟩)
        exact h.not_below_parent (heq ▸ hc) hq

/-- `e` becomes the last child of `p`, wherever it was before. -/
def attach (kids : α → List α) (e p : α) : α → List α :=
  Function.update (detach kids e) p (detach kids e p ++ [e])

theorem Kids.attach (h : Kids kids) {p : α} (hp : ¬ Below kids e p) : Kids (attach kids e p) := by
  refine h.detach.append (fun q hq => ((mem_detach h).mp hq).1 rfl) fun hbelow => ?_
  exact hp ((below_detach h).mp hbelow)

end Detach

/-! ### Taking away subtrees -/

open Classical in
/-- The nodes of `S` are taken away, with their children. -/
noncomputable def prune (kids : α → List α) (S : α → Prop) (p : α) : List α :=
  if S p then [] else (kids p).filter fun c => ¬ S c

section Prune

variable {kids : α → List α} {S : α → Prop} {e p c : α}

theorem mem_prune : c ∈ prune kids S p ↔ ¬ S p ∧ ¬ S c ∧ c ∈ kids p := by
  unfold prune
  by_cases hp : S p
  · simp [hp]
  · simp [hp, and_comm]

theorem prune_sublist : List.Sublist (prune kids S p) (kids p) := by
  unfold prune
  split
  · exact List.nil_sublist _
  · exact List.filter_sublist

theorem Kids.prune (h : Kids kids) : Kids (prune kids S) := h.sub fun _ => prune_sublist

theorem prune_prune {S' : α → Prop} :
    Lib.prune (Lib.prune kids S) S' = Lib.prune kids fun x => S x ∨ S' x := by
  funext p
  unfold Lib.prune
  by_cases hp : S p
  · simp [hp]
  · by_cases hp' : S' p
    · simp [hp']
    · simp only [hp, hp', if_false, or_self, List.filter_filter]
      refine List.filter_congr fun c _ => ?_
      rw [Bool.eq_iff_iff]
      simp [and_comm]

theorem prune_congr {S' : α → Prop} (h : ∀ x, S x ↔ S' x) :
    Lib.prune kids S = Lib.prune kids S' := by
  rw [funext fun x => propext (h x)]

/-- Chains that end outside a set closed under children are not cut. -/
theorem below_prune (hclosed : ∀ p c, S p → c ∈ kids p → S c) {x : α} (hx : ¬ S x) :
    Below (Lib.prune kids S) e x ↔ Below kids e x := by
  refine ⟨fun h => h.mono fun _ _ hc => (mem_prune.mp hc).2.2, fun h => ?_⟩
  induction h with
  | refl => exact Relation.ReflTransGen.refl
  | tail hq hc ih =>
      have hq : ¬ S _ := fun hS => hx (hclosed _ _ hS hc)
      exact Relation.ReflTransGen.tail (ih hq) (mem_prune.mpr ⟨hq, hx, hc⟩)

/-- Outside its subtree, a node is only missing from the list it was in. -/
theorem prune_below [DecidableEq α] (h : Kids kids) (hp : ¬ Below kids e p) :
    Lib.prune kids (Below kids e) p = detach kids e p := by
  classical
  unfold Lib.prune detach
  rw [if_neg hp, (h.nodup p).erase_eq_filter]
  refine List.filter_congr fun c hc => ?_
  have hiff : Below kids e c ↔ c = e := by
    refine ⟨fun hbelow => ?_, fun heq => heq ▸ Relation.ReflTransGen.refl⟩
    by_contra hne
    exact hp (h.below_parent hbelow hc hne)
  rw [Bool.eq_iff_iff]
  simp [hiff]

/-- Taking away a node without children. -/
theorem detach_eq_prune [DecidableEq α] (h : Kids kids) (hleaf : kids e = []) :
    detach kids e = Lib.prune kids (· = e) := by
  have hbelow : ∀ x, Below kids e x ↔ x = e := by
    exact fun x => ⟨fun hx => hx.eq_of_leaf hleaf, fun heq => heq ▸ Relation.ReflTransGen.refl⟩
  rw [← prune_congr hbelow]
  funext p
  by_cases hp : Below kids e p
  · rw [(hbelow p).mp hp, detach, hleaf]
    exact (List.eq_nil_iff_forall_not_mem.mpr fun c hc =>
      (mem_prune.mp hc).1 Relation.ReflTransGen.refl).symm
  · exact (prune_below h hp).symm

end Prune

/-! ### Bounded descent -/

/-- No chain of children below `e` is longer than `n`. -/
def Fall (kids : α → List α) : Nat → α → Prop
  | 0, e => kids e = []
  | n + 1, e => ∀ c ∈ kids e, Fall kids n c

theorem Fall.sub {kids kids' : α → List α} (hsub : ∀ p, List.Sublist (kids' p) (kids p)) {n : Nat}
    {e : α} (h : Fall kids n e) : Fall kids' n e := by
  induction n generalizing e with
  | zero => exact List.sublist_nil.mp (h ▸ hsub e)
  | succ n ih => exact fun c hc => ih (h c ((hsub e).subset hc))

/-- Every descent in a forest is bounded. -/
theorem Kids.exists_fall {kids : α → List α} (h : Kids kids) : ∃ n, ∀ e, Fall kids n e := by
  obtain ⟨depth, bound, hdepth⟩ := h.layered
  have hfall : ∀ n e, bound ≤ depth e + n → Fall kids n e := by
    intro n
    induction n with
    | zero =>
        intro e hle
        refine List.eq_nil_iff_forall_not_mem.mpr fun c hc => ?_
        have := hdepth e c hc
        omega
    | succ n ih =>
        intro e hle c hc
        have := hdepth e c hc
        exact ih c (by omega)
  exact ⟨bound, fun e => hfall bound e (by omega)⟩

/-- **Induction down a forest**: from all children to the parent. -/
theorem Kids.induction {kids : α → List α} (h : Kids kids) {motive : α → Prop}
    (step : ∀ e, (∀ c ∈ kids e, motive c) → motive e) (e : α) : motive e := by
  obtain ⟨n, hfall⟩ := h.exists_fall
  have hmotive : ∀ n e, Fall kids n e → motive e := by
    intro n
    induction n with
    | zero =>
        intro e hleaf
        refine step e fun c hc => ?_
        rw [show kids e = [] from hleaf] at hc
        exact absurd hc List.not_mem_nil
    | succ n ih => exact fun e hfall => step e fun c hc => ih c (hfall c hc)
  exact hmotive n e (hfall e)

/-! ### Pre-order -/

/-- The nodes `cs`, in this order, each one followed by its descendants. -/
inductive Preorder (kids : α → List α) : List α → List α → Prop
  | nil : Preorder kids [] []
  | cons {c : α} {cs ys zs : List α} :
      Preorder kids (kids c) ys → Preorder kids cs zs →
        Preorder kids (c :: cs) (c :: ys ++ zs)

section Preorder

variable {kids : α → List α} {cs xs : List α}

/-- The subtree of a node is the node and the subtrees of its children. -/
theorem below_iff_child {e x : α} : Below kids e x ↔ x = e ∨ ∃ c ∈ kids e, Below kids c x := by
  refine ⟨fun hx => ?_, fun hx => ?_⟩
  · rcases Relation.ReflTransGen.cases_head hx with heq | ⟨c, hc, hx⟩
    · exact Or.inl heq.symm
    · exact Or.inr ⟨c, hc, hx⟩
  · rcases hx with heq | ⟨c, hc, hx⟩
    · exact heq ▸ Relation.ReflTransGen.refl
    · exact Relation.ReflTransGen.head hc hx

theorem Preorder.mem_iff (h : Preorder kids cs xs) {x : α} :
    x ∈ xs ↔ ∃ c ∈ cs, Below kids c x := by
  induction h with
  | nil => simp
  | @cons c cs ys zs _ _ ih₁ ih₂ =>
      rw [List.mem_append, List.mem_cons, ih₁, ih₂, ← below_iff_child]
      simp

/-- In a forest, the nodes below a list of nodes have a pre-order. -/
theorem Kids.exists_preorder (h : Kids kids) (cs : List α) : ∃ xs, Preorder kids cs xs := by
  have hlist : ∀ cs : List α, (∀ c ∈ cs, ∃ ys, Preorder kids (kids c) ys) →
      ∃ xs, Preorder kids cs xs := by
    intro cs hcs
    induction cs with
    | nil => exact ⟨[], .nil⟩
    | cons c cs ih =>
        obtain ⟨ys, hys⟩ := hcs c (by simp)
        obtain ⟨zs, hzs⟩ := ih fun d hd => hcs d (List.mem_cons_of_mem c hd)
        exact ⟨_, .cons hys hzs⟩
  exact hlist cs fun c _ => h.induction (motive := fun c => ∃ ys, Preorder kids (kids c) ys)
    (fun e he => hlist (kids e) he) c

end Preorder

end Maple.Lib
