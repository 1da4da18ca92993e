import Mathlib.Algebra.BigOperators.Group.List.Basic
import Mathlib.Data.Nat.Basic
import Maple.Scene.SceneGraphSound

/-!
# Maple.Scene.WorldMatrices

**World matrices as products along the ancestors.** If every ancestor of an
entity with a transform has a transform too (`Closed`), `SceneGraph::update`
gives every transform the product of the local matrices from the root down, no
matter what was stored before and in which order the views enumerate.

Without this condition the update depends on the past: a transform below an
entity without one is never written.
-/

namespace Maple

open Lib Registry

namespace SceneGraph

/-! ### The ancestors of an entity -/

section

variable {T : Type}

/-- The chain of ancestors of `e`, from the root down to `e`. -/
inductive AncestorPath (r : Registry T) : Handle → List Handle → Prop
  | root {e : Handle} : r.link .parent e = none → AncestorPath r e [e]
  | child {e p : Handle} {l : List Handle} :
      r.link .parent e = some p → AncestorPath r p l → AncestorPath r e (l ++ [e])

variable {r : Registry T} {kids : Handle → List Handle}

theorem exists_ancestorPath (h : Forest r kids) (e : Handle) : ∃ l, AncestorPath r e l := by
  obtain ⟨depth, bound, hdepth⟩ := h.shape.layered
  generalize hn : depth e = n
  induction n using Nat.strongRecOn generalizing e with
  | _ n ih =>
      cases hpar : r.link .parent e with
      | none => exact ⟨[e], .root hpar⟩
      | some p =>
          have hlt := (hdepth p e ((h.parent p e).mpr hpar)).1
          obtain ⟨l, hl⟩ := ih (depth p) (by omega) p rfl
          exact ⟨l ++ [e], .child hpar hl⟩

theorem AncestorPath.unique {e : Handle} {l l' : List Handle} (h : AncestorPath r e l)
    (h' : AncestorPath r e l') : l = l' := by
  induction h generalizing l' with
  | root hroot =>
      cases h' with
      | root => rfl
      | child hpar _ => exact absurd (hroot.symm.trans hpar) (by simp)
  | child hpar _ ih =>
      cases h' with
      | root hroot => exact absurd (hroot.symm.trans hpar) (by simp)
      | child hpar' hl' =>
          obtain rfl := Option.some.inj (hpar.symm.trans hpar')
          rw [ih hl']

/-- The path starts at a root above `e`. -/
theorem AncestorPath.exists_root (hf : Forest r kids) {e : Handle} {l : List Handle}
    (h : AncestorPath r e l) :
    ∃ a ∈ l, r.link .parent a = none ∧ Below kids a e := by
  induction h with
  | root hroot => exact ⟨_, by simp, hroot, Relation.ReflTransGen.refl⟩
  | child hpar _ ih =>
      obtain ⟨a, ha, hroot, hbelow⟩ := ih
      exact ⟨a, by simp [ha], hroot, Relation.ReflTransGen.tail hbelow ((hf.parent _ _).mpr hpar)⟩

/-- `a` is a proper ancestor of `e` along `Hierarchy.parent`. -/
def IsAncestor (r : Registry T) (a e : Handle) : Prop :=
  Relation.TransGen (fun x y => r.link .parent x = some y) e a

/-- The other entities on the path of `e` are its ancestors. -/
theorem AncestorPath.isAncestor {e : Handle} {l : List Handle} (h : AncestorPath r e l) :
    ∀ a ∈ l, a = e ∨ IsAncestor r a e := by
  induction h with
  | root _ =>
      intro a ha
      exact Or.inl (List.mem_singleton.mp ha)
  | child hpar _ ih =>
      intro a ha
      rcases List.mem_append.mp ha with ha | ha
      · rcases ih a ha with heq | hanc
        · exact Or.inr (heq ▸ Relation.TransGen.single hpar)
        · exact Or.inr (Relation.TransGen.head hpar hanc)
      · exact Or.inl (List.mem_singleton.mp ha)

end

/-! ### Closed hierarchies -/

variable {L M : Type} {r : Registry (Transform L M)} {kids : Handle → List Handle}

/-- Every ancestor of an entity with a transform has a transform. -/
def Closed (r : Registry (Transform L M)) : Prop :=
  ∀ e a, (r.transform e).isSome → IsAncestor r a e → (r.transform a).isSome

/-- In a closed hierarchy every visit of a transform writes it. -/
theorem Closed.writes (h : Closed r) {e : Handle} (he : (r.transform e).isSome) : Writes r e :=
  ⟨he, fun p hp => h e p he (Relation.TransGen.single hp)⟩

/-- In a closed hierarchy every transform is visited. -/
theorem Closed.visited (h : Closed r) (hf : Forest r kids) {e : Handle}
    (he : (r.transform e).isSome) : Visited r kids e := by
  by_cases hhas : r.Has e
  · obtain ⟨l, hl⟩ := exists_ancestorPath hf e
    obtain ⟨a, ha, hroot, hbelow⟩ := hl.exists_root hf
    have hTa : (r.transform a).isSome := by
      rcases hl.isAncestor a ha with heq | hanc
      · exact heq ▸ he
      · exact h e a he hanc
    refine Or.inr ⟨a, ⟨hTa, ?_⟩, hroot, hbelow⟩
    rcases Relation.ReflTransGen.cases_head hbelow with heq | ⟨c, hc, -⟩
    · exact heq ▸ hhas
    · exact hf.has_parent hc
  · exact Or.inl ⟨he, hhas⟩

/-- A hierarchy that is not closed has a transform whose parent has none. -/
theorem exists_parent_of_not_closed (h : ¬ Closed r) :
    ∃ x p, (r.transform x).isSome ∧ r.link .parent x = some p ∧ r.transform p = none := by
  unfold Closed at h
  push Not at h
  obtain ⟨e, a, he, hanc, ha⟩ := h
  induction hanc using Relation.TransGen.head_induction_on with
  | single hpar => exact ⟨_, a, he, hpar, Option.not_isSome_iff_eq_none.mp ha⟩
  | @head e p hpar _ ih =>
      cases hp : r.transform p with
      | none => exact ⟨e, p, he, hpar, hp⟩
      | some t => exact ih (by simp [hp])

variable [Monoid M] (compose : L → M)

/-- The local matrix of `e` once it is up to date, and `1` without a transform. -/
def localOf (r : Registry (Transform L M)) (e : Handle) : M :=
  (r.transform e).elim 1 (Transform.effective compose)

/-! ### The matrices of an update exist -/

open Classical in
/-- The world matrix of `y`, from that of its parent. -/
noncomputable def stepWorld (r : Registry (Transform L M)) (world : M) (y : Handle) : M :=
  if Writes r y then world * localOf compose r y
  else (r.transform y).elim 1 Transform.worldMatrix

variable {compose}

variable (compose) in
/-- `WorldOf` has a solution, and it is a product along written paths. -/
theorem exists_worldOf (h : Forest r kids) :
    ∃ W, WorldOf compose r W ∧ ∀ e l, AncestorPath r e l → (∀ y ∈ l, Writes r y) →
      W e = (l.map (localOf compose r)).prod := by
  choose path hpath using exists_ancestorPath h
  let W : Handle → M := fun e => (path e).foldl (stepWorld compose r) 1
  have hstep : ∀ e, W e = stepWorld compose r ((r.link .parent e).elim 1 W) e := by
    intro e
    cases hpar : r.link .parent e with
    | none =>
        have heq := (hpath e).unique (.root hpar)
        simp [W, heq]
    | some p =>
        have heq := (hpath e).unique (.child hpar (hpath p))
        simp [W, heq, List.foldl_append]
  refine ⟨W, ⟨fun y t ht hw => ?_, fun y t ht hw => ?_⟩, fun e l hl hw => ?_⟩
  · rw [hstep, stepWorld, if_pos hw, localOf, ht]
    rfl
  · rw [hstep, stepWorld, if_neg hw, ht]
    rfl
  · induction hl with
    | root hroot =>
        rw [hstep, stepWorld, if_pos (hw _ (by simp)), hroot]
        simp
    | child hpar _ ih =>
        rw [hstep, stepWorld, if_pos (hw _ (by simp)), hpar, Option.elim_some,
          ih fun y hy => hw y (by simp [hy])]
        simp

/-! ### The update of a closed hierarchy -/

variable (compose) in
/-- In a closed hierarchy every transform is clean after `update`, is written once
and holds the product along its ancestors. -/
theorem update_of_closed (h : Forest r kids) (hclosed : Closed r)
    {nonHierarchyView view : List Handle} (hn : IsNonHierarchyView r nonHierarchyView)
    (hv : IsView r view) :
    ∃ s, Settles (fun fuel => update compose fuel nonHierarchyView view r) (.ok s) ∧
      (∀ e, r.transform e = none → s.registry.transform e = none) ∧
      ∀ e t, r.transform e = some t → ∃ t', s.registry.transform e = some t' ∧
        t'.dirty = false ∧ s.written.count e = 1 ∧ ∀ path, AncestorPath r e path →
          t'.worldMatrix = (path.map (localOf compose r)).prod := by
  obtain ⟨W, hW, hprod⟩ := exists_worldOf compose h
  obtain ⟨s, hrun, hs⟩ := update_settles h hW hn hv
  refine ⟨s, hrun, hs.missing, fun e t ht => ?_⟩
  have hT : (r.transform e).isSome := by simp [ht]
  have hvis := hclosed.visited h hT
  have hw := hclosed.writes hT
  obtain ⟨t', ht', -, hworld, -, hclean⟩ := hs.present e t ht
  refine ⟨t', ht', hclean hvis hw, ?_, fun path hpath => ?_⟩
  · exact List.count_eq_one_of_mem hs.nodup ((hs.written e).mpr ⟨hvis, hw⟩)
  · rw [hworld hvis]
    refine hprod e path hpath fun y hy => hclosed.writes ?_
    rcases hpath.isAncestor y hy with heq | hanc
    · exact heq ▸ hT
    · exact hclosed e y hT hanc

variable (compose) in
/-- **World matrices.** After `update`, every transform is clean and holds the
product of the up-to-date local matrices along its ancestors, and its
`setWorldMatrix` was called exactly once. -/
theorem update_world (h : Forest r kids) (hclosed : Closed r)
    {nonHierarchyView view : List Handle} (hn : IsNonHierarchyView r nonHierarchyView)
    (hv : IsView r view) :
    ∃ s, Settles (fun fuel => update compose fuel nonHierarchyView view r) (.ok s) ∧
      ∀ e, (s.registry.transform e).isSome = (r.transform e).isSome ∧
        ∀ t, s.registry.transform e = some t → t.dirty = false ∧ s.written.count e = 1 ∧
          ∃ path, AncestorPath r e path ∧
            t.worldMatrix = (path.map (localOf compose r)).prod := by
  obtain ⟨s, hrun, hnone, hsome⟩ := update_of_closed compose h hclosed hn hv
  refine ⟨s, hrun, fun e => ?_⟩
  cases ht : r.transform e with
  | none =>
      rw [hnone e ht]
      exact ⟨rfl, fun t ht => absurd ht (by simp)⟩
  | some t =>
      obtain ⟨t', ht', hclean, hcount, hworld⟩ := hsome e t ht
      obtain ⟨path, hpath⟩ := exists_ancestorPath h e
      rw [ht']
      refine ⟨rfl, fun u hu => ?_⟩
      obtain rfl := Option.some.inj hu
      exact ⟨hclean, hcount, path, hpath, hworld path hpath⟩

section ParentAndChild

omit [Monoid M]

variable (t₁ : Transform L M) (t₀ : Option (Transform L M))

/-- Both entities of `parentAndChild` have a `Hierarchy`. -/
theorem isNonHierarchyView_parentAndChild :
    IsNonHierarchyView (parentAndChild t₀ (some t₁)) [] := by
  refine ⟨List.nodup_nil, fun e => ?_⟩
  simp only [List.not_mem_nil, false_iff, not_and, not_not]
  intro he
  by_cases h₀ : e = ⟨0, 0⟩
  · simp [parentAndChild, h₀]
  · by_cases h₁ : e = ⟨1, 0⟩
    · simp [parentAndChild, h₁]
    · simp [parentAndChild, put, twoEntities, h₀, h₁] at he

theorem isView_parentAndChild :
    IsView (parentAndChild t₀ (some t₁)) (if t₀.isSome then [⟨0, 0⟩, ⟨1, 0⟩] else [⟨1, 0⟩]) := by
  refine ⟨by split <;> decide, fun e => ?_⟩
  have hhas : ∀ e, (parentAndChild t₀ (some t₁)).Has e ↔ e = ⟨1, 0⟩ ∨ e = ⟨0, 0⟩ := by
    intro e
    simp [parentAndChild, Has, twoEntities, put, Function.update_apply]
    split <;> simp_all
  show _ ↔ _ ∧ _
  rw [hhas]
  by_cases h₀ : e = ⟨0, 0⟩
  · subst h₀
    cases t₀ <;> simp [parentAndChild, put, twoEntities]
  · by_cases h₁ : e = ⟨1, 0⟩
    · subst h₁
      cases t₀ <;> simp [parentAndChild, put, twoEntities]
    · cases t₀ <;> simp [h₀, h₁]

theorem closed_parentAndChild (t₀ : Transform L M) :
    Closed (parentAndChild (some t₀) (some t₁)) := by
  intro e a _ hanc
  -- the only parent is the first entity
  obtain ⟨y, -, hy⟩ := Relation.TransGen.tail'_iff.mp hanc
  have hya : a = ⟨0, 0⟩ := by
    by_contra hne
    have hmem := ((forest_parentAndChild _ _).parent a y).mpr hy
    simp [hne] at hmem
  rw [hya]
  rfl

end ParentAndChild

/-- A dirty parent and a child with a stale world matrix: the child ends with the
product of the two local matrices. -/
theorem update_world_parentAndChild :
    ∃ s, Settles (fun fuel => update (fun n : Nat => n) fuel [] [⟨0, 0⟩, ⟨1, 0⟩]
        (parentAndChild (some ⟨3, 2, 9, true, false⟩) (some ⟨0, 5, 7, false, false⟩))) (.ok s) ∧
      ∃ t, s.registry.transform ⟨1, 0⟩ = some t ∧ t.worldMatrix = 15 ∧
        s.written.count ⟨1, 0⟩ = 1 := by
  obtain ⟨s, hrun, hall⟩ := update_world (fun n : Nat => n)
    (forest_parentAndChild _ _)
    (closed_parentAndChild ⟨0, 5, 7, false, false⟩ ⟨3, 2, 9, true, false⟩)
    (isNonHierarchyView_parentAndChild _ _) (isView_parentAndChild _ _)
  obtain ⟨hsome, hworld⟩ := hall ⟨1, 0⟩
  obtain ⟨t, ht⟩ := Option.isSome_iff_exists.mp (hsome.trans rfl)
  obtain ⟨-, hcount, path, hpath, hprod⟩ := hworld t ht
  obtain rfl := hpath.unique (.child (p := ⟨0, 0⟩) rfl (.root rfl))
  exact ⟨s, hrun, t, ht, hprod, hcount⟩

/-! ### Two runs -/

/-- The two registries agree on the hierarchy and on all effective local
matrices. -/
structure Agree (compose : L → M) (r₁ r₂ : Registry (Transform L M)) : Prop where
  entities : r₂.entities = r₁.entities
  hierarchy : r₂.hierarchy = r₁.hierarchy
  effective : ∀ e, (r₂.transform e).map (Transform.effective compose) =
    (r₁.transform e).map (Transform.effective compose)

/-- An update of `r₁` and one of any registry that agrees with it, in any order of
the views, end with the same world matrices and without dirty transforms. -/
def Forgets (compose : L → M) (r₁ : Registry (Transform L M)) (n₁ v₁ : List Handle) : Prop :=
  ∀ r₂ n₂ v₂, Agree compose r₁ r₂ → IsNonHierarchyView r₂ n₂ → IsView r₂ v₂ →
    ∃ s₁ s₂, Settles (fun fuel => update compose fuel n₁ v₁ r₁) (.ok s₁) ∧
      Settles (fun fuel => update compose fuel n₂ v₂ r₂) (.ok s₂) ∧
      ∀ e, (s₁.registry.transform e).map Transform.worldMatrix =
          (s₂.registry.transform e).map Transform.worldMatrix ∧
        (∀ t, s₁.registry.transform e = some t → t.dirty = false) ∧
        ∀ t, s₂.registry.transform e = some t → t.dirty = false

omit [Monoid M] in
theorem Agree.link {r₁ r₂ : Registry (Transform L M)} (h : Agree compose r₁ r₂) (l : Link) :
    r₂.link l = r₁.link l := by
  funext e
  rw [Registry.link, Registry.link, h.hierarchy]

omit [Monoid M] in
theorem Agree.isSome {r₁ r₂ : Registry (Transform L M)} (h : Agree compose r₁ r₂) (e : Handle) :
    (r₂.transform e).isSome = (r₁.transform e).isSome := by
  rw [← Option.isSome_map, h.effective e, Option.isSome_map]

omit [Monoid M] in
theorem Agree.ancestorPath {r₁ r₂ : Registry (Transform L M)} (h : Agree compose r₁ r₂)
    {e : Handle} {l : List Handle} (hl : AncestorPath r₂ e l) : AncestorPath r₁ e l := by
  induction hl with
  | root hroot => exact .root (by rwa [h.link] at hroot)
  | child hpar _ ih => exact .child (by rwa [h.link] at hpar) ih

omit [Monoid M] in
theorem Agree.forest {r₁ r₂ : Registry (Transform L M)} (h : Agree compose r₁ r₂)
    (hf : Forest r₁ kids) : Forest r₂ kids := by
  have hvalid : ∀ e, r₂.Valid e ↔ r₁.Valid e := fun e => by rw [Valid, Valid, h.entities]
  refine ⟨hf.shape, fun e he => ?_, fun e he => ?_, fun p => ?_, fun p c => ?_, fun p => ?_,
    fun e => ?_⟩
  · exact (hvalid e).mpr (hf.live e (by rwa [Has, h.hierarchy] at he))
  · exact (hvalid e).mpr (hf.transform_live e (by rwa [h.isSome] at he))
  · rw [h.link, hf.first]
  · rw [h.link, hf.parent]
  · rw [h.link, h.link]
    exact hf.siblings p
  · rw [h.link, h.link, h.link]
    exact hf.root e

/-- A transform below an entity without one keeps the world matrix it had. -/
theorem world_of_not_writes (h : Forest r kids) {nonHierarchyView view : List Handle}
    (hn : IsNonHierarchyView r nonHierarchyView) (hv : IsView r view) {x : Handle}
    {t : Transform L M} (ht : r.transform x = some t) (hx : ¬ Writes r x) {s : Sweep L M}
    (hrun : Settles (fun fuel => update compose fuel nonHierarchyView view r) (.ok s)) :
    (s.registry.transform x).map Transform.worldMatrix = some t.worldMatrix := by
  obtain ⟨W, hW, -⟩ := exists_worldOf compose h
  obtain ⟨s', hrun', hs⟩ := update_settles h hW hn hv
  obtain rfl := Except.ok.inj (hrun.unique hrun')
  obtain ⟨t', ht', -, hdone, hopen, -⟩ := hs.present x t ht
  rw [ht', Option.map_some]
  by_cases hvis : Visited r kids x
  · rw [hdone hvis, hW.kept x t ht hx]
  · rw [hopen hvis]

/-- The defect: the world matrix of a transform below an entity without one may be
anything before and stays. -/
theorem not_forgets [Nontrivial M] (h : Forest r kids) {n v : List Handle}
    (hn : IsNonHierarchyView r n) (hv : IsView r v) {x p : Handle}
    (hx : (r.transform x).isSome) (hpar : r.link .parent x = some p) (hp : r.transform p = none) :
    ¬ Forgets compose r n v := by
  intro hforgets
  obtain ⟨t, ht⟩ := Option.isSome_iff_exists.mp hx
  obtain ⟨m, hm⟩ := exists_ne t.worldMatrix
  let r₂ := r.putTransform x { t with worldMatrix := m }
  have hxp : p ≠ x := fun heq => by
    rw [heq, ht] at hp
    exact absurd hp (by simp)
  have hsome : ∀ e, (r₂.transform e).isSome = (r.transform e).isSome := by
    intro e
    by_cases he : e = x
    · subst he
      simp [r₂, putTransform, ht]
    · simp [r₂, putTransform, he]
  have hagree : Agree compose r r₂ := by
    refine ⟨rfl, rfl, fun e => ?_⟩
    by_cases he : e = x
    · subst he
      simp [r₂, putTransform, ht, Transform.effective, Transform.refresh,
        Transform.updateLocalMatrix]
      split <;> rfl
    · simp [r₂, putTransform, he]
  have hn₂ : IsNonHierarchyView r₂ n :=
    ⟨hn.1, fun e => (hn.2 e).trans (and_congr (by rw [hsome]) Iff.rfl)⟩
  have hv₂ : IsView r₂ v :=
    ⟨hv.1, fun e => (hv.2 e).trans (and_congr (by rw [hsome]) Iff.rfl)⟩
  have hwrites : ¬ Writes r x := fun hw => by simpa [hp] using hw.2 p hpar
  have hwrites₂ : ¬ Writes r₂ x := fun hw => by
    have := hw.2 p hpar
    rw [hsome, hp] at this
    exact absurd this (by simp)
  obtain ⟨s₁, s₂, hrun₁, hrun₂, hsame⟩ := hforgets r₂ n v hagree hn₂ hv₂
  have h₁ := world_of_not_writes h hn hv ht hwrites hrun₁
  have h₂ := world_of_not_writes (hagree.forest h) hn₂ hv₂
    (t := { t with worldMatrix := m }) (by simp [r₂, putTransform]) hwrites₂ hrun₂
  rw [(hsame x).1, h₂] at h₁
  exact hm (Option.some.inj h₁)

/-- **`update` forgets the past** exactly on closed hierarchies. -/
theorem forgets_iff_closed [Nontrivial M] (h : Forest r kids) {n v : List Handle}
    (hn : IsNonHierarchyView r n) (hv : IsView r v) : Forgets compose r n v ↔ Closed r := by
  refine ⟨fun hforgets => ?_, fun hclosed r₂ n₂ v₂ hagree hn₂ hv₂ => ?_⟩
  · by_contra hopen
    obtain ⟨x, p, hx, hpar, hp⟩ := exists_parent_of_not_closed hopen
    exact not_forgets h hn hv hx hpar hp hforgets
  · have hclosed₂ : Closed r₂ := by
      intro e a he hanc
      rw [hagree.isSome] at he ⊢
      rw [IsAncestor, hagree.link] at hanc
      exact hclosed e a he hanc
    have h₂ := hagree.forest h
    obtain ⟨s₁, hrun₁, hnone₁, hsome₁⟩ := update_of_closed compose h hclosed hn hv
    obtain ⟨s₂, hrun₂, hnone₂, hsome₂⟩ := update_of_closed compose h₂ hclosed₂ hn₂ hv₂
    -- both products are taken over the same matrices
    have hlocal : localOf compose r₂ = localOf compose r := by
      funext e
      have heff := hagree.effective e
      unfold localOf
      cases ht₂ : r₂.transform e <;> cases ht₁ : r.transform e <;> simp_all
    refine ⟨s₁, s₂, hrun₁, hrun₂, fun e => ?_⟩
    have hsome := hagree.isSome e
    cases ht : r.transform e with
    | none =>
        have ht₂ : r₂.transform e = none := by
          rw [ht] at hsome
          exact Option.isSome_eq_false_iff.mp hsome |> Option.isNone_iff_eq_none.mp
        rw [hnone₁ e ht, hnone₂ e ht₂]
        simp
    | some t =>
        obtain ⟨t₂, ht₂⟩ := Option.isSome_iff_exists.mp (hsome.trans (by rw [ht]; rfl))
        obtain ⟨u₁, hu₁, hclean₁, -, hworld₁⟩ := hsome₁ e t ht
        obtain ⟨u₂, hu₂, hclean₂, -, hworld₂⟩ := hsome₂ e t₂ ht₂
        obtain ⟨path, hpath⟩ := exists_ancestorPath h e
        obtain ⟨path₂, hpath₂⟩ := exists_ancestorPath h₂ e
        have hpaths : path₂ = path := hagree.ancestorPath hpath₂ |>.unique hpath
        rw [hu₁, hu₂, Option.map_some, Option.map_some, hworld₁ path hpath, hworld₂ path₂ hpath₂,
          hpaths, hlocal]
        refine ⟨rfl, fun t ht => ?_, fun t ht => ?_⟩
        · exact Option.some.inj ht ▸ hclean₁
        · exact Option.some.inj ht ▸ hclean₂

/-- With two transforms the hierarchy is closed. -/
theorem forgets_parentAndChild :
    Forgets (fun n : Nat => n)
      (parentAndChild (some ⟨3, 2, 9, true, false⟩) (some ⟨0, 5, 7, false, false⟩)) []
      [⟨0, 0⟩, ⟨1, 0⟩] :=
  (forgets_iff_closed (forest_parentAndChild _ _) (isNonHierarchyView_parentAndChild _ _)
    (isView_parentAndChild ⟨0, 5, 7, false, false⟩ (some ⟨3, 2, 9, true, false⟩))).mpr
    (closed_parentAndChild _ _)

/-- A grouping entity without a transform: the world matrix of its child is what
it was before. -/
theorem not_forgets_grouping :
    (∃ kids,
      Forest (parentAndChild none (some (⟨0, 1, 5, true, false⟩ : Transform Nat Nat))) kids) ∧
      IsNonHierarchyView
        (parentAndChild none (some (⟨0, 1, 5, true, false⟩ : Transform Nat Nat))) [] ∧
      IsView (parentAndChild none (some (⟨0, 1, 5, true, false⟩ : Transform Nat Nat))) [⟨1, 0⟩] ∧
      ¬ Forgets (fun n : Nat => n) (parentAndChild none (some ⟨0, 1, 5, true, false⟩)) []
        [⟨1, 0⟩] :=
  ⟨⟨_, forest_parentAndChild _ _⟩, isNonHierarchyView_parentAndChild _ _,
    isView_parentAndChild _ none,
    not_forgets (forest_parentAndChild _ _) (isNonHierarchyView_parentAndChild _ _)
      (isView_parentAndChild ⟨0, 1, 5, true, false⟩ none) (x := ⟨1, 0⟩) (p := ⟨0, 0⟩) rfl rfl rfl⟩

end SceneGraph

end Maple
