import Maple.Scene.HierarchySound
import Maple.Scene.SceneGraph

/-!
# Maple.Scene.SceneGraphSound

**What `SceneGraph::update` computes**, on every well-formed hierarchy.

A visited transform is written exactly if it belongs to a root or the parent has
a transform too (`Writes`). `WorldOf` describes the matrices that result: a
written transform gets the matrix of its parent times its own local matrix, and
every other one keeps what it had. `Swept` is the state in the middle of an
update, when the entities in `D` have been visited.
-/

namespace Maple

open Lib Registry

variable {L M : Type}

namespace Transform

variable (compose : L → M)

@[simp]
theorem dirty_refresh (t : Transform L M) : (t.refresh compose).dirty = false := by
  unfold refresh
  split
  · rfl
  · next h => exact Bool.eq_false_iff.mpr h

@[simp]
theorem worldMatrix_refresh (t : Transform L M) :
    (t.refresh compose).worldMatrix = t.worldMatrix := by
  unfold refresh
  split <;> rfl

@[simp]
theorem effective_refresh (t : Transform L M) :
    (t.refresh compose).effective compose = t.effective compose := by
  unfold effective
  rw [refresh, dirty_refresh]
  rfl

variable [Mul M]

@[simp]
theorem dirty_setWorldMatrix (t : Transform L M) (mat : M) :
    (t.setWorldMatrix compose mat).dirty = false :=
  t.dirty_refresh compose

@[simp]
theorem effective_setWorldMatrix (t : Transform L M) (mat : M) :
    (t.setWorldMatrix compose mat).effective compose = t.effective compose := by
  unfold effective
  rw [refresh, dirty_setWorldMatrix]
  rfl

@[simp]
theorem worldMatrix_setWorldMatrix (t : Transform L M) (mat : M) :
    (t.setWorldMatrix compose mat).worldMatrix = mat * t.effective compose := rfl

end Transform

namespace SceneGraph

open Hierarchy

/-- A visit writes the transform of `y`: it has one, and so has its parent. -/
def Writes (r : Registry (Transform L M)) (y : Handle) : Prop :=
  (r.transform y).isSome ∧ ∀ p, r.link .parent y = some p → (r.transform p).isSome

variable (compose : L → M)

/-- The entities in `D` have been visited. -/
structure Swept (r : Registry (Transform L M)) (W : Handle → M) (D : Handle → Prop)
    (s : Sweep L M) : Prop where
  entities : s.registry.entities = r.entities
  hierarchy : s.registry.hierarchy = r.hierarchy
  missing : ∀ y, r.transform y = none → s.registry.transform y = none
  present : ∀ y t, r.transform y = some t → ∃ t', s.registry.transform y = some t' ∧
    t'.effective compose = t.effective compose ∧ (D y → t'.worldMatrix = W y) ∧
    (¬ D y → t'.worldMatrix = t.worldMatrix) ∧ (D y → Writes r y → t'.dirty = false)
  nodup : s.written.Nodup
  written : ∀ y, y ∈ s.written ↔ D y ∧ Writes r y

variable {compose} {r : Registry (Transform L M)} {W : Handle → M} {D D' : Handle → Prop}
  {s : Sweep L M} {kids : Handle → List Handle}

namespace Swept

theorem init : Swept compose r W (fun _ => False) { registry := r, written := [] } :=
  ⟨rfl, rfl, fun _ h => h, fun _ t ht => ⟨t, ht, rfl, by simp, by simp, by simp⟩,
    List.nodup_nil, by simp⟩

theorem congr (h : Swept compose r W D s) (hD : ∀ y, D y ↔ D' y) : Swept compose r W D' s := by
  rwa [← funext fun y => propext (hD y)]

theorem valid (h : Swept compose r W D s) {e : Handle} (hv : r.Valid e) : s.registry.Valid e := by
  rw [Valid, h.entities]
  exact hv

theorem tryGet (h : Swept compose r W D s) {e : Handle} (hv : r.Valid e) :
    s.registry.tryGet e = .ok (r.hierarchy e) := by
  rw [tryGet_of_valid (h.valid hv), h.hierarchy]

theorem link (h : Swept compose r W D s) (l : Link) : s.registry.link l = r.link l := by
  funext e
  rw [Registry.link, Registry.link, h.hierarchy]

/-- `getWorldMatrix` may refresh a transform in passing. -/
theorem refresh (h : Swept compose r W D s) {p : Handle} {t : Transform L M}
    (ht : s.registry.transform p = some t) :
    Swept compose r W D
      { s with registry := s.registry.putTransform p (t.refresh compose) } := by
  refine ⟨h.entities, h.hierarchy, fun y hy => ?_, fun y u hu => ?_, h.nodup, h.written⟩
  · have hyp : y ≠ p := fun heq => by
      rw [heq] at hy
      rw [h.missing p hy] at ht
      exact absurd ht (by simp)
    simpa [putTransform, Function.update_of_ne hyp] using h.missing y hy
  · obtain ⟨t', ht', heff, hdone, hopen, hclean⟩ := h.present y u hu
    by_cases hyp : y = p
    · subst hyp
      obtain rfl : t = t' := Option.some.inj (ht.symm.trans ht')
      refine ⟨t.refresh compose, by simp [putTransform], ?_⟩
      simp only [Transform.effective_refresh, Transform.worldMatrix_refresh,
        Transform.dirty_refresh, implies_true, and_true]
      exact ⟨heff, hdone, hopen⟩
    · exact ⟨t', by simpa [putTransform, Function.update_of_ne hyp] using ht', heff, hdone, hopen,
        hclean⟩

end Swept

section

variable [Monoid M]

/-- The world matrices after a visit of every entity. -/
structure WorldOf (compose : L → M) (r : Registry (Transform L M)) (W : Handle → M) : Prop where
  written : ∀ y t, r.transform y = some t → Writes r y →
    W y = (r.link .parent y).elim 1 W * t.effective compose
  kept : ∀ y t, r.transform y = some t → ¬ Writes r y → W y = t.worldMatrix

namespace Swept

/-- An entity whose transform is not written may count as visited. -/
theorem skip (h : Swept compose r W D s) (hW : WorldOf compose r W) {e : Handle} (he : ¬ D e)
    (hnot : ¬ Writes r e) : Swept compose r W (fun y => D y ∨ y = e) s := by
  refine ⟨h.entities, h.hierarchy, h.missing, fun y t ht => ?_, h.nodup, fun y => ?_⟩
  · obtain ⟨t', ht', heff, hdone, hopen, hclean⟩ := h.present y t ht
    refine ⟨t', ht', heff, fun hy => ?_, fun hy => ?_, fun hy hw => ?_⟩
    · rcases hy with hy | hy
      · exact hdone hy
      · subst hy
        exact (hopen he).trans (hW.kept y t ht hnot).symm
    · exact hopen fun hD => hy (Or.inl hD)
    · rcases hy with hy | hy
      · exact hclean hy hw
      · exact absurd (hy ▸ hw) hnot
  · rw [h.written]
    refine ⟨fun hy => ⟨Or.inl hy.1, hy.2⟩, fun hy => ?_⟩
    rcases hy.1 with hD | heq
    · exact ⟨hD, hy.2⟩
    · exact absurd (heq ▸ hy.2) hnot

/-- **A write**: the world matrix of the parent is final. -/
theorem write (h : Swept compose r W D s) (hW : WorldOf compose r W) {e : Handle} (he : ¬ D e)
    (hw : Writes r e) :
    Swept compose r W (fun y => D y ∨ y = e)
      (setWorldMatrix compose s e ((r.link .parent e).elim 1 W)) := by
  obtain ⟨t, ht⟩ := Option.isSome_iff_exists.mp hw.1
  obtain ⟨t', ht', heff, -, -, -⟩ := h.present e t ht
  have hset : setWorldMatrix compose s e ((r.link .parent e).elim 1 W) =
      { registry := s.registry.putTransform e
          (t'.setWorldMatrix compose ((r.link .parent e).elim 1 W))
        written := s.written ++ [e] } := by
    rw [setWorldMatrix, ht']
  rw [hset]
  refine ⟨h.entities, h.hierarchy, fun y hy => ?_, fun y u hu => ?_, ?_, fun y => ?_⟩
  · have hye : y ≠ e := fun heq => by
      rw [heq, ht] at hy
      exact absurd hy (by simp)
    simpa [putTransform, Function.update_of_ne hye] using h.missing y hy
  · by_cases hye : y = e
    · subst hye
      obtain rfl : t = u := Option.some.inj (ht.symm.trans hu)
      refine ⟨_, by simp [putTransform]; rfl, ?_⟩
      simp only [Transform.effective_setWorldMatrix, Transform.worldMatrix_setWorldMatrix,
        Transform.dirty_setWorldMatrix, implies_true, and_true]
      refine ⟨heff, fun _ => ?_, fun hy => absurd (Or.inr trivial) hy⟩
      rw [heff, hW.written y t ht hw]
    · obtain ⟨u', hu', heff, hdone, hopen, hclean⟩ := h.present y u hu
      refine ⟨u', by simpa [putTransform, Function.update_of_ne hye] using hu', heff,
        fun hy => hdone (hy.resolve_right hye), fun hy => hopen fun hD => hy (Or.inl hD),
        fun hy => hclean (hy.resolve_right hye)⟩
  · refine List.nodup_append.mpr ⟨h.nodup, by simp, fun x hx y hy => ?_⟩
    obtain rfl : y = e := by simpa using hy
    exact fun heq => he ((h.written _).mp (heq ▸ hx)).1
  · rw [List.mem_append, h.written, List.mem_singleton]
    refine ⟨fun hy => ?_, fun hy => ?_⟩
    · rcases hy with hy | heq
      · exact ⟨Or.inl hy.1, hy.2⟩
      · exact ⟨Or.inr heq, heq ▸ hw⟩
    · rcases hy.1 with hD | heq
      · exact Or.inl ⟨hD, hy.2⟩
      · exact Or.inr heq

end Swept

/-! ### The recursion -/

/-- **`updateNode`** visits one entity whose parent has been visited. -/
theorem updateNode_eq (h : Forest r kids) (hW : WorldOf compose r W) (hs : Swept compose r W D s)
    {e : Handle} {c : Hierarchy} (hc : r.hierarchy e = some c) (he : ¬ D e)
    (hparent : ∀ p, r.link .parent e = some p → D p) :
    ∃ s', updateNode compose s e c = .ok s' ∧ Swept compose r W (fun y => D y ∨ y = e) s' := by
  have hve : r.Valid e := h.live e (by simp [Has, hc])
  have hpar : r.link .parent e = c.parent := link_of_some hc .parent
  have htry : s.registry.tryGetTransform e = .ok (s.registry.transform e) :=
    tryGetTransform_of_valid (hs.valid hve)
  cases ht : r.transform e with
  | none =>
      refine ⟨s, ?_, hs.skip hW he fun hw => by simp [Writes, ht] at hw⟩
      rw [updateNode, htry, hs.missing e ht]
      rfl
  | some t =>
      obtain ⟨t', ht', -⟩ := hs.present e t ht
      cases hcpar : c.parent with
      | none =>
          -- a root
          have hw : Writes r e := ⟨by simp [ht], fun p hp => by simp [hpar, hcpar] at hp⟩
          refine ⟨_, ?_, hs.write hW he hw⟩
          rw [hpar, hcpar]
          simp only [updateNode, htry, ht', Except.bind, hcpar, Option.elim_none]
      | some p =>
          have hmem : e ∈ kids p := (h.parent p e).mpr (hpar.trans hcpar)
          have htryp : s.registry.tryGetTransform p = .ok (s.registry.transform p) :=
            tryGetTransform_of_valid (hs.valid (h.valid_parent hmem))
          cases hp : r.transform p with
          | none =>
              -- the parent has no transform: nothing is written
              refine ⟨s, ?_, hs.skip hW he fun hw => ?_⟩
              · simp only [updateNode, htry, ht', Except.bind, hcpar, htryp, hs.missing p hp]
                rfl
              · have := hw.2 p (hpar.trans hcpar)
                simp [hp] at this
          | some u =>
              obtain ⟨u', hu', -, hdone, -⟩ := hs.present p u hp
              have hw : Writes r e := by
                refine ⟨by simp [ht], fun q hq => ?_⟩
                rw [hpar, hcpar, Option.some.injEq] at hq
                simp [← hq, hp]
              have hworld : (u'.refresh compose).worldMatrix = W p := by
                rw [Transform.worldMatrix_refresh]
                exact hdone (hparent p (hpar.trans hcpar))
              refine ⟨_, ?_, (hs.refresh hu').write hW he hw⟩
              rw [hpar, hcpar, Option.elim_some, ← hworld]
              simp only [updateNode, htry, ht', Except.bind, hcpar, htryp, hu']
              rfl

/-- `updateTransform` once the recursive calls are known to sweep subtrees. -/
theorem updateTransform_of_children (h : Forest r kids) (hW : WorldOf compose r W)
    {e : Handle} (he : r.Has e)
    (hchild : ∀ c ∈ kids e, ∀ (D : Handle → Prop) s, Swept compose r W D s →
      (∀ y, Below kids c y → ¬ D y) → D e →
      ∃ s', Settles (fun fuel => updateTransform compose fuel s c) (.ok s') ∧
        Swept compose r W (fun y => D y ∨ Below kids c y) s')
    (hs : Swept compose r W D s) (hfree : ∀ y, Below kids e y → ¬ D y)
    (hparent : ∀ p, r.link .parent e = some p → D p) :
    ∃ s', Settles (fun fuel => updateTransform compose fuel s e) (.ok s') ∧
      Swept compose r W (fun y => D y ∨ Below kids e y) s' := by
  obtain ⟨c, hc⟩ := Option.isSome_iff_exists.mp he
  have hfirst : c.first = (kids e).head? := (link_of_some hc .first).symm.trans (h.first e)
  obtain ⟨s₁, hnode, hs₁⟩ := updateNode_eq h hW hs hc (hfree e Relation.ReflTransGen.refl) hparent
  -- `cs` are the children still to be visited, `D'` everything visited so far
  let I : List Handle → Sweep L M → Prop := fun cs s =>
    ∃ D' : Handle → Prop, Swept compose r W D' s ∧ D' e ∧ (∃ pre, kids e = pre ++ cs) ∧
      (∀ c ∈ cs, ∀ y, Below kids c y → ¬ D' y) ∧
      ∀ y, (D' y ∨ ∃ c ∈ cs, Below kids c y) ↔ (D y ∨ Below kids e y)
  have hinit : I (kids e) s₁ := by
    refine ⟨_, hs₁, Or.inr rfl, ⟨[], rfl⟩, fun c hc y hy hD => ?_, fun y => ?_⟩
    · rcases hD with hD | heq
      · exact hfree y (Relation.ReflTransGen.head hc hy) hD
      · exact h.shape.not_below_parent hc (heq ▸ hy)
    · rw [or_assoc]
      refine or_congr_right ⟨fun hy => ?_, fun hy => ?_⟩
      · rcases hy with heq | ⟨c, hc, hy⟩
        · exact heq ▸ Relation.ReflTransGen.refl
        · exact Relation.ReflTransGen.head hc hy
      · rcases Relation.ReflTransGen.cases_head hy with heq | ⟨c, hc, hy⟩
        · exact Or.inl heq.symm
        · exact Or.inr ⟨c, hc, hy⟩
  have hstep : ∀ c cs s, I (c :: cs) s →
      (s.registry.Valid c ∧ s.registry.link .next c = cs.head?) ∧
        ∃ s', Settles (fun fuel => updateTransform compose fuel s c) (.ok s') ∧ I cs s' := by
    intro c cs s ⟨D', hs, hDe, ⟨pre, hpre⟩, hopen, hall⟩
    have hmem : c ∈ kids e := by simp [hpre]
    have hseg := h.siblings e
    rw [hpre] at hseg
    refine ⟨⟨hs.valid (h.valid_child hmem), ?_⟩, ?_⟩
    · rw [hs.link]
      exact hseg.links.2
    obtain ⟨s', hrun, hs'⟩ := hchild c hmem D' s hs (hopen c (by simp)) hDe
    refine ⟨s', hrun, _, hs', Or.inl hDe, ⟨pre ++ [c], by simp [hpre]⟩, fun d hd y hy => ?_,
      fun y => ?_⟩
    · have hdmem : d ∈ kids e := by simp [hpre, hd]
      have hcd : c ≠ d := by
        have hdup := h.shape.nodup e
        rw [hpre] at hdup
        exact fun heq => (List.nodup_cons.mp (List.nodup_append.mp hdup).2.1).1 (heq ▸ hd)
      intro hy'
      rcases hy' with hD | hcy
      · exact hopen d (List.mem_cons_of_mem c hd) y hy hD
      · exact h.shape.siblings_disjoint hmem hdmem hcd hcy hy
    · rw [← hall y, or_assoc]
      simp
  obtain ⟨s', hrun, D', hs', -, -, -, hall⟩ := forChildren_settles
    Sweep.registry (updateTransform compose) hstep hinit
  refine ⟨s', Settles.of_succ (hrun.congr fun fuel => ?_),
    hs'.congr fun y => by simpa using hall y⟩
  rw [updateTransform, hs.tryGet (h.live e he), hc]
  simp only [Except.bind, hnode, hfirst]

/-- **`updateTransform`** ends and visits exactly the subtree of `e`. -/
theorem updateTransform_settles (h : Forest r kids) (hW : WorldOf compose r W) {e : Handle}
    (he : r.Has e) (hs : Swept compose r W D s) (hfree : ∀ y, Below kids e y → ¬ D y)
    (hparent : ∀ p, r.link .parent e = some p → D p) :
    ∃ s', Settles (fun fuel => updateTransform compose fuel s e) (.ok s') ∧
      Swept compose r W (fun y => D y ∨ Below kids e y) s' := by
  induction e using h.shape.induction generalizing D s with
  | step e ih =>
      refine updateTransform_of_children h hW he (fun c hc D' s' hs' hfree' hDe => ?_) hs hfree
        hparent
      refine ih c hc (h.has_child hc) hs' hfree' fun p hp => ?_
      exact h.shape.unique e p c hc ((h.parent p c).mpr hp) ▸ hDe

/-! ### From any entity, in any state of the transforms -/

/-- The transforms may be anything; entities and hierarchy are those of `r`. -/
structure SameShape (r : Registry (Transform L M)) (s : Sweep L M) : Prop where
  entities : s.registry.entities = r.entities
  hierarchy : s.registry.hierarchy = r.hierarchy

omit [Monoid M] in
theorem SameShape.valid (hs : SameShape r s) {e : Handle} (hv : r.Valid e) :
    s.registry.Valid e := by
  rw [Valid, hs.entities]
  exact hv

theorem sameShape_setWorldMatrix (hs : SameShape r s) (e : Handle) (mat : M) :
    SameShape r (setWorldMatrix compose s e mat) := by
  unfold setWorldMatrix
  cases s.registry.transform e with
  | none => exact hs
  | some t => exact ⟨hs.entities, hs.hierarchy⟩

variable (compose) in
theorem updateNode_total (h : Forest r kids) (hs : SameShape r s) {e : Handle} {c : Hierarchy}
    (hc : r.hierarchy e = some c) :
    ∃ s', updateNode compose s e c = .ok s' ∧ SameShape r s' := by
  have hve : r.Valid e := h.live e (by simp [Has, hc])
  have hpar : r.link .parent e = c.parent := link_of_some hc .parent
  unfold updateNode
  rw [tryGetTransform_of_valid (hs.valid hve)]
  cases s.registry.transform e with
  | none => exact ⟨s, rfl, hs⟩
  | some t =>
      cases hcpar : c.parent with
      | none => exact ⟨_, rfl, sameShape_setWorldMatrix hs e 1⟩
      | some p =>
          have hmem : e ∈ kids p := (h.parent p e).mpr (hpar.trans hcpar)
          simp only [Except.bind, tryGetTransform_of_valid (hs.valid (h.valid_parent hmem))]
          cases s.registry.transform p with
          | none => exact ⟨s, rfl, hs⟩
          | some u =>
              exact ⟨_, rfl, sameShape_setWorldMatrix (s := { s with
                registry := s.registry.putTransform p _ }) ⟨hs.entities, hs.hierarchy⟩ e _⟩

variable (compose) in
/-- `updateTransform` ends from every entity. -/
theorem updateTransform_total (h : Forest r kids) (hs : SameShape r s) {e : Handle}
    (hv : r.Valid e) :
    ∃ s', Settles (fun fuel => updateTransform compose fuel s e) (.ok s') ∧ SameShape r s' := by
  induction e using h.shape.induction generalizing s with
  | step e ih =>
      have htry : s.registry.tryGet e = .ok (r.hierarchy e) := by
        rw [tryGet_of_valid (hs.valid hv), hs.hierarchy]
      cases hc : r.hierarchy e with
      | none =>
          refine ⟨s, Settles.of_succ (Settles.of_forall fun fuel => ?_), hs⟩
          rw [updateTransform, htry, hc]
          rfl
      | some c =>
          have hfirst : c.first = (kids e).head? := (link_of_some hc .first).symm.trans (h.first e)
          obtain ⟨s₁, hnode, hs₁⟩ := updateNode_total compose h hs hc
          have hstep : ∀ c cs s, (SameShape r s ∧ ∃ pre, kids e = pre ++ c :: cs) →
              (s.registry.Valid c ∧ s.registry.link .next c = cs.head?) ∧
                ∃ s', Settles (fun fuel => updateTransform compose fuel s c) (.ok s') ∧
                  (SameShape r s' ∧ ∃ pre, kids e = pre ++ cs) := by
            intro c cs s ⟨hs, pre, hpre⟩
            have hmem : c ∈ kids e := by simp [hpre]
            have hseg := h.siblings e
            rw [hpre] at hseg
            refine ⟨⟨hs.valid (h.valid_child hmem), ?_⟩, ?_⟩
            · rw [Registry.link, hs.hierarchy]
              exact hseg.links.2
            · obtain ⟨s', hrun, hs'⟩ := ih c hmem hs (h.valid_child hmem)
              exact ⟨s', hrun, hs', pre ++ [c], by simp [hpre]⟩
          obtain ⟨s', hrun, hs', -⟩ := forChildren_settles Sweep.registry
            (updateTransform compose)
            (I := fun cs s => SameShape r s ∧ ∃ pre, kids e = pre ++ cs) hstep (l := kids e)
            ⟨hs₁, [], rfl⟩
          refine ⟨s', Settles.of_succ (hrun.congr fun fuel => ?_), hs'⟩
          rw [updateTransform, htry, hc]
          simp only [Except.bind, hnode, hfirst]

/-! ### The whole update -/

/-- `e` is visited by an update: it has a transform and no `Hierarchy`, or it is
in the subtree of a root with a transform. -/
def Visited (r : Registry (Transform L M)) (kids : Handle → List Handle) (e : Handle) : Prop :=
  ((r.transform e).isSome ∧ ¬ r.Has e) ∨
    ∃ a, ((r.transform a).isSome ∧ r.Has a) ∧ r.link .parent a = none ∧ Below kids a e

/-- The first loop of `update`. -/
theorem updateFree_loop (h : Forest r kids) (hW : WorldOf compose r W) {l : List Handle}
    (hl : IsNonHierarchyView r l) :
    ∃ s, Settles (fun _ => l.foldlM (updateFree compose) { registry := r, written := [] })
      (.ok s) ∧ Swept compose r W (· ∈ l) s := by
  have hstep : ∀ e es s, (∃ pre, l = pre ++ e :: es ∧ Swept compose r W (· ∈ pre) s) →
      ∃ s', Settles (fun _ => updateFree compose s e) (.ok s') ∧
        ∃ pre, l = pre ++ es ∧ Swept compose r W (· ∈ pre) s' := by
    intro e es s ⟨pre, hpre, hs⟩
    obtain ⟨hT, hnot⟩ := (hl.2 e).mp (by simp [hpre])
    have hpar : r.link .parent e = none := by
      rw [Registry.link, Option.not_isSome_iff_eq_none.mp hnot]
      rfl
    have he : e ∉ pre := by
      have hdup := hl.1
      rw [hpre] at hdup
      exact fun hmem => (List.nodup_append.mp hdup).2.2 e hmem e (by simp) rfl
    have hwrite := hs.write hW he ⟨hT, fun p hp => by simp [hpar] at hp⟩
    rw [hpar, Option.elim_none] at hwrite
    obtain ⟨t, ht⟩ := Option.isSome_iff_exists.mp hT
    obtain ⟨t', ht', -⟩ := hs.present e t ht
    refine ⟨_, Settles.of_forall fun _ => ?_, pre ++ [e], by simp [hpre],
      hwrite.congr fun y => by simp⟩
    rw [updateFree, tryGetTransform_of_valid (hs.valid (h.transform_live e hT)), ht']
    rfl
  obtain ⟨s, hrun, pre, hpre, hs⟩ := Settles.foldlM (f := fun _ => updateFree compose)
    (I := fun es s => ∃ pre, l = pre ++ es ∧ Swept compose r W (· ∈ pre) s) hstep
    (l := l) ⟨[], rfl, Swept.init.congr fun y => by simp⟩
  rw [List.append_nil] at hpre
  exact ⟨s, hrun, hpre ▸ hs⟩

/-- The second loop of `update`: the subtrees of the roots, one after the other. -/
theorem updateRoot_loop (h : Forest r kids) (hW : WorldOf compose r W) {l : List Handle}
    (hl : IsView r l) (hfree : ∀ y, D y → ¬ r.Has y) (hs : Swept compose r W D s) :
    ∃ s', Settles (fun fuel => l.foldlM (updateRoot compose fuel) s) (.ok s') ∧
      Swept compose r W
        (fun y => D y ∨ ∃ a ∈ l, r.link .parent a = none ∧ Below kids a y) s' := by
  let V : List Handle → Handle → Prop := fun pre y =>
    D y ∨ ∃ a ∈ pre, r.link .parent a = none ∧ Below kids a y
  have hstep : ∀ e es s, (∃ pre, l = pre ++ e :: es ∧ Swept compose r W (V pre) s) →
      ∃ s', Settles (fun fuel => updateRoot compose fuel s e) (.ok s') ∧
        ∃ pre, l = pre ++ es ∧ Swept compose r W (V pre) s' := by
    intro e es s ⟨pre, hpre, hs⟩
    obtain ⟨-, he⟩ := (hl.2 e).mp (by simp [hpre])
    obtain ⟨c, hc⟩ := Option.isSome_iff_exists.mp he
    have hpar : r.link .parent e = c.parent := link_of_some hc .parent
    cases hcpar : c.parent with
    | some p =>
        -- not a root: nothing happens
        refine ⟨s, Settles.of_forall fun fuel => ?_, pre ++ [e], by simp [hpre],
          hs.congr fun y => or_congr_right ?_⟩
        · simp only [updateRoot, hs.tryGet (h.live e he), hc, Except.bind, hcpar]
        · refine ⟨fun ⟨a, ha, hy⟩ => ⟨a, by simp [ha], hy⟩, fun ⟨a, ha, hroot, hy⟩ => ?_⟩
          rcases List.mem_append.mp ha with ha | ha
          · exact ⟨a, ha, hroot, hy⟩
          · rw [List.mem_singleton.mp ha, hpar, hcpar] at hroot
            exact absurd hroot (by simp)
    | none =>
        have hroot := hpar.trans hcpar
        have hnew : ∀ y, Below kids e y → ¬ V pre y := by
          intro y hy hV
          rcases hV with hD | ⟨a, ha, haroot, hay⟩
          · exact hfree y hD (h.has_below he hy)
          · -- two roots above the same entity are the same
            have heq : a = e := by
              rcases h.shape.below_or_below hay hy with hbelow | hbelow
              · exact h.eq_of_below_root hroot hbelow
              · exact (h.eq_of_below_root haroot hbelow).symm
            have hdup := hl.1
            rw [hpre] at hdup
            exact (List.nodup_append.mp hdup).2.2 a ha e (by simp) heq
        obtain ⟨s', hrun, hs'⟩ := updateTransform_settles h hW he hs hnew
          fun p hp => by simp [hroot] at hp
        refine ⟨s', hrun.congr fun fuel => ?_, pre ++ [e], by simp [hpre],
          hs'.congr fun y => ?_⟩
        · simp only [updateRoot, hs.tryGet (h.live e he), hc, Except.bind, hcpar]
        · show V pre y ∨ Below kids e y ↔ V (pre ++ [e]) y
          simp only [V, or_assoc, List.mem_append, List.mem_singleton]
          refine or_congr_right ⟨fun hy => ?_, fun ⟨a, ha, haroot, hy⟩ => ?_⟩
          · rcases hy with ⟨a, ha, hy⟩ | hy
            · exact ⟨a, Or.inl ha, hy⟩
            · exact ⟨e, Or.inr rfl, hroot, hy⟩
          · rcases ha with ha | heq
            · exact Or.inl ⟨a, ha, haroot, hy⟩
            · exact Or.inr (heq ▸ hy)
  obtain ⟨s', hrun, pre, hpre, hs'⟩ := Settles.foldlM (f := updateRoot compose)
    (I := fun es s => ∃ pre, l = pre ++ es ∧ Swept compose r W (V pre) s) hstep
    (l := l) ⟨[], rfl, hs.congr fun y => by simp [V]⟩
  rw [List.append_nil] at hpre
  exact ⟨s', hrun, hpre ▸ hs'⟩

/-- **`update`** ends and visits exactly the entities it can reach. -/
theorem update_settles (h : Forest r kids) (hW : WorldOf compose r W)
    {nonHierarchyView view : List Handle} (hn : IsNonHierarchyView r nonHierarchyView)
    (hv : IsView r view) :
    ∃ s, Settles (fun fuel => update compose fuel nonHierarchyView view r) (.ok s) ∧
      Swept compose r W (Visited r kids) s := by
  obtain ⟨s₁, hrun₁, hs₁⟩ := updateFree_loop h hW hn
  obtain ⟨s, hrun, hs⟩ := updateRoot_loop h hW hv (fun y hy => ((hn.2 y).mp hy).2) hs₁
  refine ⟨s, hrun₁.except_bind hrun, hs.congr fun y => ?_⟩
  refine or_congr (hn.2 y) ⟨fun ⟨a, ha, hroot, hy⟩ => ⟨a, (hv.2 a).mp ha, hroot, hy⟩,
    fun ⟨a, ha, hroot, hy⟩ => ⟨a, (hv.2 a).mpr ha, hroot, hy⟩⟩

end

end SceneGraph

end Maple
