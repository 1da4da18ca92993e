import Maple.Scene.SceneGraphSound
import Maple.Scene.WorldMatrices

/-!
# Maple.Scene.Dangling

**Which removals leave dangling links.** `onDestroy` repairs the siblings and the
parent of the entity that goes, but not its children, which keep their parent
link. Destroying an entity, or removing its `Hierarchy`, therefore leaves the
hierarchy intact exactly if the entity has no children.
-/

namespace Maple

open Lib Registry SceneGraph

variable {T L M : Type}

/-- In a well-formed hierarchy every link names an entity with a `Hierarchy`. -/
theorem Forest.link_has {r : Registry T} {kids : Handle → List Handle} (h : Forest r kids)
    {l : Link} {e x : Handle} (hx : r.link l e = some x) : r.Has x := by
  cases l with
  | parent => exact h.has_parent ((h.parent x e).mpr hx)
  | first =>
      rw [h.first] at hx
      exact h.has_child (List.mem_of_head? hx)
  | next =>
      obtain ⟨p, -, hmem⟩ := h.sibling_of_link (Or.inr hx)
      exact h.has_child hmem
  | prev =>
      obtain ⟨p, -, hmem⟩ := h.sibling_of_link (Or.inl hx)
      exact h.has_child hmem

variable [Monoid M]

/-- What is expected of the hierarchy `r'` after a removal from `r`: no link names
a dead entity or one without a `Hierarchy`, the readers of links end without a
fault, and `update` still writes every remaining transform that it wrote before. -/
structure Intact (compose : L → M) (r r' : Registry (Transform L M)) : Prop where
  no_dangling : ∀ e h, r'.Valid e → r'.hierarchy e = some h → ∀ l x, h.get l = some x →
    r'.Valid x ∧ r'.Has x
  get_parent : ∀ e, r'.Valid e → ∃ p, Entity.getParent r' e = .ok p
  is_parent : ∀ e p, r'.Valid e → ∃ b, Settles (fun fuel => Entity.isParent fuel r' e p) (.ok b)
  get_children : ∀ e, r'.Valid e →
    ∃ l, Settles (fun fuel => Entity.getChildren fuel r' e) (.ok l)
  update_transform : ∀ e written, r'.Valid e →
    ∃ s, Settles (fun fuel => updateTransform compose fuel ⟨r', written⟩ e) (.ok s)
  reached : ∀ n v n' v', IsNonHierarchyView r n → IsView r v → IsNonHierarchyView r' n' →
    IsView r' v' → ∃ s s', Settles (fun fuel => update compose fuel n v r) (.ok s) ∧
      Settles (fun fuel => update compose fuel n' v' r') (.ok s') ∧
      ∀ e, (r'.transform e).isSome → e ∈ s.written → e ∈ s'.written

/-- Only the component of `e` is gone, and perhaps its transform. -/
structure Gone (r r' : Registry (Transform L M)) (e : Handle) : Prop where
  has : ∀ x, r'.Has x ↔ x ≠ e ∧ r.Has x
  transform : ∀ x, x ≠ e → r'.transform x = r.transform x

variable {r r' : Registry (Transform L M)} {kids : Handle → List Handle} {e : Handle}
  {compose : L → M}

/-- A visit of another entity does not go through an entity without children. -/
theorem below_detach_of_leaf (h : Kids kids) (hleaf : kids e = []) {a x : Handle} (hx : x ≠ e)
    (hbelow : Below kids a x) : Below (detach kids e) a x := by
  induction hbelow with
  | refl => exact Relation.ReflTransGen.refl
  | @tail b c hab hc ih =>
      have hbe : b ≠ e := fun heq => by simp [heq, hleaf] at hc
      exact Relation.ReflTransGen.tail (ih hbe) ((mem_detach h).mpr ⟨hx, hc⟩)

omit [Monoid M] in
/-- Every remaining transform that was written still is. -/
theorem Gone.written (h : Forest r kids) (h' : Forest r' (detach kids e)) (hleaf : kids e = [])
    (hg : Gone r r' e) {x : Handle} (hx : (r'.transform x).isSome)
    (hvis : Visited r kids x) (hw : Writes r x) :
    Visited r' (detach kids e) x ∧ Writes r' x := by
  by_cases hxe : x = e
  · -- `e` itself has no `Hierarchy` any more
    have hnot : ¬ r'.Has x := fun hhas => ((hg.has x).mp hhas).1 hxe
    refine ⟨Or.inl ⟨hx, hnot⟩, hx, fun p hp => absurd (has_of_link hp) hnot⟩
  · have hparent : ∀ y p, y ≠ e → (r'.link .parent y = some p ↔ r.link .parent y = some p) := by
      intro y p hy
      rw [← h'.parent, ← h.parent, mem_detach h.shape, and_iff_right hy]
    refine ⟨?_, hx, fun p hp => ?_⟩
    · rcases hvis with ⟨hT, hnot⟩ | ⟨a, ⟨hTa, hhas⟩, hroot, hbelow⟩
      · exact Or.inl ⟨hx, fun hhas => hnot ((hg.has x).mp hhas).2⟩
      · have hae : a ≠ e := by
          intro heq
          exact hxe ((hbelow.eq_of_leaf (heq ▸ hleaf)).trans heq)
        refine Or.inr ⟨a, ⟨by rwa [hg.transform a hae], (hg.has a).mpr ⟨hae, hhas⟩⟩, ?_,
          below_detach_of_leaf h.shape hleaf hxe hbelow⟩
        cases hpar : r'.link .parent a with
        | none => rfl
        | some p => exact absurd (((hparent a p hae).mp hpar).symm.trans hroot) (by simp)
    · have hp := (hparent x p hxe).mp hp
      have hpe : p ≠ e := fun heq => by
        have hmem := (h.parent p x).mpr hp
        simp [heq, hleaf] at hmem
      rw [hg.transform p hpe]
      exact hw.2 p hp

/-- Removing an entity without children leaves the hierarchy intact. -/
theorem Gone.intact (h : Forest r kids) (h' : Forest r' (detach kids e)) (hleaf : kids e = [])
    (hg : Gone r r' e) : Intact compose r r' := by
  refine ⟨fun x c hv hc l y hy => ?_, fun x hv => ⟨_, Entity.getParent_eq hv⟩, fun x p hv => ?_,
    fun x hv => ⟨_, Entity.getChildren_settles h' hv⟩, fun x written hv => ?_,
    fun n v n' v' hn hv hn' hv' => ?_⟩
  · have hhas := h'.link_has ((link_of_some hc l).trans hy)
    exact ⟨h'.live y hhas, hhas⟩
  · obtain ⟨b, hrun, -⟩ := Hierarchy.isAbove_settles h' (a := p) hv
    exact ⟨b, hrun⟩
  · obtain ⟨s, hrun, -⟩ := updateTransform_total compose h'
      (s := ⟨r', written⟩) ⟨rfl, rfl⟩ hv
    exact ⟨s, hrun⟩
  · obtain ⟨W, hW, -⟩ := exists_worldOf compose h
    obtain ⟨W', hW', -⟩ := exists_worldOf compose h'
    obtain ⟨s, hrun, hs⟩ := update_settles h hW hn hv
    obtain ⟨s', hrun', hs'⟩ := update_settles h' hW' hn' hv'
    refine ⟨s, s', hrun, hrun', fun x hx hmem => (hs'.written x).mpr ?_⟩
    obtain ⟨hvis, hw⟩ := (hs.written x).mp hmem
    exact hg.written h h' hleaf hx hvis hw

/-- A child that keeps its link to a component that is gone. -/
theorem not_intact_of_child {c : Handle} (hv : r'.Valid c) (hpar : r'.link .parent c = some e)
    (hgone : ¬ r'.Has e) : ¬ Intact compose r r' := by
  intro hintact
  obtain ⟨h, hh⟩ := Option.isSome_iff_exists.mp (has_of_link hpar)
  rw [link_of_some hh] at hpar
  exact hgone (hintact.no_dangling c h hv hh .parent e hpar).2

/-- `removeComponent<Hierarchy>` of an entity with a child. -/
theorem removeComponent_not_intact (h : Forest r kids) {c : Handle} (hc : c ∈ kids e) :
    ∃ r', Entity.removeComponent r e = .ok r' ∧ ¬ Intact compose r r' := by
  obtain ⟨r₁, hrun, hu⟩ := Hierarchy.remove_unlinks h (h.has_parent hc)
  have hce : c ≠ e := fun heq => h.shape.not_below_parent hc (heq ▸ Relation.ReflTransGen.refl)
  refine ⟨_, hrun, not_intact_of_child (c := c) (e := e) ?_ ?_ (by simp)⟩
  · rw [valid_drop, Valid, hu.entities]
    exact h.valid_child hc
  · rw [link_drop, if_neg hce, hu.parent]
    exact (h.parent e c).mp hc

/-- `destroy` of an entity with a child. -/
theorem destroy_not_intact (h : Forest r kids) {c : Handle} (hc : c ∈ kids e) :
    ∃ r', Entity.destroy r e = .ok r' ∧ ¬ Intact compose r r' := by
  obtain ⟨r₁, hv₁, hrun, hu⟩ := Hierarchy.destroy_unlinks h (h.has_parent hc)
  have hce : c ≠ e := fun heq => h.shape.not_below_parent hc (heq ▸ Relation.ReflTransGen.refl)
  refine ⟨_, hrun, not_intact_of_child (c := c) (e := e) ?_ ?_ (not_and_of_not_left _ (by simp) |>
    mt (has_drop ..).mp)⟩
  · refine (Entities.release_valid hv₁ c).mpr ⟨hce, ?_⟩
    show r₁.entities.Valid c
    rw [hu.entities]
    exact h.valid_child hc
  · show (r₁.drop e).link .parent c = some e
    rw [link_drop, if_neg hce, hu.parent]
    exact (h.parent e c).mp hc

/-- `destroy` of an entity without children. -/
theorem destroy_intact (h : Forest r kids) (hv : r.Valid e) (hleaf : kids e = []) :
    ∃ r', Entity.destroy r e = .ok r' ∧ Intact compose r r' := by
  obtain ⟨r', hrun, hdes, h'⟩ := Hierarchy.destroy_eq h hv hleaf
  exact ⟨r', hrun, Gone.intact h h' hleaf ⟨hdes.has, hdes.transform⟩⟩

/-- `removeComponent<Hierarchy>` of an entity without children. -/
theorem removeComponent_intact (h : Forest r kids) (he : r.Has e) (hleaf : kids e = []) :
    ∃ r', Entity.removeComponent r e = .ok r' ∧ Intact compose r r' := by
  obtain ⟨r₁, hrun, hu⟩ := Hierarchy.remove_unlinks h he
  refine ⟨r₁.drop e, hrun, Gone.intact h (hu.forest_drop h he hleaf) hleaf ⟨fun x => ?_, ?_⟩⟩
  · rw [has_drop, hu.has]
  · intro x _
    show r₁.transform x = r.transform x
    rw [hu.transform]

/-- **Destroying an entity or removing its `Hierarchy` leaves no dangling link if
and only if the entity has no children.** -/
theorem intact_iff_no_children (compose : L → M) (h : Forest r kids) (e : Handle) :
    (r.Valid e → ((∃ r', Entity.destroy r e = .ok r' ∧ Intact compose r r') ↔
      r.link .first e = none)) ∧
    (r.Has e → ((∃ r', Entity.removeComponent r e = .ok r' ∧ Intact compose r r') ↔
      r.link .first e = none)) := by
  have hfirst : r.link .first e = none ↔ kids e = [] := by
    rw [h.first, List.head?_eq_none_iff]
  have hchild : ∀ {run : Except Fault (Registry (Transform L M))},
      (∀ c ∈ kids e, ∃ r', run = .ok r' ∧ ¬ Intact compose r r') →
      (∃ r', run = .ok r' ∧ Intact compose r r') → kids e = [] := by
    intro run hnot ⟨r', hrun, hintact⟩
    refine List.eq_nil_iff_forall_not_mem.mpr fun c hc => ?_
    obtain ⟨r'', hrun', hnot⟩ := hnot c hc
    exact hnot (Except.ok.inj (hrun.symm.trans hrun') ▸ hintact)
  rw [hfirst]
  refine ⟨fun hv => ⟨?_, destroy_intact h hv⟩, fun he => ⟨?_, removeComponent_intact h he⟩⟩
  · exact hchild fun c hc => destroy_not_intact h hc
  · exact hchild fun c hc => removeComponent_not_intact h hc

/-- The child of a parent may be destroyed. -/
theorem intact_without_child :
    ∃ r', Entity.destroy (parentAndChild none none : Registry (Transform Nat Nat)) ⟨1, 0⟩ = .ok r' ∧
      Intact id (parentAndChild none none) r' :=
  ((intact_iff_no_children id (forest_parentAndChild none none) ⟨1, 0⟩).1 (by decide)).mpr
    (by decide)

/-- The parent may not, nor may its `Hierarchy` be removed: the child keeps its
link to it. -/
theorem not_intact_without_parent :
    (∃ r', Entity.destroy (parentAndChild none none : Registry (Transform Nat Nat)) ⟨0, 0⟩ =
      .ok r' ∧ ¬ Intact id (parentAndChild none none) r') ∧
    ∃ r', Entity.removeComponent (parentAndChild none none : Registry (Transform Nat Nat)) ⟨0, 0⟩ =
      .ok r' ∧ ¬ Intact id (parentAndChild none none) r' :=
  ⟨destroy_not_intact (c := ⟨1, 0⟩) (forest_parentAndChild none none) (by simp),
    removeComponent_not_intact (c := ⟨1, 0⟩) (forest_parentAndChild none none) (by simp)⟩

end Maple
