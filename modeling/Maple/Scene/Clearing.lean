import Maple.Scene.HierarchySound

/-!
# Maple.Scene.Clearing

**Destroying many entities.** Deleting a subtree destroys each of its entities
once and nothing else. Clearing a scene destroys all entities in the order of the
registry, parents before, between or after their children, so `onDestroy` meets
links to entities that are gone already. Only the `next` links are followed
without a check, and these never dangle: an entity that is linked to as the next
sibling links back, so that its own destruction repairs the link.
-/

namespace Maple

open Lib Registry

variable {T : Type} {r r' : Registry T} {kids : Handle → List Handle}

/-! ### Releasing handles one after the other -/

namespace Entities

/-- The handles of a list are released one after the other, each one while it is
valid. -/
inductive Releases : Entities → List Handle → Entities → Prop
  | nil (s : Entities) : Releases s [] s
  | cons {s s' : Entities} {e : Handle} {es : List Handle} (hv : s.Valid e) :
      Releases (s.release e hv) es s' → Releases s (e :: es) s'

namespace Releases

variable {s s' s'' : Entities} {es es' : List Handle}

theorem append (h : Releases s es s') (h' : Releases s' es' s'') :
    Releases s (es ++ es') s'' := by
  induction h with
  | nil => exact h'
  | cons hv _ ih => exact .cons hv (ih h')

/-- What is left are the valid handles that are not in the list. -/
theorem valid (h : Releases s es s') (x : Handle) : s'.Valid x ↔ x ∉ es ∧ s.Valid x := by
  induction h with
  | nil => simp
  | cons hv _ ih => rw [ih, release_valid hv, List.mem_cons, not_or, and_left_comm, and_assoc]

theorem valid_of_mem (h : Releases s es s') {x : Handle} (hx : x ∈ es) : s.Valid x := by
  induction h with
  | nil => exact absurd hx List.not_mem_nil
  | cons hv _ ih =>
      rcases List.mem_cons.mp hx with heq | hmem
      · exact heq ▸ hv
      · exact ((release_valid hv x).mp (ih hmem)).2

/-- No handle is released twice. -/
theorem nodup (h : Releases s es s') : es.Nodup := by
  induction h with
  | nil => exact List.nodup_nil
  | @cons s s' e es hv hrest ih =>
      refine List.nodup_cons.mpr ⟨fun hmem => ?_, ih⟩
      exact ((release_valid hv e).mp (hrest.valid_of_mem hmem)).1 rfl

end Releases

end Entities

open Entities

namespace Hierarchy

/-! ### What a destruction does to the handles -/

theorem linkBack_same {next prev : Option Handle} (h : linkBack r next prev = .ok r') :
    SameEntities r r' := by
  cases next with
  | none =>
      obtain rfl := Except.ok.inj h
      exact ⟨rfl, rfl⟩
  | some n =>
      obtain ⟨c, -, rfl⟩ := map_eq_ok h
      cases c with
      | none => exact ⟨rfl, rfl⟩
      | some c => exact ⟨rfl, rfl⟩

/-- `onDestroy` touches links only. -/
theorem onDestroy_same {e : Handle} (h : onDestroy r e = .ok r') : SameEntities r r' := by
  obtain ⟨c, -, h⟩ := bind_eq_ok h
  cases hprev : c.prev.filter (r.Valid ·) with
  | none =>
      cases hparent : c.parent.filter (r.Valid ·) with
      | none =>
          simp only [hprev, hparent] at h
          obtain rfl := Except.ok.inj h
          exact ⟨rfl, rfl⟩
      | some p =>
          simp only [hprev, hparent] at h
          obtain ⟨cp, -, h⟩ := bind_eq_ok h
          cases cp with
          | none =>
              obtain rfl := Except.ok.inj h
              exact ⟨rfl, rfl⟩
          | some cp =>
              have hsame := linkBack_same (r := r.assign p .first c.next) h
              exact ⟨hsame.entities, hsame.transform⟩
  | some q =>
      simp only [hprev] at h
      obtain ⟨cq, -, h⟩ := bind_eq_ok h
      have hsame := linkBack_same h
      split at hsame
      · exact ⟨hsame.entities, hsame.transform⟩
      · exact hsame

/-- `destroy` releases the handle and drops the other component. -/
theorem destroy_releases {e : Handle} (h : r.destroy onDestroy e = .ok r') :
    Releases r.entities [e] r'.entities ∧ r'.transform = Function.update r.transform e none := by
  obtain ⟨c, -, h⟩ := bind_eq_ok h
  obtain ⟨r₁, hremove, h⟩ := bind_eq_ok h
  have hsame : SameEntities r r₁ := by
    split at hremove
    · obtain ⟨_, -, hremove⟩ := bind_eq_ok hremove
      obtain ⟨r₂, hrun, rfl⟩ := map_eq_ok hremove
      have hsame := onDestroy_same hrun
      exact ⟨hsame.entities, hsame.transform⟩
    · obtain rfl := Except.ok.inj hremove
      exact ⟨rfl, rfl⟩
  split at h
  · next hv =>
      rw [← Except.ok.inj h, ← hsame.entities, ← hsame.transform]
      exact ⟨.cons hv (.nil _), rfl⟩
  · cases h

/-- The loop over the children does to the registry what its visits do. -/
theorem forChildren_rel {R : Registry T → Registry T → Prop} (hrefl : ∀ r, R r r)
    (htrans : ∀ {r r' r''}, R r r' → R r' r'' → R r r'')
    {visit : Registry T → Handle → Except Fault (Registry T)}
    (hvisit : ∀ {r c r'}, visit r c = .ok r' → R r r') {fuel : Nat} {child : Option Handle}
    (h : forChildren id visit fuel r child = .ok r') : R r r' := by
  induction fuel generalizing r child with
  | zero => exact absurd h nofun
  | succ fuel ih =>
      cases child with
      | none => exact Except.ok.inj h ▸ hrefl r
      | some c =>
          obtain ⟨hierarchy, -, h⟩ := bind_eq_ok h
          obtain ⟨r₁, hrun, h⟩ := bind_eq_ok h
          exact htrans (hvisit hrun) (ih h)

end Hierarchy

namespace HierarchyWindow

open Hierarchy

/-- `destroyEntity` does to the registry what destroying entities one by one does. -/
theorem destroyEntity_rel {R : Registry T → Registry T → Prop} (hrefl : ∀ r, R r r)
    (htrans : ∀ {r r' r''}, R r r' → R r' r'' → R r r'')
    (hdestroy : ∀ {r e r'}, r.destroy onDestroy e = .ok r' → R r r') {fuel : Nat} {e : Handle}
    (h : destroyEntity fuel r e = .ok r') : R r r' := by
  induction fuel generalizing r r' e with
  | zero => exact absurd h nofun
  | succ fuel ih =>
      obtain ⟨c, -, h⟩ := bind_eq_ok h
      obtain ⟨r₁, hloop, h⟩ := bind_eq_ok h
      have hchildren : R r r₁ := by
        cases c with
        | none => exact Except.ok.inj hloop ▸ hrefl r
        | some c => exact forChildren_rel hrefl htrans (fun hvisit => ih hvisit) hloop
      exact htrans hchildren (hdestroy h)

/-- `destroyEntity` does nothing to the handles but release them. -/
theorem destroyEntity_releases {fuel : Nat} {e : Handle} (h : destroyEntity fuel r e = .ok r') :
    ∃ es, Releases r.entities es r'.entities :=
  destroyEntity_rel (R := fun r r' => ∃ es, Releases r.entities es r'.entities)
    (fun r => ⟨[], .nil r.entities⟩) (fun ⟨_, h₁⟩ ⟨_, h₂⟩ => ⟨_, h₁.append h₂⟩)
    (fun h => ⟨_, (destroy_releases h).1⟩) h

/-- The entity itself is gone in the end. -/
theorem destroyEntity_gone {fuel : Nat} {e : Handle} (h : destroyEntity fuel r e = .ok r') :
    ¬ r'.Valid e := by
  cases fuel with
  | zero => exact absurd h nofun
  | succ fuel =>
      obtain ⟨c, -, h⟩ := bind_eq_ok h
      obtain ⟨r₁, -, h⟩ := bind_eq_ok h
      exact fun hv => (((destroy_releases h).1.valid e).mp hv).1 (by simp)

/-! ### Deleting a subtree -/

/-- What deleting `e` with its descendants leaves: `order` lists the entities in
the order of their destruction, and the child lists outside are only shortened. -/
structure Deleted (r r' : Registry T) (kids : Handle → List Handle) (e : Handle)
    (order : List Handle) : Prop where
  /-- every handle is valid when it is destroyed, and destroyed once -/
  releases : Releases r.entities order r'.entities
  nodup : order.Nodup
  /-- `e` and its descendants -/
  subtree : ∀ x, x ∈ order ↔ Below kids e x
  /-- the others stay, with their components -/
  has : ∀ x, ¬ Below kids e x → (r'.Has x ↔ r.Has x)
  transform : ∀ x, ¬ Below kids e x → r'.transform x = r.transform x
  /-- a forest again -/
  forest : ∃ kids', Forest r' kids' ∧
    ∀ p, List.Sublist (kids' p) (kids p) ∧
      ∀ c, c ∈ kids' p ↔ c ∈ kids p ∧ ¬ Below kids e c
  parent : ∀ x, ¬ Below kids e x → r'.link .parent x = r.link .parent x

/-- **Deleting a subtree is exact.** -/
theorem destroyEntity_exact (h : Forest r kids) {e : Handle} (hv : r.Valid e) :
    ∃ r' order, Settles (fun fuel => destroyEntity fuel r e) (.ok r') ∧
      Deleted r r' kids e order := by
  obtain ⟨r', hrun, hdes, hforest⟩ := destroyEntity_settles h hv
  obtain ⟨N, hN⟩ := hrun
  obtain ⟨order, hrel⟩ := destroyEntity_releases (hN N (Nat.le_refl N))
  have hclosed : ∀ p c, Below kids e p → c ∈ kids p → Below kids e c := fun _ _ hp hc =>
    Relation.ReflTransGen.tail hp hc
  have hmem : ∀ p c, c ∈ prune kids (Below kids e) p ↔ c ∈ kids p ∧ ¬ Below kids e c := by
    intro p c
    rw [mem_prune]
    exact ⟨fun hc => ⟨hc.2.2, hc.2.1⟩, fun hc => ⟨fun hp => hc.2 (hclosed p c hp hc.1), hc.2, hc.1⟩⟩
  refine ⟨r', order, ⟨N, hN⟩, hrel, hrel.nodup, fun x => ?_, fun x hx => ?_, hdes.transform,
    ⟨_, hforest, fun p => ⟨prune_sublist, hmem p⟩⟩, fun x hx => ?_⟩
  · -- the handles that were valid and are not valid any more
    have hleft := hrel.valid x
    have hgone : r'.entities.Valid x ↔ ¬ Below kids e x ∧ r.entities.Valid x := hdes.valid x
    refine ⟨fun hx => ?_, fun hx => ?_⟩
    · by_contra hnot
      exact (hleft.mp (hgone.mpr ⟨hnot, hrel.valid_of_mem hx⟩)).1 hx
    · by_contra hnot
      exact (hgone.mp (hleft.mpr ⟨hnot, h.valid_below hv hx⟩)).1 hx
  · rw [hdes.has, and_iff_right hx]
  · refine Option.ext fun p => ?_
    rw [← hforest.parent, ← h.parent, hmem, and_iff_left hx]

/-- The parent of a child is deleted with the child. -/
theorem destroyEntity_exact_parent : ∃ r' order,
    Settles (fun fuel => destroyEntity fuel (parentAndChild (some 7) none) ⟨0, 0⟩) (.ok r') ∧
      Deleted (parentAndChild (some 7) none) r' (Function.update (fun _ => []) ⟨0, 0⟩ [⟨1, 0⟩])
        ⟨0, 0⟩ order :=
  destroyEntity_exact (forest_parentAndChild (some 7) none) (by decide)

end HierarchyWindow

/-! ### Clearing in any order -/

/-- A hierarchy some of whose entities are gone: components are on live entities
only, and the next sibling of an entity has a `Hierarchy` that links back. Nothing
is said about `parent`, `first` and `prev`, which may be stale. -/
structure Backlinked (r : Registry T) : Prop where
  live : ∀ e, r.Has e → r.Valid e
  next : ∀ x y, r.link .next x = some y → r.Has y ∧ r.link .prev y = some x

/-- Links to the next sibling are answered by links to the previous one. -/
theorem Forest.backlinked (h : Forest r kids) : Backlinked r := by
  refine ⟨h.live, fun x y hxy => ?_⟩
  obtain ⟨p, hx, hy⟩ := h.sibling_of_link (Or.inr hxy)
  refine ⟨h.has_child hy, ?_⟩
  obtain ⟨as, bs, hkids⟩ := List.append_of_mem hx
  have hseg := h.siblings p
  rw [hkids] at hseg
  have hnext := hseg.links.2
  rw [hxy] at hnext
  obtain ⟨cs, rfl⟩ : ∃ cs, bs = y :: cs := List.head?_eq_some_iff.mp hnext.symm
  rw [← List.singleton_append, ← List.append_assoc] at hseg
  rw [hseg.links.1, List.getLast?_concat]

namespace Backlinked

open Hierarchy

/-- If `e` goes, the entity before it has to be linked to the one after it; the other
next links, and the links back that answer them, have to stay. -/
theorem drop (h : Backlinked r) {e : Handle} (hent : r'.entities = r.entities)
    (hhas : ∀ x, r'.Has x ↔ r.Has x)
    (hnext : ∀ x y, x ≠ e → r'.link .next x = some y →
      (r.link .prev e = some x ∧ r.link .next e = some y ∧ r'.link .prev y = some x) ∨
      (r.link .prev e ≠ some x ∧ r.link .next x = some y))
    (hprev : ∀ y, r.link .next e ≠ some y → r'.link .prev y = r.link .prev y) :
    Backlinked (r'.drop e) := by
  refine ⟨fun x hx => ?_, fun x y hxy => ?_⟩
  · have hv := h.live x ((hhas x).mp ((has_drop ..).mp hx).2)
    rw [Registry.Valid, ← hent] at hv
    exact hv
  · rw [link_drop] at hxy
    split at hxy
    · cases hxy
    · next hxe =>
        rw [has_drop, hhas, link_drop]
        rcases hnext x y hxe hxy with ⟨hpe, hey, hback⟩ | ⟨hpe, hxy⟩
        · obtain ⟨hhasy, hprevy⟩ := h.next e y hey
          have hye : y ≠ e := by
            intro heq
            rw [heq, hpe] at hprevy
            exact hxe (Option.some.inj hprevy)
          rw [if_neg hye]
          exact ⟨⟨hye, hhasy⟩, hback⟩
        · obtain ⟨hhasy, hprevy⟩ := h.next x y hxy
          have hye : y ≠ e := fun heq => hpe (heq ▸ hprevy)
          have hey : r.link .next e ≠ some y := by
            intro hey
            rw [(h.next e y hey).2] at hprevy
            exact hxe (Option.some.inj hprevy).symm
          rw [if_neg hye, hprev y hey]
          exact ⟨⟨hye, hhasy⟩, hprevy⟩

/-- **One destruction**: `onDestroy` reads live entities only, and the next links
are answered again once the component is gone. -/
theorem onDestroy (h : Backlinked r) {e : Handle} (he : r.Has e) :
    ∃ r', Hierarchy.onDestroy r e = .ok r' ∧ r'.entities = r.entities ∧
      Backlinked (r'.drop e) := by
  obtain ⟨c, hc⟩ := Option.isSome_iff_exists.mp he
  have hget := get_of_some (h.live e he) hc
  have hcnext : r.link .next e = c.next := link_of_some hc .next
  have hcprev : r.link .prev e = c.prev := link_of_some hc .prev
  have hlive : ∀ x, c.next = some x → r.Valid x ∧ r.Has x := by
    intro x hx
    have hhas := (h.next e x (hcnext.trans hx)).1
    exact ⟨h.live x hhas, hhas⟩
  cases hprev : c.prev.filter (r.Valid ·) with
  | none =>
      -- nobody links to `e`: the entity before it is gone, or there was none
      have hnobody : ∀ x y, x ≠ e → r.link .next x = some y → r.link .prev e ≠ some x := by
        intro x y _ hxy hpe
        have hv := h.live x (has_of_link hxy)
        rw [← hcprev, hpe] at hprev
        simp [hv] at hprev
      have hsame : Backlinked (r.drop e) :=
        h.drop rfl (fun _ => Iff.rfl) (fun x y hxe hxy => Or.inr ⟨hnobody x y hxe hxy, hxy⟩)
          fun _ _ => rfl
      cases hparent : c.parent.filter (r.Valid ·) with
      | none =>
          refine ⟨r, ?_, rfl, hsame⟩
          simp only [Hierarchy.onDestroy, hget, Except.bind, hprev, hparent]
      | some p =>
          have hvp : r.Valid p := by simpa using (Option.filter_eq_some_iff.mp hparent).2
          cases hcp : r.hierarchy p with
          | none =>
              refine ⟨r, ?_, rfl, hsame⟩
              simp only [Hierarchy.onDestroy, hget, Except.bind, hprev, hparent,
                tryGet_of_valid hvp, hcp]
          | some cp =>
              have hhp : r.Has p := by simp [Has, hcp]
              obtain ⟨r', hrun, hent, -, hhas, hl⟩ := linkBack_eq
                (r := r.assign p .first c.next) c.next none fun x hx =>
                  ⟨(hlive x hx).1, (has_assign ..).mpr (hlive x hx).2⟩
              refine ⟨r', ?_, hent, h.drop hent (fun x => (hhas x).trans (has_assign ..)) ?_ ?_⟩
              · simp only [Hierarchy.onDestroy, hget, Except.bind, hprev, hparent,
                  tryGet_of_valid hvp, hcp, hrun]
              · intro x y hxe hxy
                rw [hl, if_neg (by simp), link_assign r hhp, if_neg (by simp)] at hxy
                exact Or.inr ⟨hnobody x y hxe hxy, hxy⟩
              · intro y hy
                rw [hl, if_neg fun hn => hy (hcnext.trans hn.1), link_assign r hhp,
                  if_neg (by simp)]
  | some q =>
      obtain ⟨hq, hvq⟩ := Option.filter_eq_some_iff.mp hprev
      have hvq : r.Valid q := by simpa using hvq
      -- `q` is linked to the entity after `e`, if `q` has a `Hierarchy`
      generalize hr₀ : (if (r.hierarchy q).isSome then r.assign q .next c.next else r) = r₀
      have hent₀ : r₀.entities = r.entities := by
        rw [← hr₀]
        split
        · rfl
        · rfl
      have hhas₀ : ∀ x, r₀.Has x ↔ r.Has x := by
        intro x
        rw [← hr₀]
        split
        · exact has_assign ..
        · exact Iff.rfl
      have hprev₀ : ∀ x, r₀.link .prev x = r.link .prev x := by
        intro x
        rw [← hr₀]
        split
        · next hhq => rw [link_assign r hhq, if_neg (by simp)]
        · rfl
      have hnext₀ : ∀ x y, r₀.link .next x = some y →
          (x = q ∧ c.next = some y) ∨ (x ≠ q ∧ r.link .next x = some y) := by
        intro x y hxy
        rw [← hr₀] at hxy
        split at hxy
        · next hhq =>
            rw [link_assign r hhq] at hxy
            by_cases hx : x = q
            · exact Or.inl ⟨hx, by simpa [hx] using hxy⟩
            · exact Or.inr ⟨hx, by simpa [hx] using hxy⟩
        · next hhq => exact Or.inr ⟨fun hx => hhq (hx ▸ has_of_link hxy), hxy⟩
      obtain ⟨r', hrun, hent, -, hhas, hl⟩ := linkBack_eq (r := r₀) c.next c.prev fun x hx => by
        rw [Registry.Valid, hent₀]
        exact ⟨(hlive x hx).1, (hhas₀ x).mpr (hlive x hx).2⟩
      refine ⟨r', ?_, hent.trans hent₀, h.drop (hent.trans hent₀)
        (fun x => (hhas x).trans (hhas₀ x)) ?_ ?_⟩
      · simp only [Hierarchy.onDestroy, hget, Except.bind, hprev, tryGet_of_valid hvq, hr₀, hrun]
      · intro x y hxe hxy
        rw [hl, if_neg (by simp)] at hxy
        rw [hcprev, hcnext, hq]
        rcases hnext₀ x y hxy with ⟨hxq, hy⟩ | ⟨hxq, hxy⟩
        · refine Or.inl ⟨by rw [hxq], hy, ?_⟩
          rw [hl, if_pos ⟨hy, rfl⟩, hq, hxq]
        · exact Or.inr ⟨fun hqx => hxq (Option.some.inj hqx).symm, hxy⟩
      · intro y hy
        rw [hl, if_neg fun hn => hy (hcnext.trans hn.1), hprev₀]

/-- `destroy` of a live entity. -/
theorem destroy (h : Backlinked r) {e : Handle} (hv : r.Valid e) :
    ∃ r', r.destroy Hierarchy.onDestroy e = .ok r' ∧ Backlinked r' := by
  have hrelease : ∀ {r₁ : Registry T} (hv₁ : r₁.Valid e), Backlinked r₁ → ¬ r₁.Has e →
      Backlinked (r₁.release e hv₁) := by
    intro r₁ hv₁ h₁ he
    refine ⟨fun x hx => ?_, h₁.next⟩
    exact (Entities.release_valid hv₁ x).mpr ⟨fun heq => he (heq ▸ hx), h₁.live x hx⟩
  by_cases he : r.Has e
  · obtain ⟨c, hc⟩ := Option.isSome_iff_exists.mp he
    obtain ⟨r₁, hrun, hent, h₁⟩ := h.onDestroy he
    have hv₁ : (r₁.drop e).Valid e := by
      rw [valid_drop, Registry.Valid, hent]
      exact hv
    refine ⟨(r₁.drop e).release e hv₁, ?_, hrelease hv₁ h₁ (by simp)⟩
    rw [Registry.destroy, tryGet_of_valid hv]
    simp only [Except.bind, if_pos (show (r.hierarchy e).isSome = true from he), Registry.remove,
      get_of_some hv hc, hrun, Except.map, dif_pos hv₁]
  · refine ⟨r.release e hv, ?_, hrelease hv h he⟩
    rw [Registry.destroy, tryGet_of_valid hv]
    simp only [Except.bind, Option.not_isSome_iff_eq_none.mp he, Option.isSome_none,
      Bool.false_eq_true, if_false, dif_pos hv]

/-- **A run of destructions** of live entities, in any order. -/
theorem destroyAll (h : Backlinked r) {order : List Handle} (hnodup : order.Nodup)
    (hlive : ∀ e ∈ order, r.Valid e) :
    ∃ r', order.foldlM (fun r e => r.destroy Hierarchy.onDestroy e) r = .ok r' ∧
      Backlinked r' ∧ Releases r.entities order r'.entities ∧
      ∀ x, (r'.transform x).isSome → x ∉ order ∧ (r.transform x).isSome := by
  induction order generalizing r with
  | nil => exact ⟨r, rfl, h, .nil _, fun x hx => ⟨List.not_mem_nil, hx⟩⟩
  | cons e es ih =>
      obtain ⟨hnot, hnodup⟩ := List.nodup_cons.mp hnodup
      obtain ⟨r₁, hrun, h₁⟩ := h.destroy (hlive e (by simp))
      obtain ⟨hrel, htr⟩ := destroy_releases hrun
      obtain ⟨r', hrest, h', hrel', htr'⟩ := ih h₁ hnodup fun x hx => by
        refine (hrel.valid x).mpr ⟨?_, hlive x (List.mem_cons_of_mem e hx)⟩
        exact fun hmem => hnot (List.mem_singleton.mp hmem ▸ hx)
      refine ⟨r', ?_, h', hrel.append hrel', fun x hx => ?_⟩
      · rw [List.foldlM_cons, hrun]
        exact hrest
      · obtain ⟨hxes, hx⟩ := htr' x hx
        rw [htr] at hx
        by_cases hxe : x = e
        · simp [hxe] at hx
        · rw [Function.update_of_ne hxe] at hx
          exact ⟨by simp [hxe, hxes], hx⟩

end Backlinked

/-- **Clearing is safe in every order**: whatever the order in which the entities
of a well-formed hierarchy are destroyed, no call of `onDestroy` asks the registry
for an entity that is gone. -/
theorem clearing_safe (h : Forest r kids) {order : List Handle} (hnodup : order.Nodup)
    (hall : ∀ x, x ∈ order ↔ r.Valid x) :
    ∃ r', order.foldlM (fun r e => Entity.destroy r e) r = .ok r' ∧
      Releases r.entities order r'.entities ∧ ∀ x, ¬ r'.Valid x := by
  obtain ⟨r', hrun, -, hrel, -⟩ := h.backlinked.destroyAll hnodup fun x hx => (hall x).mp hx
  refine ⟨r', hrun, hrel, fun x hx => ?_⟩
  obtain ⟨hnot, hv⟩ := (hrel.valid x).mp hx
  exact hnot ((hall x).mpr hv)

/-- A parent is destroyed before its child. -/
theorem clearing_safe_parent_first : ∃ r',
    [⟨0, 0⟩, ⟨1, 0⟩].foldlM (fun r e => Entity.destroy r e) (parentAndChild (some 7) none) =
        .ok r' ∧
      Releases (parentAndChild (some 7) none).entities [⟨0, 0⟩, ⟨1, 0⟩] r'.entities ∧
      ∀ x, ¬ r'.Valid x := by
  refine clearing_safe (forest_parentAndChild (some 7) none) (by decide) fun x => ?_
  rw [List.mem_cons, List.mem_singleton]
  exact (valid_twoEntities (some 7) none x).symm

end Maple
