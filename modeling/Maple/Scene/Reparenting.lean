import Maple.Scene.HierarchySound

/-!
# Maple.Scene.Reparenting

**Three ways to move an entity below a new parent.** `Entity::setParent` and the
drop on a node in the editor both guard `reparent`. Their guards differ in one
comparison, so that `setParent` to the current parent moves the entity to the end
of the child list where the drop does nothing. The third way, to replace the
`Hierarchy` of the entity, unlinks from the new position instead of the old one
and never gives a well-formed hierarchy.
-/

namespace Maple

open Lib Registry

variable {T : Type} {r : Registry T} {kids : Handle → List Handle}

/-- The links of a registry spell out no more than one forest. -/
theorem Forest.kids_unique {kids' : Handle → List Handle} (h : Forest r kids)
    (h' : Forest r kids') : kids = kids' := by
  funext p
  by_cases hp : r.Has p
  · have hv := h.live p hp
    exact Except.ok.inj
      ((Entity.getChildren_settles h hv).unique (Entity.getChildren_settles h' hv))
  · rw [h.kids_of_not_has hp, h'.kids_of_not_has hp]

/-- The child of `p` without a next sibling is the last one. -/
theorem Forest.attach_eq_iff (h : Forest r kids) {e p : Handle} (he : e ∈ kids p) :
    attach kids e p = kids ↔ r.link .next e = none := by
  obtain ⟨as, bs, hkids⟩ := List.append_of_mem he
  have hseg := h.siblings p
  rw [hkids] at hseg
  have hnot : e ∉ as := by
    have hnodup := h.shape.nodup p
    rw [hkids] at hnodup
    exact fun hmem => (List.nodup_append.mp hnodup).2.2 e hmem e (by simp) rfl
  have hself : attach kids e p p = as ++ bs ++ [e] := by
    rw [attach, Function.update_self, detach, hkids, List.erase_append_right _ hnot,
      List.erase_cons_head]
  rw [hseg.links.2, List.head?_eq_none_iff]
  refine ⟨fun heq => ?_, fun hbs => funext fun q => ?_⟩
  · rw [heq, hkids, List.append_assoc, List.append_cancel_left_eq] at hself
    cases bs with
    | nil => rfl
    | cons b bs =>
        -- `e` would be in the list twice
        have hb : e = b := by
          have hhead := congrArg List.head? hself
          simpa using hhead
        have hnodup := h.shape.nodup p
        rw [hkids, hb] at hnodup
        simp [List.nodup_append] at hnodup
  · by_cases hq : q = p
    · rw [hq, hself, hkids, hbs, List.append_nil]
    · rw [attach, Function.update_of_ne hq, detach, List.erase_of_not_mem]
      exact fun hmem => hq (h.shape.unique q p e hmem he)

/-! ### `setParent` and the drop on a node -/

/-- `setParent` of `e` to `p` and the drop of `e` on `p` both end, in the same
forest, and change nothing if `p` is the parent already. -/
def Agree (r : Registry T) (kids : Handle → List Handle) (e p : Handle) : Prop :=
  ∃ r₁ r₂ kids', Settles (fun fuel => Entity.setParent fuel r e p) (.ok r₁) ∧
    Settles (fun fuel => HierarchyWindow.dropOnNode fuel r e p) (.ok r₂) ∧
    Forest r₁ kids' ∧ Forest r₂ kids' ∧ (r.link .parent e = some p → kids' = kids)

/-- If `e` is not a child of `p`, or its last child. -/
theorem agree_of_last (h : Forest r kids) {e p : Handle} (hve : r.Valid e) (hvp : r.Valid p)
    (hlast : r.link .parent e = some p → r.link .next e = none) : Agree r kids e p := by
  obtain ⟨r₁, hset, -, hset_same, hset_moved⟩ := Entity.setParent_settles h hve hvp
  obtain ⟨r₂, hdrop, -, hdrop_same, hdrop_moved⟩ := HierarchyWindow.dropOnNode_settles h hve hvp
  by_cases hbelow : Below kids e p
  · obtain rfl := hset_same hbelow
    obtain rfl := hdrop_same fun hn => hn.1 hbelow
    exact ⟨_, _, kids, hset, hdrop, h, h, fun _ => rfl⟩
  · by_cases hmem : e ∈ kids p
    · have hpar := (h.parent p e).mp hmem
      have hkids := (h.attach_eq_iff hmem).mpr (hlast hpar)
      obtain rfl := hdrop_same fun hn => hn.2 hmem
      have h₁ := hset_moved hbelow
      rw [hkids] at h₁
      exact ⟨_, _, kids, hset, hdrop, h₁, h, fun _ => rfl⟩
    · exact ⟨r₁, r₂, _, hset, hdrop, hset_moved hbelow, hdrop_moved ⟨hbelow, hmem⟩,
        fun hpar => absurd ((h.parent p e).mpr hpar) hmem⟩

/-- `setParent` to the current parent moves the entity to the end. -/
theorem last_of_agree (h : Forest r kids) {e p : Handle} (hve : r.Valid e) (hvp : r.Valid p)
    (hagree : Agree r kids e p) (hpar : r.link .parent e = some p) : r.link .next e = none := by
  have hmem := (h.parent p e).mpr hpar
  obtain ⟨r₁, hset, -, -, hset_moved⟩ := Entity.setParent_settles h hve hvp
  obtain ⟨r₁', r₂, kids', hset', -, h₁, -, hkids⟩ := hagree
  obtain rfl := Except.ok.inj (hset.unique hset')
  refine (h.attach_eq_iff hmem).mp ?_
  rw [(hset_moved (h.shape.not_below_parent hmem)).kids_unique h₁, hkids hpar]

/-- **When the two entry points agree**: unless the entity is a child of the new
parent already, with siblings after it. -/
theorem setParent_agrees_iff (h : Forest r kids) {e p : Handle} (hve : r.Valid e)
    (hvp : r.Valid p) :
    Agree r kids e p ↔ (r.link .parent e = some p → r.link .next e = none) :=
  ⟨last_of_agree h hve hvp, agree_of_last h hve hvp⟩

namespace Registry

/-- `parentAndChild` with a third entity. -/
def threeEntities : Registry T :=
  { parentAndChild none none with entities := ⟨[0, 0, 0], [], List.nodup_nil, by simp⟩ }

/-- Three entities; the second and the third one are the children of the first
one. -/
def parentAndTwo : Registry T :=
  (threeEntities.put ⟨1, 0⟩ { parent := some ⟨0, 0⟩, next := some ⟨2, 0⟩ }).put ⟨2, 0⟩
    { parent := some ⟨0, 0⟩, prev := some ⟨1, 0⟩ }

end Registry

theorem forest_threeEntities :
    Forest (threeEntities : Registry T) (Function.update (fun _ => []) ⟨0, 0⟩ [⟨1, 0⟩]) := by
  have h := forest_parentAndChild (T := T) none none
  have hvalid : ∀ x, (parentAndChild none none : Registry T).Valid x →
      (threeEntities : Registry T).Valid x := by
    intro x hx
    rcases (valid_twoEntities (T := T) none none x).mp hx with heq | heq
    · exact heq ▸ ⟨rfl, List.not_mem_nil⟩
    · exact heq ▸ ⟨rfl, List.not_mem_nil⟩
  exact h.of_links (fun _ => rfl) (fun x hx => hvalid x (h.live x hx))
    fun x hx => hvalid x (h.transform_live x hx)

theorem forest_parentAndTwo :
    Forest (parentAndTwo : Registry T)
      (Function.update (fun _ => []) ⟨0, 0⟩ [⟨1, 0⟩, ⟨2, 0⟩]) := by
  have h := (forest_threeEntities (T := T)).put (e := ⟨2, 0⟩) ⟨rfl, List.not_mem_nil⟩
    (by simp [Has, threeEntities, parentAndChild, put, twoEntities])
  have hkids : Function.update (Function.update (fun _ => []) (⟨0, 0⟩ : Handle)
      [(⟨1, 0⟩ : Handle)]) ⟨0, 0⟩ ([⟨1, 0⟩] ++ [⟨2, 0⟩]) =
      Function.update (fun _ => []) ⟨0, 0⟩ [⟨1, 0⟩, ⟨2, 0⟩] := Function.update_idem ..
  rw [← hkids]
  refine Hierarchy.Appended.forest (e := ⟨2, 0⟩) (p := ⟨0, 0⟩) h (by simp; rfl) ?_
    ⟨rfl, rfl, fun x => ?_, fun x => ?_, fun x => ?_, fun x => ?_, fun x => ?_⟩
  · exact fun hbelow => absurd (hbelow.eq_of_leaf rfl) (by decide)
  · rw [parentAndTwo, has_put, has_put, has_put]
    refine or_congr_right ⟨fun hx => ?_, Or.inr⟩
    rcases hx with heq | hx
    · exact heq ▸ rfl
    · exact hx
  all_goals
    simp only [parentAndTwo, link_put]
    by_cases hx₂ : x = ⟨2, 0⟩
    · subst hx₂
      rfl
    · by_cases hx₁ : x = ⟨1, 0⟩
      · subst hx₁
        rfl
      · by_cases hx₀ : x = ⟨0, 0⟩
        · subst hx₀
          rfl
        · simp [hx₀, hx₁, hx₂, eq_comm]

/-- The last of two children may be dropped on its parent, or set to it. -/
theorem setParent_agrees_last_child :
    Agree (parentAndTwo : Registry Nat) (Function.update (fun _ => []) ⟨0, 0⟩ [⟨1, 0⟩, ⟨2, 0⟩])
      ⟨2, 0⟩ ⟨0, 0⟩ :=
  (setParent_agrees_iff forest_parentAndTwo (by decide) (by decide)).mpr fun _ => rfl

/-- The first of two children is set to the parent it has: it changes places with
its sibling. -/
theorem setParent_disagrees :
    Forest (parentAndTwo : Registry Nat) (Function.update (fun _ => []) ⟨0, 0⟩ [⟨1, 0⟩, ⟨2, 0⟩]) ∧
      (parentAndTwo : Registry Nat).Valid ⟨1, 0⟩ ∧ (parentAndTwo : Registry Nat).Valid ⟨0, 0⟩ ∧
      ¬ Agree (parentAndTwo : Registry Nat)
        (Function.update (fun _ => []) ⟨0, 0⟩ [⟨1, 0⟩, ⟨2, 0⟩]) ⟨1, 0⟩ ⟨0, 0⟩ := by
  refine ⟨forest_parentAndTwo, by decide, by decide, fun hagree => ?_⟩
  exact absurd (last_of_agree forest_parentAndTwo (by decide) (by decide) hagree rfl) (by decide)

/-! ### Replacing the component -/

/-- What it means that `e` was moved below `p`: a forest in which `e` is a child of
`p` and of nobody else, and all others keep their parents. -/
def Moved (r r' : Registry T) (e p : Handle) : Prop :=
  ∃ kids', Forest r' kids' ∧ e ∈ kids' p ∧ (∀ q, q ≠ p → e ∉ kids' q) ∧
    ∀ x, x ≠ e → r'.link .parent x = r.link .parent x

/-- `onUpdate` reads the new value, which has no siblings, and takes it for the only
child of `p`: afterwards `p` has no first child. -/
theorem addOrReplaceComponent_eq (h : Forest r kids) {e p : Handle} (he : r.Has e)
    (hvp : r.Valid p) (hp : ¬ Below kids e p) (fuel : Nat) :
    ∃ r', Entity.addOrReplaceComponent fuel r e p = .ok r' ∧ r'.link .first p = none := by
  have hve := h.live e he
  have hpe : p ≠ e := fun heq => hp (heq ▸ Relation.ReflTransGen.refl)
  obtain ⟨c, hc⟩ := Option.isSome_iff_exists.mp he
  have hcall : Entity.addOrReplaceComponent fuel r e p =
      Hierarchy.onUpdate (r.put e { parent := some p }) e := by
    rw [Entity.addOrReplaceComponent, emplaceOrReplace, tryGet_of_valid hve, hc]
    simp only [Except.bind, replace, get_of_some hve hc]
  have hget : (r.put e { parent := some p }).get e = .ok { parent := some p } :=
    get_of_some hve (by simp [put])
  have hcp : (r.put e { parent := some p }).hierarchy p = r.hierarchy p :=
    Function.update_of_ne hpe ..
  have htry : (r.put e { parent := some p }).tryGet p = .ok (r.hierarchy p) := by
    rw [tryGet_of_valid (show (r.put e _).Valid p from hvp), hcp]
  cases hhier : r.hierarchy p with
  | none =>
      refine ⟨r.put e { parent := some p }, ?_, ?_⟩
      · simp only [hcall, Hierarchy.onUpdate, hget, Except.bind, htry, hhier]
      · rw [link, hcp, hhier]
        rfl
  | some cp =>
      refine ⟨(r.put e { parent := some p }).assign p .first none, ?_, ?_⟩
      · simp only [hcall, Hierarchy.onUpdate, hget, Except.bind, htry, hhier, Hierarchy.linkBack]
      · rw [link_assign _ ((has_put ..).mpr (Or.inr (by simp [Has, hhier]))),
          if_pos ⟨rfl, rfl⟩]

/-- A parent without a first child has no children. -/
theorem Moved.first_ne {r' : Registry T} {e p : Handle} (h : Moved r r' e p) :
    r'.link .first p ≠ none := by
  obtain ⟨kids', hforest, hmem, -, -⟩ := h
  intro hfirst
  rw [hforest.first, List.head?_eq_none_iff] at hfirst
  exact absurd hmem (by simp [hfirst])

/-- **Replacing a `Hierarchy` never moves the entity**, whatever the forest, the
entity and its new parent are. -/
theorem replace_never_moves (h : Forest r kids) {e p : Handle} (he : r.Has e) (hvp : r.Valid p)
    (hp : ¬ Below kids e p) :
    ∃ r', Settles (fun fuel => Entity.addOrReplaceComponent fuel r e p) (.ok r') ∧
      ¬ Moved r r' e p := by
  obtain ⟨r', hrun, hfirst⟩ := addOrReplaceComponent_eq h he hvp hp 0
  refine ⟨r', Settles.of_forall fun fuel => ?_, fun hmoved => hmoved.first_ne hfirst⟩
  -- the component is there, so `onConstruct` and its fuel do not matter
  obtain ⟨c, hc⟩ := Option.isSome_iff_exists.mp he
  rw [← hrun, Entity.addOrReplaceComponent, Entity.addOrReplaceComponent, emplaceOrReplace,
    emplaceOrReplace, tryGet_of_valid (h.live e he), hc]
  rfl

/-- A child is replaced below the parent it has. -/
theorem replace_never_moves_child : ∃ r',
    Settles (fun fuel => Entity.addOrReplaceComponent fuel (parentAndChild (some 7) none)
      ⟨1, 0⟩ ⟨0, 0⟩) (.ok r') ∧ ¬ Moved (parentAndChild (some 7) none) r' ⟨1, 0⟩ ⟨0, 0⟩ := by
  refine replace_never_moves (forest_parentAndChild (some 7) none) rfl (by decide) ?_
  exact (forest_parentAndChild (some 7) none).shape.not_below_parent (by simp)

/-- The second of two children is given the `Hierarchy` of a child of the first one,
which does not list it and still has it as its next sibling. -/
theorem replace_leaves_sibling : ∃ r',
    Forest (parentAndTwo : Registry Nat) (Function.update (fun _ => []) ⟨0, 0⟩ [⟨1, 0⟩, ⟨2, 0⟩]) ∧
      (parentAndTwo : Registry Nat).Has ⟨2, 0⟩ ∧ (parentAndTwo : Registry Nat).Valid ⟨1, 0⟩ ∧
      ¬ Below (Function.update (fun _ => []) (⟨0, 0⟩ : Handle) [⟨1, 0⟩, ⟨2, 0⟩]) ⟨2, 0⟩ ⟨1, 0⟩ ∧
      Entity.addOrReplaceComponent 0 (parentAndTwo : Registry Nat) ⟨2, 0⟩ ⟨1, 0⟩ = .ok r' ∧
      r'.link .next ⟨1, 0⟩ = some ⟨2, 0⟩ ∧ r'.link .parent ⟨2, 0⟩ = some ⟨1, 0⟩ ∧
      ¬ Moved parentAndTwo r' ⟨2, 0⟩ ⟨1, 0⟩ := by
  have hbelow : ¬ Below (Function.update (fun _ => []) (⟨0, 0⟩ : Handle) [⟨1, 0⟩, ⟨2, 0⟩])
      ⟨2, 0⟩ ⟨1, 0⟩ :=
    fun hbelow => absurd (hbelow.eq_of_leaf rfl) (by decide)
  exact ⟨_, forest_parentAndTwo, rfl, by decide, hbelow, rfl, rfl, rfl,
    fun hmoved => hmoved.first_ne rfl⟩

end Maple
