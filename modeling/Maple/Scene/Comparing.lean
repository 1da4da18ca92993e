import Maple.Scene.HierarchyRuns

/-!
# Maple.Scene.Comparing

**`Hierarchy::compare` finds the parent only.** It is meant to find every ancestor, but from
the second component on it looks for the entity that the component belongs to, and in a forest
no entity is its own parent or its own sibling (`compare_self`). So it always ends, and it is
right unless it is asked for an ancestor above the parent.
-/

namespace Maple

open Lib Registry

variable {T : Type} {r : Registry T} {kids : Handle → List Handle}

namespace Forest

/-- No entity is its own sibling. -/
theorem prev_ne_self (h : Forest r kids) (e : Handle) : r.link .prev e ≠ some e := by
  intro hself
  obtain ⟨p, hmem, -⟩ := h.sibling_of_link (Or.inl hself)
  obtain ⟨before, after, hkids⟩ := List.append_of_mem hmem
  have hprev := (hkids ▸ h.siblings p).links.1
  have hbefore : e ∈ before := List.mem_of_getLast? (hprev.symm.trans hself)
  have hnodup := h.shape.nodup p
  rw [hkids] at hnodup
  exact (List.nodup_append.mp hnodup).2.2 e hbefore e (List.mem_cons_self ..) rfl

/-- The parent of an entity has a `Hierarchy` too. -/
theorem get_parent (h : Forest r kids) {e p : Handle} (hp : r.link .parent e = some p) :
    e ∈ kids p ∧ ∃ cp, r.hierarchy p = some cp ∧ r.get p = .ok cp := by
  have hmem := (h.parent p e).mpr hp
  obtain ⟨cp, hcp⟩ := Option.isSome_iff_exists.mp (h.has_parent hmem)
  exact ⟨hmem, cp, hcp, get_of_some (h.valid_parent hmem) hcp⟩

end Forest

namespace Hierarchy

/-- The recursive call. -/
theorem compare_parent {fuel : Nat} {c cp crhs : Hierarchy} {rhs p : Handle}
    (hmissed : ¬ (some rhs = c.parent ∨ some rhs = c.prev)) (hparent : c.parent = some p)
    (hp : r.get p = .ok cp) (hrhs : r.get rhs = .ok crhs) :
    compare (fuel + 1) r c (some rhs) = compare fuel r cp (some p) := by
  rw [compare, if_neg hmissed, hparent]
  simp only [hp, hrhs, Except.bind]

/-- The turns after the first one look for the entity itself and climb to the root in vain. -/
theorem compare_self (h : Forest r kids) {e : Handle} {c : Hierarchy}
    (he : r.hierarchy e = some c) :
    Settles (fun fuel => compare fuel r c (some e)) (.ok false) := by
  obtain ⟨depth, bound, hdepth⟩ := h.shape.layered
  -- by induction on the depth of `e`: the parent is less deep
  generalize hn : depth e = n
  induction n using Nat.strongRecOn generalizing e c with
  | _ n ih =>
      have hhas : r.Has e := Option.isSome_iff_exists.mpr ⟨c, he⟩
      have hparent : r.link .parent e = c.parent := link_of_some he .parent
      have hprev : some e ≠ c.prev := by
        intro hself
        exact h.prev_ne_self e ((link_of_some he .prev).trans hself.symm)
      have hself : some e ≠ c.parent := by
        intro hself
        exact h.not_ancestor_self e (.single (hparent.trans hself.symm))
      cases hcparent : c.parent with
      | none =>
          refine .of_succ (.of_forall fun fuel => ?_)
          rw [compare, if_neg (not_or.mpr ⟨hself, hprev⟩), hcparent]
      | some p =>
          obtain ⟨hmem, cp, hcp, hget⟩ := h.get_parent (hparent.trans hcparent)
          refine .of_succ ((ih (depth p) (hn ▸ (hdepth p e hmem).1) hcp rfl).congr fun fuel => ?_)
          exact compare_parent (not_or.mpr ⟨hself, hprev⟩) hcparent hget
            (get_of_some (h.live e hhas) he)

/-- **`compare`** ends, and finds the parent of the entity. -/
theorem compare_settles (h : Forest r kids) {e rhs : Handle} {c : Hierarchy}
    (he : r.hierarchy e = some c) (hrhs : r.Has rhs) (hprev : c.prev ≠ some rhs) :
    Settles (fun fuel => compare fuel r c (some rhs)) (.ok (decide (c.parent = some rhs))) := by
  have hparent : r.link .parent e = c.parent := link_of_some he .parent
  by_cases hfound : c.parent = some rhs
  · rw [decide_eq_true hfound]
    refine .of_succ (.of_forall fun fuel => ?_)
    rw [compare, if_pos (Or.inl hfound.symm)]
  · rw [decide_eq_false hfound]
    have hmissed : ¬ (some rhs = c.parent ∨ some rhs = c.prev) :=
      not_or.mpr ⟨Ne.symm hfound, Ne.symm hprev⟩
    cases hcparent : c.parent with
    | none =>
        refine .of_succ (.of_forall fun fuel => ?_)
        rw [compare, if_neg hmissed, hcparent]
    | some p =>
        obtain ⟨-, cp, hcp, hget⟩ := h.get_parent (hparent.trans hcparent)
        obtain ⟨crhs, hcrhs⟩ := Option.isSome_iff_exists.mp hrhs
        refine .of_succ ((compare_self h hcp).congr fun fuel => ?_)
        exact compare_parent hmissed hcparent hget (get_of_some (h.live rhs hrhs) hcrhs)

/-- **Ancestor comparison.** In a well-formed hierarchy `compare` ends and says whether `rhs`
is a proper ancestor of the entity, if and only if `rhs` is not one of the parent of the
entity. -/
theorem compare_iff (h : Forest r kids) {e rhs : Handle} {c : Hierarchy}
    (he : r.hierarchy e = some c) (hrhs : r.Has rhs) (hprev : c.prev ≠ some rhs) :
    (∃ b, Settles (fun fuel => compare fuel r c (some rhs)) (.ok b) ∧
      (b = true ↔ Relation.TransGen (IsParent r) e rhs)) ↔
    ∀ p, IsParent r e p → ¬ Relation.TransGen (IsParent r) p rhs := by
  have hrun := compare_settles h he hrhs hprev
  have hparent : IsParent r e rhs ↔ c.parent = some rhs := by
    rw [IsParent, link_of_some he]
    rfl
  constructor
  · intro hcorrect p hp habove
    obtain ⟨b, hsettles, hb⟩ := hcorrect
    obtain rfl := Except.ok.inj (hsettles.unique hrun)
    have hfound := hparent.mpr (of_decide_eq_true (hb.mpr (.head hp habove)))
    obtain rfl := Option.some.inj ((show r.link .parent e = _ from hp).symm.trans hfound)
    exact h.not_ancestor_self _ habove
  · intro hnone
    refine ⟨_, hrun, ?_⟩
    rw [decide_eq_true_iff, ← hparent]
    constructor
    · exact .single
    · intro habove
      rcases Relation.TransGen.head'_iff.mp habove with ⟨p, hp, hrest⟩
      cases Relation.reflTransGen_iff_eq_or_transGen.mp hrest with
      | inl heq => exact heq ▸ hp
      | inr habove => exact absurd habove (hnone p hp)

/-- The parent of an entity whose parent is a root. -/
theorem compare_iff_parent : ∃ b,
    Settles (fun fuel => compare fuel (parentAndChild (none : Option Nat) none)
      { parent := some ⟨0, 0⟩ } (some ⟨0, 0⟩)) (.ok b) ∧
    (b = true ↔ Relation.TransGen (IsParent (parentAndChild (none : Option Nat) none))
      ⟨1, 0⟩ ⟨0, 0⟩) := by
  have hchild : (parentAndChild (none : Option Nat) none).hierarchy ⟨1, 0⟩ =
      some { parent := some ⟨0, 0⟩ } := rfl
  have hparent : (parentAndChild (none : Option Nat) none).Has ⟨0, 0⟩ := rfl
  refine (compare_iff (forest_parentAndChild none none) hchild hparent (by decide)).mpr ?_
  intro p hp habove
  obtain rfl : (⟨0, 0⟩ : Handle) = p := Option.some.inj hp
  obtain ⟨q, hq, -⟩ := Relation.TransGen.head'_iff.mp habove
  exact nomatch (show none = some q from hq)

/-- Three entities are created, and each one becomes the child of the one before it. -/
theorem not_compare_grandparent : ∃ (r : Registry Nat) (kids : Handle → List Handle),
    Forest r kids ∧ ∃ c, r.hierarchy ⟨2, 0⟩ = some c ∧ r.Has ⟨0, 0⟩ ∧ c.prev ≠ some ⟨0, 0⟩ ∧
      Relation.TransGen (IsParent r) ⟨2, 0⟩ ⟨0, 0⟩ ∧
      Settles (fun fuel => compare fuel r c (some ⟨0, 0⟩)) (.ok false) := by
  have hrun : Run SafeStep (Registry.empty : Registry Nat)
      ([] ++ [(.create none, none)] ++ [(.create none, none)] ++ [(.create none, none)] ++
        [(.setParent ⟨1, 0⟩ ⟨0, 0⟩, some (⟨1, 0⟩, ⟨0, 0⟩))] ++
        [(.setParent ⟨2, 0⟩ ⟨1, 0⟩, some (⟨2, 0⟩, ⟨1, 0⟩))]) _ :=
    .snoc (.snoc (.snoc (.snoc (.snoc (.nil _)
      ⟨trivial, ⟨_, rfl⟩, Settles.of_forall fun _ => rfl, Settles.of_forall fun _ => rfl⟩)
      ⟨trivial, ⟨_, rfl⟩, Settles.of_forall fun _ => rfl, Settles.of_forall fun _ => rfl⟩)
      ⟨trivial, ⟨_, rfl⟩, Settles.of_forall fun _ => rfl, Settles.of_forall fun _ => rfl⟩)
      ⟨trivial, ⟨by decide, by decide⟩, Settles.of_forall fun _ => rfl,
        Settles.of_add 3 fun _ => rfl⟩)
      ⟨trivial, ⟨by decide, by decide⟩, Settles.of_add 3 fun _ => rfl,
        Settles.of_add 3 fun _ => rfl⟩
  obtain ⟨kids, h, -⟩ := ordered_of_run hrun
  refine ⟨_, kids, h, _, rfl, rfl, by decide, ?_, .of_add 3 fun _ => rfl⟩
  exact .head (b := (⟨1, 0⟩ : Handle)) (show _ = _ from rfl) (.single (show _ = _ from rfl))

end Hierarchy

end Maple
