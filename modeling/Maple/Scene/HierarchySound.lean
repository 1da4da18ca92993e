import Maple.Scene.Forest

/-!
# Maple.Scene.HierarchySound

**The operations of the hierarchy are operations on forests.** On a well-formed
hierarchy each operation ends without a fault, and its result is the forest that
the operation is meant to give: `reparent` to null is `detach`, `setParent` and
the drop on a node are `attach` or do nothing, `destroyEntity` is `prune`, and
the readers read off the forest.
-/

namespace Maple

open Lib Registry

variable {T : Type} {r : Registry T} {kids : Handle → List Handle}

/-- Identifiers and the other components are not touched. -/
structure SameEntities (r r' : Registry T) : Prop where
  entities : r'.entities = r.entities
  transform : r'.transform = r.transform

theorem SameEntities.valid {r' : Registry T} (h : SameEntities r r') (x : Handle) :
    r'.Valid x ↔ r.Valid x := by
  rw [Valid, Valid, h.entities]

namespace Hierarchy

/-! ### Moving an entity -/

/-- `onConstruct` below a parent without a `Hierarchy` first gives it one. -/
theorem onConstruct_new_parent {e p : Handle} (hv : r.Valid e) (he : r.Has e) (hvp : r.Valid p)
    (hp : ¬ r.Has p) (fuel : Nat) :
    onConstruct (fuel + 2) (r.assign e .parent (some p)) e =
      onConstruct (fuel + 2) ((r.put p {}).assign e .parent (some p)) e := by
  have hne : p ≠ e := fun heq => hp (heq ▸ he)
  obtain ⟨c, hc⟩ := Option.isSome_iff_exists.mp he
  have hnone : r.hierarchy p = none := Option.not_isSome_iff_eq_none.mp hp
  have hswap : (r.assign e .parent (some p)).put p {} = (r.put p {}).assign e .parent (some p) := by
    simp only [assign, put, Function.update_of_ne (Ne.symm hne), Function.update_comm hne]
  have hget : (r.assign e .parent (some p)).get e = .ok (c.set (some p) .parent) :=
    get_of_some hv (by simp [assign, hc])
  have hget' : ((r.put p {}).assign e .parent (some p)).get e = .ok (c.set (some p) .parent) :=
    get_of_some hv (by simp [assign, put, hc, Function.update_of_ne (Ne.symm hne)])
  have hgoe : (r.assign e .parent (some p)).getOrEmplace (onConstruct (fuel + 1)) p =
      .ok ((r.put p {}).assign e .parent (some p)) := by
    have htry : (r.assign e .parent (some p)).tryGet p = .ok none := by
      rw [tryGet_of_valid (show (r.assign e .parent (some p)).Valid p from hvp)]
      simp [assign, Function.update_of_ne hne, hnone]
    have hgetp : ((r.put p {}).assign e .parent (some p)).get p = .ok {} :=
      get_of_some hvp (by simp [assign, put, Function.update_of_ne hne])
    simp only [getOrEmplace, emplace, htry, Except.bind, hswap, onConstruct, hgetp]
  have hgoe' : ((r.put p {}).assign e .parent (some p)).getOrEmplace (onConstruct (fuel + 1)) p =
      .ok ((r.put p {}).assign e .parent (some p)) := by
    rw [getOrEmplace, tryGet_of_valid (show ((r.put p {}).assign e .parent (some p)).Valid p
      from hvp)]
    simp [assign, put, Function.update_of_ne hne, Except.bind]
  rw [onConstruct, hget, onConstruct, hget']
  simp only [Except.bind, set, hgoe, hgoe']

/-- **Attaching a root.** -/
theorem attachRoot_settles (h : Forest r kids) {e p : Handle} (he : r.Has e)
    (hroot : r.link .parent e = none) (hvp : r.Valid p) (hp : ¬ Below kids e p) :
    ∃ r', Settles (fun fuel => onConstruct fuel (r.assign e .parent (some p)) e) (.ok r') ∧
      SameEntities r r' ∧ Forest r' (Function.update kids p (kids p ++ [e])) := by
  by_cases hhas : r.Has p
  · obtain ⟨r', hrun, ha⟩ := onConstruct_settles h he hroot hhas
    exact ⟨r', hrun, ⟨ha.entities, ha.transform⟩, ha.forest h hroot hp⟩
  · have hne : e ≠ p := fun heq => hhas (heq ▸ he)
    have hput := h.put hvp hhas
    have hroot' : (r.put p {}).link .parent e = none := by
      rw [link_put, if_neg hne, hroot]
    obtain ⟨r', hrun, ha⟩ := onConstruct_settles hput ((has_put ..).mpr (Or.inr he)) hroot'
      ((has_put ..).mpr (Or.inl rfl))
    refine ⟨r', Settles.of_succ (Settles.of_succ ?_), ⟨ha.entities, ha.transform⟩,
      ha.forest hput hroot' hp⟩
    obtain ⟨N, hN⟩ := hrun
    refine ⟨N, fun n hn => ?_⟩
    show onConstruct (n + 2) (r.assign e .parent (some p)) e = .ok r'
    rw [onConstruct_new_parent (h.live e he) he hvp hhas]
    exact hN (n + 2) (by omega)

/-- **`reparent` to null** makes `e` a root. -/
theorem reparent_null (h : Forest r kids) {e : Handle} (he : r.Has e) (fuel : Nat) :
    ∃ r', reparent fuel r e none = .ok r' ∧ SameEntities r r' ∧ (∀ x, r'.Has x ↔ r.Has x) ∧
      Forest r' (detach kids e) := by
  obtain ⟨r₁, hrun, hu⟩ := onDestroy_unlinks h he
  refine ⟨((r₁.assign e .parent none).assign e .next none).assign e .prev none, ?_,
    ⟨hu.entities, hu.transform⟩, fun x => ?_, hu.forest h he⟩
  · simp only [reparent, hrun, Except.bind]
  · simp only [has_assign, hu.has]

/-- **`reparent`** to an entity outside the subtree. -/
theorem reparent_settles (h : Forest r kids) {e p : Handle} (he : r.Has e) (hvp : r.Valid p)
    (hp : ¬ Below kids e p) :
    ∃ r', Settles (fun fuel => reparent fuel r e (some p)) (.ok r') ∧ SameEntities r r' ∧
      Forest r' (attach kids e p) := by
  obtain ⟨r₁, hnull, hsame, hhas, h₁⟩ := reparent_null h he 0
  have hroot : r₁.link .parent e = none := by
    cases hpar : r₁.link .parent e with
    | none => rfl
    | some q => exact absurd rfl ((mem_detach h.shape).mp ((h₁.parent q e).mpr hpar)).1
  obtain ⟨r', hrun, hsame', h'⟩ := attachRoot_settles h₁ ((hhas e).mpr he) hroot
    ((hsame.valid p).mpr hvp) fun hbelow => hp ((below_detach h.shape).mp hbelow)
  refine ⟨r', hrun.congr fun fuel => ?_, ⟨hsame'.entities.trans hsame.entities,
    hsame'.transform.trans hsame.transform⟩, h'⟩
  -- both calls of `reparent` start with the same `onDestroy`
  obtain ⟨r₂, hdes, -⟩ := onDestroy_unlinks h he
  simp only [reparent, hdes, Except.bind] at hnull ⊢
  rw [Except.ok.inj hnull]

/-- **`emplace<Hierarchy>(e, p)`** for an entity without a `Hierarchy`. -/
theorem emplace_settles (h : Forest r kids) {e p : Handle} (hve : r.Valid e) (he : ¬ r.Has e)
    (hvp : r.Valid p) (hpe : p ≠ e) :
    ∃ r', Settles (fun fuel => r.emplace (onConstruct fuel) e { parent := some p }) (.ok r') ∧
      SameEntities r r' ∧ Forest r' (attach kids e p) := by
  have hput := h.put hve he
  have hroot : ∀ q, e ∉ kids q := fun q hc => he (h.has_child hc)
  have hkids := h.kids_of_not_has he
  have hbelow : ¬ Below kids e p := fun hbelow => hpe (hbelow.eq_of_leaf hkids)
  have hassign : r.put e { parent := some p } = (r.put e {}).assign e .parent (some p) := by
    simp [put, assign, set]
  obtain ⟨r', hrun, hsame, h'⟩ := attachRoot_settles hput ((has_put ..).mpr (Or.inl rfl))
    (by rw [link_put, if_pos rfl]; rfl) hvp hbelow
  refine ⟨r', hrun.congr fun fuel => ?_, ⟨hsame.entities, hsame.transform⟩, ?_⟩
  · rw [emplace, tryGet_of_valid hve, Option.not_isSome_iff_eq_none.mp he, hassign]
    rfl
  · rw [attach, detach_of_root hroot]
    exact h'

/-! ### Climbing to an ancestor -/

/-- **The ancestor loop** ends, and finds the ancestors. -/
theorem climbsTo_settles (h : Forest r kids) (a : Handle) {q : Handle} (hq : r.Valid q) :
    ∃ b, Settles (fun fuel => climbsTo a fuel r (some q)) (.ok b) ∧
      (b = true ↔ Below kids a q) := by
  obtain ⟨depth, bound, hdepth⟩ := h.shape.layered
  -- by induction on the depth of `q`: the parent is less deep
  generalize hn : depth q = n
  induction n using Nat.strongRecOn generalizing q with
  | _ n ih =>
      by_cases hqa : q = a
      · refine ⟨true, Settles.of_succ (Settles.of_forall fun fuel => ?_), by
          simp [hqa, Below, Relation.ReflTransGen.refl]⟩
        rw [climbsTo, if_pos hqa]
      · have hnode : ∀ fuel, climbsTo a (fuel + 1) r (some q) =
            climbsTo a fuel r (r.link .parent q) := by
          intro fuel
          rw [climbsTo, if_neg hqa, tryGet_of_valid hq]
          rfl
        cases hpar : r.link .parent q with
        | none =>
            refine ⟨false, Settles.of_succ (Settles.of_succ (Settles.of_forall fun fuel => ?_)), ?_⟩
            · rw [hnode, hpar, climbsTo]
            · simp only [Bool.false_eq_true, false_iff]
              exact fun hbelow => hqa (h.eq_of_below_root hpar hbelow).symm
        | some p =>
            have hmem := (h.parent p q).mpr hpar
            obtain ⟨b, hrun, hb⟩ :=
              ih (depth p) (hn ▸ (hdepth p q hmem).1) (h.valid_parent hmem) rfl
            refine ⟨b, Settles.of_succ (hrun.congr fun fuel => by rw [hnode, hpar]), hb.trans ?_⟩
            exact ⟨fun hbelow => Relation.ReflTransGen.tail hbelow hmem,
              fun hbelow => h.shape.below_parent hbelow hmem hqa⟩

/-- `isAbove` decides proper ancestry. -/
theorem isAbove_settles (h : Forest r kids) {node a : Handle} (hv : r.Valid node) :
    ∃ b, Settles (fun fuel => isAbove fuel r node a) (.ok b) ∧
      (b = true ↔ ∃ p, node ∈ kids p ∧ Below kids a p) := by
  cases hc : r.hierarchy node with
  | none =>
      refine ⟨false, Settles.of_forall fun fuel => ?_, ?_⟩
      · rw [isAbove, tryGet_of_valid hv, hc]
        rfl
      · simp only [Bool.false_eq_true, false_iff, not_exists, not_and]
        intro p hmem
        exact absurd (h.has_child hmem) (by simp [Has, hc])
  | some c =>
      have hstep : ∀ fuel, isAbove fuel r node a = climbsTo a fuel r (r.link .parent node) := by
        intro fuel
        rw [isAbove, tryGet_of_valid hv, link_of_some hc, hc]
        rfl
      cases hpar : r.link .parent node with
      | none =>
          refine ⟨false, Settles.of_succ (Settles.of_forall fun fuel => ?_), ?_⟩
          · rw [hstep, hpar, climbsTo]
          · simp only [Bool.false_eq_true, false_iff, not_exists, not_and]
            exact fun p hmem => absurd hmem (h.not_mem_of_root hpar p)
      | some p =>
          have hmem := (h.parent p node).mpr hpar
          obtain ⟨b, hrun, hb⟩ := climbsTo_settles h a (h.valid_parent hmem)
          refine ⟨b, hrun.congr fun fuel => by rw [hstep, hpar], hb.trans ?_⟩
          constructor
          · exact fun hbelow => ⟨p, hmem, hbelow⟩
          · rintro ⟨q, hq, hbelow⟩
            exact h.shape.unique q p node hq hmem ▸ hbelow

/-- `isAbove` for two different entities. -/
theorem isAbove_iff_below (h : Forest r kids) {node a : Handle} (hv : r.Valid node)
    (hne : node ≠ a) :
    ∃ b, Settles (fun fuel => isAbove fuel r node a) (.ok b) ∧ (b = true ↔ Below kids a node) := by
  obtain ⟨b, hrun, hb⟩ := isAbove_settles h (a := a) hv
  refine ⟨b, hrun, hb.trans ⟨fun ⟨p, hmem, hbelow⟩ => ?_, fun hbelow => ?_⟩⟩
  · exact Relation.ReflTransGen.tail hbelow hmem
  · rcases Relation.ReflTransGen.cases_tail hbelow with heq | ⟨p, hp, hmem⟩
    · exact absurd heq hne
    · exact ⟨p, hmem, hp⟩

end Hierarchy

/-! ### The guarded operations -/

open Hierarchy

/-- Moving `e` below `p` once the guard has accepted it, with or without a
`Hierarchy`. -/
theorem move_settles (h : Forest r kids) {e p : Handle} (hve : r.Valid e) (hvp : r.Valid p)
    (hp : ¬ Below kids e p) :
    ∃ r', Settles (fun fuel => match r.hierarchy e with
        | some _ => reparent fuel r e (some p)
        | none => r.emplace (onConstruct fuel) e { parent := some p }) (.ok r') ∧
      SameEntities r r' ∧ Forest r' (attach kids e p) := by
  cases hc : r.hierarchy e with
  | none =>
      have hpe : p ≠ e := fun heq => hp (heq ▸ Relation.ReflTransGen.refl)
      exact emplace_settles h hve (by simp [Has, hc]) hvp hpe
  | some c => exact reparent_settles h (by simp [Has, hc]) hvp hp

namespace Entity

/-- The check of `setParent` accepts exactly the entities outside the subtree. -/
theorem acceptable_settles (h : Forest r kids) {e p : Handle} (hvp : r.Valid p) :
    ∃ b, Settles (fun fuel => acceptable fuel r e p (r.hierarchy e)) (.ok b) ∧
      (b = true ↔ ¬ Below kids e p) := by
  cases hc : r.hierarchy e with
  | none =>
      have hkids := h.kids_of_not_has (p := e) (by simp [Has, hc])
      refine ⟨decide (p ≠ e), Settles.of_forall fun _ => rfl, ?_⟩
      rw [decide_eq_true_iff]
      exact not_congr
        ⟨fun heq => heq ▸ Relation.ReflTransGen.refl, fun hbelow => hbelow.eq_of_leaf hkids⟩
  | some c =>
      by_cases hpe : p = e
      · refine ⟨false, Settles.of_forall fun fuel => by rw [acceptable, if_pos hpe], ?_⟩
        simp [hpe, Below, Relation.ReflTransGen.refl]
      · obtain ⟨b, hrun, hb⟩ := isAbove_iff_below h (a := e) hvp hpe
        -- nobody is its own parent, so the last comparison always succeeds
        have hself : c.parent ≠ some e := by
          intro hpar
          have hmem := (h.parent e e).mpr ((link_of_some hc .parent).trans hpar)
          exact h.shape.not_below_parent hmem Relation.ReflTransGen.refl
        refine ⟨!b && decide (c.parent ≠ some e), (hrun.comp (Except.map fun above =>
          !above && decide (c.parent ≠ some e))).congr fun fuel => ?_, ?_⟩
        · rw [acceptable, if_neg hpe, isParent]
        · rw [decide_eq_true hself, Bool.and_true, ← hb, Bool.not_eq_true, Bool.not_eq_true']

/-- **`setParent`** moves the entity to the end of the children of `p`, unless
`p` is in its subtree. -/
theorem setParent_settles (h : Forest r kids) {e p : Handle} (hve : r.Valid e) (hvp : r.Valid p) :
    ∃ r', Settles (fun fuel => setParent fuel r e p) (.ok r') ∧ SameEntities r r' ∧
      (Below kids e p → r' = r) ∧ (¬ Below kids e p → Forest r' (attach kids e p)) := by
  obtain ⟨b, hguard, hb⟩ := acceptable_settles h (e := e) hvp
  have hset : ∀ fuel, setParent fuel r e p =
      (acceptable fuel r e p (r.hierarchy e)).bind fun acceptable =>
        if acceptable then match r.hierarchy e with
          | some _ => reparent fuel r e (some p)
          | none => r.emplace (onConstruct fuel) e { parent := some p }
        else .ok r := by
    intro fuel
    rw [setParent, tryGet_of_valid hve]
    rfl
  by_cases hbelow : Below kids e p
  · obtain rfl : b = false := by
      rw [← Bool.not_eq_true, hb]
      exact not_not_intro hbelow
    refine ⟨r, (hguard.except_bind ?_).congr hset, ⟨rfl, rfl⟩, fun _ => rfl, absurd hbelow⟩
    exact Settles.of_forall fun _ => rfl
  · obtain rfl : b = true := hb.mpr hbelow
    obtain ⟨r', hrun, hsame, h'⟩ := move_settles h hve hvp hbelow
    exact ⟨r', (hguard.except_bind hrun).congr hset, hsame, fun hn => absurd hn hbelow, fun _ => h'⟩

/-- **`getChildren`** returns the child list. -/
theorem collect_settles {p : Option Handle} {xs : List Handle}
    (hseg : Seg (r.link .next) (r.link .prev) p xs none)
    (hlive : ∀ x ∈ xs, r.Valid x ∧ r.Has x) :
    Settles (fun fuel => collect fuel r xs.head?) (.ok xs) := by
  induction xs generalizing p with
  | nil => exact Settles.of_succ (Settles.of_forall fun _ => rfl)
  | cons x xs ih =>
      obtain ⟨hv, hhas⟩ := hlive x (by simp)
      obtain ⟨c, hc⟩ := Option.isSome_iff_exists.mp hhas
      obtain ⟨-, hnext, hrest⟩ := hseg
      rw [link_of_some hc, Option.or_none] at hnext
      have hih := ih hrest fun y hy => hlive y (List.mem_cons_of_mem x hy)
      refine Settles.of_succ ((hih.comp (Except.map (x :: ·))).congr fun fuel => ?_)
      rw [List.head?_cons, collect, if_pos hv, tryGet_of_valid hv, hc, ← hnext]
      rfl

theorem getChildren_settles (h : Forest r kids) {p : Handle} (hv : r.Valid p) :
    Settles (fun fuel => getChildren fuel r p) (.ok (kids p)) := by
  cases hc : r.hierarchy p with
  | none =>
      rw [h.kids_of_not_has (p := p) (by simp [Has, hc])]
      refine Settles.of_forall fun fuel => ?_
      rw [getChildren, tryGet_of_valid hv, hc]
      rfl
  | some c =>
      have hfirst : c.first = (kids p).head? := (link_of_some hc .first).symm.trans (h.first p)
      refine (collect_settles (h.siblings p) fun x hx =>
        ⟨h.valid_child hx, h.has_child hx⟩).congr fun fuel => ?_
      rw [getChildren, tryGet_of_valid hv, hc, ← hfirst]
      rfl

/-- **`getParent`** reads the parent off the forest. -/
theorem getParent_eq {e : Handle} (hv : r.Valid e) : getParent r e = .ok (r.link .parent e) := by
  rw [getParent, tryGet_of_valid hv]
  rfl

end Entity

/-! ### Removing components and entities -/

namespace Hierarchy

/-- `remove<Hierarchy>` unlinks the entity and drops its component. -/
theorem remove_unlinks (h : Forest r kids) {e : Handle} (he : r.Has e) :
    ∃ r₁, r.remove onDestroy e = .ok (r₁.drop e) ∧ Unlinked r r₁ e := by
  obtain ⟨c, hc⟩ := Option.isSome_iff_exists.mp he
  obtain ⟨r₁, hrun, hu⟩ := onDestroy_unlinks h he
  refine ⟨r₁, ?_, hu⟩
  rw [Registry.remove, get_of_some (h.live e he) hc, hrun]
  rfl

/-- Without children, the entity is gone from the forest. -/
theorem Unlinked.forest_drop {r₁ : Registry T} (h : Forest r kids) {e : Handle} (he : r.Has e)
    (hu : Unlinked r r₁ e) (hleaf : kids e = []) : Forest (r₁.drop e) (detach kids e) := by
  have hdrop : (((r₁.assign e .parent none).assign e .next none).assign e .prev none).drop e =
      r₁.drop e := by
    simp [assign, drop]
  rw [← hdrop]
  refine (hu.forest h he).drop (fun p hmem => ((mem_detach h.shape).mp hmem).1 rfl) ?_
  rw [detach, hleaf]
  rfl

/-- A new entity is a root without children and without a `Hierarchy`. -/
theorem create_forest (h : Forest r kids) {t : Option T} {e : Handle} {r' : Registry T}
    (hcreate : r.create t = .ok (e, r')) : Forest r' kids := by
  cases hids : r.entities.create with
  | error fault => simp [create, hids, Except.map] at hcreate
  | ok created =>
      obtain ⟨x, entities⟩ := created
      simp only [create, hids, Except.map, Except.ok.injEq, Prod.mk.injEq] at hcreate
      obtain ⟨rfl, rfl⟩ := hcreate
      have hvalid := (Entities.create_valid hids).2
      refine h.of_links (fun _ => rfl) (fun y hy => ?_) fun y hy => ?_
      · exact (hvalid y).mpr (Or.inr (h.live y hy))
      · by_cases hyx : y = x
        · exact (hvalid y).mpr (Or.inl hyx)
        · simp only [Function.update_of_ne hyx] at hy
          exact (hvalid y).mpr (Or.inr (h.transform_live y hy))

/-- Releasing an entity that has no `Hierarchy`. -/
theorem release_forest (h : Forest r kids) {e : Handle} (he : ¬ r.Has e) (hv : r.Valid e) :
    Forest (r.release e hv) kids := by
  refine h.of_links (fun _ => rfl) (fun x hx => ?_) fun x hx => ?_
  · exact (Entities.release_valid hv x).mpr ⟨fun heq => he (heq ▸ hx), h.live x hx⟩
  · by_cases hxe : x = e
    · simp [release, hxe] at hx
    · simp only [release, Function.update_of_ne hxe] at hx
      exact (Entities.release_valid hv x).mpr ⟨hxe, h.transform_live x hx⟩

/-- What `registry.destroy(e)` leaves of the entities. -/
structure Destroyed (r r' : Registry T) (S : Handle → Prop) : Prop where
  valid : ∀ x, r'.Valid x ↔ ¬ S x ∧ r.Valid x
  transform : ∀ x, ¬ S x → r'.transform x = r.transform x
  has : ∀ x, r'.Has x ↔ ¬ S x ∧ r.Has x

/-- `destroy` unlinks the entity, drops its component and releases its handle. -/
theorem destroy_unlinks (h : Forest r kids) {e : Handle} (he : r.Has e) :
    ∃ (r₁ : Registry T) (hv : (r₁.drop e).Valid e),
      r.destroy onDestroy e = .ok ((r₁.drop e).release e hv) ∧ Unlinked r r₁ e := by
  have hve := h.live e he
  obtain ⟨r₁, hrun, hu⟩ := remove_unlinks h he
  have hv₁ : (r₁.drop e).Valid e := by
    rw [valid_drop, Valid, hu.entities]
    exact hve
  refine ⟨r₁, hv₁, ?_, hu⟩
  rw [destroy, tryGet_of_valid hve]
  simp only [Except.bind, if_pos (show (r.hierarchy e).isSome = true from he), hrun, dif_pos hv₁]

/-- **`destroy`** of an entity without children. -/
theorem destroy_eq (h : Forest r kids) {e : Handle} (hv : r.Valid e) (hleaf : kids e = []) :
    ∃ r', r.destroy onDestroy e = .ok r' ∧ Destroyed r r' (· = e) ∧ Forest r' (detach kids e) := by
  by_cases he : r.Has e
  · obtain ⟨r₁, hv₁, hrun, hu⟩ := destroy_unlinks h he
    refine ⟨(r₁.drop e).release e hv₁, hrun, ⟨fun x => ?_, fun x hx => ?_, fun x => ?_⟩,
      release_forest (hu.forest_drop h he hleaf) (by simp) hv₁⟩
    · refine (Entities.release_valid hv₁ x).trans (and_congr_right fun _ => ?_)
      show r₁.entities.Valid x ↔ _
      rw [hu.entities]
      exact Iff.rfl
    · show Function.update r₁.transform e none x = _
      rw [Function.update_of_ne hx, hu.transform]
    · exact (has_drop ..).trans (and_congr_right fun _ => hu.has x)
  · have hroot : ∀ p, e ∉ kids p := fun p hmem => he (h.has_child hmem)
    refine ⟨r.release e hv, ?_, ⟨fun x => Entities.release_valid hv x, fun x hx => ?_,
      fun x => ?_⟩, ?_⟩
    · rw [destroy, tryGet_of_valid hv]
      simp only [Except.bind, Option.not_isSome_iff_eq_none.mp he, Option.isSome_none,
        Bool.false_eq_true, if_false, dif_pos hv]
    · exact Function.update_of_ne hx ..
    · exact ⟨fun hx => ⟨fun heq => he (heq ▸ hx), hx⟩, fun hx => hx.2⟩
    · rw [detach_of_root hroot]
      exact release_forest h he hv

/-! ### Loops over the children -/

/-- **The rule for `forChildren`**: `I` relates the children that are still to be
visited to the state. -/
theorem forChildren_settles {σ : Type} (registry : σ → Registry T)
    (visit : Nat → σ → Handle → Except Fault σ) {I : List Handle → σ → Prop}
    (hstep : ∀ c cs s, I (c :: cs) s →
      ((registry s).Valid c ∧ (registry s).link .next c = cs.head?) ∧
        ∃ s', Settles (fun fuel => visit fuel s c) (.ok s') ∧ I cs s')
    {l : List Handle} {s : σ} (h : I l s) :
    ∃ s', Settles (fun fuel => forChildren registry (visit fuel) fuel s l.head?) (.ok s') ∧
      I [] s' := by
  -- the fuel of the visits and the fuel of the loop are counted apart
  have hloop : ∀ cs s, I cs s → ∃ s' N, I [] s' ∧ ∀ m, N ≤ m → ∀ n, cs.length < n →
      forChildren registry (visit m) n s cs.head? = .ok s' := by
    intro cs
    induction cs with
    | nil =>
        intro s h
        refine ⟨s, 0, h, fun m _ n hn => ?_⟩
        obtain ⟨n, rfl⟩ : ∃ k, n = k + 1 := ⟨n - 1, by simp at hn; omega⟩
        rfl
    | cons c cs ih =>
        intro s h
        obtain ⟨⟨hv, hnext⟩, s₁, ⟨M, hM⟩, h₁⟩ := hstep c cs s h
        obtain ⟨s', N, h', hN⟩ := ih s₁ h₁
        refine ⟨s', M + N, h', fun m hm n hn => ?_⟩
        obtain ⟨n, rfl⟩ : ∃ k, n = k + 1 := ⟨n - 1, by simp at hn; omega⟩
        have hvisit : visit m s c = .ok s₁ := hM m (by omega)
        have hrest := hN m (by omega) n (by simpa using hn)
        rw [← hnext] at hrest
        rw [List.head?_cons, forChildren, tryGet_of_valid hv]
        simp only [Except.bind, hvisit]
        exact hrest
  obtain ⟨s', N, h', hN⟩ := hloop l s h
  exact ⟨s', ⟨N + l.length + 1, fun n hn => hN n (by omega) n (by omega)⟩, h'⟩

end Hierarchy

namespace HierarchyWindow

/-- The check of the drop on a node also refuses the current parent. -/
theorem acceptable_settles (h : Forest r kids) {e p : Handle} (hvp : r.Valid p) :
    ∃ b, Settles (fun fuel => acceptable fuel r e p (r.hierarchy e)) (.ok b) ∧
      (b = true ↔ ¬ Below kids e p ∧ e ∉ kids p) := by
  cases hc : r.hierarchy e with
  | none =>
      have hnot : ¬ r.Has e := by simp [Has, hc]
      have hkids := h.kids_of_not_has hnot
      refine ⟨decide (e ≠ p), Settles.of_forall fun _ => rfl, ?_⟩
      rw [decide_eq_true_iff, and_iff_left fun hmem => hnot (h.has_child hmem)]
      exact not_congr ⟨fun heq => heq ▸ Relation.ReflTransGen.refl,
        fun hbelow => (hbelow.eq_of_leaf hkids).symm⟩
  | some c =>
      by_cases hpe : e = p
      · refine ⟨false, Settles.of_forall fun fuel => by rw [acceptable, if_pos hpe], ?_⟩
        simp [hpe, Below, Relation.ReflTransGen.refl]
      · obtain ⟨b, hrun, hb⟩ := isAbove_iff_below h (a := e) hvp (Ne.symm hpe)
        have hpar : c.parent = some p ↔ e ∈ kids p := by
          rw [h.parent, link_of_some hc]
          rfl
        refine ⟨!b && decide (c.parent ≠ some p), (hrun.comp (Except.map fun above =>
          !above && decide (c.parent ≠ some p))).congr fun fuel => ?_, ?_⟩
        · rw [acceptable, if_neg hpe, isParentOfEntity]
        · rw [Bool.and_eq_true, decide_eq_true_iff, ← hpar, ← hb, Bool.not_eq_true,
            Bool.not_eq_true']

/-- **The drop on a node.** -/
theorem dropOnNode_settles (h : Forest r kids) {e p : Handle} (hve : r.Valid e)
    (hvp : r.Valid p) :
    ∃ r', Settles (fun fuel => dropOnNode fuel r e p) (.ok r') ∧ SameEntities r r' ∧
      (¬ (¬ Below kids e p ∧ e ∉ kids p) → r' = r) ∧
      (¬ Below kids e p ∧ e ∉ kids p → Forest r' (attach kids e p)) := by
  obtain ⟨b, hguard, hb⟩ := acceptable_settles h (e := e) hvp
  have hdrop : ∀ fuel, dropOnNode fuel r e p =
      (acceptable fuel r e p (r.hierarchy e)).bind fun acceptable =>
        if acceptable then match r.hierarchy e with
          | some _ => reparent fuel r e (some p)
          | none => r.emplace (onConstruct fuel) e { parent := some p }
        else .ok r := by
    intro fuel
    rw [dropOnNode, tryGet_of_valid hve]
    rfl
  by_cases hacc : ¬ Below kids e p ∧ e ∉ kids p
  · obtain rfl : b = true := hb.mpr hacc
    obtain ⟨r', hrun, hsame, h'⟩ := move_settles h hve hvp hacc.1
    exact ⟨r', (hguard.except_bind hrun).congr hdrop, hsame, fun hn => absurd hacc hn, fun _ => h'⟩
  · obtain rfl : b = false := by
      rw [← Bool.not_eq_true, hb]
      exact hacc
    refine ⟨r, (hguard.except_bind ?_).congr hdrop, ⟨rfl, rfl⟩, fun _ => rfl,
      fun hn => absurd hn hacc⟩
    exact Settles.of_forall fun _ => rfl

/-- **The drop on the header** of the scene. -/
theorem dropOnHeader_eq (h : Forest r kids) {e : Handle} (hv : r.Valid e) :
    ∃ r', dropOnHeader r e = .ok r' ∧ SameEntities r r' ∧ Forest r' (detach kids e) := by
  cases hc : r.hierarchy e with
  | none =>
      have hnot : ¬ r.Has e := by simp [Has, hc]
      refine ⟨r, ?_, ⟨rfl, rfl⟩, by rwa [h.detach_of_not_has hnot]⟩
      rw [dropOnHeader, tryGet_of_valid hv, hc]
      rfl
  | some c =>
      obtain ⟨r', hrun, hsame, -, h'⟩ := reparent_null h (show r.Has e by simp [Has, hc]) 0
      refine ⟨r', ?_, hsame, h'⟩
      rw [dropOnHeader, tryGet_of_valid hv, hc]
      exact hrun

/-- **The drop on empty space**, which is refused for a root, of an entity without
children. -/
theorem dropOnEmptySpace_eq (h : Forest r kids) {e : Handle} (hv : r.Valid e)
    (hsafe : r.link .parent e = none ∨ kids e = []) :
    ∃ r', dropOnEmptySpace r e = .ok r' ∧ SameEntities r r' ∧ Forest r' (detach kids e) := by
  cases hc : r.hierarchy e with
  | none =>
      have hnot : ¬ r.Has e := by simp [Has, hc]
      refine ⟨r, ?_, ⟨rfl, rfl⟩, by rwa [h.detach_of_not_has hnot]⟩
      rw [dropOnEmptySpace, tryGet_of_valid hv, hc]
      rfl
  | some c =>
      have he : r.Has e := by simp [Has, hc]
      cases hpar : c.parent with
      | none =>
          -- not accepted: a root stays as it is
          have hroot := h.not_mem_of_root ((link_of_some hc .parent).trans hpar)
          refine ⟨r, ?_, ⟨rfl, rfl⟩, by rwa [detach_of_root hroot]⟩
          simp only [dropOnEmptySpace, tryGet_of_valid hv, hc, Except.bind, hpar]
      | some p =>
          obtain ⟨r₁, hnull, hsame, hhas, h₁⟩ := reparent_null h he 0
          have he₁ := (hhas e).mpr he
          obtain ⟨r₂, hremove, hu⟩ := remove_unlinks h₁ he₁
          have hleaf : kids e = [] := by
            refine hsafe.resolve_left fun hroot => ?_
            rw [link_of_some hc] at hroot
            exact absurd (hpar.symm.trans hroot) (by simp)
          have hleaf₁ : detach kids e e = [] := by
            rw [detach, hleaf]
            rfl
          have h₂ := hu.forest_drop h₁ he₁ hleaf₁
          rw [detach_of_root fun q hmem => ((mem_detach h.shape).mp hmem).1 rfl] at h₂
          refine ⟨r₂.drop e, ?_, ⟨hu.entities.trans hsame.entities,
            hu.transform.trans hsame.transform⟩, h₂⟩
          simp only [dropOnEmptySpace, tryGet_of_valid hv, hc, Except.bind, hpar, hnull,
            Entity.removeComponent, hremove]

/-- What deleting the subtree of `e` leaves. -/
structure Pruned (r r' : Registry T) (kids : Handle → List Handle) (S : Handle → Prop) : Prop where
  destroyed : Destroyed r r' S
  forest : Forest r' (prune kids S)

/-- The children are deleted one after the other; `cs` are those still to be
deleted and `S` are the descendants deleted so far. -/
theorem destroyChildren_settles (h : Forest r kids) {e : Handle}
    (hchild : ∀ c ∈ kids e, ∀ (r₁ : Registry T) kids₁, Forest r₁ kids₁ → r₁.Valid c →
      (∀ p, List.Sublist (kids₁ p) (kids p)) →
      ∃ r₂, Settles (fun fuel => destroyEntity fuel r₁ c) (.ok r₂) ∧
        Pruned r₁ r₂ kids₁ (Below kids₁ c)) :
    ∃ r', Settles (fun fuel => forChildren id (destroyEntity fuel) fuel r (kids e).head?) (.ok r') ∧
      Pruned r r' kids fun x => ∃ c ∈ kids e, Below kids c x := by
  let I : List Handle → Registry T → Prop := fun cs s =>
    ∃ S : Handle → Prop, Pruned r s kids S ∧ prune kids S e = cs ∧
      (∀ p c, S p → c ∈ kids p → S c) ∧
      ∀ x, (S x ∨ ∃ c ∈ cs, Below kids c x) ↔ ∃ c ∈ kids e, Below kids c x
  have hinit : I (kids e) r := by
    have hnone : prune kids (fun _ => False) = kids := by
      funext p
      simp [prune]
    refine ⟨fun _ => False, ⟨⟨by simp, fun _ _ => rfl, by simp⟩, by rwa [hnone]⟩, by rw [hnone],
      fun _ _ hS _ => hS, by simp⟩
  have hstep : ∀ c cs s, I (c :: cs) s → (s.Valid c ∧ s.link .next c = cs.head?) ∧
      ∃ s', Settles (fun fuel => destroyEntity fuel s c) (.ok s') ∧ I cs s' := by
    intro c cs s ⟨S, ⟨hdes, hforest⟩, hcs, hclosed, hS⟩
    have hmem : c ∈ prune kids S e := by simp [hcs]
    have hce : c ∈ kids e := (mem_prune.mp hmem).2.2
    have hvc : s.Valid c := hforest.valid_child hmem
    have hseg := hforest.siblings e
    rw [hcs] at hseg
    refine ⟨⟨hvc, by simpa using hseg.2.1⟩, ?_⟩
    obtain ⟨s', hrun, hdes', hforest'⟩ := hchild c hce s _ hforest hvc fun p => prune_sublist
    -- outside `S`, the subtree of `c` is the one it had at the start
    have hnew : ∀ x, (S x ∨ Below (prune kids S) c x) ↔ (S x ∨ Below kids c x) := by
      intro x
      by_cases hx : S x
      · simp [hx]
      · simp [hx, below_prune hclosed hx]
    have hprune : prune (prune kids S) (Below (prune kids S) c) =
        prune kids fun x => S x ∨ Below kids c x :=
      prune_prune.trans (prune_congr hnew)
    refine ⟨s', hrun, fun x => S x ∨ Below kids c x, ⟨⟨fun x => ?_, fun x hx => ?_, fun x => ?_⟩,
      hprune ▸ hforest'⟩, ?_, fun p q hp hq => ?_, fun x => ?_⟩
    · rw [hdes'.valid, hdes.valid, ← hnew, not_or, and_assoc, and_left_comm]
    · have hx' := mt (hnew x).mp hx
      rw [not_or] at hx'
      rw [hdes'.transform x hx'.2, hdes.transform x hx'.1]
    · rw [hdes'.has, hdes.has, ← hnew, not_or, and_assoc, and_left_comm]
    · rw [← hprune, prune_below hforest.shape (hforest.shape.not_below_parent hmem), detach, hcs,
        List.erase_cons_head]
    · rcases hp with hp | hp
      · exact Or.inl (hclosed p q hp hq)
      · exact Or.inr (Relation.ReflTransGen.tail hp hq)
    · rw [← hS x, or_assoc]
      simp
  obtain ⟨r', hrun, S, hpruned, -, -, hS⟩ := forChildren_settles id destroyEntity
    hstep hinit
  refine ⟨r', hrun, ?_⟩
  have hiff : S = fun x => ∃ c ∈ kids e, Below kids c x := by
    funext x
    exact propext (by simpa using hS x)
  rwa [← hiff]

/-- `destroyEntity` once its children can be deleted. -/
theorem destroyEntity_of_children (h : Forest r kids) {e : Handle} (hv : r.Valid e)
    (hchild : ∀ c ∈ kids e, ∀ (r₁ : Registry T) kids₁, Forest r₁ kids₁ → r₁.Valid c →
      (∀ p, List.Sublist (kids₁ p) (kids p)) →
      ∃ r₂, Settles (fun fuel => destroyEntity fuel r₁ c) (.ok r₂) ∧
        Pruned r₁ r₂ kids₁ (Below kids₁ c)) :
    ∃ r', Settles (fun fuel => destroyEntity fuel r e) (.ok r') ∧
      Pruned r r' kids (Below kids e) := by
  obtain ⟨r₁, hrun₁, hdes₁, h₁⟩ := destroyChildren_settles h hchild
  have hnot : ¬ ∃ c ∈ kids e, Below kids c e := by
    rintro ⟨c, hc, hbelow⟩
    exact h.shape.not_below_parent hc hbelow
  have hleaf : prune kids (fun x => ∃ c ∈ kids e, Below kids c x) e = [] := by
    refine List.eq_nil_iff_forall_not_mem.mpr fun c hc => ?_
    obtain ⟨-, hnc, hc⟩ := mem_prune.mp hc
    exact hnc ⟨c, hc, Relation.ReflTransGen.refl⟩
  obtain ⟨r', hdestroy, hdes', h'⟩ := destroy_eq h₁ ((hdes₁.valid e).mpr ⟨hnot, hv⟩) hleaf
  rw [detach_eq_prune h₁.shape hleaf, prune_prune] at h'
  -- the subtree of `e` is `e` and the subtrees of its children
  have hiff : ∀ x, ((∃ c ∈ kids e, Below kids c x) ∨ x = e) ↔ Below kids e x := by
    intro x
    refine ⟨fun hx => ?_, fun hx => ?_⟩
    · rcases hx with ⟨c, hc, hx⟩ | heq
      · exact Relation.ReflTransGen.head hc hx
      · exact heq ▸ Relation.ReflTransGen.refl
    · rcases Relation.ReflTransGen.cases_head hx with heq | ⟨c, hc, hx⟩
      · exact Or.inr heq.symm
      · exact Or.inl ⟨c, hc, hx⟩
  rw [prune_congr hiff] at h'
  refine ⟨r', Settles.of_succ ?_, ⟨fun x => ?_, fun x hx => ?_, fun x => ?_⟩, h'⟩
  · cases hc : r.hierarchy e with
    | none =>
        rw [h.kids_of_not_has (p := e) (by simp [Has, hc])] at hrun₁
        have hsame : Settles (fun fuel => forChildren id (destroyEntity fuel) fuel r none)
            (.ok r) := Settles.of_succ (Settles.of_forall fun _ => rfl)
        obtain rfl := Except.ok.inj (hsame.unique hrun₁)
        refine Settles.of_forall fun fuel => ?_
        rw [destroyEntity, tryGet_of_valid hv, hc]
        exact hdestroy
    | some c =>
        have hfirst : c.first = (kids e).head? := (link_of_some hc .first).symm.trans (h.first e)
        refine (hrun₁.except_bind (g := fun r _ => r.destroy onDestroy e)
          (Settles.of_forall fun _ => hdestroy)).congr fun fuel => ?_
        rw [destroyEntity, tryGet_of_valid hv, hc, ← hfirst]
        rfl
  · rw [hdes'.valid, hdes₁.valid, ← hiff, not_or, and_assoc, and_left_comm]
  · rw [← hiff, not_or] at hx
    rw [hdes'.transform x hx.2, hdes₁.transform x hx.1]
  · rw [hdes'.has, hdes₁.has, ← hiff, not_or, and_assoc, and_left_comm]

/-- **`destroyEntity`** ends and deletes exactly the subtree of `e`. -/
theorem destroyEntity_settles (h : Forest r kids) {e : Handle} (hv : r.Valid e) :
    ∃ r', Settles (fun fuel => destroyEntity fuel r e) (.ok r') ∧
      Pruned r r' kids (Below kids e) := by
  obtain ⟨n, hfall⟩ := h.shape.exists_fall
  replace hfall := hfall e
  -- by induction on the height of the subtree, for all smaller forests at once
  induction n generalizing r kids e with
  | zero =>
      refine destroyEntity_of_children h hv fun c hc => ?_
      rw [show kids e = [] from hfall] at hc
      exact absurd hc List.not_mem_nil
  | succ n ih =>
      refine destroyEntity_of_children h hv fun c hc r₁ kids₁ h₁ hv₁ hsub => ?_
      exact ih h₁ hv₁ ((hfall c hc).sub hsub)

end HierarchyWindow

end Maple
