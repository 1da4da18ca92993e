import Maple.Lib.Fuel
import Maple.Lib.Kids
import Maple.Lib.LinkedList
import Maple.Scene.Hierarchy

/-!
# Maple.Scene.Forest

**Well-formed hierarchies.** `Forest r kids` says that the links in the registry
spell out the child lists `kids`: an abstract forest, given by the ordered list
of children of every entity. The operations of the hierarchy are then operations
on child lists: `onDestroy` removes an entity from the list it is in, and
`onConstruct` appends an entity to the list of its parent.
-/

namespace Maple

open Lib Registry

variable {T : Type}

/-! ### The registry spells out a forest -/

/-- The links in the registry spell out the child lists `kids`. -/
structure Forest (r : Registry T) (kids : Handle → List Handle) : Prop where
  shape : Kids kids
  live : ∀ e, r.Has e → r.Valid e
  transform_live : ∀ e, (r.transform e).isSome → r.Valid e
  first : ∀ p, r.link .first p = (kids p).head?
  parent : ∀ p c, c ∈ kids p ↔ r.link .parent c = some p
  siblings : ∀ p, Seg (r.link .next) (r.link .prev) none (kids p) none
  root : ∀ e, r.link .parent e = none → r.link .next e = none ∧ r.link .prev e = none

namespace Forest

variable {r : Registry T} {kids : Handle → List Handle}

/-- An entity with children has a `Hierarchy`. -/
theorem has_parent (h : Forest r kids) {p c : Handle} (hc : c ∈ kids p) : r.Has p := by
  cases hkids : kids p with
  | nil => simp [hkids] at hc
  | cons x xs => exact Registry.has_of_link ((h.first p).trans (by rw [hkids]; rfl))

theorem has_child (h : Forest r kids) {p c : Handle} (hc : c ∈ kids p) : r.Has c :=
  Registry.has_of_link ((h.parent p c).mp hc)

theorem valid_parent (h : Forest r kids) {p c : Handle} (hc : c ∈ kids p) : r.Valid p :=
  h.live p (h.has_parent hc)

theorem valid_child (h : Forest r kids) {p c : Handle} (hc : c ∈ kids p) : r.Valid c :=
  h.live c (h.has_child hc)

theorem has_below (h : Forest r kids) {e x : Handle} (he : r.Has e) (hx : Below kids e x) :
    r.Has x := by
  rcases Relation.ReflTransGen.cases_tail hx with heq | ⟨p, -, hmem⟩
  · exact heq ▸ he
  · exact h.has_child hmem

theorem valid_below (h : Forest r kids) {e x : Handle} (hv : r.Valid e) (hx : Below kids e x) :
    r.Valid x := by
  rcases Relation.ReflTransGen.cases_tail hx with heq | ⟨p, -, hmem⟩
  · exact heq ▸ hv
  · exact h.valid_child hmem

theorem kids_of_not_has (h : Forest r kids) {p : Handle} (hp : ¬ r.Has p) : kids p = [] :=
  List.eq_nil_iff_forall_not_mem.mpr fun _ hc => hp (h.has_parent hc)

theorem detach_of_not_has (h : Forest r kids) {e : Handle} (he : ¬ r.Has e) :
    detach kids e = kids :=
  detach_of_root fun _ hc => he (h.has_child hc)

/-- Another registry with the same links spells out the same forest. -/
theorem of_links {r' : Registry T} (h : Forest r kids) (hlink : ∀ l, r'.link l = r.link l)
    (hlive : ∀ x, r'.Has x → r'.Valid x) (htransform : ∀ x, (r'.transform x).isSome → r'.Valid x) :
    Forest r' kids where
  shape := h.shape
  live := hlive
  transform_live := htransform
  first := fun p => by
    rw [hlink]
    exact h.first p
  parent := fun p c => by
    rw [hlink]
    exact h.parent p c
  siblings := fun p => by
    rw [hlink, hlink]
    exact h.siblings p
  root := fun x => by
    rw [hlink, hlink, hlink]
    exact h.root x

theorem empty : Forest (Registry.empty : Registry T) fun _ => [] := by
  refine ⟨⟨fun _ => List.nodup_nil, by simp, fun _ => 0, 0, by simp⟩, ?_, ?_, ?_, ?_, ?_, ?_⟩
  all_goals simp [Registry.empty, Registry.Has, Registry.link, Seg]

/-- The neighbours of an entity are children of the same parent. -/
theorem sibling_of_link (h : Forest r kids) {e x : Handle}
    (hx : r.link .prev e = some x ∨ r.link .next e = some x) : ∃ p, e ∈ kids p ∧ x ∈ kids p := by
  cases hp : r.link .parent e with
  | none =>
      obtain ⟨hn, hp⟩ := h.root e hp
      rw [hn, hp] at hx
      simp at hx
  | some p =>
      have hep := (h.parent p e).mpr hp
      exact ⟨p, hep, (h.siblings p).mem_of_link hep hx⟩

/-- A root is in no child list. -/
theorem not_mem_of_root (h : Forest r kids) {e : Handle} (he : r.link .parent e = none)
    (p : Handle) : e ∉ kids p := by
  intro hmem
  rw [(h.parent p e).mp hmem] at he
  exact absurd he (by simp)

/-- A root is below itself only. -/
theorem eq_of_below_root (h : Forest r kids) {a e : Handle} (he : r.link .parent e = none)
    (hbelow : Below kids a e) : a = e := by
  rcases Relation.ReflTransGen.cases_tail hbelow with heq | ⟨p, -, hmem⟩
  · exact heq.symm
  · exact absurd hmem (h.not_mem_of_root he p)

/-- A new root without children. -/
theorem put (h : Forest r kids) {e : Handle} (hv : r.Valid e) (he : ¬ r.Has e) :
    Forest (r.put e {}) kids := by
  have hnot : ∀ p, e ∉ kids p := fun p hc => he (h.has_child hc)
  have hnone : ∀ l, r.link l e = none := by
    intro l
    simp [Registry.link, Option.not_isSome_iff_eq_none.mp he]
  -- the links of the new component are those of a missing one
  have hlink : ∀ l, (r.put e {}).link l = r.link l := by
    intro l
    funext x
    by_cases hx : x = e
    · subst hx
      rw [Registry.link_put, if_pos rfl, hnone]
      cases l <;> rfl
    · rw [Registry.link_put, if_neg hx]
  refine h.of_links hlink (fun x hx => ?_) h.transform_live
  rcases (Registry.has_put ..).mp hx with heq | hx
  · exact heq ▸ hv
  · exact h.live x hx

/-- The component of a root without children may go. -/
theorem drop (h : Forest r kids) {e : Handle} (hroot : ∀ p, e ∉ kids p) (he : kids e = []) :
    Forest (r.drop e) kids := by
  have hpar : r.link .parent e = none := by
    cases hp : r.link .parent e with
    | none => rfl
    | some p => exact absurd ((h.parent p e).mpr hp) (hroot p)
  obtain ⟨hnext, hprev⟩ := h.root e hpar
  have hlink : ∀ l, (r.drop e).link l = r.link l := by
    intro l
    funext x
    by_cases hx : x = e
    · subst hx
      rw [Registry.link_drop, if_pos rfl]
      cases l with
      | parent => exact hpar.symm
      | first => exact ((h.first x).trans (by rw [he]; rfl)).symm
      | next => exact hnext.symm
      | prev => exact hprev.symm
    · rw [Registry.link_drop, if_neg hx]
  exact h.of_links hlink (fun x hx => h.live x ((Registry.has_drop ..).mp hx).2) h.transform_live

end Forest

/-! ### `onDestroy` unlinks -/

namespace Hierarchy

/-- What `onDestroy` does to a well-formed hierarchy: the neighbours of `e` are
linked with each other, and the parent gets a new first child if `e` was the
first. The links of `e` itself stay. -/
structure Unlinked (r r' : Registry T) (e : Handle) : Prop where
  entities : r'.entities = r.entities
  transform : r'.transform = r.transform
  has : ∀ x, r'.Has x ↔ r.Has x
  parent : ∀ x, r'.link .parent x = r.link .parent x
  first : ∀ x, r'.link .first x =
    if r.link .parent e = some x ∧ r.link .prev e = none then r.link .next e else r.link .first x
  next : ∀ x, r'.link .next x = if r.link .prev e = some x then r.link .next e else r.link .next x
  prev : ∀ x, r'.link .prev x = if r.link .next e = some x then r.link .prev e else r.link .prev x

/-- `linkBack` on a next sibling that has a `Hierarchy`, or on none. -/
theorem linkBack_eq {r : Registry T} (next prev : Option Handle)
    (hnext : ∀ x, next = some x → r.Valid x ∧ r.Has x) :
    ∃ r', linkBack r next prev = .ok r' ∧ r'.entities = r.entities ∧ r'.transform = r.transform ∧
      (∀ x, r'.Has x ↔ r.Has x) ∧
      ∀ l x, r'.link l x = if next = some x ∧ l = .prev then prev else r.link l x := by
  cases next with
  | none => exact ⟨r, rfl, rfl, rfl, fun _ => Iff.rfl, fun l x => by simp⟩
  | some n =>
      obtain ⟨hv, hhas⟩ := hnext n rfl
      obtain ⟨h, hh⟩ := Option.isSome_iff_exists.mp hhas
      refine ⟨r.assign n .prev prev, ?_, rfl, rfl, fun x => has_assign .., fun l x => ?_⟩
      · simp only [linkBack, tryGet_of_valid hv, hh]
        rfl
      · rw [link_assign r hhas]
        simp only [Option.some.injEq, eq_comm (a := n)]

/-- **`onDestroy`** on a well-formed hierarchy. -/
theorem onDestroy_unlinks {r : Registry T} {kids : Handle → List Handle} (h : Forest r kids)
    {e : Handle} (he : r.Has e) : ∃ r', onDestroy r e = .ok r' ∧ Unlinked r r' e := by
  obtain ⟨c, hc⟩ := Option.isSome_iff_exists.mp he
  have hlink := link_of_some hc
  have hget := get_of_some (h.live e he) hc
  have hprev : r.link .prev e = c.prev := hlink .prev
  have hnext : r.link .next e = c.next := hlink .next
  have hparent : r.link .parent e = c.parent := hlink .parent
  have hlive : ∀ x, (r.link .prev e = some x ∨ r.link .next e = some x) → r.Valid x ∧ r.Has x := by
    intro x hx
    obtain ⟨p, -, hxp⟩ := h.sibling_of_link hx
    exact ⟨h.valid_child hxp, h.has_child hxp⟩
  cases hcprev : c.prev with
  | none =>
      cases hcpar : c.parent with
      | none =>
          -- a root
          obtain ⟨hn, hp⟩ := h.root e (hparent.trans hcpar)
          refine ⟨r, ?_, rfl, rfl, fun _ => Iff.rfl, fun _ => rfl, ?_, ?_, ?_⟩
          · simp only [onDestroy, hget, Except.bind, hcprev, hcpar, Option.filter_none]
          · intro x
            rw [hparent, hcpar]
            simp
          · intro x
            rw [hp]
            simp
          · intro x
            rw [hn]
            simp
      | some p =>
          -- the first child of `p`
          have hep : e ∈ kids p := (h.parent p e).mpr (hparent.trans hcpar)
          have hvp := h.valid_parent hep
          have hhp := h.has_parent hep
          obtain ⟨cp, hcp⟩ := Option.isSome_iff_exists.mp hhp
          obtain ⟨r', hrun, hent, htr, hhas, hl⟩ := linkBack_eq (r := r.assign p .first c.next)
            c.next none fun x hx => by
              obtain ⟨hv, hh⟩ := hlive x (Or.inr (hnext.trans hx))
              exact ⟨hv, (has_assign ..).mpr hh⟩
          have hl' : ∀ l x, r'.link l x = if c.next = some x ∧ l = .prev then none else
              if x = p ∧ l = .first then c.next else r.link l x := fun l x => by
            rw [hl, link_assign r hhp]
          refine ⟨r', ?_, hent, htr, fun x => (hhas x).trans (has_assign ..), ?_, ?_, ?_, ?_⟩
          · simp only [onDestroy, hget, Except.bind, hcprev, hcpar, Option.filter_none,
              Option.filter_some, hvp, decide_true, if_true, tryGet_of_valid hvp, hcp, hrun]
          · intro x
            simp [hl']
          · intro x
            simp [hl', hparent, hcpar, hprev, hcprev, hnext, eq_comm (a := p)]
          · intro x
            simp [hl', hprev, hcprev]
          · intro x
            simp [hl', hprev, hcprev, hnext]
  | some q =>
      -- a child with the sibling `q` before it
      obtain ⟨hvq, hhq⟩ := hlive q (Or.inl (hprev.trans hcprev))
      obtain ⟨cq, hcq⟩ := Option.isSome_iff_exists.mp hhq
      obtain ⟨r', hrun, hent, htr, hhas, hl⟩ := linkBack_eq (r := r.assign q .next c.next)
        c.next (some q) fun x hx => by
          obtain ⟨hv, hh⟩ := hlive x (Or.inr (hnext.trans hx))
          exact ⟨hv, (has_assign ..).mpr hh⟩
      have hl' : ∀ l x, r'.link l x = if c.next = some x ∧ l = .prev then some q else
          if x = q ∧ l = .next then c.next else r.link l x := fun l x => by
        rw [hl, link_assign r hhq]
      refine ⟨r', ?_, hent, htr, fun x => (hhas x).trans (has_assign ..), ?_, ?_, ?_, ?_⟩
      · simp only [onDestroy, hget, Except.bind, hcprev, Option.filter_some, hvq, decide_true,
          if_true, tryGet_of_valid hvq, hcq, Option.isSome_some, hrun]
      · intro x
        simp [hl']
      · intro x
        simp [hl', hprev, hcprev]
      · intro x
        simp [hl', hprev, hcprev, hnext, eq_comm (a := q)]
      · intro x
        simp [hl', hprev, hcprev, hnext]

/-- Once the links of `e` are cleared too, `e` is a root and gone from the list it
was in. -/
theorem Unlinked.forest {r r' : Registry T} {kids : Handle → List Handle} (h : Forest r kids)
    {e : Handle} (he : r.Has e) (hu : Unlinked r r' e) :
    Forest (((r'.assign e .parent none).assign e .next none).assign e .prev none)
      (detach kids e) := by
  have hhas := (hu.has e).mpr he
  have hl : ∀ l x, (((r'.assign e .parent none).assign e .next none).assign e .prev none).link l x =
      if x = e ∧ l ≠ .first then none else r'.link l x := by
    intro l x
    rw [link_assign _ (by simpa using hhas), link_assign _ (by simpa using hhas),
      link_assign _ hhas]
    by_cases hx : x = e
    · cases l <;> simp [hx]
    · simp [hx]
  -- the neighbours of `e` are its siblings
  have hsib : ∀ {p x}, x ∈ kids p → (r.link .prev e = some x ∨ r.link .next e = some x) →
      e ∈ kids p := by
    intro p x hxp hx
    obtain ⟨q, heq, hxq⟩ := h.sibling_of_link hx
    exact h.shape.unique q p x hxq hxp ▸ heq
  refine ⟨h.shape.detach, fun x hx => ?_, fun x hx => ?_, fun p => ?_, fun p c => ?_, fun p => ?_,
    fun x hx => ?_⟩
  · have hx : r.Has x := (hu.has x).mp (by simpa using hx)
    have hv := h.live x hx
    rw [Valid, ← hu.entities] at hv
    exact hv
  · have hv := h.transform_live x (hu.transform ▸ hx)
    rw [Valid, ← hu.entities] at hv
    exact hv
  · rw [hl, if_neg (by simp), hu.first, h.first]
    by_cases hep : e ∈ kids p
    · rw [detach, (h.siblings p).head_erase (h.shape.nodup p) hep]
      simp [(h.parent p e).mp hep]
    · rw [detach, List.erase_of_not_mem hep, if_neg]
      exact fun hpar => hep ((h.parent p e).mpr hpar.1)
  · rw [mem_detach h.shape, hl, h.parent, hu.parent]
    by_cases hce : c = e <;> simp [hce]
  · by_cases hep : e ∈ kids p
    · refine (h.siblings p).erase (h.shape.nodup p) hep (fun y _ hy => ?_) fun y _ hy => ?_
      · rw [hl, if_neg (by simp [hy]), hu.next]
      · rw [hl, if_neg (by simp [hy]), hu.prev]
    · rw [detach, List.erase_of_not_mem hep]
      refine (h.siblings p).congr (fun y hy => ?_) fun y hy => ?_
      · have hye : y ≠ e := fun heq => hep (heq ▸ hy)
        rw [hl, if_neg (by simp [hye]), hu.next, if_neg]
        exact fun hprev => hep (hsib hy (Or.inl hprev))
      · have hye : y ≠ e := fun heq => hep (heq ▸ hy)
        rw [hl, if_neg (by simp [hye]), hu.prev, if_neg]
        exact fun hnext => hep (hsib hy (Or.inr hnext))
  · by_cases hxe : x = e
    · rw [hl, hl, if_pos ⟨hxe, by simp⟩, if_pos ⟨hxe, by simp⟩]
      exact ⟨rfl, rfl⟩
    · rw [hl, if_neg (by simp [hxe]), hu.parent] at hx
      obtain ⟨hn, hp⟩ := h.root x hx
      -- a root is nobody's neighbour
      have hnot : ¬ (r.link .prev e = some x ∨ r.link .next e = some x) := by
        intro hlink
        obtain ⟨q, -, hxq⟩ := h.sibling_of_link hlink
        exact h.not_mem_of_root hx q hxq
      rw [hl, hl, if_neg (by simp [hxe]), if_neg (by simp [hxe]), hu.next, hu.prev,
        if_neg fun hlink => hnot (Or.inl hlink), if_neg fun hlink => hnot (Or.inr hlink)]
      exact ⟨hn, hp⟩

/-! ### `onConstruct` appends -/

/-- `lastSibling` walks to the end of a sibling list. -/
theorem lastSibling_settles {r : Registry T} {p : Option Handle} {x : Handle} {xs : List Handle}
    (hseg : Seg (r.link .next) (r.link .prev) p (x :: xs) none)
    (hlive : ∀ y ∈ x :: xs, r.Valid y ∧ r.Has y) :
    Settles (fun fuel => lastSibling fuel r x) (.ok (xs.getLast?.getD x)) := by
  induction xs generalizing x p with
  | nil =>
      obtain ⟨hv, hhas⟩ := hlive x (by simp)
      obtain ⟨c, hc⟩ := Option.isSome_iff_exists.mp hhas
      obtain ⟨-, hnext, -⟩ := hseg
      have hnone : c.next = none := (link_of_some hc .next).symm.trans hnext
      refine Settles.of_succ (Settles.of_forall fun fuel => ?_)
      simp only [lastSibling, tryGet_of_valid hv, hc, Except.bind, hnone]
      rfl
  | cons y ys ih =>
      obtain ⟨hv, hhas⟩ := hlive x (by simp)
      obtain ⟨c, hc⟩ := Option.isSome_iff_exists.mp hhas
      obtain ⟨-, hnext, hrest⟩ := hseg
      have hsome : c.next = some y := (link_of_some hc .next).symm.trans hnext
      have hlast : (y :: ys).getLast?.getD x = ys.getLast?.getD y := by
        rw [List.getLast?_cons, Option.getD_some]
      rw [hlast]
      refine Settles.of_succ ((ih hrest fun z hz => hlive z (List.mem_cons_of_mem x hz)).congr
        fun fuel => ?_)
      simp only [lastSibling, tryGet_of_valid hv, hc, Except.bind, hsome]

/-- What `onConstruct` does to a root `e` whose parent field has been set to `p`. -/
structure Appended (r r' : Registry T) (kids : Handle → List Handle) (e p : Handle) : Prop where
  entities : r'.entities = r.entities
  transform : r'.transform = r.transform
  has : ∀ x, r'.Has x ↔ r.Has x
  parent : ∀ x, r'.link .parent x = if x = e then some p else r.link .parent x
  first : ∀ x, r'.link .first x = if x = p ∧ kids p = [] then some e else r.link .first x
  next : ∀ x, r'.link .next x = if (kids p).getLast? = some x then some e else r.link .next x
  prev : ∀ x, r'.link .prev x = if x = e then (kids p).getLast? else r.link .prev x

/-- **`onConstruct`** below a parent that has a `Hierarchy`. -/
theorem onConstruct_settles {r : Registry T} {kids : Handle → List Handle} (h : Forest r kids)
    {e p : Handle} (he : r.Has e) (hroot : r.link .parent e = none) (hp : r.Has p) :
    ∃ r', Settles (fun fuel => onConstruct fuel (r.assign e .parent (some p)) e) (.ok r') ∧
      Appended r r' kids e p := by
  obtain ⟨hnext, hprev⟩ := h.root e hroot
  have hl := fun l x => link_assign r he .parent (some p) l x
  have hve := h.live e he
  have hvp := h.live p hp
  obtain ⟨c, hc⟩ := Option.isSome_iff_exists.mp ((has_assign r e .parent (some p) e).mpr he)
  obtain ⟨cp, hcp⟩ := Option.isSome_iff_exists.mp ((has_assign r e .parent (some p) p).mpr hp)
  have hpar : c.parent = some p := by
    have hparent := link_of_some hc .parent
    rw [hl, if_pos ⟨rfl, rfl⟩] at hparent
    exact hparent.symm
  have hfirst : cp.first = (kids p).head? := by
    have hfirst := link_of_some hcp .first
    rw [hl, if_neg (by simp), h.first] at hfirst
    exact hfirst.symm
  have hget : (r.assign e .parent (some p)).get e = .ok c := get_of_some hve hc
  have hgetp : (r.assign e .parent (some p)).get p = .ok cp := get_of_some hvp hcp
  have hgoe : ∀ hook, (r.assign e .parent (some p)).getOrEmplace hook p =
      .ok (r.assign e .parent (some p)) := by
    intro hook
    rw [getOrEmplace, tryGet_of_valid (show (r.assign e .parent (some p)).Valid p from hvp), hcp]
    rfl
  cases hkids : kids p with
  | nil =>
      -- the only child
      rw [hkids] at hfirst
      refine ⟨(r.assign e .parent (some p)).assign p .first (some e),
        Settles.of_succ (Settles.of_forall fun fuel => ?_), rfl, rfl, fun x => ?_, ?_, ?_, ?_, ?_⟩
      · simp only [onConstruct, hget, Except.bind, hpar, hgoe, hgetp, hfirst]
        rfl
      · rw [has_assign, has_assign]
      all_goals
        intro x
        rw [link_assign _ (by simpa using hp), hl]
      · simp
      · simp [hkids]
      · simp [hkids]
      · by_cases hx : x = e
        · simp [hx, hprev, hkids]
        · simp [hx]
  | cons y ys =>
      rw [hkids] at hfirst
      have hmem : ∀ z ∈ y :: ys, z ∈ kids p := fun z hz => hkids ▸ hz
      have hne : ∀ z ∈ kids p, z ≠ e := fun z hz heq => h.not_mem_of_root hroot p (heq ▸ hz)
      have hlast : (kids p).getLast? = some (ys.getLast?.getD y) := by
        rw [hkids, List.getLast?_cons]
      have hlastmem : ys.getLast?.getD y ∈ kids p := List.mem_of_getLast? hlast
      have hwalk : Settles (fun fuel => lastSibling fuel (r.assign e .parent (some p)) y)
          (.ok (ys.getLast?.getD y)) := by
        have hseg := h.siblings p
        rw [hkids] at hseg
        refine lastSibling_settles (hseg.congr (fun z _ => ?_) fun z _ => ?_) fun z hz => ?_
        · rw [hl, if_neg (by simp)]
        · rw [hl, if_neg (by simp)]
        · exact ⟨h.valid_child (hmem z hz), (has_assign ..).mpr (h.has_child (hmem z hz))⟩
      refine ⟨((r.assign e .parent (some p)).assign (ys.getLast?.getD y) .next (some e)).assign e
        .prev (some (ys.getLast?.getD y)), ?_, rfl, rfl, fun x => ?_, ?_, ?_, ?_, ?_⟩
      · refine Settles.of_succ ((hwalk.comp (Except.map fun prevEnt =>
          ((r.assign e .parent (some p)).assign prevEnt .next (some e)).assign e .prev
            (some prevEnt))).congr fun fuel => ?_)
        simp only [onConstruct, hget, Except.bind, hpar, hgoe, hgetp, hfirst, List.head?_cons]
      · rw [has_assign, has_assign, has_assign]
      all_goals
        intro x
        rw [link_assign _ (by simpa using he), link_assign _ (by simpa using h.has_child hlastmem),
          hl]
      · simp
      · simp [hkids]
      · rw [hlast]
        simp [eq_comm (a := x)]
      · rw [hlast]
        by_cases hx : x = e
        · simp [hx]
        · simp [hx]

/-- The forest after an append. -/
theorem Appended.forest {r r' : Registry T} {kids : Handle → List Handle} (h : Forest r kids)
    {e p : Handle} (hroot : r.link .parent e = none) (hp : ¬ Below kids e p)
    (ha : Appended r r' kids e p) : Forest r' (Function.update kids p (kids p ++ [e])) := by
  obtain ⟨hnext, hprev⟩ := h.root e hroot
  have hnot := h.not_mem_of_root hroot
  have hlastmem : ∀ {x}, (kids p).getLast? = some x → x ∈ kids p := List.mem_of_getLast?
  have hlastne : (kids p).getLast? ≠ some e := fun hlast => hnot p (hlastmem hlast)
  refine ⟨h.shape.append hnot hp, fun x hx => ?_, fun x hx => ?_, fun q => ?_, fun q c => ?_,
    fun q => ?_, fun x hx => ?_⟩
  · have hv := h.live x ((ha.has x).mp hx)
    rw [Valid, ← ha.entities] at hv
    exact hv
  · have hv := h.transform_live x (ha.transform ▸ hx)
    rw [Valid, ← ha.entities] at hv
    exact hv
  · rw [ha.first, h.first]
    by_cases hq : q = p
    · subst hq
      cases hkids : kids q with
      | nil => simp
      | cons y ys => simp
    · simp [hq]
  · rw [ha.parent]
    by_cases hce : c = e
    · subst hce
      by_cases hq : q = p
      · simp [hq]
      · simp [hq, hnot q, Ne.symm hq]
    · by_cases hq : q = p
      · subst hq
        simp [hce, h.parent]
      · simp [hce, hq, h.parent]
  · by_cases hq : q = p
    · subst hq
      rw [Function.update_self]
      refine (h.siblings q).snoc (h.shape.nodup q) (fun y _ => ha.next y) (fun y hy => ?_) ?_ ?_
      · rw [ha.prev, if_neg fun heq : y = e => hnot q (heq ▸ hy)]
      · rw [ha.next, if_neg hlastne, hnext]
      · rw [ha.prev, if_pos rfl]
    · rw [Function.update_of_ne hq]
      refine (h.siblings q).congr (fun y hy => ?_) fun y hy => ?_
      · rw [ha.next, if_neg]
        exact fun hlast => hq (h.shape.unique q p y hy (hlastmem hlast))
      · rw [ha.prev, if_neg fun heq : y = e => hnot q (heq ▸ hy)]
  · rw [ha.parent] at hx
    have hxe : x ≠ e := by
      intro heq
      simp [heq] at hx
    rw [if_neg hxe] at hx
    obtain ⟨hn, hp'⟩ := h.root x hx
    rw [ha.next, ha.prev, if_neg hxe, if_neg fun hlast => h.not_mem_of_root hx p (hlastmem hlast)]
    exact ⟨hn, hp'⟩

end Hierarchy

/-! ### The smallest hierarchy with a link -/

namespace Registry

/-- Two entities without a `Hierarchy`. -/
def twoEntities (t₀ t₁ : Option T) : Registry T where
  entities := ⟨[0, 0], [], List.nodup_nil, by simp⟩
  hierarchy := fun _ => none
  transform := fun e => if e = ⟨0, 0⟩ then t₀ else if e = ⟨1, 0⟩ then t₁ else none

/-- Two entities; the second one is the only child of the first one. -/
def parentAndChild (t₀ t₁ : Option T) : Registry T :=
  ((twoEntities t₀ t₁).put ⟨0, 0⟩ { first := some ⟨1, 0⟩ }).put ⟨1, 0⟩ { parent := some ⟨0, 0⟩ }

end Registry

theorem valid_twoEntities (t₀ t₁ : Option T) (x : Handle) :
    (twoEntities t₀ t₁).Valid x ↔ x = ⟨0, 0⟩ ∨ x = ⟨1, 0⟩ := by
  obtain ⟨i, v⟩ := x
  simp only [Valid, Entities.Valid, twoEntities, List.not_mem_nil, not_false_eq_true, and_true,
    Handle.mk.injEq]
  rcases i with _ | _ | i
  · simp [eq_comm]
  · simp [eq_comm]
  · simp

theorem forest_twoEntities (t₀ t₁ : Option T) : Forest (twoEntities t₀ t₁) fun _ => [] := by
  refine ⟨⟨fun _ => List.nodup_nil, by simp, fun _ => 0, 0, by simp⟩, ?_, fun e he => ?_,
    fun _ => rfl, ?_, fun _ => trivial, fun _ _ => ⟨rfl, rfl⟩⟩
  · simp [Has, twoEntities]
  · by_cases h₀ : e = ⟨0, 0⟩
    · subst h₀
      exact ⟨rfl, List.not_mem_nil⟩
    · by_cases h₁ : e = ⟨1, 0⟩
      · subst h₁
        exact ⟨rfl, List.not_mem_nil⟩
      · simp [twoEntities, h₀, h₁] at he
  · simp [Registry.link, twoEntities]

theorem forest_parentAndChild (t₀ t₁ : Option T) :
    Forest (parentAndChild t₀ t₁) (Function.update (fun _ => []) ⟨0, 0⟩ [⟨1, 0⟩]) := by
  have h₀ := (forest_twoEntities t₀ t₁).put (e := ⟨0, 0⟩) ⟨rfl, List.not_mem_nil⟩
    (by simp [Has, twoEntities])
  have h₁ := h₀.put (e := ⟨1, 0⟩) ⟨rfl, List.not_mem_nil⟩ (by simp [Has, twoEntities, put])
  refine Hierarchy.Appended.forest (e := ⟨1, 0⟩) (p := ⟨0, 0⟩) h₁ (by simp; rfl) ?_
    ⟨rfl, rfl, fun x => ?_, fun x => ?_, fun x => ?_, fun x => ?_, fun x => ?_⟩
  · exact fun hbelow => absurd (hbelow.eq_of_leaf rfl) (by decide)
  · simp [parentAndChild]
  all_goals
    simp only [parentAndChild, link_put]
    by_cases hx₁ : x = ⟨1, 0⟩
    · subst hx₁
      rfl
    · by_cases hx₀ : x = ⟨0, 0⟩
      · subst hx₀
        rfl
      · simp [hx₀, hx₁]

end Maple
