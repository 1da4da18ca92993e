import Mathlib.Data.List.Dedup
import Maple.Lib.Run
import Maple.Scene.SceneGraphSound
import Maple.Scene.WorldMatrices

/-!
# Maple.Scene.HierarchyRuns

**Runs of the hierarchy operations.** A run starts with the empty registry. Every
state of a run is a well-formed hierarchy, and the children of an entity are
listed in the order in which they were last attached to it, as long as no entity
with children is dropped on empty space. Such a drop removes the `Hierarchy` of
the entity while its children still refer to it, and the next `setParent` of the
entity, which then skips the search for a cycle, can close one.
-/

namespace Maple

open Lib Registry SceneGraph

variable {T L M : Type}

/-! ### The operations -/

/-- An operation of the scene, the editor's drops included. -/
inductive SceneOp (T : Type) where
  | create (transform : Option T)
  | setParent (e p : Handle)
  /-- `reparent` to null -/
  | dropOnHeader (e : Handle)
  | dropOnNode (e p : Handle)
  | dropOnEmptySpace (e : Handle)
  | destroyEntity (e : Handle)

namespace SceneOp

/-- The operation is called with handles of live entities, and `create` if there
is a handle left. -/
def Admissible (r : Registry T) : SceneOp T → Prop
  | create t => ∃ created, r.create t = .ok created
  | setParent e p => r.Valid e ∧ r.Valid p
  | dropOnHeader e => r.Valid e
  | dropOnNode e p => r.Valid e ∧ r.Valid p
  | dropOnEmptySpace e => r.Valid e
  | destroyEntity e => r.Valid e

/-- The registry after the operation. -/
def apply (fuel : Nat) (r : Registry T) : SceneOp T → Except Fault (Registry T)
  | create t => (r.create t).map Prod.snd
  | setParent e p => Entity.setParent fuel r e p
  | dropOnHeader e => HierarchyWindow.dropOnHeader r e
  | dropOnNode e p => HierarchyWindow.dropOnNode fuel r e p
  | dropOnEmptySpace e => HierarchyWindow.dropOnEmptySpace r e
  | destroyEntity e => HierarchyWindow.destroyEntity fuel r e

/-- The pair of a child and its new parent, if the operation attaches a child. -/
def attached (fuel : Nat) (r : Registry T) : SceneOp T → Except Fault (Option (Handle × Handle))
  | setParent e p => (Entity.acceptable fuel r e p (r.hierarchy e)).map fun acceptable =>
      if acceptable then some (e, p) else none
  | dropOnNode e p => (HierarchyWindow.acceptable fuel r e p (r.hierarchy e)).map fun acceptable =>
      if acceptable then some (e, p) else none
  | _ => .ok none

end SceneOp

/-- One operation that ends without a fault, with what it attaches. -/
structure Step (r : Registry T) (a : SceneOp T × Option (Handle × Handle)) (r' : Registry T) :
    Prop where
  admissible : a.1.Admissible r
  attached : Settles (fun fuel => a.1.attached fuel r) (.ok a.2)
  apply : Settles (fun fuel => a.1.apply fuel r) (.ok r')

/-- The operation is not the drop on empty space of a child with children. -/
def SceneOp.Safe (r : Registry T) : SceneOp T → Prop
  | dropOnEmptySpace e => r.link .parent e = none ∨ r.link .first e = none
  | _ => True

/-- A step that drops no child with children on empty space. -/
def SafeStep (r : Registry T) (a : SceneOp T × Option (Handle × Handle)) (r' : Registry T) : Prop :=
  a.1.Safe r ∧ Step r a r'

/-- A step without a drop on empty space. -/
def PlainStep (r : Registry T) (a : SceneOp T × Option (Handle × Handle)) (r' : Registry T) :
    Prop :=
  (∀ e, a.1 ≠ .dropOnEmptySpace e) ∧ Step r a r'

theorem PlainStep.safe {r r' : Registry T} {a : SceneOp T × Option (Handle × Handle)}
    (h : PlainStep r a r') : SafeStep r a r' := by
  refine ⟨?_, h.2⟩
  cases hop : a.1 with
  | dropOnEmptySpace e => exact absurd hop (h.1 e)
  | _ => trivial

/-! ### The order of attachment -/

/-- The attachments of a run, in their order. -/
def attachments (hist : List (SceneOp T × Option (Handle × Handle))) : List (Handle × Handle) :=
  hist.filterMap Prod.snd

/-- The entities that were attached to `p`, in the order of their last attachment
to it. -/
def lastAttached (log : List (Handle × Handle)) (p : Handle) : List Handle :=
  ((log.filter (·.2 = p)).map Prod.fst).dedup

/-- `dedup` keeps last occurrences. -/
theorem dedup_concat {α : Type*} [DecidableEq α] (xs : List α) (a : α) :
    (xs ++ [a]).dedup = xs.dedup.filter (· ≠ a) ++ [a] := by
  induction xs with
  | nil => rfl
  | cons x xs ih =>
      by_cases hx : x ∈ xs
      · rw [List.cons_append, List.dedup_cons_of_mem (by simp [hx]), List.dedup_cons_of_mem hx, ih]
      · rw [List.cons_append, List.dedup_cons_of_notMem hx]
        by_cases hxa : x = a
        · rw [List.dedup_cons_of_mem (by simp [hxa]), ih, List.filter_cons_of_neg (by simp [hxa])]
        · rw [List.dedup_cons_of_notMem (by simp [hx, hxa]), ih,
            List.filter_cons_of_pos (by simp [hxa])]
          rfl

theorem lastAttached_concat (log : List (Handle × Handle)) (e p q : Handle) :
    lastAttached (log ++ [(e, p)]) q =
      if q = p then (lastAttached log q).filter (· ≠ e) ++ [e] else lastAttached log q := by
  unfold lastAttached
  by_cases hq : q = p
  · simp only [List.filter_append, List.map_append, hq, if_true, List.filter_cons_of_pos,
      decide_true, List.filter_nil, List.map_cons, List.map_nil, dedup_concat]
  · have hne : ¬ p = q := fun heq => hq heq.symm
    simp [List.filter_append, hq, hne]

/-- The child lists are ordered by the last attachments in `log`. -/
def Recorded (kids : Handle → List Handle) (log : List (Handle × Handle)) : Prop :=
  ∀ p, kids p = (lastAttached log p).filter (· ∈ kids p)

/-- A sublist of a list without repetitions is given by its members. -/
theorem eq_filter_of_sublist {α : Type*} [DecidableEq α] {xs ys : List α}
    (hsub : List.Sublist ys xs) (hnodup : xs.Nodup) : ys = xs.filter (· ∈ ys) := by
  have hself : ys.filter (· ∈ ys) = ys := List.filter_eq_self.mpr (by simp)
  have hfilter := hsub.filter (· ∈ ys)
  rw [hself] at hfilter
  refine hfilter.eq_of_length_le (List.Nodup.length_le_of_subset (hnodup.filter _) fun y hy => ?_)
  simpa using (List.mem_filter.mp hy).2

namespace Recorded

variable {kids : Handle → List Handle} {log : List (Handle × Handle)}

theorem sub {kids' : Handle → List Handle} (h : Recorded kids log) (hkids : Kids kids)
    (hsub : ∀ p, List.Sublist (kids' p) (kids p)) : Recorded kids' log := by
  intro p
  calc kids' p = (kids p).filter (· ∈ kids' p) := eq_filter_of_sublist (hsub p) (hkids.nodup p)
    _ = ((lastAttached log p).filter (· ∈ kids p)).filter (· ∈ kids' p) := by rw [← h p]
    _ = (lastAttached log p).filter (· ∈ kids' p) := by
      rw [List.filter_filter]
      refine List.filter_congr fun c _ => ?_
      rw [Bool.and_eq_left_iff_imp, decide_eq_true_iff, decide_eq_true_iff]
      exact fun hc => (hsub p).subset hc

/-- An attached child comes last. -/
theorem attach (h : Recorded kids log) (hkids : Kids kids) (e p : Handle) :
    Recorded (attach kids e p) (log ++ [(e, p)]) := by
  intro q
  have hq := h.sub hkids (fun p => List.erase_sublist (a := e) (l := kids p)) q
  rw [lastAttached_concat]
  by_cases hqp : q = p
  · subst hqp
    have hattach : Lib.attach kids e q q = detach kids e q ++ [e] := Function.update_self ..
    rw [hattach, if_pos rfl, List.filter_append, List.filter_filter]
    congr 1
    · refine hq.trans (List.filter_congr fun c _ => ?_)
      by_cases hce : c = e
      · have hnot : c ∉ (kids q).erase e := hce ▸ (hkids.nodup q).not_mem_erase
        simp [hce, hce ▸ hnot]
      · simp [hce, detach]
    · simp
  · have hattach : Lib.attach kids e p q = detach kids e q := Function.update_of_ne hqp ..
    rw [hattach, if_neg hqp]
    exact hq

end Recorded

/-! ### What a step does to the forest -/

/-- The invariant of runs. -/
def Ordered (r : Registry T) (log : List (Handle × Handle)) : Prop :=
  ∃ kids, Forest r kids ∧ Recorded kids log

variable {r r' : Registry T} {log : List (Handle × Handle)}

/-- What an operation does to the child lists: a child is attached, or children are
taken away. -/
def Rearranged (kids kids' : Handle → List Handle) : Option (Handle × Handle) → Prop
  | none => ∀ p, List.Sublist (kids' p) (kids p)
  | some (e, p) => kids' = attach kids e p

theorem Recorded.rearranged {kids kids' : Handle → List Handle}
    {event : Option (Handle × Handle)} (hrec : Recorded kids log) (hkids : Kids kids)
    (h : Rearranged kids kids' event) : Recorded kids' (log ++ event.toList) := by
  cases event with
  | none => exact (List.append_nil log).symm ▸ hrec.sub hkids h
  | some event =>
      obtain ⟨e, p⟩ := event
      rw [show kids' = Lib.attach kids e p from h]
      exact hrec.attach hkids e p

/-- The outcome of a guarded move. -/
theorem rearranged_of_guard {kids : Handle → List Handle} (h : Forest r kids) {e p : Handle}
    {b : Bool} (hsame : b = false → r' = r) (hmoved : b = true → Forest r' (attach kids e p)) :
    ∃ kids', Forest r' kids' ∧ Rearranged kids kids' (if b then some (e, p) else none) := by
  cases b with
  | false =>
      obtain rfl := hsame rfl
      exact ⟨kids, h, fun p => List.Sublist.refl (kids p)⟩
  | true => exact ⟨_, hmoved rfl, rfl⟩

/-- Every safe operation ends, and leaves a forest. -/
theorem SceneOp.exists_forest {kids : Handle → List Handle} (h : Forest r kids) {op : SceneOp T}
    (hadm : op.Admissible r) (hsafe : op.Safe r) :
    ∃ event r' kids', Step r (op, event) r' ∧ Forest r' kids' ∧ Rearranged kids kids' event := by
  cases op with
  | create t =>
      obtain ⟨⟨e, r'⟩, hcreate⟩ := hadm
      have happly : ((r.create t).map Prod.snd) = .ok r' := by rw [hcreate]; rfl
      exact ⟨none, r', kids, ⟨⟨_, hcreate⟩, Settles.of_forall fun _ => rfl,
        Settles.of_forall fun _ => happly⟩, Hierarchy.create_forest h hcreate,
        fun p => List.Sublist.refl (kids p)⟩
  | setParent e p =>
      obtain ⟨b, hguard, hb⟩ := Entity.acceptable_settles h (e := e) hadm.2
      obtain ⟨r', hrun, -, hsame, hmoved⟩ := Entity.setParent_settles h hadm.1 hadm.2
      obtain ⟨kids', h', hre⟩ := rearranged_of_guard h (b := b)
        (fun hfalse => hsame (not_not.mp fun hn => by simp [hb.mpr hn] at hfalse))
        fun htrue => hmoved (hb.mp htrue)
      exact ⟨_, r', kids', ⟨hadm, hguard.comp (Except.map _), hrun⟩, h', hre⟩
  | dropOnHeader e =>
      obtain ⟨r', hrun, -, h'⟩ := HierarchyWindow.dropOnHeader_eq h hadm
      exact ⟨none, r', _, ⟨hadm, Settles.of_forall fun _ => rfl, Settles.of_forall fun _ => hrun⟩,
        h', fun _ => List.erase_sublist⟩
  | dropOnNode e p =>
      obtain ⟨b, hguard, hb⟩ := HierarchyWindow.acceptable_settles h (e := e) hadm.2
      obtain ⟨r', hrun, -, hsame, hmoved⟩ := HierarchyWindow.dropOnNode_settles h hadm.1 hadm.2
      obtain ⟨kids', h', hre⟩ := rearranged_of_guard h (b := b)
        (fun hfalse => hsame fun hn => by simp [hb.mpr hn] at hfalse)
        fun htrue => hmoved (hb.mp htrue)
      exact ⟨_, r', kids', ⟨hadm, hguard.comp (Except.map _), hrun⟩, h', hre⟩
  | dropOnEmptySpace e =>
      have hleaf : r.link .parent e = none ∨ kids e = [] := by
        refine hsafe.imp_right fun hfirst => ?_
        rwa [h.first, List.head?_eq_none_iff] at hfirst
      obtain ⟨r', hrun, -, h'⟩ := HierarchyWindow.dropOnEmptySpace_eq h hadm hleaf
      exact ⟨none, r', _, ⟨hadm, Settles.of_forall fun _ => rfl, Settles.of_forall fun _ => hrun⟩,
        h', fun _ => List.erase_sublist⟩
  | destroyEntity e =>
      obtain ⟨r', hrun, -, h'⟩ := HierarchyWindow.destroyEntity_settles h hadm
      exact ⟨none, r', _, ⟨hadm, Settles.of_forall fun _ => rfl, hrun⟩, h', fun _ => prune_sublist⟩

/-- Every safe operation ends, and the invariant holds afterwards. -/
theorem SceneOp.exists_step (h : Ordered r log) {op : SceneOp T} (hadm : op.Admissible r)
    (hsafe : op.Safe r) : ∃ event r', Step r (op, event) r' ∧ Ordered r' (log ++ event.toList) := by
  obtain ⟨kids, h, hrec⟩ := h
  obtain ⟨event, r', kids', hstep, h', hre⟩ := SceneOp.exists_forest h hadm hsafe
  exact ⟨event, r', hstep, kids', h', hrec.rearranged h.shape hre⟩

/-- An operation has no more than one outcome. -/
theorem Step.unique {op : SceneOp T} {event event' : Option (Handle × Handle)}
    {r₁ r₂ : Registry T} (h₁ : Step r (op, event) r₁) (h₂ : Step r (op, event') r₂) :
    event = event' ∧ r₁ = r₂ :=
  ⟨Except.ok.inj (h₁.attached.unique h₂.attached), Except.ok.inj (h₁.apply.unique h₂.apply)⟩

/-- **One step.** -/
theorem SafeStep.ordered {a : SceneOp T × Option (Handle × Handle)} (h : Ordered r log)
    (hstep : SafeStep r a r') : Ordered r' (log ++ a.2.toList) := by
  obtain ⟨op, event⟩ := a
  obtain ⟨hsafe, hstep⟩ := hstep
  obtain ⟨event', r'', hstep', h'⟩ := SceneOp.exists_step h hstep.admissible hsafe
  obtain ⟨rfl, rfl⟩ := hstep.unique hstep'
  exact h'

/-- **Every run** keeps the invariant. -/
theorem ordered_of_run {hist : List (SceneOp T × Option (Handle × Handle))}
    (hrun : Run SafeStep Registry.empty hist r) : Ordered r (attachments hist) := by
  refine hrun.invariant (I := fun hist r => Ordered r (attachments hist)) ?_ ?_
  · exact ⟨_, Forest.empty, fun _ => rfl⟩
  · intro hist r a r' h hstep
    have hlog : attachments (hist ++ [a]) = attachments hist ++ a.2.toList := by
      rw [attachments, attachments, List.filterMap_append]
      cases ha : a.2 with
      | none => simp [ha]
      | some event => simp [ha]
    show Ordered r' (attachments (hist ++ [a]))
    rw [hlog]
    exact hstep.ordered h

/-! ### Sibling lists -/

/-- `l` is the sibling list of the children of `p`: the walk from `first` along
`next` to null, with `prev` the way back. -/
structure SiblingList (r : Registry T) (log : List (Handle × Handle)) (p : Handle)
    (l : List Handle) : Prop where
  first : r.link .first p = l.head?
  links : Seg (r.link .next) (r.link .prev) none l none
  nodup : l.Nodup
  children : ∀ c, c ∈ l ↔ r.Valid c ∧ r.link .parent c = some p
  getChildren : Settles (fun fuel => Entity.getChildren fuel r p) (.ok l)
  order : l = (lastAttached log p).filter (r.link .parent · = some p)

/-- **The sibling lists of every run** without drops on empty space. -/
theorem siblings_of_run {hist : List (SceneOp T × Option (Handle × Handle))}
    (hrun : Run PlainStep Registry.empty hist r) {p : Handle} (hv : r.Valid p) :
    ∃ l, SiblingList r (attachments hist) p l := by
  obtain ⟨kids, h, hrec⟩ := ordered_of_run (hrun.mono fun _ _ _ => PlainStep.safe)
  refine ⟨kids p, h.first p, h.siblings p, h.shape.nodup p, fun c => ?_,
    Entity.getChildren_settles h hv, (hrec p).trans (List.filter_congr fun c _ => ?_)⟩
  · exact ⟨fun hc => ⟨h.valid_child hc, (h.parent p c).mp hc⟩, fun hc => (h.parent p c).mpr hc.2⟩
  · rw [decide_eq_decide]
    exact h.parent p c

/-- Three entities are created, and two of them become children of the first one. -/
theorem siblings_of_run_two : ∃ r : Registry Nat,
    Run PlainStep Registry.empty
      [(.create none, none), (.create none, none), (.create none, none),
        (.setParent ⟨1, 0⟩ ⟨0, 0⟩, some (⟨1, 0⟩, ⟨0, 0⟩)),
        (.setParent ⟨2, 0⟩ ⟨0, 0⟩, some (⟨2, 0⟩, ⟨0, 0⟩))] r ∧
      SiblingList r [(⟨1, 0⟩, ⟨0, 0⟩), (⟨2, 0⟩, ⟨0, 0⟩)] ⟨0, 0⟩ [⟨1, 0⟩, ⟨2, 0⟩] := by
  have hrun : Run PlainStep (Registry.empty : Registry Nat)
      ([] ++ [(.create none, none)] ++ [(.create none, none)] ++ [(.create none, none)] ++
        [(.setParent ⟨1, 0⟩ ⟨0, 0⟩, some (⟨1, 0⟩, ⟨0, 0⟩))] ++
        [(.setParent ⟨2, 0⟩ ⟨0, 0⟩, some (⟨2, 0⟩, ⟨0, 0⟩))]) _ :=
    .snoc (.snoc (.snoc (.snoc (.snoc (.nil _)
      ⟨by simp, ⟨_, rfl⟩, Settles.of_forall fun _ => rfl, Settles.of_forall fun _ => rfl⟩)
      ⟨by simp, ⟨_, rfl⟩, Settles.of_forall fun _ => rfl, Settles.of_forall fun _ => rfl⟩)
      ⟨by simp, ⟨_, rfl⟩, Settles.of_forall fun _ => rfl, Settles.of_forall fun _ => rfl⟩)
      ⟨by simp, ⟨by decide, by decide⟩, Settles.of_forall fun _ => rfl,
        Settles.of_add 3 fun _ => rfl⟩)
      ⟨by simp, ⟨by decide, by decide⟩, Settles.of_add 3 fun _ => rfl,
        Settles.of_add 3 fun _ => rfl⟩
  obtain ⟨l, hl⟩ := siblings_of_run hrun (show Registry.Valid _ ⟨0, 0⟩ by decide)
  have hlist : l = [⟨1, 0⟩, ⟨2, 0⟩] := hl.order.trans (by decide)
  exact ⟨_, hrun, hlist ▸ hl⟩

/-! ### Cycles -/

/-- `p` is the parent of `e`. -/
def IsParent (r : Registry T) (e p : Handle) : Prop := r.link .parent e = some p

/-- No entity is its own proper ancestor, and the loops and recursions along the
hierarchy end. -/
structure Acyclic [Monoid M] (compose : L → M) (r : Registry (Transform L M)) : Prop where
  acyclic : ∀ e, ¬ Relation.TransGen (IsParent r) e e
  isParent : ∀ e p, r.Valid e → ∃ b, Settles (fun fuel => Entity.isParent fuel r e p) (.ok b)
  isParentOfEntity : ∀ e c, r.Valid c →
    ∃ b, Settles (fun fuel => HierarchyWindow.isParentOfEntity fuel r e c) (.ok b)
  updateTransform : ∀ e written, r.Valid e →
    ∃ s, Settles (fun fuel => updateTransform compose fuel ⟨r, written⟩ e) (.ok s)
  destroyEntity : ∀ e, r.Valid e →
    ∃ r', Settles (fun fuel => HierarchyWindow.destroyEntity fuel r e) (.ok r')

/-- An ancestor of `e` has `e` below it. -/
theorem Forest.below_of_ancestor {kids : Handle → List Handle} (h : Forest r kids) {e a : Handle}
    (hanc : Relation.TransGen (IsParent r) e a) : ∃ p, e ∈ kids p ∧ Below kids a p := by
  induction hanc using Relation.TransGen.head_induction_on with
  | @single e hp => exact ⟨a, (h.parent a e).mpr hp, Relation.ReflTransGen.refl⟩
  | @head e p hp _ ih =>
      obtain ⟨q, hq, hbelow⟩ := ih
      exact ⟨p, (h.parent p e).mpr hp, Relation.ReflTransGen.tail hbelow hq⟩

/-- No entity is its own ancestor. -/
theorem Forest.not_ancestor_self {kids : Handle → List Handle} (h : Forest r kids) (e : Handle) :
    ¬ Relation.TransGen (IsParent r) e e := by
  intro hcycle
  obtain ⟨p, hp, hbelow⟩ := h.below_of_ancestor hcycle
  exact h.shape.not_below_parent hp hbelow

/-- **The hierarchy of every run is acyclic** if every entity that is dropped on
empty space has no parent or no children. -/
theorem acyclic_of_run [Monoid M] (compose : L → M) {r : Registry (Transform L M)}
    {hist : List (SceneOp (Transform L M) × Option (Handle × Handle))}
    (hrun : Run SafeStep Registry.empty hist r) : Acyclic compose r := by
  obtain ⟨kids, h, -⟩ := ordered_of_run hrun
  refine ⟨h.not_ancestor_self, fun e p hv => ?_, fun e c hv => ?_, fun e written hv => ?_,
    fun e hv => ?_⟩
  · obtain ⟨b, hb, -⟩ := Hierarchy.isAbove_settles h (a := p) hv
    exact ⟨b, hb⟩
  · obtain ⟨b, hb, -⟩ := Hierarchy.isAbove_settles h (a := e) hv
    exact ⟨b, hb⟩
  · obtain ⟨s, hs, -⟩ := updateTransform_total compose h
      (s := ⟨r, written⟩) ⟨rfl, rfl⟩ hv
    exact ⟨s, hs⟩
  · obtain ⟨r', hr', -⟩ := HierarchyWindow.destroyEntity_settles h hv
    exact ⟨r', hr'⟩

/-- A child without children is dropped on empty space. -/
theorem acyclic_of_run_drop : ∃ r : Registry (Transform Nat Nat),
    Run SafeStep Registry.empty
      [(.create none, none), (.create none, none),
        (.setParent ⟨1, 0⟩ ⟨0, 0⟩, some (⟨1, 0⟩, ⟨0, 0⟩)), (.dropOnEmptySpace ⟨1, 0⟩, none)] r ∧
      Acyclic id r := by
  have hrun : Run SafeStep (Registry.empty : Registry (Transform Nat Nat))
      ([] ++ [(.create none, none)] ++ [(.create none, none)] ++
        [(.setParent ⟨1, 0⟩ ⟨0, 0⟩, some (⟨1, 0⟩, ⟨0, 0⟩))] ++
        [(.dropOnEmptySpace ⟨1, 0⟩, none)]) _ :=
    .snoc (.snoc (.snoc (.snoc (.nil _)
      ⟨trivial, ⟨_, rfl⟩, Settles.of_forall fun _ => rfl, Settles.of_forall fun _ => rfl⟩)
      ⟨trivial, ⟨_, rfl⟩, Settles.of_forall fun _ => rfl, Settles.of_forall fun _ => rfl⟩)
      ⟨trivial, ⟨by decide, by decide⟩, Settles.of_forall fun _ => rfl,
        Settles.of_add 3 fun _ => rfl⟩)
      ⟨Or.inr rfl, (by decide : Registry.Valid _ _), Settles.of_forall fun _ => rfl,
        Settles.of_forall fun _ => rfl⟩
  exact ⟨_, hrun, acyclic_of_run id hrun⟩

/-- The ancestor loop does not end in a cycle of two entities. -/
theorem climbsTo_cycle {a e p : Handle} (he : r.Valid e) (hp : r.Valid p) (hep : IsParent r e p)
    (hpe : IsParent r p e) (hea : e ≠ a) (hpa : p ≠ a) (fuel : Nat) :
    Hierarchy.climbsTo a fuel r (some e) = .error .outOfFuel ∧
      Hierarchy.climbsTo a fuel r (some p) = .error .outOfFuel := by
  induction fuel with
  | zero => exact ⟨rfl, rfl⟩
  | succ fuel ih =>
      have hnext : ∀ {x y}, r.Valid x → x ≠ a → IsParent r x y →
          Hierarchy.climbsTo a (fuel + 1) r (some x) = Hierarchy.climbsTo a fuel r (some y) := by
        intro x y hx hxa hxy
        rw [Hierarchy.climbsTo, if_neg hxa, tryGet_of_valid hx, ← hxy]
        rfl
      exact ⟨(hnext he hea hep).trans ih.2, (hnext hp hpa hpe).trans ih.1⟩

/-- Three entities in a chain; the middle one is dropped on empty space and then
attached to its own child. -/
def dropThenAttach : List (SceneOp T × Option (Handle × Handle)) :=
  [] ++ [(.create none, none)] ++ [(.create none, none)] ++ [(.create none, none)] ++
    [(.setParent ⟨1, 0⟩ ⟨0, 0⟩, some (⟨1, 0⟩, ⟨0, 0⟩))] ++
    [(.setParent ⟨2, 0⟩ ⟨1, 0⟩, some (⟨2, 0⟩, ⟨1, 0⟩))] ++
    [(.dropOnEmptySpace ⟨1, 0⟩, none)] ++
    [(.setParent ⟨1, 0⟩ ⟨2, 0⟩, some (⟨1, 0⟩, ⟨2, 0⟩))]

/-- The dropped entity keeps its child, and the `setParent` after the drop makes
each of the two the parent of the other. -/
theorem dropThenAttach_parents : ∃ r : Registry (Transform Nat Nat),
    Run Step Registry.empty dropThenAttach r ∧ (r.Valid ⟨1, 0⟩ ∧ r.Valid ⟨2, 0⟩) ∧
      IsParent r ⟨1, 0⟩ ⟨2, 0⟩ ∧ IsParent r ⟨2, 0⟩ ⟨1, 0⟩ := by
  have hrun : Run Step (Registry.empty : Registry (Transform Nat Nat)) dropThenAttach _ :=
    .snoc (.snoc (.snoc (.snoc (.snoc (.snoc (.snoc (.nil _)
      ⟨⟨_, rfl⟩, Settles.of_forall fun _ => rfl, Settles.of_forall fun _ => rfl⟩)
      ⟨⟨_, rfl⟩, Settles.of_forall fun _ => rfl, Settles.of_forall fun _ => rfl⟩)
      ⟨⟨_, rfl⟩, Settles.of_forall fun _ => rfl, Settles.of_forall fun _ => rfl⟩)
      ⟨⟨by decide, by decide⟩, Settles.of_forall fun _ => rfl, Settles.of_add 3 fun _ => rfl⟩)
      ⟨⟨by decide, by decide⟩, Settles.of_forall fun _ => rfl, Settles.of_add 3 fun _ => rfl⟩)
      ⟨(by decide : Registry.Valid _ _), Settles.of_forall fun _ => rfl,
        Settles.of_forall fun _ => rfl⟩)
      ⟨⟨by decide, by decide⟩, Settles.of_forall fun _ => rfl, Settles.of_add 3 fun _ => rfl⟩
  refine ⟨_, hrun, ⟨by decide, by decide⟩, ?_, ?_⟩
  · show _ = _
    rfl
  · show _ = _
    rfl

/-- In that run an entity becomes its own ancestor, and the loop of `isParent`
does not end. -/
theorem dropThenAttach_cycle : ∃ r : Registry (Transform Nat Nat),
    Run Step Registry.empty dropThenAttach r ∧ Relation.TransGen (IsParent r) ⟨1, 0⟩ ⟨1, 0⟩ ∧
      ∀ fuel, Entity.isParent fuel r ⟨1, 0⟩ ⟨0, 0⟩ = .error .outOfFuel := by
  obtain ⟨r, hrun, ⟨hv₁, hv₂⟩, h₁, h₂⟩ := dropThenAttach_parents
  refine ⟨r, hrun, .head h₁ (.single h₂), fun fuel => ?_⟩
  have hcycle := climbsTo_cycle (a := ⟨0, 0⟩) hv₁ hv₂ h₁ h₂ (by decide) (by decide) fuel
  obtain ⟨c, hc⟩ := Option.isSome_iff_exists.mp (has_of_link h₁)
  have hparent : r.link .parent ⟨1, 0⟩ = some ⟨2, 0⟩ := h₁
  rw [← hcycle.2, ← hparent, link_of_some hc, Entity.isParent, Hierarchy.isAbove,
    tryGet_of_valid hv₁, hc]
  rfl

end Maple
