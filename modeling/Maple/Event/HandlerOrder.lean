import Maple.Event.EventDelivery

/-!
# Maple.Event.HandlerOrder

**The order of the handlers.** `EventDelivery` follows handlers that live forever. Here
they are constructed and destroyed, and a new one may be constructed at the address of an
old one. A destroyed handler waits in `eventHandlerDeleteSet`; a new handler at its
address that is added takes it out again and so inherits its place in `eventHandlers`,
whatever its own priority is.

The state carries, as history, the priorities by which the list was last sorted.
-/

namespace Maple.Event

variable {H : Type}

/-- A dispatcher with the handlers there are. No handler is alive at an address without a
priority. -/
structure Handlers (H : Type) extends EventDispatcher H where
  priority : H → Option Int
  sorted : H → Option Int

namespace Handlers

def init : Handlers H where
  eventHandlers := []
  eventHandlerAddSet := ∅
  eventHandlerDeleteSet := ∅
  eventDispatcher := fun _ => none
  priority := fun _ => none
  sorted := fun _ => none

def Alive (s : Handlers H) (h : H) : Prop := s.priority h ≠ none

instance (s : Handlers H) (h : H) : Decidable (s.Alive h) :=
  inferInstanceAs (Decidable (_ ≠ _))

/-- What the comparison of the merge reads at an address. -/
def priorityAt (s : Handlers H) (h : H) : Int := (s.priority h).getD 0

variable [LinearOrder H]

/-- `EventHandler(initPriority)`. -/
def construct (s : Handlers H) (h : H) (initPriority : Int) : Handlers H :=
  { s with
    priority := Function.update s.priority h (some initPriority)
    eventDispatcher := Function.update s.eventDispatcher h none }

/-- `EventHandler::remove`. The dispatcher of another owner does not change this one. -/
def remove (s : Handlers H) (h : H) : Handlers H :=
  match s.eventDispatcher h with
  | some .this => { s with toEventDispatcher := s.toEventDispatcher.removeEventHandler h }
  | some .other => { s with eventDispatcher := Function.update s.eventDispatcher h none }
  | none => s

/-- `~EventHandler`. -/
def destroy (s : Handlers H) (h : H) : Handlers H :=
  let s := s.remove h
  { s with
    priority := Function.update s.priority h none
    eventDispatcher := Function.update s.eventDispatcher h none }

/-- The merge of `dispatchEvents`. -/
def merge (s : Handlers H) : Handlers H :=
  { s with
    toEventDispatcher := s.toEventDispatcher.merge s.priorityAt
    sorted := s.priority }

end Handlers

/-- The calls, inside a callback or outside. -/
inductive HandlerCall (H : Type) where
  | construct (h : H) (initPriority : Int)
  | destroy (h : H)
  | addEventHandler (h : H)
  | removeEventHandler (h : H)
  | remove (h : H)
  | adopt (h : H)
  | dispatchEvents

variable [LinearOrder H]

/-- One call. The callbacks of `dispatchEvents` are calls of their own. -/
inductive HandlerStep (s : Handlers H) : HandlerCall H → Handlers H → Prop
  | construct (h : H) (initPriority : Int) (hdead : ¬ s.Alive h) :
      HandlerStep s (.construct h initPriority) (s.construct h initPriority)
  | destroy (h : H) (halive : s.Alive h) : HandlerStep s (.destroy h) (s.destroy h)
  | addEventHandler (h : H) (halive : s.Alive h) :
      HandlerStep s (.addEventHandler h)
        { s with toEventDispatcher := s.toEventDispatcher.addEventHandler h }
  | removeEventHandler (h : H) (halive : s.Alive h) :
      HandlerStep s (.removeEventHandler h)
        { s with toEventDispatcher := s.toEventDispatcher.removeEventHandler h }
  | remove (h : H) (halive : s.Alive h) : HandlerStep s (.remove h) (s.remove h)
  /-- Another dispatcher's `addEventHandler`. -/
  | adopt (h : H) (halive : s.Alive h) :
      HandlerStep s (.adopt h) { s with toEventDispatcher := s.toEventDispatcher.adopted h }
  | dispatchEvents : HandlerStep s .dispatchEvents s.merge

/-- A call that does not give an address of `eventHandlers` back with another priority:
an added handler has the priority by which its address was sorted, if it is in the list. -/
inductive SamePriorityStep (s : Handlers H) : HandlerCall H → Handlers H → Prop
  | intro {call : HandlerCall H} {s' : Handlers H} (hstep : HandlerStep s call s')
      (hsame : ∀ h, call = .addEventHandler h → h ∈ s.eventHandlers → s.priority h = s.sorted h) :
      SamePriorityStep s call s'

/-! ### Owners -/

namespace EventDispatcher

variable (d : EventDispatcher H) (h h' : H)

theorem removeEventHandler_owner_of_ne (hne : h' ≠ h) :
    (d.removeEventHandler h).eventDispatcher h' = d.eventDispatcher h' := by
  simp only [removeEventHandler]
  split
  · exact Function.update_of_ne hne ..
  · rfl

/-- The handler does not belong to this dispatcher after `removeEventHandler`. -/
theorem removeEventHandler_owner : (d.removeEventHandler h).eventDispatcher h ≠ some .this := by
  simp only [removeEventHandler]
  split
  · rw [Function.update_self]
    exact (Option.some_ne_none _).symm
  · assumption

theorem addEventHandler_owner : (d.addEventHandler h).eventDispatcher h' =
    if h' = h then some .this else d.eventDispatcher h' := by
  refine (Function.update_apply ..).trans (ite_congr rfl (fun _ => rfl) fun hne => ?_)
  split
  · exact d.removeEventHandler_owner_of_ne h h' hne
  · rfl

end EventDispatcher

namespace Handlers

/-! ### Owned handlers are alive -/

/-- What is in the list, or will be, belongs to this dispatcher, and what belongs to a
dispatcher is alive. -/
structure Owned (s : Handlers H) : Prop where
  nodup : s.eventHandlers.Nodup
  owned : ∀ h, h ∈ s.eventHandlerAddSet ∨ h ∈ s.eventHandlers ∧ h ∉ s.eventHandlerDeleteSet →
    s.eventDispatcher h = some .this
  alive : ∀ h, s.eventDispatcher h ≠ none → s.Alive h

namespace Owned

variable {s : Handlers H}

omit [LinearOrder H] in
theorem init : Owned (init : Handlers H) where
  nodup := List.nodup_nil
  owned h hh := by
    cases hh with
    | inl hadd => exact absurd hadd (Finset.notMem_empty h)
    | inr hlisted => exact absurd hlisted.1 List.not_mem_nil
  alive h hh := absurd rfl hh

/-- A change of the owner of one handler that does not wait in a set. -/
theorem setOwner (hs : s.Owned) {h : H} {owner : Option Owner} (priority : H → Option Int)
    (hfree : s.eventDispatcher h ≠ some .this) (halive : owner ≠ none → priority h ≠ none)
    (hsame : ∀ h', h' ≠ h → priority h' = s.priority h') :
    Owned { s with
      eventDispatcher := Function.update s.eventDispatcher h owner
      priority := priority } where
  nodup := hs.nodup
  owned h' hh' := by
    have hthis := hs.owned h' hh'
    have hne : h' ≠ h := fun heq => hfree (heq ▸ hthis)
    exact (Function.update_of_ne hne ..).trans hthis
  alive h' hh' := by
    by_cases heq : h' = h
    · subst heq
      exact halive (by simpa using hh')
    · have hother : s.eventDispatcher h' ≠ none := by simpa [heq] using hh'
      exact (hsame h' heq).trans_ne (hs.alive h' hother)

theorem removeEventHandler (hs : s.Owned) (h : H) :
    Owned { s with toEventDispatcher := s.toEventDispatcher.removeEventHandler h } where
  nodup := hs.nodup
  owned h' hh' := by
    have hne : h' ≠ h := by
      rintro rfl
      cases hh' with
      | inl hadd => exact (Finset.mem_erase.mp hadd).1 rfl
      | inr hlisted => exact hlisted.2 (Finset.mem_insert_self ..)
    have hbefore : h' ∈ s.eventHandlerAddSet ∨
        h' ∈ s.eventHandlers ∧ h' ∉ s.eventHandlerDeleteSet :=
      hh'.imp Finset.mem_of_mem_erase
        (And.imp_right fun hdel hmem => hdel (Finset.mem_insert_of_mem hmem))
    exact (s.removeEventHandler_owner_of_ne h h' hne).trans (hs.owned h' hbefore)
  alive h' hh' := by
    refine hs.alive h' fun hnone => hh' ?_
    simp only [EventDispatcher.removeEventHandler]
    split
    · by_cases heq : h' = h
      · exact heq ▸ Function.update_self ..
      · exact (Function.update_of_ne heq ..).trans hnone
    · exact hnone

theorem addEventHandler (hs : s.Owned) {h : H} (halive : s.Alive h) :
    Owned { s with toEventDispatcher := s.toEventDispatcher.addEventHandler h } where
  nodup := by
    rw [s.addEventHandler_eventHandlers]
    exact hs.nodup
  owned h' hh' := by
    rw [s.addEventHandler_owner]
    by_cases heq : h' = h
    · exact if_pos heq
    · rw [if_neg heq]
      refine hs.owned h' (hh'.imp (fun hadd => ?_) (And.imp (fun hmem => ?_) fun hdel hmem => ?_))
      · exact ((s.mem_addEventHandler_addSet h h').mp hadd).resolve_left heq
      · rwa [s.addEventHandler_eventHandlers] at hmem
      · exact hdel ((s.mem_addEventHandler_deleteSet h h').mpr ⟨heq, hmem⟩)
  alive h' hh' := by
    by_cases heq : h' = h
    · exact heq ▸ halive
    · rw [s.addEventHandler_owner, if_neg heq] at hh'
      exact hs.alive h' hh'

theorem adopted (hs : s.Owned) {h : H} (halive : s.Alive h) :
    Owned { s with toEventDispatcher := s.toEventDispatcher.adopted h } := by
  have hother : some Owner.other ≠ none → s.priority h ≠ none := fun _ => halive
  by_cases howner : s.eventDispatcher h = some .this
  · have hadopted : s.toEventDispatcher.adopted h =
        { s.toEventDispatcher.removeEventHandler h with
          eventDispatcher := Function.update
            (s.toEventDispatcher.removeEventHandler h).eventDispatcher h (some .other) } := by
      rw [EventDispatcher.adopted, if_pos howner]
    rw [hadopted]
    exact (hs.removeEventHandler h).setOwner s.priority (s.removeEventHandler_owner h) hother
      fun _ _ => rfl
  · have hadopted : s.toEventDispatcher.adopted h =
        { s.toEventDispatcher with
          eventDispatcher := Function.update s.eventDispatcher h (some .other) } := by
      rw [EventDispatcher.adopted, if_neg howner]
    rw [hadopted]
    exact hs.setOwner s.priority howner hother fun _ _ => rfl

theorem construct (hs : s.Owned) {h : H} (initPriority : Int) (hdead : ¬ s.Alive h) :
    Owned (s.construct h initPriority) := by
  have hfree : s.eventDispatcher h ≠ some .this := fun hthis =>
    hdead (hs.alive h (hthis.trans_ne nofun))
  exact hs.setOwner _ hfree (fun hne => absurd rfl hne) fun h' hne => Function.update_of_ne hne ..

theorem remove (hs : s.Owned) (h : H) : Owned (s.remove h) := by
  unfold Handlers.remove
  split
  · exact hs.removeEventHandler h
  · rename_i howner
    exact hs.setOwner s.priority (howner.trans_ne nofun) (fun hne => absurd rfl hne) fun _ _ => rfl
  · exact hs

theorem not_this_remove (s : Handlers H) (h : H) : (s.remove h).eventDispatcher h ≠ some .this := by
  unfold Handlers.remove
  split
  · exact s.removeEventHandler_owner h
  · exact (Function.update_self ..).trans_ne nofun
  · rename_i howner
    exact howner.trans_ne nofun

theorem destroy (hs : s.Owned) (h : H) : Owned (s.destroy h) := by
  refine (hs.remove h).setOwner _ (not_this_remove s h) (fun hne => absurd rfl hne)
    fun h' hne => ?_
  exact Function.update_of_ne hne ..

/-- The handlers after a merge: those that stay, and the added ones. -/
theorem mem_merge (hs : s.Owned) {h : H} : h ∈ s.merge.eventHandlers ↔
    h ∈ s.eventHandlerAddSet ∨ h ∈ s.eventHandlers ∧ h ∉ s.eventHandlerDeleteSet := by
  rw [Handlers.merge, EventDispatcher.merge, Lib.mem_enlist, Lib.mem_strike_of_nodup hs.nodup,
    Lib.mem_ascending, Lib.mem_ascending, or_comm]

theorem merge (hs : s.Owned) : Owned s.merge where
  nodup := Lib.nodup_enlist _ _ (hs.nodup.sublist (Lib.sublist_strike ..))
  owned h hh := by
    cases hh with
    | inl hadd => exact absurd hadd (Finset.notMem_empty h)
    | inr hlisted => exact hs.owned h (hs.mem_merge.mp hlisted.1)
  alive := hs.alive

theorem step {call : HandlerCall H} {s' : Handlers H} (hs : s.Owned)
    (hstep : HandlerStep s call s') : s'.Owned := by
  cases hstep with
  | construct h initPriority hdead => exact hs.construct initPriority hdead
  | destroy h halive => exact hs.destroy h
  | addEventHandler h halive => exact hs.addEventHandler halive
  | removeEventHandler h halive => exact hs.removeEventHandler h
  | remove h halive => exact hs.remove h
  | adopt h halive => exact hs.adopted halive
  | dispatchEvents => exact hs.merge

/-- In every run the list has no duplicates, and its handlers that do not wait for their
deletion are alive. -/
theorem of_run {calls : List (HandlerCall H)} (hrun : Lib.Run HandlerStep Handlers.init calls s) :
    s.Owned :=
  hrun.state_invariant Owned.init fun _ _ _ => Owned.step

end Owned

/-! ### The order of the list -/

/-- The list has no duplicates, its handlers are alive, and their priorities descend. -/
structure Ordered (s : Handlers H) : Prop where
  nodup : s.eventHandlers.Nodup
  alive : ∀ h ∈ s.eventHandlers, s.Alive h
  descending : s.eventHandlers.Pairwise fun a b => s.priorityAt b ≤ s.priorityAt a

/-- The handlers of the list that do not wait for their deletion stand in the order of
their present priorities. -/
def InPlace (s : Handlers H) : Prop :=
  (s.eventHandlers.filter (· ∉ s.eventHandlerDeleteSet)).Pairwise fun a b =>
    s.priorityAt b ≤ s.priorityAt a

variable {s : Handlers H}

/-- What the merge leaves in the list before it adds the new handlers. -/
theorem Owned.kept_eq (hs : s.Owned) :
    Lib.strike (Lib.ascending s.eventHandlerDeleteSet) s.eventHandlers =
      s.eventHandlers.filter (· ∉ s.eventHandlerDeleteSet) := by
  rw [Lib.strike_eq_filter hs.nodup]
  simp only [Lib.mem_ascending]

/-- The merge leaves an ordered list if and only if the handlers it keeps are in place. -/
theorem Owned.ordered_merge_iff (hs : s.Owned) : s.merge.Ordered ↔ s.InPlace := by
  have hmerged : s.merge.eventHandlers = Lib.enlist s.priorityAt
      (Lib.ascending s.eventHandlerAddSet)
      (s.eventHandlers.filter (· ∉ s.eventHandlerDeleteSet)) := by
    rw [← hs.kept_eq]
    rfl
  constructor
  · intro h
    have hdescending := h.descending
    rw [hmerged] at hdescending
    exact hdescending.sublist (Lib.sublist_enlist ..)
  · intro h
    have hkept : Lib.Ranked s.priorityAt
        (s.eventHandlers.filter (· ∉ s.eventHandlerDeleteSet)) := ⟨hs.nodup.filter _, h⟩
    refine ⟨hs.merge.nodup, fun h hmem => ?_, ?_⟩
    · exact hs.alive h ((hs.owned h (hs.mem_merge.mp hmem)).trans_ne nofun)
    · rw [hmerged]
      exact (hkept.enlist _).descending

/-- The list is sorted by the priorities of the last merge, and a handler that does not
wait for its deletion still has the one it was sorted by. -/
structure Kept (s : Handlers H) : Prop where
  owned : s.Owned
  descending : s.eventHandlers.Pairwise fun a b => (s.sorted b).getD 0 ≤ (s.sorted a).getD 0
  kept : ∀ h ∈ s.eventHandlers, h ∉ s.eventHandlerDeleteSet → s.priority h = s.sorted h

namespace Kept

theorem inPlace (hs : s.Kept) : s.InPlace := by
  have hmem : ∀ h ∈ s.eventHandlers.filter (· ∉ s.eventHandlerDeleteSet),
      s.priorityAt h = (s.sorted h).getD 0 := by
    intro h hh
    obtain ⟨hlist, hdel⟩ := List.mem_filter.mp hh
    exact congrArg (·.getD 0) (hs.kept h hlist (of_decide_eq_true hdel))
  refine (hs.descending.sublist List.filter_sublist).imp_of_mem fun ha hb hle => ?_
  rw [hmem _ ha, hmem _ hb]
  exact hle

omit [LinearOrder H] in
theorem init : Kept (init : Handlers H) where
  owned := Owned.init
  descending := List.Pairwise.nil
  kept _ hmem := absurd hmem List.not_mem_nil

theorem merge (hs : s.Kept) : Kept s.merge where
  owned := hs.owned.merge
  descending := (hs.owned.ordered_merge_iff.mpr hs.inPlace).descending
  kept _ _ _ := rfl

omit [LinearOrder H] in
/-- A call that leaves the list alone, and changes no priority of a handler that stays in
it. -/
theorem of_eq {s' : Handlers H} (hs : s.Kept) (howned : s'.Owned)
    (hlist : s'.eventHandlers = s.eventHandlers) (hsorted : s'.sorted = s.sorted)
    (hkept : ∀ h ∈ s.eventHandlers, h ∉ s'.eventHandlerDeleteSet →
      s'.priority h = s.priority h ∧ h ∉ s.eventHandlerDeleteSet ∨ s'.priority h = s.sorted h) :
    s'.Kept where
  owned := howned
  descending := by
    rw [hlist, hsorted]
    exact hs.descending
  kept h hmem hdel := by
    rw [hlist] at hmem
    rw [hsorted]
    cases hkept h hmem hdel with
    | inl hunchanged => exact hunchanged.1.trans (hs.kept h hmem hunchanged.2)
    | inr hsame => exact hsame

theorem construct (hs : s.Kept) {h : H} (initPriority : Int) (hdead : ¬ s.Alive h) :
    Kept (s.construct h initPriority) := by
  refine hs.of_eq (hs.owned.construct initPriority hdead) rfl rfl fun h' hmem hdel => ?_
  have howner := hs.owned.owned h' (.inr ⟨hmem, hdel⟩)
  have halive : s.Alive h' := hs.owned.alive h' (howner.trans_ne nofun)
  have hne : h' ≠ h := fun heq => hdead (heq ▸ halive)
  exact .inl ⟨Function.update_of_ne hne .., hdel⟩

theorem removeEventHandler (hs : s.Kept) (h : H) :
    Kept { s with toEventDispatcher := s.toEventDispatcher.removeEventHandler h } :=
  hs.of_eq (hs.owned.removeEventHandler h) rfl rfl fun _ _ hdel =>
    .inl ⟨rfl, fun hmem => hdel (Finset.mem_insert_of_mem hmem)⟩

theorem remove (hs : s.Kept) (h : H) : Kept (s.remove h) := by
  have howned := hs.owned.remove h
  unfold Handlers.remove at howned ⊢
  split
  · exact hs.removeEventHandler h
  · rename_i howner
    rw [howner] at howned
    exact hs.of_eq howned rfl rfl fun _ _ hdel => .inl ⟨rfl, hdel⟩
  · exact hs

/-- The destroyed handler waits for its deletion, if it is in the list. -/
theorem destroy (hs : s.Kept) (h : H) : Kept (s.destroy h) := by
  have hremoved := hs.remove h
  refine hremoved.of_eq (hs.owned.destroy h) rfl rfl fun h' hmem hdel => ?_
  have hthis := hremoved.owned.owned h' (.inr ⟨hmem, hdel⟩)
  have hne : h' ≠ h := fun heq => Owned.not_this_remove s h (heq ▸ hthis)
  exact .inl ⟨Function.update_of_ne hne .., hdel⟩

theorem addEventHandler (hs : s.Kept) {h : H} (halive : s.Alive h)
    (hsame : h ∈ s.eventHandlers → s.priority h = s.sorted h) :
    Kept { s with toEventDispatcher := s.toEventDispatcher.addEventHandler h } := by
  refine hs.of_eq (hs.owned.addEventHandler halive) (s.addEventHandler_eventHandlers h) rfl
    fun h' hmem hdel => ?_
  by_cases heq : h' = h
  · subst heq
    exact .inr (hsame hmem)
  · refine .inl ⟨rfl, fun hdel' => hdel ?_⟩
    exact (s.mem_addEventHandler_deleteSet h h').mpr ⟨heq, hdel'⟩

theorem adopted (hs : s.Kept) {h : H} (halive : s.Alive h) :
    Kept { s with toEventDispatcher := s.toEventDispatcher.adopted h } := by
  refine hs.of_eq (hs.owned.adopted halive) (s.adopted_eventHandlers h) rfl fun h' _ hdel =>
    .inl ⟨rfl, fun hmem => hdel ?_⟩
  simp only [EventDispatcher.adopted]
  split
  · exact Finset.mem_insert_of_mem hmem
  · exact hmem

theorem step {call : HandlerCall H} {s' : Handlers H} (hs : s.Kept)
    (hstep : SamePriorityStep s call s') : s'.Kept := by
  obtain ⟨hstep, hsame⟩ := hstep
  cases hstep with
  | construct h initPriority hdead => exact hs.construct initPriority hdead
  | destroy h halive => exact hs.destroy h
  | addEventHandler h halive => exact hs.addEventHandler halive (hsame h rfl)
  | removeEventHandler h halive => exact hs.removeEventHandler h
  | remove h halive => exact hs.remove h
  | adopt h halive => exact hs.adopted halive
  | dispatchEvents => exact hs.merge

end Kept

/-- After every run, the merge of `dispatchEvents` leaves an ordered list if and only if
the handlers it keeps are in place; and it does in every run in which no handler that is
added inherits the place of one of another priority. -/
theorem handlers_ordered {calls : List (HandlerCall H)}
    (hrun : Lib.Run HandlerStep init calls s) :
    (s.merge.Ordered ↔ s.InPlace) ∧
      (Lib.Run SamePriorityStep init calls s → s.merge.Ordered) := by
  have howned := Owned.of_run hrun
  refine ⟨howned.ordered_merge_iff, fun hsame => howned.ordered_merge_iff.mpr ?_⟩
  exact (hsame.state_invariant Kept.init fun _ _ _ => Kept.step).inPlace

/-- Two handlers are added and merged; one is destroyed, constructed with the same priority at
the same address and added anew. -/
theorem handlers_ordered_two :
    ∃ s : Handlers Nat, Lib.Run HandlerStep init
        [.construct 1 5, .construct 2 10, .addEventHandler 1, .addEventHandler 2, .dispatchEvents,
          .destroy 1, .construct 1 5, .addEventHandler 1] s ∧
      s.merge.eventHandlers = [2, 1] ∧ s.merge.Ordered := by
  have hrun := (Lib.Run.nil (init : Handlers Nat)).snoc
      (SamePriorityStep.intro (HandlerStep.construct 1 5 (by decide)) nofun)
    |>.snoc (.intro (HandlerStep.construct 2 10 (by decide)) nofun)
    |>.snoc (.intro (HandlerStep.addEventHandler 1 (by decide))
      fun _ _ hmem => absurd hmem List.not_mem_nil)
    |>.snoc (.intro (HandlerStep.addEventHandler 2 (by decide))
      fun _ _ hmem => absurd hmem List.not_mem_nil)
    |>.snoc (.intro HandlerStep.dispatchEvents nofun)
    |>.snoc (.intro (HandlerStep.destroy 1 (by decide)) nofun)
    |>.snoc (.intro (HandlerStep.construct 1 5 (by decide)) nofun)
    |>.snoc (.intro (HandlerStep.addEventHandler 1 (by decide)) fun h hcall _ => by
      obtain rfl := HandlerCall.addEventHandler.inj hcall
      rfl)
  have hsteps := hrun.mono fun _ _ _ hstep => hstep.1
  exact ⟨_, hsteps, by decide, (handlers_ordered hsteps).2 hrun⟩

/-- A handler of priority `10` is listed before one of priority `5`. It is destroyed, and
a handler of priority `0` is constructed at its address and added before the next merge,
which leaves it in front. -/
theorem handler_inherits_place : ∃ s : Handlers Nat, Lib.Run HandlerStep init
      [.construct 1 10, .construct 2 5, .addEventHandler 1, .addEventHandler 2, .dispatchEvents,
        .destroy 1, .construct 1 0, .addEventHandler 1] s ∧
    s.merge.eventHandlers.map s.merge.priority = [some 0, some 5] ∧ ¬ s.merge.Ordered := by
  have hrun := (Lib.Run.nil (init : Handlers Nat)).snoc (HandlerStep.construct 1 10 (by decide))
    |>.snoc (HandlerStep.construct 2 5 (by decide))
    |>.snoc (HandlerStep.addEventHandler 1 (by decide))
    |>.snoc (HandlerStep.addEventHandler 2 (by decide))
    |>.snoc HandlerStep.dispatchEvents
    |>.snoc (HandlerStep.destroy 1 (by decide))
    |>.snoc (HandlerStep.construct 1 0 (by decide))
    |>.snoc (HandlerStep.addEventHandler 1 (by decide))
  refine ⟨_, hrun, by decide, fun h => ?_⟩
  exact absurd h.descending (by decide)

end Handlers

end Maple.Event
