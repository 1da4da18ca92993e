import Maple.Event.EventDispatcher

/-!
# Maple.Event.EventDelivery

**Event delivery.** Registration is deferred: `addEventHandler` and
`removeEventHandler` only move a handler between the two pending sets, which
`dispatchEvents` merges into `eventHandlers` before it looks at the queue. The
invariant `Registration` reads a handler's last call off the list and the two sets, so
it survives every order of adds, removals and merges; `Queue` follows the events and
their promises; `Rounds` follows the rounds of `dispatchEvent`.
-/

namespace Maple.Event

open State

variable {H : Type}

section

variable [LinearOrder H]

namespace State

theorem registered_cons_self (calls : List (H × Bool)) (h : H) (b : Bool) :
    Registered ((h, b) :: calls) h ↔ b = true := by
  simp [Registered]

theorem registered_cons_of_ne {h h' : H} (hne : h' ≠ h) (calls : List (H × Bool)) (b : Bool) :
    Registered ((h, b) :: calls) h' ↔ Registered calls h' := by
  rw [Registered, List.lookup_cons, beq_false_of_ne hne]
  rfl

theorem not_registered_nil (h : H) : ¬ Registered [] h := by
  simp [Registered]

end State

/-! ### The pending sets -/

namespace EventDispatcher

variable (d : EventDispatcher H) (h h' : H)

theorem addEventHandler_eventHandlers :
    (d.addEventHandler h).eventHandlers = d.eventHandlers := by
  unfold addEventHandler
  split <;> rfl

theorem adopted_eventHandlers : (d.adopted h).eventHandlers = d.eventHandlers := by
  unfold adopted
  split <;> rfl

theorem mem_addEventHandler_addSet :
    h' ∈ (d.addEventHandler h).eventHandlerAddSet ↔ h' = h ∨ h' ∈ d.eventHandlerAddSet := by
  unfold addEventHandler
  split
  · simp only [removeEventHandler, Finset.mem_insert, Finset.mem_erase]
    exact ⟨Or.imp_right And.right, fun hor => (em (h' = h)).imp id fun hne =>
      ⟨hne, hor.resolve_left hne⟩⟩
  · exact Finset.mem_insert

theorem mem_addEventHandler_deleteSet :
    h' ∈ (d.addEventHandler h).eventHandlerDeleteSet ↔
      h' ≠ h ∧ h' ∈ d.eventHandlerDeleteSet := by
  unfold addEventHandler
  split
  · simp only [removeEventHandler, Finset.mem_insert, Finset.mem_erase]
    exact ⟨fun hand => ⟨hand.1, hand.2.resolve_left hand.1⟩, fun hand => ⟨hand.1, .inr hand.2⟩⟩
  · exact Finset.mem_erase

end EventDispatcher

/-! ### Registration -/

/-- What the handlers and the pending sets say about the history of calls, now and at
the last merge. -/
structure Registration (priority : H → Int) (d : EventDispatcher H)
    (calls merged : List (H × Bool)) : Prop where
  ranked : Lib.Ranked priority d.eventHandlers
  merged : ∀ h, h ∈ d.eventHandlers ↔ Registered merged h
  apart : ∀ h ∈ d.eventHandlerAddSet, h ∉ d.eventHandlerDeleteSet
  registered : ∀ h, Registered calls h ↔
    h ∈ d.eventHandlerAddSet ∨ h ∈ d.eventHandlers ∧ h ∉ d.eventHandlerDeleteSet

namespace Registration

variable {priority : H → Int} {d : EventDispatcher H} {calls merged : List (H × Bool)}

theorem init (owners : H → Option Owner) :
    Registration priority ⟨[], ∅, ∅, owners⟩ [] [] where
  ranked := Lib.Ranked.nil
  merged h := by simp [not_registered_nil]
  apart h hadd := absurd hadd (Finset.notMem_empty h)
  registered h := by simp [not_registered_nil]

theorem addEventHandler (hr : Registration priority d calls merged) (h : H) :
    Registration priority (d.addEventHandler h) ((h, true) :: calls) merged where
  ranked := by
    rw [d.addEventHandler_eventHandlers]
    exact hr.ranked
  merged := by
    rw [d.addEventHandler_eventHandlers]
    exact hr.merged
  apart h' hadd hdel := by
    obtain ⟨hne, hdel⟩ := (d.mem_addEventHandler_deleteSet h h').mp hdel
    cases (d.mem_addEventHandler_addSet h h').mp hadd with
    | inl heq => exact hne heq
    | inr hadd => exact hr.apart h' hadd hdel
  registered h' := by
    rw [d.mem_addEventHandler_addSet, d.mem_addEventHandler_deleteSet,
      d.addEventHandler_eventHandlers]
    by_cases heq : h' = h
    · rw [heq, registered_cons_self]
      simp
    · rw [registered_cons_of_ne heq, hr.registered]
      simp [heq]

theorem removeEventHandler (hr : Registration priority d calls merged) (h : H) :
    Registration priority (d.removeEventHandler h) ((h, false) :: calls) merged where
  ranked := hr.ranked
  merged := hr.merged
  apart h' hadd hdel := by
    obtain ⟨hne, hadd⟩ := Finset.mem_erase.mp hadd
    exact hr.apart h' hadd ((Finset.mem_insert.mp hdel).resolve_left hne)
  registered h' := by
    simp only [EventDispatcher.removeEventHandler, Finset.mem_erase, Finset.mem_insert]
    by_cases heq : h' = h
    · rw [heq, registered_cons_self]
      simp
    · rw [registered_cons_of_ne heq, hr.registered]
      simp [heq]

theorem adopted (hr : Registration priority d calls merged) (h : H) :
    Registration priority (d.adopted h)
      (if d.eventDispatcher h = some .this then (h, false) :: calls else calls) merged := by
  unfold EventDispatcher.adopted
  by_cases howner : d.eventDispatcher h = some .this
  · rw [if_pos howner, if_pos howner]
    have hremoved := hr.removeEventHandler h
    exact ⟨hremoved.ranked, hremoved.merged, hremoved.apart, hremoved.registered⟩
  · rw [if_neg howner, if_neg howner]
    exact ⟨hr.ranked, hr.merged, hr.apart, hr.registered⟩

/-- After the merge a handler is in the list if and only if its last call was an add. -/
theorem mem_merge (hr : Registration priority d calls merged) (h : H) :
    h ∈ (d.merge priority).eventHandlers ↔ Registered calls h := by
  rw [EventDispatcher.merge, Lib.mem_enlist, hr.ranked.mem_strike, Lib.mem_ascending,
    Lib.mem_ascending, hr.registered, or_comm]

theorem merge (hr : Registration priority d calls merged) :
    Registration priority (d.merge priority) calls calls where
  ranked := (hr.ranked.strike _).enlist _
  merged := hr.mem_merge
  apart h hadd := absurd hadd (Finset.notMem_empty h)
  registered h := by
    rw [← hr.mem_merge]
    simp [EventDispatcher.merge]

/-- A handler of the list was removed last if and only if it waits for its deletion. -/
theorem registered_of_mem (hr : Registration priority d calls merged) {h : H}
    (hmem : h ∈ d.eventHandlers) : Registered calls h ↔ h ∉ d.eventHandlerDeleteSet := by
  rw [hr.registered]
  constructor
  · rintro (hadd | ⟨-, hdel⟩)
    · exact hr.apart h hadd
    · exact hdel
  · exact fun hdel => .inr ⟨hmem, hdel⟩

end Registration

end

/-! ### The queue and the promises -/

/-- The queued events are the dispatched ones, the one inside `dispatchEvent` and the
waiting ones, in this order; the promises hold what `dispatchEvent` returned, but for a
value that is about to be stored. -/
structure Queue (s : State H) : Prop where
  order : s.posted = s.records.map Record.event ++ s.main.current ++ s.eventQueue
  numbered : s.posted.map Posted.id = List.range s.posted.length
  values : s.records.map (fun r => (r.event.id, r.value)) = s.futures ++ s.main.pending

namespace Queue

variable {s : State H}

theorem init (slots : H → Slot → Bool) : Queue (State.init slots) :=
  ⟨rfl, rfl, rfl⟩

theorem postEvent (hq : Queue s) (type : Option EventType) : Queue (s.postEvent type) where
  order := by
    simp only [State.postEvent]
    rw [hq.order, List.append_assoc]
  numbered := by
    simp only [State.postEvent, List.map_append, List.length_append, List.length_singleton]
    rw [List.range_succ, hq.numbered]
    rfl
  values := hq.values

/-- `dispatchEvent` returns: its event is dispatched and its value not stored yet. -/
theorem leaveDispatch (hq : Queue s) {e : Posted} (hcurrent : s.main.current = [e])
    (hpending : s.main.pending = []) (visits : List (Visit H)) (value : Bool) :
    Queue (s.leaveDispatch e visits value) where
  order := by
    simp only [State.leaveDispatch, List.map_append, Main.current, List.append_nil]
    rw [hq.order, hcurrent]
    rfl
  numbered := hq.numbered
  values := by
    simp only [State.leaveDispatch, List.map_append, Main.pending]
    rw [hq.values, hpending, List.append_nil]
    rfl

/-- The main thread moves on with the same event. -/
theorem move (hq : Queue s) (main : Main H) (hcurrent : main.current = s.main.current)
    (hpending : main.pending = s.main.pending) : Queue { s with main := main } where
  order := by
    rw [hcurrent]
    exact hq.order
  numbered := hq.numbered
  values := by
    rw [hpending]
    exact hq.values

/-- No promise gets a second value. -/
theorem nodup_futures (hq : Queue s) : (s.futures.map Prod.fst).Nodup := by
  have hids : s.records.map (fun r => r.event.id) =
      s.futures.map Prod.fst ++ s.main.pending.map Prod.fst := by
    rw [← List.map_append, ← hq.values, List.map_map]
    rfl
  have hposted : (s.posted.map Posted.id).Nodup := hq.numbered ▸ List.nodup_range
  rw [hq.order, List.map_append, List.map_append, List.map_map, List.append_assoc] at hposted
  have hrecords : (s.records.map fun r => r.event.id).Nodup := hposted.of_append_left
  rw [hids] at hrecords
  exact hrecords.of_append_left

/-- With nothing in the queue and nothing under way every promise has its value. -/
theorem futures_of_drained (hq : Queue s) (hmain : s.main = .draining)
    (hqueue : s.eventQueue = []) :
    s.futures.map Prod.fst = s.posted.map Posted.id := by
  have horder := hq.order
  have hvalues := hq.values
  rw [hmain, hqueue] at horder
  rw [hmain] at hvalues
  simp only [Main.current, Main.pending, List.append_nil] at horder hvalues
  rw [horder, ← hvalues, List.map_map, List.map_map]
  rfl

variable [LinearOrder H]

theorem step {priority : H → Int} {s' : State H} {a : Action H} (hq : Queue s)
    (hstep : Step priority s a s') : Queue s' := by
  cases hstep with
  | postEvent type => exact hq.postEvent type
  | addEventHandler h huser => exact ⟨hq.order, hq.numbered, hq.values⟩
  | removeEventHandler h huser => exact ⟨hq.order, hq.numbered, hq.values⟩
  | adopt h huser => exact ⟨hq.order, hq.numbered, hq.values⟩
  | release h huser howner => exact ⟨hq.order, hq.numbered, hq.values⟩
  | assign slots huser => exact ⟨hq.order, hq.numbered, hq.values⟩
  | merge hmain =>
      have hq := hq.move .draining (by rw [hmain]; rfl) (by rw [hmain]; rfl)
      exact ⟨hq.order, hq.numbered, hq.values⟩
  | pop hmain hqueue =>
      have horder := hq.order
      have hvalues := hq.values
      rw [hmain, hqueue] at horder
      rw [hmain] at hvalues
      exact ⟨by simpa [Main.current] using horder, hq.numbered, hvalues⟩
  | leave hmain hqueue => exact hq.move _ (by rw [hmain]; rfl) (by rw [hmain]; rfl)
  | null hmain htype => exact hq.leaveDispatch (by rw [hmain]; rfl) (by rw [hmain]; rfl) _ _
  | finish hmain htype hend =>
      exact hq.leaveDispatch (by rw [hmain]; rfl) (by rw [hmain]; rfl) _ _
  | skip hmain htype hhandler hskip => exact hq.move _ (by rw [hmain]; rfl) (by rw [hmain]; rfl)
  | call hmain htype hhandler hkept hfills =>
      exact hq.move _ (by rw [hmain]; rfl) (by rw [hmain]; rfl)
  | refuse hmain => exact hq.move _ (by rw [hmain]; rfl) (by rw [hmain]; rfl)
  | handle hmain => exact hq.leaveDispatch (by rw [hmain]; rfl) (by rw [hmain]; rfl) _ _
  | setValue hmain =>
      have horder := hq.order
      have hvalues := hq.values
      rw [hmain] at horder hvalues
      exact ⟨horder, hq.numbered, by simpa [Main.pending] using hvalues⟩

end Queue

/-! ### The rounds of `dispatchEvent` -/

/-- The finished rounds of a running `dispatchEvent`: the first handlers of the list,
called exactly if registered and filling the slot, all of them without success. -/
structure Rounds (handlers : List H) (visits : List (Visit H)) : Prop where
  visited : visits.map Visit.handler <+: handlers
  offered : ∀ v ∈ visits, v.result.isSome ↔ v.registered ∧ v.filled
  refused : ∀ v ∈ visits, v.result ≠ some true

/-- A finished `dispatchEvent`. Its handlers are those whose last call before the merge
was an add, in descending priority. It went through them in this order and called
those that were registered when their round came and filled the slot. Only the last
call can have returned true; without one, everybody was asked. -/
structure Record.Delivered [LinearOrder H] (priority : H → Int) (r : Record H) : Prop where
  ranked : Lib.Ranked priority r.handlers
  merged : ∀ h, h ∈ r.handlers ↔ Registered r.merged h
  visited : r.visits.map Visit.handler <+: r.handlers
  offered : ∀ v ∈ r.visits, v.result.isSome ↔ v.registered ∧ v.filled
  refused : ∀ v ∈ r.visits.dropLast, v.result ≠ some true
  handled : r.value = true ↔ ∃ v ∈ r.visits.getLast?, v.result = some true
  exhausted : r.value = false → r.event.type ≠ none → r.visits.map Visit.handler = r.handlers
  null : r.event.type = none → r.value = false ∧ r.visits = []

/-- What the main thread's place says about the round it is in. -/
def Main.Coherent (handlers : List H) : Main H → Prop
  | .dispatching e i visits => i = visits.length ∧ (e.type = none → visits = [])
  | .calling e i visits visit =>
      i = visits.length ∧ e.type ≠ none ∧ handlers[i]? = some visit.handler ∧
        visit.registered = true ∧ visit.filled = true
  | .idle | .draining | .returned _ _ => True

namespace Rounds

variable {handlers : List H} {visits : List (Visit H)} {v : Visit H}

theorem nil (handlers : List H) : Rounds handlers [] :=
  ⟨List.nil_prefix, fun _ hv => absurd hv List.not_mem_nil, fun _ hv => absurd hv List.not_mem_nil⟩

theorem visited_snoc (h : Rounds handlers visits)
    (hnext : handlers[visits.length]? = some v.handler) :
    (visits ++ [v]).map Visit.handler <+: handlers := by
  obtain ⟨rest, hrest⟩ := h.visited
  subst hrest
  rw [List.getElem?_append_right (Nat.le_of_eq (List.length_map _)), List.length_map,
    Nat.sub_self] at hnext
  cases rest with
  | nil => cases hnext
  | cons x rest =>
      cases hnext
      exact ⟨rest, by simp⟩

theorem offered_snoc (h : Rounds handlers visits)
    (hoffered : v.result.isSome ↔ v.registered ∧ v.filled) :
    ∀ w ∈ visits ++ [v], w.result.isSome ↔ w.registered ∧ w.filled := by
  intro w hw
  cases List.mem_append.mp hw with
  | inl hw => exact h.offered w hw
  | inr hw => exact List.mem_singleton.mp hw ▸ hoffered

theorem snoc (h : Rounds handlers visits) (hnext : handlers[visits.length]? = some v.handler)
    (hoffered : v.result.isSome ↔ v.registered ∧ v.filled) (hrefused : v.result ≠ some true) :
    Rounds handlers (visits ++ [v]) where
  visited := h.visited_snoc hnext
  offered := h.offered_snoc hoffered
  refused w hw := by
    cases List.mem_append.mp hw with
    | inl hw => exact h.refused w hw
    | inr hw => exact List.mem_singleton.mp hw ▸ hrefused

/-- No round is left. -/
theorem visited_all (h : Rounds handlers visits) (hend : handlers.length ≤ visits.length) :
    visits.map Visit.handler = handlers :=
  h.visited.eq_of_length_le (by rwa [List.length_map])

end Rounds

variable [LinearOrder H] {priority : H → Int} {s s' : State H} {a : Action H}

/-- The invariant of every run. -/
structure Inv (priority : H → Int) (s : State H) : Prop where
  registration : Registration priority s.toEventDispatcher s.calls s.merged
  queue : Queue s
  rounds : Rounds s.eventHandlers s.main.visits
  coherent : s.main.Coherent s.eventHandlers
  records : ∀ r ∈ s.records, r.Delivered priority

namespace Inv

theorem init (slots : H → Slot → Bool) : Inv priority (State.init slots) where
  registration := Registration.init _
  queue := Queue.init slots
  rounds := Rounds.nil _
  coherent := trivial
  records _ hr := absurd hr List.not_mem_nil

/-- The loop of `dispatchEvent` ends without a handler that returned true. -/
theorem delivered_of_rounds (hi : Inv priority s) {e : Posted} {visits : List (Visit H)}
    (hrounds : Rounds s.eventHandlers visits)
    (hall : e.type ≠ none → visits.map Visit.handler = s.eventHandlers)
    (hnull : e.type = none → visits = []) :
    Record.Delivered priority ⟨e, s.eventHandlers, s.merged, visits, false⟩ where
  ranked := hi.registration.ranked
  merged := hi.registration.merged
  visited := hrounds.visited
  offered := hrounds.offered
  refused v hv := hrounds.refused v (List.dropLast_subset _ hv)
  handled := by
    constructor
    · exact fun hvalue => absurd hvalue Bool.false_ne_true
    · rintro ⟨v, hv, htrue⟩
      exact absurd htrue (hrounds.refused v (List.mem_of_getLast? hv))
  exhausted _ htype := hall htype
  null htype := ⟨rfl, hnull htype⟩

/-- The last round's handler returned true. -/
theorem delivered_of_handled (hi : Inv priority s) {e : Posted} {visits : List (Visit H)}
    {v : Visit H} (hrounds : Rounds s.eventHandlers visits) (htype : e.type ≠ none)
    (hnext : s.eventHandlers[visits.length]? = some v.handler)
    (hoffered : v.result.isSome ↔ v.registered ∧ v.filled) (htrue : v.result = some true) :
    Record.Delivered priority ⟨e, s.eventHandlers, s.merged, visits ++ [v], true⟩ where
  ranked := hi.registration.ranked
  merged := hi.registration.merged
  visited := hrounds.visited_snoc hnext
  offered := hrounds.offered_snoc hoffered
  refused w hw := hrounds.refused w (by rwa [List.dropLast_concat] at hw)
  handled := by
    rw [List.getLast?_concat]
    exact ⟨fun _ => ⟨v, rfl, htrue⟩, fun _ => rfl⟩
  exhausted hvalue := absurd hvalue.symm Bool.false_ne_true
  null hnone := absurd hnone htype

/-- A step of the program's own code, or of another thread. -/
theorem keep (hi : Inv priority s)
    (hregistration : Registration priority s'.toEventDispatcher s'.calls s'.merged)
    (hqueue : Queue s') (hhandlers : s'.eventHandlers = s.eventHandlers)
    (hmain : s'.main = s.main) (hrecords : s'.records = s.records) : Inv priority s' where
  registration := hregistration
  queue := hqueue
  rounds := by
    rw [hhandlers, hmain]
    exact hi.rounds
  coherent := by
    rw [hhandlers, hmain]
    exact hi.coherent
  records := by
    rw [hrecords]
    exact hi.records

/-- `dispatchEvent` returns. -/
theorem leaveDispatch (hi : Inv priority s) {e : Posted} {visits : List (Visit H)}
    {value : Bool} (hqueue : Queue (s.leaveDispatch e visits value))
    (hdelivered : Record.Delivered priority ⟨e, s.eventHandlers, s.merged, visits, value⟩) :
    Inv priority (s.leaveDispatch e visits value) where
  registration := hi.registration
  queue := hqueue
  rounds := Rounds.nil _
  coherent := trivial
  records r hr := by
    cases List.mem_append.mp hr with
    | inl hr => exact hi.records r hr
    | inr hr => exact List.mem_singleton.mp hr ▸ hdelivered

/-- A handler is called only if its last call was an add, now and at the last merge. -/
theorem registered_of_call (hi : Inv priority s) {h : H} (hmem : h ∈ s.eventHandlers)
    (hkept : h ∉ s.eventHandlerDeleteSet) : Registered s.calls h ∧ Registered s.merged h :=
  ⟨(hi.registration.registered_of_mem hmem).mpr hkept, (hi.registration.merged h).mp hmem⟩

/-- A handler is passed over only if it was removed, or has no callback for the event. -/
theorem not_registered_of_skip (hi : Inv priority s) {h : H} {t : EventType}
    (hmem : h ∈ s.eventHandlers)
    (hskip : h ∈ s.eventHandlerDeleteSet ∨ s.fills t h = false) :
    ¬ (Registered s.calls h ∧ s.fills t h = true) := by
  rintro ⟨hregistered, hfills⟩
  cases hskip with
  | inl hdelete => exact (hi.registration.registered_of_mem hmem).mp hregistered hdelete
  | inr hempty => exact Bool.false_ne_true (hempty.symm.trans hfills)

/-- **One step** keeps the invariant. -/
theorem step (hi : Inv priority s) (hstep : Step priority s a s') : Inv priority s' := by
  have hqueue := hi.queue.step hstep
  have hrounds := hi.rounds
  have hcoherent := hi.coherent
  cases hstep with
  | postEvent type => exact hi.keep hi.registration hqueue rfl rfl rfl
  | addEventHandler h huser =>
      exact hi.keep (hi.registration.addEventHandler h) hqueue
        (s.toEventDispatcher.addEventHandler_eventHandlers h) rfl rfl
  | removeEventHandler h huser =>
      exact hi.keep (hi.registration.removeEventHandler h) hqueue rfl rfl rfl
  | adopt h huser =>
      exact hi.keep (hi.registration.adopted h) hqueue
        (s.toEventDispatcher.adopted_eventHandlers h) rfl rfl
  | release h huser howner =>
      have hr := hi.registration
      exact hi.keep ⟨hr.ranked, hr.merged, hr.apart, hr.registered⟩ hqueue rfl rfl rfl
  | assign slots huser => exact hi.keep hi.registration hqueue rfl rfl rfl
  | merge hmain =>
      exact ⟨hi.registration.merge, hqueue, Rounds.nil _, trivial, hi.records⟩
  | pop hmain hq =>
      exact ⟨hi.registration, hqueue, Rounds.nil _, ⟨rfl, fun _ => rfl⟩, hi.records⟩
  | leave hmain hq => exact ⟨hi.registration, hqueue, Rounds.nil _, trivial, hi.records⟩
  | null hmain htype =>
      rw [hmain] at hrounds hcoherent
      exact hi.leaveDispatch hqueue
        (hi.delivered_of_rounds hrounds (fun hsome => absurd htype hsome) hcoherent.2)
  | finish hmain htype hend =>
      rw [hmain] at hrounds hcoherent
      exact hi.leaveDispatch hqueue
        (hi.delivered_of_rounds hrounds (fun _ => hrounds.visited_all (hcoherent.1 ▸ hend))
          hcoherent.2)
  | @skip e t i visits h hmain htype hhandler hskip =>
      rw [hmain] at hrounds hcoherent
      have hnext : s.eventHandlers[visits.length]? = some h := hcoherent.1 ▸ hhandler
      have hpassed := hi.not_registered_of_skip (List.mem_of_getElem? hhandler) hskip
      refine ⟨hi.registration, hqueue, hrounds.snoc hnext ?_ ?_, ⟨?_, ?_⟩, hi.records⟩
      · simpa [State.visit] using hpassed
      · simp [State.visit]
      · rw [List.length_append, hcoherent.1]
        rfl
      · exact fun hnone => absurd (htype.symm.trans hnone) (Option.some_ne_none t)
  | call hmain htype hhandler hkept hfills =>
      rw [hmain] at hrounds hcoherent
      have hregistered := (hi.registered_of_call (List.mem_of_getElem? hhandler) hkept).1
      refine ⟨hi.registration, hqueue, hrounds, ⟨hcoherent.1, ?_, hhandler, ?_, hfills⟩, hi.records⟩
      · exact htype ▸ Option.some_ne_none _
      · exact decide_eq_true hregistered
  | refuse hmain =>
      rw [hmain] at hrounds hcoherent
      obtain ⟨hi', htype, hnext, hregistered, hfilled⟩ := hcoherent
      subst hi'
      refine ⟨hi.registration, hqueue, hrounds.snoc hnext ?_ ?_, ⟨?_, ?_⟩, hi.records⟩
      · simp [hregistered, hfilled]
      · simp
      · rw [List.length_append]
        rfl
      · exact fun hnone => absurd hnone htype
  | handle hmain =>
      rw [hmain] at hrounds hcoherent
      obtain ⟨hi', htype, hnext, hregistered, hfilled⟩ := hcoherent
      subst hi'
      exact hi.leaveDispatch hqueue
        (hi.delivered_of_handled hrounds htype hnext (by simp [hregistered, hfilled]) rfl)
  | setValue hmain => exact ⟨hi.registration, hqueue, Rounds.nil _, trivial, hi.records⟩

theorem run {slots : H → Slot → Bool} {actions : List (Action H)}
    (hrun : Lib.Run (Step priority) (State.init slots) actions s) : Inv priority s :=
  hrun.state_invariant (Inv.init slots) fun _ _ _ hi hstep => hi.step hstep

end Inv

/-! ### `dispatchEvents` returns -/

/-- The steps inside `dispatchEvents`: its own, and the return of a callback. -/
def Action.Own : Action H → Prop
  | .pop | .leave | .round | .call _ | .answer _ | .setValue => True
  | .postEvent _ | .addEventHandler _ | .removeEventHandler _ | .adopt _ | .release _ => False
  | .assign _ | .merge => False

/-- A bound on the steps until `dispatchEvents` returns, for lists of `n` handlers. -/
def Main.size (n : Nat) : Main H → Nat
  | .idle => 0
  | .draining => 1
  | .returned _ _ => 2
  | .calling _ i _ _ => 2 * (n - i) + 3
  | .dispatching _ i _ => 2 * (n - i) + 4

def State.size (s : State H) : Nat :=
  s.main.size s.eventHandlers.length + s.eventQueue.length * (2 * s.eventHandlers.length + 4)

theorem exists_own_step (priority : H → Int) (hbusy : s.main ≠ .idle) :
    ∃ a s', a.Own ∧ Step priority s a s' := by
  cases hmain : s.main with
  | idle => exact absurd hmain hbusy
  | draining =>
      cases hqueue : s.eventQueue with
      | nil => exact ⟨.leave, _, trivial, .leave hmain hqueue⟩
      | cons e rest => exact ⟨.pop, _, trivial, .pop hmain hqueue⟩
  | dispatching e i visits =>
      cases htype : e.type with
      | none => exact ⟨.round, _, trivial, .null hmain htype⟩
      | some t =>
          cases hhandler : s.eventHandlers[i]? with
          | none =>
              have hend := List.getElem?_eq_none_iff.mp hhandler
              exact ⟨.round, _, trivial, .finish hmain htype hend⟩
          | some h =>
              by_cases hskip : h ∈ s.eventHandlerDeleteSet ∨ s.fills t h = false
              · exact ⟨.round, _, trivial, .skip hmain htype hhandler hskip⟩
              · obtain ⟨hkept, hfills⟩ := not_or.mp hskip
                exact ⟨.call h, _, trivial,
                  .call hmain htype hhandler hkept (eq_true_of_ne_false hfills)⟩
  | calling e i visits visit => exact ⟨.answer true, _, trivial, .handle hmain⟩
  | returned e value => exact ⟨.setValue, _, trivial, .setValue hmain⟩

theorem own_step_smaller (hi : Inv priority s) (hown : a.Own) (hstep : Step priority s a s') :
    s'.posted = s.posted ∧ s'.size < s.size := by
  have hcoherent := hi.coherent
  cases hstep with
  | postEvent | addEventHandler | removeEventHandler | adopt | release | assign | merge =>
      exact absurd hown id
  | pop hmain hqueue =>
      refine ⟨rfl, ?_⟩
      simp only [State.size, hmain, hqueue, Main.size, List.length_cons, Nat.succ_mul]
      omega
  | leave hmain hqueue =>
      refine ⟨rfl, ?_⟩
      simp only [State.size, hmain, Main.size]
      omega
  | null hmain htype =>
      refine ⟨rfl, ?_⟩
      simp only [State.size, hmain, State.leaveDispatch, Main.size]
      omega
  | finish hmain htype hend =>
      refine ⟨rfl, ?_⟩
      simp only [State.size, hmain, State.leaveDispatch, Main.size]
      omega
  | skip hmain htype hhandler hskip =>
      have hlt := (List.getElem?_eq_some_iff.mp hhandler).1
      refine ⟨rfl, ?_⟩
      simp only [State.size, hmain, Main.size]
      omega
  | call hmain htype hhandler hkept hfills =>
      refine ⟨rfl, ?_⟩
      simp only [State.size, hmain, Main.size]
      omega
  | refuse hmain =>
      rw [hmain] at hcoherent
      have hlt := (List.getElem?_eq_some_iff.mp hcoherent.2.2.1).1
      refine ⟨rfl, ?_⟩
      simp only [State.size, hmain, Main.size]
      omega
  | handle hmain =>
      refine ⟨rfl, ?_⟩
      simp only [State.size, hmain, State.leaveDispatch, Main.size]
      omega
  | setValue hmain =>
      refine ⟨rfl, ?_⟩
      simp only [State.size, hmain, Main.size]
      omega

/-- When nobody posts and every callback returns, `dispatchEvents` returns, and every
promise has its value. -/
theorem dispatchEvents_returns (hi : Inv priority s) (hbusy : s.main ≠ .idle) :
    ∃ actions s', Lib.Run (fun s a s' => a.Own ∧ Step priority s a s') s actions s' ∧
      s'.main = .idle ∧ s'.futures.map Prod.fst = s.posted.map Posted.id := by
  -- the state before `leave` has an empty queue, which the invariant of the rest of the run keeps
  let I : State H → Prop := fun t =>
    Inv priority t ∧ t.posted = s.posted ∧
      (t.main = .idle → t.futures.map Prod.fst = t.posted.map Posted.id)
  have hstep : ∀ t a u, I t → a.Own ∧ Step priority t a u → I u ∧ u.size < t.size := by
    rintro t a u ⟨ht, hposted, -⟩ ⟨hown, hstep⟩
    obtain ⟨hsame, hlt⟩ := own_step_smaller ht hown hstep
    refine ⟨⟨ht.step hstep, hsame.trans hposted, ?_⟩, hlt⟩
    intro hidle
    cases hstep with
    | leave hmain hqueue => exact ht.queue.futures_of_drained hmain hqueue
    | pop | null | finish | skip | call | refuse | handle | setValue => cases hidle
    | _ => exact absurd hown id
  obtain ⟨actions, t, hrun, ⟨-, hposted, hdrained⟩, hidle⟩ :=
    Lib.Run.reaches (I := I) State.size
      (fun t _ hbusy => by
        obtain ⟨a, u, hown, hstep⟩ := exists_own_step priority hbusy
        exact ⟨a, u, hown, hstep⟩)
      hstep (Lib.Run.nil s) ⟨hi, rfl, fun hidle => absurd hidle hbusy⟩
  exact ⟨actions, t, hrun, hidle, hposted ▸ hdrained hidle⟩

/-! ### Every run -/

/-- **Event delivery**, in every state of every run.

The events are dispatched in the order in which they were queued, each once, and a
promise gets one value, the one its `dispatchEvent` returned; when `dispatchEvents`
returns, every promise has its value, and a `dispatchEvents` under way can return
without another post. Every `dispatchEvent`, also the one that runs, goes through the
registered handlers as `Record.Delivered` and `Rounds` say. A handler is called only if
its last call was an add, and so was its last call before the last merge. After a merge
a handler is in the list if and only if its last call was an add. -/
theorem events_delivered {slots : H → Slot → Bool} {actions : List (Action H)}
    (hrun : Lib.Run (Step priority) (State.init slots) actions s) :
    (s.posted = s.records.map Record.event ++ s.main.current ++ s.eventQueue ∧
      s.posted.map Posted.id = List.range s.posted.length) ∧
    (s.records.map (fun r => (r.event.id, r.value)) = s.futures ++ s.main.pending ∧
      (s.futures.map Prod.fst).Nodup) ∧
    (∀ s', Step priority s .leave s' → s'.futures.map Prod.fst = s'.posted.map Posted.id) ∧
    (s.main ≠ .idle →
      ∃ later s', Lib.Run (fun s a s' => a.Own ∧ Step priority s a s') s later s' ∧
        s'.main = .idle ∧ s'.futures.map Prod.fst = s.posted.map Posted.id) ∧
    (∀ r ∈ s.records, r.Delivered priority) ∧
    (Lib.Ranked priority s.eventHandlers ∧ (∀ h, h ∈ s.eventHandlers ↔ Registered s.merged h) ∧
      Rounds s.eventHandlers s.main.visits) ∧
    (∀ h s', Step priority s (.call h) s' → Registered s.calls h ∧ Registered s.merged h) ∧
    (∀ s', Step priority s .merge s' → ∀ h, h ∈ s'.eventHandlers ↔ Registered s'.calls h) := by
  have hi := Inv.run hrun
  refine ⟨⟨hi.queue.order, hi.queue.numbered⟩, ⟨hi.queue.values, hi.queue.nodup_futures⟩, ?_,
    dispatchEvents_returns hi, hi.records,
    ⟨hi.registration.ranked, hi.registration.merged, hi.rounds⟩, ?_, ?_⟩
  · intro s' hleave
    cases hleave with
    | leave hmain hqueue => exact hi.queue.futures_of_drained hmain hqueue
  · intro h s' hcall
    cases hcall with
    | call hmain htype hhandler hkept hfills =>
        exact hi.registered_of_call (List.mem_of_getElem? hhandler) hkept
  · intro s' hmerge
    cases hmerge with
    | merge hmain => exact hi.registration.mem_merge

/-- A handler takes two key events, but removes itself inside its first callback: the
second event reaches nobody. -/
theorem events_delivered_removed :
    ∃ (actions : List (Action Nat)) (s : State Nat),
      Lib.Run (Step fun _ => 0) (State.init fun _ _ => true) actions s ∧
      s.futures = [(0, false), (1, false)] ∧
      s.records.map (fun r => r.visits.map Visit.result) = [[some false], [none]] ∧
      ∀ r ∈ s.records, r.Delivered fun _ => 0 := by
  have hrun : Lib.Run (Step fun _ => 0) (State.init fun (_ : Nat) _ => true) [] _ := .nil _
  have hrun := hrun.snoc (.addEventHandler 0 trivial)
  have hrun := hrun.snoc (.postEvent (some .keyPressed))
  have hrun := hrun.snoc (.postEvent (some .keyPressed))
  have hrun := hrun.snoc (.merge rfl)
  have hrun := hrun.snoc (.pop rfl rfl)
  have hrun := hrun.snoc (.call (h := 0) rfl rfl (by decide) (by decide) rfl)
  have hrun := hrun.snoc (.removeEventHandler 0 trivial)
  have hrun := hrun.snoc (.refuse rfl)
  have hrun := hrun.snoc (.finish rfl rfl (by decide))
  have hrun := hrun.snoc (.setValue rfl)
  have hrun := hrun.snoc (.pop rfl rfl)
  have hrun := hrun.snoc (.skip (h := 0) rfl rfl (by decide) (.inl (by decide)))
  have hrun := hrun.snoc (.finish rfl rfl (by decide))
  have hrun := hrun.snoc (.setValue rfl)
  exact ⟨_, _, hrun, rfl, rfl, (events_delivered hrun).2.2.2.2.1⟩

end Maple.Event
