import Mathlib.Data.Finset.Basic
import Mathlib.Logic.Function.Basic
import Maple.Lib.Ranked
import Maple.Lib.Run

/-!
# Maple.Event.EventDispatcher

`EventDispatcher` of `Event/EventDispatcher.cpp` as a transition system: threads that
call `postEvent` at any time, and the main thread, which calls `dispatchEvents` and,
outside it or inside a callback, `addEventHandler` and `removeEventHandler`.

A critical section of `eventQueueMutex` is one step. `eventHandlers` is walked by index,
as the source's loop does, while callbacks change the two pending sets.

The state carries histories: the calls of `addEventHandler` and `removeEventHandler`,
newest first, with a copy of them at the last merge; the events in the order in which
they were queued; a record of every finished `dispatchEvent`; and the values the
futures received.
-/

namespace Maple.Event

/-- `EventType` of `Event/Event.h`. -/
inductive EventType where
  | none
  | windowClose
  | windowResize
  | windowFocus
  | windowLostFocus
  | tick
  | update
  | render
  | keyPressed
  | keyReleased
  | charInput
  | mouseClicked
  | mouseReleased
  | mouseMove
  | mouseScrolled
  | deferredType
  | recompileScripts
  deriving DecidableEq, Repr

/-- The `std::function` members of `EventHandler`. -/
inductive Slot where
  | mouseMoveHandler
  | mouseClickHandler
  | mouseRelaseHandler
  | mouseScrollHandler
  | keyPressedHandler
  | keyReleasedHandler
  | charInputHandler
  | deferredTypeHandler
  | compileHandler
  deriving DecidableEq, Repr

/-- The `switch` of `dispatchEvent`: the member that receives an event of a kind. -/
def EventType.slot : EventType → Option Slot
  | .keyPressed => some .keyPressedHandler
  | .keyReleased => some .keyReleasedHandler
  | .mouseClicked => some .mouseClickHandler
  | .mouseReleased => some .mouseRelaseHandler
  | .mouseMove => some .mouseMoveHandler
  | .mouseScrolled => some .mouseScrollHandler
  | .deferredType => some .deferredTypeHandler
  | .charInput => some .charInputHandler
  | .recompileScripts => some .compileHandler
  | .windowClose | .windowResize | .windowFocus | .windowLostFocus => Option.none
  | .none | .tick | .update | .render => Option.none

/-- What `EventHandler::eventDispatcher` points to, seen from one dispatcher. -/
inductive Owner where
  | this
  | other
  deriving DecidableEq, Repr

/-- `EventDispatcher` without its queue, with the `eventDispatcher` of every handler. A
`std::set` of handlers is iterated in the order of their addresses. -/
structure EventDispatcher (H : Type) where
  eventHandlers : List H
  eventHandlerAddSet : Finset H
  eventHandlerDeleteSet : Finset H
  eventDispatcher : H → Option Owner

namespace EventDispatcher

variable {H : Type} [LinearOrder H]

def removeEventHandler (d : EventDispatcher H) (h : H) : EventDispatcher H :=
  { d with
    eventDispatcher :=
      if d.eventDispatcher h = some .this then Function.update d.eventDispatcher h none
      else d.eventDispatcher
    eventHandlerDeleteSet := insert h d.eventHandlerDeleteSet
    eventHandlerAddSet := d.eventHandlerAddSet.erase h }

def addEventHandler (d : EventDispatcher H) (h : H) : EventDispatcher H :=
  -- `removeEventHandler` of another owner changes nothing here
  let d := if d.eventDispatcher h = some .this then d.removeEventHandler h else d
  { d with
    eventDispatcher := Function.update d.eventDispatcher h (some .this)
    eventHandlerAddSet := insert h d.eventHandlerAddSet
    eventHandlerDeleteSet := d.eventHandlerDeleteSet.erase h }

/-- Another dispatcher's `addEventHandler`. -/
def adopted (d : EventDispatcher H) (h : H) : EventDispatcher H :=
  let d := if d.eventDispatcher h = some .this then d.removeEventHandler h else d
  { d with eventDispatcher := Function.update d.eventDispatcher h (some .other) }

/-- The first two loops of `dispatchEvents`. `upper_bound` finds the first handler of a
smaller priority. -/
def merge (priority : H → Int) (d : EventDispatcher H) : EventDispatcher H :=
  let kept := Lib.strike (Lib.ascending d.eventHandlerDeleteSet) d.eventHandlers
  { d with
    eventHandlers := Lib.enlist priority (Lib.ascending d.eventHandlerAddSet) kept
    eventHandlerAddSet := ∅
    eventHandlerDeleteSet := ∅ }

end EventDispatcher

/-- An entry of `eventQueue`, with the number of its `postEvent` call, which stands for
its promise. The event has no type when the pointer is null. -/
structure Posted where
  id : Nat
  type : Option EventType
  deriving DecidableEq, Repr

/-- One round of the loop of `dispatchEvent`: whether the last call for the handler was
an add, whether it fills the slot of the event, and what its callback returned, if it
was called. -/
structure Visit (H : Type) where
  handler : H
  registered : Bool
  filled : Bool
  result : Option Bool
  deriving DecidableEq, Repr

/-- A finished `dispatchEvent`: the rounds of its loop and the value it returned, with
`eventHandlers` and the history of calls of the last merge. -/
structure Record (H : Type) where
  event : Posted
  handlers : List H
  merged : List (H × Bool)
  visits : List (Visit H)
  value : Bool
  deriving DecidableEq, Repr

/-- Where the main thread is. -/
inductive Main (H : Type) where
  /-- outside `dispatchEvents` -/
  | idle
  /-- about to look at the queue -/
  | draining
  /-- inside `dispatchEvent`, before round `i` -/
  | dispatching (event : Posted) (i : Nat) (visits : List (Visit H))
  /-- inside the callback of round `i` -/
  | calling (event : Posted) (i : Nat) (visits : List (Visit H)) (visit : Visit H)
  /-- `dispatchEvent` has returned -/
  | returned (event : Posted) (value : Bool)
  deriving DecidableEq, Repr

namespace Main

variable {H : Type}

/-- The program's own code runs, not the dispatcher's. -/
def User : Main H → Prop
  | .idle | .calling .. => True
  | .draining | .dispatching .. | .returned .. => False

/-- The event inside `dispatchEvent`. -/
def current : Main H → List Posted
  | .dispatching e _ _ | .calling e _ _ _ => [e]
  | .idle | .draining | .returned _ _ => []

/-- The value about to be stored in a promise. -/
def pending : Main H → List (Nat × Bool)
  | .returned e value => [(e.id, value)]
  | .idle | .draining | .dispatching .. | .calling .. => []

/-- The finished rounds of the running `dispatchEvent`. -/
def visits : Main H → List (Visit H)
  | .dispatching _ _ visits | .calling _ _ visits _ => visits
  | .idle | .draining | .returned _ _ => []

end Main

/-- The dispatcher, its queue, the callbacks of the handlers, the main thread and the
histories. -/
structure State (H : Type) extends EventDispatcher H where
  eventQueue : List Posted
  slots : H → Slot → Bool
  main : Main H
  calls : List (H × Bool)
  merged : List (H × Bool)
  posted : List Posted
  records : List (Record H)
  futures : List (Nat × Bool)

namespace State

variable {H : Type}

/-- `EventDispatcher()`, with handlers that no dispatcher owns. -/
def init (slots : H → Slot → Bool) : State H where
  eventHandlers := []
  eventHandlerAddSet := ∅
  eventHandlerDeleteSet := ∅
  eventDispatcher := fun _ => none
  eventQueue := []
  slots := slots
  main := .idle
  calls := []
  merged := []
  posted := []
  records := []
  futures := []

/-- The handler has a callback for this kind of event. -/
def fills (s : State H) (t : EventType) (h : H) : Bool :=
  match t.slot with
  | some slot => s.slots h slot
  | none => false

def postEvent (s : State H) (type : Option EventType) : State H :=
  { s with
    eventQueue := s.eventQueue ++ [⟨s.posted.length, type⟩]
    posted := s.posted ++ [⟨s.posted.length, type⟩] }

/-- `dispatchEvent` returns a value. -/
def leaveDispatch (s : State H) (e : Posted) (visits : List (Visit H)) (value : Bool) : State H :=
  { s with
    main := .returned e value
    records := s.records ++ [⟨e, s.eventHandlers, s.merged, visits, value⟩] }

variable [LinearOrder H]

/-- The last call for the handler was an add. -/
def Registered (calls : List (H × Bool)) (h : H) : Prop :=
  calls.lookup h = some true

instance (calls : List (H × Bool)) (h : H) : Decidable (Registered calls h) :=
  inferInstanceAs (Decidable (_ = _))

/-- The round for a handler, before its callback is called. -/
def visit (s : State H) (t : EventType) (h : H) : Visit H :=
  ⟨h, decide (Registered s.calls h), s.fills t h, none⟩

end State

/-- The steps of the threads. -/
inductive Action (H : Type) where
  | postEvent (type : Option EventType)
  | addEventHandler (h : H)
  | removeEventHandler (h : H)
  | adopt (h : H)
  | release (h : H)
  | assign (slots : H → Slot → Bool)
  | merge
  | pop
  | leave
  | round
  | call (h : H)
  | answer (b : Bool)
  | setValue

variable {H : Type} [LinearOrder H]

/-- One step. -/
inductive Step (priority : H → Int) (s : State H) : Action H → State H → Prop
  /-- `postEvent`, on any thread. -/
  | postEvent (type : Option EventType) : Step priority s (.postEvent type) (s.postEvent type)
  | addEventHandler (h : H) (huser : s.main.User) :
      Step priority s (.addEventHandler h)
        { s with
          toEventDispatcher := s.toEventDispatcher.addEventHandler h
          calls := (h, true) :: s.calls }
  | removeEventHandler (h : H) (huser : s.main.User) :
      Step priority s (.removeEventHandler h)
        { s with
          toEventDispatcher := s.toEventDispatcher.removeEventHandler h
          calls := (h, false) :: s.calls }
  /-- Another dispatcher's `addEventHandler`, which calls this one's
  `removeEventHandler` if it is the owner. -/
  | adopt (h : H) (huser : s.main.User) :
      Step priority s (.adopt h)
        { s with
          toEventDispatcher := s.toEventDispatcher.adopted h
          calls := if s.eventDispatcher h = some .this then (h, false) :: s.calls else s.calls }
  /-- Another dispatcher's `removeEventHandler`. -/
  | release (h : H) (huser : s.main.User) (howner : s.eventDispatcher h = some .other) :
      Step priority s (.release h)
        { s with eventDispatcher := Function.update s.eventDispatcher h none }
  /-- The program assigns callbacks. -/
  | assign (slots : H → Slot → Bool) (huser : s.main.User) :
      Step priority s (.assign slots) { s with slots := slots }
  /-- `dispatchEvents` is called and merges the pending sets. -/
  | merge (hmain : s.main = .idle) :
      Step priority s .merge
        { s with
          toEventDispatcher := s.toEventDispatcher.merge priority
          merged := s.calls
          main := .draining }
  | pop {e : Posted} {rest : List Posted} (hmain : s.main = .draining)
      (hqueue : s.eventQueue = e :: rest) :
      Step priority s .pop { s with eventQueue := rest, main := .dispatching e 0 [] }
  /-- The queue is empty and `dispatchEvents` returns. -/
  | leave (hmain : s.main = .draining) (hqueue : s.eventQueue = []) :
      Step priority s .leave { s with main := .idle }
  /-- `!event`. -/
  | null {e : Posted} {i : Nat} {visits : List (Visit H)}
      (hmain : s.main = .dispatching e i visits) (htype : e.type = none) :
      Step priority s .round (s.leaveDispatch e visits false)
  /-- The loop ends. -/
  | finish {e : Posted} {t : EventType} {i : Nat} {visits : List (Visit H)}
      (hmain : s.main = .dispatching e i visits) (htype : e.type = some t)
      (hend : s.eventHandlers.length ≤ i) :
      Step priority s .round (s.leaveDispatch e visits false)
  /-- The handler waits for its deletion, or its slot for this kind of event is empty. -/
  | skip {e : Posted} {t : EventType} {i : Nat} {visits : List (Visit H)} {h : H}
      (hmain : s.main = .dispatching e i visits) (htype : e.type = some t)
      (hhandler : s.eventHandlers[i]? = some h)
      (hskip : h ∈ s.eventHandlerDeleteSet ∨ s.fills t h = false) :
      Step priority s .round { s with main := .dispatching e (i + 1) (visits ++ [s.visit t h]) }
  | call {e : Posted} {t : EventType} {i : Nat} {visits : List (Visit H)} {h : H}
      (hmain : s.main = .dispatching e i visits) (htype : e.type = some t)
      (hhandler : s.eventHandlers[i]? = some h) (hkept : h ∉ s.eventHandlerDeleteSet)
      (hfills : s.fills t h = true) :
      Step priority s (.call h) { s with main := .calling e i visits (s.visit t h) }
  /-- The callback returns false and the loop goes on. -/
  | refuse {e : Posted} {i : Nat} {visits : List (Visit H)} {visit : Visit H}
      (hmain : s.main = .calling e i visits visit) :
      Step priority s (.answer false)
        { s with main := .dispatching e (i + 1) (visits ++ [{ visit with result := some false }]) }
  /-- The callback returns true and the loop is left. -/
  | handle {e : Posted} {i : Nat} {visits : List (Visit H)} {visit : Visit H}
      (hmain : s.main = .calling e i visits visit) :
      Step priority s (.answer true)
        (s.leaveDispatch e (visits ++ [{ visit with result := some true }]) true)
  /-- `event.first.set_value`. -/
  | setValue {e : Posted} {value : Bool} (hmain : s.main = .returned e value) :
      Step priority s .setValue
        { s with futures := s.futures ++ [(e.id, value)], main := .draining }

end Maple.Event
