import Mathlib.Logic.Function.Basic
import Maple.Lib.Run

/-!
# Maple.Thread.Thread

`Thread` of `Thread/ThreadPool.cpp` as a transition system: the worker loop
`Thread::run`, any number of callers of `addTask` and `wait`, the destructor, and
`Application::postOnMainThread` and `executeAll`, through which completions reach
the main thread.

A critical section of `mutex` or of `executeMutex` is one step. Blocking in
`condition.wait` gives the lock up in the same step; `notify_one` wakes an
arbitrary blocked party, if there is one, and a party may also wake without
being notified. A woken party takes the lock again and evaluates its predicate,
like one that has just called.

The state carries histories: the tasks in the order in which they were appended,
popped and started, the results the jobs returned, and what was posted to the main
thread and executed there.
-/

namespace Maple.Thread

/-- A `Task`, numbered by its `addTask` call; `job` and `complete` say which of its
functions are not null. -/
structure Task where
  id : Nat
  job : Bool
  complete : Bool
  deriving DecidableEq, Repr

/-- An entry of `executeQueue`: the completion of a task with the result of its job,
or something else that was posted to the main thread. -/
inductive Post (R : Type) where
  | completion (task : Task) (result : R)
  | other
  deriving DecidableEq, Repr

/-- Where the worker is in `Thread::run`. -/
inductive Worker (R : Type) where
  /-- about to take the lock and evaluate its predicate -/
  | checking
  /-- blocked in `condition.wait` -/
  | asleep
  /-- the front of `jobs` is copied -/
  | taken (task : Task)
  /-- inside `task.job()` -/
  | running (task : Task)
  | returned (task : Task) (result : R)
  /-- about to pop the front -/
  | popping (task : Task)
  /-- the loop is left because of `close` -/
  | exited
  deriving DecidableEq, Repr

/-- Where a caller of `wait` is. -/
inductive Caller where
  | idle
  /-- about to take the lock and evaluate its predicate -/
  | ready
  /-- blocked in `condition.wait` -/
  | asleep
  /-- `wait` has returned; `seen` are the tasks appended when the predicate was last
  evaluated -/
  | returned (seen : List Task)
  deriving DecidableEq, Repr

/-- The parties that can be blocked on `condition`. -/
inductive Party (W : Type) where
  | worker
  | caller (w : W)

/-- `Thread` with the `executeQueue` of the application. `destroyer` is the caller that
runs the destructor. -/
structure State (W R : Type) where
  jobs : List Task
  close : Bool
  worker : Worker R
  caller : W → Caller
  destroyer : Option W
  executeQueue : List (Post R)
  held : Option (Post R)
  appended : List Task
  popped : List Task
  started : List Task
  ran : List (Task × R)
  posted : List (Post R)
  executed : List (Post R)

namespace State

variable {W R : Type}

/-- `Thread(name)`. -/
def init : State W R where
  jobs := []
  close := false
  worker := .checking
  caller := fun _ => .idle
  destroyer := none
  executeQueue := []
  held := none
  appended := []
  popped := []
  started := []
  ran := []
  posted := []
  executed := []

/-- The party is blocked. -/
def Asleep (s : State W R) : Party W → Prop
  | .worker => s.worker = .asleep
  | .caller w => s.caller w = .asleep

/-- `notify_one` picks this party, or finds none. -/
def NotifyOne (s : State W R) : Option (Party W) → Prop
  | none => ∀ p, ¬ s.Asleep p
  | some p => s.Asleep p

theorem NotifyOne.congr {s s' : State W R} {woken : Option (Party W)} (h : s.NotifyOne woken)
    (hsame : ∀ p, s'.Asleep p ↔ s.Asleep p) : s'.NotifyOne woken := by
  cases woken with
  | none => exact fun p hp => h p ((hsame p).mp hp)
  | some p => exact (hsame p).mpr h

variable [DecidableEq W]

def setCaller (s : State W R) (w : W) (c : Caller) : State W R :=
  { s with caller := Function.update s.caller w c }

theorem setCaller_self (s : State W R) (w : W) (c : Caller) : (s.setCaller w c).caller w = c := by
  simp only [setCaller, Function.update_self]

theorem setCaller_of_ne {w w' : W} (h : w' ≠ w) (s : State W R) (c : Caller) :
    (s.setCaller w c).caller w' = s.caller w' := by
  simp only [setCaller, Function.update_of_ne h]

/-- The picked party has to take the lock again. -/
def wake (s : State W R) : Option (Party W) → State W R
  | none => s
  | some .worker => { s with worker := .checking }
  | some (.caller w) => s.setCaller w .ready

/-- `jobs.emplace_back(task)`. -/
def append (s : State W R) (task : Task) : State W R :=
  { s with jobs := s.jobs ++ [task], appended := s.appended ++ [task] }

/-- `jobs.pop_front()`; the worker goes back to the head of its loop. -/
def popFront (s : State W R) : State W R :=
  { s with
    jobs := s.jobs.tail
    popped := s.popped ++ s.jobs.head?.toList
    worker := .checking }

/-- `postOnMainThread`. -/
def post (s : State W R) (p : Post R) : State W R :=
  { s with executeQueue := s.executeQueue ++ [p], posted := s.posted ++ [p] }

end State

/-- The steps of the parties. -/
inductive Action (W R : Type) where
  | addTask (job complete : Bool)
  | check
  | start
  | result (r : R)
  | complete
  | pop
  | call (w : W)
  | wait (w : W)
  | spurious (p : Party W)
  | postOther
  | take
  | execute
  | destroy (w : W)
  | close (w : W)

variable {W R : Type} [DecidableEq W]

/-- One step. -/
inductive Step (s : State W R) : Action W R → State W R → Prop
  /-- `addTask`; none is made while the destructor runs. -/
  | addTask (job complete : Bool) {woken : Option (Party W)} (hopen : s.destroyer = none)
      (hwoken : s.NotifyOne woken) :
      Step s (.addTask job complete)
        ((s.append ⟨s.appended.length, job, complete⟩).wake woken)
  /-- The worker's predicate is false. -/
  | sleep (hworker : s.worker = .checking) (hjobs : s.jobs = []) (hclose : s.close = false) :
      Step s .check { s with worker := .asleep }
  | exit (hworker : s.worker = .checking) (hclose : s.close = true) :
      Step s .check { s with worker := .exited }
  /-- `task = jobs.front()`. -/
  | front {task : Task} {rest : List Task} (hworker : s.worker = .checking)
      (hclose : s.close = false) (hjobs : s.jobs = task :: rest) :
      Step s .check { s with worker := .taken task }
  | start {task : Task} (hworker : s.worker = .taken task) (hjob : task.job = true) :
      Step s .start { s with worker := .running task, started := s.started ++ [task] }
  /-- `task.job` is null. -/
  | skip {task : Task} (hworker : s.worker = .taken task) (hjob : task.job = false) :
      Step s .start { s with worker := .popping task }
  | result {task : Task} (r : R) (hworker : s.worker = .running task) :
      Step s (.result r) { s with worker := .returned task r, ran := s.ran ++ [(task, r)] }
  | complete {task : Task} {r : R} (hworker : s.worker = .returned task r)
      (hcomplete : task.complete = true) :
      Step s .complete { s.post (.completion task r) with worker := .popping task }
  /-- `task.complete` is null. -/
  | silent {task : Task} {r : R} (hworker : s.worker = .returned task r)
      (hcomplete : task.complete = false) :
      Step s .complete { s with worker := .popping task }
  | pop {task : Task} {woken : Option (Party W)} (hworker : s.worker = .popping task)
      (hwoken : s.NotifyOne woken) : Step s .pop (s.popFront.wake woken)
  /-- A thread calls `wait`, for the first time or again. -/
  | call (w : W) (hcaller : s.caller w = .idle ∨ ∃ seen, s.caller w = .returned seen)
      (hother : s.destroyer ≠ some w) : Step s (.call w) (s.setCaller w .ready)
  | wait (w : W) (hcaller : s.caller w = .ready) (hjobs : s.jobs = []) :
      Step s (.wait w) (s.setCaller w (.returned s.appended))
  /-- The caller's predicate is false. -/
  | block (w : W) (hcaller : s.caller w = .ready) (hjobs : s.jobs ≠ []) :
      Step s (.wait w) (s.setCaller w .asleep)
  | spurious (p : Party W) (hasleep : s.Asleep p) : Step s (.spurious p) (s.wake (some p))
  | postOther : Step s .postOther (s.post .other)
  /-- `executeAll` takes the front of the queue. -/
  | take {p : Post R} {rest : List (Post R)} (hheld : s.held = none)
      (hqueue : s.executeQueue = p :: rest) :
      Step s .take { s with held := some p, executeQueue := rest }
  /-- `executeAll` calls what it took. -/
  | execute {p : Post R} (hheld : s.held = some p) :
      Step s .execute { s with held := none, executed := s.executed ++ [p] }
  /-- `~Thread` calls `wait`. -/
  | destroy (w : W) (hcaller : s.caller w = .idle ∨ ∃ seen, s.caller w = .returned seen)
      (hfirst : s.destroyer = none) :
      Step s (.destroy w) { s.setCaller w .ready with destroyer := some w }
  /-- `~Thread` sets `close` once its `wait` has returned. -/
  | close (w : W) {seen : List Task} {woken : Option (Party W)} (hwho : s.destroyer = some w)
      (hcaller : s.caller w = .returned seen) (hfirst : s.close = false)
      (hwoken : s.NotifyOne woken) :
      Step s (.close w) (State.wake { s with close := true } woken)

end Maple.Thread
