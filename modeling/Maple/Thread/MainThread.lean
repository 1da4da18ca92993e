import Mathlib.Data.List.Nodup
import Mathlib.Data.List.Range
import Mathlib.Tactic.SplitIfs
import Maple.Lib.Run

/-!
# Maple.Thread.MainThread

**`postOnMainThread` and `executeAll` of `Application.cpp`, with the futures.** Threads post
calls at any time, also from inside of a call that the main thread makes. `executeAll` moves
each of them into one pair `func`, and a promise that was not kept is broken when the next one
is moved over it or when `executeAll` leaves.

Every future becomes ready once, in the order of the calls, with the value of its own
callback; it is broken exactly for an empty callback and for one that throws, `calls_kept`.
-/

namespace Maple.Thread

open Lib

/-- An entry of `executeQueue`, with the number of its `postOnMainThread`, which stands for its
promise; `callback` says whether the function is not empty. -/
structure Call where
  id : Nat
  callback : Bool
  deriving DecidableEq, Repr

/-- What a future was given. -/
inductive Outcome where
  | value (value : Bool)
  | brokenPromise
  deriving DecidableEq, Repr

/-- What the future of a call is given unless the callback throws. -/
def Call.Gives (call : Call) : Outcome → Prop
  | .value _ => call.callback = true
  | .brokenPromise => call.callback = false

/-- Where the main thread is. -/
inductive Executing where
  /-- not in `executeAll` -/
  | outside
  /-- about to take the lock; `func` is the call whose promise is in the pair, not kept -/
  | looping (func : Option Nat)
  /-- in `func.second()` -/
  | running (call : Call)
  /-- an exception left `executeAll` -/
  | thrown (call : Call)
  deriving DecidableEq, Repr

/-- The promise in the pair that is not kept. -/
def Executing.held : Executing → List Nat
  | .looping func => func.toList
  | .running call => [call.id]
  | .outside | .thrown _ => []

/-- `executeQueue` and the main thread. The histories are the calls that were posted, the ones
that were taken, the values that callbacks returned, and what the futures were given. -/
structure Executor where
  executeQueue : List Call
  main : Executing
  posted : List Call
  taken : List Call
  returned : List (Nat × Bool)
  futures : List (Nat × Outcome)

inductive Task.Action where
  | post (callback : Bool)
  | executeAll
  | pop
  | result (value : Bool)
  | throw
  | leave
  deriving DecidableEq, Repr

namespace Executor

def init : Executor where
  executeQueue := []
  main := .outside
  posted := []
  taken := []
  returned := []
  futures := []

/-- `postOnMainThread`. -/
def postOnMainThread (s : Executor) (callback : Bool) : Executor :=
  { s with
    executeQueue := s.executeQueue ++ [⟨s.posted.length, callback⟩]
    posted := s.posted ++ [⟨s.posted.length, callback⟩] }

/-- The promises in the pair are overwritten. -/
def abandon (s : Executor) (func : Option Nat) : Executor :=
  { s with futures := s.futures ++ func.toList.map fun id => (id, .brokenPromise) }

/-- One step. -/
def step (s : Executor) : Task.Action → Option Executor
  | .post callback => some (s.postOnMainThread callback)
  | .executeAll => if s.main = .outside then some { s with main := .looping none } else none
  | .pop =>
    match s.main, s.executeQueue with
    | .looping func, call :: executeQueue =>
      some { s.abandon func with
        executeQueue
        taken := s.taken ++ [call]
        main := if call.callback then .running call else .looping (some call.id) }
    | _, _ => none
  | .result value =>
    match s.main with
    | .running call =>
      some { s with
        main := .looping none
        returned := s.returned ++ [(call.id, value)]
        futures := s.futures ++ [(call.id, .value value)] }
    | _ => none
  | .throw =>
    match s.main with
    | .running call => some { s.abandon (some call.id) with main := .thrown call }
    | _ => none
  | .leave =>
    match s.main, s.executeQueue with
    | .looping func, [] => some { s.abandon func with main := .outside }
    | _, _ => none

/-- Runs, of any interleaving of the threads. -/
abbrev Run : Executor → List Task.Action → Executor → Prop :=
  Lib.Run fun s a s' => s.step a = some s'

/-- The values among what the futures were given. -/
def values (futures : List (Nat × Outcome)) : List (Nat × Bool) :=
  futures.filterMap fun
    | (id, .value value) => some (id, value)
    | (_, .brokenPromise) => none

/-- What every state keeps. -/
structure Kept (s : Executor) : Prop where
  ids : s.posted.map Call.id = List.range s.posted.length
  order : s.posted = s.taken ++ s.executeQueue
  ready : s.taken.map Call.id = s.futures.map Prod.fst ++ s.main.held
  returned : s.returned = values s.futures
  gives : ∀ future ∈ s.futures, ∃ call ∈ s.taken, call.id = future.1 ∧
    (call.Gives future.2 ∨ future.2 = .brokenPromise ∧ s.main = .thrown call)
  looping : ∀ func, s.main = .looping (some func) →
    ∃ call ∈ s.taken, call.id = func ∧ call.callback = false
  running : ∀ call, s.main = .running call → call ∈ s.taken ∧ call.callback = true

theorem kept_init : init.Kept where
  ids := rfl
  order := rfl
  ready := rfl
  returned := rfl
  gives _ h := nomatch h
  looping _ h := nomatch h
  running _ h := nomatch h

variable {s s' : Executor}

theorem values_append (futures futures' : List (Nat × Outcome)) :
    values (futures ++ futures') = values futures ++ values futures' := List.filterMap_append

@[simp] theorem values_broken (func : Option Nat) :
    values (func.toList.map fun id => (id, .brokenPromise)) = [] := by
  cases func <;> rfl

/-- Outside of a call the futures have what their calls give. -/
theorem Kept.gives_of_ne (hs : s.Kept) (hmain : ∀ call, s.main ≠ .thrown call) :
    ∀ future ∈ s.futures, ∃ call ∈ s.taken, call.id = future.1 ∧ call.Gives future.2 := by
  intro future hmem
  obtain ⟨call, hcall, hid, hgives⟩ := hs.gives future hmem
  exact ⟨call, hcall, hid, hgives.resolve_right fun h => hmain call h.2⟩

theorem Kept.gives_abandon (hs : s.Kept) {func : Option Nat} (hmain : s.main = .looping func) :
    ∀ future ∈ (s.abandon func).futures,
      ∃ call ∈ s.taken, call.id = future.1 ∧ call.Gives future.2 := by
  intro future hmem
  rcases List.mem_append.mp hmem with h | h
  · exact hs.gives_of_ne (by simp [hmain]) future h
  · cases func with
    | none => cases h
    | some id =>
        obtain rfl := List.mem_singleton.mp h
        exact hs.looping id hmain

theorem Kept.post (hs : s.Kept) (callback : Bool) : (s.postOnMainThread callback).Kept where
  ids := by simp [postOnMainThread, hs.ids, List.range_succ]
  order := by simp [postOnMainThread, ← List.append_assoc, ← hs.order]
  ready := hs.ready
  returned := hs.returned
  gives := hs.gives
  looping := hs.looping
  running := hs.running

/-- `executeAll` takes the next call. -/
theorem Kept.pop (hs : s.Kept) {func : Option Nat} {call : Call} {executeQueue : List Call}
    (hmain : s.main = .looping func) (hqueue : s.executeQueue = call :: executeQueue) :
    Kept { s.abandon func with
      executeQueue
      taken := s.taken ++ [call]
      main := if call.callback then .running call else .looping (some call.id) } where
  ids := hs.ids
  order := by simp [hs.order, hqueue, abandon]
  ready := by
    have hready := hs.ready
    simp only [hmain, Executing.held] at hready
    cases hcallback : call.callback <;>
      simp [hready, abandon, Executing.held, Function.comp_def]
  returned := by simp [hs.returned, abandon, values_append]
  gives future hmem := by
    obtain ⟨call', hcall', hid, hgives⟩ := hs.gives_abandon hmain future hmem
    exact ⟨call', List.mem_append_left _ hcall', hid, .inl hgives⟩
  looping id hlooping := by
    cases hcallback : call.callback with
    | true => simp [hcallback] at hlooping
    | false => exact ⟨call, by simp, by simpa [hcallback] using hlooping, hcallback⟩
  running call' hrunning := by
    cases hcallback : call.callback with
    | true =>
        obtain rfl : call = call' := by simpa [hcallback] using hrunning
        exact ⟨by simp, hcallback⟩
    | false => simp [hcallback] at hrunning

/-- A callback returns. -/
theorem Kept.result (hs : s.Kept) {call : Call} (hmain : s.main = .running call) (value : Bool) :
    Kept { s with
      main := .looping none
      returned := s.returned ++ [(call.id, value)]
      futures := s.futures ++ [(call.id, .value value)] } where
  ids := hs.ids
  order := hs.order
  ready := by simpa [hmain, Executing.held] using hs.ready
  returned := by simp [hs.returned, values]
  gives future hmem := by
    rcases List.mem_append.mp hmem with h | h
    · obtain ⟨call', hcall', hid, hgives⟩ := hs.gives_of_ne (by simp [hmain]) future h
      exact ⟨call', hcall', hid, .inl hgives⟩
    · obtain rfl := List.mem_singleton.mp h
      obtain ⟨hcall, hcallback⟩ := hs.running call hmain
      exact ⟨call, hcall, rfl, .inl hcallback⟩
  looping id hlooping := by simp at hlooping
  running call' hrunning := by simp at hrunning

/-- A callback throws. -/
theorem Kept.throw (hs : s.Kept) {call : Call} (hmain : s.main = .running call) :
    Kept { s.abandon (some call.id) with main := .thrown call } where
  ids := hs.ids
  order := hs.order
  ready := by simpa [hmain, Executing.held, abandon] using hs.ready
  returned := by simp [hs.returned, abandon, values]
  gives future hmem := by
    rcases List.mem_append.mp hmem with h | h
    · obtain ⟨call', hcall', hid, hgives⟩ := hs.gives_of_ne (by simp [hmain]) future h
      exact ⟨call', hcall', hid, .inl hgives⟩
    · obtain rfl := List.mem_singleton.mp h
      exact ⟨call, (hs.running call hmain).1, rfl, .inr ⟨rfl, rfl⟩⟩
  looping id hlooping := by simp at hlooping
  running call' hrunning := by simp at hrunning

theorem Kept.leave (hs : s.Kept) {func : Option Nat} (hmain : s.main = .looping func) :
    Kept { s.abandon func with main := .outside } where
  ids := hs.ids
  order := hs.order
  ready := by simpa [hmain, Executing.held, abandon, Function.comp_def] using hs.ready
  returned := by simp [hs.returned, abandon, values_append]
  gives future hmem := by
    obtain ⟨call, hcall, hid, hgives⟩ := hs.gives_abandon hmain future hmem
    exact ⟨call, hcall, hid, .inl hgives⟩
  looping id hlooping := by simp at hlooping
  running call hrunning := by simp at hrunning

theorem Kept.step {action : Task.Action} (hs : s.Kept) (hstep : s.step action = some s') :
    s'.Kept := by
  cases action with
  | post callback =>
      obtain rfl := Option.some.inj hstep
      exact hs.post callback
  | executeAll =>
      simp only [Executor.step] at hstep
      split_ifs at hstep with hmain
      obtain rfl := Option.some.inj hstep
      exact { hs with
        ready := by simpa [hmain, Executing.held] using hs.ready
        gives := fun future hmem => by
          obtain ⟨call, hcall, hid, hgives⟩ := hs.gives_of_ne (by simp [hmain]) future hmem
          exact ⟨call, hcall, hid, .inl hgives⟩
        looping := by simp
        running := by simp }
  | pop =>
      simp only [Executor.step] at hstep
      split at hstep
      · obtain rfl := Option.some.inj hstep
        exact hs.pop ‹_› ‹_›
      · cases hstep
  | result value =>
      simp only [Executor.step] at hstep
      split at hstep
      · obtain rfl := Option.some.inj hstep
        exact hs.result ‹_› value
      · cases hstep
  | throw =>
      simp only [Executor.step] at hstep
      split at hstep
      · obtain rfl := Option.some.inj hstep
        exact hs.throw ‹_›
      · cases hstep
  | leave =>
      simp only [Executor.step] at hstep
      split at hstep
      · obtain rfl := Option.some.inj hstep
        exact hs.leave ‹_›
      · cases hstep

theorem Kept.run {actions : List Task.Action} (hrun : Run init actions s) : s.Kept :=
  hrun.state_invariant kept_init fun _ _ _ => Kept.step

/-! ### `executeAll` returns -/

/-- The steps that are left to do. -/
def size (s : Executor) : Nat :=
  2 * s.executeQueue.length + match s.main with
    | .outside | .thrown _ => 0
    | .looping _ => 1
    | .running _ => 2

/-- The main thread goes on, and no callback throws. -/
def Own (a : Task.Action) : Prop := a = .pop ∨ (∃ value, a = .result value) ∨ a = .leave

/-- The main thread is in `executeAll`, or has just left it. -/
structure Inside (s : Executor) (posted : List Call) : Prop where
  kept : s.Kept
  posted_eq : s.posted = posted
  left : s.main = .outside → s.executeQueue = []
  not_thrown : ∀ call, s.main ≠ .thrown call

variable {posted : List Call}

theorem Inside.exists_step (hs : s.Inside posted) (hmain : s.main ≠ .outside) :
    ∃ a s', Own a ∧ s.step a = some s' := by
  cases h : s.main with
  | outside => exact absurd h hmain
  | thrown call => exact absurd h (hs.not_thrown call)
  | running call => exact ⟨.result true, _, .inr (.inl ⟨true, rfl⟩), by simp only [step, h]; rfl⟩
  | looping func =>
      cases hqueue : s.executeQueue with
      | nil => exact ⟨.leave, _, .inr (.inr rfl), by simp only [step, h, hqueue]; rfl⟩
      | cons call executeQueue => exact ⟨.pop, _, .inl rfl, by simp only [step, h, hqueue]; rfl⟩

theorem Inside.step {a : Task.Action} (hs : s.Inside posted) (hown : Own a)
    (hstep : s.step a = some s') : s'.Inside posted ∧ s'.size < s.size := by
  have hkept := hs.kept.step hstep
  rcases hown with rfl | ⟨value, rfl⟩ | rfl
  · simp only [Executor.step] at hstep
    split at hstep
    next func call executeQueue hmain hqueue =>
      obtain rfl := Option.some.inj hstep
      refine ⟨⟨hkept, hs.posted_eq, ?_, ?_⟩, ?_⟩
      · cases call.callback <;> simp
      · cases call.callback <;> simp
      · simp only [size, hmain, hqueue, List.length_cons]
        cases call.callback
        · simp
        · simp
          omega
    · cases hstep
  · simp only [Executor.step] at hstep
    split at hstep
    next call hmain =>
      obtain rfl := Option.some.inj hstep
      exact ⟨⟨hkept, hs.posted_eq, by simp, by simp⟩, by simp [size, hmain]⟩
    · cases hstep
  · simp only [Executor.step] at hstep
    split at hstep
    next func hmain hqueue =>
      obtain rfl := Option.some.inj hstep
      exact ⟨⟨hkept, hs.posted_eq, fun _ => hqueue, by simp⟩,
        by simp [size, hmain, hqueue, abandon]⟩
    · cases hstep

/-- `executeAll` returns if its callbacks do and no more calls are posted. -/
theorem Inside.returns (hs : s.Inside posted) : ∃ actions s', (∀ a ∈ actions, Own a) ∧
    Run s actions s' ∧ s'.Inside posted ∧ s'.main = .outside := by
  obtain ⟨actions, s', hrun, hinside, hmain⟩ : ∃ actions s',
      Lib.Run (fun s a s' => Own a ∧ s.step a = some s') s actions s' ∧ s'.Inside posted ∧
        s'.main = .outside :=
    Lib.Run.reaches size
      (fun t ht hmain => by
        obtain ⟨a, u, hown, hstep⟩ := ht.exists_step hmain
        exact ⟨a, u, hown, hstep⟩)
      (fun t a u ht hstep => ht.step hstep.1 hstep.2) (Lib.Run.nil s) hs
  refine ⟨actions, s', ?_, hrun.mono fun _ _ _ h => h.2, hinside, hmain⟩
  exact hrun.invariant (I := fun actions _ => ∀ a ∈ actions, Own a) (by simp)
    fun as t a u has hstep b hb => by
      rcases List.mem_append.mp hb with h | h
      · exact has b h
      · exact List.mem_singleton.mp h ▸ hstep.1

/-- In every run, with calls posted by any threads at any time: calls are taken in the order in
which they were posted; the futures of those that were taken, but for one that the main thread
still has, are ready in that order, each once, with the value that the callback returned, or
broken if the callback was empty or threw. From inside of `executeAll` the main thread can
always go on until it leaves, and then the futures of all calls are ready. -/
theorem calls_kept {actions : List Task.Action} (hrun : Run init actions s) :
    s.posted = s.taken ++ s.executeQueue ∧ (s.posted.map Call.id).Nodup ∧
    s.taken.map Call.id = s.futures.map Prod.fst ++ s.main.held ∧
    s.returned = values s.futures ∧
    (∀ future ∈ s.futures, ∃ call ∈ s.taken, call.id = future.1 ∧
      (call.Gives future.2 ∨ future.2 = .brokenPromise ∧ s.main = .thrown call)) ∧
    (s.main ≠ .outside → (∀ call, s.main ≠ .thrown call) →
      ∃ actions' s', (∀ a ∈ actions', Own a) ∧ Run s actions' s' ∧ s'.main = .outside ∧
        s'.posted = s.posted ∧ s'.futures.map Prod.fst = s.posted.map Call.id) := by
  have hs := Kept.run hrun
  refine ⟨hs.order, hs.ids ▸ List.nodup_range, hs.ready, hs.returned, hs.gives,
    fun hmain hthrown => ?_⟩
  obtain ⟨actions', s', hown, hrun', hinside, hmain'⟩ :=
    Inside.returns ⟨hs, rfl, fun h => absurd h hmain, hthrown⟩
  refine ⟨actions', s', hown, hrun', hmain', hinside.posted_eq, ?_⟩
  have hready := hinside.kept.ready
  simp only [hmain', Executing.held, List.append_nil] at hready
  rw [← hready, ← hinside.posted_eq, hinside.kept.order, hinside.left hmain', List.append_nil]

/-- A call, an empty one, and one that is posted from the first. -/
theorem calls_kept_posted :
    ∃ s, Run init [.post true, .post false, .executeAll, .pop, .post true, .result true, .pop,
      .pop, .result false, .leave] s ∧
      s.futures = [(0, .value true), (1, .brokenPromise), (2, .value false)] ∧
      s.returned = values s.futures := by
  have hrun : Run init [.post true, .post false, .executeAll, .pop, .post true, .result true,
      .pop, .pop, .result false, .leave] _ := Lib.Run.partial_iff.mpr rfl
  exact ⟨_, hrun, rfl, (calls_kept hrun).2.2.2.1⟩

end Executor

end Maple.Thread
