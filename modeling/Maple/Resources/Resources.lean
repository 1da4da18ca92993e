import Mathlib.Data.List.Induction
import Mathlib.Logic.Function.Basic

/-!
# Maple.Resources.Resources

The cache of `Resources/Resources.h`, which is filled by `get`, `emplace` and `add`. **It
hands out no null pointer and one object for an id, as long as `tryGet` asks for ids that
are in it**: `cache[id]` puts a null pointer in the place of any other id, and from then on
`get` and `emplace` find it there.

An object is known by its number, so the arguments of its constructor are left out.
-/

namespace Maple.Resources

inductive Object where
  /-- constructed by the cache -/
  | made (number : Nat)
  /-- added from elsewhere -/
  | given (number : Nat)
  deriving DecidableEq, Repr

/-- `std::shared_ptr<T>`, which may be null. -/
abbrev Pointer := Option Object

structure State where
  cache : String → Option Pointer := fun _ => none
  made : Nat := 0

inductive Call where
  | get (id : String)
  | emplace (id : String)
  | add (id : String) (ptr : Pointer)
  | remove (id : String)
  | tryGet (id : String)
  | clear
  deriving DecidableEq, Repr

namespace State

/-- `cache[id] = ptr`. -/
def put (state : State) (id : String) (ptr : Option Pointer) : State :=
  { state with cache := Function.update state.cache id ptr }

/-- `get` and `emplace`: the object of the id, or a new one. -/
def findOrMake (state : State) (id : String) : Pointer × State :=
  match state.cache id with
  | some ptr => (ptr, state)
  | none =>
    let object := Object.made state.made
    (some object, { state.put id (some (some object)) with made := state.made + 1 })

/-- `tryGet`: `cache[id]` inserts what is not there. -/
def tryGet (state : State) (id : String) : Pointer × State :=
  match state.cache id with
  | some ptr => (ptr, state)
  | none => (none, state.put id (some none))

/-- A call, with the pointer it returns if it returns one. -/
def call (state : State) : Call → Option Pointer × State
  | .get id | .emplace id => (some (state.findOrMake id).1, (state.findOrMake id).2)
  | .add id ptr => (none, state.put id (some ptr))
  | .remove id => (none, state.put id none)
  | .tryGet id => (some (state.tryGet id).1, (state.tryGet id).2)
  | .clear => (none, { state with cache := fun _ => none })

/-- The state after some calls. -/
def after (state : State) (calls : List Call) : State :=
  calls.foldl (fun state c => (state.call c).2) state

/-- What the calls return. -/
def results (state : State) : List Call → List (Option Pointer)
  | [] => []
  | c :: calls => (state.call c).1 :: results (state.call c).2 calls

end State

/-! ### What the cache is for -/

/-- The calls after which an id may have another object. -/
def Touches (id : String) : Call → Prop
  | .add other _ | .remove other => other = id
  | .clear => True
  | .get _ | .emplace _ | .tryGet _ => False

/-- What every run should keep. -/
structure Sound (calls : List Call) : Prop where
  nonnull : ∀ before later id c, calls = before ++ c :: later → c = .get id ∨ c = .emplace id →
    ∃ object, ((({} : State).after before).call c).1 = some (some object)
  same : ∀ before between later id,
    calls = before ++ .get id :: (between ++ .get id :: later) →
    (∀ c ∈ between, ¬ Touches id c) →
    ((({} : State).after (before ++ .get id :: between)).call (.get id)).1 =
      ((({} : State).after before).call (.get id)).1
  inert : ∀ before later id, calls = before ++ .tryGet id :: later →
    (({} : State).after (before ++ [.tryGet id])).results later =
      (({} : State).after before).results later

/-- Every `tryGet` asks for an id that is in the cache. -/
def Known (calls : List Call) : Prop :=
  ∀ before later id, calls = before ++ .tryGet id :: later →
    (({} : State).after before).cache id ≠ none

/-- Every `add` has an object to add. -/
def AddsObjects (calls : List Call) : Prop := ∀ id ptr, Call.add id ptr ∈ calls → ptr ≠ none

/-! ### One call -/

namespace State

/-- No id has a null pointer. -/
def NoNull (state : State) : Prop := ∀ id, state.cache id ≠ some none

variable {state : State} {id : String} {c : Call} {ptr : Pointer}

@[simp] theorem put_cache_self (state : State) (id : String) (ptr : Option Pointer) :
    (state.put id ptr).cache id = ptr := Function.update_self ..

theorem put_cache_of_ne {other : String} (hne : other ≠ id) (state : State) (ptr : Option Pointer) :
    (state.put id ptr).cache other = state.cache other := Function.update_of_ne hne ..

theorem after_append (state : State) (calls : List Call) (c : Call) :
    state.after (calls ++ [c]) = ((state.after calls).call c).2 := List.foldl_append

/-- What `findOrMake` returns is the object of the id from then on. -/
theorem findOrMake_cache (state : State) (id : String) :
    (state.findOrMake id).2.cache id = some (state.findOrMake id).1 := by
  unfold findOrMake
  split
  next ptr hptr => exact hptr
  next => exact put_cache_self ..

theorem findOrMake_of_cache (h : state.cache id = some ptr) :
    state.findOrMake id = (ptr, state) := by
  unfold findOrMake
  rw [h]

theorem exists_findOrMake (h : state.NoNull) (id : String) :
    ∃ object, (state.findOrMake id).1 = some object := by
  unfold findOrMake
  split
  next ptr hptr => exact Option.ne_none_iff_exists'.mp fun hnull => h id (hnull ▸ hptr)
  next => exact ⟨_, rfl⟩

/-- An id in the cache is looked up without a change. -/
theorem tryGet_of_cache (h : state.cache id ≠ none) : (state.tryGet id).2 = state := by
  unfold tryGet
  split
  next => rfl
  next hnone => exact absurd hnone h

theorem tryGet_cache_of_none (h : state.cache id = none) :
    (state.tryGet id).2.cache id = some none := by
  unfold tryGet
  rw [h]
  exact put_cache_self ..

theorem findOrMake_keeps (h : state.cache id = some ptr) (other : String) :
    (state.findOrMake other).2.cache id = some ptr := by
  unfold findOrMake
  split
  next => exact h
  next hnone =>
      have hne : id ≠ other := fun heq => nomatch (heq ▸ h).symm.trans hnone
      exact (put_cache_of_ne hne ..).trans h

theorem tryGet_keeps (h : state.cache id = some ptr) (other : String) :
    (state.tryGet other).2.cache id = some ptr := by
  unfold tryGet
  split
  next => exact h
  next hnone =>
      have hne : id ≠ other := fun heq => nomatch (heq ▸ h).symm.trans hnone
      exact (put_cache_of_ne hne ..).trans h

/-- A call that does not touch the id leaves its object. -/
theorem cache_call (h : state.cache id = some ptr) (hc : ¬ Touches id c) :
    (state.call c).2.cache id = some ptr := by
  cases c with
  | get other => exact findOrMake_keeps h other
  | emplace other => exact findOrMake_keeps h other
  | add other ptr' => exact (put_cache_of_ne (Ne.symm hc) ..).trans h
  | remove other => exact (put_cache_of_ne (Ne.symm hc) ..).trans h
  | tryGet other => exact tryGet_keeps h other
  | clear => exact absurd trivial hc

theorem noNull_put (h : state.NoNull) {entry : Option Pointer} (hentry : entry ≠ some none) :
    (state.put id entry).NoNull := by
  intro other
  by_cases heq : other = id
  · rw [heq, put_cache_self]
    exact hentry
  · rw [put_cache_of_ne heq]
    exact h other

/-- A new object is not null, so only `add` and `tryGet` have to be looked at. -/
theorem noNull_call (h : state.NoNull) (hadd : ∀ id ptr, c = .add id ptr → ptr ≠ none)
    (hknown : ∀ id, c = .tryGet id → state.cache id ≠ none) : (state.call c).2.NoNull := by
  have hmake : ∀ id, (state.findOrMake id).2.NoNull := by
    intro id
    unfold findOrMake
    split
    next => exact h
    next => exact noNull_put h (by simp)
  cases c with
  | get id => exact hmake id
  | emplace id => exact hmake id
  | add id ptr => exact noNull_put h fun heq => hadd id ptr rfl (Option.some.inj heq)
  | remove id => exact noNull_put h nofun
  | tryGet id =>
      rw [show (state.call (.tryGet id)).2 = state from tryGet_of_cache (hknown id rfl)]
      exact h
  | clear => exact fun _ => nofun

end State

/-! ### Runs -/

variable {calls : List Call} {id : String}

theorem Known.of_append {later : List Call} (h : Known (calls ++ later)) : Known calls :=
  fun before rest id heq => h before (rest ++ later) id (by simp [heq])

/-- Where every `tryGet` is of an id in the cache, no null pointer gets into it. -/
theorem noNull_after (hknown : Known calls) (hadd : AddsObjects calls) :
    (({} : State).after calls).NoNull := by
  induction calls using List.reverseRecOn with
  | nil => exact fun _ => nofun
  | append_singleton calls c ih =>
      rw [State.after_append]
      refine State.noNull_call (ih hknown.of_append ?_) ?_ ?_
      · exact fun id ptr hmem => hadd id ptr (List.mem_append_left _ hmem)
      · exact fun id ptr heq => hadd id ptr (by simp [heq])
      · exact fun id heq => hknown calls [] id (by rw [heq])

/-- The object of an id stays while no call touches it. -/
theorem cache_after {state : State} {ptr : Pointer} (h : state.cache id = some ptr)
    (hcalls : ∀ c ∈ calls, ¬ Touches id c) : (state.after calls).cache id = some ptr := by
  induction calls generalizing state with
  | nil => exact h
  | cons c calls ih =>
      obtain ⟨hc, hcalls⟩ := List.forall_mem_cons.mp hcalls
      exact ih (State.cache_call h hc) hcalls

/-- **Resource cache never hands out null.** In every run that adds objects only and whose
`tryGet` calls ask for ids in the cache, `get` and `emplace` return an object, `get` the
same one until the id is touched, and `tryGet` has no effect. -/
theorem sound_of_known (calls : List Call) (hadd : AddsObjects calls) (hknown : Known calls) :
    Sound calls := by
  constructor
  · intro before later id c heq hc
    have hnull : (({} : State).after before).NoNull := by
      rw [heq] at hknown hadd
      exact noNull_after hknown.of_append fun id ptr hmem =>
        hadd id ptr (List.mem_append_left _ hmem)
    obtain ⟨object, hobject⟩ := State.exists_findOrMake hnull id
    refine ⟨object, ?_⟩
    cases hc with
    | inl hc => rw [hc, State.call, hobject]
    | inr hc => rw [hc, State.call, hobject]
  · intro before between later id heq hbetween
    have hfirst := State.findOrMake_cache (({} : State).after before) id
    have hsecond := cache_after hfirst hbetween
    have hstate : ({} : State).after (before ++ .get id :: between) =
        ((({} : State).after before).findOrMake id).2.after between := by
      rw [State.after, List.foldl_append]
      rfl
    rw [hstate, State.call, State.call, State.findOrMake_of_cache hsecond]
  · intro before later id heq
    rw [State.after_append]
    exact congrArg (State.results · later) (State.tryGet_of_cache (hknown before later id heq))

/-- An id that is added and then looked up. -/
theorem sound_of_known_added :
    Sound [.add "a.png" (some (.given 0)), .tryGet "a.png", .get "a.png", .get "b.png"] := by
  refine sound_of_known _ ?_ ?_
  · intro id ptr hmem
    obtain ⟨-, rfl⟩ : id = "a.png" ∧ ptr = some (.given 0) := by simpa using hmem
    exact nofun
  · intro before later id heq
    rcases before with _ | ⟨_, _ | ⟨_, _ | ⟨_, _ | ⟨_, before⟩⟩⟩⟩ <;> simp at heq
    obtain ⟨rfl, rfl, -⟩ := heq
    exact nofun

/-- A `tryGet` of an id that is not in the cache leaves a null pointer for `get`. -/
theorem not_sound_of_unknown (calls : List Call)
    (hunknown : (({} : State).after calls).cache id = none) :
    ¬ Sound (calls ++ [.tryGet id, .get id]) := by
  intro h
  have hcache := State.tryGet_cache_of_none hunknown
  obtain ⟨object, hobject⟩ := h.nonnull (calls ++ [.tryGet id]) [] id (.get id) (by simp) (.inl rfl)
  rw [State.after_append, State.call] at hobject
  rw [State.call, State.findOrMake_of_cache hcache] at hobject
  exact nomatch hobject

theorem not_sound_missing : ¬ Sound [.tryGet "a.png", .get "a.png"] :=
  not_sound_of_unknown [] rfl

end Maple.Resources
