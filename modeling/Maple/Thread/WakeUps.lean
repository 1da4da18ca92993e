import Mathlib.Data.List.Basic
import Maple.Thread.Thread

/-!
# Maple.Thread.WakeUps

**Wake-ups of a `Thread`.** The worker and the callers of `wait` block on one
condition variable with opposite predicates, and every signal is `notify_one`.

The worker blocks only while `jobs` is empty, and then no caller of `wait` is
blocked, so `addTask` and the destructor can only wake the worker. The signal that
can miss is that of the pop: when the last task is popped, all blocked callers may
go on, but one of them is woken. `WakesAll` excludes that.
-/

namespace Maple.Thread

open Lib

variable {W R : Type}

namespace State

/-- The party is blocked although its predicate is true. -/
def Stuck (s : State W R) : Party W → Prop
  | .worker => s.worker = .asleep ∧ (s.jobs ≠ [] ∨ s.close = true)
  | .caller w => s.caller w = .asleep ∧ s.jobs = []

/-- A lost wake-up: the worker is blocked, no caller of `wait` is about to run, and some
party is stuck. -/
def Lost (s : State W R) : Prop :=
  s.worker = .asleep ∧ (∀ w, s.caller w ≠ .ready) ∧ ∃ p, s.Stuck p

/-- When the last task is popped, at most one caller of `wait` is blocked. -/
def WakesAll (s : State W R) : Action W R → Prop
  | .pop => s.jobs.tail = [] → ∀ w w', s.caller w = .asleep → s.caller w' = .asleep → w = w'
  | _ => True

/-- The invariant. -/
structure Awake (s : State W R) : Prop where
  worker : s.worker = .asleep → s.jobs = [] ∧ s.close = false
  callers : s.jobs = [] → ∀ w, s.caller w ≠ .asleep
  /-- once the destructor has waited, nothing is left to do -/
  closing : ∀ w seen, s.destroyer = some w → s.caller w = .returned seen → s.jobs = []

theorem awake_init : (init : State W R).Awake := ⟨nofun, fun _ _ => nofun, nofun⟩

theorem Awake.not_stuck {s : State W R} (h : s.Awake) (p : Party W) : ¬ s.Stuck p := by
  cases p with
  | worker =>
      rintro ⟨hworker, hjobs | hclose⟩
      · exact hjobs (h.worker hworker).1
      · exact absurd hclose (by simp [(h.worker hworker).2])
  | caller w =>
      rintro ⟨hcaller, hjobs⟩
      exact h.callers hjobs w hcaller

/-- The worker is the only blocked party, if it is blocked at all. -/
theorem Awake.only_worker {s : State W R} (h : s.Awake) (hworker : s.worker = .asleep) :
    ∀ q, s.Asleep q → q = .worker := by
  intro q hq
  cases q with
  | worker => rfl
  | caller w => exact absurd hq (h.callers (h.worker hworker).1 w)

variable [DecidableEq W]

/-! ### What `notify_one` does -/

@[simp]
theorem wake_jobs (s : State W R) (woken : Option (Party W)) : (s.wake woken).jobs = s.jobs := by
  match woken with
  | none => rfl
  | some .worker => rfl
  | some (.caller w) => rfl

@[simp]
theorem wake_close (s : State W R) (woken : Option (Party W)) :
    (s.wake woken).close = s.close := by
  match woken with
  | none => rfl
  | some .worker => rfl
  | some (.caller w) => rfl

@[simp]
theorem wake_destroyer (s : State W R) (woken : Option (Party W)) :
    (s.wake woken).destroyer = s.destroyer := by
  match woken with
  | none => rfl
  | some .worker => rfl
  | some (.caller w) => rfl

/-- Nobody falls asleep, and who is picked wakes up. -/
theorem asleep_of_wake {s : State W R} {woken : Option (Party W)} {p : Party W}
    (h : (s.wake woken).Asleep p) : s.Asleep p ∧ woken ≠ some p := by
  match woken, p with
  | none, p => exact ⟨h, nofun⟩
  | some .worker, .worker => exact absurd h nofun
  | some .worker, .caller w => exact ⟨h, nofun⟩
  | some (.caller w), .worker => exact ⟨h, nofun⟩
  | some (.caller w), .caller w' =>
      by_cases hw : w' = w
      · subst hw
        exact absurd ((s.setCaller_self w' .ready).symm.trans h) nofun
      · refine ⟨(s.setCaller_of_ne hw .ready).symm.trans h, fun heq => hw ?_⟩
        exact (Party.caller.inj (Option.some.inj heq)).symm

theorem returned_of_wake {s : State W R} {woken : Option (Party W)} {w : W} {seen : List Task}
    (h : (s.wake woken).caller w = .returned seen) : s.caller w = .returned seen := by
  match woken with
  | none => exact h
  | some .worker => exact h
  | some (.caller w') =>
      by_cases hw : w = w'
      · subst hw
        exact absurd ((s.setCaller_self w .ready).symm.trans h) nofun
      · exact (s.setCaller_of_ne hw .ready).symm.trans h

/-- A party that is the only one blocked is woken. -/
theorem NotifyOne.wakes {s : State W R} {woken : Option (Party W)} (h : s.NotifyOne woken)
    {p : Party W} (honly : ∀ q, s.Asleep q → q = p) : ¬ (s.wake woken).Asleep p := by
  intro hp
  obtain ⟨hasleep, hne⟩ := asleep_of_wake hp
  cases woken with
  | none => exact h p hasleep
  | some q => exact hne (congrArg some (honly q h))

theorem Awake.wake {s : State W R} (h : s.Awake) (woken : Option (Party W)) :
    (s.wake woken).Awake where
  worker hasleep := by
    rw [wake_jobs, wake_close]
    exact h.worker (asleep_of_wake (p := .worker) hasleep).1
  callers hjobs w hasleep := by
    rw [wake_jobs] at hjobs
    exact h.callers hjobs w (asleep_of_wake (p := .caller w) hasleep).1
  closing w seen hwho hseen := by
    rw [wake_destroyer] at hwho
    rw [wake_jobs]
    exact h.closing w seen hwho (returned_of_wake hseen)

/-- A step that leaves everybody where they are and then notifies wakes the worker if it is
blocked. -/
theorem Awake.wakes_worker {s t : State W R} (h : s.Awake)
    (hsame : ∀ p, t.Asleep p ↔ s.Asleep p) {woken : Option (Party W)}
    (hwoken : s.NotifyOne woken) : (t.wake woken).worker ≠ .asleep := by
  intro hasleep
  have hworker : s.worker = .asleep :=
    (hsame .worker).mp (asleep_of_wake (p := .worker) hasleep).1
  refine (hwoken.congr hsame).wakes (p := .worker) (fun q hq => ?_) hasleep
  exact h.only_worker hworker q ((hsame q).mp hq)

/-! ### Steps -/

/-- **`addTask`** wakes the worker if it is blocked. -/
theorem Awake.addTask {s : State W R} (h : s.Awake) (task : Task) {woken : Option (Party W)}
    (hopen : s.destroyer = none) (hwoken : s.NotifyOne woken) :
    ((s.append task).wake woken).Awake where
  worker hasleep :=
    absurd hasleep (h.wakes_worker (fun p => by cases p <;> exact Iff.rfl) hwoken)
  callers hjobs := by
    rw [wake_jobs] at hjobs
    exact absurd hjobs (by simp [State.append])
  closing w seen hwho := by
    rw [wake_destroyer] at hwho
    exact absurd (hopen.symm.trans hwho) nofun

/-- **The pop** wakes the blocked caller, if there is just one. -/
theorem Awake.pop {s : State W R} (h : s.Awake) {task : Task} {woken : Option (Party W)}
    (hworker : s.worker = .popping task) (hwoken : s.NotifyOne woken)
    (hall : s.WakesAll .pop) : (s.popFront.wake woken).Awake where
  worker hasleep :=
    absurd (asleep_of_wake (s := s.popFront) (p := .worker) hasleep).1 nofun
  callers hjobs w hasleep := by
    rw [wake_jobs] at hjobs
    have hw : s.caller w = .asleep :=
      (asleep_of_wake (s := s.popFront) (p := .caller w) hasleep).1
    have hsame : ∀ q, s.popFront.Asleep q ↔ s.Asleep q := by
      intro q
      cases q with
      | worker => simp [Asleep, popFront, hworker]
      | caller w' => exact Iff.rfl
    refine (hwoken.congr hsame).wakes (p := .caller w) (fun q hq => ?_) hasleep
    cases q with
    | worker => exact absurd hq nofun
    | caller w' => rw [hall hjobs w' w hq hw]
  closing w seen hwho hseen := by
    rw [wake_destroyer] at hwho
    rw [wake_jobs]
    have hjobs := h.closing w seen hwho (returned_of_wake (s := s.popFront) hseen)
    simp only [State.popFront, hjobs, List.tail_nil]

/-- **Closing** wakes the worker if it is blocked. -/
theorem Awake.close {s : State W R} (h : s.Awake) {w : W} {seen : List Task}
    {woken : Option (Party W)} (hwho : s.destroyer = some w) (hcaller : s.caller w = .returned seen)
    (hwoken : s.NotifyOne woken) : (State.wake { s with close := true } woken).Awake where
  worker hasleep :=
    absurd hasleep (h.wakes_worker (fun p => by cases p <;> exact Iff.rfl) hwoken)
  callers hjobs w' hasleep := by
    rw [wake_jobs] at hjobs
    exact h.callers hjobs w' (asleep_of_wake (s := { s with close := true }) (p := .caller w')
      hasleep).1
  closing w' seen' hwho' hseen' := by
    rw [wake_jobs]
    exact h.closing w seen hwho hcaller

/-- A caller moves to a place where it is not blocked. -/
theorem Awake.setCaller {s : State W R} (h : s.Awake) (w : W) {c : Caller} (hc : c ≠ .asleep)
    (hreturned : ∀ seen, c = .returned seen → s.jobs = []) : (s.setCaller w c).Awake where
  worker := h.worker
  callers hjobs w' := by
    by_cases hw : w' = w
    · subst hw
      exact fun hasleep => hc ((s.setCaller_self w' c).symm.trans hasleep)
    · exact fun hasleep => h.callers hjobs w' ((s.setCaller_of_ne hw c).symm.trans hasleep)
  closing w' seen hwho hseen := by
    by_cases hw : w' = w
    · subst hw
      exact hreturned seen ((s.setCaller_self w' c).symm.trans hseen)
    · exact h.closing w' seen hwho ((s.setCaller_of_ne hw c).symm.trans hseen)

/-- **One step** keeps the parties awake, unless the pop of the last task finds more than
one caller blocked. -/
theorem Awake.step {s s' : State W R} {a : Action W R} (h : s.Awake) (hall : s.WakesAll a)
    (hstep : Step s a s') : s'.Awake := by
  cases hstep with
  | addTask job complete hopen hwoken => exact h.addTask _ hopen hwoken
  | sleep hworker hjobs hclose => exact ⟨fun _ => ⟨hjobs, hclose⟩, h.callers, h.closing⟩
  | exit hworker hclose => exact ⟨nofun, h.callers, h.closing⟩
  | front hworker hclose hjobs => exact ⟨nofun, h.callers, h.closing⟩
  | start hworker hjob => exact ⟨nofun, h.callers, h.closing⟩
  | skip hworker hjob => exact ⟨nofun, h.callers, h.closing⟩
  | result r hworker => exact ⟨nofun, h.callers, h.closing⟩
  | complete hworker hcomplete => exact ⟨nofun, h.callers, h.closing⟩
  | silent hworker hcomplete => exact ⟨nofun, h.callers, h.closing⟩
  | pop hworker hwoken => exact h.pop hworker hwoken hall
  | call w hcaller hother => exact h.setCaller w nofun nofun
  | wait w hcaller hjobs => exact h.setCaller w nofun fun _ _ => hjobs
  | block w hcaller hjobs =>
      refine ⟨h.worker, fun hempty => absurd hempty hjobs, fun w' seen hwho hseen => ?_⟩
      by_cases hw : w' = w
      · subst hw
        exact absurd ((s.setCaller_self w' .asleep).symm.trans hseen) nofun
      · exact h.closing w' seen hwho ((s.setCaller_of_ne hw .asleep).symm.trans hseen)
  | spurious p hasleep => exact h.wake (some p)
  | postOther => exact ⟨h.worker, h.callers, h.closing⟩
  | take hheld hqueue => exact ⟨h.worker, h.callers, h.closing⟩
  | execute hheld => exact ⟨h.worker, h.callers, h.closing⟩
  | destroy w hcaller hfirst =>
      have hset := h.setCaller w (c := .ready) nofun nofun
      refine ⟨hset.worker, hset.callers, fun w' seen hwho hseen => ?_⟩
      obtain rfl := Option.some.inj hwho
      exact absurd ((s.setCaller_self w .ready).symm.trans hseen) nofun
  | close w hwho hcaller hfirst hwoken => exact h.close hwho hcaller hwoken

/-- A step with at most one caller of `wait` blocked when the last task is popped. -/
def WakingStep (s : State W R) (a : Action W R) (s' : State W R) : Prop :=
  Step s a s' ∧ s.WakesAll a

end State

/-- **No lost wake-up**, in every run in which each pop of the last task finds at most one
caller of `wait` blocked: no party is ever blocked while its predicate is true. -/
theorem no_lost_wake_up [DecidableEq W] {actions : List (Action W R)} {s : State W R}
    (hrun : Run State.WakingStep State.init actions s) : (∀ p, ¬ s.Stuck p) ∧ ¬ s.Lost := by
  have h : s.Awake := by
    refine hrun.state_invariant (I := State.Awake) State.awake_init ?_
    intro t a u ht hstep
    exact ht.step hstep.2 hstep.1
  refine ⟨h.not_stuck, ?_⟩
  rintro ⟨-, -, p, hp⟩
  exact h.not_stuck p hp

/-- One caller blocks, and the pop wakes it. -/
theorem no_lost_wake_up_single :
    ∃ s : State Unit Nat,
      Run State.WakingStep State.init [.addTask true true, .check, .start, .call (), .wait (),
        .result 7, .complete, .pop, .check] s ∧
      s.worker = .asleep ∧ ¬ s.Lost := by
  have hnone : (State.init : State Unit Nat).NotifyOne none := by
    intro p
    cases p <;> exact nofun
  have hadd : State.WakingStep State.init _ _ := ⟨Step.addTask true true rfl hnone, trivial⟩
  have hrun := (Run.nil State.init).snoc hadd
  have hrun := hrun.snoc ⟨Step.front rfl rfl rfl, trivial⟩
  have hrun := hrun.snoc ⟨Step.start rfl rfl, trivial⟩
  have hrun := hrun.snoc ⟨Step.call () (Or.inl rfl) nofun, trivial⟩
  have hrun := hrun.snoc ⟨Step.block () rfl nofun, trivial⟩
  have hrun := hrun.snoc ⟨Step.result 7 rfl, trivial⟩
  have hrun := hrun.snoc ⟨Step.complete rfl rfl, trivial⟩
  have hrun := hrun.snoc ⟨Step.pop rfl (show State.NotifyOne _ (some (.caller ())) from rfl),
    fun _ _ _ _ _ => rfl⟩
  have hrun := hrun.snoc ⟨Step.sleep rfl rfl rfl, trivial⟩
  exact ⟨_, hrun, rfl, (no_lost_wake_up hrun).2⟩

/-- Two callers wait for one task. The pop wakes the first of them; the second stays
blocked with `jobs` empty, and the worker goes to sleep. -/
theorem wake_up_lost :
    ∃ s : State Bool Nat,
      Run Step State.init [.addTask true true, .check, .start, .call false, .call true,
        .wait false, .wait true, .result 7, .complete, .pop, .wait false, .check] s ∧
      s.caller true = .asleep ∧ s.jobs = [] ∧ s.Lost := by
  have hnone : (State.init : State Bool Nat).NotifyOne none := by
    intro p
    cases p <;> exact nofun
  have hrun := (Run.nil State.init).snoc (Step.addTask true true rfl hnone)
  have hrun := hrun.snoc (Step.front rfl rfl rfl)
  have hrun := hrun.snoc (Step.start rfl rfl)
  have hrun := hrun.snoc (Step.call false (Or.inl rfl) nofun)
  have hrun := hrun.snoc (Step.call true (Or.inl rfl) nofun)
  have hrun := hrun.snoc (Step.block false rfl nofun)
  have hrun := hrun.snoc (Step.block true rfl nofun)
  have hrun := hrun.snoc (Step.result 7 rfl)
  have hrun := hrun.snoc (Step.complete rfl rfl)
  have hrun := hrun.snoc (Step.pop rfl (show State.NotifyOne _ (some (.caller false)) from rfl))
  have hrun := hrun.snoc (Step.wait false rfl rfl)
  have hrun := hrun.snoc (Step.sleep rfl rfl rfl)
  refine ⟨_, hrun, rfl, rfl, rfl, fun w => ?_, .caller true, rfl, rfl⟩
  cases w <;> exact nofun

end Maple.Thread
