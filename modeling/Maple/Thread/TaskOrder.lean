import Mathlib.Data.List.Infix
import Mathlib.Data.List.Nodup
import Mathlib.Data.List.Range
import Maple.Thread.Thread

/-!
# Maple.Thread.TaskOrder

**Each task runs once, in order, and completes with its own result.**

The worker leaves the task it works on at the front of `jobs` until it has posted
the completion, so the histories differ from the tasks already popped by at most
the task in the worker's hand. `Phase` says how, for each place the worker can be
at, and `Ordered` is the resulting invariant.
-/

namespace Maple.Thread

open Lib

variable {W R : Type}

/-- The task in the worker's hand, and what the histories already hold of it. -/
structure Phase (R : Type) where
  hand : Option Task
  begun : List Task
  finished : List Task
  unposted : List (Task × R)

/-- What the place of the worker says about the histories. -/
def Worker.phase : Worker R → Phase R
  | .taken t => ⟨some t, [], [], []⟩
  | .running t => ⟨some t, [t], [], []⟩
  | .returned t r => ⟨some t, [t], [t], if t.complete then [(t, r)] else []⟩
  | .popping t => ⟨some t, if t.job then [t] else [], if t.job then [t] else [], []⟩
  | _ => ⟨none, [], [], []⟩

/-- The worker is inside the job of a task, or just behind it. -/
def Worker.InJob (w : Worker R) (t : Task) : Prop :=
  w = .running t ∨ ∃ r, w = .returned t r

theorem Worker.not_inJob {w : Worker R} (hrunning : ∀ t, w ≠ .running t)
    (hreturned : ∀ t r, w ≠ .returned t r) (t : Task) : ¬ w.InJob t := by
  rintro (ht | ⟨r, ht⟩)
  · exact hrunning t ht
  · exact hreturned t r ht

theorem Worker.job_of_idle {w : Worker R} (hrunning : ∀ t, w ≠ .running t)
    (hreturned : ∀ t r, w ≠ .returned t r) (t : Task) (ht : w.InJob t) : t.job = true :=
  absurd ht (Worker.not_inJob hrunning hreturned t)

/-- The completions among the posts. -/
def completions (posts : List (Post R)) : List (Task × R) :=
  posts.filterMap fun
    | .completion t r => some (t, r)
    | .other => none

theorem completions_append (ps qs : List (Post R)) :
    completions (ps ++ qs) = completions ps ++ completions qs := List.filterMap_append

theorem mem_completions {ps : List (Post R)} {t : Task} {r : R} :
    (t, r) ∈ completions ps ↔ .completion t r ∈ ps := by
  unfold completions
  rw [List.mem_filterMap]
  constructor
  · rintro ⟨p, hp, heq⟩
    cases p with
    | completion t' r' =>
        obtain ⟨rfl, rfl⟩ := Prod.mk.inj (Option.some.inj heq)
        exact hp
    | other => exact absurd heq nofun
  · intro h
    exact ⟨_, h, rfl⟩

namespace State

/-- The invariant. -/
structure Ordered (s : State W R) : Prop where
  split : s.appended = s.popped ++ s.jobs
  ids : s.appended.map Task.id = List.range s.appended.length
  hand : ∀ t, s.worker.phase.hand = some t → s.jobs.head? = some t
  job : ∀ t, s.worker.InJob t → t.job = true
  started : s.started = s.popped.filter Task.job ++ s.worker.phase.begun
  ran : s.ran.map Prod.fst = s.popped.filter Task.job ++ s.worker.phase.finished
  posted : completions s.posted ++ s.worker.phase.unposted = s.ran.filter (·.1.complete)
  queued : s.posted = s.executed ++ s.held.toList ++ s.executeQueue
  waited : ∀ w seen, s.caller w = .returned seen → ∀ t ∈ seen, t ∈ s.popped

theorem ordered_init : (init : State W R).Ordered where
  split := rfl
  ids := rfl
  hand := nofun
  job := Worker.job_of_idle nofun nofun
  started := rfl
  ran := rfl
  posted := rfl
  queued := rfl
  waited := nofun

/-- What the invariant says of the histories when the worker is at a known place. -/
theorem Ordered.phase {s : State W R} (h : s.Ordered) {w : Worker R} (hworker : s.worker = w) :
    (∀ t, w.phase.hand = some t → s.jobs.head? = some t) ∧
    s.started = s.popped.filter Task.job ++ w.phase.begun ∧
    s.ran.map Prod.fst = s.popped.filter Task.job ++ w.phase.finished ∧
    completions s.posted ++ w.phase.unposted = s.ran.filter (·.1.complete) := by
  subst hworker
  exact ⟨h.hand, h.started, h.ran, h.posted⟩

/-! ### Steps -/

/-- A step that touches neither the queues nor the histories, and moves the worker only
between places where it holds no task, if at all. -/
theorem Ordered.frame {s : State W R} (h : s.Ordered) {worker : Worker R} {caller : W → Caller}
    (destroyer : Option W) (close : Bool)
    (hworker : worker = s.worker ∨ worker.phase = s.worker.phase ∧ ∀ t, ¬ worker.InJob t)
    (hcaller : ∀ w seen, caller w = .returned seen → ∀ t ∈ seen, t ∈ s.popped) :
    ({ s with worker := worker, caller := caller, destroyer := destroyer, close := close } :
      State W R).Ordered := by
  have hphase : worker.phase = s.worker.phase := by
    obtain rfl | ⟨hphase, -⟩ := hworker
    · rfl
    · exact hphase
  have hjob : ∀ t, worker.InJob t → t.job = true := by
    intro t ht
    obtain rfl | ⟨-, hno⟩ := hworker
    · exact h.job t ht
    · exact absurd ht (hno t)
  exact
    { split := h.split
      ids := h.ids
      hand := hphase ▸ h.hand
      job := hjob
      started := hphase ▸ h.started
      ran := hphase ▸ h.ran
      posted := hphase ▸ h.posted
      queued := h.queued
      waited := hcaller }

/-- The worker moves between places without a task. -/
theorem Ordered.rest {s : State W R} (h : s.Ordered) {worker : Worker R}
    (hphase : worker.phase = s.worker.phase) (hno : ∀ t, ¬ worker.InJob t) :
    ({ s with worker := worker } : State W R).Ordered :=
  h.frame s.destroyer s.close (Or.inr ⟨hphase, hno⟩) h.waited

/-- `addTask` appends a task with the next number. -/
theorem Ordered.append {s : State W R} (h : s.Ordered) (job complete : Bool) :
    (s.append ⟨s.appended.length, job, complete⟩).Ordered where
  split := by
    simp only [State.append]
    rw [h.split, List.append_assoc]
  ids := by
    simp only [State.append, List.map_append, List.length_append, List.length_singleton]
    rw [h.ids, List.range_succ]
    rfl
  hand := by
    intro t ht
    have hhead := h.hand t ht
    simp only [State.append]
    rw [List.head?_append, hhead]
    rfl
  job := h.job
  started := h.started
  ran := h.ran
  posted := h.posted
  queued := h.queued
  waited := h.waited

/-- The worker pops the task in its hand. -/
theorem Ordered.popFront {s : State W R} (h : s.Ordered) {task : Task}
    (hworker : s.worker = .popping task) : s.popFront.Ordered := by
  obtain ⟨hhand, hstarted, hran, hposted⟩ := h.phase hworker
  have hhead : s.jobs.head? = some task := hhand task rfl
  obtain ⟨rest, hjobs⟩ : ∃ rest, s.jobs = task :: rest := by
    cases hj : s.jobs with
    | nil => exact absurd (hj ▸ hhead) nofun
    | cons t rest => exact ⟨rest, by rw [hj] at hhead; rw [Option.some.inj hhead]⟩
  have hpopped : s.popFront.popped = s.popped ++ [task] := by
    simp only [State.popFront, hhead, Option.toList_some]
  have hfilter : (s.popped ++ [task]).filter Task.job =
      s.popped.filter Task.job ++ if task.job then [task] else [] := by
    rw [List.filter_append, List.filter_cons, List.filter_nil]
  exact
    { split := by
        rw [hpopped]
        simp only [State.popFront, hjobs, List.tail_cons, List.append_assoc, List.singleton_append]
        rw [← hjobs]
        exact h.split
      ids := h.ids
      hand := nofun
      job := Worker.job_of_idle nofun nofun
      started := by
        rw [hpopped, hfilter]
        exact hstarted.trans (List.append_nil _).symm
      ran := by
        rw [hpopped, hfilter]
        exact hran.trans (List.append_nil _).symm
      posted := hposted
      queued := h.queued
      waited := by
        intro w seen hseen t ht
        rw [hpopped]
        exact List.mem_append_left _ (h.waited w seen hseen t ht) }

/-- Something is posted while the worker stays where it is. -/
theorem Ordered.postOther {s : State W R} (h : s.Ordered) : (s.post .other).Ordered :=
  { h with
    posted := by
      simp only [State.post, completions_append]
      rw [show completions [(.other : Post R)] = [] from rfl, List.append_nil]
      exact h.posted
    queued := by
      simp only [State.post]
      rw [h.queued, List.append_assoc] }

/-- The worker posts the completion of the task in its hand. -/
theorem Ordered.complete {s : State W R} (h : s.Ordered) {task : Task} {r : R}
    (hworker : s.worker = .returned task r) (hcomplete : task.complete = true) :
    ({ s.post (.completion task r) with worker := .popping task } : State W R).Ordered := by
  have hjob : task.job = true := h.job task (Or.inr ⟨r, hworker⟩)
  obtain ⟨hhand, hstarted, hran, hposted⟩ := h.phase hworker
  exact
    { split := h.split
      ids := h.ids
      hand := hhand
      job := Worker.job_of_idle nofun nofun
      started := by
        simp only [Worker.phase, hjob, if_true]
        exact hstarted
      ran := by
        simp only [Worker.phase, hjob, if_true]
        exact hran
      posted := by
        simp only [State.post, completions_append, Worker.phase, List.append_nil]
        simp only [Worker.phase, hcomplete, if_true] at hposted
        exact hposted
      queued := by
        simp only [State.post]
        rw [h.queued, List.append_assoc]
      waited := h.waited }

variable [DecidableEq W]

/-- A caller moves to a place inside `wait`. -/
theorem Ordered.setCaller {s : State W R} (h : s.Ordered) (w : W) {c : Caller}
    (hc : ∀ seen, c = .returned seen → ∀ t ∈ seen, t ∈ s.popped) : (s.setCaller w c).Ordered := by
  refine h.frame s.destroyer s.close (Or.inl rfl) fun w' seen hseen => ?_
  by_cases hw : w' = w
  · subst hw
    exact hc seen ((s.setCaller_self w' c).symm.trans hseen)
  · exact h.waited w' seen ((s.setCaller_of_ne hw c).symm.trans hseen)

theorem Ordered.wake {s : State W R} (h : s.Ordered) {woken : Option (Party W)}
    (hwoken : s.NotifyOne woken) : (s.wake woken).Ordered := by
  cases woken with
  | none => exact h
  | some p =>
      cases p with
      | worker =>
          refine h.rest ?_ (Worker.not_inJob nofun nofun)
          rw [show s.worker = .asleep from hwoken]
          rfl
      | caller w => exact h.setCaller w nofun

/-- **One step** keeps the order. -/
theorem Ordered.step {s s' : State W R} {a : Action W R} (h : s.Ordered) (hstep : Step s a s') :
    s'.Ordered := by
  cases hstep with
  | addTask job complete hopen hwoken =>
      exact (h.append job complete).wake (hwoken.congr fun p => by cases p <;> exact Iff.rfl)
  | sleep hworker hjobs hclose =>
      exact h.rest (by rw [hworker]; rfl) (Worker.not_inJob nofun nofun)
  | exit hworker hclose =>
      exact h.rest (by rw [hworker]; rfl) (Worker.not_inJob nofun nofun)
  | @front task rest hworker hclose hjobs =>
      obtain ⟨hhand, hstarted, hran, hposted⟩ := h.phase hworker
      exact
        { h with
          hand := fun t ht => by rw [hjobs]; exact ht
          job := Worker.job_of_idle nofun nofun
          started := hstarted
          ran := hran
          posted := hposted }
  | @start task hworker hjob =>
      obtain ⟨hhand, hstarted, hran, hposted⟩ := h.phase hworker
      exact
        { h with
          hand := hhand
          job := by
            rintro t (ht | ⟨r, ht⟩)
            · exact Worker.running.inj ht ▸ hjob
            · exact absurd ht nofun
          started := by
            show s.started ++ [task] = _
            rw [hstarted]
            exact congrArg (· ++ [task]) (List.append_nil _)
          ran := hran
          posted := hposted }
  | @skip task hworker hjob =>
      obtain ⟨hhand, hstarted, hran, hposted⟩ := h.phase hworker
      exact
        { h with
          hand := hhand
          job := Worker.job_of_idle nofun nofun
          started := by simpa [Worker.phase, hjob] using hstarted
          ran := by simpa [Worker.phase, hjob] using hran
          posted := hposted }
  | @result task r hworker =>
      have hjob : task.job = true := h.job task (Or.inl hworker)
      obtain ⟨hhand, hstarted, hran, hposted⟩ := h.phase hworker
      exact
        { h with
          hand := hhand
          job := by
            rintro t (ht | ⟨r', ht⟩)
            · exact absurd ht nofun
            · exact (Worker.returned.inj ht).1 ▸ hjob
          started := hstarted
          ran := by simpa [Worker.phase] using hran
          posted := by
            simp only [Worker.phase, List.append_nil] at hposted ⊢
            rw [hposted, List.filter_append, List.filter_cons, List.filter_nil] }
  | complete hworker hcomplete => exact h.complete hworker hcomplete
  | @silent task r hworker hcomplete =>
      have hjob : task.job = true := h.job task (Or.inr ⟨r, hworker⟩)
      obtain ⟨hhand, hstarted, hran, hposted⟩ := h.phase hworker
      exact
        { h with
          hand := hhand
          job := Worker.job_of_idle nofun nofun
          started := by simpa [Worker.phase, hjob] using hstarted
          ran := by simpa [Worker.phase, hjob] using hran
          posted := by simpa [Worker.phase, hcomplete] using hposted }
  | pop hworker hwoken =>
      refine (h.popFront hworker).wake (hwoken.congr fun p => ?_)
      cases p with
      | worker => simp [State.Asleep, State.popFront, hworker]
      | caller w => exact Iff.rfl
  | call w hcaller hother => exact h.setCaller w nofun
  | wait w hcaller hjobs =>
      refine h.setCaller w fun seen hseen t ht => ?_
      obtain rfl := Caller.returned.inj hseen
      rw [h.split, hjobs, List.append_nil] at ht
      exact ht
  | block w hcaller hjobs => exact h.setCaller w nofun
  | spurious p hasleep => exact h.wake hasleep
  | postOther => exact h.postOther
  | take hheld hqueue =>
      have hqueued := h.queued
      rw [hheld, hqueue] at hqueued
      exact { h with queued := by simpa using hqueued }
  | execute hheld =>
      have hqueued := h.queued
      rw [hheld] at hqueued
      exact { h with queued := by simpa using hqueued }
  | destroy w hcaller hfirst =>
      have hset := h.setCaller w (c := .ready) nofun
      exact hset.frame (some w) s.close (Or.inl rfl) hset.waited
  | close w hwho hcaller hfirst hwoken =>
      have hset := h.frame s.destroyer true (Or.inl rfl) h.waited
      exact hset.wake (hwoken.congr fun p => by cases p <;> exact Iff.rfl)

end State

/-! ### Runs -/

/-- What a `Thread` guarantees about its tasks in a state. -/
structure ExactlyOnce (s : State W R) : Prop where
  /-- the jobs are started in the order in which they were appended -/
  started_order : s.started <+: s.appended
  started_once : s.started.Nodup
  /-- the main thread executes what was posted, in that order -/
  executed_order : s.executed <+: s.posted
  /-- the executed completions are those of the jobs run, in the order of the jobs, and
  each with the result of its own job -/
  executed_results : completions s.executed <+: s.ran
  executed_jobs : (completions s.executed).map Prod.fst <+: s.started
  executed_once : ((completions s.executed).map Prod.fst).Nodup
  /-- what was appended when a `wait` that has returned last evaluated its predicate has
  run and its completion has been posted -/
  waited : ∀ w seen, s.caller w = .returned seen → ∀ t ∈ seen,
    ∃ r, (t, r) ∈ s.ran ∧ .completion t r ∈ s.posted

/-- Every task has a job and a completion. -/
def Full (tasks : List Task) : Prop := ∀ t ∈ tasks, t.job = true ∧ t.complete = true

namespace State

theorem Ordered.nodup {s : State W R} (h : s.Ordered) : s.appended.Nodup := by
  refine List.Nodup.of_map Task.id ?_
  rw [h.ids]
  exact List.nodup_range

/-- With no null job, the started tasks are the popped ones and perhaps the front. -/
theorem Ordered.started_prefix {s : State W R} (h : s.Ordered) (hfull : Full s.appended) :
    s.started <+: s.appended := by
  have hpopped : s.popped.filter Task.job = s.popped := by
    rw [List.filter_eq_self]
    intro t ht
    refine (hfull t ?_).1
    rw [h.split]
    exact List.mem_append_left _ ht
  rw [h.started, hpopped, h.split]
  refine (List.prefix_append_right_inj s.popped).mpr ?_
  -- what has begun is the front
  have hfront : s.worker.phase.begun = [] ∨
      ∃ t, s.worker.phase.begun = [t] ∧ s.worker.phase.hand = some t := by
    cases s.worker with
    | running t => exact Or.inr ⟨t, rfl, rfl⟩
    | returned t r => exact Or.inr ⟨t, rfl, rfl⟩
    | popping t =>
        cases hjob : t.job with
        | true => exact Or.inr ⟨t, by simp [Worker.phase, hjob], rfl⟩
        | false => exact Or.inl (by simp [Worker.phase, hjob])
    | _ => exact Or.inl rfl
  obtain hnil | ⟨t, hone, hhand⟩ := hfront
  · rw [hnil]
    exact List.nil_prefix
  · rw [hone]
    have hhead := h.hand t hhand
    cases hjobs : s.jobs with
    | nil => exact absurd (hjobs ▸ hhead) nofun
    | cons t' rest =>
        rw [hjobs] at hhead
        obtain rfl := Option.some.inj hhead
        exact ⟨rest, rfl⟩

theorem Ordered.full_ran {s : State W R} (h : s.Ordered) (hfull : Full s.appended) :
    s.ran.filter (·.1.complete) = s.ran := by
  rw [List.filter_eq_self]
  intro p hp
  have hmem : p.1 ∈ s.ran.map Prod.fst := List.mem_map_of_mem hp
  refine (hfull p.1 ?_).2
  rw [h.ran] at hmem
  rw [h.split]
  obtain hmem | hmem := List.mem_append.mp hmem
  · exact List.mem_append_left _ (List.mem_filter.mp hmem).1
  · refine List.mem_append_right _ (List.mem_of_mem_head? ?_)
    refine h.hand _ ?_
    cases hw : s.worker with
    | returned t r =>
        rw [hw] at hmem
        rw [List.mem_singleton.mp hmem]
        rfl
    | popping t =>
        rw [hw] at hmem
        simp only [Worker.phase] at hmem ⊢
        split at hmem
        · rw [List.mem_singleton.mp hmem]
        · exact absurd hmem List.not_mem_nil
    | _ =>
        rw [hw] at hmem
        exact absurd hmem List.not_mem_nil

/-- Jobs finish in the order in which they start. -/
theorem Ordered.finished_prefix {s : State W R} (h : s.Ordered) :
    s.ran.map Prod.fst <+: s.started := by
  rw [h.ran, h.started]
  refine (List.prefix_append_right_inj _).mpr ?_
  cases s.worker with
  | running t => exact List.nil_prefix
  | returned t r => exact List.prefix_rfl
  | popping t => exact List.prefix_rfl
  | _ => exact List.prefix_rfl

theorem Ordered.exactlyOnce {s : State W R} (h : s.Ordered) (hfull : Full s.appended) :
    ExactlyOnce s := by
  have hstarted := h.started_prefix hfull
  have hnodup : s.started.Nodup := hstarted.sublist.nodup h.nodup
  have hexecuted : s.executed <+: s.posted := by
    rw [h.queued, List.append_assoc]
    exact List.prefix_append _ _
  have hposted : completions s.posted ++ s.worker.phase.unposted = s.ran :=
    h.posted.trans (h.full_ran hfull)
  have hresults : completions s.executed <+: s.ran := by
    have hle : completions s.executed <+: completions s.posted := hexecuted.filterMap _
    rw [← hposted]
    exact hle.trans (List.prefix_append _ _)
  have hjobs : (completions s.executed).map Prod.fst <+: s.started :=
    (hresults.map Prod.fst).trans h.finished_prefix
  refine ⟨hstarted, hnodup, hexecuted, hresults, hjobs, hjobs.sublist.nodup hnodup,
    fun w seen hseen t ht => ?_⟩
  have hpopped := h.waited w seen hseen t ht
  have happended : t ∈ s.appended := by
    rw [h.split]
    exact List.mem_append_left _ hpopped
  -- a popped task has run
  have hran : t ∈ s.ran.map Prod.fst := by
    rw [h.ran]
    exact List.mem_append_left _ (List.mem_filter.mpr ⟨hpopped, (hfull t happended).1⟩)
  obtain ⟨⟨t', r⟩, hmem, rfl⟩ := List.mem_map.mp hran
  refine ⟨r, hmem, ?_⟩
  rw [← hposted] at hmem
  obtain hmem | hmem := List.mem_append.mp hmem
  · exact mem_completions.mp hmem
  · -- the one result that is not posted yet is that of the front, which is not popped
    have hhand : s.worker.phase.hand = some t' := by
      cases hw : s.worker with
      | returned t r' =>
          rw [hw] at hmem
          simp only [Worker.phase] at hmem ⊢
          split at hmem
          · rw [(Prod.mk.inj (List.mem_singleton.mp hmem)).1]
          · exact absurd hmem List.not_mem_nil
      | _ =>
          rw [hw] at hmem
          exact absurd hmem List.not_mem_nil
    have hfront : t' ∈ s.jobs := List.mem_of_mem_head? (h.hand t' hhand)
    have hsplit := h.nodup
    rw [h.split] at hsplit
    exact absurd hfront (List.disjoint_of_nodup_append hsplit hpopped)

end State

/-- **Exactly once and in order.** In every reachable state of a `Thread` whose tasks all
have a job and a completion: the jobs are started in the order of the `addTask` calls and
no job twice; the completions are executed in the order in which they were posted, each at
most once and with the result of its own job; and when a `wait` has returned, all tasks
appended before it last evaluated its predicate have run and been posted. -/
theorem tasks_exactly_once [DecidableEq W] {actions : List (Action W R)} {s : State W R}
    (hrun : Run Step State.init actions s) (hfull : Full s.appended) : ExactlyOnce s := by
  have h : s.Ordered := by
    refine hrun.state_invariant (I := State.Ordered) State.ordered_init ?_
    intro t a u ht hstep
    exact ht.step hstep
  exact h.exactlyOnce hfull

/-- Two tasks, waited for: the caller is woken by each pop and blocks again after the first, and
the main thread executes the completions in the order of the tasks. -/
theorem tasks_exactly_once_two :
    ∃ s : State Unit Nat,
      Run Step State.init [.addTask true true, .addTask true true, .check, .start, .call (),
        .wait (), .result 7, .complete, .pop, .wait (), .check, .start, .result 8, .complete, .take,
        .pop, .wait (), .execute, .take, .execute] s ∧
      s.executed = [.completion ⟨0, true, true⟩ 7, .completion ⟨1, true, true⟩ 8] ∧
      s.caller () = .returned [⟨0, true, true⟩, ⟨1, true, true⟩] ∧ ExactlyOnce s := by
  have hnone : (State.init : State Unit Nat).NotifyOne none := by
    intro p
    cases p <;> exact nofun
  have hnone' : (State.init.append ⟨0, true, true⟩ : State Unit Nat).NotifyOne none :=
    hnone.congr fun p => by cases p <;> rfl
  have hrun := (Run.nil State.init).snoc (Step.addTask true true rfl hnone)
  have hrun := hrun.snoc (Step.addTask true true rfl hnone')
  have hrun := hrun.snoc (Step.front rfl rfl rfl)
  have hrun := hrun.snoc (Step.start rfl rfl)
  have hrun := hrun.snoc (Step.call () (Or.inl rfl) nofun)
  have hrun := hrun.snoc (Step.block () rfl nofun)
  have hrun := hrun.snoc (Step.result 7 rfl)
  have hrun := hrun.snoc (Step.complete rfl rfl)
  have hrun := hrun.snoc (Step.pop rfl (show State.NotifyOne _ (some (.caller ())) from rfl))
  have hrun := hrun.snoc (Step.block () rfl nofun)
  have hrun := hrun.snoc (Step.front rfl rfl rfl)
  have hrun := hrun.snoc (Step.start rfl rfl)
  have hrun := hrun.snoc (Step.result 8 rfl)
  have hrun := hrun.snoc (Step.complete rfl rfl)
  have hrun := hrun.snoc (Step.take rfl rfl)
  have hrun := hrun.snoc (Step.pop rfl (show State.NotifyOne _ (some (.caller ())) from rfl))
  have hrun := hrun.snoc (Step.wait () rfl rfl)
  have hrun := hrun.snoc (Step.execute rfl)
  have hrun := hrun.snoc (Step.take rfl rfl)
  have hrun := hrun.snoc (Step.execute rfl)
  have hfull : Full [⟨0, true, true⟩, ⟨1, true, true⟩] := by
    intro t ht
    rcases List.mem_pair.mp ht with rfl | rfl <;> exact ⟨rfl, rfl⟩
  exact ⟨_, hrun, rfl, rfl, tasks_exactly_once hrun hfull⟩

end Maple.Thread
