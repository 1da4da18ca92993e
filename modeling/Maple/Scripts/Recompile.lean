import Mathlib.Tactic.SplitIfs
import Maple.Lib.Run
import Maple.Lib.Since

/-!
# Maple.Scripts.Recompile

Compiling the scripts anew while they run: `compileAssembly`, `unloadScriptDomain` and
`loadAssembly` of `MonoVirtualMachine.cpp`, the task that `compileAssembly` gives to a worker
thread, the completion of `Editor.cpp` that loads the assembly, and the two places where the
object of a script is made: the constructor of `MonoScript`, and the handler of
`MonoSystem.cpp` that makes the objects anew. The script is one of a scene that stays, and its
class is one that every version of the assembly has.

The worker posts the event for the handler before the completion is posted, and the main
thread runs completions and handlers at different places of its loop. So the objects of the
scripts live again only where the completion happened to be run first,
`script_alive_iff`.
-/

namespace Maple.Scripts

open Lib

/-- Where the task of a `compileAssembly` is. -/
inductive Job where
  | queued
  /-- `compileScript` has returned. -/
  | compiled
  /-- The event is posted, the completion is not. -/
  | posted
  | done
  deriving DecidableEq, Repr

/-- The object of a script: the domain that it was made in, and the version of the assembly
that its class and functions are of. -/
structure ScriptObject where
  domain : Nat
  version : Nat
  deriving DecidableEq, Repr

/-- `MonoVirtualMachine`, of its assemblies `MapleAssembly.dll`, with the tasks, the queues of
the dispatcher and the application, and a script of one name in a `MonoComponent`. Domains are
numbered, and so are the versions of the file; `dll` is the one that is there. -/
structure MonoVirtualMachine where
  scriptDomain : Option Nat
  domains : Nat
  /-- The entry of `assemblies`, with the version that is `loaded`, if one is. -/
  assembly : Option (Option Nat)
  dll : Nat
  jobs : List Job
  eventQueue : Nat
  executeQueue : Nat
  /-- The entry of `scripts`, with its `scriptObject`. -/
  script : Option (Option ScriptObject)

inductive ScriptAction where
  | compileAssembly
  /-- A worker runs the compiler. -/
  | compile (job : Nat) (ok : Bool)
  | postEvent (job : Nat)
  | postOnMainThread (job : Nat)
  /-- `executeAll` runs a completion, and the file is an image that Mono opens or not. -/
  | complete (readable : Bool)
  /-- `dispatchEvents` runs the handler. -/
  | dispatch
  /-- `MonoComponent::addScript`. -/
  | addScript
  /-- `MonoComponent::remove`. -/
  | remove
  /-- `MonoSystem::onStart` or `onUpdate` in the play state. -/
  | update
  deriving DecidableEq, Repr

namespace MonoVirtualMachine

/-- After `onInit` of the system, where the first domain was made. -/
def init : MonoVirtualMachine where
  scriptDomain := some 0
  domains := 1
  assembly := none
  dll := 0
  jobs := []
  eventQueue := 0
  executeQueue := 0
  script := none

def unloadScriptDomain (vm : MonoVirtualMachine) : MonoVirtualMachine :=
  { vm with scriptDomain := none, assembly := none }

def compileAssembly (vm : MonoVirtualMachine) : MonoVirtualMachine :=
  { vm.unloadScriptDomain with jobs := vm.jobs ++ [.queued] }

/-- `loadAssembly` and `initializeAssembly`. -/
def loadAssembly (vm : MonoVirtualMachine) (readable : Bool) : MonoVirtualMachine :=
  let vm := match vm.scriptDomain with
    | some _ => vm
    | none => { vm with scriptDomain := some vm.domains, domains := vm.domains + 1 }
  match vm.assembly with
  | some (some _) => vm
  -- `load` gives up on an image that does not open, and the entry stays
  | _ => { vm with assembly := some (if readable then some vm.dll else none) }

/-- `MonoScript::loadFunction` of the script that is there. -/
def loadFunction (vm : MonoVirtualMachine) : Option MonoVirtualMachine :=
  match vm.assembly, vm.scriptDomain with
  | none, _ => some vm
  | some (some version), some domain => some { vm with script := some (some ⟨domain, version⟩) }
  -- the image that `findClass` asks for the class is null
  | some none, _ => none
  | some (some _), none => none

def addScript (vm : MonoVirtualMachine) : Option MonoVirtualMachine :=
  match vm.script with
  | some _ => some vm
  | none => { vm with script := some none }.loadFunction

/-- The handler that `MonoSystem::onInit` adds. -/
def compileHandler (vm : MonoVirtualMachine) : Option MonoVirtualMachine :=
  match vm.script with
  | some _ => vm.loadFunction
  | none => some vm

/-- The version of the assembly that is loaded. -/
def version (vm : MonoVirtualMachine) : Option Nat := vm.assembly.join

def scriptObject (vm : MonoVirtualMachine) : Option ScriptObject := vm.script.join

/-- The object is one of the domain that is there. -/
def Alive (vm : MonoVirtualMachine) : Prop :=
  ∃ object, vm.scriptObject = some object ∧ vm.scriptDomain = some object.domain

/-- A function of the script can be called, or there is none yet. -/
def callable (vm : MonoVirtualMachine) : Bool :=
  match vm.scriptObject with
  | some object => vm.scriptDomain == some object.domain
  | none => true

def step (vm : MonoVirtualMachine) : ScriptAction → Option MonoVirtualMachine
  | .compileAssembly => some vm.compileAssembly
  | .compile job ok =>
    if vm.jobs[job]? = some .queued then
      some { vm with
        jobs := vm.jobs.set job .compiled
        dll := if ok then vm.dll + 1 else vm.dll }
    else none
  | .postEvent job =>
    if vm.jobs[job]? = some .compiled then
      some { vm with jobs := vm.jobs.set job .posted, eventQueue := vm.eventQueue + 1 }
    else none
  | .postOnMainThread job =>
    if vm.jobs[job]? = some .posted then
      some { vm with jobs := vm.jobs.set job .done, executeQueue := vm.executeQueue + 1 }
    else none
  | .complete readable =>
    if 0 < vm.executeQueue then
      some (loadAssembly { vm with executeQueue := vm.executeQueue - 1 } readable)
    else none
  | .dispatch =>
    if 0 < vm.eventQueue then
      compileHandler { vm with eventQueue := vm.eventQueue - 1 }
    else none
  | .addScript => vm.addScript
  -- the destructor of the script calls a function too
  | .remove => if vm.callable then some { vm with script := none } else none
  | .update => if vm.callable then some vm else none

/-- Runs, of any interleaving of the workers and the main thread. -/
abbrev Run : MonoVirtualMachine → List ScriptAction → MonoVirtualMachine → Prop :=
  Lib.Run fun vm a vm' => vm.step a = some vm'

/-- A completion loaded the assembly, and `compileAssembly` was not called since. -/
def Loaded : List ScriptAction → Prop :=
  Since (fun _ a => a = .complete true) (· ≠ .compileAssembly)

/-- A completion found no image, and none that loaded it and no `compileAssembly` came since. -/
def Failed : List ScriptAction → Prop :=
  Since (fun before a => a = .complete false ∧ ¬ Loaded before)
    fun a => a ≠ .compileAssembly ∧ a ≠ .complete true

/-- The script was added, and not removed since. -/
def Added : List ScriptAction → Prop := Since (fun _ a => a = .addScript) (· ≠ .remove)

/-- The action runs `loadFunction` of the script, in its constructor or in the handler. -/
def Loads (before : List ScriptAction) (a : ScriptAction) : Prop :=
  (a = .addScript ∧ ¬ Added before) ∨ (a = .dispatch ∧ Added before)

/-- `loadFunction` ran when the assembly was loaded, and the script was not removed since. -/
def Made : List ScriptAction → Prop :=
  Since (fun before a => Loads before a ∧ Loaded before) (· ≠ .remove)

/-- `loadFunction` ran when the assembly was loaded, and neither was the script removed nor
`compileAssembly` called since. -/
def Reloaded : List ScriptAction → Prop :=
  Since (fun before a => Loads before a ∧ Loaded before)
    fun a => a ≠ .compileAssembly ∧ a ≠ .remove

/-- The action changes neither the domain nor the file. -/
def Quiet (a : ScriptAction) : Prop := a ≠ .compileAssembly ∧ ∀ job, a ≠ .compile job true

/-- The completion that loaded the assembly found the file as it still is. -/
def LoadedNewest : List ScriptAction → Prop :=
  Since (fun before a => a = .complete true ∧ ¬ Loaded before) Quiet

def ReloadedNewest : List ScriptAction → Prop :=
  Since (fun before a => Loads before a ∧ LoadedNewest before) fun a => Quiet a ∧ a ≠ .remove

/-- The object is alive, and of the version that is there. -/
def Fresh (vm : MonoVirtualMachine) : Prop :=
  ∃ object, vm.scriptObject = some object ∧ vm.scriptDomain = some object.domain ∧
    object.version = vm.dll

/-- What every state keeps, whatever led to it. -/
structure Sound (vm : MonoVirtualMachine) : Prop where
  domain : vm.version.isSome → vm.scriptDomain.isSome
  domains : ∀ domain, vm.scriptDomain = some domain → domain < vm.domains
  version_le : ∀ version, vm.version = some version → version ≤ vm.dll
  object : ∀ object, vm.scriptObject = some object → object.domain < vm.domains ∧
    object.version ≤ vm.dll
  alive : ∀ object, vm.scriptObject = some object → vm.scriptDomain = some object.domain →
    vm.version = some object.version

/-- What a state says of the history that led to it. -/
structure Kept (as : List ScriptAction) (vm : MonoVirtualMachine) : Prop extends Sound vm where
  added : vm.script.isSome ↔ Added as
  made : vm.scriptObject.isSome ↔ Made as
  loaded : vm.version.isSome ↔ Loaded as
  failed : vm.assembly = some none ↔ Failed as
  reloaded : vm.Alive ↔ Reloaded as
  newest : vm.version = some vm.dll ↔ LoadedNewest as
  fresh : vm.Fresh ↔ ReloadedNewest as

variable {as : List ScriptAction} {a : ScriptAction} {vm vm' : MonoVirtualMachine}

@[simp] theorem loaded_snoc : Loaded (as ++ [a]) ↔
    a = .complete true ∨ a ≠ .compileAssembly ∧ Loaded as := since_snoc

@[simp] theorem failed_snoc : Failed (as ++ [a]) ↔ (a = .complete false ∧ ¬ Loaded as) ∨
    (a ≠ .compileAssembly ∧ a ≠ .complete true) ∧ Failed as := since_snoc

@[simp] theorem added_snoc : Added (as ++ [a]) ↔ a = .addScript ∨ a ≠ .remove ∧ Added as :=
  since_snoc

@[simp] theorem made_snoc : Made (as ++ [a]) ↔
    (Loads as a ∧ Loaded as) ∨ a ≠ .remove ∧ Made as := since_snoc

@[simp] theorem reloaded_snoc : Reloaded (as ++ [a]) ↔ (Loads as a ∧ Loaded as) ∨
    (a ≠ .compileAssembly ∧ a ≠ .remove) ∧ Reloaded as := since_snoc

@[simp] theorem loadedNewest_snoc : LoadedNewest (as ++ [a]) ↔
    (a = .complete true ∧ ¬ Loaded as) ∨ Quiet a ∧ LoadedNewest as := since_snoc

@[simp] theorem reloadedNewest_snoc : ReloadedNewest (as ++ [a]) ↔
    (Loads as a ∧ LoadedNewest as) ∨ (Quiet a ∧ a ≠ .remove) ∧ ReloadedNewest as := since_snoc

@[simp] theorem quiet_compileAssembly : ¬ Quiet .compileAssembly := fun h => h.1 rfl

@[simp] theorem quiet_compile (job : Nat) (ok : Bool) : Quiet (.compile job ok) ↔ ok = false := by
  cases ok <;> simp [Quiet]

theorem kept_init : Kept [] init where
  domain := by simp [init, version]
  domains := by simp [init]
  version_le := by simp [init, version]
  object := by simp [init, scriptObject]
  alive := by simp [init, scriptObject]
  added := by simp [init, Added]
  made := by simp [init, scriptObject, Made]
  loaded := by simp [init, version, Loaded]
  failed := by simp [init, Failed]
  reloaded := by simp [init, scriptObject, Reloaded, Alive]
  newest := by simp [init, version, LoadedNewest]
  fresh := by simp [init, scriptObject, ReloadedNewest, Fresh]

/-- An action of another kind changes nothing of the histories. -/
theorem Kept.same (hvm : Kept as vm) (hquiet : Quiet a)
    (hcomplete : ∀ readable, a ≠ .complete readable) (hremove : a ≠ .remove)
    (hadd : a = .addScript → Added as) (hloads : ¬ Loads as a)
    {jobs : List Job} {eventQueue executeQueue : Nat} :
    Kept (as ++ [a]) { vm with jobs, eventQueue, executeQueue } where
  domain := hvm.domain
  domains := hvm.domains
  version_le := hvm.version_le
  object := hvm.object
  alive := hvm.alive
  added := by
    rw [added_snoc, or_iff_right_of_imp fun h => ⟨hremove, hadd h⟩, and_iff_right hremove]
    exact hvm.added
  made := hvm.made.trans (by simp [hloads, hremove])
  loaded := hvm.loaded.trans (by simp [hcomplete, hquiet.1])
  failed := hvm.failed.trans (by simp [hcomplete, hquiet.1])
  reloaded := hvm.reloaded.trans (by simp [hloads, hremove, hquiet.1])
  newest := hvm.newest.trans (by simp [hcomplete, hquiet])
  fresh := hvm.fresh.trans (by simp [hloads, hremove, hquiet])

theorem Kept.compileAssembly (hvm : Kept as vm) :
    Kept (as ++ [.compileAssembly]) vm.compileAssembly where
  domain := by simp [MonoVirtualMachine.compileAssembly, unloadScriptDomain, version]
  domains := by simp [MonoVirtualMachine.compileAssembly, unloadScriptDomain]
  version_le := by simp [MonoVirtualMachine.compileAssembly, unloadScriptDomain, version]
  object := hvm.object
  alive := by simp [MonoVirtualMachine.compileAssembly, unloadScriptDomain]
  added := hvm.added.trans (by simp)
  made := hvm.made.trans (by simp [Loads])
  loaded := by simp [MonoVirtualMachine.compileAssembly, unloadScriptDomain, version]
  failed := by simp [MonoVirtualMachine.compileAssembly, unloadScriptDomain]
  reloaded := by simp [MonoVirtualMachine.compileAssembly, unloadScriptDomain, Alive, Loads]
  newest := by simp [MonoVirtualMachine.compileAssembly, unloadScriptDomain, version]
  fresh := by simp [MonoVirtualMachine.compileAssembly, unloadScriptDomain, Fresh, Loads]

/-- The compiler writes the file anew. -/
theorem Kept.compile (hvm : Kept as vm) (job : Nat) (jobs : List Job) :
    Kept (as ++ [.compile job true]) { vm with jobs, dll := vm.dll + 1 } where
  domain := hvm.domain
  domains := hvm.domains
  version_le version h := Nat.le_succ_of_le (hvm.version_le version h)
  object object h := ⟨(hvm.object object h).1, Nat.le_succ_of_le (hvm.object object h).2⟩
  alive := hvm.alive
  added := hvm.added.trans (by simp)
  made := hvm.made.trans (by simp [Loads])
  loaded := hvm.loaded.trans (by simp)
  failed := hvm.failed.trans (by simp)
  reloaded := hvm.reloaded.trans (by simp [Loads])
  newest := iff_of_false (fun h => Nat.not_succ_le_self _ (hvm.version_le _ h)) (by simp)
  fresh := by
    refine iff_of_false ?_ (by simp [Loads])
    rintro ⟨object, hobject, -, hversion⟩
    exact Nat.not_succ_le_self _ (hversion ▸ (hvm.object object hobject).2)

/-- A completion that finds the assembly loaded. -/
theorem Kept.not_load (hvm : Kept as vm) (hversion : vm.version.isSome) (readable : Bool)
    (executeQueue : Nat) : Kept (as ++ [.complete readable]) { vm with executeQueue } := by
  have hloaded := hvm.loaded.mp hversion
  have hfailed : vm.assembly ≠ some none := fun h => by simp [version, h] at hversion
  exact {
    domain := hvm.domain
    domains := hvm.domains
    version_le := hvm.version_le
    object := hvm.object
    alive := hvm.alive
    added := hvm.added.trans (by simp)
    made := hvm.made.trans (by simp [Loads])
    loaded := iff_of_true hversion (by simp [hloaded])
    failed := iff_of_false hfailed (by simp [hloaded, ← hvm.failed, hfailed])
    reloaded := hvm.reloaded.trans (by simp [Loads])
    newest := hvm.newest.trans (by simp [hloaded, Quiet])
    fresh := hvm.fresh.trans (by simp [Loads, Quiet]) }

/-- The next domain is none that an object was made in. -/
theorem Sound.domain_ne (hvm : Sound vm) {object : ScriptObject}
    (hobject : vm.scriptObject = some object) : some vm.domains ≠ some object.domain := by
  intro heq
  exact Nat.ne_of_gt (hvm.object object hobject).1 (Option.some.inj heq)

/-- A new domain, with nothing in it. -/
theorem Kept.newDomain (hvm : Kept as vm) (hdomain : vm.scriptDomain = none) :
    Kept as { vm with scriptDomain := some vm.domains, domains := vm.domains + 1 } where
  domain _ := rfl
  domains domain h := by
    obtain rfl := Option.some.inj h
    exact Nat.lt_succ_self _
  version_le := hvm.version_le
  object object h := ⟨Nat.lt_succ_of_lt (hvm.object object h).1, (hvm.object object h).2⟩
  alive object h hdomain' := absurd hdomain' (hvm.domain_ne h)
  added := hvm.added
  made := hvm.made
  loaded := hvm.loaded
  failed := hvm.failed
  reloaded := by
    rw [← hvm.reloaded]
    constructor
    · rintro ⟨object, hobject, hdomain'⟩
      exact absurd hdomain' (hvm.domain_ne hobject)
    · rintro ⟨object, -, hobject⟩
      simp [hdomain] at hobject
  newest := hvm.newest
  fresh := by
    rw [← hvm.fresh]
    constructor
    · rintro ⟨object, hobject, hdomain', -⟩
      exact absurd hdomain' (hvm.domain_ne hobject)
    · rintro ⟨object, -, hobject, -⟩
      simp [hdomain] at hobject

/-- A completion that finds no assembly loaded tries to load it. -/
theorem Kept.load (hvm : Kept as vm) (hversion : vm.version = none)
    (hdomain : vm.scriptDomain.isSome) (readable : Bool) (executeQueue : Nat) :
    Kept (as ++ [.complete readable]) { vm with
      executeQueue, assembly := some (if readable then some vm.dll else none) } := by
  have hloaded : ¬ Loaded as := by simp [← hvm.loaded, hversion]
  have hnewest : ¬ LoadedNewest as := by simp [← hvm.newest, hversion]
  exact {
    domain _ := hdomain
    domains := hvm.domains
    version_le := by cases readable <;> simp [version]
    object := hvm.object
    alive object h hobject := by simpa [hversion] using hvm.alive object h hobject
    added := hvm.added.trans (by simp)
    made := hvm.made.trans (by simp [Loads])
    loaded := by cases readable <;> simp [version, hloaded]
    failed := by cases readable <;> simp [hloaded]
    reloaded := hvm.reloaded.trans (by simp [Loads])
    newest := by cases readable <;> simp [version, hloaded, hnewest]
    fresh := hvm.fresh.trans (by simp [Loads, Quiet]) }

theorem Kept.complete (hvm : Kept as vm) (readable : Bool) (executeQueue : Nat) :
    Kept (as ++ [.complete readable]) (loadAssembly { vm with executeQueue } readable) := by
  have hload {vm : MonoVirtualMachine} (hvm : Kept as vm) (hdomain : vm.scriptDomain.isSome) :
      Kept (as ++ [.complete readable]) (match vm.assembly with
        | some (some _) => { vm with executeQueue }
        | _ => { vm with
          executeQueue, assembly := some (if readable then some vm.dll else none) }) := by
    split
    next version hassembly =>
      exact hvm.not_load (by simp [MonoVirtualMachine.version, hassembly]) readable executeQueue
    next hassembly =>
      refine hvm.load (Option.join_eq_none_iff.mpr ?_) hdomain readable executeQueue
      rcases hcase : vm.assembly with - | - | version
      · exact .inl rfl
      · exact .inr rfl
      · exact absurd hcase (hassembly version)
  cases hdomain : vm.scriptDomain with
  | some domain => simpa [loadAssembly, hdomain] using hload hvm (by simp [hdomain])
  | none => simpa [loadAssembly, hdomain] using hload (hvm.newDomain hdomain) rfl

theorem loadFunction_eq_some : vm.loadFunction = some vm' ↔
    (vm.assembly = none ∧ vm' = vm) ∨ ∃ version domain, vm.assembly = some (some version) ∧
      vm.scriptDomain = some domain ∧
      vm' = { vm with script := some (some ⟨domain, version⟩) } := by
  rcases hassembly : vm.assembly with - | - | version
  · simp [loadFunction, hassembly, eq_comm]
  · simp [loadFunction, hassembly]
  · cases hdomain : vm.scriptDomain <;> simp [loadFunction, hassembly, hdomain, eq_comm]

/-- A lookup fails only in an assembly that could not be loaded. -/
theorem Sound.loadFunction_iff (hvm : Sound vm) :
    (∃ vm', vm.loadFunction = some vm') ↔ vm.assembly ≠ some none := by
  rcases hassembly : vm.assembly with - | - | version
  · simp [loadFunction, hassembly]
  · simp [loadFunction, hassembly]
  · obtain ⟨domain, hdomain⟩ := Option.isSome_iff_exists.mp
      (hvm.domain (by simp [MonoVirtualMachine.version, hassembly]))
    simp [loadFunction, hassembly, hdomain]

/-- The script is there, or is put there, and its functions are looked up. -/
theorem Kept.loadFunction (hvm : Kept as vm) (hloads : Loads as a) (eventQueue : Nat)
    (hload : ({ vm with
      script := some vm.scriptObject, eventQueue } : MonoVirtualMachine).loadFunction =
        some vm') : Kept (as ++ [a]) vm' := by
  have hquiet : Quiet a := by rcases hloads with ⟨rfl, -⟩ | ⟨rfl, -⟩ <;> simp [Quiet]
  have hcomplete (readable : Bool) : a ≠ .complete readable := by
    rcases hloads with ⟨rfl, -⟩ | ⟨rfl, -⟩ <;> simp
  have hremove : a ≠ .remove := by rcases hloads with ⟨rfl, -⟩ | ⟨rfl, -⟩ <;> simp
  have hadded : Added (as ++ [a]) := by
    rcases hloads with ⟨rfl, -⟩ | ⟨rfl, hadded⟩
    · simp
    · simp [hadded]
  rcases loadFunction_eq_some.mp hload with
    ⟨hassembly, rfl⟩ | ⟨version, domain, hassembly, hdomain, rfl⟩
  · have hversion : vm.version = none := Option.join_eq_none_iff.mpr (.inl hassembly)
    have hloaded : ¬ Loaded as := by simp [← hvm.loaded, hversion]
    have hnewest : ¬ LoadedNewest as := by simp [← hvm.newest, hversion]
    exact {
      domain := hvm.domain
      domains := hvm.domains
      version_le := hvm.version_le
      object := hvm.object
      alive := hvm.alive
      added := iff_of_true rfl hadded
      made := hvm.made.trans (by simp [hloaded, hremove])
      loaded := hvm.loaded.trans (by simp [hcomplete, hquiet.1])
      failed := hvm.failed.trans (by simp [hcomplete, hquiet.1])
      reloaded := hvm.reloaded.trans (by simp [hloaded, hremove, hquiet.1])
      newest := hvm.newest.trans (by simp [hcomplete, hquiet])
      fresh := hvm.fresh.trans (by simp [hnewest, hremove, hquiet]) }
  · have hversion : vm.version = some version := by
      rw [MonoVirtualMachine.version]
      exact Option.join_eq_some_iff.mpr hassembly
    have hloaded : Loaded as := hvm.loaded.mp (by simp [hversion])
    have hnewest : version = vm.dll ↔ LoadedNewest as := by simp [← hvm.newest, hversion]
    exact {
      domain := hvm.domain
      domains := hvm.domains
      version_le := hvm.version_le
      object := by
        rintro object h
        obtain rfl := Option.some.inj h
        exact ⟨hvm.domains domain hdomain, hvm.version_le version hversion⟩
      alive := by
        rintro object h -
        obtain rfl := Option.some.inj h
        exact hversion
      added := iff_of_true rfl hadded
      made := iff_of_true rfl (by simp [hloads, hloaded])
      loaded := hvm.loaded.trans (by simp [hcomplete, hquiet.1])
      failed := hvm.failed.trans (by simp [hcomplete, hquiet.1])
      reloaded := iff_of_true ⟨_, rfl, hdomain⟩ (by simp [hloads, hloaded])
      newest := hvm.newest.trans (by simp [hcomplete, hquiet])
      fresh := by
        rw [reloadedNewest_snoc, ← hnewest, ← hvm.fresh]
        constructor
        · rintro ⟨object, hobject, -, hdll⟩
          obtain rfl := Option.some.inj hobject
          exact .inl ⟨hloads, hdll⟩
        · rintro (⟨-, hdll⟩ | ⟨-, object, hobject, hdomain', hdll⟩)
          · exact ⟨_, rfl, hdomain, hdll⟩
          · have hsame := hvm.alive object hobject hdomain'
            rw [hversion, Option.some.injEq] at hsame
            exact ⟨_, rfl, hdomain, hsame.trans hdll⟩ }

theorem Kept.addScript (hvm : Kept as vm) (hadd : vm.addScript = some vm') :
    Kept (as ++ [.addScript]) vm' := by
  rw [MonoVirtualMachine.addScript] at hadd
  split at hadd
  next object hscript =>
    obtain rfl := Option.some.inj hadd
    have hadded := hvm.added.mp (by simp [hscript])
    exact hvm.same (by simp [Quiet]) (by simp) (by simp) (fun _ => hadded)
      (by simp [Loads, hadded])
  next hscript =>
    have hadded : ¬ Added as := by simp [← hvm.added, hscript]
    refine hvm.loadFunction (.inl ⟨rfl, hadded⟩) vm.eventQueue ?_
    rw [scriptObject, hscript]
    exact hadd

theorem Kept.compileHandler (hvm : Kept as vm) {eventQueue : Nat}
    (hhandler : ({ vm with eventQueue } : MonoVirtualMachine).compileHandler = some vm') :
    Kept (as ++ [.dispatch]) vm' := by
  rw [MonoVirtualMachine.compileHandler] at hhandler
  split at hhandler
  next object hscript =>
    have hadded := hvm.added.mp (by simp [show vm.script = some object from hscript])
    refine hvm.loadFunction (.inr ⟨rfl, hadded⟩) eventQueue ?_
    rw [scriptObject, show vm.script = some object from hscript, Option.join_some, ← hscript]
    exact hhandler
  next hscript =>
    obtain rfl := Option.some.inj hhandler
    have hadded : ¬ Added as := by simp [← hvm.added, show vm.script = none from hscript]
    exact hvm.same (by simp [Quiet]) (by simp) (by simp) (by simp) (by simp [Loads, hadded])

theorem Kept.remove (hvm : Kept as vm) : Kept (as ++ [.remove]) { vm with script := none } where
  domain := hvm.domain
  domains := hvm.domains
  version_le := hvm.version_le
  object := by simp [scriptObject]
  alive := by simp [scriptObject]
  added := by simp
  made := by simp [scriptObject, Loads]
  loaded := hvm.loaded.trans (by simp)
  failed := hvm.failed.trans (by simp)
  reloaded := by simp [scriptObject, Alive, Loads]
  newest := hvm.newest.trans (by simp [Quiet])
  fresh := by simp [scriptObject, Fresh, Loads]

theorem Kept.step (hvm : Kept as vm) (hstep : vm.step a = some vm') : Kept (as ++ [a]) vm' := by
  cases a with
  | compileAssembly =>
      obtain rfl := Option.some.inj hstep
      exact hvm.compileAssembly
  | compile job ok =>
      simp only [MonoVirtualMachine.step] at hstep
      split_ifs at hstep with _ hok
      · obtain rfl := Option.some.inj hstep
        exact hok ▸ hvm.compile job _
      · obtain rfl := Option.some.inj hstep
        exact hvm.same (by simpa using hok) (by simp) (by simp) (by simp) (by simp [Loads])
  | postEvent job =>
      simp only [MonoVirtualMachine.step] at hstep
      split_ifs at hstep
      obtain rfl := Option.some.inj hstep
      exact hvm.same (by simp [Quiet]) (by simp) (by simp) (by simp) (by simp [Loads])
  | postOnMainThread job =>
      simp only [MonoVirtualMachine.step] at hstep
      split_ifs at hstep
      obtain rfl := Option.some.inj hstep
      exact hvm.same (by simp [Quiet]) (by simp) (by simp) (by simp) (by simp [Loads])
  | complete readable =>
      simp only [MonoVirtualMachine.step] at hstep
      split_ifs at hstep
      obtain rfl := Option.some.inj hstep
      exact hvm.complete readable _
  | dispatch =>
      simp only [MonoVirtualMachine.step] at hstep
      split_ifs at hstep
      exact hvm.compileHandler hstep
  | addScript => exact hvm.addScript hstep
  | remove =>
      simp only [MonoVirtualMachine.step] at hstep
      split_ifs at hstep
      obtain rfl := Option.some.inj hstep
      exact hvm.remove
  | update =>
      simp only [MonoVirtualMachine.step] at hstep
      split_ifs at hstep
      obtain rfl := Option.some.inj hstep
      exact hvm.same (by simp [Quiet]) (by simp) (by simp) (by simp) (by simp [Loads])

theorem Kept.run (hrun : Run init as vm) : Kept as vm :=
  hrun.invariant (I := Kept) kept_init fun _ _ _ _ => Kept.step

theorem Kept.callable_iff (hvm : Kept as vm) : vm.callable ↔ (Made as → Reloaded as) := by
  rw [← hvm.made, ← hvm.reloaded]
  cases hobject : vm.scriptObject <;> simp [callable, Alive, hobject]

theorem Kept.addScript_iff (hvm : Kept as vm) :
    (∃ vm', vm.step .addScript = some vm') ↔ (Failed as → Added as) := by
  rw [← hvm.failed, ← hvm.added]
  simp only [MonoVirtualMachine.step, MonoVirtualMachine.addScript]
  split
  next object hscript => simp [hscript]
  next hscript =>
    have hsound : Sound { vm with script := some none } := {
      hvm.toSound with
      object := by simp [scriptObject]
      alive := by simp [scriptObject] }
    rw [hsound.loadFunction_iff, hscript]
    simp

theorem Kept.dispatch_iff (hvm : Kept as vm) : (∃ vm', vm.step .dispatch = some vm') ↔
    0 < vm.eventQueue ∧ (Failed as → ¬ Added as) := by
  rw [← hvm.failed, ← hvm.added]
  simp only [MonoVirtualMachine.step, MonoVirtualMachine.compileHandler]
  split_ifs with hqueue
  · rw [and_iff_right hqueue]
    split
    next object hscript =>
      have hsound : Sound { vm with eventQueue := vm.eventQueue - 1 } := { hvm.toSound with }
      rw [hsound.loadFunction_iff, hscript]
      simp
    next hscript => simp [hscript]
  · simp [hqueue]

/-- The actions of a recompilation where the completion is run first. -/
def completeFirst (job : Nat) : List ScriptAction :=
  [.compileAssembly, .compile job true, .postEvent job, .postOnMainThread job, .complete true,
    .dispatch]

/-- The actions of a recompilation where the main thread runs the handler before the worker
has posted the completion. -/
def dispatchFirst (job : Nat) : List ScriptAction :=
  [.compileAssembly, .compile job true, .postEvent job, .dispatch, .postOnMainThread job,
    .complete true]

theorem run_completeFirst (hscript : vm.script.isSome) :
    Run vm (completeFirst vm.jobs.length) { vm with
      scriptDomain := some vm.domains
      domains := vm.domains + 1
      assembly := some (some (vm.dll + 1))
      dll := vm.dll + 1
      jobs := vm.jobs ++ [.done]
      script := some (some ⟨vm.domains, vm.dll + 1⟩) } := by
  obtain ⟨object, hscript⟩ := Option.isSome_iff_exists.mp hscript
  refine Lib.Run.partial_iff.mpr ?_
  simp [completeFirst, MonoVirtualMachine.step, MonoVirtualMachine.compileAssembly,
    unloadScriptDomain, loadAssembly, MonoVirtualMachine.compileHandler,
    MonoVirtualMachine.loadFunction, hscript]

theorem run_dispatchFirst (hscript : vm.script.isSome) :
    Run vm (dispatchFirst vm.jobs.length) { vm with
      scriptDomain := some vm.domains
      domains := vm.domains + 1
      assembly := some (some (vm.dll + 1))
      dll := vm.dll + 1
      jobs := vm.jobs ++ [.done] } := by
  obtain ⟨object, hscript⟩ := Option.isSome_iff_exists.mp hscript
  refine Lib.Run.partial_iff.mpr ?_
  simp [dispatchFirst, MonoVirtualMachine.step, MonoVirtualMachine.compileAssembly,
    unloadScriptDomain, loadAssembly, MonoVirtualMachine.compileHandler,
    MonoVirtualMachine.loadFunction, hscript]

end MonoVirtualMachine

end Maple.Scripts
