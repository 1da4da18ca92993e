import Maple.Lib.Fuel
import Maple.Lib.Run
import Maple.Others.StringUtils
import Maple.Scene.Scene

/-!
# Maple.Scene.SceneManager

`Scene/SceneManager.cpp`: the owner of all scenes, with a raw pointer to the
current one.

A scene is allocated when it is added and freed when the entry of `allScenes`
that owns it is assigned again; `heap` holds the scenes that are alive. An entry
that `operator[]` inserts holds a null pointer. Following a null pointer or a
pointer to a freed scene is a fault.

`currentScene` has to be the scene registered under `currentName` whenever no
switch is pending. Three orders of calls break this: adding a scene under the
name of the current one, switching to an unknown name while a switch is pending,
and applying before any switch. `Sound` excludes them.

A switch to an unknown name is rejected, but not without a trace: it takes back a
switch that is pending (`rejected_switch_ignored_iff`).
-/

namespace Maple

open Lib

/-- `SceneManager`. -/
structure SceneManager (V : Type) where
  heap : Nat → Option (Scene V)
  next : Nat
  allScenes : List (String × Option Nat)
  currentScene : Option Nat
  currentName : String
  switchingScenes : Bool

/-- What a call of the manager can fail with. -/
inductive ManagerFault where
  | nullptr
  /-- a pointer to a freed scene is followed -/
  | freed
  /-- an operation of a scene fails -/
  | scene (fault : Fault)
  deriving DecidableEq, Repr

namespace SceneManager

variable {V : Type}

/-- `SceneManager()`. -/
def create : SceneManager V where
  heap := fun _ => none
  next := 0
  allScenes := []
  currentScene := none
  currentName := ""
  switchingScenes := false

/-- `allScenes.find(name)`. -/
def find (m : SceneManager V) (name : String) : Option (Option Nat) := m.allScenes.lookup name

/-- `allScenes[name] = std::shared_ptr<Scene>(scene)` for a new scene; the scene that
was registered under the name is freed. -/
def assign (m : SceneManager V) (name : String) (scene : Scene V) : SceneManager V :=
  let heap := match m.find name with
    | some (some old) => Function.update m.heap old none
    | _ => m.heap
  { m with
    heap := Function.update heap m.next (some scene)
    next := m.next + 1
    allScenes := (name, some m.next) :: m.allScenes.filter (·.1 ≠ name) }

section

variable (initial : Kind → V) (mainCamera : V) (delimiter : Char)
  (loadScene : String → Scene V → LoadResult V)

/-- The rest of `addScene`: a scene without a camera gets one. -/
def addCamera (fuel : Nat) (s : Scene V) : Except Fault (Scene V) :=
  let cameras := s.registry.entities.alive.filter fun e =>
    ((s.registry.transform e).bind (·.other .camera)).isSome
  if cameras.isEmpty then
    (s.createNamed fuel "Main Camera").bind fun (entity, s) =>
      s.editComponents entity fun c => c.emplace initial .camera mainCamera
  else .ok s

/-- `SceneManager::addScene`. -/
def addScene (fuel : Nat) (m : SceneManager V) (name : String) (scene : Scene V) :
    Except Fault (SceneManager V) :=
  (addCamera initial mainCamera fuel scene).map fun scene => m.assign name scene

/-- `SceneManager::addSceneFromFile`; the key is the path, not the name. -/
def addSceneFromFile (fuel : Nat) (m : SceneManager V) (filePath : String) :
    Except Fault (SceneManager V) :=
  let name := StringUtils.removeExtension (StringUtils.getFileName delimiter filePath)
  m.addScene initial mainCamera fuel filePath { Scene.create name with filePath := filePath }

/-- `SceneManager::switchScene`. -/
def switchScene (m : SceneManager V) (name : String) : SceneManager V :=
  match m.find name with
  | some _ => { m with switchingScenes := true, currentName := name }
  | none => { m with switchingScenes := false }

/-- `currentScene->onClean()`, which is empty, if there is a current scene. -/
def clean (m : SceneManager V) : Except ManagerFault Unit :=
  match m.currentScene with
  | none => .ok ()
  | some id => if (m.heap id).isSome then .ok () else .error .freed

/-- The second half of `apply`. `onInit` and `onSceneCreated` do not touch the manager. -/
def enter (m : SceneManager V) : Except ManagerFault (LoadExit × SceneManager V) :=
  m.clean.bind fun _ =>
  match m.find m.currentName with
  -- `allScenes[currentName]` inserts a null pointer
  | none => .error .nullptr
  | some none => .error .nullptr
  | some (some id) =>
    match m.heap id with
    | none => .error .freed
    | some scene =>
      let (exit, scene) := scene.loadFrom loadScene
      let m := { m with currentScene := some id, heap := Function.update m.heap id (some scene) }
      match exit with
      | .returned => .ok (.returned, { m with switchingScenes := false })
      | _ => .ok (exit, m)

/-- `SceneManager::apply`. -/
def apply (fuel : Nat) (m : SceneManager V) : Except ManagerFault (LoadExit × SceneManager V) :=
  if m.switchingScenes then m.enter loadScene
  else if m.currentScene.isSome then .ok (.returned, m)
  else if m.allScenes.isEmpty then
    match addScene initial mainCamera fuel { m with currentName := "default" } "default"
      (Scene.create "default") with
    | .error fault => .error (.scene fault)
    | .ok m => m.enter loadScene
  else m.enter loadScene

end

/-! ### Steps -/

/-- The calls of a run. -/
inductive Call (V : Type) where
  | addScene (name : String) (scene : Scene V)
  | addSceneFromFile (filePath : String)
  | switchScene (name : String)
  | apply

section

variable (initial : Kind → V) (mainCamera : V) (delimiter : Char)
  (loadScene : String → Scene V → LoadResult V)

/-- A call of `apply` ends this way. -/
def Applies (m : SceneManager V) (exit : LoadExit) (m' : SceneManager V) : Prop :=
  Settles (fun fuel => m.apply initial mainCamera loadScene fuel) (.ok (exit, m'))

/-- A call, as a step. -/
inductive Performs (m : SceneManager V) : Call V → SceneManager V → Prop
  | addScene {name : String} {scene : Scene V} {m' : SceneManager V} :
      Settles (fun fuel => m.addScene initial mainCamera fuel name scene) (.ok m') →
      Performs m (.addScene name scene) m'
  | addSceneFromFile {filePath : String} {m' : SceneManager V} :
      Settles (fun fuel => m.addSceneFromFile initial mainCamera delimiter fuel filePath)
        (.ok m') →
      Performs m (.addSceneFromFile filePath) m'
  | switchScene {name : String} : Performs m (.switchScene name) (m.switchScene name)
  | apply (exit : LoadExit) {m' : SceneManager V} (hexit : ∀ fault, exit ≠ .aborted fault) :
      m.Applies initial mainCamera loadScene exit m' → Performs m .apply m'

end

/-- The name is not the one the current scene is registered under. -/
def Spares (m : SceneManager V) (name : String) : Prop :=
  ∀ id, m.currentScene = some id → m.find name ≠ some (some id)

/-- The calls after which the current scene is in order. -/
def Sound (m : SceneManager V) : Call V → Prop
  | .addScene name _ => m.Spares name
  | .addSceneFromFile filePath => m.Spares filePath
  | .switchScene name => m.find name = none → m.switchingScenes = true →
      ∀ id, m.currentScene = some id → m.find m.currentName = some (some id)
  | .apply => m.switchingScenes = false → m.currentScene = none → m.allScenes ≠ [] →
      (m.find m.currentName).isSome

/-- What holds between the calls. -/
structure Ordered (m : SceneManager V) : Prop where
  /-- every entry owns a scene that is alive -/
  alive : ∀ name entry, m.find name = some entry →
    ∃ id, entry = some id ∧ id < m.next ∧ (m.heap id).isSome
  /-- no scene is owned twice -/
  single : ∀ name name' id, m.find name = some (some id) → m.find name' = some (some id) →
    name = name'
  owned : ∀ id, m.currentScene = some id → ∃ name, m.find name = some (some id)
  current : m.switchingScenes = false → ∀ id, m.currentScene = some id →
    m.find m.currentName = some (some id)
  pending : m.switchingScenes = true → (m.find m.currentName).isSome

theorem ordered_create : (create : SceneManager V).Ordered :=
  ⟨nofun, nofun, nofun, nofun, nofun⟩

theorem find_assign (m : SceneManager V) (name : String) (scene : Scene V) (other : String) :
    (m.assign name scene).find other =
      if other = name then some (some m.next) else m.find other := by
  unfold find assign
  rw [List.lookup_cons]
  by_cases h : other = name
  · simp [h]
  · rw [if_neg h, beq_false_of_ne h]
    simp only
    -- the other entries are those kept by the filter
    induction m.allScenes with
    | nil => rfl
    | cons entry rest ih =>
        obtain ⟨key, value⟩ := entry
        by_cases hkey : key = name
        · rw [List.filter_cons_of_neg (by simpa using hkey), ih, List.lookup_cons,
            beq_false_of_ne (fun heq => h (heq.trans hkey))]
        · rw [List.filter_cons_of_pos (by simpa using hkey), List.lookup_cons, List.lookup_cons, ih]

/-- A scene owned under another name survives `assign`. -/
theorem Ordered.heap_assign {m : SceneManager V} (h : m.Ordered) {name other : String}
    (scene : Scene V) {id : Nat} (hne : other ≠ name) (hfind : m.find other = some (some id)) :
    (m.assign name scene).heap id = m.heap id := by
  obtain ⟨id', hid', hlt, -⟩ := h.alive other _ hfind
  obtain rfl := Option.some.inj hid'
  have hnext : id ≠ m.next := by omega
  simp only [assign]
  rw [Function.update_of_ne hnext]
  match hold : m.find name with
  | none => rfl
  | some none => rfl
  | some (some old) =>
      have hold' : id ≠ old := by
        rintro rfl
        exact hne (h.single other name id hfind hold)
      exact Function.update_of_ne hold' _ _

theorem heap_assign_next (m : SceneManager V) (name : String) (scene : Scene V) :
    (m.assign name scene).heap m.next = some scene := Function.update_self _ _ _

/-- **Adding a scene** keeps the order if the current scene is spared. -/
theorem Ordered.assign {m : SceneManager V} (h : m.Ordered) {name : String} (scene : Scene V)
    (hspares : m.Spares name) : (m.assign name scene).Ordered := by
  have hcurrent : ∀ id other, m.currentScene = some id → m.find other = some (some id) →
      (m.assign name scene).find other = some (some id) := by
    intro id other hid hother
    rw [find_assign, if_neg]
    · exact hother
    · rintro rfl
      exact hspares id hid hother
  refine ⟨fun other entry hentry => ?_, fun other other' id hid hid' => ?_, fun id hid => ?_,
    fun hs id hid => hcurrent id _ hid (h.current hs id hid), fun hs => ?_⟩
  · rw [find_assign] at hentry
    by_cases hother : other = name
    · rw [if_pos hother] at hentry
      refine ⟨m.next, (Option.some.inj hentry).symm, Nat.lt_succ_self _, ?_⟩
      rw [heap_assign_next]
      rfl
    · rw [if_neg hother] at hentry
      obtain ⟨id, rfl, hlt, hheap⟩ := h.alive other entry hentry
      refine ⟨id, rfl, Nat.lt_succ_of_lt hlt, ?_⟩
      rw [h.heap_assign scene hother hentry]
      exact hheap
  · -- the new scene is owned under the new name only
    have hfresh : ∀ n, m.find n ≠ some (some m.next) := by
      intro n hn
      obtain ⟨id', hid', hlt, -⟩ := h.alive n _ hn
      obtain rfl := Option.some.inj hid'
      exact absurd hlt (Nat.lt_irrefl _)
    rw [find_assign] at hid hid'
    by_cases hother : other = name
    · rw [if_pos hother] at hid
      obtain rfl := Option.some.inj (Option.some.inj hid)
      by_cases hother' : other' = name
      · rw [hother, hother']
      · rw [if_neg hother'] at hid'
        exact absurd hid' (hfresh other')
    · rw [if_neg hother] at hid
      by_cases hother' : other' = name
      · rw [if_pos hother'] at hid'
        obtain rfl := Option.some.inj (Option.some.inj hid')
        exact absurd hid (hfresh other)
      · rw [if_neg hother'] at hid'
        exact h.single other other' id hid hid'
  · obtain ⟨other, hother⟩ := h.owned id hid
    exact ⟨other, hcurrent id other hid hother⟩
  · show ((m.assign name scene).find m.currentName).isSome
    rw [find_assign]
    split
    · rfl
    · exact h.pending hs

/-- **Switching** keeps the order unless it drops a pending switch away from the current
scene. -/
theorem Ordered.switchScene {m : SceneManager V} (h : m.Ordered) {name : String}
    (hsound : m.Sound (.switchScene name)) : (m.switchScene name).Ordered := by
  unfold SceneManager.switchScene
  cases hfind : m.find name with
  | some entry =>
      refine ⟨h.alive, h.single, h.owned, nofun, fun _ => ?_⟩
      show (m.find name).isSome
      rw [hfind]
      rfl
  | none =>
      refine ⟨h.alive, h.single, h.owned, fun _ id hid => ?_, nofun⟩
      cases hs : m.switchingScenes with
      | false => exact h.current hs id hid
      | true => exact hsound hfind hs id hid

section

variable (initial : Kind → V) (mainCamera : V) (loadScene : String → Scene V → LoadResult V)

/-- The current scene is the one registered under the current name, and it is alive. -/
def Registered (m : SceneManager V) (id : Nat) : Prop :=
  m.currentScene = some id ∧ m.find m.currentName = some (some id) ∧ (m.heap id).isSome

/-- **Entering the scene registered under the current name**: no pointer fault, and the
call ends as the scene's `loadFrom` does. -/
theorem Ordered.enter {m : SceneManager V} (h : m.Ordered)
    (hname : (m.find m.currentName).isSome) :
    ∃ id scene exit m', m.heap id = some scene ∧ (scene.loadFrom loadScene).1 = exit ∧
      m.enter loadScene = .ok (exit, m') ∧ m.find m.currentName = some (some id) ∧
      m'.Ordered ∧ m'.Registered id := by
  obtain ⟨entry, hentry⟩ := Option.isSome_iff_exists.mp hname
  obtain ⟨id, rfl, hlt, hheap⟩ := h.alive _ _ hentry
  obtain ⟨scene, hscene⟩ := Option.isSome_iff_exists.mp hheap
  have hclean : m.clean = .ok () := by
    unfold clean
    cases hcur : m.currentScene with
    | none => rfl
    | some id' =>
        obtain ⟨name, hown⟩ := h.owned id' hcur
        obtain ⟨id'', hid'', -, hheap'⟩ := h.alive name _ hown
        obtain rfl := Option.some.inj hid''
        exact if_pos hheap'
  -- storing the loaded scene frees nothing
  have hheap' : ∀ (scene' : Scene V) id', (m.heap id').isSome →
      (Function.update m.heap id (some scene') id').isSome := by
    intro scene' id' hid'
    by_cases heq : id' = id
    · rw [heq, Function.update_self]
      rfl
    · rw [Function.update_of_ne heq]
      exact hid'
  have hordered : ∀ (scene' : Scene V) (pending : Bool), ({ m with
        currentScene := some id
        heap := Function.update m.heap id (some scene')
        switchingScenes := pending } : SceneManager V).Ordered := by
    intro scene' pending
    refine ⟨fun name entry hfind => ?_, h.single, fun id' hid' => ?_, fun _ id' hid' => ?_,
      fun _ => hname⟩
    · obtain ⟨id', rfl, hlt', halive⟩ := h.alive name entry hfind
      exact ⟨id', rfl, hlt', hheap' scene' id' halive⟩
    · obtain rfl := Option.some.inj hid'
      exact ⟨m.currentName, hentry⟩
    · obtain rfl := Option.some.inj hid'
      exact hentry
  have hself : ∀ scene' : Scene V, (Function.update m.heap id (some scene') id).isSome := by
    intro scene'
    exact hheap' scene' id hheap
  unfold SceneManager.enter
  rw [hclean]
  simp only [Except.bind, hentry, hscene]
  cases hexit : (scene.loadFrom loadScene).1 with
  | returned =>
      exact ⟨id, scene, _, _, hscene, hexit, rfl, rfl, hordered _ false, rfl, hentry,
        hself _⟩
  | threw =>
      exact ⟨id, scene, _, _, hscene, hexit, rfl, rfl, hordered _ m.switchingScenes, rfl,
        hentry, hself _⟩
  | aborted fault =>
      exact ⟨id, scene, _, _, hscene, hexit, rfl, rfl, hordered _ m.switchingScenes, rfl,
        hentry, hself _⟩

/-- The default scene is new, so adding its camera ends at once. -/
theorem addCamera_default :
    ∃ scene, Settles (fun fuel => addCamera initial mainCamera fuel (Scene.create "default"))
      (.ok scene) ∧ scene.filePath = "" :=
  ⟨_, Settles.of_succ (Settles.of_forall fun _ => rfl), rfl⟩

/-- **`apply` without a scene** adds the default one, which is then the only one and has no
file to load. -/
theorem Ordered.apply_default {m : SceneManager V} (h : m.Ordered)
    (hs : m.switchingScenes = false) (hcur : m.currentScene = none) (hall : m.allScenes = []) :
    ∃ m' id, m.Applies initial mainCamera loadScene .returned m' ∧ m'.Ordered ∧
      m'.Registered id := by
  have h₀ : ({ m with currentName := "default" } : SceneManager V).Ordered :=
    ⟨h.alive, h.single, h.owned, fun _ id hid => absurd (hcur.symm.trans hid) nofun,
      fun hs' => absurd (hs.symm.trans hs') nofun⟩
  have hspares : Spares { m with currentName := "default" } "default" :=
    fun id hid => absurd (hcur.symm.trans hid) nofun
  obtain ⟨scene, ⟨N, hN⟩, hpath⟩ := addCamera_default initial mainCamera
  have hfind := find_assign { m with currentName := "default" } "default" scene "default"
  rw [if_pos rfl] at hfind
  obtain ⟨id, scene', exit, m', hscene, hexit, hrun, hid, hm', hreg⟩ :=
    (h₀.assign scene hspares).enter loadScene (Option.isSome_of_eq_some hfind)
  obtain rfl := Option.some.inj (Option.some.inj (hfind.symm.trans hid))
  rw [heap_assign_next] at hscene
  obtain rfl := Option.some.inj hscene
  have hreturned : exit = .returned := by
    rw [← hexit]
    unfold Scene.loadFrom
    rw [if_neg (by simp [hpath])]
  refine ⟨m', _, ⟨N, fun fuel hfuel => ?_⟩, hm', hreg⟩
  have hadd : addCamera initial mainCamera fuel (Scene.create "default") = .ok scene :=
    hN fuel hfuel
  rw [hreturned] at hrun
  simp only [SceneManager.apply, hs, hcur, hall, SceneManager.addScene, hadd, Except.map,
    Bool.false_eq_true, if_false, Option.isSome_none, List.isEmpty_nil, if_true]
  rw [hall, hcur, hs] at hrun
  exact hrun

/-- **`apply`** ends with the current scene in order. -/
theorem Ordered.apply {m : SceneManager V} (h : m.Ordered) (hsound : m.Sound .apply) :
    ∃ exit m' id, m.Applies initial mainCamera loadScene exit m' ∧ m'.Ordered ∧
      m'.Registered id ∧
      (exit = .returned ∨
        ∃ scene, m.heap id = some scene ∧ (scene.loadFrom loadScene).1 = exit) := by
  cases hs : m.switchingScenes with
  | true =>
      obtain ⟨id, scene, exit, m', hscene, hexit, hrun, -, hm', hreg⟩ :=
        h.enter loadScene (h.pending hs)
      refine ⟨exit, m', id, Settles.of_forall fun fuel => ?_, hm', hreg,
        .inr ⟨scene, hscene, hexit⟩⟩
      rw [SceneManager.apply, if_pos hs]
      exact hrun
  | false =>
      have hidle : ¬ m.switchingScenes = true := by simp [hs]
      cases hcur : m.currentScene with
      | some id =>
          have hfind := h.current hs id hcur
          obtain ⟨id', hid', -, hheap⟩ := h.alive _ _ hfind
          obtain rfl := Option.some.inj hid'
          refine ⟨.returned, m, id, Settles.of_forall fun fuel => ?_, h, ⟨hcur, hfind, hheap⟩,
            .inl rfl⟩
          rw [SceneManager.apply, if_neg hidle, if_pos (by simp [hcur])]
      | none =>
          have hnone : ¬ m.currentScene.isSome = true := by simp [hcur]
          by_cases hall : m.allScenes = []
          · obtain ⟨m', id, hrun, hm', hreg⟩ :=
              h.apply_default initial mainCamera loadScene hs hcur hall
            exact ⟨.returned, m', id, hrun, hm', hreg, .inl rfl⟩
          · obtain ⟨id, scene, exit, m', hscene, hexit, hrun, -, hm', hreg⟩ :=
              h.enter loadScene (hsound hs hcur hall)
            refine ⟨exit, m', id, Settles.of_forall fun fuel => ?_, hm', hreg,
              .inr ⟨scene, hscene, hexit⟩⟩
            rw [SceneManager.apply, if_neg hidle, if_neg hnone, if_neg (by simpa using hall)]
            exact hrun

variable {initial mainCamera loadScene} {delimiter : Char}

theorem Ordered.addScene {m m' : SceneManager V} (h : m.Ordered) {name : String}
    {scene : Scene V} (hspares : m.Spares name)
    (hrun : Settles (fun fuel => m.addScene initial mainCamera fuel name scene) (.ok m')) :
    m'.Ordered := by
  obtain ⟨fuel, hfuel⟩ := hrun
  obtain ⟨scene', -, rfl⟩ := map_eq_ok (hfuel fuel (Nat.le_refl fuel))
  exact h.assign scene' hspares

/-- **One call** keeps the order. -/
theorem Ordered.step {m m' : SceneManager V} {c : Call V} (h : m.Ordered) (hsound : m.Sound c)
    (hstep : m.Performs initial mainCamera delimiter loadScene c m') : m'.Ordered := by
  cases hstep with
  | addScene hrun => exact h.addScene hsound hrun
  | addSceneFromFile hrun => exact h.addScene hsound hrun
  | switchScene => exact h.switchScene hsound
  | apply exit _ hrun =>
      obtain ⟨exit', m'', id, hrun', hm'', -, -⟩ := h.apply initial mainCamera loadScene hsound
      obtain ⟨-, rfl⟩ := Prod.mk.inj (Except.ok.inj (hrun.unique hrun'))
      exact hm''

/-- A sound call, as a step. -/
def SoundStep (initial : Kind → V) (mainCamera : V) (delimiter : Char)
    (loadScene : String → Scene V → LoadResult V) (m : SceneManager V) (c : Call V)
    (m' : SceneManager V) : Prop :=
  m.Sound c ∧ m.Performs initial mainCamera delimiter loadScene c m'

/-- **The current scene**, in every run of sound calls: between the calls it is null or a
scene that `allScenes` owns, and `apply` ends with the current scene registered under
the current name, the way `loadFrom` of that scene ends. -/
theorem current_scene_registered (initial : Kind → V) (mainCamera : V) (delimiter : Char)
    (loadScene : String → Scene V → LoadResult V) {calls : List (Call V)} {m : SceneManager V}
    (hrun : Run (SoundStep initial mainCamera delimiter loadScene) create calls m) :
    (∀ id, m.currentScene = some id →
      (∃ name, m.find name = some (some id)) ∧ (m.heap id).isSome) ∧
    (m.Sound .apply → ∃ exit m' id, m.Applies initial mainCamera loadScene exit m' ∧
      m'.Registered id ∧
      (exit = .returned ∨
        ∃ scene, m.heap id = some scene ∧ (scene.loadFrom loadScene).1 = exit)) := by
  have h : m.Ordered := by
    refine hrun.state_invariant (I := Ordered) ordered_create ?_
    intro t c u ht hstep
    exact ht.step hstep.1 hstep.2
  refine ⟨fun id hid => ?_, fun hsound => ?_⟩
  · obtain ⟨name, hname⟩ := h.owned id hid
    obtain ⟨id', hid', -, hheap⟩ := h.alive name _ hname
    obtain rfl := Option.some.inj hid'
    exact ⟨⟨name, hname⟩, hheap⟩
  · obtain ⟨exit, m', id, hrun', -, hreg, hexit⟩ := h.apply initial mainCamera loadScene
      hsound
    exact ⟨exit, m', id, hrun', hreg, hexit⟩

/-- An archive that reads nothing. -/
def unread (_ : String) (s : Scene V) : LoadResult V := ⟨false, s.name, s.version, s.registry⟩

/-- Two scenes, a switch to the first and an `apply`. -/
theorem current_scene_registered_first :
    ∃ m : SceneManager Unit,
      Run (SoundStep (fun _ => ()) () '/' unread) create
        [.addSceneFromFile "a.scene", .addScene "b" (Scene.create "b"), .switchScene "a.scene"] m ∧
      ∃ exit m' id, m.Applies (fun _ => ()) () unread exit m' ∧ m'.Registered id := by
  have hsteps : ∃ m₁ m₂ : SceneManager Unit,
      SoundStep (fun _ => ()) () '/' unread create (.addSceneFromFile "a.scene") m₁ ∧
      m₁.SoundStep (fun _ => ()) () '/' unread (.addScene "b" (Scene.create "b")) m₂ ∧
      (m₂.find "a.scene").isSome :=
    ⟨_, _, ⟨nofun, .addSceneFromFile (Settles.of_succ (Settles.of_forall fun _ => rfl))⟩,
      ⟨nofun, .addScene (Settles.of_succ (Settles.of_forall fun _ => rfl))⟩, rfl⟩
  obtain ⟨m₁, m₂, h₁, h₂, hfind⟩ := hsteps
  have hswitch : m₂.SoundStep (fun _ => ()) () '/' unread (.switchScene "a.scene")
      (m₂.switchScene "a.scene") :=
    ⟨fun hnone => absurd hfind (by simp [hnone]), .switchScene⟩
  have hrun := (((Run.nil _).snoc h₁).snoc h₂).snoc hswitch
  have hsound : (m₂.switchScene "a.scene").Sound .apply := by
    intro hs
    unfold SceneManager.switchScene at hs
    obtain ⟨entry, hentry⟩ := Option.isSome_iff_exists.mp hfind
    rw [hentry] at hs
    exact absurd hs nofun
  obtain ⟨exit, m', id, happly, hreg, -⟩ := (current_scene_registered _ _ _ _ hrun).2 hsound
  exact ⟨_, hrun, exit, m', id, happly, hreg⟩

/-- The three orders of calls that go wrong. Adding a scene under the name of the current
one frees it, and the next `apply` follows the freed pointer; after `addScene` alone,
`apply` follows a null pointer; and an unknown name given while a switch is pending makes
`apply` return with a current scene that is not the one under the current name. -/
theorem current_scene_lost :
    (∃ m₁ m₂ m₃ : SceneManager Unit,
      Performs (fun _ => ()) () '/' unread create (.addScene "a" (Scene.create "a")) m₁ ∧
      (m₁.switchScene "a").Performs (fun _ => ()) () '/' unread .apply m₂ ∧
      m₂.Performs (fun _ => ()) () '/' unread (.addScene "a" (Scene.create "a")) m₃ ∧
      m₃.currentScene = some 0 ∧ m₃.heap 0 = none ∧
      ∀ fuel, (m₃.switchScene "a").apply (fun _ => ()) () unread fuel = .error .freed) ∧
    (∃ m₁ : SceneManager Unit,
      Performs (fun _ => ()) () '/' unread create (.addScene "a" (Scene.create "a")) m₁ ∧
      ∀ fuel, m₁.apply (fun _ => ()) () unread fuel = .error .nullptr) ∧
    ∃ m₁ m₂ m₃ m₄ : SceneManager Unit,
      Performs (fun _ => ()) () '/' unread create (.addScene "a" (Scene.create "a")) m₁ ∧
      m₁.Performs (fun _ => ()) () '/' unread (.addScene "b" (Scene.create "b")) m₂ ∧
      (m₂.switchScene "a").Performs (fun _ => ()) () '/' unread .apply m₃ ∧
      ((m₃.switchScene "b").switchScene "c").Performs (fun _ => ()) () '/' unread .apply m₄ ∧
      m₄.currentScene = some 0 ∧ m₄.find m₄.currentName = some (some 1) := by
  refine ⟨?_, ?_, ?_⟩
  · exact ⟨_, _, _, .addScene (Settles.of_succ (Settles.of_forall fun _ => rfl)),
      .apply .returned nofun (Settles.of_forall fun _ => rfl),
      .addScene (Settles.of_succ (Settles.of_forall fun _ => rfl)), rfl, rfl, fun _ => rfl⟩
  · exact ⟨_, .addScene (Settles.of_succ (Settles.of_forall fun _ => rfl)), fun _ => rfl⟩
  · exact ⟨_, _, _, _, .addScene (Settles.of_succ (Settles.of_forall fun _ => rfl)),
      .addScene (Settles.of_succ (Settles.of_forall fun _ => rfl)),
      .apply .returned nofun (Settles.of_forall fun _ => rfl),
      .apply .returned nofun (Settles.of_forall fun _ => rfl), rfl, rfl⟩

/-! ### Rejected switches -/

/-- A call has no more than one outcome. -/
theorem Performs.unique {initial : Kind → V} {mainCamera : V} {delimiter : Char}
    {loadScene : String → Scene V → LoadResult V} {m m₁ m₂ : SceneManager V} {c : Call V}
    (h₁ : m.Performs initial mainCamera delimiter loadScene c m₁)
    (h₂ : m.Performs initial mainCamera delimiter loadScene c m₂) : m₁ = m₂ := by
  cases h₁ with
  | addScene hrun =>
      cases h₂ with
      | addScene hrun' => exact Except.ok.inj (hrun.unique hrun')
  | addSceneFromFile hrun =>
      cases h₂ with
      | addSceneFromFile hrun' => exact Except.ok.inj (hrun.unique hrun')
  | switchScene =>
      cases h₂ with
      | switchScene => rfl
  | apply exit hexit hrun =>
      cases h₂ with
      | apply exit' hexit' hrun' => exact (Prod.mk.inj (Except.ok.inj (hrun.unique hrun'))).2

/-- The call `switchScene(name)` after `calls`, which lead to `m`, does nothing: the
fields stay, a pending switch stays pending, and the run can go on exactly as it could
without the call. -/
structure SwitchIgnored (initial : Kind → V) (mainCamera : V) (delimiter : Char)
    (loadScene : String → Scene V → LoadResult V) (calls : List (Call V)) (m : SceneManager V)
    (name : String) : Prop where
  currentName : (m.switchScene name).currentName = m.currentName
  currentScene : (m.switchScene name).currentScene = m.currentScene
  allScenes : (m.switchScene name).allScenes = m.allScenes
  pending : (m.switchScene name).switchingScenes = m.switchingScenes
  continues : ∀ more m', Run (Performs initial mainCamera delimiter loadScene) create
      (calls ++ [.switchScene name] ++ more) m' ↔
    Run (Performs initial mainCamera delimiter loadScene) create (calls ++ more) m'

/-- Giving an unknown name takes back a pending switch. -/
theorem switchScene_unknown {m : SceneManager V} {name : String} (hname : m.find name = none) :
    m.switchScene name = { m with switchingScenes := false } := by
  rw [SceneManager.switchScene, hname]

/-- **When a rejected switch does nothing**: exactly if no switch is pending. -/
theorem rejected_switch_ignored_iff (initial : Kind → V) (mainCamera : V) (delimiter : Char)
    (loadScene : String → Scene V → LoadResult V) {calls : List (Call V)} {m : SceneManager V}
    (hrun : Run (Performs initial mainCamera delimiter loadScene) create calls m) {name : String}
    (hname : m.find name = none) :
    SwitchIgnored initial mainCamera delimiter loadScene calls m name ↔
      m.switchingScenes = false := by
  have hswitch := switchScene_unknown hname
  refine ⟨fun h => ?_, fun hidle => ?_⟩
  · rw [← h.pending, hswitch]
  · have hsame : m.switchScene name = m := by
      rw [hswitch, ← hidle]
    refine ⟨by rw [hsame], by rw [hsame], by rw [hsame], by rw [hsame], fun more m' => ?_⟩
    -- both runs pass through `m`
    have hcall : Run (Performs initial mainCamera delimiter loadScene) create
        (calls ++ [.switchScene name]) m := by
      have hstep : m.Performs initial mainCamera delimiter loadScene (.switchScene name)
          (m.switchScene name) := .switchScene
      rw [hsame] at hstep
      exact hrun.snoc hstep
    have hdet : ∀ m c m₁ m₂, Performs initial mainCamera delimiter loadScene m c m₁ →
        Performs initial mainCamera delimiter loadScene m c m₂ → m₁ = m₂ :=
      fun _ _ _ _ => Performs.unique
    rw [Run.append_iff, Run.append_iff]
    refine exists_congr fun t => and_congr_left fun _ => ⟨fun h => ?_, fun h => ?_⟩
    · exact hcall.unique hdet h ▸ hrun
    · exact hrun.unique hdet h ▸ hcall

/-- An unknown name after a switch that has been applied. -/
theorem rejected_switch_ignored_applied :
    ∃ m : SceneManager Unit,
      Run (Performs (fun _ => ()) () '/' unread) create
        [.addScene "a" (Scene.create "a"), .addScene "b" (Scene.create "b"), .switchScene "b",
          .apply] m ∧
      m.currentScene = some 1 ∧
      SwitchIgnored (fun _ => ()) () '/' unread
        [.addScene "a" (Scene.create "a"), .addScene "b" (Scene.create "b"), .switchScene "b",
          .apply] m "c" := by
  have hsteps : ∃ m₁ m₂ m₃ : SceneManager Unit,
      Performs (fun _ => ()) () '/' unread create (.addScene "a" (Scene.create "a")) m₁ ∧
      m₁.Performs (fun _ => ()) () '/' unread (.addScene "b" (Scene.create "b")) m₂ ∧
      (m₂.switchScene "b").Performs (fun _ => ()) () '/' unread .apply m₃ ∧
      m₃.find "c" = none ∧ m₃.switchingScenes = false ∧ m₃.currentScene = some 1 :=
    ⟨_, _, _, .addScene (Settles.of_succ (Settles.of_forall fun _ => rfl)),
      .addScene (Settles.of_succ (Settles.of_forall fun _ => rfl)),
      .apply .returned nofun (Settles.of_forall fun _ => rfl), rfl, rfl, rfl⟩
  obtain ⟨m₁, m₂, m₃, h₁, h₂, h₃, hfind, hidle, hcurrent⟩ := hsteps
  have hrun := ((((Run.nil _).snoc h₁).snoc h₂).snoc .switchScene).snoc h₃
  exact ⟨m₃, hrun, hcurrent,
    (rejected_switch_ignored_iff (fun _ => ()) () '/' unread hrun hfind).mpr hidle⟩

/-- An unknown name between an accepted switch and `apply`: with the call, `apply` keeps
the old scene; without it, the new one is entered. -/
theorem rejected_switch_cancels :
    ∃ m m₁ m₂ : SceneManager Unit,
      Run (Performs (fun _ => ()) () '/' unread) create
        [.addScene "a" (Scene.create "a"), .addScene "b" (Scene.create "b"), .switchScene "a",
          .apply, .switchScene "b"] m ∧
      m.find "c" = none ∧
      ¬ SwitchIgnored (fun _ => ()) () '/' unread
        [.addScene "a" (Scene.create "a"), .addScene "b" (Scene.create "b"), .switchScene "a",
          .apply, .switchScene "b"] m "c" ∧
      m.Performs (fun _ => ()) () '/' unread .apply m₁ ∧ m₁.currentScene = some 1 ∧
      (m.switchScene "c").Performs (fun _ => ()) () '/' unread .apply m₂ ∧
      m₂.currentScene = some 0 := by
  have hsteps : ∃ m₁ m₂ m₃ m₄ m₅ : SceneManager Unit,
      Performs (fun _ => ()) () '/' unread create (.addScene "a" (Scene.create "a")) m₁ ∧
      m₁.Performs (fun _ => ()) () '/' unread (.addScene "b" (Scene.create "b")) m₂ ∧
      (m₂.switchScene "a").Performs (fun _ => ()) () '/' unread .apply m₃ ∧
      (m₃.switchScene "b").find "c" = none ∧ (m₃.switchScene "b").switchingScenes = true ∧
      (m₃.switchScene "b").Performs (fun _ => ()) () '/' unread .apply m₄ ∧
      m₄.currentScene = some 1 ∧
      ((m₃.switchScene "b").switchScene "c").Performs (fun _ => ()) () '/' unread .apply m₅ ∧
      m₅.currentScene = some 0 :=
    ⟨_, _, _, _, _, .addScene (Settles.of_succ (Settles.of_forall fun _ => rfl)),
      .addScene (Settles.of_succ (Settles.of_forall fun _ => rfl)),
      .apply .returned nofun (Settles.of_forall fun _ => rfl), rfl, rfl,
      .apply .returned nofun (Settles.of_forall fun _ => rfl), rfl,
      .apply .returned nofun (Settles.of_forall fun _ => rfl), rfl⟩
  obtain ⟨m₁, m₂, m₃, m₄, m₅, h₁, h₂, h₃, hfind, hpending, h₄, hb, h₅, ha⟩ := hsteps
  have hswitch : m₃.Performs (fun _ => ()) () '/' unread (.switchScene "b")
      (m₃.switchScene "b") := .switchScene
  have hrun := (((((Run.nil _).snoc h₁).snoc h₂).snoc .switchScene).snoc h₃).snoc hswitch
  refine ⟨_, m₄, m₅, hrun, hfind, fun hignored => ?_, h₄, hb, h₅, ha⟩
  have hkept := hignored.pending
  rw [switchScene_unknown hfind, hpending] at hkept
  exact absurd hkept nofun

end

end SceneManager

end Maple
