import Maple.Scene.Clearing
import Maple.Scene.HierarchyRuns
import Maple.Scene.Scene

/-!
# Maple.Scene.SaveLoad

**The hierarchy survives save and load.** `Serialization::serialize` writes all
identifiers of the registry and then pool by pool the components that
`ALL_COMPONENTS` names, each with its entity; the snapshot loader takes back the
identifiers and emplaces the components one by one. A restored `Hierarchy` has all
its links already, so `Scene::loadFrom` has to silence `Hierarchy::onConstruct`,
which would link it a second time, and to connect it again afterwards.

The order of the entities within each pool is left open.
-/

namespace Maple

open Lib Registry

variable {V : Type}

/-! ### Signals -/

/-- The listeners of the signals for `Hierarchy`. -/
inductive Listener where
  | onConstruct
  | onUpdate
  | onDestroy
  deriving DecidableEq, Repr

/-- `on_construct`, `on_update` and `on_destroy` of `Hierarchy`: the calls of each
`entt::sigh`. -/
structure Signals where
  construct : List Listener := []
  update : List Listener := []
  destroy : List Listener := []
  deriving DecidableEq, Repr

namespace Signals

/-- `sink::disconnect<Candidate>`. -/
def disconnect (calls : List Listener) (candidate : Listener) : List Listener :=
  calls.filter (· ≠ candidate)

/-- `sink::connect<Candidate>`, which disconnects the candidate first. -/
def connect (calls : List Listener) (candidate : Listener) : List Listener :=
  disconnect calls candidate ++ [candidate]

/-- `SceneGraph::init`. -/
def init (g : Signals) : Signals where
  construct := connect g.construct .onConstruct
  update := connect g.update .onUpdate
  destroy := connect g.destroy .onDestroy

/-- `SceneGraph::disconnectOnConstruct`. -/
def disconnectOnConstruct (g : Signals) (disable : Bool) : Signals :=
  if disable then { g with construct := disconnect g.construct .onConstruct }
  else { g with construct := connect g.construct .onConstruct }

/-- `sigh::publish` of `on_construct<Hierarchy>`. -/
def publishConstruct (fuel : Nat) (g : Signals) (r : Registry (Components V)) (e : Handle) :
    Except Fault (Registry (Components V)) :=
  g.construct.foldlM (fun r call => match call with
    | .onConstruct => Hierarchy.onConstruct fuel r e
    | .onUpdate => Hierarchy.onUpdate r e
    | .onDestroy => Hierarchy.onDestroy r e) r

/-- Every listener is connected exactly once, and to its own signal. -/
def Once (g : Signals) : Prop :=
  g.construct = [.onConstruct] ∧ g.update = [.onUpdate] ∧ g.destroy = [.onDestroy]

/-- The signals of a scene: `connected` says whether `onConstruct` is connected. -/
structure Of (g : Signals) (s : Scene V) : Prop where
  construct : g.construct = if s.connected then [.onConstruct] else []
  update : g.update = [.onUpdate]
  destroy : g.destroy = [.onDestroy]

/-- Connecting twice connects once. -/
theorem Of.disconnectOnConstruct {g : Signals} {s : Scene V} (h : g.Of s) (disable : Bool) :
    (g.disconnectOnConstruct disable).Of (s.disconnectOnConstruct disable) := by
  have hdis : disconnect g.construct .onConstruct = [] := by
    rw [h.construct]
    split
    · rfl
    · rfl
  cases disable with
  | false => exact ⟨by simp [Signals.disconnectOnConstruct, connect, hdis,
      Scene.disconnectOnConstruct], h.update, h.destroy⟩
  | true => exact ⟨by simp [Signals.disconnectOnConstruct, hdis, Scene.disconnectOnConstruct],
      h.update, h.destroy⟩

/-- What the signal publishes is the hook of the scene. -/
theorem Of.publishConstruct {g : Signals} {s : Scene V} (h : g.Of s) (fuel : Nat) :
    g.publishConstruct fuel = s.hook fuel := by
  funext r e
  rw [Signals.publishConstruct, h.construct, Scene.hook]
  split
  · rw [List.foldlM_cons]
    cases Hierarchy.onConstruct fuel r e with
    | error fault => rfl
    | ok r' => rfl
  · rfl

end Signals

/-! ### Files -/

/-- The pools that are saved. -/
inductive Pool where
  | hierarchy
  | name
  | other (k : Kind)
  deriving DecidableEq, Repr

/-- `ALL_COMPONENTS`. -/
def allComponents : List Pool :=
  [.other .transform, .name, .other .active, .hierarchy, .other .camera, .other .light,
    .other .cameraController, .other .model, .other .meshRenderer, .other .environment]

/-- A component as it is saved. -/
inductive Saved (V : Type) where
  | hierarchy (h : Hierarchy)
  | name (name : String)
  | other (k : Kind) (v : V)

namespace Saved

def pool : Saved V → Pool
  | hierarchy _ => .hierarchy
  | name _ => .name
  | other k _ => .other k

end Saved

/-- The construction of a component in the pool constructs a `Transform` as well. -/
def Pool.needsTransform : Pool → Bool
  | other k => Components.needsTransform k
  | _ => false

namespace Registry

/-- The component of `e` in a pool. -/
def component (r : Registry (Components V)) (p : Pool) (e : Handle) : Option (Saved V) :=
  match p with
  | .hierarchy => (r.hierarchy e).map .hierarchy
  | .name => ((r.transform e).bind Components.name).map .name
  | .other k => ((r.transform e).bind fun c => c.other k).map (.other k)

end Registry

namespace Entities

/-- `registry.assign` of all identifiers of `s`: the list of destroyed slots is made
anew, in the order of the slots. -/
def assign (s : Entities) : Entities where
  versions := s.versions
  destroyed := (List.range s.versions.length).reverse.filter (· ∈ s.destroyed)
  nodup := (List.nodup_reverse.mpr List.nodup_range).filter _
  inRange := by
    intro i hi
    exact List.mem_range.mp (List.mem_reverse.mp (List.mem_of_mem_filter hi))

theorem assign_valid (s : Entities) (x : Handle) : s.assign.Valid x ↔ s.Valid x := by
  refine and_congr_right fun hx => not_congr ?_
  have hlt : x.index < s.versions.length := (List.getElem?_eq_some_iff.mp hx).1
  simp [assign, hlt]

theorem mem_alive (s : Entities) (x : Handle) : x ∈ s.alive ↔ s.Valid x := by
  obtain ⟨i, v⟩ := x
  simp only [alive, List.mem_filterMap, List.mem_reverse, List.mem_range, Valid]
  constructor
  · rintro ⟨j, hj, hx⟩
    split at hx
    · cases hx
    · next hnot =>
        obtain ⟨w, hw, heq⟩ := Option.map_eq_some_iff.mp hx
        obtain ⟨rfl, rfl⟩ := Handle.mk.inj heq
        exact ⟨hw, hnot⟩
  · rintro ⟨hv, hi⟩
    refine ⟨i, (List.getElem?_eq_some_iff.mp hv).1, ?_⟩
    rw [if_neg hi, hv]
    rfl

theorem nodup_alive (s : Entities) : s.alive.Nodup := by
  refine List.Nodup.filterMap ?_ (List.nodup_reverse.mpr List.nodup_range)
  intro i j x hi hj
  have hindex : ∀ k, x ∈ (if k ∈ s.destroyed then none else s.versions[k]?.map (Handle.mk k)) →
      x.index = k := by
    intro k hk
    split at hk
    · exact absurd hk nofun
    · obtain ⟨w, -, rfl⟩ := Option.map_eq_some_iff.mp hk
      rfl
  exact (hindex i hi).symm.trans (hindex j hj)

end Entities

namespace Serialization

/-- `Serialization::serialize`. -/
def serialize (scene : Scene V) (disk : Scene.Disk V) : Scene.Disk V :=
  Function.update disk scene.filePath (some scene.snapshot)

/-- What `snapshot.component<ALL_COMPONENTS>` writes: `order` is the order of the
entities in each pool. -/
def components (order : Pool → List Handle) (r : Registry (Components V)) :
    List (Handle × Saved V) :=
  allComponents.flatMap fun p => (order p).filterMap fun e => (r.component p e).map (e, ·)

section

variable (initial : Kind → V)

/-- `emplace` of a component that was read; `hook` is the listener of
`on_construct<Hierarchy>`. The loader creates an entity that is missing, but all
are there. -/
def emplace (hook : Registry (Components V) → Handle → Except Fault (Registry (Components V)))
    (r : Registry (Components V)) : Handle × Saved V → Except Fault (Registry (Components V))
  | (e, .hierarchy h) => r.emplace hook e h
  | (e, .name n) =>
    (r.tryGetTransform e).bind fun c =>
      if (c.bind Components.name).isSome then .error .assertion
      else .ok (r.putTransform e { c.getD {} with name := some n })
  | (e, .other k v) =>
    (r.tryGetTransform e).bind fun c =>
      if (c.bind fun c => c.other k).isSome then .error .assertion
      else .ok (r.putTransform e ((c.getD {}).emplace initial k v))

/-- `snapshot_loader`, which wants an empty registry. -/
def restore (hook : Registry (Components V) → Handle → Except Fault (Registry (Components V)))
    (order : Pool → List Handle) (saved r : Registry (Components V)) :
    Except Fault (Registry (Components V)) :=
  if r.entities.alive = [] then
    (components order saved).foldlM (emplace initial hook)
      { r with entities := saved.entities.assign }
  else .error .assertion

/-- `Serialization::loadScene`. A missing file and a failed assertion count as
exceptions here. -/
def loadScene (order : Pool → List Handle) (disk : Scene.Disk V) (fuel : Nat) (file : String)
    (scene : Scene V) : LoadResult V :=
  match disk file with
  | none => ⟨true, scene.name, scene.version, scene.registry⟩
  | some saved =>
    match restore initial (scene.hook fuel) order saved.registry scene.registry with
    | .error _ => ⟨true, saved.name, saved.version, scene.registry⟩
    | .ok r => ⟨false, saved.name, saved.version, r⟩

end

/-! ### Restoring one component -/

end Serialization

namespace Components

theorem emplace_name (initial : Kind → V) (c : Components V) (k : Kind) (v : V) :
    (c.emplace initial k v).name = c.name := by
  unfold emplace
  simp only
  split
  · rfl
  · rfl

/-- The component and, if it needs one and there is none, a `Transform`. -/
theorem emplace_other (initial : Kind → V) (c : Components V) (k : Kind) (v : V) (k' : Kind) :
    (c.emplace initial k v).other k' =
      if k' = k then some v
      else if k' = .transform ∧ needsTransform k ∧ c.other .transform = none then
        some (initial .transform)
      else c.other k' := by
  unfold emplace
  simp only
  split
  · next hneeds =>
      have hk : Kind.transform ≠ k := fun heq => by simp [← heq, needsTransform] at hneeds
      rw [Function.update_of_ne hk] at hneeds
      by_cases hk' : k' = .transform
      · subst hk'
        simp [hk, hneeds]
      · by_cases hkk : k' = k
        · simp [hkk, Ne.symm hk]
        · simp [hk', hkk]
  · next hneeds =>
      by_cases hkk : k' = k
      · simp [hkk]
      · have hsame : Function.update c.other k (some v) k' = c.other k' :=
          Function.update_of_ne hkk ..
        rw [if_neg hkk, if_neg]
        · exact hsame
        rintro ⟨rfl, hn, hnone⟩
        exact hneeds ⟨hn, by rw [Function.update_of_ne hkk, hnone]⟩

end Components

namespace Serialization

theorem component_pool {r : Registry (Components V)} {p : Pool} {e : Handle} {c : Saved V}
    (h : r.component p e = some c) : c.pool = p := by
  cases p with
  | hierarchy =>
      obtain ⟨_, -, rfl⟩ := Option.map_eq_some_iff.mp h
      rfl
  | name =>
      obtain ⟨_, -, rfl⟩ := Option.map_eq_some_iff.mp h
      rfl
  | other k =>
      obtain ⟨_, -, rfl⟩ := Option.map_eq_some_iff.mp h
      rfl

/-- The component that is read does not stand in the way of another one in the pool
`p` of `x`. -/
def Apart (e : Handle) (c : Saved V) (p : Pool) (x : Handle) : Prop :=
  x = e → p ≠ c.pool ∧ ¬ (p = .other .transform ∧ c.pool.needsTransform)

/-- What restoring the component `c` of `e` does. -/
structure Emplaced (r r' : Registry (Components V)) (e : Handle) (c : Saved V) : Prop where
  entities : r'.entities = r.entities
  live : ∀ x, (r'.transform x).isSome → x = e ∨ (r.transform x).isSome
  self : r'.component c.pool e = some c
  apart : ∀ p x, Apart e c p x → r'.component p x = r.component p x
  kept : ∀ p x d, r.component p x = some d → r'.component p x = some d

/-- A change of the record of the other components of `e`, from `t` to `t'`. -/
theorem Emplaced.of_putTransform {r : Registry (Components V)} {e : Handle} {c : Saved V}
    {t t' : Components V} (ht : (r.transform e).getD {} = t)
    (hself : (r.putTransform e t').component c.pool e = some c)
    (hname : Pool.name ≠ c.pool → t'.name = t.name)
    (hother : ∀ k, Apart e c (.other k) e → t'.other k = t.other k)
    (hkept : ∀ k v, t.other k = some v → t'.other k = some v)
    (hkept' : ∀ n, t.name = some n → t'.name = some n) :
    Emplaced r (r.putTransform e t') e c := by
  have hbind : ∀ {α : Type} (f : Components V → Option α), f {} = none →
      (r.transform e).bind f = f t := by
    intro α f hf
    rw [← ht]
    cases r.transform e with
    | none => exact hf.symm
    | some c => rfl
  have hbind' : ∀ {α : Type} (f : Components V → Option α),
      ((r.putTransform e t').transform e).bind f = f t' := by
    intro α f
    simp [putTransform]
  have hne : ∀ {x}, x ≠ e → (r.putTransform e t').transform x = r.transform x := fun hx =>
    Function.update_of_ne hx ..
  refine ⟨rfl, fun x hx => ?_, hself, fun p x hap => ?_, fun p x d hd => ?_⟩
  · by_cases hxe : x = e
    · exact Or.inl hxe
    · rw [hne hxe] at hx
      exact Or.inr hx
  · by_cases hxe : x = e
    · subst hxe
      cases p with
      | hierarchy => rfl
      | name => rw [component, component, hbind', hbind _ rfl, hname (hap rfl).1]
      | other k => rw [component, component, hbind', hbind _ rfl, hother k hap]
    · cases p with
      | hierarchy => rfl
      | name => rw [component, component, hne hxe]
      | other k => rw [component, component, hne hxe]
  · by_cases hxe : x = e
    · subst hxe
      cases p with
      | hierarchy => exact hd
      | name =>
          rw [component, hbind _ rfl] at hd
          obtain ⟨n, hn, rfl⟩ := Option.map_eq_some_iff.mp hd
          rw [component, hbind', hkept' n hn]
          rfl
      | other k =>
          rw [component, hbind _ rfl] at hd
          obtain ⟨v, hv, rfl⟩ := Option.map_eq_some_iff.mp hd
          rw [component, hbind', hkept k v hv]
          rfl
    · rw [← hd]
      cases p with
      | hierarchy => rfl
      | name => rw [component, component, hne hxe]
      | other k => rw [component, component, hne hxe]

/-- **Restoring one component** into an empty place, with the hook silent. -/
theorem emplace_eq (initial : Kind → V)
    {hook : Registry (Components V) → Handle → Except Fault (Registry (Components V))}
    (hsilent : ∀ r e, hook r e = .ok r) {r : Registry (Components V)} {e : Handle} {c : Saved V}
    (hv : r.Valid e) (hnone : r.component c.pool e = none) :
    ∃ r', emplace initial hook r (e, c) = .ok r' ∧ Emplaced r r' e c := by
  cases c with
  | hierarchy h =>
      have hhier : r.hierarchy e = none := by simpa [Saved.pool, component] using hnone
      refine ⟨r.put e h, ?_, rfl, fun x hx => Or.inr hx, ?_, fun p x hap => ?_, fun p x d hd => ?_⟩
      · rw [emplace, Registry.emplace, tryGet_of_valid hv, hhier]
        exact hsilent _ _
      · simp [component, Saved.pool, put]
      · cases p with
        | hierarchy =>
            have hxe : x ≠ e := fun heq => (hap heq).1 rfl
            simp [component, put, hxe]
        | name => rfl
        | other k => rfl
      · cases p with
        | hierarchy =>
            have hxe : x ≠ e := by
              intro heq
              rw [heq, show r.component .hierarchy e = none from hnone] at hd
              cases hd
            simpa [component, put, hxe] using hd
        | name => exact hd
        | other k => exact hd
  | name n =>
      have hname : (r.transform e).bind Components.name = none := by
        simpa [Saved.pool, component] using hnone
      refine ⟨r.putTransform e { (r.transform e).getD {} with name := some n }, ?_,
        Emplaced.of_putTransform rfl ?_ (absurd rfl) (fun _ _ => rfl) (fun _ _ => id) ?_⟩
      · simp [emplace, tryGetTransform_of_valid hv, Except.bind, hname]
      · simp [component, Saved.pool, putTransform]
      · intro m hm
        cases ht : r.transform e with
        | none => simp [ht] at hm
        | some t =>
            rw [ht] at hname hm
            cases hname.symm.trans hm
  | other k v =>
      have hother : (r.transform e).bind (fun c => c.other k) = none := by
        simpa [Saved.pool, component] using hnone
      have hempty : ((r.transform e).getD {}).other k = none := by
        cases ht : r.transform e with
        | none => rfl
        | some t =>
            rw [ht] at hother
            exact hother
      refine ⟨r.putTransform e (((r.transform e).getD {}).emplace initial k v), ?_,
        Emplaced.of_putTransform rfl ?_ (fun _ => Components.emplace_name ..) ?_ ?_ ?_⟩
      · simp [emplace, tryGetTransform_of_valid hv, Except.bind, hother]
      · simp [component, Saved.pool, putTransform, Components.emplace_other]
      · intro k' hap
        obtain ⟨hne, hdep⟩ := hap rfl
        have hk : k' ≠ k := fun heq => hne (by rw [heq]; rfl)
        rw [Components.emplace_other, if_neg hk, if_neg]
        exact fun hneeds => hdep ⟨by rw [hneeds.1], hneeds.2.1⟩
      · intro k' w hw
        rw [Components.emplace_other, if_neg fun heq => by simp [heq, hempty] at hw, if_neg]
        · exact hw
        · rintro ⟨rfl, -, hnone⟩
          cases hw.symm.trans hnone
      · intro n hn
        rw [Components.emplace_name, hn]

/-! ### Restoring all components -/

/-- `order` lists the entities of every pool of `r`. -/
structure PoolOrder (r : Registry (Components V)) (order : Pool → List Handle) : Prop where
  nodup : ∀ p, (order p).Nodup
  mem : ∀ p e, e ∈ order p ↔ (r.component p e).isSome

theorem mem_allComponents (p : Pool) : p ∈ allComponents := by
  cases p with
  | hierarchy => decide
  | name => decide
  | other k => cases k <;> decide

/-- The file holds exactly the components of the registry. -/
theorem mem_components {r : Registry (Components V)} {order : Pool → List Handle}
    (ho : PoolOrder r order) {e : Handle} {c : Saved V} :
    (e, c) ∈ components order r ↔ r.component c.pool e = some c := by
  simp only [components, List.mem_flatMap, List.mem_filterMap, Option.map_eq_some_iff]
  refine ⟨fun ⟨p, _, x, _, d, hd, heq⟩ => ?_, fun hc => ?_⟩
  · obtain ⟨rfl, rfl⟩ := Prod.mk.inj heq
    rw [component_pool hd]
    exact hd
  · exact ⟨c.pool, mem_allComponents c.pool, e, (ho.mem c.pool e).mpr (by simp [hc]), c, hc, rfl⟩

/-- The file holds no pool twice, and the `Transform`s come first. -/
theorem components_apart {r : Registry (Components V)} {order : Pool → List Handle}
    (ho : PoolOrder r order) :
    (components order r).Pairwise fun a b => Apart a.1 a.2 b.2.pool b.1 := by
  have hitem : ∀ {p x} {a : Handle × Saved V}, (r.component p x).map (x, ·) = some a →
      a.1 = x ∧ a.2.pool = p := by
    intro p x a ha
    obtain ⟨c, hc, rfl⟩ := Option.map_eq_some_iff.mp ha
    exact ⟨rfl, component_pool hc⟩
  refine List.pairwise_flatMap.mpr ⟨fun p _ => ?_, ?_⟩
  · refine List.pairwise_filterMap.mpr ((ho.nodup p).imp fun hne a ha b hb heq => ?_)
    exact absurd ((hitem ha).1.symm.trans (heq.symm.trans (hitem hb).1)) hne
  · have hpools : allComponents.Pairwise fun p q => q ≠ p ∧ q ≠ .other .transform := by decide
    refine hpools.imp fun hpq a ha b hb _ => ?_
    obtain ⟨x, -, ha⟩ := List.mem_filterMap.mp ha
    obtain ⟨y, -, hb⟩ := List.mem_filterMap.mp hb
    rw [(hitem ha).2, (hitem hb).2]
    exact ⟨hpq.1, fun hn => hpq.2 hn.1⟩

/-- The components `rest` are still to be restored; the others have been. -/
structure Restoring (saved r : Registry (Components V)) (rest : List (Handle × Saved V)) :
    Prop where
  entities : r.entities = saved.entities.assign
  live : ∀ x, (r.transform x).isSome → r.Valid x
  from_saved : ∀ e c, (e, c) ∈ rest → saved.component c.pool e = some c
  empty : ∀ e c, (e, c) ∈ rest → r.component c.pool e = none
  apart : rest.Pairwise fun a b => Apart a.1 a.2 b.2.pool b.1
  done : ∀ p x c, saved.component p x = some c → (x, c) ∈ rest ∨ r.component p x = some c
  /-- nothing is added but a `Transform` -/
  absent : ∀ p x, p ≠ .other .transform → saved.component p x = none → r.component p x = none

variable {saved : Registry (Components V)} {kids : Handle → List Handle}

/-- A component belongs to a live entity. -/
theorem valid_of_component (h : Forest saved kids) {p : Pool} {e : Handle} {c : Saved V}
    (hc : saved.component p e = some c) : saved.Valid e := by
  cases p with
  | hierarchy =>
      obtain ⟨x, hx, -⟩ := Option.map_eq_some_iff.mp hc
      exact h.live e (by simp [Has, hx])
  | name =>
      obtain ⟨x, hx, -⟩ := Option.map_eq_some_iff.mp hc
      obtain ⟨t, ht, -⟩ := Option.bind_eq_some_iff.mp hx
      exact h.transform_live e (by simp [ht])
  | other k =>
      obtain ⟨x, hx, -⟩ := Option.map_eq_some_iff.mp hc
      obtain ⟨t, ht, -⟩ := Option.bind_eq_some_iff.mp hx
      exact h.transform_live e (by simp [ht])

section

variable (initial : Kind → V)
  {hook : Registry (Components V) → Handle → Except Fault (Registry (Components V))}
  (hsilent : ∀ r e, hook r e = .ok r)

include hsilent

/-- **One component** of the file. -/
theorem Restoring.step (h : Forest saved kids) {r : Registry (Components V)} {e : Handle}
    {c : Saved V} {rest : List (Handle × Saved V)} (hr : Restoring saved r ((e, c) :: rest)) :
    ∃ r', emplace initial hook r (e, c) = .ok r' ∧ Restoring saved r' rest := by
  have hsaved := hr.from_saved e c (by simp)
  have hv : r.Valid e := by
    rw [Registry.Valid, hr.entities]
    exact (Entities.assign_valid saved.entities e).mpr (valid_of_component h hsaved)
  obtain ⟨r', hrun, hem⟩ := emplace_eq initial hsilent hv (hr.empty e c (by simp))
  obtain ⟨hap, hapart⟩ := List.pairwise_cons.mp hr.apart
  have hvalid : ∀ x, r'.Valid x ↔ r.Valid x := fun x => by
    rw [Registry.Valid, hem.entities, Registry.Valid]
  refine ⟨r', hrun, hem.entities.trans hr.entities, fun x hx => (hvalid x).mpr ?_,
    fun x d hd => hr.from_saved x d (List.mem_cons_of_mem _ hd), fun x d hd => ?_, hapart,
    fun p x d hd => ?_, fun p x hp hnone => ?_⟩
  · rcases hem.live x hx with heq | hx
    · exact heq ▸ hv
    · exact hr.live x hx
  · rw [hem.apart d.pool x (hap (x, d) hd)]
    exact hr.empty x d (List.mem_cons_of_mem _ hd)
  · rcases hr.done p x d hd with hmem | hdone
    · rcases List.mem_cons.mp hmem with heq | hmem
      · obtain ⟨rfl, rfl⟩ := Prod.mk.inj heq
        rw [← component_pool hd]
        exact Or.inr hem.self
      · exact Or.inl hmem
    · exact Or.inr (hem.kept p x d hdone)
  · rw [hem.apart p x fun heq => ⟨fun hpool => ?_, fun htr => hp htr.1⟩]
    · exact hr.absent p x hp hnone
    · rw [hpool, heq, hsaved] at hnone
      cases hnone

/-- **All components** of the file. -/
theorem Restoring.all (h : Forest saved kids) {r : Registry (Components V)}
    {rest : List (Handle × Saved V)} (hr : Restoring saved r rest) :
    ∃ r', rest.foldlM (emplace initial hook) r = .ok r' ∧ Restoring saved r' [] := by
  induction rest generalizing r with
  | nil => exact ⟨r, rfl, hr⟩
  | cons item rest ih =>
      obtain ⟨e, c⟩ := item
      obtain ⟨r₁, hrun, hr₁⟩ := hr.step initial hsilent h
      obtain ⟨r', hrest, hr'⟩ := ih hr₁
      refine ⟨r', ?_, hr'⟩
      rw [List.foldlM_cons, hrun]
      exact hrest

/-- **The loader** on a registry without components. -/
theorem restore_eq (h : Forest saved kids) {order : Pool → List Handle}
    (ho : PoolOrder saved order) {r : Registry (Components V)} (halive : r.entities.alive = [])
    (hhier : ∀ x, r.hierarchy x = none) (htransform : ∀ x, r.transform x = none) :
    ∃ r', restore initial hook order saved r = .ok r' ∧ Restoring saved r' [] := by
  have hnone : ∀ p x, ({ r with entities := saved.entities.assign } :
      Registry (Components V)).component p x = none := by
    intro p x
    cases p with
    | hierarchy => simp [component, hhier]
    | name => simp [component, htransform]
    | other k => simp [component, htransform]
  rw [restore, if_pos halive]
  refine Restoring.all initial hsilent h ⟨rfl, fun x hx => ?_, fun e c hc => ?_,
    fun e c _ => hnone c.pool e, components_apart ho, fun p x c hc => Or.inl ?_,
    fun p x _ _ => hnone p x⟩
  · simp [htransform] at hx
  · exact (mem_components ho).mp hc
  · rw [mem_components ho, component_pool hc]
    exact hc

end

/-- The links are those of the saved hierarchy. -/
theorem Restoring.hierarchy {r : Registry (Components V)} (hr : Restoring saved r []) :
    r.hierarchy = saved.hierarchy := by
  funext x
  cases hx : saved.hierarchy x with
  | none =>
      have hnone := hr.absent .hierarchy x nofun (by simp [component, hx])
      simpa [component] using hnone
  | some c =>
      rcases hr.done .hierarchy x (.hierarchy c) (by simp [component, hx]) with hmem | hdone
      · exact absurd hmem List.not_mem_nil
      · simpa [component] using hdone

end Serialization

/-! ### Operations of a scene -/

namespace Scene

/-- The operations of the hierarchy, on a scene. -/
def applyOp (fuel : Nat) (s : Scene V) : SceneOp (Components V) → Except Fault (Scene V)
  | .create t => s.edit fun r => (r.create t).map Prod.snd
  | .setParent e p => s.setParent fuel e p
  | .dropOnHeader e => s.dropOnHeader e
  | .dropOnNode e p => s.dropOnNode fuel e p
  | .dropOnEmptySpace e => s.dropOnEmptySpace e
  | .destroyEntity e => s.destroyEntity fuel e

/-- With the hook connected they are those of the registry. -/
theorem applyOp_eq {s : Scene V} (hconn : s.connected = true) (fuel : Nat)
    (op : SceneOp (Components V)) : s.applyOp fuel op = s.edit fun r => op.apply fuel r := by
  have hhook := hook_connected hconn fuel
  cases op with
  | create t => rfl
  | setParent e p =>
      simp only [applyOp, Scene.setParent, edit, SceneOp.apply, Entity.setParent, hhook]
      cases s.registry.tryGet e with
      | error fault => rfl
      | ok c =>
          cases c with
          | some c => rfl
          | none =>
              by_cases hne : p = e
              · simp [Except.bind, Except.map, Entity.acceptable, hne]
              · simp [Except.bind, Entity.acceptable, hne]
  | dropOnHeader e => rfl
  | dropOnNode e p =>
      simp only [applyOp, Scene.dropOnNode, edit, SceneOp.apply, hhook]
      congr 1
      cases htry : s.registry.tryGet e with
      | error fault => simp only [HierarchyWindow.dropOnNode, htry, Except.bind]
      | ok c =>
          cases c with
          | some c => rfl
          | none =>
              by_cases hne : e = p
              · subst hne
                simp [HierarchyWindow.dropOnNode, HierarchyWindow.acceptable, htry, Except.bind]
              · simp [HierarchyWindow.dropOnNode, HierarchyWindow.acceptable, htry, Except.bind,
                  hne]
  | dropOnEmptySpace e => rfl
  | destroyEntity e => rfl

/-- A safe operation on a scene, as a step. -/
def OpStep (s : Scene V) (op : SceneOp (Components V)) (s' : Scene V) : Prop :=
  op.Admissible s.registry ∧ op.Safe s.registry ∧
    Settles (fun fuel => s.applyOp fuel op) (.ok s')

/-- The hook is connected and the hierarchy is well formed. -/
def InOrder (s : Scene V) : Prop := s.connected = true ∧ ∃ kids, Forest s.registry kids

/-- **Every safe operation ends**, and leaves the scene in order. -/
theorem InOrder.exists_step {s : Scene V} (h : s.InOrder) {op : SceneOp (Components V)}
    (hadm : op.Admissible s.registry) (hsafe : op.Safe s.registry) :
    ∃ s', OpStep s op s' ∧ s'.InOrder := by
  obtain ⟨hconn, kids, h⟩ := h
  obtain ⟨event, r', kids', hstep, h', -⟩ := SceneOp.exists_forest h hadm hsafe
  refine ⟨{ s with registry := r' }, ⟨hadm, hsafe, ?_⟩, hconn, kids', h'⟩
  exact (hstep.apply.comp (Except.map fun r => { s with registry := r })).congr
    fun fuel => applyOp_eq hconn fuel op

/-- **Every run** of safe operations keeps the scene in order. -/
theorem InOrder.run {s s' : Scene V} {ops : List (SceneOp (Components V))} (h : s.InOrder)
    (hrun : Run OpStep s ops s') : s'.InOrder := by
  refine hrun.state_invariant h fun t op u ht hstep => ?_
  obtain ⟨u', hstep', hu'⟩ := ht.exists_step hstep.1 hstep.2.1
  obtain rfl := Except.ok.inj (hstep.2.2.unique hstep'.2.2)
  exact hu'

/-! ### Loading -/

/-- **`clear`** leaves no entity and no component. -/
theorem clear_eq {r : Registry (Components V)} {kids : Handle → List Handle} (h : Forest r kids) :
    ∃ r', clear r = .ok r' ∧ r'.entities.alive = [] ∧ (∀ x, r'.hierarchy x = none) ∧
      ∀ x, r'.transform x = none := by
  obtain ⟨r', hrun, hback, hrel, htr⟩ := h.backlinked.destroyAll r.entities.nodup_alive
    fun x hx => (r.entities.mem_alive x).mp hx
  have hdead : ∀ x, ¬ r'.Valid x := by
    intro x hx
    obtain ⟨hnot, hv⟩ := (hrel.valid x).mp hx
    exact hnot ((r.entities.mem_alive x).mpr hv)
  refine ⟨r', hrun, ?_, fun x => ?_, fun x => ?_⟩
  · exact List.eq_nil_iff_forall_not_mem.mpr fun x hx => hdead x ((r'.entities.mem_alive x).mp hx)
  · exact Option.not_isSome_iff_eq_none.mp fun hsome => hdead x (hback.live x hsome)
  · refine Option.not_isSome_iff_eq_none.mp fun hsome => ?_
    obtain ⟨hnot, hsome⟩ := htr x hsome
    exact hnot ((r.entities.mem_alive x).mpr (h.transform_live x hsome))

/-- What a scene is after it was saved and loaded again. -/
structure Reloaded (s s' : Scene V) (kids : Handle → List Handle) : Prop where
  valid : ∀ x, s'.registry.Valid x ↔ s.registry.Valid x
  hierarchy : s'.registry.hierarchy = s.registry.hierarchy
  /-- the other components that are saved have their values -/
  components : ∀ p x c, s.registry.component p x = some c → s'.registry.component p x = some c
  forest : Forest s'.registry kids
  /-- the listeners are connected once, and are the hook of the scene -/
  signals : ∀ g : Signals, g.Of s →
    ((g.disconnectOnConstruct true).disconnectOnConstruct false).Once ∧
      ((g.disconnectOnConstruct true).disconnectOnConstruct false).Of s'
  /-- every later run keeps the hierarchy well formed, and can go on -/
  later : ∀ ops s'', Run OpStep s' ops s'' →
    (∃ kids', Forest s''.registry kids') ∧
      ∀ op, SceneOp.Admissible s''.registry op → op.Safe s''.registry → ∃ t, OpStep s'' op t

/-- **The hierarchy survives save and load**, whatever the order of the entities in the
pools is. -/
theorem load_restores_hierarchy (initial : Kind → V) {s : Scene V} {kids : Handle → List Handle}
    (h : Forest s.registry kids) (hpath : s.filePath ≠ "") {order : Pool → List Handle}
    (ho : Serialization.PoolOrder s.registry order) (disk : Disk V) (fuel : Nat) :
    ∃ s', s.loadFrom (Serialization.loadScene initial order (Serialization.serialize s disk)
        fuel) = (.returned, s') ∧ Reloaded s s' kids := by
  obtain ⟨r₁, hclear, halive, hhier, htransform⟩ := clear_eq h
  -- during the load the hook is silent
  let s₁ : Scene V := { s with registry := r₁, connected := false }
  have hsilent : ∀ r e, s₁.hook fuel r e = .ok r := fun r e => if_neg nofun
  obtain ⟨r', hrestore, hr⟩ := Serialization.restore_eq initial hsilent h ho halive hhier
    htransform
  have hload : Serialization.loadScene initial order (Serialization.serialize s disk) fuel
      s₁.filePath s₁ = ⟨false, s.name, 1, r'⟩ := by
    have hfile : Serialization.serialize s disk s₁.filePath = some s.snapshot :=
      Function.update_self ..
    have hrun : Serialization.restore initial (s₁.hook fuel) order s.snapshot.registry
        s₁.registry = .ok r' := hrestore
    simp only [Serialization.loadScene, hfile, hrun]
    rfl
  have hvalid : ∀ x, r'.Valid x ↔ s.registry.Valid x := by
    intro x
    rw [Registry.Valid, hr.entities]
    exact Entities.assign_valid s.registry.entities x
  have hlink : ∀ l, r'.link l = s.registry.link l := by
    intro l
    funext x
    rw [link, link, hr.hierarchy]
  have hforest : Forest r' kids := by
    refine h.of_links hlink (fun x hx => (hvalid x).mpr (h.live x ?_)) hr.live
    rwa [Has, hr.hierarchy] at hx
  let s' : Scene V := { s with name := s.name, version := 1, registry := r', connected := true }
  have horder : s'.InOrder := ⟨rfl, kids, hforest⟩
  refine ⟨s', ?_, hvalid, hr.hierarchy, fun p x c hc => ?_, hforest, fun g hg => ?_,
    fun ops s'' hrun => ?_⟩
  · rw [loadFrom, if_pos hpath, hclear]
    have hsame : disconnectOnConstruct { s with registry := r₁ } true = s₁ := rfl
    simp only [hsame, hload]
    rfl
  · exact (hr.done p x c hc).resolve_left List.not_mem_nil
  · have hof := (hg.disconnectOnConstruct true).disconnectOnConstruct false
    exact ⟨⟨hof.construct, hof.update, hof.destroy⟩, hof.construct, hof.update, hof.destroy⟩
  · have hrest := horder.run hrun
    refine ⟨hrest.2, fun op hadm hsafe => ?_⟩
    obtain ⟨t, hstep, -⟩ := hrest.exists_step hadm hsafe
    exact ⟨t, hstep⟩

/-- A saved scene with a parent and its child. -/
def savedPair : Scene Unit where
  name := "level"
  filePath := "level.scene"
  version := 0
  dirty := false
  connected := true
  registry := parentAndChild none none

/-- The child stands before its parent. -/
def childFirst : Pool → List Handle
  | .hierarchy => [⟨1, 0⟩, ⟨0, 0⟩]
  | _ => []

theorem poolOrder_childFirst : Serialization.PoolOrder savedPair.registry childFirst := by
  have htransform : ∀ e, savedPair.registry.transform e = none := by
    intro e
    simp [savedPair, parentAndChild, put, twoEntities]
  refine ⟨fun p => ?_, fun p e => ?_⟩
  · cases p with
    | hierarchy => decide
    | name => exact List.nodup_nil
    | other k => exact List.nodup_nil
  · cases p with
    | hierarchy =>
        have hhas : savedPair.registry.Has e ↔ e = ⟨1, 0⟩ ∨ e = ⟨0, 0⟩ := by
          have hnot : ¬ (twoEntities none none : Registry (Components Unit)).Has e := by
            simp [Has, twoEntities]
          rw [savedPair, parentAndChild, has_put, has_put, or_iff_left hnot]
        rw [component, Option.isSome_map, childFirst, List.mem_cons, List.mem_singleton]
        exact hhas.symm
    | name => simp [childFirst, component, htransform]
    | other k => simp [childFirst, component, htransform]

/-- The child is restored before its parent. -/
theorem load_restores_hierarchy_child_first : ∃ s',
    savedPair.loadFrom (Serialization.loadScene (fun _ => ()) childFirst
        (Serialization.serialize savedPair fun _ => none) 0) = (.returned, s') ∧
      Reloaded savedPair s' (Function.update (fun _ => []) ⟨0, 0⟩ [⟨1, 0⟩]) :=
  load_restores_hierarchy (fun _ => ()) (forest_parentAndChild none none) (by decide)
    poolOrder_childFirst (fun _ => none) 0

end Scene

end Maple
