import Mathlib.Data.List.Nodup
import Mathlib.Logic.Function.Basic

/-!
# Maple.Scene.Registry

The parts of `entt::basic_registry` (EnTT 3.5, `lib/entt`) that the scene
hierarchy uses: entity identifiers with versions, and the component pools for
`Hierarchy` and for one further component, which the scene graph instantiates
with `Transform`.

A handle carries a slot index and a version. A destroyed slot is kept in a list
of free slots and is reused with its version counted up, modulo the twelve bits
of the version field. The null handle `entt::null` is `none` wherever a link or
an argument may be null.

Every access asserts that the handle is valid (`ENTT_ASSERT`), and a reference
to a component that is not there is an error as well: both are faults here, as
is running out of fuel in a loop.
-/

namespace Maple

/-- What a call can fail with. -/
inductive Fault where
  /-- a failed `ENTT_ASSERT` -/
  | assertion
  /-- a null pointer is dereferenced -/
  | nullptr
  | outOfFuel
  deriving DecidableEq, Repr

/-- `entt::entity` other than `entt::null`. -/
structure Handle where
  index : Nat
  version : Nat
  deriving DecidableEq, Repr

/-! ### Identifiers -/

/-- The `entities` vector, with the implicit list of destroyed slots written out:
the versions of all slots ever used and the slots that are free, the most
recently destroyed one first. -/
structure Entities where
  versions : List Nat
  destroyed : List Nat
  nodup : destroyed.Nodup
  inRange : ∀ i ∈ destroyed, i < versions.length

namespace Entities

/-- `traits_type::entity_mask`; this index is reserved for the null handle. -/
def entityMask : Nat := 0xFFFFF

/-- The number of versions, `version_mask + 1`. -/
def versionCount : Nat := 0x1000

def empty : Entities := ⟨[], [], List.nodup_nil, by simp⟩

/-- `registry.valid(e)`. -/
def Valid (s : Entities) (e : Handle) : Prop :=
  s.versions[e.index]? = some e.version ∧ e.index ∉ s.destroyed

instance (s : Entities) (e : Handle) : Decidable (s.Valid e) :=
  inferInstanceAs (Decidable (_ ∧ _))

/-- `registry.create()`. -/
def create (s : Entities) : Except Fault (Handle × Entities) :=
  match h : s.destroyed with
  | [] =>
    if s.versions.length < entityMask then
      .ok (⟨s.versions.length, 0⟩, ⟨s.versions ++ [0], [], List.nodup_nil, by simp⟩)
    else .error .assertion
  | i :: rest =>
    .ok (⟨i, s.versions.getD i 0⟩, ⟨s.versions, rest, (List.nodup_cons.mp (h ▸ s.nodup)).2,
      fun j hj => s.inRange j (h ▸ List.mem_cons_of_mem i hj)⟩)

/-- The end of `registry.destroy(e)`, once the components are gone: the version
is counted up and the slot becomes the first free one. -/
def release (s : Entities) (e : Handle) (h : s.Valid e) : Entities where
  versions := s.versions.set e.index ((e.version + 1) % versionCount)
  destroyed := e.index :: s.destroyed
  nodup := List.nodup_cons.mpr ⟨h.2, s.nodup⟩
  inRange := by
    intro i hi
    rw [List.length_set]
    rcases List.mem_cons.mp hi with heq | hmem
    · rw [heq]
      exact (List.getElem?_eq_some_iff.mp h.1).1
    · exact s.inRange i hmem

/-- **`create`** returns a handle that was not valid, and makes it valid. -/
theorem create_valid {s s' : Entities} {e : Handle} (h : s.create = .ok (e, s')) :
    ¬ s.Valid e ∧ ∀ x, s'.Valid x ↔ x = e ∨ s.Valid x := by
  obtain ⟨versions, destroyed, hnodup, hrange⟩ := s
  cases destroyed with
  | nil =>
      simp only [create] at h
      split at h
      · obtain ⟨rfl, rfl⟩ := Prod.mk.inj (Except.ok.inj h)
        refine ⟨fun hv => ?_, fun x => ?_⟩
        · exact absurd hv.1 (by simp)
        · obtain ⟨i, v⟩ := x
          simp only [Valid, Handle.mk.injEq, List.not_mem_nil, not_false_eq_true, and_true,
            List.getElem?_append]
          split
          · next hi => exact ⟨Or.inr, fun hx => hx.resolve_left fun heq => by omega⟩
          · next hi =>
              rw [List.getElem?_eq_none (Nat.not_lt.mp hi), List.getElem?_singleton]
              split
              · next hz =>
                  have hi : i = versions.length := by omega
                  simp [hi, eq_comm]
              · next hz => simp; omega
      · exact absurd h (by simp)
  | cons i rest =>
      obtain ⟨rfl, rfl⟩ := Prod.mk.inj (Except.ok.inj h)
      have hi : i < versions.length := hrange i (by simp)
      have hrest : i ∉ rest := (List.nodup_cons.mp hnodup).1
      have hget : versions[i]? = some (versions.getD i 0) := by
        simp [List.getD, List.getElem?_eq_getElem hi]
      refine ⟨fun hv => hv.2 (by simp), fun x => ?_⟩
      obtain ⟨j, v⟩ := x
      simp only [Valid, Handle.mk.injEq, List.mem_cons, not_or]
      by_cases hj : j = i
      · subst hj
        simp only [hget, Option.some.injEq, hrest, not_false_eq_true, and_true, true_and,
          not_true_eq_false, and_false, or_false]
        exact eq_comm
      · simp [hj]

/-- **`release`** invalidates exactly the given handle. -/
theorem release_valid {s : Entities} {e : Handle} (h : s.Valid e) (x : Handle) :
    (s.release e h).Valid x ↔ x ≠ e ∧ s.Valid x := by
  obtain ⟨i, v⟩ := x
  simp only [Valid, release, List.mem_cons, not_or, ne_eq]
  by_cases hi : i = e.index
  · subst hi
    simp only [not_true_eq_false, false_and, and_false, false_iff, not_and]
    intro hne hv
    rw [h.1] at hv
    exact absurd (congrArg (Handle.mk e.index) (Option.some.inj hv).symm) hne
  · have hne : (⟨i, v⟩ : Handle) ≠ e := fun heq => hi (congrArg Handle.index heq)
    simp [hi, hne, List.getElem?_set_ne (Ne.symm hi)]

end Entities

/-! ### Components -/

/-- The link fields of `Hierarchy`. -/
inductive Link where
  | parent
  | first
  | next
  | prev
  deriving DecidableEq, Repr

/-- `Hierarchy`; an absent link is `entt::null`. -/
structure Hierarchy where
  parent : Option Handle := none
  first : Option Handle := none
  next : Option Handle := none
  prev : Option Handle := none
  deriving DecidableEq, Repr

namespace Hierarchy

def get (h : Hierarchy) : Link → Option Handle
  | .parent => h.parent
  | .first => h.first
  | .next => h.next
  | .prev => h.prev

/-- The assignment of one field. -/
def set (h : Hierarchy) (v : Option Handle) : Link → Hierarchy
  | .parent => { h with parent := v }
  | .first => { h with first := v }
  | .next => { h with next := v }
  | .prev => { h with prev := v }

theorem get_set (h : Hierarchy) (v : Option Handle) (l l' : Link) :
    (h.set v l).get l' = if l' = l then v else h.get l' := by
  cases l <;> cases l' <;> rfl

end Hierarchy

/-- The registry: identifiers, the `Hierarchy` pool and the pool of the component
type `T`. -/
structure Registry (T : Type) where
  entities : Entities
  hierarchy : Handle → Option Hierarchy
  transform : Handle → Option T

namespace Registry

variable {T : Type}

def empty : Registry T := ⟨.empty, fun _ => none, fun _ => none⟩

/-- `registry.valid(e)`. -/
def Valid (r : Registry T) (e : Handle) : Prop := r.entities.Valid e

instance (r : Registry T) (e : Handle) : Decidable (r.Valid e) :=
  inferInstanceAs (Decidable (r.entities.Valid e))

/-- `registry.try_get<Hierarchy>(e)`. -/
def tryGet (r : Registry T) (e : Handle) : Except Fault (Option Hierarchy) :=
  if r.Valid e then .ok (r.hierarchy e) else .error .assertion

/-- `registry.get<Hierarchy>(e)`; `sparse_set::index` asserts that the component
is there. -/
def get (r : Registry T) (e : Handle) : Except Fault Hierarchy :=
  (r.tryGet e).bind fun
    | some h => .ok h
    | none => .error .assertion

/-- `registry.try_get<Transform>(e)`. -/
def tryGetTransform (r : Registry T) (e : Handle) : Except Fault (Option T) :=
  if r.Valid e then .ok (r.transform e) else .error .assertion

/-- Store a `Hierarchy` component. -/
def put (r : Registry T) (e : Handle) (h : Hierarchy) : Registry T :=
  { r with hierarchy := Function.update r.hierarchy e (some h) }

/-- Erase a `Hierarchy` component from its pool. -/
def drop (r : Registry T) (e : Handle) : Registry T :=
  { r with hierarchy := Function.update r.hierarchy e none }

/-- Assign a field through a reference to the `Hierarchy` of `e`. -/
def assign (r : Registry T) (e : Handle) (l : Link) (v : Option Handle) : Registry T :=
  { r with hierarchy := Function.update r.hierarchy e ((r.hierarchy e).map (·.set v l)) }

/-- Store a component in the other pool. -/
def putTransform (r : Registry T) (e : Handle) (t : T) : Registry T :=
  { r with transform := Function.update r.transform e (some t) }

/-- `registry.create()`, followed by `emplace<Transform>` if there is one. -/
def create (r : Registry T) (t : Option T) : Except Fault (Handle × Registry T) :=
  r.entities.create.map fun (e, entities) =>
    (e, { r with entities := entities, transform := Function.update r.transform e t })

/-- `registry.emplace<Hierarchy>(e, h)`: `hook` is the listener of
`on_construct<Hierarchy>`, called once the component is stored. -/
def emplace (hook : Registry T → Handle → Except Fault (Registry T)) (r : Registry T)
    (e : Handle) (h : Hierarchy) : Except Fault (Registry T) :=
  (r.tryGet e).bind fun
    | some _ => .error .assertion
    | none => hook (r.put e h) e

/-- `registry.get_or_emplace<Hierarchy>(e)`, for its effect. -/
def getOrEmplace (hook : Registry T → Handle → Except Fault (Registry T)) (r : Registry T)
    (e : Handle) : Except Fault (Registry T) :=
  (r.tryGet e).bind fun
    | some _ => .ok r
    | none => r.emplace hook e {}

/-- `registry.replace<Hierarchy>(e, h)`: `hook` is the listener of
`on_update<Hierarchy>`, called once the new value is stored. -/
def replace (hook : Registry T → Handle → Except Fault (Registry T)) (r : Registry T)
    (e : Handle) (h : Hierarchy) : Except Fault (Registry T) :=
  (r.get e).bind fun _ => hook (r.put e h) e

/-- `registry.emplace_or_replace<Hierarchy>(e, h)`, with the listeners of
`on_construct` and of `on_update`. -/
def emplaceOrReplace (onConstruct onUpdate : Registry T → Handle → Except Fault (Registry T))
    (r : Registry T) (e : Handle) (h : Hierarchy) : Except Fault (Registry T) :=
  (r.tryGet e).bind fun
    | some _ => r.replace onUpdate e h
    | none => r.emplace onConstruct e h

/-- `registry.remove<Hierarchy>(e)`: `hook` is the listener of
`on_destroy<Hierarchy>`, called while the component is still there. -/
def remove (hook : Registry T → Handle → Except Fault (Registry T)) (r : Registry T)
    (e : Handle) : Except Fault (Registry T) :=
  (r.get e).bind fun _ => (hook r e).map (·.drop e)

/-- The end of `registry.destroy(e)`: the other component goes, then the
identifier is released. -/
def release (r : Registry T) (e : Handle) (h : r.Valid e) : Registry T :=
  { r with
    transform := Function.update r.transform e none
    entities := r.entities.release e h }

/-- `registry.destroy(e)`: all components are removed, then the identifier is
released. -/
def destroy (hook : Registry T → Handle → Except Fault (Registry T)) (r : Registry T)
    (e : Handle) : Except Fault (Registry T) :=
  (r.tryGet e).bind fun h =>
    (if h.isSome then r.remove hook e else .ok r).bind fun r =>
      if hv : r.Valid e then .ok (r.release e hv) else .error .assertion

/-! ### Reading links -/

/-- The link `l` of `e`; `none` also without a `Hierarchy`. -/
def link (r : Registry T) (l : Link) (e : Handle) : Option Handle :=
  (r.hierarchy e).bind (·.get l)

/-- `e` has a `Hierarchy`. -/
def Has (r : Registry T) (e : Handle) : Prop := (r.hierarchy e).isSome

theorem tryGet_of_valid {r : Registry T} {e : Handle} (h : r.Valid e) :
    r.tryGet e = .ok (r.hierarchy e) := if_pos h

theorem tryGet_of_not_valid {r : Registry T} {e : Handle} (h : ¬ r.Valid e) :
    r.tryGet e = .error .assertion := if_neg h

theorem get_of_some {r : Registry T} {e : Handle} {h : Hierarchy} (hv : r.Valid e)
    (he : r.hierarchy e = some h) : r.get e = .ok h := by
  rw [get, tryGet_of_valid hv, he]
  rfl

theorem tryGetTransform_of_valid {r : Registry T} {e : Handle} (h : r.Valid e) :
    r.tryGetTransform e = .ok (r.transform e) := if_pos h

theorem link_of_some {r : Registry T} {e : Handle} {h : Hierarchy} (he : r.hierarchy e = some h)
    (l : Link) : r.link l e = h.get l := by
  simp [link, he]

/-- A link of `e` can only be read if `e` has a `Hierarchy`. -/
theorem has_of_link {r : Registry T} {l : Link} {e x : Handle} (h : r.link l e = some x) :
    r.Has e := by
  obtain ⟨c, hc, -⟩ := Option.bind_eq_some_iff.mp h
  simp [Has, hc]

section Updates

variable (r : Registry T) (e : Handle)

@[simp]
theorem has_assign (l : Link) (v : Option Handle) (x : Handle) :
    (r.assign e l v).Has x ↔ r.Has x := by
  by_cases hx : x = e
  · subst hx
    simp [Has, assign]
  · simp [Has, assign, Function.update_of_ne hx]

theorem link_assign {e : Handle} (h : r.Has e) (l : Link) (v : Option Handle) (l' : Link)
    (x : Handle) :
    (r.assign e l v).link l' x = if x = e ∧ l' = l then v else r.link l' x := by
  obtain ⟨c, hc⟩ := Option.isSome_iff_exists.mp h
  by_cases hx : x = e
  · subst hx
    simp [link, assign, hc, Hierarchy.get_set]
  · simp [link, assign, hx]

@[simp]
theorem has_put (h : Hierarchy) (x : Handle) : (r.put e h).Has x ↔ x = e ∨ r.Has x := by
  by_cases hx : x = e
  · subst hx
    simp [Has, put]
  · simp [Has, put, hx]

@[simp]
theorem link_put (h : Hierarchy) (l : Link) (x : Handle) :
    (r.put e h).link l x = if x = e then h.get l else r.link l x := by
  by_cases hx : x = e
  · subst hx
    simp [link, put]
  · simp [link, put, hx]

@[simp]
theorem has_drop (x : Handle) : (r.drop e).Has x ↔ x ≠ e ∧ r.Has x := by
  by_cases hx : x = e
  · subst hx
    simp [Has, drop]
  · simp [Has, drop, hx]

@[simp]
theorem link_drop (l : Link) (x : Handle) :
    (r.drop e).link l x = if x = e then none else r.link l x := by
  by_cases hx : x = e
  · subst hx
    simp [link, drop]
  · simp [link, drop, hx]

@[simp]
theorem valid_assign (l : Link) (v : Option Handle) (x : Handle) :
    (r.assign e l v).Valid x ↔ r.Valid x := Iff.rfl

@[simp]
theorem valid_put (h : Hierarchy) (x : Handle) : (r.put e h).Valid x ↔ r.Valid x := Iff.rfl

@[simp]
theorem valid_drop (x : Handle) : (r.drop e).Valid x ↔ r.Valid x := Iff.rfl

end Updates

end Registry

end Maple
