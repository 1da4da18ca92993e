import Mathlib.Data.Set.Finite.Basic
import Maple.Lib.Run
import Maple.Scene.Lookup
import Maple.Scene.SaveLoad

/-!
# Maple.Scene.EntityNames

**Named entities keep distinct names.** `Scene::createEntity(name)` looks for an entity
of that name and goes on with `name(1)`, `name(2)` and so on until it finds none. The
candidates are pairwise different and only finitely many names are in use, so the loop
ends at a free one, whatever the names in use are (`createNamed_settles`). Destroying
entities frees names and gives no new ones (`Erased`).
-/

namespace Maple

open Lib Registry

variable {V T : Type}

namespace Scene

/-! ### The loop over the candidates -/

theorem toString_injective : Function.Injective (toString : Nat → String) := by
  intro i j heq
  have hdigits : Nat.toDigits 10 i = Nat.toDigits 10 j := by
    simpa only [Nat.toString_eq_repr, Nat.toList_repr] using congrArg String.toList heq
  have hvalue := congrArg (fun digits => Nat.ofDigitChars 10 digits 0) hdigits
  simpa only [Nat.ofDigitChars_ten_toDigits] using hvalue

/-- The name itself is shorter than the other candidates, and these differ in their
number. -/
theorem candidate_injective (name : String) : Function.Injective (candidate name) := by
  have hlong : ∀ i, i ≠ 0 → candidate name i ≠ name := by
    intro i hi heq
    have hlength := congrArg String.length heq
    simp only [candidate, if_neg hi, String.length_append] at hlength
    have hparen : "(".length = 1 := rfl
    omega
  intro i j heq
  by_cases hi : i = 0
  · by_cases hj : j = 0
    · rw [hi, hj]
    · rw [hi] at heq
      exact absurd heq.symm (hlong j hj)
  · by_cases hj : j = 0
    · rw [hj] at heq
      exact absurd heq (hlong i hi)
    · simp only [candidate, if_neg hi, if_neg hj] at heq
      rw [String.append_left_inj, String.append_right_inj] at heq
      exact toString_injective heq

/-- An entity of this name is alive. -/
def InUse (r : Registry (Components V)) (name : String) : Prop :=
  ∃ x, r.Valid x ∧ Entity.nameOf r x = some name

theorem getEntityByName_isSome {r : Registry (Components V)} {name : String} :
    (getEntityByName r name).isSome ↔ InUse r name := by
  rw [getEntityByName, List.find?_isSome]
  simp only [decide_eq_true_eq, Entities.mem_alive]
  exact Iff.rfl

/-- Some candidate is free, and there is a first one. -/
theorem exists_free (r : Registry (Components V)) (name : String) :
    ∃ i, ¬ InUse r (candidate name i) ∧ ∀ j < i, InUse r (candidate name j) := by
  classical
  let used := r.entities.alive.filterMap (Entity.nameOf r)
  have hused : ∀ candidate, InUse r candidate → candidate ∈ used.toFinset := by
    intro candidate ⟨x, hx, hname⟩
    rw [List.mem_toFinset]
    exact List.mem_filterMap.mpr ⟨x, (Entities.mem_alive _ _).mpr hx, hname⟩
  have hinfinite := Set.infinite_range_of_injective (candidate_injective name)
  obtain ⟨-, ⟨i, rfl⟩, hi⟩ := hinfinite.exists_notMem_finset used.toFinset
  have hfree : ∃ i, ¬ InUse r (candidate name i) := ⟨i, fun h => hi (hused _ h)⟩
  exact ⟨Nat.find hfree, Nat.find_spec hfree, fun j hj => not_not.mp (Nat.find_min hfree hj)⟩

/-- **The loop ends** at the first free candidate. -/
theorem freeName_settles {r : Registry (Components V)} {name : String} {i j d : Nat}
    (hfree : ¬ InUse r (candidate name i)) (hused : ∀ j < i, InUse r (candidate name j))
    (hd : j + d = i) : Settles (fun fuel => freeName r name fuel j) (.ok (candidate name i)) := by
  induction d generalizing j with
  | zero =>
      obtain rfl : j = i := hd
      have hnone : getEntityByName r (candidate name j) = none :=
        Option.not_isSome_iff_eq_none.mp (getEntityByName_isSome.not.mpr hfree)
      refine Settles.of_succ (Settles.of_forall fun fuel => ?_)
      rw [freeName, hnone]
  | succ d ih =>
      obtain ⟨x, hx⟩ := Option.isSome_iff_exists.mp
        (getEntityByName_isSome.mpr (hused j (by omega)))
      refine Settles.of_succ ((ih (j := j + 1) (by omega)).congr fun fuel => ?_)
      rw [freeName, hx]

/-- All identifiers are in use, and `registry.create` asserts that there is a free one. -/
def Exhausted (r : Registry T) : Prop :=
  r.entities.destroyed = [] ∧ Entities.entityMask ≤ r.entities.versions.length

/-- What `createEntity(name)` does: the new entity has the name, or the name with the
first free number behind it. -/
structure Created (s : Scene V) (name : String) (e : Handle) (s' : Scene V) : Prop where
  new : ¬ s.registry.Valid e
  valid : ∀ x, s'.registry.Valid x ↔ x = e ∨ s.registry.Valid x
  name : ∃ i, Entity.nameOf s'.registry e = some (candidate name i) ∧
    ¬ InUse s.registry (candidate name i) ∧ ∀ j < i, InUse s.registry (candidate name j)
  other : ∀ x, x ≠ e → Entity.nameOf s'.registry x = Entity.nameOf s.registry x

/-- **`createEntity(name)` ends**, and creates an entity unless all identifiers are in
use. -/
theorem createNamed_settles (s : Scene V) (name : String) :
    (∃ e s', Settles (fun fuel => s.createNamed fuel name) (.ok (e, s')) ∧ Created s name e s') ∨
      (Settles (fun fuel => s.createNamed fuel name) (.error .assertion) ∧
        Exhausted s.registry) := by
  obtain ⟨i, hfree, hused⟩ := exists_free s.registry name
  have hname := freeName_settles hfree hused (Nat.zero_add i)
  have hrun : Settles (fun fuel => s.createNamed fuel name) _ :=
    hname.except_bind (Settles.of_forall fun _ => rfl)
  cases hcreate : s.registry.entities.create with
  | error fault =>
      right
      have hfault : fault = .assertion ∧ Exhausted s.registry := by
        simp only [Entities.create] at hcreate
        split at hcreate
        · next hdestroyed =>
            split at hcreate
            · cases hcreate
            · next hfull =>
                exact ⟨(Except.error.inj hcreate).symm, hdestroyed, Nat.not_lt.mp hfull⟩
        · cases hcreate
      refine ⟨?_, hfault.2⟩
      rw [Registry.create, hcreate, hfault.1] at hrun
      exact hrun
  | ok created =>
      obtain ⟨e, entities⟩ := created
      left
      rw [Registry.create, hcreate] at hrun
      obtain ⟨hnew, hvalid⟩ := Entities.create_valid hcreate
      refine ⟨e, _, hrun, hnew, hvalid, ⟨i, ?_, hfree, hused⟩, fun x hx => ?_⟩
      · simp [Entity.nameOf]
      · simp [Entity.nameOf, Function.update_of_ne hx]

end Scene

/-! ### Destroying entities -/

/-- Entities have gone, and the others have kept their components. -/
structure Erased (r r' : Registry T) : Prop where
  valid : ∀ x, r'.Valid x → r.Valid x
  transform : ∀ x, r'.Valid x → r'.transform x = r.transform x

namespace Erased

variable {r r' r'' : Registry T}

theorem refl (r : Registry T) : Erased r r := ⟨fun _ hx => hx, fun _ _ => rfl⟩

theorem trans (h : Erased r r') (h' : Erased r' r'') : Erased r r'' :=
  ⟨fun x hx => h.valid x (h'.valid x hx),
    fun x hx => (h'.transform x hx).trans (h.transform x (h'.valid x hx))⟩

end Erased

/-- **`registry.destroy`** takes one entity away. -/
theorem destroy_erased {r r' : Registry T} {e : Handle}
    (h : r.destroy Hierarchy.onDestroy e = .ok r') : Erased r r' := by
  obtain ⟨hreleases, htransform⟩ := Hierarchy.destroy_releases h
  have hvalid : ∀ x, r'.Valid x ↔ x ∉ [e] ∧ r.Valid x := hreleases.valid
  constructor
  · exact fun x hx => ((hvalid x).mp hx).2
  · intro x hx
    have hne : x ≠ e := by simpa using ((hvalid x).mp hx).1
    rw [htransform, Function.update_of_ne hne]

/-- **`HierarchyWindow::destroyEntity`** takes entities away. -/
theorem destroyEntity_erased {fuel : Nat} {r r' : Registry T} {e : Handle}
    (h : HierarchyWindow.destroyEntity fuel r e = .ok r') : Erased r r' :=
  HierarchyWindow.destroyEntity_rel Erased.refl Erased.trans destroy_erased h

namespace Scene

/-! ### Runs -/

/-- No two live entities have the same name. -/
def DistinctNames (s : Scene V) : Prop :=
  ∀ x y name, s.registry.Valid x → s.registry.Valid y →
    Entity.nameOf s.registry x = some name → Entity.nameOf s.registry y = some name → x = y

/-- A call that creates or destroys entities. -/
inductive NameCall where
  | createNamed (name : String)
  | destroy (e : Handle)
  | destroyEntity (e : Handle)

/-- What a call leads to. -/
def NameStep (s : Scene V) : NameCall → Scene V → Prop
  | .createNamed name, s' => ∃ e, Settles (fun fuel => s.createNamed fuel name) (.ok (e, s'))
  | .destroy e, s' => s.destroy e = .ok s'
  | .destroyEntity e, s' => Settles (fun fuel => s.destroyEntity fuel e) (.ok s')

theorem distinctNames_create (name : String) : (create name : Scene V).DistinctNames := by
  intro x y _ hx
  exact absurd hx.1 (by simp [create, Registry.empty, Entities.empty])

/-- The name of a new entity is not in use. -/
theorem Created.distinctNames {s s' : Scene V} {name : String} {e : Handle}
    (h : Created s name e s') (hs : s.DistinctNames) : s'.DistinctNames := by
  obtain ⟨i, hname, hfree, -⟩ := h.name
  have hother : ∀ x, s'.registry.Valid x → x ≠ e →
      Entity.nameOf s'.registry x ≠ some (candidate name i) := by
    intro x hx hne hsame
    rw [h.other x hne] at hsame
    exact hfree ⟨x, ((h.valid x).mp hx).resolve_left hne, hsame⟩
  intro x y common hx hy hcx hcy
  by_cases hxe : x = e
  · by_cases hye : y = e
    · rw [hxe, hye]
    · rw [hxe, hname] at hcx
      exact absurd (hcy.trans hcx.symm) (hother y hy hye)
  · by_cases hye : y = e
    · rw [hye, hname] at hcy
      exact absurd (hcx.trans hcy.symm) (hother x hx hxe)
    · rw [h.other x hxe] at hcx
      rw [h.other y hye] at hcy
      exact hs x y common (((h.valid x).mp hx).resolve_left hxe)
        (((h.valid y).mp hy).resolve_left hye) hcx hcy

theorem distinctNames_of_erased {s s' : Scene V} (h : Erased s.registry s'.registry)
    (hs : s.DistinctNames) : s'.DistinctNames := by
  intro x y common hx hy hcx hcy
  rw [Entity.nameOf, h.transform x hx] at hcx
  rw [Entity.nameOf, h.transform y hy] at hcy
  exact hs x y common (h.valid x hx) (h.valid y hy) hcx hcy

theorem NameStep.distinctNames {s s' : Scene V} {c : NameCall} (h : NameStep s c s')
    (hs : s.DistinctNames) : s'.DistinctNames := by
  cases c with
  | createNamed name =>
      obtain ⟨e, hrun⟩ := h
      obtain ⟨e', s₁, hrun', hcreated⟩ | ⟨hfault, -⟩ := createNamed_settles s name
      · obtain ⟨-, rfl⟩ := Prod.mk.inj (Except.ok.inj (hrun.unique hrun'))
        exact hcreated.distinctNames hs
      · exact absurd (hrun.unique hfault) nofun
  | destroy e =>
      obtain ⟨r, hrun, rfl⟩ := map_eq_ok h
      exact distinctNames_of_erased (destroy_erased hrun) hs
  | destroyEntity e =>
      obtain ⟨N, hN⟩ := h
      obtain ⟨r, hrun, rfl⟩ := map_eq_ok (hN N (Nat.le_refl N))
      exact distinctNames_of_erased (destroyEntity_erased hrun) hs

/-- **Entity names stay unique.** In every scene `createEntity(name)` ends; unless all
identifiers are in use it creates an entity, and no other live entity has the name of
the new one. In every run of calls from a scene with distinct names, in particular from
a new scene, the names stay distinct. -/
theorem names_stay_distinct :
    (∀ (s : Scene V) (name : String),
      (∃ e s', Settles (fun fuel => s.createNamed fuel name) (.ok (e, s')) ∧
        ∃ given, s'.registry.Valid e ∧ Entity.nameOf s'.registry e = some given ∧
          ∀ x, s'.registry.Valid x → Entity.nameOf s'.registry x = some given → x = e) ∨
      (Settles (fun fuel => s.createNamed fuel name) (.error .assertion) ∧
        Exhausted s.registry)) ∧
    (∀ (s s' : Scene V) (calls : List NameCall), s.DistinctNames → Run NameStep s calls s' →
      s'.DistinctNames) ∧
    ∀ (name : String) (calls : List NameCall) (s : Scene V), Run NameStep (create name) calls s →
      s.DistinctNames := by
  have hruns : ∀ (s s' : Scene V) (calls : List NameCall), s.DistinctNames →
      Run NameStep s calls s' → s'.DistinctNames := fun s s' calls hs hrun =>
    hrun.state_invariant hs fun _ _ _ ht hstep => hstep.distinctNames ht
  refine ⟨fun s name => ?_, hruns, fun name calls s => hruns _ s calls (distinctNames_create name)⟩
  obtain ⟨e, s', hrun, hcreated⟩ | hfull := createNamed_settles s name
  · obtain ⟨i, hname, hfree, -⟩ := hcreated.name
    refine Or.inl ⟨e, s', hrun, _, (hcreated.valid e).mpr (Or.inl rfl), hname, fun x hx hsame => ?_⟩
    by_contra hne
    rw [hcreated.other x hne] at hsame
    exact hfree ⟨x, ((hcreated.valid x).mp hx).resolve_left hne, hsame⟩
  · exact Or.inr hfull

/-- An entity named as the first candidate of another name. -/
theorem names_stay_distinct_taken : ∃ s : Scene Unit,
    Run NameStep (create "level")
      [.createNamed "a(1)", .createNamed "a", .createNamed "a", .destroy ⟨1, 0⟩] s ∧
      Entity.nameOf s.registry ⟨2, 0⟩ = some "a(2)" ∧ s.DistinctNames := by
  have h₁ : Run NameStep (create "level" : Scene Unit) ([] ++ [.createNamed "a(1)"]) _ :=
    (Run.nil _).snoc ⟨_, Settles.of_add 3 fun _ => rfl⟩
  have h₂ : Run NameStep (create "level" : Scene Unit) (_ ++ [.createNamed "a"]) _ :=
    h₁.snoc ⟨_, Settles.of_add 3 fun _ => rfl⟩
  have h₃ : Run NameStep (create "level" : Scene Unit) (_ ++ [.createNamed "a"]) _ :=
    h₂.snoc ⟨_, Settles.of_add 3 fun _ => rfl⟩
  have h₄ : Run NameStep (create "level" : Scene Unit) (_ ++ [.destroy ⟨1, 0⟩]) _ :=
    h₃.snoc rfl
  exact ⟨_, h₄, rfl, names_stay_distinct.2.2 _ _ _ h₄⟩

end Scene

end Maple
