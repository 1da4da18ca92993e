import Maple.Others.StringUtils
import Maple.Scene.HierarchySound
import Maple.Scene.Scene

/-!
# Maple.Scene.Lookup

**Finding entities by name.** `Entity::getChildInChildren` searches the
descendants of an entity in pre-order; `Entity::findByPath` reads a path layer by
layer (its results are in `Maple.Scene.Paths`).
-/

namespace Maple

open Lib Registry

variable {V : Type} {r : Registry (Components V)} {kids : Handle → List Handle}

namespace Entity

/-! ### The searches -/

/-- `getComponent<NameComponent>().name`. -/
def getName (r : Registry (Components V)) (entityHandle : Handle) : Except Fault String :=
  (r.tryGetTransform entityHandle).bind fun components =>
    match components.bind Components.name with
    | some name => .ok name
    | none => .error .assertion

/-- The inner loop of `findByPath`: the first of the children with the name. -/
def findNamed (r : Registry (Components V)) (name : String) :
    List Handle → Except Fault (Option Handle)
  | [] => .ok none
  | entt :: children =>
    (getName r entt).bind fun nameComp =>
      if name = nameComp then .ok (some entt) else findNamed r name children

/-- One layer of `findByPath`, with the cursors `ent` and `children`. -/
def findLayer (fuel : Nat) (r : Registry (Components V)) (entityHandle : Handle) :
    Option Handle × List Handle → String → Except Fault (Option Handle × List Handle)
  | (ent, children), layer =>
    if layer = ".." then (getParent r entityHandle).map fun ent => (ent, children)
    else (findNamed r layer children).bind fun
      | none => .ok (ent, children)
      | some ent => (getChildren fuel r ent).map fun children => (some ent, children)

/-- `Entity::findByPath`; `none` is an invalid entity. -/
def findByPath (fuel : Nat) (r : Registry (Components V)) (entityHandle : Handle)
    (path : String) : Except Fault (Option Handle) :=
  if path = "" then .ok none
  else (getChildren fuel r entityHandle).bind fun children =>
    ((StringUtils.split path '/').foldlM (findLayer fuel r entityHandle) (none, children)).map
      Prod.fst

/-- The loop of `getChildInChildren`; `search` is its recursive call. -/
def searchChildren (search : Handle → Except Fault (Option Handle))
    (r : Registry (Components V)) (name : String) : List Handle → Except Fault (Option Handle)
  | [] => .ok none
  | entt :: children =>
    (getName r entt).bind fun nameComp =>
      if name = nameComp then .ok (some entt)
      else (search entt).bind fun ret =>
        match ret.filter (r.Valid ·) with
        | some ret => .ok (some ret)
        | none => searchChildren search r name children

/-- `Entity::getChildInChildren`. -/
def getChildInChildren : Nat → Registry (Components V) → Handle → String →
    Except Fault (Option Handle)
  | 0, _, _, _ => .error .outOfFuel
  | fuel + 1, r, entityHandle, name =>
    (getChildren fuel r entityHandle).bind
      (searchChildren (fun entt => getChildInChildren fuel r entt name) r name)

/-! ### Names -/

/-- The name of an entity. -/
def nameOf (r : Registry (Components V)) (x : Handle) : Option String :=
  (r.transform x).bind Components.name

theorem getName_eq {x : Handle} {name : String} (hv : r.Valid x) (hx : nameOf r x = some name) :
    getName r x = .ok name := by
  rw [nameOf] at hx
  simp only [getName, tryGetTransform_of_valid hv, Except.bind, hx]

/-- The inner loop finds the first child with the name. -/
theorem findNamed_eq {layer : String} {cs : List Handle}
    (hcs : ∀ c ∈ cs, r.Valid c ∧ (nameOf r c).isSome) :
    findNamed r layer cs = .ok (cs.find? fun c => nameOf r c = some layer) := by
  induction cs with
  | nil => rfl
  | cons c cs ih =>
      obtain ⟨hv, hsome⟩ := hcs c (by simp)
      obtain ⟨name, hname⟩ := Option.isSome_iff_exists.mp hsome
      rw [findNamed, getName_eq hv hname]
      by_cases heq : layer = name
      · rw [List.find?_cons_of_pos (by simp [hname, heq])]
        simp only [Except.bind, if_pos heq]
      · rw [List.find?_cons_of_neg (by simp [hname, Ne.symm heq])]
        simp only [Except.bind, if_neg heq]
        exact ih fun d hd => hcs d (List.mem_cons_of_mem c hd)

/-! ### Searching the descendants -/

/-- **The search of a list of nodes** with their descendants. -/
theorem searchChildren_settles (h : Forest r kids) {name : String} {cs xs : List Handle}
    (hpre : Preorder kids cs xs) (hxs : ∀ x ∈ xs, r.Valid x ∧ (nameOf r x).isSome) :
    Settles (fun fuel => searchChildren (fun c => getChildInChildren fuel r c name) r name cs)
      (.ok (xs.find? fun x => nameOf r x = some name)) := by
  induction hpre with
  | nil => exact Settles.of_forall fun _ => rfl
  | @cons c cs ys zs _ _ ih₁ ih₂ =>
      obtain ⟨hv, hsome⟩ := hxs c (by simp)
      obtain ⟨cname, hname⟩ := Option.isSome_iff_exists.mp hsome
      have hget := getName_eq hv hname
      by_cases heq : name = cname
      · rw [List.cons_append, List.find?_cons_of_pos (by simp [hname, heq])]
        refine Settles.of_forall fun fuel => ?_
        simp only [searchChildren, hget, Except.bind, if_pos heq]
      · rw [List.cons_append, List.find?_cons_of_neg (by simp [hname, Ne.symm heq]),
          List.find?_append]
        have hys : ∀ y ∈ ys, r.Valid y ∧ (nameOf r y).isSome := fun y hy => hxs y (by simp [hy])
        have hcall : Settles (fun fuel => getChildInChildren fuel r c name)
            (.ok (ys.find? fun x => nameOf r x = some name)) :=
          Settles.of_succ ((getChildren_settles h hv).except_bind
            (g := fun cs fuel =>
              searchChildren (fun c => getChildInChildren fuel r c name) r name cs) (ih₁ hys))
        refine (hcall.except_bind (g := fun ret fuel => match ret.filter (r.Valid ·) with
          | some ret => .ok (some ret)
          | none => searchChildren (fun c => getChildInChildren fuel r c name) r name cs) ?_).congr
          fun fuel => by simp only [searchChildren, hget, Except.bind, if_neg heq]
        cases hfound : ys.find? (fun x => nameOf r x = some name) with
        | none =>
            simp only [Option.filter_none, Option.none_or]
            exact ih₂ fun z hz => hxs z (by simp [hz])
        | some y =>
            -- what is found among the descendants is valid
            have hvy := (hys y (List.mem_of_find?_eq_some hfound)).1
            simp only [Option.filter_some, hvy, decide_true, if_true, Option.some_or]
            exact Settles.of_forall fun _ => rfl

/-- The result of a search of the descendants of `e` for a name: `xs` lists them in
pre-order. -/
structure FirstInPreorder (r : Registry (Components V)) (kids : Handle → List Handle)
    (e : Handle) (name : String) (found : Option Handle) : Prop where
  first : ∃ xs, Preorder kids (kids e) xs ∧ (∀ x, x ∈ xs ↔ Below kids e x ∧ x ≠ e) ∧
    found = xs.find? fun x => nameOf r x = some name
  valid : ∀ x, found = some x → r.Valid x ∧ nameOf r x = some name
  none_iff : found = none ↔ ∀ x, Below kids e x → x ≠ e → nameOf r x ≠ some name

/-- **`getChildInChildren`** ends and finds the first descendant with the name. -/
theorem getChildInChildren_first (h : Forest r kids) {e : Handle} (hv : r.Valid e)
    (hnamed : ∀ x, Below kids e x → x ≠ e → (nameOf r x).isSome) (name : String) :
    ∃ found, Settles (fun fuel => getChildInChildren fuel r e name) (.ok found) ∧
      FirstInPreorder r kids e name found := by
  obtain ⟨xs, hpre⟩ := h.shape.exists_preorder (kids e)
  have hmem : ∀ x, x ∈ xs ↔ Below kids e x ∧ x ≠ e := by
    intro x
    rw [hpre.mem_iff, below_iff_child]
    refine ⟨fun ⟨c, hc, hx⟩ => ⟨Or.inr ⟨c, hc, hx⟩, fun heq => ?_⟩,
      fun ⟨hx, hne⟩ => hx.resolve_left hne⟩
    exact h.shape.not_below_parent hc (heq ▸ hx)
  have hxs : ∀ x ∈ xs, r.Valid x ∧ (nameOf r x).isSome := by
    intro x hx
    obtain ⟨hbelow, hne⟩ := (hmem x).mp hx
    exact ⟨h.valid_below hv hbelow, hnamed x hbelow hne⟩
  refine ⟨_, Settles.of_succ ((getChildren_settles h hv).except_bind
    (g := fun cs fuel => searchChildren (fun c => getChildInChildren fuel r c name) r name cs)
    (searchChildren_settles h hpre hxs)), ⟨xs, hpre, hmem, rfl⟩, fun x hx => ?_, ?_⟩
  · exact ⟨(hxs x (List.mem_of_find?_eq_some hx)).1, by simpa using List.find?_some hx⟩
  · rw [List.find?_eq_none]
    refine ⟨fun hnone x hbelow hne => ?_, fun hnone x hx => ?_⟩
    · simpa using hnone x ((hmem x).mpr ⟨hbelow, hne⟩)
    · simpa using hnone x ((hmem x).mp hx).1 ((hmem x).mp hx).2

/-- A root with one child, named as given. -/
def namedPair (parent child : String) : Registry (Components Unit) :=
  parentAndChild (some { name := some parent }) (some { name := some child })

theorem forest_namedPair (parent child : String) :
    Forest (namedPair parent child) (Function.update (fun _ => []) ⟨0, 0⟩ [⟨1, 0⟩]) :=
  forest_parentAndChild ..

theorem named_namedPair (parent child : String) (x : Handle)
    (hv : (namedPair parent child).Valid x) : (nameOf (namedPair parent child) x).isSome := by
  rcases (valid_twoEntities (T := Components Unit) (some { name := some parent })
    (some { name := some child }) x).mp hv with heq | heq
  · exact heq ▸ rfl
  · exact heq ▸ rfl

/-- Four entities without a `Hierarchy`, two of them with the same name. -/
def limbs : Registry (Components Unit) where
  entities := ⟨[0, 0, 0, 0], [], List.nodup_nil, by simp⟩
  hierarchy := fun _ => none
  transform := fun e =>
    if e.version = 0 then
      (["body", "arm", "hand", "hand"][e.index]?).map fun name => { name := some name }
    else none

theorem limbs_named (x : Handle) : limbs.Valid x ↔ (nameOf limbs x).isSome := by
  obtain ⟨i, v⟩ := x
  simp only [Valid, Entities.Valid, limbs, nameOf, List.not_mem_nil, not_false_eq_true, and_true]
  rcases i with _ | _ | _ | _ | i <;> by_cases hv : v = 0 <;> simp [hv, eq_comm]

theorem forest_limbs : Forest limbs fun _ => [] := by
  refine ⟨⟨fun _ => List.nodup_nil, by simp, fun _ => 0, 0, by simp⟩, ?_, fun e he => ?_,
    fun _ => rfl, ?_, fun _ => trivial, fun _ _ => ⟨rfl, rfl⟩⟩
  · simp [Has, limbs]
  · refine (limbs_named e).mpr ?_
    obtain ⟨components, he⟩ := Option.isSome_iff_exists.mp he
    simp only [limbs] at he
    split at he
    next hv =>
      obtain ⟨name, hname, -⟩ := Option.map_eq_some_iff.mp he
      simp [nameOf, limbs, hv, hname]
    next => cases he
  · simp [Registry.link, limbs]

/-- An arm with a hand, and another hand: the one of the arm comes first. -/
theorem getChildInChildren_first_nested : ∃ (r : Registry (Components Unit))
    (kids : Handle → List Handle), kids ⟨0, 0⟩ = [⟨1, 0⟩, ⟨3, 0⟩] ∧ kids ⟨1, 0⟩ = [⟨2, 0⟩] ∧
    nameOf r ⟨2, 0⟩ = some "hand" ∧ nameOf r ⟨3, 0⟩ = some "hand" ∧
    Settles (fun fuel => getChildInChildren fuel r ⟨0, 0⟩ "hand") (.ok (some ⟨2, 0⟩)) ∧
    FirstInPreorder r kids ⟨0, 0⟩ "hand" (some ⟨2, 0⟩) := by
  obtain ⟨r₁, hset₁, -, -, h₁⟩ := setParent_settles forest_limbs (e := ⟨1, 0⟩) (p := ⟨0, 0⟩)
    (by decide) (by decide)
  obtain rfl := Except.ok.inj (hset₁.unique (.of_add 3 fun _ => rfl))
  replace h₁ := h₁ fun hbelow => absurd (hbelow.eq_of_leaf rfl) (by decide)
  obtain ⟨r₂, hset₂, -, -, h₂⟩ := setParent_settles h₁ (e := ⟨2, 0⟩) (p := ⟨1, 0⟩) (by decide)
    (by decide)
  obtain rfl := Except.ok.inj (hset₂.unique (.of_add 3 fun _ => rfl))
  replace h₂ := h₂ fun hbelow => absurd (hbelow.eq_of_leaf rfl) (by decide)
  obtain ⟨r₃, hset₃, -, -, h₃⟩ := setParent_settles h₂ (e := ⟨3, 0⟩) (p := ⟨0, 0⟩) (by decide)
    (by decide)
  obtain rfl := Except.ok.inj (hset₃.unique (.of_add 3 fun _ => rfl))
  replace h₃ := h₃ fun hbelow => absurd (hbelow.eq_of_leaf rfl) (by decide)
  obtain ⟨found, hfound, hfirst⟩ := getChildInChildren_first h₃ (e := ⟨0, 0⟩) (by decide)
    (fun x hx _ => (limbs_named x).mp (h₃.valid_below (by decide) hx)) "hand"
  obtain rfl := Except.ok.inj (hfound.unique (.of_add 9 fun _ => rfl))
  exact ⟨_, _, rfl, rfl, rfl, rfl, hfound, hfirst⟩

end Entity

end Maple
