import Maple.Lib.Nearest
import Maple.Math.Ray

/-!
# Maple.Editor.ClickObject

`Editor::clickObject` of `Editor.cpp`: **a click selects the nearest entity, where the
sprites are where their boxes are.** Three loops, over the entities with a
`MeshRenderer`, a `Sprite` and an `AnimatedSprite`, share one running minimum. The
first one reads the bounding box of every mesh, which a mesh that was loaded from a file
does not have. The second one calls `transform` on a sprite's box and drops the result, so
a `Sprite` is tested at the origin, wherever it is.

`Ray::hit` and `BoundingBox::transform` are parameters, and so is the type of the world
matrices.
-/

namespace Maple.Picking

open Math (BoundingBox Ray)

/-- What is read of `Quad2D`. -/
structure Quad2D where
  offset : Fin 2 → ℚ
  width : Nat
  height : Nat

/-- The axes of a quad are numbered by `Fin 2`. -/
local instance neZero_axes : NeZero 2 := ⟨by decide⟩

/-- `BoundingBox(Rect2D(min, max))` with the quad's offset and size. -/
def Quad2D.box (quad : Quad2D) : BoundingBox :=
  .corners ![quad.offset 0, quad.offset 1, 0]
    ![quad.offset 0 + quad.width, quad.offset 1 + quad.height, 0]

/-- What is read of `Mesh`. The bounding box is a null pointer unless the mesh was made from
vertices. -/
structure Mesh where
  boundingBox : Option BoundingBox

/-- The component that makes an entity visible; the mesh of a `MeshRenderer` may be null. -/
inductive Component where
  | meshRenderer (mesh : Option Mesh)
  | sprite (quad : Quad2D)
  | animatedSprite (quad : Quad2D)

/-- An entity with one of these components and a `Transform`. -/
structure Node (E M : Type) where
  entity : E
  component : Component
  worldMatrix : M
  worldPosition : Fin 3 → ℚ

/-- The entities of the registry; each of the groups lists its own in this order. -/
structure Registry (E M : Type) where
  nodes : List (Node E M)
  nodup : (nodes.map Node.entity).Nodup

namespace Registry

variable {E M : Type} (registry : Registry E M)

def meshGroup : List (Node E M) :=
  registry.nodes.filter fun node => node.component matches .meshRenderer _

def spriteGroup : List (Node E M) :=
  registry.nodes.filter fun node => node.component matches .sprite _

def animSpriteGroup : List (Node E M) :=
  registry.nodes.filter fun node => node.component matches .animatedSprite _

/-- The order in which the three loops look at the entities. -/
def clickOrder : List (Node E M) :=
  registry.meshGroup ++ (registry.spriteGroup ++ registry.animSpriteGroup)

end Registry

/-- What `clickObject` reads and writes of the editor, with its static variable, which is
set in the first call. Times are in microseconds. `focus` is the last call of
`focusCamera`, with the box whose diagonal is its distance. -/
structure Editor (E : Type) where
  selectedNode : Option E
  lastClick : Option Int
  focus : Option ((Fin 3 → ℚ) × BoundingBox)

/-- `Timer::elapsed`. -/
def elapsed (first last : Int) : Int := last - first

section

variable {E M : Type} (hit : Ray → BoundingBox → WithTop ℚ)
  (transform : BoundingBox → M → BoundingBox) (ray : Ray)

/-- The body of the first loop, which calls a member of the box. -/
def meshRound (best : Option (Node E M) × WithTop ℚ) (node : Node E M) :
    Option (Option (Node E M) × WithTop ℚ) :=
  match node.component with
  | .meshRenderer (some mesh) => mesh.boundingBox.map fun box =>
    Lib.nearer (fun node => hit ray (transform box node.worldMatrix)) best node
  | _ => some best

/-- The body of the second loop; `bb.transform` returns a box that is not used. -/
def spriteRound (best : Option (Node E M) × WithTop ℚ) (node : Node E M) :
    Option (Node E M) × WithTop ℚ :=
  match node.component with
  | .sprite quad => Lib.nearer (fun _ => hit ray quad.box) best node
  | _ => best

/-- The body of the third loop. -/
def animSpriteRound (best : Option (Node E M) × WithTop ℚ) (node : Node E M) :
    Option (Node E M) × WithTop ℚ :=
  match node.component with
  | .animatedSprite quad =>
    Lib.nearer (fun node => hit ray (transform quad.box node.worldMatrix)) best node
  | _ => best

/-- `focusCamera`, if there is a box to focus on. -/
def Editor.focusCamera (editor : Editor E) (node : Node E M) (bb : Option BoundingBox) : Editor E :=
  match bb with
  | some bb => { editor with focus := some (node.worldPosition, bb) }
  | none => editor

/-- The box of a mesh in the world. -/
def Node.meshBox (node : Node E M) : Option BoundingBox :=
  match node.component with
  | .meshRenderer mesh => (mesh.bind Mesh.boundingBox).map (transform · node.worldMatrix)
  | .sprite _ | .animatedSprite _ => none

/-- The box of a sprite of either kind in the world. -/
def Node.spriteBox (node : Node E M) : Option BoundingBox :=
  match node.component with
  | .meshRenderer _ => none
  | .sprite quad | .animatedSprite quad => some (transform quad.box node.worldMatrix)

/-- `Editor::clickObject`, at the time `now`; `none` is a call through a null pointer. -/
def clickObject [DecidableEq E] (editor : Editor E) (registry : Registry E M) (now : Int) :
    Option (Editor E) := do
  let best ← registry.meshGroup.foldlM (meshRound hit transform ray) (none, ⊤)
  let lastClick := editor.lastClick.getD now
  let editor := { editor with lastClick := some lastClick }
  let again := best.1.filter fun node => editor.selectedNode = some node.entity
  match again with
  | some node =>
    -- the selected mesh entity is clicked again
    if elapsed now lastClick < 1000000 then
      return { editor.focusCamera node (node.meshBox transform) with
        lastClick := some now
        selectedNode := some node.entity }
    else return { editor with lastClick := some now, selectedNode := none }
  | none =>
    let best := registry.spriteGroup.foldl (spriteRound hit ray) best
    let best := registry.animSpriteGroup.foldl (animSpriteRound hit transform ray) best
    let again := best.1.filter fun node => editor.selectedNode = some node.entity
    let editor :=
      match again with
      | some node => editor.focusCamera node (node.spriteBox transform)
      | none => editor
    return { editor with selectedNode := best.1.map Node.entity }

/-! ### The distances -/

/-- The distance at which the code finds an entity. -/
def tested (node : Node E M) : WithTop ℚ :=
  match node.component with
  | .meshRenderer mesh =>
    (mesh.bind Mesh.boundingBox).elim ⊤ fun box => hit ray (transform box node.worldMatrix)
  | .sprite quad => hit ray quad.box
  | .animatedSprite quad => hit ray (transform quad.box node.worldMatrix)

/-- The distance of an entity's box, moved by its world matrix. -/
def distance (node : Node E M) : WithTop ℚ :=
  match node.component with
  | .meshRenderer mesh =>
    (mesh.bind Mesh.boundingBox).elim ⊤ fun box => hit ray (transform box node.worldMatrix)
  | .sprite quad | .animatedSprite quad => hit ray (transform quad.box node.worldMatrix)

def Node.IsSprite (node : Node E M) : Prop :=
  ∃ quad, node.component = .sprite quad

theorem tested_eq_distance {node : Node E M} (h : ¬ node.IsSprite) :
    tested hit transform ray node = distance hit transform ray node := by
  unfold tested distance
  split
  case h_2 quad heq => exact absurd ⟨quad, heq⟩ h
  all_goals simp [*]

/-- What a click promises: the selected entity is at a distance and nothing is nearer,
and none is selected if and only if nothing is hit. -/
structure SelectsNearest (registry : Registry E M) (selected : Option E) : Prop where
  nearest : ∀ e, selected = some e → ∃ node ∈ registry.nodes, node.entity = e ∧
    distance hit transform ray node < ⊤ ∧
    ∀ other ∈ registry.nodes, distance hit transform ray node ≤ distance hit transform ray other
  nothing : selected = none ↔ ∀ node ∈ registry.nodes, distance hit transform ray node = ⊤

/-- The mesh of the entity, if it has one, has a bounding box. -/
def Node.HasBox (node : Node E M) : Prop :=
  ∀ mesh, node.component = .meshRenderer (some mesh) → mesh.boundingBox.isSome

/-- The untransformed box of the sprite is hit, as the first of those nearest among the
sprites', before every mesh and not after any animated sprite. -/
structure Ahead (registry : Registry E M) (sprite : Node E M) : Prop where
  first : Lib.FirstNearest (tested hit transform ray) registry.spriteGroup sprite
  meshes : ∀ node ∈ registry.meshGroup,
    tested hit transform ray sprite < distance hit transform ray node
  animSprites : ∀ node ∈ registry.animSpriteGroup,
    tested hit transform ray sprite ≤ distance hit transform ray node

/-- The untransformed boxes of the sprites do not mislead. A sprite that is ahead with its own
is hit in the world too, not after any other box there; and if no sprite is ahead, those that
are hit in the world are behind a mesh or an animated sprite. -/
structure SpritesRight (registry : Registry E M) : Prop where
  ahead : ∀ sprite, Ahead hit transform ray registry sprite →
    distance hit transform ray sprite < ⊤ ∧
    ∀ node ∈ registry.nodes, distance hit transform ray sprite ≤ distance hit transform ray node
  behind : (∀ sprite, ¬ Ahead hit transform ray registry sprite) →
    ∀ sprite ∈ registry.spriteGroup, distance hit transform ray sprite < ⊤ →
      ∃ node ∈ registry.meshGroup ++ registry.animSpriteGroup,
        distance hit transform ray node ≤ distance hit transform ray sprite

/-! ### The loops -/

theorem mem_clickOrder {registry : Registry E M} {node : Node E M} :
    node ∈ registry.clickOrder ↔ node ∈ registry.nodes := by
  simp only [Registry.clickOrder, Registry.meshGroup, Registry.spriteGroup,
    Registry.animSpriteGroup, List.mem_append, List.mem_filter, ← and_or_left]
  refine and_iff_left ?_
  cases node.component <;> simp

/-- A loop whose body tests every entity of its group as `nearer` does. -/
theorem foldl_round {round : Option (Node E M) × WithTop ℚ → Node E M →
      Option (Node E M) × WithTop ℚ} {dist : Node E M → WithTop ℚ} (group : List (Node E M))
    (hround : ∀ node ∈ group, ∀ best, round best node = Lib.nearer dist best node)
    (best : Option (Node E M) × WithTop ℚ) :
    group.foldl round best = group.foldl (Lib.nearer dist) best := by
  induction group generalizing best with
  | nil => rfl
  | cons node group ih =>
      rw [List.foldl_cons, List.foldl_cons, hround node List.mem_cons_self]
      exact ih (fun node hnode => hround node (List.mem_cons_of_mem _ hnode)) _

/-- The first loop gets past an entity if its mesh has a box. -/
theorem meshRound_eq (best : Option (Node E M) × WithTop ℚ) {node : Node E M}
    (hnode : node.component matches .meshRenderer _) (hbox : node.HasBox) :
    meshRound hit transform ray best node =
      some (Lib.nearer (tested hit transform ray) best node) := by
  match hcomponent : node.component with
  | .meshRenderer (some mesh) =>
      obtain ⟨box, hbox⟩ := Option.isSome_iff_exists.mp (hbox mesh hcomponent)
      simp [meshRound, Lib.nearer, tested, hcomponent, hbox]
  | .meshRenderer none => simp [meshRound, Lib.nearer, tested, hcomponent]
  | .sprite _ | .animatedSprite _ => simp [hcomponent] at hnode

theorem hasBox_of_meshRound {best best' : Option (Node E M) × WithTop ℚ} {node : Node E M}
    (h : meshRound hit transform ray best node = some best') : node.HasBox := by
  intro mesh hcomponent
  simp only [meshRound, hcomponent] at h
  obtain ⟨box, hbox, -⟩ := Option.map_eq_some_iff.mp h
  rw [hbox]
  rfl

theorem spriteRound_eq (best : Option (Node E M) × WithTop ℚ) {node : Node E M}
    (hnode : node.component matches .sprite _) :
    spriteRound hit ray best node = Lib.nearer (tested hit transform ray) best node := by
  match hcomponent : node.component with
  | .sprite quad => simp [spriteRound, Lib.nearer, tested, hcomponent]
  | .meshRenderer _ | .animatedSprite _ => simp [hcomponent] at hnode

theorem animSpriteRound_eq (best : Option (Node E M) × WithTop ℚ) {node : Node E M}
    (hnode : node.component matches .animatedSprite _) :
    animSpriteRound hit transform ray best node =
      Lib.nearer (tested hit transform ray) best node := by
  match hcomponent : node.component with
  | .animatedSprite quad => simp [animSpriteRound, Lib.nearer, tested, hcomponent]
  | .meshRenderer _ | .sprite _ => simp [hcomponent] at hnode

theorem foldlM_meshRound {group : List (Node E M)}
    (hgroup : ∀ node ∈ group, node.component matches .meshRenderer _)
    (hboxes : ∀ node ∈ group, node.HasBox) (best : Option (Node E M) × WithTop ℚ) :
    group.foldlM (meshRound hit transform ray) best =
      some (group.foldl (Lib.nearer (tested hit transform ray)) best) := by
  induction group generalizing best with
  | nil => rfl
  | cons node group ih =>
      obtain ⟨hnode, hgroup⟩ := List.forall_mem_cons.mp hgroup
      obtain ⟨hbox, hboxes⟩ := List.forall_mem_cons.mp hboxes
      rw [List.foldlM_cons, meshRound_eq hit transform ray best hnode hbox, List.foldl_cons]
      exact ih hgroup hboxes _

theorem hasBox_of_foldlM {group : List (Node E M)} {best best' : Option (Node E M) × WithTop ℚ}
    (h : group.foldlM (meshRound hit transform ray) best = some best') :
    ∀ node ∈ group, node.HasBox := by
  induction group generalizing best with
  | nil => exact nofun
  | cons node group ih =>
      rw [List.foldlM_cons] at h
      obtain ⟨mid, hmid, hrest⟩ := Option.bind_eq_some_iff.mp h
      exact List.forall_mem_cons.mpr ⟨hasBox_of_meshRound hit transform ray hmid, ih hrest⟩

/-- The first loop ends if and only if every mesh has a box, and then it has found the first of
the nearest mesh entities. -/
theorem foldlM_meshGroup {registry : Registry E M} {best : Option (Node E M) × WithTop ℚ} :
    registry.meshGroup.foldlM (meshRound hit transform ray) (none, ⊤) = some best ↔
      (∀ node ∈ registry.nodes, node.HasBox) ∧
        best = registry.meshGroup.foldl (Lib.nearer (tested hit transform ray)) (none, ⊤) := by
  have hgroup : ∀ node ∈ registry.meshGroup, node.component matches .meshRenderer _ :=
    fun node hnode => (List.mem_filter.mp hnode).2
  have hboxes : (∀ node ∈ registry.meshGroup, node.HasBox) ↔
      ∀ node ∈ registry.nodes, node.HasBox := by
    refine ⟨fun h node hnode mesh hcomponent => ?_, fun h node hnode =>
      h node (List.mem_of_mem_filter hnode)⟩
    exact h node (List.mem_filter.mpr ⟨hnode, by simp [hcomponent]⟩) mesh hcomponent
  rw [← hboxes]
  constructor
  · intro h
    have hall := hasBox_of_foldlM hit transform ray h
    rw [foldlM_meshRound hit transform ray hgroup hall] at h
    exact ⟨hall, (Option.some.inj h).symm⟩
  · rintro ⟨hall, rfl⟩
    exact foldlM_meshRound hit transform ray hgroup hall _

/-- The three loops find the first of the nearest entities, as the code tests them. -/
theorem foldl_rounds (registry : Registry E M) :
    registry.animSpriteGroup.foldl (animSpriteRound hit transform ray)
        (registry.spriteGroup.foldl (spriteRound hit ray)
          (registry.meshGroup.foldl (Lib.nearer (tested hit transform ray)) (none, ⊤))) =
      registry.clickOrder.foldl (Lib.nearer (tested hit transform ray)) (none, ⊤) := by
  rw [Registry.clickOrder, List.foldl_append, List.foldl_append,
    foldl_round registry.spriteGroup fun _ hnode best =>
      spriteRound_eq hit transform ray best (List.mem_filter.mp hnode).2,
    foldl_round registry.animSpriteGroup fun _ hnode best =>
      animSpriteRound_eq hit transform ray best (List.mem_filter.mp hnode).2]

theorem isSprite_iff {registry : Registry E M} {node : Node E M} (hnode : node ∈ registry.nodes) :
    node.IsSprite ↔ node ∈ registry.spriteGroup := by
  rw [Registry.spriteGroup, List.mem_filter, and_iff_right hnode]
  unfold Node.IsSprite
  cases node.component <;> simp

/-- The entities that are not sprites. -/
theorem mem_others {registry : Registry E M} {node : Node E M} :
    node ∈ registry.meshGroup ++ registry.animSpriteGroup ↔
      node ∈ registry.nodes ∧ ¬ node.IsSprite := by
  rw [Registry.meshGroup, Registry.animSpriteGroup, List.mem_append, List.mem_filter,
    List.mem_filter, ← and_or_left]
  unfold Node.IsSprite
  cases node.component <;> simp

theorem tested_eq_of_others {registry : Registry E M} {node : Node E M}
    (hnode : node ∈ registry.meshGroup ++ registry.animSpriteGroup) :
    tested hit transform ray node = distance hit transform ray node :=
  tested_eq_distance hit transform ray (mem_others.mp hnode).2

/-- The nearest mesh entity is found with the boxes it has in the world. -/
theorem nearest_meshGroup (registry : Registry E M) :
    Lib.nearest (tested hit transform ray) registry.meshGroup =
      Lib.nearest (distance hit transform ray) registry.meshGroup := by
  have hround : ∀ node ∈ registry.meshGroup, ∀ best,
      Lib.nearer (tested hit transform ray) best node =
        Lib.nearer (distance hit transform ray) best node := by
    intro node hnode best
    rw [Lib.nearer, Lib.nearer,
      tested_eq_of_others hit transform ray (List.mem_append_left _ hnode)]
  exact congrArg Prod.fst (foldl_round registry.meshGroup hround (none, ⊤))

/-- A sprite is ahead if it is the first of the nearest entities as the code tests them. -/
theorem ahead_iff {registry : Registry E M} {sprite : Node E M} :
    Ahead hit transform ray registry sprite ↔ sprite.IsSprite ∧
      Lib.FirstNearest (tested hit transform ray) registry.clickOrder sprite := by
  have hmesh : ∀ node ∈ registry.meshGroup,
      tested hit transform ray node = distance hit transform ray node := fun node hnode =>
    tested_eq_of_others hit transform ray (List.mem_append_left _ hnode)
  have hanim : ∀ node ∈ registry.animSpriteGroup,
      tested hit transform ray node = distance hit transform ray node := fun node hnode =>
    tested_eq_of_others hit transform ray (List.mem_append_right _ hnode)
  rw [Registry.clickOrder, Lib.firstNearest_append, Lib.firstNearest_append]
  constructor
  · intro h
    have hnode := List.mem_of_mem_filter h.first.mem
    refine ⟨(isSprite_iff hnode).mpr h.first.mem, Or.inr ⟨Or.inl ⟨h.first, fun node hnode => ?_⟩,
      fun node hnode => ?_⟩⟩
    · exact hanim node hnode ▸ h.animSprites node hnode
    · exact hmesh node hnode ▸ h.meshes node hnode
  · rintro ⟨hsprite, ⟨hfirst, -⟩ | ⟨⟨hfirst, hanims⟩ | ⟨hfirst, -⟩, hmeshes⟩⟩
    · exact absurd hsprite (mem_others.mp (List.mem_append_left _ hfirst.mem)).2
    · exact ⟨hfirst, fun node hnode => hmesh node hnode ▸ hmeshes node hnode,
        fun node hnode => hanim node hnode ▸ hanims node hnode⟩
    · exact absurd hsprite (mem_others.mp (List.mem_append_right _ hfirst.mem)).2

/-- The first of the entities that are nearest as the code tests them is nearest if and only if
the sprites do not mislead. -/
theorem spritesRight_iff {registry : Registry E M} {node : Node E M}
    (hfirst : Lib.FirstNearest (tested hit transform ray) registry.clickOrder node) :
    SpritesRight hit transform ray registry ↔ distance hit transform ray node < ⊤ ∧
      ∀ other ∈ registry.nodes,
        distance hit transform ray node ≤ distance hit transform ray other := by
  have hleast : ∀ other ∈ registry.nodes,
      tested hit transform ray node ≤ tested hit transform ray other := fun other hother =>
    (Lib.nearest_least (Lib.nearest_eq_some_iff.mpr hfirst)).2.2 other (mem_clickOrder.mpr hother)
  have hnode := mem_clickOrder.mp hfirst.mem
  by_cases hsprite : node.IsSprite
  · have hahead := (ahead_iff hit transform ray).mpr ⟨hsprite, hfirst⟩
    refine ⟨fun h => h.ahead node hahead, fun h => ⟨fun sprite hother => ?_, fun hnone => ?_⟩⟩
    · exact ((ahead_iff hit transform ray).mp hother).2.unique hfirst ▸ h
    · exact absurd hahead (hnone node)
  · have hsame := tested_eq_distance hit transform ray hsprite
    have hnone : ∀ sprite, ¬ Ahead hit transform ray registry sprite := by
      intro sprite hahead
      obtain ⟨hsprite', hfirst'⟩ := (ahead_iff hit transform ray).mp hahead
      exact hsprite (hfirst'.unique hfirst ▸ hsprite')
    constructor
    · intro h
      refine ⟨hsame ▸ hfirst.1, fun other hother => ?_⟩
      by_cases hother' : other.IsSprite
      · by_cases hreached : distance hit transform ray other < ⊤
        · obtain ⟨third, hthird, hle⟩ :=
            h.behind hnone other ((isSprite_iff hother).mp hother') hreached
          rw [← hsame]
          refine (hleast third (mem_others.mp hthird).1).trans ?_
          rw [tested_eq_of_others hit transform ray hthird]
          exact hle
        · exact le_top.trans_eq (not_lt_top_iff.mp hreached).symm
      · rw [← hsame, ← tested_eq_distance hit transform ray hother']
        exact hleast other hother
    · intro h
      refine ⟨fun sprite hahead => absurd hahead (hnone sprite), fun _ sprite hother _ => ?_⟩
      exact ⟨node, mem_others.mpr ⟨hnode, hsprite⟩, h.2 sprite (List.mem_of_mem_filter hother)⟩

/-- Where nothing is hit as the code tests it, the sprites must not be hit in the world. -/
theorem spritesRight_iff_of_missed {registry : Registry E M}
    (hmissed : ∀ node ∈ registry.nodes, tested hit transform ray node = ⊤) :
    SpritesRight hit transform ray registry ↔
      ∀ node ∈ registry.nodes, distance hit transform ray node = ⊤ := by
  have hnone : ∀ sprite, ¬ Ahead hit transform ray registry sprite := fun sprite hahead =>
    hahead.first.1.ne (hmissed sprite (List.mem_of_mem_filter hahead.first.mem))
  constructor
  · intro h node hnode
    by_cases hsprite : node.IsSprite
    · by_contra hreached
      obtain ⟨other, hother, hle⟩ :=
        h.behind hnone node ((isSprite_iff hnode).mp hsprite) (lt_top_iff_ne_top.mpr hreached)
      rw [← tested_eq_of_others hit transform ray hother, hmissed other (mem_others.mp hother).1,
        top_le_iff] at hle
      exact hreached hle
    · rw [← tested_eq_distance hit transform ray hsprite]
      exact hmissed node hnode
  · intro h
    refine ⟨fun sprite hahead => absurd hahead (hnone sprite), fun _ sprite hsprite hreached => ?_⟩
    exact absurd (h sprite (List.mem_of_mem_filter hsprite)) hreached.ne

variable [DecidableEq E] {editor : Editor E} {registry : Registry E M}

/-- Unless the nearest mesh entity is selected already, the first of the nearest entities
is selected, as the code tests them, if every mesh has a box. -/
theorem clickObject_eq_some (now : Int)
    (hprev : ∀ node, Lib.FirstNearest (distance hit transform ray) registry.meshGroup node →
      editor.selectedNode ≠ some node.entity) {selected : Option E} :
    (∃ editor', clickObject hit transform ray editor registry now = some editor' ∧
        editor'.selectedNode = selected) ↔
      (∀ node ∈ registry.nodes, node.HasBox) ∧
        selected =
          (Lib.nearest (tested hit transform ray) registry.clickOrder).map Node.entity := by
  have hnew : (registry.meshGroup.foldl (Lib.nearer (tested hit transform ray)) (none, ⊤)).1.filter
      (fun node => editor.selectedNode = some node.entity) = none := by
    have hmesh := nearest_meshGroup hit transform ray registry
    rw [Lib.nearest] at hmesh
    rw [hmesh, Option.filter_eq_none_iff]
    intro node hnode
    simpa using hprev node (Lib.nearest_eq_some_iff.mp hnode)
  constructor
  · rintro ⟨editor', h, rfl⟩
    obtain ⟨best, hbest, h⟩ := Option.bind_eq_some_iff.mp h
    obtain ⟨hboxes, rfl⟩ := (foldlM_meshGroup hit transform ray).mp hbest
    refine ⟨hboxes, ?_⟩
    simp only [hnew, foldl_rounds] at h
    exact congrArg Editor.selectedNode (Option.some.inj h).symm
  · rintro ⟨hboxes, rfl⟩
    have hbest := (foldlM_meshGroup hit transform ray).mpr ⟨hboxes, rfl⟩
    unfold clickObject
    simp only [hbest, Option.bind_eq_bind, Option.bind_some, hnew, foldl_rounds]
    exact ⟨_, rfl, rfl⟩

end

/-! ### A sprite that was moved away -/

/-- `BoundingBox::transform` by a matrix; no undefined box occurs below. -/
def moveBox (box : BoundingBox) (m : Matrix (Fin 4) (Fin 4) ℚ) : BoundingBox :=
  match box with
  | .corners min max => Math.transform min max m
  | .undefined => .undefined

/-- A sprite of two by two units at `x = 10`, and a ray along the `z` axis. -/
def movedAway : Registry Nat (Matrix (Fin 4) (Fin 4) ℚ) where
  nodes := [{
    entity := 1
    component := .sprite ⟨![-1, -1], 2, 2⟩
    worldMatrix := !![1, 0, 0, 10; 0, 1, 0, 0; 0, 0, 1, 0; 0, 0, 0, 1]
    worldPosition := ![10, 0, 0] }]
  nodup := by decide

def alongZ : Ray := ⟨![0, 0, 5], ![0, 0, -1]⟩

/-- The sprite at the origin, behind a mesh that the ray misses. -/
def atOrigin : Registry Nat (Matrix (Fin 4) (Fin 4) ℚ) where
  nodes := [{
    entity := 2
    component := .meshRenderer (some ⟨some (.corners ![20, 20, 0] ![22, 22, 1])⟩)
    worldMatrix := 1
    worldPosition := ![0, 0, 0] }, {
    entity := 1
    component := .sprite ⟨![-1, -1], 2, 2⟩
    worldMatrix := 1
    worldPosition := ![0, 0, 0] }]
  nodup := by decide

end Maple.Picking
