import Maple.Scene.Clearing
import Maple.Scene.Scene

/-!
# Maple.Scene.ContextMenu

**The context menu of a node** in `HierarchyWindow::drawNode`, with the clipboard
of `Editor.cpp`. Two entries of the menu set the flag `deleteEntity`, which is
acted upon at the end of `drawNode`: `Delete`, and `Paste` of an entity that was
cut. The clipboard never learns that an entity was cut, since `setCopiedEntity`
drops its second argument, so `Cut` and `Paste` leave the original where it is;
and the flag would delete the node that is pasted on.
-/

namespace Maple

open Lib Registry

variable {V : Type}

/-! ### The menu -/

/-- The clipboard of `Editor`. -/
structure Editor where
  copiedNode : Option Handle := none
  cutCopyEntity : Bool := false
  deriving DecidableEq, Repr

namespace Editor

/-- `Editor::setCopiedEntity`; the parameter `cut` is not used. -/
def setCopiedEntity (editor : Editor) (selectedNode : Option Handle) (_cut : Bool) : Editor :=
  { editor with copiedNode := selectedNode }

end Editor

namespace HierarchyWindow

/-- The entries of the menu; `Rename` only opens a text field. -/
inductive MenuItem where
  | copy
  | cut
  | paste
  | duplicate
  | delete
  | rename
  | addChild
  deriving DecidableEq, Repr

/-- The menu of `node`. The flag of the result is `deleteEntity`. -/
def selectItem (fuel : Nat) (editor : Editor) (scene : Scene V) (node : Handle) :
    MenuItem → Except Fault (Editor × Scene V × Bool)
  | .copy => .ok (editor.setCopiedEntity (some node) false, scene, false)
  | .cut => .ok (editor.setCopiedEntity (some node) true, scene, false)
  | .paste =>
    -- disabled without a valid entity in the clipboard
    match editor.copiedNode.filter (scene.registry.Valid ·) with
    | none => .ok (editor, scene, false)
    | some copiedEntity =>
      (scene.duplicateUnder fuel copiedEntity (some node)).map fun scene =>
        (editor, scene, editor.cutCopyEntity)
  | .duplicate => (scene.duplicateEntity node).map fun scene => (editor, scene, false)
  | .delete => .ok (editor, scene, true)
  | .rename => .ok (editor, scene, false)
  | .addChild => (scene.addChild fuel node).map fun scene => (editor, scene, false)

/-- `HierarchyWindow::drawNode` with an entry of the menu selected. -/
def drawNode (fuel : Nat) (editor : Editor) (scene : Scene V) (node : Handle) (item : MenuItem) :
    Except Fault (Editor × Scene V) :=
  (selectItem fuel editor scene node item).bind fun (editor, scene, deleteEntity) =>
    if deleteEntity then (scene.destroyEntity fuel node).map fun scene => (editor, scene)
    else .ok (editor, scene)

/-- `Cut` on `c`, then `Paste` on `n`. -/
def cutAndPaste (fuel : Nat) (editor : Editor) (scene : Scene V) (c n : Handle) :
    Except Fault (Editor × Scene V) :=
  (drawNode fuel editor scene c .cut).bind fun (editor, scene) =>
    drawNode fuel editor scene n .paste

end HierarchyWindow

/-! ### Handles that stay valid -/

theorem Hierarchy.onConstruct_entities {T : Type} {r r' : Registry T} {fuel : Nat} {e : Handle}
    (h : onConstruct fuel r e = .ok r') : r'.entities = r.entities := by
  induction fuel generalizing r r' e with
  | zero => exact absurd h nofun
  | succ fuel ih =>
      obtain ⟨c, -, h⟩ := bind_eq_ok h
      cases hparent : c.parent with
      | none =>
          simp only [hparent] at h
          exact congrArg Registry.entities (Except.ok.inj h).symm
      | some p =>
          simp only [hparent] at h
          obtain ⟨r₁, hgoe, h⟩ := bind_eq_ok h
          have hent : r₁.entities = r.entities := by
            obtain ⟨cp, hcp, hgoe⟩ := bind_eq_ok hgoe
            cases cp with
            | some cp => exact congrArg Registry.entities (Except.ok.inj hgoe).symm
            | none =>
                -- the parent is given a `Hierarchy` by a nested call
                simp only [emplace, hcp, Except.bind] at hgoe
                exact (ih hgoe).trans rfl
          obtain ⟨cp, -, h⟩ := bind_eq_ok h
          cases hfirst : cp.first with
          | none =>
              simp only [hfirst] at h
              exact (congrArg Registry.entities (Except.ok.inj h).symm).trans hent
          | some first =>
              simp only [hfirst] at h
              obtain ⟨last, -, rfl⟩ := map_eq_ok h
              exact hent

namespace Scene

/-- A new entity. -/
theorem createBlank_spec {s s' : Scene V} {e : Handle} (h : s.createBlank = .ok (e, s')) :
    s' = { s with registry := s'.registry } ∧ s.registry.create (some {}) = .ok (e, s'.registry) ∧
      s'.registry.hierarchy = s.registry.hierarchy ∧ ¬ s.registry.Valid e ∧
      ∀ x, s'.registry.Valid x ↔ x = e ∨ s.registry.Valid x := by
  obtain ⟨⟨e', r⟩, hcreate, heq⟩ := map_eq_ok h
  obtain ⟨rfl, rfl⟩ := Prod.mk.inj heq
  obtain ⟨⟨e'', entities⟩, hids, heq⟩ := map_eq_ok hcreate
  obtain ⟨rfl, rfl⟩ := Prod.mk.inj heq
  obtain ⟨hnew, hvalid⟩ := Entities.create_valid hids
  exact ⟨rfl, hcreate, rfl, hnew, hvalid⟩

/-- `duplicateEntity` invalidates nothing. -/
theorem duplicateUnder_valid {kids : Handle → List Handle} {fuel : Nat} {s s' : Scene V}
    (hforest : Forest s.registry kids) {c n : Handle}
    (h : s.duplicateUnder fuel c (some n) = .ok s') {x : Handle} (hx : s.registry.Valid x) :
    s'.registry.Valid x := by
  obtain ⟨⟨e, s₁⟩, hcreate, h⟩ := bind_eq_ok h
  obtain ⟨-, -, hhier, hnew, hvalid⟩ := createBlank_spec hcreate
  have hx₁ : s₁.registry.Valid x := (hvalid x).mpr (Or.inr hx)
  have hnone : s₁.registry.hierarchy e = none := by
    rw [hhier]
    exact Option.not_isSome_iff_eq_none.mp fun hsome => hnew (hforest.live e hsome)
  have htry : s₁.registry.tryGet e = .ok none := by
    rw [tryGet_of_valid ((hvalid e).mpr (Or.inl rfl)), hnone]
  obtain ⟨c₁, hc₁, h⟩ := bind_eq_ok h
  obtain rfl := Except.ok.inj (htry.symm.trans hc₁)
  obtain ⟨r', hset, rfl⟩ := map_eq_ok h
  replace hset : (if n ≠ e then s₁.registry.emplace (s₁.hook fuel) e { parent := some n }
      else .ok s₁.registry) = .ok r' := hset
  have hent : r'.entities = s₁.registry.entities := by
    split at hset
    · obtain ⟨c₂, hc₂, hset⟩ := bind_eq_ok hset
      obtain rfl := Except.ok.inj (htry.symm.trans hc₂)
      simp only [hook] at hset
      split at hset
      · exact (Hierarchy.onConstruct_entities hset).trans rfl
      · exact (congrArg Registry.entities (Except.ok.inj hset).symm).trans rfl
    · exact congrArg Registry.entities (Except.ok.inj hset).symm
  show r'.entities.Valid x
  rw [hent]
  exact hx₁

end Scene

namespace HierarchyWindow

/-! ### Cutting and pasting -/

/-- The clipboard hands out an entity that is still valid. -/
theorem copiedNode_setCopiedEntity (editor : Editor) {r : Registry (Components V)}
    {c : Handle} (hvc : r.Valid c) (cut : Bool) :
    (editor.setCopiedEntity (some c) cut).copiedNode.filter (r.Valid ·) = some c := by
  simp [Editor.setCopiedEntity, hvc]

/-- What cutting `c` and pasting it on `n` is expected to do. -/
structure CutPasted (r r' : Registry (Components V)) (kids : Handle → List Handle)
    (c n : Handle) : Prop where
  stays : ∀ x, r.Valid x → ¬ Below kids c x → r'.Valid x
  gone : ∀ x, Below kids c x → ¬ r'.Valid x
  pasted : ∃ e, ¬ r.Valid e ∧ r'.Valid e ∧ r'.link .parent e = some n

/-- **Cut and paste never moves the entity**: the original stays, since the clipboard
does not know that it was cut; with the flag set, the node that is pasted on would
go. -/
theorem cut_paste_never_moves (editor : Editor) {scene : Scene V} {kids : Handle → List Handle}
    (h : Forest scene.registry kids) {c n : Handle} (hvc : scene.registry.Valid c)
    (hvn : scene.registry.Valid n) (hn : ¬ Below kids c n) :
    ¬ ∃ editor' scene', Settles (fun fuel => cutAndPaste fuel editor scene c n)
        (.ok (editor', scene')) ∧ CutPasted scene.registry scene'.registry kids c n := by
  rintro ⟨editor', scene', ⟨N, hN⟩, hmoved⟩
  have hrun : drawNode N (editor.setCopiedEntity (some c) true) scene n .paste =
      .ok (editor', scene') := hN N (Nat.le_refl N)
  obtain ⟨⟨editor₁, scene₁, deleteEntity⟩, hitem, hrun⟩ := bind_eq_ok hrun
  have hclip := copiedNode_setCopiedEntity editor hvc true
  simp only [selectItem, hclip] at hitem
  obtain ⟨scene₂, hdup, heq⟩ := map_eq_ok hitem
  obtain ⟨rfl, rfl, rfl⟩ : _ ∧ _ ∧ _ := by simpa using heq
  simp only at hrun
  split at hrun
  · -- the flag is set: `n` is deleted
    obtain ⟨scene₃, hdestroy, heq⟩ := map_eq_ok hrun
    obtain ⟨r', hgone, rfl⟩ := map_eq_ok hdestroy
    obtain rfl := (Prod.mk.inj heq).2
    exact destroyEntity_gone hgone (hmoved.stays n hvn hn)
  · -- the flag is not set: nothing is deleted
    obtain rfl := (Prod.mk.inj (Except.ok.inj hrun)).2
    exact hmoved.gone c Relation.ReflTransGen.refl (Scene.duplicateUnder_valid h hdup hvc)

/-- A scene with two entities. -/
def twoRoots : Scene Unit :=
  { (Scene.create "level" : Scene Unit) with registry := twoEntities none none }

/-- The first entity is cut and pasted on the second one. -/
theorem cut_paste_never_moves_root :
    ¬ ∃ editor' scene', Settles (fun fuel => cutAndPaste fuel {} twoRoots ⟨0, 0⟩ ⟨1, 0⟩)
        (.ok (editor', scene')) ∧
      CutPasted twoRoots.registry scene'.registry (fun _ => []) ⟨0, 0⟩ ⟨1, 0⟩ := by
  refine cut_paste_never_moves {} (forest_twoEntities none none) (by decide) (by decide) ?_
  exact fun hbelow => absurd (hbelow.eq_of_leaf rfl) (by decide)

/-- There the original is still alive, and the new entity is a child of the second
one. -/
theorem cut_paste_copies : ∃ editor' scene',
    Forest twoRoots.registry (fun _ => []) ∧
      Settles (fun fuel => cutAndPaste fuel {} twoRoots ⟨0, 0⟩ ⟨1, 0⟩) (.ok (editor', scene')) ∧
      scene'.registry.Valid ⟨0, 0⟩ ∧ scene'.registry.link .parent ⟨2, 0⟩ = some ⟨1, 0⟩ ∧
      ¬ CutPasted twoRoots.registry scene'.registry (fun _ => []) ⟨0, 0⟩ ⟨1, 0⟩ :=
  ⟨_, _, forest_twoEntities none none, Settles.of_add 3 fun _ => rfl, by decide, rfl,
    fun hmoved => hmoved.gone ⟨0, 0⟩ Relation.ReflTransGen.refl (by decide)⟩

end HierarchyWindow

end Maple
