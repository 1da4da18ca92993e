import Maple.Lib.Fuel
import Maple.Lib.Run
import Maple.Scene.Scene

/-!
# Maple.Scene.SceneFiles

**What saving and loading do to a scene.**

`Scene::saveTo` writes only if `dirty` is set, and only the operations of `Scene`
itself set it. An edit that goes to the registry directly is saved if it is made
while the flag is still set from an earlier operation, and is lost otherwise
(`saved_edits`).

`Scene::loadFrom` clears the registry and disconnects the listener before it
reads the file, and nothing restores them when the archive throws
(`failed_load_never_harmless`).
-/

namespace Maple.Scene

open Lib

variable {V : Type}

/-! ### Saving -/

/-- The operations on a scene, from the engine and from the editor. -/
inductive Call (V : Type) where
  | createEntity
  | createNamed (name : String)
  | duplicateEntity (entity : Handle)
  | duplicateUnder (entity : Handle) (parent : Option Handle)
  | setParent (e parent : Handle)
  | destroy (e : Handle)
  | destroyEntity (e : Handle)
  | rename (e : Handle) (name : String)
  | dropOnNode (e node : Handle)
  | dropOnHeader (e : Handle)
  | dropOnEmptySpace (e : Handle)
  | addChild (node : Handle)
  | editComponents (e : Handle) (f : Components V → Components V)
  | saveTo (path : String)

/-- A scene being edited: with the disk, and the last state written to it. -/
structure Session (V : Type) where
  scene : Scene V
  disk : Disk V
  lastWritten : Option (Snapshot V)

namespace Session

/-- A new scene with the given path. -/
def start (name filePath : String) (disk : Disk V) : Session V :=
  ⟨{ Scene.create name with filePath := filePath }, disk, none⟩

/-- `Scene::saveTo` in a session. -/
def saveTo (delimiter : Char) (st : Session V) (path : String) : Session V where
  scene := (st.scene.saveTo delimiter st.disk path).1
  disk := (st.scene.saveTo delimiter st.disk path).2
  lastWritten := if st.scene.dirty then some st.scene.snapshot else st.lastWritten

/-- One operation. -/
def perform (delimiter : Char) (fuel : Nat) (st : Session V) :
    Call V → Except Fault (Session V)
  | .createEntity => st.scene.createEntity.map fun (_, s) => { st with scene := s }
  | .createNamed name => (st.scene.createNamed fuel name).map fun (_, s) => { st with scene := s }
  | .duplicateEntity e => (st.scene.duplicateEntity e).map fun s => { st with scene := s }
  | .duplicateUnder e p => (st.scene.duplicateUnder fuel e p).map fun s => { st with scene := s }
  | .setParent e p => (st.scene.setParent fuel e p).map fun s => { st with scene := s }
  | .destroy e => (st.scene.destroy e).map fun s => { st with scene := s }
  | .destroyEntity e => (st.scene.destroyEntity fuel e).map fun s => { st with scene := s }
  | .rename e name => (st.scene.rename e name).map fun s => { st with scene := s }
  | .dropOnNode e node => (st.scene.dropOnNode fuel e node).map fun s => { st with scene := s }
  | .dropOnHeader e => (st.scene.dropOnHeader e).map fun s => { st with scene := s }
  | .dropOnEmptySpace e => (st.scene.dropOnEmptySpace e).map fun s => { st with scene := s }
  | .addChild node => (st.scene.addChild fuel node).map fun s => { st with scene := s }
  | .editComponents e f => (st.scene.editComponents e f).map fun s => { st with scene := s }
  | .saveTo path => .ok (st.saveTo delimiter path)

/-- The file of the scene holds what the scene is now. -/
def OnDisk (st : Session V) : Prop := st.disk st.scene.filePath = some st.scene.snapshot

end Session

/-- The operations that set `dirty`. -/
def Call.raises : Call V → Bool
  | .createEntity => true
  | .createNamed _ => true
  | .duplicateEntity _ => true
  | .duplicateUnder _ _ => true
  | _ => false

/-- A scene that differs from another one in its registry only. -/
def Redrawn (s s' : Scene V) : Prop := s' = { s with registry := s'.registry }

theorem Redrawn.trans {s s' s'' : Scene V} (h : Redrawn s s') (h' : Redrawn s' s'') :
    Redrawn s s'' := by
  unfold Redrawn at h h' ⊢
  rw [h', h]

theorem redrawn_of_map {s s' : Scene V} {o : Except Fault (Registry (Components V))}
    (h : o.map (fun r => { s with registry := r }) = .ok s') : Redrawn s s' := by
  obtain ⟨r, -, rfl⟩ := map_eq_ok h
  exact rfl

theorem createBlank_redrawn {s s' : Scene V} {e : Handle} (h : s.createBlank = .ok (e, s')) :
    Redrawn s s' := by
  obtain ⟨p, -, hp⟩ := map_eq_ok h
  obtain ⟨-, rfl⟩ := Prod.mk.inj hp
  exact rfl

theorem setParent_redrawn {fuel : Nat} {s s' : Scene V} {e p : Handle}
    (h : s.setParent fuel e p = .ok s') : Redrawn s s' := by
  obtain ⟨c, -, h⟩ := bind_eq_ok h
  exact redrawn_of_map h

theorem duplicateUnder_redrawn {fuel : Nat} {s s' : Scene V} {e : Handle} {p : Option Handle}
    (h : s.duplicateUnder fuel e p = .ok s') : Redrawn { s with dirty := true } s' := by
  obtain ⟨⟨e', s₁⟩, hc, h⟩ := bind_eq_ok h
  have h₁ := createBlank_redrawn hc
  cases p with
  | none => exact Except.ok.inj h ▸ h₁
  | some p => exact h₁.trans (setParent_redrawn h)

theorem addChild_redrawn {fuel : Nat} {s s' : Scene V} {node : Handle}
    (h : s.addChild fuel node = .ok s') : Redrawn s s' := by
  obtain ⟨⟨e', s₁⟩, hc, h⟩ := bind_eq_ok h
  exact (createBlank_redrawn hc).trans (setParent_redrawn h)

theorem createNamed_redrawn {fuel : Nat} {s s' : Scene V} {name : String} {e : Handle}
    (h : s.createNamed fuel name = .ok (e, s')) : Redrawn { s with dirty := true } s' := by
  obtain ⟨free, -, h⟩ := bind_eq_ok h
  obtain ⟨p, -, hp⟩ := map_eq_ok h
  obtain ⟨-, rfl⟩ := Prod.mk.inj hp
  exact rfl

/-- **What an operation other than `saveTo` does**: the disk stays as it is, and of the
scene only the registry changes, and `dirty` if the operation raises it. -/
theorem perform_redrawn {delimiter : Char} {fuel : Nat} {st st' : Session V} {c : Call V}
    (h : st.perform delimiter fuel c = .ok st') (hc : ∀ path, c ≠ .saveTo path) :
    st'.disk = st.disk ∧ st'.lastWritten = st.lastWritten ∧
      Redrawn { st.scene with dirty := c.raises || st.scene.dirty } st'.scene := by
  cases c with
  | createEntity =>
      obtain ⟨⟨e, s⟩, hs, rfl⟩ := map_eq_ok h
      exact ⟨rfl, rfl, createBlank_redrawn hs⟩
  | createNamed name =>
      obtain ⟨⟨e, s⟩, hs, rfl⟩ := map_eq_ok h
      exact ⟨rfl, rfl, createNamed_redrawn hs⟩
  | duplicateEntity e =>
      obtain ⟨s, hs, rfl⟩ := map_eq_ok h
      obtain ⟨⟨e', s'⟩, hs', rfl⟩ := map_eq_ok hs
      exact ⟨rfl, rfl, createBlank_redrawn hs'⟩
  | duplicateUnder e p =>
      obtain ⟨s, hs, rfl⟩ := map_eq_ok h
      exact ⟨rfl, rfl, duplicateUnder_redrawn hs⟩
  | setParent e p =>
      obtain ⟨s, hs, rfl⟩ := map_eq_ok h
      exact ⟨rfl, rfl, setParent_redrawn hs⟩
  | destroy e =>
      obtain ⟨s, hs, rfl⟩ := map_eq_ok h
      exact ⟨rfl, rfl, redrawn_of_map hs⟩
  | destroyEntity e =>
      obtain ⟨s, hs, rfl⟩ := map_eq_ok h
      exact ⟨rfl, rfl, redrawn_of_map hs⟩
  | rename e name =>
      obtain ⟨s, hs, rfl⟩ := map_eq_ok h
      exact ⟨rfl, rfl, redrawn_of_map hs⟩
  | dropOnNode e node =>
      obtain ⟨s, hs, rfl⟩ := map_eq_ok h
      exact ⟨rfl, rfl, redrawn_of_map hs⟩
  | dropOnHeader e =>
      obtain ⟨s, hs, rfl⟩ := map_eq_ok h
      exact ⟨rfl, rfl, redrawn_of_map hs⟩
  | dropOnEmptySpace e =>
      obtain ⟨s, hs, rfl⟩ := map_eq_ok h
      exact ⟨rfl, rfl, redrawn_of_map hs⟩
  | addChild node =>
      obtain ⟨s, hs, rfl⟩ := map_eq_ok h
      exact ⟨rfl, rfl, addChild_redrawn hs⟩
  | editComponents e f =>
      obtain ⟨s, hs, rfl⟩ := map_eq_ok h
      exact ⟨rfl, rfl, redrawn_of_map hs⟩
  | saveTo path => exact absurd rfl (hc path)

/-- An operation that ends, as a step. -/
def Performs (delimiter : Char) (st : Session V) (c : Call V) (st' : Session V) : Prop :=
  Settles (fun fuel => st.perform delimiter fuel c) (.ok st')

/-- No step changes the entities or components of a scene behind the back of a cleared
`dirty` flag, and a scene is not saved before it was first marked as changed. -/
def Noticed (st : Session V) (c : Call V) (st' : Session V) : Prop :=
  st.scene.dirty ∨ c.raises ∨ match c with
    | .saveTo _ => st.lastWritten.isSome
    | _ => st'.scene.registry = st.scene.registry

/-- A step of a run that keeps to `Noticed`. -/
def NoticedStep (delimiter : Char) (st : Session V) (c : Call V) (st' : Session V) : Prop :=
  Performs delimiter st c st' ∧ Noticed st c st'

/-- A scene that is not marked as changed is on disk, once it was written. -/
def Session.Kept (st : Session V) : Prop :=
  st.scene.dirty = false → st.lastWritten.isSome → st.OnDisk

/-- A marked scene is written, to the file it then has. -/
theorem Session.saveTo_dirty {delimiter : Char} {st : Session V} (h : st.scene.dirty = true)
    (path : String) : (st.saveTo delimiter path).OnDisk := by
  unfold Session.OnDisk Session.saveTo Scene.saveTo
  rw [if_pos h]
  exact Function.update_self _ _ _

theorem Session.saveTo_clean {delimiter : Char} {st : Session V} (h : st.scene.dirty = false)
    (path : String) : st.saveTo delimiter path = st := by
  unfold Session.saveTo Scene.saveTo
  simp only [h, Bool.false_eq_true, if_false]

theorem Session.Kept.step {delimiter : Char} {st st' : Session V} {c : Call V} (hk : st.Kept)
    (hstep : Performs delimiter st c st') (hn : Noticed st c st') : st'.Kept := by
  obtain ⟨fuel, hfuel⟩ := hstep
  have h : st.perform delimiter fuel c = .ok st' := hfuel fuel (Nat.le_refl fuel)
  by_cases hsave : ∃ path, c = .saveTo path
  · obtain ⟨path, rfl⟩ := hsave
    obtain rfl := Except.ok.inj h
    cases hd : st.scene.dirty with
    | true => exact fun _ _ => Session.saveTo_dirty hd path
    | false =>
        rw [Session.saveTo_clean hd]
        exact hk
  · push Not at hsave
    obtain ⟨hdisk, hlast, hscene⟩ := perform_redrawn h hsave
    intro hclean hwritten
    have hdirty : (c.raises || st.scene.dirty) = false := by
      rw [hscene] at hclean
      exact hclean
    obtain ⟨hraises, hd⟩ := Bool.or_eq_false_iff.mp hdirty
    -- neither mark applies, so the step left the registry alone
    have hsame : st'.scene.registry = st.scene.registry := by
      obtain hd' | hr | hsame := hn
      · exact absurd hd' (by simp [hd])
      · exact absurd hr (by simp [hraises])
      · cases c <;> first | exact hsame | exact absurd rfl (hsave _)
    have heq : st'.scene = st.scene := by
      rw [hscene, hsame, hraises, Bool.false_or]
    unfold Session.OnDisk
    rw [heq, hdisk]
    exact hk hd (hlast ▸ hwritten)

/-- **No edit is lost by saving**, in every run that keeps to `Noticed`: after `saveTo`
the file of the scene holds the scene as it is. -/
theorem saved_edits (delimiter : Char) {name filePath : String} {disk : Disk V}
    {calls : List (Call V)} {st : Session V}
    (hrun : Run (NoticedStep delimiter) (Session.start name filePath disk) calls st) (path : String)
    (hsave : Noticed st (.saveTo path) (st.saveTo delimiter path)) :
    (st.saveTo delimiter path).OnDisk ∧
      (st.saveTo delimiter path).scene.registry = st.scene.registry := by
  have hk : st.Kept := by
    refine hrun.state_invariant (I := Session.Kept)
      (fun _ h => absurd h (by simp [Session.start])) ?_
    intro t c u hk hstep
    exact hk.step hstep.1 hstep.2
  cases hd : st.scene.dirty with
  | true =>
      refine ⟨Session.saveTo_dirty hd path, ?_⟩
      unfold Session.saveTo Scene.saveTo
      rw [if_pos hd]
  | false =>
      rw [Session.saveTo_clean hd]
      obtain hd' | hr | hwritten := hsave
      · exact absurd hd' (by simp [hd])
      · exact absurd hr (by simp [Call.raises])
      · exact ⟨hk hd hwritten, rfl⟩

/-- An entity is created and saved; after a second one is created, it is renamed. -/
theorem saved_edits_rename :
    ∃ st : Session Unit, Run (NoticedStep '/') (Session.start "level" "" fun _ => none)
        [.createEntity, .saveTo "", .createEntity, .rename ⟨0, 0⟩ "door"] st ∧
      (st.saveTo '/' "").OnDisk := by
  have hsteps : ∃ s₁ s₂ s₃ s₄ : Session Unit,
      NoticedStep '/' (Session.start "level" "" fun _ => none) .createEntity s₁ ∧
      NoticedStep '/' s₁ (.saveTo "") s₂ ∧ NoticedStep '/' s₂ .createEntity s₃ ∧
      NoticedStep '/' s₃ (.rename ⟨0, 0⟩ "door") s₄ ∧
      s₄.scene.dirty = true :=
    ⟨_, _, _, _, ⟨Settles.of_forall fun _ => rfl, .inr (.inl rfl)⟩,
      ⟨Settles.of_forall fun _ => rfl, .inl rfl⟩, ⟨Settles.of_forall fun _ => rfl, .inr (.inl rfl)⟩,
      ⟨Settles.of_forall fun _ => rfl, .inl rfl⟩, rfl⟩
  obtain ⟨s₁, s₂, s₃, s₄, h₁, h₂, h₃, h₄, hdirty⟩ := hsteps
  have hrun := ((((Run.nil _).snoc h₁).snoc h₂).snoc h₃).snoc h₄
  exact ⟨s₄, hrun, (saved_edits '/' hrun "" (.inl hdirty)).1⟩

/-- An entity is created and saved, then destroyed; the second `saveTo` leaves the file
with the entity in it. -/
theorem saved_edits_lost :
    ∃ s₁ s₂ s₃ s₄ : Session Unit,
      Performs '/' (Session.start "level" "" fun _ => none) .createEntity s₁ ∧
      Performs '/' s₁ (.saveTo "") s₂ ∧ Performs '/' s₂ (.destroy ⟨0, 0⟩) s₃ ∧
      Performs '/' s₃ (.saveTo "") s₄ ∧ ¬ s₄.scene.registry.Valid ⟨0, 0⟩ ∧
      (∃ file, s₄.disk "level.scene" = some file ∧ file.registry.Valid ⟨0, 0⟩) ∧
      s₄.scene.filePath = "level.scene" ∧ ¬ s₄.OnDisk := by
  have hsteps : ∃ s₁ s₂ s₃ s₄ : Session Unit,
      Performs '/' (Session.start "level" "" fun _ => none) .createEntity s₁ ∧
      Performs '/' s₁ (.saveTo "") s₂ ∧ Performs '/' s₂ (.destroy ⟨0, 0⟩) s₃ ∧
      Performs '/' s₃ (.saveTo "") s₄ ∧ ¬ s₄.scene.registry.Valid ⟨0, 0⟩ ∧
      (∃ file, s₄.disk "level.scene" = some file ∧ file.registry.Valid ⟨0, 0⟩) ∧
      s₄.scene.filePath = "level.scene" :=
    ⟨_, _, _, _, Settles.of_forall fun _ => rfl, Settles.of_forall fun _ => rfl,
      Settles.of_forall fun _ => rfl, Settles.of_forall fun _ => rfl, by decide,
      ⟨_, rfl, by decide⟩, rfl⟩
  obtain ⟨s₁, s₂, s₃, s₄, h₁, h₂, h₃, h₄, hgone, ⟨file, hfile, hthere⟩, hpath⟩ := hsteps
  refine ⟨s₁, s₂, s₃, s₄, h₁, h₂, h₃, h₄, hgone, ⟨file, hfile, hthere⟩, hpath, fun hdisk => ?_⟩
  unfold Session.OnDisk at hdisk
  rw [hpath, hfile] at hdisk
  obtain rfl := Option.some.inj hdisk
  exact hgone hthere

/-! ### Loading -/

/-- The scene is as it was, and children are linked when a `Hierarchy` is constructed. -/
structure Harmless (s s' : Scene V) : Prop where
  entities : s'.registry = s.registry
  connected : s'.connected = true

/-- **A load that throws leaves the listener disconnected.** -/
theorem loadFrom_threw {loadScene : String → Scene V → LoadResult V} {s : Scene V}
    (hpath : s.filePath ≠ "") (hthrew : (s.loadFrom loadScene).1 = .threw) :
    (s.loadFrom loadScene).2.connected = false := by
  unfold loadFrom at hthrew ⊢
  rw [if_pos hpath] at hthrew ⊢
  cases hclear : clear s.registry with
  | error fault =>
      rw [hclear] at hthrew
      exact absurd hthrew nofun
  | ok r =>
      rw [hclear] at hthrew
      simp only at hthrew ⊢
      split at hthrew
      · next h =>
          rw [if_pos h]
          rfl
      · exact absurd hthrew nofun

/-- With the listener disconnected, an entity that `setParent` gives a `Hierarchy` is
not linked: no other component changes. -/
theorem setParent_disconnected {fuel : Nat} {s s' : Scene V} {e p : Handle}
    (hdis : s.connected = false) (hnone : s.registry.hierarchy e = none)
    (h : s.setParent fuel e p = .ok s') :
    ∀ x, x ≠ e → s'.registry.hierarchy x = s.registry.hierarchy x := by
  obtain ⟨c, hc, h⟩ := bind_eq_ok h
  obtain ⟨r, hr, rfl⟩ := map_eq_ok h
  have hv : s.registry.Valid e := by
    by_contra hv
    rw [Registry.tryGet_of_not_valid hv] at hc
    exact absurd hc nofun
  rw [Registry.tryGet_of_valid hv, hnone] at hc
  obtain rfl := Except.ok.inj hc
  intro x hx
  simp only at hr ⊢
  split at hr
  · unfold Registry.emplace at hr
    rw [Registry.tryGet_of_valid hv, hnone] at hr
    simp only [Except.bind, hook, hdis, Bool.false_eq_true, if_false] at hr
    obtain rfl := Except.ok.inj hr
    exact Function.update_of_ne hx _ _
  · obtain rfl := Except.ok.inj hr
    rfl

/-- **A failed load is never harmless**: whatever the scene and whatever the file, once
the archive has thrown the listener is disconnected, and no later `setParent` of an
entity without a `Hierarchy` links it to its parent. -/
theorem failed_load_never_harmless (loadScene : String → Scene V → LoadResult V) (s : Scene V)
    (hpath : s.filePath ≠ "") (hthrew : (s.loadFrom loadScene).1 = .threw) :
    ¬ Harmless s (s.loadFrom loadScene).2 ∧
      ∀ fuel e p s', (s.loadFrom loadScene).2.registry.hierarchy e = none →
        (s.loadFrom loadScene).2.setParent fuel e p = .ok s' →
        ∀ x, x ≠ e → s'.registry.hierarchy x = (s.loadFrom loadScene).2.registry.hierarchy x := by
  have hdis := loadFrom_threw hpath hthrew
  refine ⟨fun h => ?_, fun fuel e p s' hnone h => setParent_disconnected hdis hnone h⟩
  exact absurd h.connected (by simp [hdis])

/-- An archive that throws before it has read anything, as on malformed input. -/
def malformed (_ : String) (s : Scene V) : LoadResult V := ⟨true, s.name, s.version, s.registry⟩

/-- A scene that has a file, with one entity in it. -/
def oneEntity : Scene Unit where
  name := "level"
  filePath := "level.scene"
  version := 1
  dirty := false
  connected := true
  registry := ⟨⟨[0], [], List.nodup_nil, by simp⟩, fun _ => none,
    Function.update (fun _ => none) ⟨0, 0⟩ (some {})⟩

theorem failed_load_never_harmless_malformed :
    oneEntity.filePath ≠ "" ∧ (oneEntity.loadFrom malformed).1 = .threw ∧
      ¬ Harmless oneEntity (oneEntity.loadFrom malformed).2 := by
  have hpath : oneEntity.filePath ≠ "" := by decide
  have hthrew : (oneEntity.loadFrom malformed).1 = .threw := rfl
  exact ⟨hpath, hthrew, (failed_load_never_harmless malformed oneEntity hpath hthrew).1⟩

/-- The scene has lost its entity; two new ones are created and one made the parent of
the other, but it has no child. -/
theorem failed_load_harms :
    (oneEntity.loadFrom malformed).1 = .threw ∧ oneEntity.registry.Valid ⟨0, 0⟩ ∧
      ¬ (oneEntity.loadFrom malformed).2.registry.Valid ⟨0, 0⟩ ∧
      (oneEntity.loadFrom malformed).2.connected = false ∧
      ∃ parent child s₁ s₂ s₃,
        (oneEntity.loadFrom malformed).2.createEntity = .ok (parent, s₁) ∧
        s₁.createEntity = .ok (child, s₂) ∧
        Settles (fun fuel => s₂.setParent fuel child parent) (.ok s₃) ∧
        s₃.registry.link .parent child = some parent ∧ s₃.registry.link .first parent = none := by
  exact ⟨rfl, by decide, by decide, rfl, ⟨0, 1⟩, ⟨1, 0⟩, _, _, _, rfl, rfl,
    Settles.of_forall fun fuel => rfl, rfl, rfl⟩

end Maple.Scene
