import Maple.Terrain.MarkingOrder

/-!
# Maple.Terrain.WalkMarks

**Which quads a frame splits.** The distances of a frame say which vertices are near. The
walk of the frame reaches the root vertices and the children of the reached vertices that
are near (`Reached`); where it ends, it sets the quads around the vertex at the border
(`borderQuads`). So the quads that become active are those above one of these quads
(`walk_marks`), and they depend on the links and the distances only.
-/

namespace Maple.Terrain

open Lib QuadCollapseMesh

variable {V : Type} {k l : Nat} {m m' b : QuadCollapseMesh V} {near : Nat → Bool}

/-- The vertices that the walk of a frame reaches. -/
inductive Reached (near : Nat → Bool) (m : QuadCollapseMesh V) : Nat → Prop
  | root {c : Fin 4} {v : Nat} : m.rootVertNodes c = some v → Reached near m v
  | child {v c : Nat} : Reached near m v → near v = true → (m.verts c).parent = some v →
      Reached near m c

/-- The walk goes no further than the vertex. -/
def Ends (near : Nat → Bool) (m : QuadCollapseMesh V) (v : Nat) : Prop :=
  near v = true → (m.verts v).firstChild = none

/-- The quads around the vertices where the walk ends. -/
def borderQuads (near : Nat → Bool) (m : QuadCollapseMesh V) : Set QuadPtr :=
  {q | ∃ v, Reached near m v ∧ Ends near m v ∧ q ∈ (m.verts v).adjcentQuads}

/-- The quads above these, of which the children are drawn. -/
def splitQuads (near : Nat → Bool) (m : QuadCollapseMesh V) : Set QuadPtr :=
  above (fun q => (m.quads q).parent) (borderQuads near m)

/-! ### What marking a quad leaves alone -/

/-- Only quads have been marked. -/
def QuadsOnly (m m' : QuadCollapseMesh V) : Prop :=
  m' = { m with quads := m'.quads, markedQuads := m'.markedQuads }

theorem QuadsOnly.trans {m'' : QuadCollapseMesh V} (h : QuadsOnly m m') (h' : QuadsOnly m' m'') :
    QuadsOnly m m'' := by
  unfold QuadsOnly at *
  rw [h', h]

theorem activateParents_quadsOnly {fuel : Nat} {next : Option Nat}
    (hrun : activateParents fuel m next = .ok m') : QuadsOnly m m' := by
  induction fuel generalizing m next with
  | zero => exact absurd hrun nofun
  | succ fuel ih =>
      cases next with
      | none =>
          obtain rfl := Except.ok.inj hrun
          rfl
      | some p =>
          rw [activateParents] at hrun
          split at hrun
          · obtain rfl := Except.ok.inj hrun
            rfl
          · have hmark : QuadsOnly m (m.markQuad (.node p) .active) := rfl
            exact hmark.trans (ih hrun)

theorem quadNodeSetBoundary_quadsOnly {fuel : Nat} {q : QuadPtr}
    (hrun : quadNodeSetBoundary fuel m q = .ok m') : QuadsOnly m m' := by
  rw [quadNodeSetBoundary] at hrun
  split at hrun
  · obtain rfl := Except.ok.inj hrun
    rfl
  · have hmark : QuadsOnly m (m.markQuad q .boundary) := rfl
    exact hmark.trans (activateParents_quadsOnly hrun)

theorem setBoundaries_quadsOnly {fuel : Nat} {qs : List QuadPtr}
    (hrun : qs.foldlM (quadNodeSetBoundary fuel) m = .ok m') : QuadsOnly m m' := by
  induction qs generalizing m with
  | nil =>
      obtain rfl := Except.ok.inj hrun
      rfl
  | cons q qs ih =>
      obtain ⟨m₁, hfirst, hrest⟩ := bind_eq_ok (hrun : Except.bind _ _ = _)
      exact (quadNodeSetBoundary_quadsOnly hfirst).trans (ih hrest)

/-! ### The invariant of the walk -/

/-- The walk over the mesh `b`: it has been called for the quads `S` so far, and the calls
for the vertices `stack` have not ended. -/
structure Walking (near : Nat → Bool) (b : QuadCollapseMesh V) (stack : Set Nat)
    (S : Set QuadPtr) (m : QuadCollapseMesh V) : Prop where
  marks : MarkedFor b.updateFrame b.quads S m
  links : ∀ v, (m.verts v).toVertLinks = (b.verts v).toVertLinks
  roots : m.rootVertNodes = b.rootVertNodes
  reached : ∀ v, Visited m v → Reached near b v
  sound : S ⊆ borderQuads near b
  border : ∀ v, Visited m v → v ∉ stack → Ends near b v → ∀ q ∈ (b.verts v).adjcentQuads, q ∈ S
  children : ∀ v, Visited m v → v ∉ stack → near v = true →
    ∀ c, (b.verts c).parent = some v → Visited m c

variable {stack : Set Nat} {S : Set QuadPtr}

theorem Walking.frame (h : Walking near b stack S m) : m.updateFrame = b.updateFrame :=
  Marks.frame h.marks

/-- Writing places and states changes nothing that matters. -/
theorem Walking.modifyVert (h : Walking near b stack S m) (v : Nat)
    {f : VertNode V → VertNode V} (hlinks : ∀ x, (f x).toVertLinks = x.toVertLinks)
    (hstamp : ∀ x, (f x).activeFrame = x.activeFrame) :
    Walking near b stack S (m.modifyVert v f) ∧
      ∀ x, Visited (m.modifyVert v f) x ↔ Visited m x := by
  have hverts := modifyVert_keeps (m := m) v hlinks hstamp
  have hvisited : ∀ x, Visited (m.modifyVert v f) x ↔ Visited m x := fun x => by
    rw [Visited, (hverts x).2]
    rfl
  have hmarks : MarkedFor b.updateFrame b.quads S (m.modifyVert v f) :=
    ⟨h.marks.frame, h.marks.links, h.marks.stamped, h.marks.active, h.marks.closed, h.marks.rest⟩
  have hwalking : Walking near b stack S (m.modifyVert v f) := by
    constructor
    · exact hmarks
    · exact fun x => (hverts x).1.trans (h.links x)
    · exact h.roots
    · exact fun x hx => h.reached x ((hvisited x).mp hx)
    · exact h.sound
    · exact fun x hx => h.border x ((hvisited x).mp hx)
    · intro x hx hstack hnear c hc
      exact (hvisited c).mpr (h.children x ((hvisited x).mp hx) hstack hnear c hc)
  exact ⟨hwalking, hvisited⟩

/-- A call begins. -/
theorem Walking.markVert (h : Walking near b stack S m) (hF : b.updateFrame < 2 ^ 24) {v : Nat}
    (hv : Reached near b v) :
    Walking near b (insert v stack) S (m.markVert v) ∧
      ∀ x, Visited (m.markVert v) x ↔ x = v ∨ Visited m x := by
  have hvisited : ∀ x, Visited (m.markVert v) x ↔ x = v ∨ Visited m x := by
    intro x
    by_cases hx : x = v
    · rw [Visited, hx, markVert_self]
      exact iff_of_true (Nat.mod_eq_of_lt (h.frame ▸ hF)) (.inl rfl)
    · rw [Visited, markVert_of_ne hx, or_iff_right hx]
      rfl
  have hmarks : MarkedFor b.updateFrame b.quads S (m.markVert v) :=
    ⟨h.marks.frame, h.marks.links, h.marks.stamped, h.marks.active, h.marks.closed, h.marks.rest⟩
  have hwalking : Walking near b (insert v stack) S (m.markVert v) := by
    constructor
    · exact hmarks
    · intro x
      by_cases hx : x = v
      · rw [hx, markVert_self]
        exact h.links v
      · rw [markVert_of_ne hx]
        exact h.links x
    · exact h.roots
    · intro x hx
      rcases (hvisited x).mp hx with rfl | hx
      · exact hv
      · exact h.reached x hx
    · exact h.sound
    · intro x hx hstack
      have hne : ¬ x = v := fun heq => hstack (.inl heq)
      exact h.border x (((hvisited x).mp hx).resolve_left hne) fun hmem => hstack (.inr hmem)
    · intro x hx hstack hnear c hc
      have hne : ¬ x = v := fun heq => hstack (.inl heq)
      have hx := ((hvisited x).mp hx).resolve_left hne
      exact (hvisited c).mpr (.inr (h.children x hx (fun hmem => hstack (.inr hmem)) hnear c hc))
  exact ⟨hwalking, hvisited⟩

/-- A call ends. -/
theorem Walking.leave {v : Nat} (h : Walking near b (insert v stack) S m)
    (hborder : Ends near b v → ∀ q ∈ (b.verts v).adjcentQuads, q ∈ S)
    (hchildren : near v = true → ∀ c, (b.verts c).parent = some v → Visited m c) :
    Walking near b stack S m := by
  refine { h with border := fun x hx hstack => ?_, children := fun x hx hstack => ?_ }
  · by_cases hxv : x = v
    · exact hxv ▸ hborder
    · exact h.border x hx fun hmem => hmem.elim hxv hstack
  · by_cases hxv : x = v
    · exact hxv ▸ hchildren
    · exact h.children x hx fun hmem => hmem.elim hxv hstack

/-- The quads around a vertex where the walk ends. -/
theorem Walking.setBoundary {fuel v : Nat} {place : V}
    (h : Walking near b (insert v stack) S m) (hF : b.updateFrame < 2 ^ 24)
    (hv : Reached near b v) (hends : Ends near b v)
    (hnone : near v = true → ∀ c, (b.verts c).parent ≠ some v)
    (hrun : setBoundary fuel m v place = .ok m') :
    Walking near b stack (S ∪ {q | q ∈ (b.verts v).adjcentQuads}) m' ∧
      ∀ x, Visited m x → Visited m' x := by
  obtain ⟨h₁, hvisited₁⟩ := h.modifyVert v
    (f := fun x => { x with interpolatedVertex := place }) (fun _ => rfl) fun _ => rfl
  rw [QuadCollapseMesh.setBoundary, h.links] at hrun
  have honly := setBoundaries_quadsOnly hrun
  have hmarks := h₁.marks.foldlM (Nat.lt_trans hF (by decide)) hrun
  have hvisited : ∀ x, Visited m' x ↔ Visited m x := by
    intro x
    rw [← hvisited₁, Visited, honly]
    rfl
  have hwalking : Walking near b (insert v stack) (S ∪ {q | q ∈ (b.verts v).adjcentQuads})
      m' := by
    constructor
    · exact hmarks
    · rw [honly]
      exact h₁.links
    · rw [honly]
      exact h₁.roots
    · exact fun x hx => h.reached x ((hvisited x).mp hx)
    · rintro q (hq | hq)
      · exact h.sound hq
      · exact ⟨v, hv, hends, hq⟩
    · intro x hx hstack hx' q hq
      exact .inl (h.border x ((hvisited x).mp hx) hstack hx' q hq)
    · intro x hx hstack hnear c hc
      exact (hvisited c).mpr (h.children x ((hvisited x).mp hx) hstack hnear c hc)
  exact ⟨hwalking.leave (fun _ q hq => .inr hq) (fun hnear c hc => absurd hc (hnone hnear c)),
    fun x => (hvisited x).mpr⟩

/-! ### The walk -/

/-- What a call for a vertex does to the walk. -/
def Walks (near : Nat → Bool) (b : QuadCollapseMesh V)
    (visit : QuadCollapseMesh V → Nat → Except MeshFault (QuadCollapseMesh V)) : Prop :=
  ∀ {stack : Set Nat} {S : Set QuadPtr} {m m' : QuadCollapseMesh V} {v : Nat},
    Walking near b stack S m → Reached near b v → visit m v = .ok m' →
    ∃ S', Walking near b stack S' m' ∧ Visited m' v ∧ ∀ x, Visited m x → Visited m' x

/-- The loop over the children. -/
theorem Walks.siblings {visit : QuadCollapseMesh V → Nat → Except MeshFault (QuadCollapseMesh V)}
    (hvisit : Walks near b visit) {fuel : Nat} {start : Option Nat} {cs : List Nat}
    (h : Walking near b stack S m)
    (hchain : Chain (fun c => (b.verts c).nextSibling) start cs)
    (hcs : ∀ c ∈ cs, Reached near b c) (hrun : forSiblings visit fuel m start = .ok m') :
    ∃ S', Walking near b stack S' m' ∧ (∀ c ∈ cs, Visited m' c) ∧
      ∀ x, Visited m x → Visited m' x := by
  induction cs generalizing fuel start m S with
  | nil =>
      obtain rfl : start = none := hchain
      cases fuel with
      | zero => exact absurd hrun nofun
      | succ fuel =>
          obtain rfl := Except.ok.inj hrun
          exact ⟨S, h, nofun, fun _ hx => hx⟩
  | cons c cs ih =>
      obtain ⟨rfl, hrest⟩ := hchain
      cases fuel with
      | zero => exact absurd hrun nofun
      | succ fuel =>
          obtain ⟨m₁, hfirst, hrun⟩ := bind_eq_ok hrun
          obtain ⟨S₁, h₁, hc, hkeep⟩ := hvisit h (hcs c (by simp)) hfirst
          rw [h₁.links] at hrun
          obtain ⟨S', h', hall, hkeep'⟩ := ih h₁ hrest
            (fun x hx => hcs x (List.mem_cons_of_mem c hx)) hrun
          refine ⟨S', h', fun x hx => ?_, fun x hx => hkeep' x (hkeep x hx)⟩
          rcases List.mem_cons.mp hx with rfl | hx
          · exact hkeep' x hc
          · exact hall x hx

/-- **A call of `recursiveUpdateVertNode`.** -/
theorem walks (view : FrameView V) (hF : b.updateFrame < 2 ^ 24)
    (hsiblings : Siblings (fun c => (b.verts c).parent) (fun v => (b.verts v).firstChild)
      fun c => (b.verts c).nextSibling) (fuel : Nat) :
    Walks view.near b (recursiveUpdateVertNode view fuel) := by
  induction fuel with
  | zero =>
      intro stack S m m' v h hv hrun
      cases hrun
  | succ fuel ih =>
      intro stack S m m' v h hv hrun
      rw [recursiveUpdateVertNode] at hrun
      by_cases hvisited : Visited m v
      · obtain rfl := Except.ok.inj ((if_pos hvisited).symm.trans hrun)
        exact ⟨S, h, hvisited, fun _ hx => hx⟩
      have hrun := (if_neg hvisited).symm.trans hrun
      obtain ⟨h₁, hvisited₁⟩ := h.markVert hF hv
      have hself : Visited (m.markVert v) v := (hvisited₁ v).mpr (.inl rfl)
      have hkeep : ∀ x, Visited m x → Visited (m.markVert v) x := fun x hx =>
        (hvisited₁ x).mpr (.inr hx)
      generalize m.markVert v = m₁ at hrun h₁ hself hkeep
      -- three of the four branches set the quads around the vertex at the border
      have hborder : ∀ {place : V}, Ends view.near b v →
          (view.near v = true → ∀ c, (b.verts c).parent ≠ some v) →
          QuadCollapseMesh.setBoundary fuel m₁ v place = .ok m' →
          ∃ S', Walking view.near b stack S' m' ∧ Visited m' v ∧
            ∀ x, Visited m x → Visited m' x := by
        intro place hends hnone hrun
        obtain ⟨h', hkeep'⟩ := h₁.setBoundary hF hv hends hnone hrun
        exact ⟨_, h', hkeep' v hself, fun x hx => hkeep' x (hkeep x hx)⟩
      obtain ⟨cs, hchain, -, hcs⟩ := hsiblings.chain v
      have hfirst : (m₁.verts v).firstChild = (b.verts v).firstChild := by rw [h₁.links]
      by_cases hnear : view.near v = true
      · have hrun := (if_pos hnear).symm.trans hrun
        cases hchild : (m₁.verts v).firstChild with
        | none =>
            rw [hchild] at hrun hfirst
            rw [← hfirst] at hchain
            refine hborder (fun _ => hfirst.symm) (fun _ c hc => ?_) hrun
            cases cs with
            | nil => exact absurd ((hcs c).mpr hc) List.not_mem_nil
            | cons x xs => cases hchain.1
        | some child =>
            rw [hchild] at hrun hfirst
            rw [← hfirst] at hchain
            obtain ⟨h₂, hvisited₂⟩ := h₁.modifyVert v
              (f := fun x => { x with state := .active }) (fun _ => rfl) fun _ => rfl
            obtain ⟨S', h', hall, hkeep'⟩ := ih.siblings h₂ hchain
              (fun c hc => .child hv hnear ((hcs c).mp hc)) hrun
            refine ⟨S', h'.leave (fun hends => ?_) (fun _ c hc => hall c ((hcs c).mpr hc)),
              hkeep' v ((hvisited₂ v).mpr hself),
              fun x hx => hkeep' x ((hvisited₂ x).mpr (hkeep x hx))⟩
            cases (hends hnear).symm.trans hfirst.symm
      · have hrun := (if_neg hnear).symm.trans hrun
        have hends : Ends view.near b v := fun h => absurd h hnear
        cases hparent : (m₁.verts v).parent with
        | none =>
            rw [hparent] at hrun
            exact hborder hends (fun h => absurd h hnear) hrun
        | some p =>
            rw [hparent] at hrun
            exact hborder hends (fun h => absurd h hnear) hrun

/-- The loop over the root vertices. -/
theorem Walking.roots_visited {view : FrameView V} {fuel : Nat}
    (hwalks : Walks view.near b (recursiveUpdateVertNode view fuel)) {cs : List (Fin 4)}
    (h : Walking view.near b ∅ S m)
    (hrun : cs.foldlM (fun (m : QuadCollapseMesh V) i => match m.rootVertNodes i with
      | none => Except.error MeshFault.nullptr
      | some root => recursiveUpdateVertNode view fuel
          (m.modifyVert root fun v => { v with interpolatedVertex := v.originalVertex }) root) m =
        .ok m') :
    ∃ S', Walking view.near b ∅ S' m' ∧
      (∀ c ∈ cs, ∀ v, b.rootVertNodes c = some v → Visited m' v) ∧
      ∀ x, Visited m x → Visited m' x := by
  induction cs generalizing m S with
  | nil =>
      obtain rfl := Except.ok.inj hrun
      exact ⟨S, h, nofun, fun _ hx => hx⟩
  | cons c cs ih =>
      obtain ⟨m₁, hfirst, hrest⟩ := bind_eq_ok (hrun : Except.bind _ _ = _)
      beta_reduce at hfirst
      rw [h.roots] at hfirst
      cases hroot : b.rootVertNodes c with
      | none =>
          rw [hroot] at hfirst
          exact absurd hfirst nofun
      | some root =>
          rw [hroot] at hfirst
          obtain ⟨h₀, hvisited₀⟩ := h.modifyVert root
            (f := fun v => { v with interpolatedVertex := v.originalVertex }) (fun _ => rfl)
            fun _ => rfl
          obtain ⟨S₁, h₁, hmem, hkeep⟩ := hwalks h₀ (.root hroot) hfirst
          obtain ⟨S', h', hall, hkeep'⟩ := ih h₁ hrest
          refine ⟨S', h', fun x hx v hv => ?_, fun x hx =>
            hkeep' x (hkeep x ((hvisited₀ x).mpr hx))⟩
          rcases List.mem_cons.mp hx with rfl | hx
          · obtain rfl := Option.some.inj (hroot.symm.trans hv)
            exact hkeep' _ hmem
          · exact hall x hx v hv

/-- **The marks of a walk.** The quads set at the border are those around the vertices where
the walk ends. -/
theorem walk_marks {view : FrameView V} {fuel : Nat} (hF : b.updateFrame < 2 ^ 24)
    (hsiblings : Siblings (fun c => (b.verts c).parent) (fun v => (b.verts v).firstChild)
      fun c => (b.verts c).nextSibling)
    (hverts : ∀ v, ¬ Visited b v) (hquads : ∀ q, (b.quads q).activeFrame ≠ b.updateFrame)
    (hrun : updateVertNodes view fuel b = .ok m') :
    MarkedFor b.updateFrame b.quads (borderQuads view.near b) m' := by
  have hall : ∀ c : Fin 4, c ∈ ([0, 1, 2, 3] : List (Fin 4)) := by decide
  have hstart : Walking view.near b ∅ ∅ b :=
    ⟨markedFor_start hquads, fun _ => rfl, rfl, fun v hv => absurd hv (hverts v),
      Set.empty_subset _, fun v hv => absurd hv (hverts v), fun v hv => absurd hv (hverts v)⟩
  obtain ⟨S, h, hroots, -⟩ := hstart.roots_visited (walks view hF hsiblings fuel) hrun
  have hreached : ∀ v, Reached view.near b v → Visited m' v := by
    intro v hv
    induction hv with
    | @root c v hc => exact hroots c (hall c) v hc
    | child _ hnear hparent ih => exact h.children _ ih (Set.notMem_empty _) hnear _ hparent
  have hset : S = borderQuads view.near b := by
    refine Set.Subset.antisymm h.sound ?_
    rintro q ⟨v, hv, hends, hq⟩
    exact h.border v (hreached v hv) (Set.notMem_empty v) hends q hq
  exact hset ▸ h.marks

end Maple.Terrain
