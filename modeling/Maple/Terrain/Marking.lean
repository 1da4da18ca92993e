import Maple.Terrain.Built

/-!
# Maple.Terrain.Marking

**A visited vertex expands the quads around it.** In every frame
`recursiveUpdateVertNode` ends without a fault (`visit`). Before frame `2 ^ 24` the
stamps are exact: the nodes with the stamp of the frame are those that have been
marked in it. The quads marked active are closed under parents, and for every
visited vertex the parents of the quads around it are active (`Forced`): its own
call has set them at the border, or has visited the vertex of the next level at the
same place. The second case needs the vertices on the stack, whose calls have not
ended, to be left out; they are the set `S` of the invariant.
-/

namespace Maple.Terrain

open Lib QuadCollapseMesh

variable {V : Type} {k l : Nat} {m m' m'' : QuadCollapseMesh V} {S : Set Nat} {todo : Option Nat}

/-- The vertex has the stamp of this frame. -/
def Visited (m : QuadCollapseMesh V) (v : Nat) : Prop := (m.verts v).activeFrame = m.updateFrame

/-- The quad is active in this frame. -/
def Active (m : QuadCollapseMesh V) (q : QuadPtr) : Prop :=
  (m.quads q).activeFrame = m.updateFrame ∧ (m.quads q).state = .active

/-- The parents of the quads around the vertex are active. -/
def Forced (m : QuadCollapseMesh V) (v : Nat) : Prop :=
  ∀ q ∈ (m.verts v).adjcentQuads, ∀ p, (m.quads q).parent = some p → Active m (.node p)

/-- The invariant while the stamps are exact. The vertices of `S` have been visited,
but their calls have not ended; `todo` is the quad to be activated next. -/
structure Stamped (S : Set Nat) (todo : Option Nat) (m : QuadCollapseMesh V) : Prop where
  visited : ∀ v, v ∈ m.visits ↔ Visited m v
  marked : ∀ q, q ∈ m.markedQuads ↔ (m.quads q).activeFrame = m.updateFrame
  nodup : m.visits.Nodup
  stamp_le : ∀ v, (m.verts v).activeFrame ≤ m.updateFrame
  quadStamp_le : ∀ q, (m.quads q).activeFrame ≤ m.updateFrame
  upClosed : ∀ q p, Active m q → (m.quads q).parent = some p →
    Active m (.node p) ∨ todo = some p
  forced : ∀ v, Visited m v → v ∉ S → Forced m v

/-- The invariant of a frame. -/
structure InFrame (k : Nat) (S : Set Nat) (todo : Option Nat) (m : QuadCollapseMesh V) :
    Prop where
  built : Built k m
  stamp_lt : ∀ v, (m.verts v).activeFrame < 2 ^ 24
  leaf : ∀ i, (m.quads (.leaf i)).activeFrame ≠ 0 → (m.quads (.leaf i)).state = .boundary
  early : m.updateFrame < 2 ^ 24 → Stamped S todo m

/-- The states that a frame passes through: nodes are marked, places and states of
vertices are written, and at the end the active mesh is uploaded. -/
inductive FrameState (m : QuadCollapseMesh V) : QuadCollapseMesh V → Prop
  | start : FrameState m m
  | markVert {s : QuadCollapseMesh V} (v : Nat) : FrameState m s → FrameState m (s.markVert v)
  | markQuad {s : QuadCollapseMesh V} (q : QuadPtr) (state : NodeState) :
      FrameState m s → FrameState m (s.markQuad q state)
  | modifyVert {s : QuadCollapseMesh V} (v : Nat) {f : VertNode V → VertNode V}
      (hstamp : ∀ x, (f x).activeFrame = x.activeFrame) :
      FrameState m s → FrameState m (s.modifyVert v f)
  | upload {s : QuadCollapseMesh V} (es : List Emission) :
      FrameState m s → FrameState m (s.uploadActive es)

theorem FrameState.trans (h : FrameState m m') (h' : FrameState m' m'') : FrameState m m'' := by
  induction h' with
  | start => exact h
  | markVert v _ ih => exact ih.markVert v
  | markQuad q state _ ih => exact ih.markQuad q state
  | modifyVert v hstamp _ ih => exact ih.modifyVert v hstamp
  | upload es _ ih => exact ih.upload es

/-- What all the steps of a frame keep. -/
structure Grows (m m' : QuadCollapseMesh V) : Prop where
  links : SameLinks m m'
  rest : m' = { m with
    verts := m'.verts
    quads := m'.quads
    visits := m'.visits
    markedQuads := m'.markedQuads }
  visits : ∀ v ∈ m.visits, v ∈ m'.visits
  active : ∀ q, Active m q → Active m' q
  states : FrameState m m'

namespace Grows

theorem refl (m : QuadCollapseMesh V) : Grows m m :=
  ⟨SameLinks.refl m, rfl, fun _ hv => hv, fun _ hq => hq, .start⟩

theorem trans (h : Grows m m') (h' : Grows m' m'') : Grows m m'' := by
  refine ⟨h.links.trans h'.links, ?_, fun v hv => h'.visits v (h.visits v hv),
    fun q hq => h'.active q (h.active q hq), h.states.trans h'.states⟩
  rw [h'.rest, h.rest]

theorem updateFrame (h : Grows m m') : m'.updateFrame = m.updateFrame := by rw [h.rest]

theorem built (h : Grows m m') (hb : Built k m) : Built k m' :=
  h.links.built (by rw [h.rest]) (by rw [h.rest]) hb

/-- Quads stay active. -/
theorem forced (h : Grows m m') {v : Nat} (hv : Forced m v) : Forced m' v := by
  intro q hq p hp
  rw [h.links.verts] at hq
  rw [h.links.quads] at hp
  exact h.active _ (hv q hq p hp)

end Grows

/-! ### Quads -/

theorem markQuad_self (m : QuadCollapseMesh V) (q : QuadPtr) (state : NodeState) :
    (m.markQuad q state).quads q =
      { m.quads q with activeFrame := m.updateFrame % 2 ^ 26, state := state } :=
  Function.update_self ..

theorem markQuad_of_ne {q x : QuadPtr} (hx : x ≠ q) (state : NodeState) :
    (m.markQuad q state).quads x = m.quads x :=
  Function.update_of_ne hx ..

/-- **A quad is marked** that is not active yet: at the border, or as the quad to be
activated next. -/
theorem InFrame.markQuad (h : InFrame k S todo m) {q : QuadPtr} (state : NodeState)
    (hq : ¬ Active m q) (hnode : state = .active → q.IsNode)
    (htodo : ∀ p, todo = some p → q = .node p ∧ state = .active) :
    InFrame k S (m.quads q).parent (m.markQuad q state) ∧ Grows m (m.markQuad q state) := by
  have hlinks : SameLinks m (m.markQuad q state) := by
    refine ⟨fun _ => rfl, fun x => ?_, rfl, rfl, rfl⟩
    by_cases hx : x = q
    · rw [hx, markQuad_self]
    · rw [markQuad_of_ne hx]
  have hactive : ∀ x, Active m x → Active (m.markQuad q state) x := by
    intro x hx
    have hne : x ≠ q := fun heq => hq (heq ▸ hx)
    rw [Active, markQuad_of_ne hne]
    exact hx
  have hgrows : Grows m (m.markQuad q state) :=
    ⟨hlinks, rfl, fun _ hv => hv, hactive, FrameState.start.markQuad q state⟩
  refine ⟨⟨hgrows.built h.built, h.stamp_lt, fun i hi => ?_, fun hf => ?_⟩, hgrows⟩
  · by_cases hx : .leaf i = q
    · rw [hx, markQuad_self]
      cases state with
      | active => exact absurd (hx ▸ hnode rfl) (by simp [QuadPtr.IsNode])
      | boundary => rfl
    · rw [markQuad_of_ne hx] at hi ⊢
      exact h.leaf i hi
  · have hs := h.early hf
    have hstamp : m.updateFrame % 2 ^ 26 = m.updateFrame :=
      Nat.mod_eq_of_lt (Nat.lt_trans hf (by decide))
    refine ⟨hs.visited, fun x => ?_, hs.nodup, hs.stamp_le, fun x => ?_, fun x p hx hp => ?_,
      fun v hv hS => hgrows.forced (hs.forced v hv hS)⟩
    · show x ∈ m.markedQuads ++ [q] ↔ _ = m.updateFrame
      by_cases hx : x = q
      · rw [hx, markQuad_self]
        exact iff_of_true (by simp) hstamp
      · rw [markQuad_of_ne hx, ← hs.marked x]
        simp [hx]
    · show _ ≤ m.updateFrame
      by_cases hx : x = q
      · rw [hx, markQuad_self]
        exact hstamp.le
      · rw [markQuad_of_ne hx]
        exact hs.quadStamp_le x
    · rw [hlinks.quads] at hp
      by_cases hxq : x = q
      · exact Or.inr (hxq ▸ hp)
      · rw [Active, markQuad_of_ne hxq] at hx
        rcases hs.upClosed x p hx hp with hp' | hp'
        · exact Or.inl (hactive _ hp')
        · -- the quad to be activated next has been marked now
          obtain ⟨rfl, rfl⟩ := htodo p hp'
          rw [Active, markQuad_self]
          exact Or.inl ⟨hstamp, rfl⟩

/-- The loop over the ancestors of a quad. -/
theorem activateParents_settles (n : Nat) (h : InFrame k S todo m)
    (htodo : ∀ p, todo = some p → ∃ l a b, IsQuad k m (.node p) l a b ∧ l < n) :
    ∃ m', Settles (fun fuel => activateParents fuel m todo) (.ok m') ∧ InFrame k S none m' ∧
      Grows m m' ∧
      (m.updateFrame < 2 ^ 24 → ∀ p, todo = some p → Active m' (.node p)) := by
  induction n generalizing m todo with
  | zero =>
      cases todo with
      | some p =>
          obtain ⟨l, a, b, -, hl⟩ := htodo p rfl
          exact absurd hl (Nat.not_lt_zero l)
      | none =>
          exact ⟨m, Settles.of_succ (Settles.of_forall fun _ => rfl), h, Grows.refl m, nofun⟩
  | succ n ih =>
      cases todo with
      | none =>
          exact ⟨m, Settles.of_succ (Settles.of_forall fun _ => rfl), h, Grows.refl m, nofun⟩
      | some p =>
          obtain ⟨l, a, b, hquad, hl⟩ := htodo p rfl
          by_cases hp : Active m (.node p)
          · have hdone : InFrame k S none m := by
              refine { h with early := fun hf => ?_ }
              have hs := h.early hf
              refine { hs with upClosed := fun x r hx hr => Or.inl ?_ }
              rcases hs.upClosed x r hx hr with hr' | hr'
              · exact hr'
              · exact Option.some.inj hr' ▸ hp
            refine ⟨m, Settles.of_succ (Settles.of_forall fun fuel => ?_), hdone, Grows.refl m,
              fun _ r hr => Option.some.inj hr ▸ hp⟩
            rw [activateParents]
            exact if_pos hp
          · obtain ⟨h₁, hgrows⟩ := h.markQuad .active hp
              (fun _ => trivial) fun r hr => ⟨by rw [Option.some.inj hr], rfl⟩
            have hparent : ∀ r, (m.quads (.node p)).parent = some r →
                ∃ l' a' b', IsQuad k (m.markQuad (.node p) .active) (.node r) l' a' b' ∧
                  l' < n := by
              intro r hr
              obtain ⟨l', a', b', c, hr', rfl, -⟩ := h.built.parent hquad hr
              exact ⟨l', a', b', hgrows.links.isQuad hr', by omega⟩
            obtain ⟨m', hrun, h', hgrows', -⟩ := ih h₁ hparent
            refine ⟨m', Settles.of_succ (hrun.congr fun fuel => ?_), h', hgrows.trans hgrows',
              fun hf r hr => hgrows'.active _ ?_⟩
            · rw [activateParents]
              exact if_neg hp
            · obtain rfl := Option.some.inj hr
              have hstamp : m.updateFrame % 2 ^ 26 = m.updateFrame :=
                Nat.mod_eq_of_lt (Nat.lt_trans hf (by decide))
              rw [Active, markQuad_self]
              exact ⟨hstamp, rfl⟩

theorem quadNodeSetBoundary_settles (h : InFrame k S none m) {q : QuadPtr} {a b : Nat}
    (hq : IsQuad k m q l a b) :
    ∃ m', Settles (fun fuel => quadNodeSetBoundary fuel m q) (.ok m') ∧ InFrame k S none m' ∧
      Grows m m' ∧
      (m.updateFrame < 2 ^ 24 → ∀ p, (m.quads q).parent = some p → Active m' (.node p)) := by
  by_cases hactive : Active m q
  · refine ⟨m, Settles.of_forall fun fuel => if_pos hactive, h, Grows.refl m, fun hf p hp => ?_⟩
    exact ((h.early hf).upClosed q p hactive hp).resolve_right (by simp)
  · obtain ⟨h₁, hgrows⟩ := h.markQuad .boundary hactive nofun nofun
    have hparent : ∀ p, (m.quads q).parent = some p →
        ∃ l' a' b', IsQuad k (m.markQuad q .boundary) (.node p) l' a' b' ∧ l' < k + 1 := by
      intro p hp
      obtain ⟨l', a', b', c, hp', -⟩ := h.built.parent hq hp
      exact ⟨l', a', b', hgrows.links.isQuad hp', Nat.lt_succ_of_le hp'.grid.level⟩
    obtain ⟨m', hrun, h', hgrows', hdone⟩ := activateParents_settles (k + 1) h₁ hparent
    exact ⟨m', hrun.congr fun fuel => if_neg hactive, h', hgrows.trans hgrows', hdone⟩

/-- The loop over the quads around a vertex. -/
theorem setBoundaries_settles (h : InFrame k S none m) {qs : List QuadPtr}
    (hqs : ∀ q ∈ qs, ∃ l a b, IsQuad k m q l a b) :
    ∃ m', Settles (fun fuel => qs.foldlM (quadNodeSetBoundary fuel) m) (.ok m') ∧
      InFrame k S none m' ∧ Grows m m' ∧
      (m.updateFrame < 2 ^ 24 → ∀ q ∈ qs, ∀ p, (m.quads q).parent = some p →
        Active m' (.node p)) := by
  induction qs generalizing m with
  | nil => exact ⟨m, Settles.of_forall fun _ => rfl, h, Grows.refl m, nofun⟩
  | cons q qs ih =>
      obtain ⟨l, a, b, hq⟩ := hqs q (by simp)
      obtain ⟨m₁, hrun, h₁, hgrows, hfirst⟩ := quadNodeSetBoundary_settles h hq
      obtain ⟨m', hrest, h', hgrows', hothers⟩ := ih h₁ fun x hx => by
        obtain ⟨l, a, b, hx'⟩ := hqs x (List.mem_cons_of_mem q hx)
        exact ⟨l, a, b, hgrows.links.isQuad hx'⟩
      refine ⟨m',
        hrun.except_bind (g := fun m fuel => qs.foldlM (quadNodeSetBoundary fuel) m) hrest, h',
        hgrows.trans hgrows', fun hf x hx p hp => ?_⟩
      rcases List.mem_cons.mp hx with rfl | hx
      · exact hgrows'.active _ (hfirst hf p hp)
      · rw [← hgrows.updateFrame] at hf
        rw [← hgrows.links.quads] at hp
        exact hothers hf x hx p hp

/-! ### Vertices -/

theorem modifyVert_self (m : QuadCollapseMesh V) (v : Nat) (f : VertNode V → VertNode V) :
    (m.modifyVert v f).verts v = f (m.verts v) :=
  Function.update_self ..

theorem modifyVert_of_ne {v x : Nat} (hx : x ≠ v) (f : VertNode V → VertNode V) :
    (m.modifyVert v f).verts x = m.verts x :=
  Function.update_of_ne hx ..

/-- A write that keeps links and stamps of a vertex keeps those of all. -/
theorem modifyVert_keeps (v : Nat) {f : VertNode V → VertNode V}
    (hlinks : ∀ x, (f x).toVertLinks = x.toVertLinks)
    (hstamp : ∀ x, (f x).activeFrame = x.activeFrame) (x : Nat) :
    ((m.modifyVert v f).verts x).toVertLinks = (m.verts x).toVertLinks ∧
      ((m.modifyVert v f).verts x).activeFrame = (m.verts x).activeFrame := by
  by_cases hx : x = v
  · rw [hx, modifyVert_self]
    exact ⟨hlinks _, hstamp _⟩
  · rw [modifyVert_of_ne hx]
    exact ⟨rfl, rfl⟩

/-- Writing places and states changes nothing that matters. -/
theorem InFrame.modifyVert (h : InFrame k S todo m) (v : Nat) {f : VertNode V → VertNode V}
    (hlinks : ∀ x, (f x).toVertLinks = x.toVertLinks)
    (hstamp : ∀ x, (f x).activeFrame = x.activeFrame) :
    InFrame k S todo (m.modifyVert v f) ∧ Grows m (m.modifyVert v f) := by
  have hverts := modifyVert_keeps (m := m) v hlinks hstamp
  have hgrows : Grows m (m.modifyVert v f) :=
    ⟨⟨fun x => (hverts x).1, fun _ => rfl, rfl, rfl, rfl⟩, rfl, fun _ hx => hx, fun _ hq => hq,
      FrameState.start.modifyVert v hstamp⟩
  have hvisited : ∀ x, Visited (m.modifyVert v f) x ↔ Visited m x := fun x => by
    rw [Visited, (hverts x).2]
    rfl
  refine ⟨⟨hgrows.built h.built, fun x => (hverts x).2 ▸ h.stamp_lt x, h.leaf, fun hf => ?_⟩,
    hgrows⟩
  have hs := h.early hf
  exact ⟨fun x => (hs.visited x).trans (hvisited x).symm, hs.marked, hs.nodup,
    fun x => (hverts x).2 ▸ hs.stamp_le x, hs.quadStamp_le, hs.upClosed,
    fun x hx hS => hgrows.forced (hs.forced x ((hvisited x).mp hx) hS)⟩

theorem markVert_self (m : QuadCollapseMesh V) (v : Nat) : (m.markVert v).verts v =
    { m.verts v with activeFrame := m.updateFrame % 2 ^ 24, state := .boundary } :=
  Function.update_self ..

theorem markVert_of_ne {v x : Nat} (hx : x ≠ v) : (m.markVert v).verts x = m.verts x :=
  Function.update_of_ne hx ..

/-- **A vertex is marked**, and its call begins. -/
theorem InFrame.markVert (h : InFrame k S none m) {v : Nat} (hv : ¬ Visited m v) :
    InFrame k (insert v S) none (m.markVert v) ∧ Grows m (m.markVert v) := by
  have hlinks : SameLinks m (m.markVert v) := by
    refine ⟨fun x => ?_, fun _ => rfl, rfl, rfl, rfl⟩
    by_cases hx : x = v
    · rw [hx, markVert_self]
    · rw [markVert_of_ne hx]
  have hgrows : Grows m (m.markVert v) :=
    ⟨hlinks, rfl, fun x hx => List.mem_append_left [v] hx, fun _ hq => hq,
      FrameState.start.markVert v⟩
  refine ⟨⟨hgrows.built h.built, fun x => ?_, h.leaf, fun hf => ?_⟩, hgrows⟩
  · by_cases hx : x = v
    · rw [hx, markVert_self]
      exact Nat.mod_lt _ (by decide)
    · rw [markVert_of_ne hx]
      exact h.stamp_lt x
  · have hs := h.early hf
    have hstamp : m.updateFrame % 2 ^ 24 = m.updateFrame := Nat.mod_eq_of_lt hf
    refine ⟨fun x => ?_, hs.marked, ?_, fun x => ?_, hs.quadStamp_le, hs.upClosed,
      fun x hx hS => hgrows.forced (hs.forced x ?_ fun hmem => hS (Or.inr hmem))⟩
    · show x ∈ m.visits ++ [v] ↔ _ = m.updateFrame
      by_cases hx : x = v
      · rw [hx, markVert_self]
        exact iff_of_true (by simp) hstamp
      · rw [markVert_of_ne hx]
        have hmem : x ∈ m.visits ↔ (m.verts x).activeFrame = m.updateFrame := hs.visited x
        simpa [hx] using hmem
    · refine List.nodup_append.mpr ⟨hs.nodup, by simp, fun x hx y hy heq => hv ?_⟩
      obtain rfl : y = v := by simpa using hy
      exact (hs.visited y).mp (heq ▸ hx)
    · show _ ≤ m.updateFrame
      by_cases hx : x = v
      · rw [hx, markVert_self]
        exact hstamp.le
      · rw [markVert_of_ne hx]
        exact hs.stamp_le x
    · have hne : x ≠ v := fun heq => hS (Or.inl heq)
      rw [Visited, markVert_of_ne hne] at hx
      exact hx

/-- The call of a vertex ends. -/
theorem InFrame.leave {v : Nat} (h : InFrame k (insert v S) none m)
    (hv : m.updateFrame < 2 ^ 24 → Forced m v) : InFrame k S none m := by
  refine { h with early := fun hf => ?_ }
  have hs := h.early hf
  refine { hs with forced := fun x hx hS => ?_ }
  by_cases heq : x = v
  · exact heq ▸ hv hf
  · exact hs.forced x hx fun hmem => hS (hmem.resolve_left heq)

/-- The quads around a vertex are set at the border. -/
theorem setBoundary_settles {v : Nat} (h : InFrame k (insert v S) none m) (interpolated : V) :
    ∃ m', Settles (fun fuel => setBoundary fuel m v interpolated) (.ok m') ∧ InFrame k S none m' ∧
      Grows m m' := by
  obtain ⟨h₁, hgrows⟩ := h.modifyVert v
    (f := fun x => { x with interpolatedVertex := interpolated }) (fun _ => rfl) fun _ => rfl
  have hquads : ∀ q ∈ (m.verts v).adjcentQuads, ∃ l a b, IsQuad k
      (m.modifyVert v fun x => { x with interpolatedVertex := interpolated }) q l a b := by
    intro q hq
    obtain ⟨l, a, b, c, hq', -⟩ := h.built.adjcent.mp hq
    exact ⟨l, a, b, hgrows.links.isQuad hq'⟩
  obtain ⟨m', hrun, h', hgrows', hforced⟩ := setBoundaries_settles h₁ hquads
  refine ⟨m', hrun, h'.leave fun hf q hq p hp => ?_, hgrows.trans hgrows'⟩
  have hall := hgrows.trans hgrows'
  rw [hall.links.verts] at hq
  rw [hgrows'.links.quads] at hp
  rw [hgrows'.updateFrame] at hf
  exact hforced hf q hq p hp

/-! ### The walk over the collapse tree -/

/-- The vertex of the next level at the same place is a child. -/
theorem Shape.sameplace {i j : Nat} (h : Shape k m) (hg : InGrid k (l + 1) (2 * i) (2 * j)) :
    (m.verts (vertIndex (l + 1) (2 * i) (2 * j))).parent = some (vertIndex l i j) := by
  obtain ⟨v, hv⟩ := Option.isSome_iff_exists.mp (h.collapsed hg)
  obtain ⟨i', j', rfl, hi, hj⟩ := h.tree.parent_vert hg hv
  rw [hv, hi.even, hj.even]

/-- **The quads around a vertex are the parents of quads around the vertex of the next
level at the same place.** -/
theorem Shape.active_of_child {i j : Nat} (h : Shape k m) (hl : l < k)
    (hforced : Forced m (vertIndex (l + 1) (2 * i) (2 * j))) {q : QuadPtr}
    (hg : InGrid k l i j) (hq : q ∈ (m.verts (vertIndex l i j)).adjcentQuads) : Active m q := by
  obtain ⟨l', a, b, c, hquad, hc⟩ := h.adjcent.mp hq
  obtain ⟨rfl, rfl, rfl⟩ := vertIndex_inj (hquad.grid.corner c) hg hc
  obtain ⟨n, hn, hchild⟩ := h.linked hquad.grid hl
  obtain rfl := h.unique hquad hn
  obtain ⟨x, -, hx, hparent⟩ := hchild c
  refine hforced x (h.adjcent.mpr ⟨_, _, _, c, hx, ?_⟩) n hparent
  congr 1 <;> omega

theorem Stamped.forced_of_child {i j : Nat} (hs : Stamped S none m) (h : Shape k m) (hl : l < k)
    (hg : InGrid k l i j) (hforced : Forced m (vertIndex (l + 1) (2 * i) (2 * j))) :
    Forced m (vertIndex l i j) := by
  intro q hq p hp
  exact (hs.upClosed q p (h.active_of_child hl hforced hg hq) hp).resolve_right (by simp)

/-- What the call for a vertex of level `l` does. -/
def Visits (view : FrameView V) (k l : Nat) : Prop :=
  ∀ {m : QuadCollapseMesh V} {S : Set Nat} {i j : Nat}, InFrame k S none m → InGrid k l i j →
    (∀ l' i' j', l ≤ l' → InGrid k l' i' j' → vertIndex l' i' j' ∉ S) →
    ∃ m', Settles (fun fuel => recursiveUpdateVertNode view fuel m (vertIndex l i j)) (.ok m') ∧
      InFrame k S none m' ∧ Grows m m' ∧ vertIndex l i j ∈ m'.visits

/-- The loop over the children of a vertex. The loop and the calls in it have fuel of
their own. -/
theorem forSiblings_settles {view : FrameView V} (hvisits : Visits view k (l + 1))
    (h : InFrame k S none m)
    (hS : ∀ l' i' j', l + 1 ≤ l' → InGrid k l' i' j' → vertIndex l' i' j' ∉ S) {cs : List Nat}
    {start : Option Nat} (hchain : Chain (fun c => (m.verts c).nextSibling) start cs)
    (hcs : ∀ c ∈ cs, ∃ i j, InGrid k (l + 1) i j ∧ c = vertIndex (l + 1) i j) :
    ∃ m', (∃ N, ∀ n n', N ≤ n → N ≤ n' →
        forSiblings (recursiveUpdateVertNode view n) n' m start = .ok m') ∧
      InFrame k S none m' ∧ Grows m m' ∧ ∀ c ∈ cs, c ∈ m'.visits := by
  induction cs generalizing m start with
  | nil =>
      obtain rfl : start = none := hchain
      refine ⟨m, ⟨1, fun n n' _ hn' => ?_⟩, h, Grows.refl m, nofun⟩
      obtain ⟨n', rfl⟩ : ∃ x, n' = x + 1 := ⟨n' - 1, by omega⟩
      rfl
  | cons c cs ih =>
      obtain ⟨rfl, hrest⟩ := hchain
      obtain ⟨i, j, hg, rfl⟩ := hcs c (by simp)
      obtain ⟨m₁, ⟨N, hN⟩, h₁, hgrows, hmem⟩ := hvisits h hg hS
      have hnext : ∀ x, (m₁.verts x).nextSibling = (m.verts x).nextSibling := fun x => by
        rw [hgrows.links.verts]
      have hchain₁ : Chain (fun c => (m₁.verts c).nextSibling)
          (m₁.verts (vertIndex (l + 1) i j)).nextSibling cs := by
        rw [hnext]
        exact hrest.congr fun x _ => hnext x
      obtain ⟨m', ⟨N', hN'⟩, h', hgrows', hall⟩ := ih h₁ hchain₁ fun c hc =>
        hcs c (List.mem_cons_of_mem _ hc)
      refine ⟨m', ⟨N + N' + 1, fun n n' hn hn' => ?_⟩, h', hgrows.trans hgrows', fun x hx => ?_⟩
      · obtain ⟨n', rfl⟩ : ∃ x, n' = x + 1 := ⟨n' - 1, by omega⟩
        have hfirst : recursiveUpdateVertNode view n m (vertIndex (l + 1) i j) = .ok m₁ :=
          hN n (by omega)
        rw [forSiblings, hfirst]
        exact hN' n n' (by omega) (by omega)
      · rcases List.mem_cons.mp hx with rfl | hx
        · exact hgrows'.visits _ hmem
        · exact hall x hx

/-- The children of a vertex are vertices of the next level. -/
theorem CollapseTree.child_vert (h : CollapseTree k m) {i j c : Nat} (hg : InGrid k l i j)
    (hc : (m.verts c).parent = some (vertIndex l i j)) :
    ∃ i' j', InGrid k (l + 1) i' j' ∧ c = vertIndex (l + 1) i' j' := by
  obtain ⟨l', i', j', x, y, hg', rfl, hv, hx, hy⟩ := h.parent hc
  have hgv : InGrid k l' x y :=
    ⟨Nat.le_of_succ_le hg'.level, hx.le hg'.column, hy.le hg'.row⟩
  obtain ⟨rfl, -, -⟩ := vertIndex_inj hg hgv hv
  exact ⟨i', j', hg', rfl⟩

/-- The call for a vertex whose children are visited. The vertex of the next level at
the same place is one of them, so the quads around the vertex are active. -/
theorem visitChildren_settles {view : FrameView V} (hvisits : l < k → Visits view k (l + 1))
    {i j child : Nat} (h : InFrame k (insert (vertIndex l i j) S) none m) (hg : InGrid k l i j)
    (hS : ∀ l' i' j', l ≤ l' → InGrid k l' i' j' → vertIndex l' i' j' ∉ S)
    (hchild : (m.verts (vertIndex l i j)).firstChild = some child) :
    ∃ m', Settles (fun fuel => forSiblings (recursiveUpdateVertNode view fuel) fuel m (some child))
        (.ok m') ∧
      InFrame k S none m' ∧ Grows m m' := by
  obtain ⟨cs, hchain, -, hcs⟩ := h.built.tree.siblings.chain (vertIndex l i j)
  rw [hchild] at hchain
  have hverts : ∀ c ∈ cs, ∃ i' j', InGrid k (l + 1) i' j' ∧ c = vertIndex (l + 1) i' j' :=
    fun c hc => h.built.tree.child_vert hg ((hcs c).mp hc)
  have hl : l < k := by
    cases cs with
    | nil => exact absurd hchain (by simp [Chain])
    | cons c cs =>
        obtain ⟨i', j', hg', -⟩ := hverts c (by simp)
        exact hg'.level
  have hS' : ∀ l' i' j', l + 1 ≤ l' → InGrid k l' i' j' →
      vertIndex l' i' j' ∉ insert (vertIndex l i j) S := by
    intro l' i' j' hl' hg' hmem
    rcases hmem with heq | hmem
    · obtain ⟨rfl, -, -⟩ := vertIndex_inj hg' hg heq
      omega
    · exact hS l' i' j' (by omega) hg' hmem
  obtain ⟨m', ⟨N, hN⟩, h', hgrows, hall⟩ := forSiblings_settles (hvisits hl) h hS' hchain hverts
  refine ⟨m', ⟨N, fun n hn => hN n n hn hn⟩, h'.leave fun hf => ?_, hgrows⟩
  have hgchild : InGrid k (l + 1) (2 * i) (2 * j) := by
    have hi := hg.column
    have hj := hg.row
    exact ⟨hl, by rw [Nat.pow_succ]; omega, by rw [Nat.pow_succ]; omega⟩
  have hmem := hall _ ((hcs _).mpr (h.built.toShape.sameplace hgchild))
  have hs := h'.early hf
  refine hs.forced_of_child h'.built.toShape hl hg (hs.forced _ ((hs.visited _).mp hmem) ?_)
  exact hS' (l + 1) _ _ (Nat.le_refl _) hgchild

/-- The call for a vertex, given the calls for its children. -/
theorem visits_of_children {view : FrameView V} (hvisits : l < k → Visits view k (l + 1)) :
    Visits view k l := by
  intro m S i j h hg hS
  by_cases hv : Visited m (vertIndex l i j)
  · refine ⟨m, Settles.of_succ (Settles.of_forall fun fuel => ?_), h, Grows.refl m, ?_⟩
    · rw [recursiveUpdateVertNode]
      exact if_pos hv
    · have hlt : m.updateFrame < 2 ^ 24 := hv ▸ h.stamp_lt _
      exact ((h.early hlt).visited _).mpr hv
  · obtain ⟨h₁, hgrows⟩ := h.markVert hv
    have hmem : vertIndex l i j ∈ (m.markVert (vertIndex l i j)).visits := by
      show _ ∈ m.visits ++ [_]
      simp
    -- the four branches: three of them set the quads around the vertex at the border
    have hborder : ∀ p, ∃ m', Settles (fun fuel => setBoundary fuel
        (m.markVert (vertIndex l i j)) (vertIndex l i j) p) (.ok m') ∧ InFrame k S none m' ∧
        Grows m m' ∧ vertIndex l i j ∈ m'.visits := by
      intro p
      obtain ⟨m', hrun, h', hgrows'⟩ := setBoundary_settles h₁ p
      exact ⟨m', hrun, h', hgrows.trans hgrows', hgrows'.visits _ hmem⟩
    generalize hm₁ : m.markVert (vertIndex l i j) = m₁ at h₁ hgrows hmem hborder
    have hearly : ¬ (m.verts (vertIndex l i j)).activeFrame = m.updateFrame := hv
    by_cases hnear : view.near (vertIndex l i j)
    · cases hchild : (m₁.verts (vertIndex l i j)).firstChild with
      | none =>
          obtain ⟨m', hrun, hdone⟩ := hborder (m₁.verts (vertIndex l i j)).originalVertex
          refine ⟨m', Settles.of_succ (hrun.congr fun fuel => ?_), hdone⟩
          rw [recursiveUpdateVertNode, if_neg hearly]
          simp only [hm₁, if_pos hnear, hchild]
      | some child =>
          obtain ⟨h₂, hgrows₂⟩ := h₁.modifyVert (vertIndex l i j)
            (f := fun v => { v with state := .active }) (fun _ => rfl) fun _ => rfl
          have hchild₂ : ((m₁.modifyVert (vertIndex l i j) fun v =>
              { v with state := .active }).verts (vertIndex l i j)).firstChild = some child := by
            rw [hgrows₂.links.verts, hchild]
          obtain ⟨m', hrun, h', hgrows'⟩ := visitChildren_settles hvisits h₂ hg hS hchild₂
          refine ⟨m', Settles.of_succ (hrun.congr fun fuel => ?_), h',
            hgrows.trans (hgrows₂.trans hgrows'), hgrows'.visits _ (hgrows₂.visits _ hmem)⟩
          rw [recursiveUpdateVertNode, if_neg hearly]
          simp only [hm₁, if_pos hnear, hchild]
    · cases hparent : (m₁.verts (vertIndex l i j)).parent with
      | none =>
          obtain ⟨m', hrun, hdone⟩ := hborder (m₁.verts (vertIndex l i j)).originalVertex
          refine ⟨m', Settles.of_succ (hrun.congr fun fuel => ?_), hdone⟩
          rw [recursiveUpdateVertNode, if_neg hearly]
          simp only [hm₁, if_neg hnear, hparent]
      | some p =>
          obtain ⟨m', hrun, hdone⟩ :=
            hborder (view.interpolate (m₁.verts (vertIndex l i j)) (m₁.verts p))
          refine ⟨m', Settles.of_succ (hrun.congr fun fuel => ?_), hdone⟩
          rw [recursiveUpdateVertNode, if_neg hearly]
          simp only [hm₁, if_neg hnear, hparent]

/-- **Every call for a vertex ends**, and the vertex has been visited. -/
theorem visits (view : FrameView V) (k l : Nat) : Visits view k l := by
  by_cases hl : l < k
  · exact visits_of_children fun _ => visits view k (l + 1)
  · exact visits_of_children fun hl' => absurd hl' hl
termination_by k - l

/-- **The walk of a frame**: the four root vertices and what they reach. -/
theorem updateVertNodes_settles (view : FrameView V) (h : InFrame k ∅ none m) :
    ∃ m', Settles (fun fuel => updateVertNodes view fuel m) (.ok m') ∧ InFrame k ∅ none m' ∧
      Grows m m' ∧ ∀ c, vertIndex 0 (dx c) (dy c) ∈ m'.visits := by
  have hall : ∀ c : Fin 4, c ∈ ([0, 1, 2, 3] : List (Fin 4)) := by decide
  have hloop : ∃ m', Settles (fun fuel => updateVertNodes view fuel m) (.ok m') ∧
      InFrame k ∅ none m' ∧ Grows m m' ∧
        ∀ c ∉ ([] : List (Fin 4)), vertIndex 0 (dx c) (dy c) ∈ m'.visits := by
    unfold updateVertNodes
    refine Settles.foldlM (I := fun cs s => InFrame k ∅ none s ∧ Grows m s ∧
      ∀ c ∉ cs, vertIndex 0 (dx c) (dy c) ∈ s.visits) ?_
      ⟨h, Grows.refl m, fun c hc => absurd (hall c) hc⟩
    · rintro c cs s ⟨hs, hgrows, hdone⟩
      have hroot := hs.built.rootVert c
      have hg : InGrid k 0 (dx c) (dy c) := ⟨Nat.zero_le k, dx_le c, dy_le c⟩
      obtain ⟨h₁, hgrows₁⟩ := hs.modifyVert (vertIndex 0 (dx c) (dy c))
        (f := fun v => { v with interpolatedVertex := v.originalVertex }) (fun _ => rfl)
        fun _ => rfl
      obtain ⟨s', hrun, h', hgrows', hmem⟩ := visits view k 0 h₁ hg fun _ _ _ _ _ =>
        Set.notMem_empty _
      refine ⟨s', hrun.congr fun fuel => by simp only [hroot], h',
        hgrows.trans (hgrows₁.trans hgrows'), fun x hx => ?_⟩
      by_cases hxc : x = c
      · exact hxc ▸ hmem
      · have hx' : x ∉ c :: cs := by simp [hxc, hx]
        exact hgrows'.visits _ (hgrows₁.visits _ (hdone x hx'))
  obtain ⟨m', hrun, h', hgrows, hroots⟩ := hloop
  exact ⟨m', hrun, h', hgrows, fun c => hroots c (by simp)⟩

end Maple.Terrain
