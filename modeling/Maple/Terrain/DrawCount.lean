import Mathlib.Data.Set.Card
import Mathlib.Tactic.Linarith
import Maple.Terrain.WalkMarks

/-!
# Maple.Terrain.DrawCount

**How many indices a frame draws.** With levels of detail `update` draws as many indices as
it has emitted vertices, six for every emitted quad, and a frame that splits `n` quads emits
`3 * n + 1` of them. The index buffer holds one index for every vertex of the grid, which is
less than what a finely split mesh draws: the draw stays inside exactly if
`18 * n + 6 ≤ (2 ^ k + 1) * (2 ^ k + 1)` (`draws_inside_iff`).
-/

namespace Maple.Terrain

open Lib QuadCollapseMesh

variable {V : Type} {k l : Nat} {m m' : QuadCollapseMesh V}

/-! ### Counting the emitted quads -/

/-- The quads in and below a quad. -/
def below (k : Nat) (m : QuadCollapseMesh V) (l a b : Nat) : Set QuadPtr :=
  {p | ∃ l' a' b', IsQuad k m p l' a' b' ∧ (l', a', b') ∈ subQuads k l a b}

/-- The quad above a quad of a level below the first. -/
theorem Shape.exists_parent (h : Shape k m) {p : QuadPtr} {a b : Nat}
    (hp : IsQuad k m p (l + 1) a b) :
    ∃ i, (m.quads p).parent = some i ∧ IsQuad k m (.node i) l (a / 2) (b / 2) := by
  have ha := hp.grid.column
  have hb := hp.grid.row
  have hl := hp.grid.level
  rw [Nat.pow_succ] at ha hb
  obtain ⟨i, hi, hchild⟩ := h.linked (k := k) (l := l) (a := a / 2) (b := b / 2)
    ⟨by omega, by omega, by omega⟩ (by omega)
  obtain ⟨c, hx, hy⟩ := exists_corner (a % 2) (by omega) (b % 2) (by omega)
  obtain ⟨q, -, hq, hparent⟩ := hchild c
  rw [hx, hy, Nat.div_add_mod, Nat.div_add_mod] at hq
  obtain rfl := h.unique hq hp
  exact ⟨i, hparent, hi⟩

/-- Below a quad that is not active none is. -/
theorem Shape.inactive_below (h : Shape k m)
    (hup : ∀ q p, Active m q → (m.quads q).parent = some p → Active m (.node p)) {q : QuadPtr}
    {a b : Nat} (hq : IsQuad k m q l a b) (hactive : ¬ Active m q) :
    ∀ p ∈ below k m l a b, ¬ Active m p := by
  rintro p ⟨l', a', b', hp, hle, hl', ha, hb⟩
  obtain ⟨d, rfl⟩ : ∃ d, l' = l + d := ⟨l' - l, (Nat.add_sub_cancel' hle).symm⟩
  clear hle hl'
  induction d generalizing p a' b' with
  | zero =>
      have ha : a' = a := by simpa using ha
      have hb : b' = b := by simpa using hb
      subst ha hb
      obtain rfl := h.unique hp hq
      exact hactive
  | succ d ih =>
      intro hpa
      obtain ⟨i, hparent, hi⟩ := h.exists_parent hp
      have hhalf : ∀ x, x / 2 / 2 ^ (l + d - l) = x / 2 ^ (l + (d + 1) - l) := by
        intro x
        rw [Nat.add_sub_cancel_left, Nat.add_sub_cancel_left, Nat.div_div_eq_div_mul,
          ← Nat.pow_succ']
      exact ih _ _ _ hi ((hhalf a').trans ha) ((hhalf b').trans hb) (hup p i hpa hparent)

/-- What a call of `recursiveSetActiveMesh` emits for the quads `S`, if the quads `L` are
the active ones among them. -/
structure Counts (m : QuadCollapseMesh V) (S : Set QuadPtr) (L : List QuadPtr) : Prop where
  nodup : L.Nodup
  mem : ∀ p, p ∈ L ↔ p ∈ S ∧ Active m p

/-- The loop over the children of an active quad. -/
theorem counts_children {f : Fin 4 → Except MeshFault (List Emission)} {a b : Nat}
    (hf : ∀ c es, f c = .ok es → ∃ L, Counts m (below k m (l + 1) (2 * a + dx c) (2 * b + dy c)) L ∧
      es.length = 1 + 3 * L.length)
    {cs : List (Fin 4)} (hcs : cs.Nodup) {acc es : List Emission}
    (hrun : cs.foldlM (fun emitted c => (f c).map (emitted ++ ·)) acc = .ok es) :
    ∃ L, Counts m {p | ∃ c ∈ cs, p ∈ below k m (l + 1) (2 * a + dx c) (2 * b + dy c)} L ∧
      es.length = acc.length + cs.length + 3 * L.length := by
  induction cs generalizing acc with
  | nil =>
      obtain rfl := Except.ok.inj hrun
      exact ⟨[], ⟨List.nodup_nil, by simp⟩, by simp⟩
  | cons c cs ih =>
      obtain ⟨hc, hcs⟩ := List.nodup_cons.mp hcs
      obtain ⟨acc', hfirst, hrest⟩ := bind_eq_ok (hrun : Except.bind _ _ = _)
      obtain ⟨es₀, hes₀, rfl⟩ := map_eq_ok hfirst
      obtain ⟨L₀, h₀, hlen₀⟩ := hf c es₀ hes₀
      obtain ⟨L, h, hlen⟩ := ih hcs hrest
      refine ⟨L₀ ++ L, ⟨List.nodup_append.mpr ⟨h₀.nodup, h.nodup, fun p hp p' hp' heq => ?_⟩,
        fun p => ?_⟩, ?_⟩
      · -- the children have no quads in common
        subst heq
        obtain ⟨⟨l₁, a₁, b₁, hq₁, hsub₁⟩, -⟩ := (h₀.mem p).mp hp
        obtain ⟨⟨c', hc', l₂, a₂, b₂, hq₂, hsub₂⟩, -⟩ := (h.mem p).mp hp'
        obtain ⟨rfl, rfl, rfl⟩ := hq₁.inj hq₂
        have hne : c ≠ c' := fun heq => hc (heq ▸ hc')
        exact subQuads_disjoint hne hsub₁ hsub₂
      · simp only [List.mem_append, h₀.mem, h.mem, List.exists_mem_cons_iff, Set.mem_ofPred_eq]
        exact or_and_right.symm
      · rw [hlen, List.length_append, List.length_append, List.length_cons, hlen₀]
        omega

/-- A quad that is not active is emitted itself. -/
theorem length_of_inactive {fuel : Nat} {q : QuadPtr} {es : List Emission}
    (hactive : ¬ Active m q) (hrun : recursiveSetActiveMesh (fuel + 1) m (some q) = .ok es) :
    es.length = 1 := by
  unfold recursiveSetActiveMesh at hrun
  split at hrun
  · next hstamp =>
      have hstate : (m.quads q).state = .boundary := by
        cases hcase : (m.quads q).state with
        | active => exact absurd ⟨hstamp, hcase⟩ hactive
        | boundary => rfl
      rw [if_pos hstate] at hrun
      obtain ⟨e, -, rfl⟩ := map_eq_ok hrun
      rfl
  · obtain ⟨e, -, rfl⟩ := map_eq_ok hrun
    rfl

/-- An active quad and the active ones below its children. -/
theorem Counts.node {q : QuadPtr} {a b : Nat} {L : List QuadPtr} (h : Shape k m)
    (hq : IsQuad k m q l a b) (hl : l < k) (hactive : Active m q)
    (hL : Counts m {p | ∃ c ∈ ([0, 1, 2, 3] : List (Fin 4)),
      p ∈ below k m (l + 1) (2 * a + dx c) (2 * b + dy c)} L) :
    Counts m (below k m l a b) (q :: L) := by
  have hmem : ∀ c : Fin 4, c ∈ ([0, 1, 2, 3] : List (Fin 4)) := by decide
  have hfresh : q ∉ L := by
    intro hin
    obtain ⟨⟨c, -, l', a', b', hq', hsub⟩, -⟩ := (hL.mem _).mp hin
    obtain ⟨rfl, -, -⟩ := hq.inj hq'
    exact absurd hsub.1 (by simp)
  constructor
  · exact List.nodup_cons.mpr ⟨hfresh, hL.nodup⟩
  · intro p
    rw [List.mem_cons, hL.mem]
    constructor
    · rintro (rfl | ⟨⟨c, -, l', a', b', hp, hsub⟩, hpa⟩)
      · exact ⟨⟨l, a, b, hq, (subQuads_succ hl).mpr (.inl rfl)⟩, hactive⟩
      · exact ⟨⟨l', a', b', hp, (subQuads_succ hl).mpr (.inr ⟨c, hsub⟩)⟩, hpa⟩
    · rintro ⟨⟨l', a', b', hp, hsub⟩, hpa⟩
      rcases (subQuads_succ hl).mp hsub with heq | ⟨c, hsub⟩
      · obtain ⟨rfl, rfl, rfl⟩ : l' = l ∧ a' = a ∧ b' = b := by simpa using heq
        exact .inl (h.unique hp hq)
      · exact .inr ⟨⟨c, hmem c, l', a', b', hp, hsub⟩, hpa⟩

/-- **The number of emitted quads**: one, and three more for every active quad. -/
theorem Shape.counts (h : Shape k m)
    (hup : ∀ q p, Active m q → (m.quads q).parent = some p → Active m (.node p)) {fuel : Nat}
    {q : QuadPtr} {a b : Nat} (hq : IsQuad k m q l a b) {es : List Emission}
    (hrun : recursiveSetActiveMesh fuel m (some q) = .ok es) :
    ∃ L, Counts m (below k m l a b) L ∧ es.length = 1 + 3 * L.length := by
  induction fuel generalizing l q a b es with
  | zero => cases hrun
  | succ fuel ih =>
      by_cases hactive : Active m q
      · have hstate : ¬ (m.quads q).state = .boundary := by
          rw [hactive.2]
          decide
        unfold recursiveSetActiveMesh at hrun
        rw [if_pos hactive.1, if_neg hstate] at hrun
        cases q with
        | leaf i => cases hrun
        | node i =>
            have hl := hq.isNode.mp trivial
            obtain ⟨i', hi, hchild⟩ := h.linked hq.grid hl
            obtain rfl : i = i' := QuadPtr.node.inj (h.unique hq hi)
            obtain ⟨L, hL, hlen⟩ := counts_children (k := k) (l := l) (a := a) (b := b) (m := m)
              (f := fun c => recursiveSetActiveMesh fuel m ((m.inner i).children c))
              (fun c es hes => by
                obtain ⟨x, hx, hxq, -⟩ := hchild c
                rw [hx] at hes
                exact ih hxq hes) (by decide) hrun
            have hsum : es.length = 1 + 3 * (L.length + 1) := by
              rw [hlen]
              simp only [List.length_nil, List.length_cons]
              omega
            exact ⟨.node i :: L, Counts.node h hq hl hactive hL, hsum⟩
      · have hnone : Counts m (below k m l a b) [] := by
          refine ⟨List.nodup_nil, fun p => iff_of_false List.not_mem_nil ?_⟩
          rintro ⟨hp, hpa⟩
          exact h.inactive_below hup hq hactive p hp hpa
        exact ⟨[], hnone, length_of_inactive hactive hrun⟩

/-- What is above a quad of the tree is a quad of the tree. -/
theorem Shape.ancestor_quad (h : Shape k m) {q p : QuadPtr} {a b : Nat}
    (hq : IsQuad k m q l a b) (hp : Ancestor (fun q => (m.quads q).parent) p q) :
    ∃ l' a' b', IsQuad k m p l' a' b' := by
  have hlink : ∀ {x y l a b}, IsQuad k m x l a b →
      ParentLink (fun q => (m.quads q).parent) x y → ∃ l' a' b', IsQuad k m y l' a' b' := by
    rintro x y l a b hx ⟨i, hi, rfl⟩
    obtain ⟨l', a', b', c, hparent, -⟩ := h.parent hx hi
    exact ⟨l', a', b', hparent⟩
  induction hp with
  | single hy => exact hlink hq hy
  | tail _ hy ih =>
      obtain ⟨l', a', b', hx⟩ := ih
      exact hlink hx hy

/-- The quads marked active are quads of the tree. -/
theorem MarkedFor.active_below {near : Nat → Bool} {b : QuadCollapseMesh V}
    (h : MarkedFor b.updateFrame b.quads (borderQuads near b) m) (hlinks : SameLinks b m)
    (hs : Shape k m) {p : QuadPtr} (hp : Active m p) : p ∈ below k m 0 0 0 := by
  obtain ⟨q, ⟨v, -, -, hq⟩, hpq⟩ := (Marks.active h p).mp hp
  have hparents : (fun q => (b.quads q).parent) = fun q => (m.quads q).parent := by
    funext x
    rw [hlinks.quads]
  rw [← hlinks.verts] at hq
  obtain ⟨l, a, b', c, hquad, -⟩ := hs.adjcent.mp hq
  obtain ⟨l', a', b', hp⟩ := hs.ancestor_quad hquad (hparents ▸ hpq)
  exact ⟨l', a', b', hp, Nat.zero_le l', hp.grid.level, Nat.div_eq_of_lt hp.grid.column,
    Nat.div_eq_of_lt hp.grid.row⟩

/-! ### The buffers -/

/-- The buffers of a mesh with `N` vertices: the index buffer holds the indices of the full
mesh or those for the levels of detail, and something is drawn. -/
structure Buffered (N : Nat) (m : QuadCollapseMesh V) : Prop where
  lodIndices : m.lodIndices = List.range N
  longer : N < m.indices.length
  size_pos : 0 < m.size
  buffer : m.indexBuffer = m.indices ∨ m.indexBuffer = m.lodIndices

variable {N n : Nat}

/-- The draw of a frame: its indices are in the buffer, and every one of them belongs to an
emitted vertex. -/
structure DrawsInside (m : QuadCollapseMesh V) : Prop where
  size_eq : m.size = m.activeVertices.length
  buffer : m.indexBuffer = m.lodIndices
  fits : m.size ≤ m.lodIndices.length
  below : ∀ i ∈ m.indexBuffer.take m.size, i < m.activeVertices.length

theorem Buffered.uploadFull (h : Buffered N m) : Buffered N m.uploadFull := by
  unfold QuadCollapseMesh.uploadFull
  split
  · exact h
  · refine ⟨h.lodIndices, h.longer, Nat.lt_of_le_of_lt (Nat.zero_le N) h.longer, ?_⟩
    by_cases hlength : m.indexBuffer.length = m.indices.length
    · rw [if_pos hlength]
      exact h.buffer
    · rw [if_neg hlength]
      exact .inl rfl

/-- An index buffer as long as the indices for the levels of detail holds these. -/
theorem Buffered.upload_eq (h : Buffered N m) :
    (if m.indexBuffer.length = m.lodIndices.length then m.indexBuffer else m.lodIndices) =
      m.lodIndices := by
  split
  · next hlength =>
      rcases h.buffer with hbuffer | hbuffer
      · rw [hbuffer, h.lodIndices, List.length_range] at hlength
        exact absurd hlength h.longer.ne'
      · exact hbuffer
  · rfl

theorem Buffered.uploadActive (h : Buffered N m) (es : List Emission) :
    Buffered N (m.uploadActive es) := by
  unfold QuadCollapseMesh.uploadActive
  simp only
  split
  · exact ⟨h.lodIndices, h.longer, h.size_pos, h.buffer⟩
  · next hlength =>
      exact ⟨h.lodIndices, h.longer, Nat.pos_of_ne_zero hlength, .inr h.upload_eq⟩

/-- A frame that emits something stays inside of the buffer exactly if there are no more
emitted vertices than vertices in the grid. -/
theorem Buffered.drawsInside_iff (h : Buffered N m) {es : List Emission}
    (hsome : 0 < (m.uploadActive es).activeVertices.length) :
    DrawsInside (m.uploadActive es) ↔ (m.uploadActive es).activeVertices.length ≤ N := by
  have hlod : (m.uploadActive es).lodIndices = List.range N := (h.uploadActive es).lodIndices
  -- both buffers are set
  obtain ⟨hsize, hindex⟩ : (m.uploadActive es).size = (m.uploadActive es).activeVertices.length ∧
      (m.uploadActive es).indexBuffer = (m.uploadActive es).lodIndices := by
    unfold QuadCollapseMesh.uploadActive at hsome ⊢
    simp only at hsome ⊢
    split
    · next hempty =>
        rw [if_pos hempty] at hsome
        exact absurd hempty hsome.ne'
    · exact ⟨rfl, h.upload_eq⟩
  constructor
  · intro hdraws
    have hfits := hdraws.fits
    rwa [hsize, hlod, List.length_range] at hfits
  · intro hfits
    constructor
    · exact hsize
    · exact hindex
    · rw [hsize, hlod, List.length_range]
      exact hfits
    · intro i hi
      rw [hindex, hlod, hsize, List.take_range, List.mem_range] at hi
      omega

/-- A frame that emits nothing draws what the frame before has drawn. -/
theorem Buffered.not_drawsInside (h : Buffered N m) {es : List Emission}
    (hnone : (m.uploadActive es).activeVertices = []) : ¬ DrawsInside (m.uploadActive es) := by
  intro hdraws
  have hsize := hdraws.size_eq
  rw [hnone, List.length_nil] at hsize
  exact absurd hsize (h.uploadActive es).size_pos.ne'

/-- The walk leaves the buffers alone. -/
theorem Buffered.grows (h : Buffered N m) (hgrows : Grows (nextFrame m) m') : Buffered N m' := by
  rw [hgrows.rest]
  exact ⟨h.lodIndices, h.longer, h.size_pos, h.buffer⟩

theorem Buffered.step (h : Buffered N m) (hb : Between k n m) (hn : n + 1 < 2 ^ 32)
    {a : Action V} (hstep : Step m a m') : Buffered N m' := by
  cases a with
  | setLod lod =>
      obtain rfl : m' = m.setLod lod := hstep
      exact ⟨h.lodIndices, h.longer, h.size_pos, h.buffer⟩
  | update view =>
      cases hlod : m.lod with
      | true =>
          obtain ⟨s, es, -, -, hup, -, hgrows, -⟩ := hb.update_grows hn hlod view
          obtain rfl := Except.ok.inj (Settles.unique hstep hup)
          exact (h.grows hgrows).uploadActive es
      | false =>
          have hfull : ∀ fuel, update view fuel m = .ok (Terrain.nextFrame m).uploadFull :=
            fun _ => if_neg (by simp [hlod])
          obtain rfl := Except.ok.inj (Settles.unique hstep (Settles.of_forall hfull))
          have hnext : Buffered N (nextFrame m) :=
            ⟨h.lodIndices, h.longer, h.size_pos, h.buffer⟩
          exact hnext.uploadFull

theorem Buffered.run {as : List (Action V)} (h : Buffered N m) (hb : Between k 0 m)
    (hrun : Run Step m as m') (hframes : frames as + 1 < 2 ^ 32) : Buffered N m' := by
  induction hrun with
  | nil => exact h
  | @snoc s t as a hrest hlast ih =>
      have hle := frames_le_append as a
      exact (ih (by omega)).step (hb.run hrest (by omega)) (by omega) hlast

/-- A new mesh of `2 ^ k + 1` by `2 ^ k + 1` vertices. -/
theorem BuiltFrom.buffered [Inhabited V] {limits : Limits} {vertices : List V}
    (h : BuiltFrom (prepared limits k vertices) m)
    (hvertices : vertices.length = (2 ^ k + 1) * (2 ^ k + 1)) :
    Buffered ((2 ^ k + 1) * (2 ^ k + 1)) m := by
  have hpos : 1 ≤ 2 ^ k := Nat.two_pow_pos k
  have hlong : (2 ^ k + 1) * (2 ^ k + 1) < 2 ^ k * 2 ^ k * 6 := by nlinarith
  rw [h]
  refine ⟨?_, ?_, ?_, .inl rfl⟩
  · show [] ++ List.range vertices.length = _
    rw [List.nil_append, hvertices]
  · show _ < (buildIndices (2 ^ k + 1) (2 ^ k + 1) ++ (resized ([] : List Nat)
      (2 ^ k * 2 ^ k * 6) 0).drop (buildIndices (2 ^ k + 1) (2 ^ k + 1)).length).length
    rw [List.length_append, List.length_drop]
    have hresized : (resized ([] : List Nat) (2 ^ k * 2 ^ k * 6) 0).length = 2 ^ k * 2 ^ k * 6 := by
      simp [resized]
    omega
  · show 0 < 2 ^ k * 2 ^ k * 6
    positivity

/-! ### The draw -/

/-- The walk depends on the links only. -/
theorem Reached.congr {near : Nat → Bool} {v : Nat} (hlinks : SameLinks m m')
    (hroots : m'.rootVertNodes = m.rootVertNodes) (h : Reached near m v) : Reached near m' v := by
  induction h with
  | root hv => exact .root (hroots ▸ hv)
  | child _ hnear hparent ih => exact .child ih hnear (by rw [hlinks.verts]; exact hparent)

theorem splitQuads_congr (near : Nat → Bool) (hlinks : SameLinks m m')
    (hroots : m'.rootVertNodes = m.rootVertNodes) : splitQuads near m' = splitQuads near m := by
  have hparents : (fun q => (m'.quads q).parent) = fun q => (m.quads q).parent := by
    funext q
    rw [hlinks.quads]
  have hborder : borderQuads near m' = borderQuads near m := by
    ext q
    constructor
    · rintro ⟨v, hv, hends, hq⟩
      rw [hlinks.verts] at hq
      refine ⟨v, hv.congr hlinks.symm hroots.symm, fun hnear => ?_, hq⟩
      rw [← hlinks.verts]
      exact hends hnear
    · rintro ⟨v, hv, hends, hq⟩
      rw [← hlinks.verts] at hq
      refine ⟨v, hv.congr hlinks hroots, fun hnear => ?_, hq⟩
      rw [hlinks.verts]
      exact hends hnear
  rw [splitQuads, splitQuads, hparents, hborder]

/-- What `addActiveVertNode` finds has been visited. -/
theorem activeAncestor_visited {fuel : Nat} {start : Option Nat} {v : Nat}
    (hrun : activeAncestor m fuel start = .ok (some v)) : Visited m v := by
  induction fuel generalizing start with
  | zero => exact absurd hrun nofun
  | succ fuel ih =>
      cases start with
      | none => exact absurd hrun nofun
      | some p =>
          rw [activeAncestor] at hrun
          split at hrun
          · next hp =>
              obtain rfl := Option.some.inj (Except.ok.inj hrun)
              exact hp
          · exact ih hrun

theorem Source.of_some {v w : Nat} (h : Source m v (some w)) : Visited m w := by
  obtain ⟨N, hN⟩ := h
  have hrun := hN N (Nat.le_refl N)
  beta_reduce at hrun
  rw [addActiveVertNode] at hrun
  split at hrun
  · next hv =>
      obtain rfl := Option.some.inj (Except.ok.inj hrun)
      exact hv
  · exact activeAncestor_visited hrun

/-- Where no vertex counts as visited, nothing is emitted. -/
theorem Emits.pushes_nil {es : List Emission} {a b : Nat} (h : Emits k m l a b es)
    (hnone : ∀ v, ¬ Visited m v) : es.flatMap Emission.pushes = [] := by
  rw [List.flatMap_eq_nil_iff]
  intro e he
  obtain ⟨l', a', b', hemitted⟩ := h.emitted e he
  obtain ⟨src, hsrc, hpushes⟩ := hemitted.pushes
  have hall : ∀ c, src c = none := by
    intro c
    cases hc : src c with
    | none => rfl
    | some v => exact absurd (hc ▸ hsrc c).of_some (hnone v)
  rw [hpushes, pushesOf]
  simp [hall]

/-- The number of quads that a frame emits. -/
theorem Between.emitted_length (h : Between k n m) (hn : n + 1 < 2 ^ 24) {view : FrameView V}
    {es : List Emission} (hgrows : Grows (Terrain.nextFrame m) m') (h' : InFrame k ∅ none m')
    (hwalk : Settles (fun fuel => updateVertNodes view fuel (Terrain.nextFrame m)) (.ok m'))
    (hemit : Settles (fun fuel => recursiveSetActiveMesh fuel m' m'.rootQuadNode) (.ok es)) :
    es.length = 1 + 3 * (splitQuads view.near m).ncard := by
  obtain ⟨hstart, hframe⟩ := h.nextFrame (by omega)
  have hkept := kept_nextFrame m
  have hs := h'.early (by rw [hgrows.updateFrame, hframe]; exact hn)
  have hnew := hstart.early (by rw [hframe]; exact hn)
  obtain ⟨N, hN⟩ := hwalk
  have hquads : ∀ q, ((Terrain.nextFrame m).quads q).activeFrame ≠
      (Terrain.nextFrame m).updateFrame :=
    fun q hq => List.not_mem_nil ((hnew.marked q).mpr hq)
  have hmarks := walk_marks (by rw [hframe]; exact hn) hstart.built.tree.siblings
    (fun v hv => List.not_mem_nil ((hnew.visited v).mpr hv)) hquads (hN N (Nat.le_refl N))
  obtain ⟨q, hq, hquad⟩ := h'.built.root
  obtain ⟨M, hM⟩ := hemit
  have hrun := hM M (Nat.le_refl M)
  beta_reduce at hrun
  rw [hq] at hrun
  obtain ⟨L, hL, hlength⟩ := h'.built.toShape.counts
    (fun x p hx hp => (hs.upClosed x p hx hp).resolve_right nofun) hquad hrun
  have hset : {p | p ∈ L} = splitQuads view.near m := by
    rw [← splitQuads_congr view.near hkept.links (by rw [hkept.rest])]
    ext p
    rw [Set.mem_ofPred_eq, hL.mem]
    refine (and_iff_right_of_imp fun hp => ?_).trans (Marks.active hmarks p)
    exact hmarks.active_below hgrows.links h'.built.toShape hp
  rw [hlength, ← hset, ← List.coe_toFinset, Set.ncard_coe_finset,
    List.toFinset_card_of_nodup hL.nodup]

/-- **The draw of one frame.** -/
theorem Between.drawsInside_iff (h : Between k n m)
    (hbuffers : Buffered ((2 ^ k + 1) * (2 ^ k + 1)) m) (hn : n + 1 < 2 ^ 32)
    (hlod : m.lod = true) (view : FrameView V) :
    ∃ m', Settles (fun fuel => update view fuel m) (.ok m') ∧
      (DrawsInside m' ↔ n + 1 < 2 ^ 24 ∧
        18 * (splitQuads view.near m).ncard + 6 ≤ (2 ^ k + 1) * (2 ^ k + 1)) := by
  obtain ⟨m', es, hwalk, hemit, hup, h', hgrows, hroots, hemits⟩ := h.update_grows hn hlod view
  obtain ⟨hstart, hframe⟩ := h.nextFrame hn
  have hframe' := hgrows.updateFrame.trans hframe
  have hbuffers' := hbuffers.grows hgrows
  refine ⟨_, hup, ?_⟩
  by_cases hearly : n + 1 < 2 ^ 24
  · have hs := h'.early (hframe' ▸ hearly)
    have hcovers := hemits.covers h'.built.toShape fun c => (hs.visited _).mp (hroots c)
    have hlength := h.emitted_length hearly hgrows h' hwalk hemit
    have hactive : (m'.uploadActive es).activeVertices.length =
        18 * (splitQuads view.near m).ncard + 6 := by
      obtain ⟨vertexBuffer, size, indexBuffer, heq⟩ := uploadActive_eq m' es
      rw [hcovers.vertices, heq]
      show 6 * es.length = _
      omega
    have hdraws := hbuffers'.drawsInside_iff (by rw [hactive]; exact Nat.succ_pos _)
    rw [hactive] at hdraws
    rw [and_iff_right hearly, hdraws]
  · -- no stamp equals the number of the frame
    have hnone : ∀ v, ¬ Visited m' v := by
      intro v hv
      have hlt := h'.stamp_lt v
      rw [Visited, hframe'] at hv
      omega
    have hempty : (m'.uploadActive es).activeVertices = [] := by
      obtain ⟨vertexBuffer, size, indexBuffer, heq⟩ := uploadActive_eq m' es
      rw [heq]
      simp [hemits.pushes_nil hnone]
    exact iff_of_false (hbuffers'.not_drawsInside hempty) fun hcond => hearly hcond.1

/-- **The draw stays inside the index buffer** exactly in the frames below `2 ^ 24` that
split few enough quads; which quads a frame splits is decided by its distances and the trees
that `build` has left. -/
theorem draws_inside_iff [Inhabited V] (closer : V → V → V → Bool) (hk : k ≤ 12)
    {vertices : List V} (hvertices : vertices.length = (2 ^ k + 1) * (2 ^ k + 1)) :
    ∃ m₀, Settles (fun fuel => build closer fuel (empty {}) vertices (2 ^ k + 1) (2 ^ k + 1))
        (.ok (true, m₀)) ∧
      ∀ as m, Run Step m₀ as m → m.lod = true → frames as + 1 < 2 ^ 32 →
        ∀ view, ∃ m', Settles (fun fuel => update view fuel m) (.ok m') ∧
          (DrawsInside m' ↔ frames as + 1 < 2 ^ 24 ∧
            18 * (splitQuads view.near m₀).ncard + 6 ≤ (2 ^ k + 1) * (2 ^ k + 1)) := by
  obtain ⟨m₀, hbuild, hfresh, hfrom⟩ :=
    build_settles_from closer (shipped_admits hk) hvertices.ge
  refine ⟨m₀, hbuild, fun as m hrun hlod hlt view => ?_⟩
  have hkept := hfresh.between.kept_run hrun hlt
  have hbuffers := (hfrom.buffered hvertices).run hfresh.between hrun hlt
  have hsplit := splitQuads_congr view.near hkept.links (by rw [hkept.rest])
  rw [← hsplit]
  exact (hfresh.between.run hrun (by omega)).drawsInside_iff hbuffers hlt hlod view

/-- The first frame of a mesh of nine vertices, with all vertices far away. -/
theorem draws_inside_nine :
    ∃ m₀ m', Settles (fun fuel => build (fun _ _ _ => true) fuel (empty {}) (List.range 9) 3 3)
        (.ok (true, m₀)) ∧
      Settles (fun fuel => update ⟨fun _ => false, fun v _ => v.originalVertex⟩ fuel
        (m₀.setLod true)) (.ok m') ∧
      (DrawsInside m' ↔ 0 + 1 < 2 ^ 24 ∧
        18 * (splitQuads (fun _ => false) m₀).ncard + 6 ≤ (2 ^ 1 + 1) * (2 ^ 1 + 1)) := by
  have hvertices : (List.range 9).length = (2 ^ 1 + 1) * (2 ^ 1 + 1) := by decide
  obtain ⟨m₀, hbuild, hdraws⟩ := draws_inside_iff (fun _ _ _ => true) (by decide) hvertices
  have hrun : Run Step m₀ [.setLod true] (m₀.setLod true) := (Run.nil m₀).snoc rfl
  obtain ⟨m', hup, hiff⟩ := hdraws _ _ hrun rfl (by decide)
    ⟨fun _ => false, fun v _ => v.originalVertex⟩
  exact ⟨m₀, m', hbuild, hup, hiff⟩

/-- A mesh of one leaf draws six indices out of a buffer of four. -/
theorem draws_outside_leaf :
    ∃ m₀ m', Settles (fun fuel => build (fun _ _ _ => true) fuel (empty {}) [0, 1, 2, 3] 2 2)
        (.ok (true, m₀)) ∧
      Settles (fun fuel => update ⟨fun _ => true, fun v _ => v.originalVertex⟩ fuel
        (m₀.setLod true)) (.ok m') ∧ ¬ DrawsInside m' := by
  have hvertices : [0, 1, 2, 3].length = (2 ^ 0 + 1) * (2 ^ 0 + 1) := by decide
  obtain ⟨m₀, hbuild, hfresh, hfrom⟩ :=
    build_settles_from (fun _ _ _ => true) (shipped_admits (Nat.zero_le 12)) hvertices.ge
  have hrun : Run Step m₀ [.setLod true] (m₀.setLod true) := (Run.nil m₀).snoc rfl
  have hbuffers := (hfrom.buffered hvertices).run hfresh.between hrun (by decide)
  obtain ⟨m', hup, hiff⟩ := (hfresh.between.run hrun (by decide)).drawsInside_iff hbuffers
    (by decide) rfl ⟨fun _ => true, fun v _ => v.originalVertex⟩
  refine ⟨m₀, m', hbuild, hup, fun hdraws => ?_⟩
  have hfits := (hiff.mp hdraws).2
  omega

end Maple.Terrain
