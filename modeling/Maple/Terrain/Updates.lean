import Mathlib.Order.BourbakiWitt
import Mathlib.Order.CompletePartialOrder
import Maple.Lib.Run
import Maple.Terrain.ActiveMesh

/-!
# Maple.Terrain.Updates

**Runs of updates.** After `build` the mesh is updated once a frame, with or without
levels of detail. Between the frames no stamp is newer than the number of updates
(`Between`), so that every update starts without marks. An update with levels of
detail ends, covers the terrain (`active_mesh_covers`), and keeps exact stamps as
long as its number fits into 24 bits (`stamps_exact_iff`).
-/

namespace Maple.Terrain

open Lib QuadCollapseMesh

variable {V : Type} {k n : Nat} {m m' : QuadCollapseMesh V}

/-! ### One update -/

/-- The invariant between the frames, after `n` updates. -/
structure Between (k n : Nat) (m : QuadCollapseMesh V) : Prop where
  built : Built k m
  frame : m.updateFrame = n
  stamp_lt : ∀ v, (m.verts v).activeFrame < 2 ^ 24
  leaf : ∀ i, (m.quads (.leaf i)).activeFrame ≠ 0 → (m.quads (.leaf i)).state = .boundary
  stamp_le : n < 2 ^ 24 → ∀ v, (m.verts v).activeFrame ≤ n
  quadStamp_le : n < 2 ^ 24 → ∀ q, (m.quads q).activeFrame ≤ n

theorem Fresh.between (h : Fresh k m) : Between k 0 m := by
  refine ⟨h.toBuilt, h.updateFrame, fun v => ?_, fun i hi => absurd (h.unmarkedQuad _) hi,
    fun _ v => (h.unmarked v).le, fun _ q => (h.unmarkedQuad q).le⟩
  rw [h.unmarked]
  decide

/-- The start of a frame. -/
def nextFrame (m : QuadCollapseMesh V) : QuadCollapseMesh V :=
  { m with updateFrame := (m.updateFrame + 1) % 2 ^ 32, visits := [], markedQuads := [] }

/-- Nothing has been marked. -/
theorem Between.nextFrame (h : Between k n m) (hn : n + 1 < 2 ^ 32) :
    InFrame k ∅ none (nextFrame m) ∧ (nextFrame m).updateFrame = n + 1 := by
  have hframe : (Terrain.nextFrame m).updateFrame = n + 1 := by
    show (m.updateFrame + 1) % 2 ^ 32 = n + 1
    rw [h.frame, Nat.mod_eq_of_lt hn]
  have hlinks : SameLinks m (Terrain.nextFrame m) := ⟨fun _ => rfl, fun _ => rfl, rfl, rfl, rfl⟩
  refine ⟨⟨hlinks.built rfl rfl h.built, h.stamp_lt, h.leaf, fun hf => ?_⟩, hframe⟩
  rw [hframe] at hf
  have hold : ∀ v, (m.verts v).activeFrame < n + 1 := fun v =>
    Nat.lt_succ_of_le (h.stamp_le (by omega) v)
  have holdQuad : ∀ q, (m.quads q).activeFrame < n + 1 := fun q =>
    Nat.lt_succ_of_le (h.quadStamp_le (by omega) q)
  have hvisited : ∀ v, ¬ Visited (Terrain.nextFrame m) v := fun v hv =>
    absurd (hframe ▸ hv : (m.verts v).activeFrame = n + 1) (hold v).ne
  have hmarked : ∀ q, ¬ (m.quads q).activeFrame = (Terrain.nextFrame m).updateFrame := fun q =>
    hframe ▸ (holdQuad q).ne
  refine ⟨fun v => ?_, fun q => ?_, List.nodup_nil, fun v => ?_, fun q => ?_, fun q p hq => ?_,
    fun v hv => absurd hv (hvisited v)⟩
  · exact iff_of_false (List.not_mem_nil) (hvisited v)
  · exact iff_of_false (List.not_mem_nil) (hmarked q)
  · rw [hframe]
    exact (hold v).le
  · rw [hframe]
    exact (holdQuad q).le
  · exact absurd hq.1 (hmarked q)

/-- What `uploadActive` does not touch. -/
theorem uploadActive_eq (m : QuadCollapseMesh V) (es : List Emission) :
    ∃ vertexBuffer size indexBuffer, uploadActive m es = { m with
      activeQuads := es
      activeVertices := (es.flatMap Emission.pushes).map fun push =>
        (m.verts push.2).interpolatedVertex
      vertexBuffer := vertexBuffer
      size := size
      indexBuffer := indexBuffer } := by
  by_cases hempty : ((es.flatMap Emission.pushes).map fun push =>
      (m.verts push.2).interpolatedVertex).length = 0
  · exact ⟨m.vertexBuffer, m.size, m.indexBuffer, if_pos hempty⟩
  · exact ⟨_, _, _, if_neg hempty⟩

theorem sameLinks_uploadActive (m : QuadCollapseMesh V) (es : List Emission) :
    SameLinks m (uploadActive m es) := by
  obtain ⟨vertexBuffer, size, indexBuffer, heq⟩ := uploadActive_eq m es
  rw [heq]
  exact ⟨fun _ => rfl, fun _ => rfl, rfl, rfl, rfl⟩

/-- **An update with levels of detail**: the walk over the vertices, and what it emits. -/
theorem Between.update_grows (h : Between k n m) (hn : n + 1 < 2 ^ 32) (hlod : m.lod = true)
    (view : FrameView V) :
    ∃ m' es, Settles (fun fuel => updateVertNodes view fuel (Terrain.nextFrame m)) (.ok m') ∧
      Settles (fun fuel => recursiveSetActiveMesh fuel m' m'.rootQuadNode) (.ok es) ∧
      Settles (fun fuel => update view fuel m) (.ok (uploadActive m' es)) ∧
      InFrame k ∅ none m' ∧ Grows (Terrain.nextFrame m) m' ∧
      (∀ c, vertIndex 0 (dx c) (dy c) ∈ m'.visits) ∧ Emits k m' 0 0 0 es := by
  obtain ⟨h₁, hframe⟩ := h.nextFrame hn
  obtain ⟨m', hrun, h', hgrows, hroots⟩ := updateVertNodes_settles view h₁
  have hframe' : m'.updateFrame = n + 1 := hgrows.updateFrame.trans hframe
  obtain ⟨q, hq, hquad⟩ := h'.built.root
  obtain ⟨es, hwalk, hemits⟩ := emits h'.built.toShape h'.leaf (by rw [hframe']; simp)
    (Nat.zero_add k) hquad
  rw [← hq] at hwalk
  refine ⟨m', es, hrun, hwalk, ?_, h', hgrows, hroots, hemits⟩
  have hupdate : ∀ fuel, update view fuel m =
      (updateVertNodes view fuel (Terrain.nextFrame m)).bind fun m =>
        (recursiveSetActiveMesh fuel m m.rootQuadNode).map (uploadActive m) := fun fuel =>
    if_pos hlod
  exact (hrun.except_bind (hwalk.comp (Except.map (uploadActive m')))).congr hupdate

theorem Between.update_lod (h : Between k n m) (hn : n + 1 < 2 ^ 32) (hlod : m.lod = true)
    (view : FrameView V) :
    ∃ m' es, Settles (fun fuel => update view fuel m) (.ok (uploadActive m' es)) ∧
      InFrame k ∅ none m' ∧ m'.updateFrame = n + 1 ∧
      (∀ c, vertIndex 0 (dx c) (dy c) ∈ m'.visits) ∧ FrameState (Terrain.nextFrame m) m' ∧
      Emits k m' 0 0 0 es := by
  obtain ⟨m', es, -, -, hup, h', hgrows, hroots, hemits⟩ := h.update_grows hn hlod view
  exact ⟨m', es, hup, h', hgrows.updateFrame.trans (h.nextFrame hn).2, hroots, hgrows.states,
    hemits⟩

/-- The frame ends. -/
theorem InFrame.between {es : List Emission} (h : InFrame k ∅ none m) (hn : m.updateFrame = n) :
    Between k n (uploadActive m es) := by
  have hlinks := sameLinks_uploadActive m es
  obtain ⟨vertexBuffer, size, indexBuffer, heq⟩ := uploadActive_eq m es
  refine ⟨hlinks.built (by rw [heq]) (by rw [heq]) h.built, by rw [heq]; exact hn, ?_, ?_, ?_, ?_⟩
  · rw [heq]
    exact h.stamp_lt
  · rw [heq]
    exact h.leaf
  · rw [heq]
    exact fun hlt => hn ▸ (h.early (hn.symm ▸ hlt)).stamp_le
  · rw [heq]
    exact fun hlt => hn ▸ (h.early (hn.symm ▸ hlt)).quadStamp_le

/-- An update without levels of detail changes the buffers only. -/
theorem Between.update_full (h : Between k n m) (hn : n + 1 < 2 ^ 32) (hlod : m.lod = false)
    (view : FrameView V) (fuel : Nat) :
    ∃ m', update view fuel m = .ok m' ∧ Between k (n + 1) m' := by
  obtain ⟨h₁, hframe⟩ := h.nextFrame hn
  have hupdate : update view fuel m = .ok (Terrain.nextFrame m).uploadFull :=
    if_neg (by simp [hlod])
  have hsame : ∀ x : QuadCollapseMesh V, Between k (n + 1) x → Between k (n + 1) x.uploadFull := by
    intro x hx
    unfold uploadFull
    split
    · exact hx
    · have hlinks : SameLinks x { x with
          vertexBuffer := x.vertices
          size := x.indices.length
          indexBuffer := if x.indexBuffer.length = x.indices.length then x.indexBuffer
            else x.indices } := ⟨fun _ => rfl, fun _ => rfl, rfl, rfl, rfl⟩
      exact ⟨hlinks.built rfl rfl hx.built, hx.frame, hx.stamp_lt, hx.leaf, hx.stamp_le,
        hx.quadStamp_le⟩
  refine ⟨_, hupdate, hsame _ ⟨h₁.built, hframe, h₁.stamp_lt, h₁.leaf, fun hlt v => ?_,
    fun hlt q => ?_⟩⟩
  · exact hframe ▸ (h₁.early (hframe.symm ▸ hlt)).stamp_le v
  · exact hframe ▸ (h₁.early (hframe.symm ▸ hlt)).quadStamp_le q

/-! ### Runs -/

/-- A call of the owner of the mesh. -/
inductive Action (V : Type) where
  | setLod (lod : Bool)
  | update (view : FrameView V)

/-- What a call leads to. -/
def Step (m : QuadCollapseMesh V) : Action V → QuadCollapseMesh V → Prop
  | .setLod lod, m' => m' = m.setLod lod
  | .update view, m' => Settles (fun fuel => update view fuel m) (.ok m')

/-- The number of updates. -/
def frames : List (Action V) → Nat
  | [] => 0
  | .setLod _ :: as => frames as
  | .update _ :: as => frames as + 1

theorem frames_append (as bs : List (Action V)) : frames (as ++ bs) = frames as + frames bs := by
  induction as with
  | nil => simp [frames]
  | cons a as ih =>
      cases a with
      | setLod lod => exact ih
      | update view =>
          show frames (as ++ bs) + 1 = frames as + 1 + frames bs
          omega

/-- **The invariant holds along every run.** -/
theorem Between.run {as : List (Action V)} (h : Between k 0 m) (hrun : Run Step m as m')
    (hframes : frames as < 2 ^ 32) : Between k (frames as) m' := by
  refine hrun.invariant (I := fun as m => frames as < 2 ^ 32 → Between k (frames as) m)
    (fun _ => h) (fun as s a t ih hstep hlt => ?_) hframes
  rw [frames_append] at hlt ⊢
  cases a with
  | setLod lod =>
      obtain rfl : t = s.setLod lod := hstep
      have hs := ih hlt
      have hlinks : SameLinks s (s.setLod lod) := ⟨fun _ => rfl, fun _ => rfl, rfl, rfl, rfl⟩
      exact ⟨hlinks.built rfl rfl hs.built, hs.frame, hs.stamp_lt, hs.leaf, hs.stamp_le,
        hs.quadStamp_le⟩
  | update view =>
      have hlt' : frames as + 1 < 2 ^ 32 := hlt
      have hs := ih (by omega)
      cases hlod : s.lod with
      | true =>
          obtain ⟨s', es, hup, h', hframe, -⟩ := hs.update_lod hlt' hlod view
          obtain rfl := Except.ok.inj (Settles.unique hstep hup)
          exact h'.between hframe
      | false =>
          have hfull : ∀ fuel, update view fuel s = .ok (Terrain.nextFrame s).uploadFull :=
            fun _ => if_neg (by simp [hlod])
          obtain ⟨s', hup, h'⟩ := hs.update_full hlt' hlod view 0
          obtain rfl := Except.ok.inj (Settles.unique hstep (Settles.of_forall hfull))
          obtain rfl := Except.ok.inj ((hfull 0).symm.trans hup)
          exact h'

/-- What no call changes: the links, and all that `build` has set but the buffers. -/
structure Kept (m m' : QuadCollapseMesh V) : Prop where
  links : SameLinks m m'
  rest : m' = { m with
    lod := m'.lod
    size := m'.size
    activeVertices := m'.activeVertices
    activeQuads := m'.activeQuads
    visits := m'.visits
    markedQuads := m'.markedQuads
    indexBuffer := m'.indexBuffer
    vertexBuffer := m'.vertexBuffer
    verts := m'.verts
    quads := m'.quads
    updateFrame := m'.updateFrame }

theorem Kept.refl (m : QuadCollapseMesh V) : Kept m m := ⟨SameLinks.refl m, rfl⟩

theorem Kept.trans {m'' : QuadCollapseMesh V} (h : Kept m m') (h' : Kept m' m'') :
    Kept m m'' := by
  refine ⟨h.links.trans h'.links, ?_⟩
  rw [h'.rest, h.rest]

theorem kept_nextFrame (m : QuadCollapseMesh V) : Kept m (nextFrame m) :=
  ⟨⟨fun _ => rfl, fun _ => rfl, rfl, rfl, rfl⟩, rfl⟩

theorem Grows.kept (h : Grows m m') : Kept m m' := by
  refine ⟨h.links, ?_⟩
  rw [h.rest]

theorem kept_uploadActive (m : QuadCollapseMesh V) (es : List Emission) :
    Kept m (uploadActive m es) := by
  refine ⟨sameLinks_uploadActive m es, ?_⟩
  obtain ⟨vertexBuffer, size, indexBuffer, heq⟩ := uploadActive_eq m es
  rw [heq]

theorem kept_uploadFull (m : QuadCollapseMesh V) : Kept m m.uploadFull := by
  unfold uploadFull
  split
  · exact Kept.refl m
  · exact ⟨⟨fun _ => rfl, fun _ => rfl, rfl, rfl, rfl⟩, rfl⟩

theorem Between.kept_step (h : Between k n m) (hn : n + 1 < 2 ^ 32) {a : Action V}
    (hstep : Step m a m') : Kept m m' := by
  cases a with
  | setLod lod =>
      obtain rfl : m' = m.setLod lod := hstep
      exact ⟨⟨fun _ => rfl, fun _ => rfl, rfl, rfl, rfl⟩, rfl⟩
  | update view =>
      cases hlod : m.lod with
      | true =>
          obtain ⟨s, es, -, -, hup, -, hgrows, -⟩ := h.update_grows hn hlod view
          obtain rfl := Except.ok.inj (Settles.unique hstep hup)
          exact (kept_nextFrame m).trans (hgrows.kept.trans (kept_uploadActive s es))
      | false =>
          have hfull : ∀ fuel, update view fuel m = .ok (Terrain.nextFrame m).uploadFull :=
            fun _ => if_neg (by simp [hlod])
          obtain rfl := Except.ok.inj (Settles.unique hstep (Settles.of_forall hfull))
          exact (kept_nextFrame m).trans (kept_uploadFull _)

theorem frames_le_append (as : List (Action V)) (a : Action V) :
    frames as ≤ frames (as ++ [a]) ∧ frames (as ++ [a]) ≤ frames as + 1 := by
  rw [frames_append]
  cases a <;> simp [frames]

theorem Between.kept_run {as : List (Action V)} (h : Between k 0 m) (hrun : Run Step m as m')
    (hframes : frames as + 1 < 2 ^ 32) : Kept m m' := by
  induction hrun with
  | nil => exact Kept.refl m
  | @snoc s t as a hrest hlast ih =>
      have hle := frames_le_append as a
      exact (ih (by omega)).trans ((h.run hrest (by omega)).kept_step (by omega) hlast)

/-! ### The active mesh covers the terrain -/

/-- The emitted quads are interior-disjoint, make up the whole square, and have six
vertices each. -/
structure Covers (k : Nat) (m : QuadCollapseMesh V) : Prop where
  quads : ∀ e ∈ m.activeQuads, ∃ l a b, IsQuad k m e.quad l a b
  disjoint : m.activeQuads.Pairwise fun e e' =>
    Disjoint (interior (region k m e.quad)) (interior (region k m e'.quad))
  union : (⋃ e ∈ m.activeQuads, region k m e.quad) =
    Set.Icc (0 : ℝ) (2 ^ k) ×ˢ Set.Icc (0 : ℝ) (2 ^ k)
  six : ∀ e ∈ m.activeQuads, e.pushes.length = 6
  vertices : m.activeVertices.length = 6 * m.activeQuads.length

theorem length_pushesOf {src : Fin 4 → Option Nat} (hsrc : ∀ c, ∃ v, src c = some v)
    (cs : List (Fin 4)) : (pushesOf src cs).length = cs.length := by
  induction cs with
  | nil => rfl
  | cons c cs ih =>
      obtain ⟨v, hv⟩ := hsrc c
      rw [pushesOf, List.filterMap_cons, hv]
      exact congrArg (· + 1) ih

/-- No vertex is dropped, since the root vertices have been visited. -/
theorem Emitted.six {e : Emission} {l a b : Nat} (h : Emitted k m e l a b) (hs : Shape k m)
    (hroots : ∀ c, Visited m (vertIndex 0 (dx c) (dy c))) : e.pushes.length = 6 := by
  obtain ⟨src, hsrc, hpushes⟩ := h.pushes
  have hsome : ∀ c, ∃ v, src c = some v := by
    intro c
    obtain ⟨r, hr, hv⟩ := hs.exists_source (h.quad.grid.corner c)
    rw [(hsrc c).unique hr]
    exact hv hroots
  rw [hpushes, length_pushesOf hsome]
  cases (m.quads e.quad).triangulationMode with
  | nwSe => rfl
  | swNe => rfl

theorem Emits.covers {es : List Emission} (h : Emits k m 0 0 0 es) (hs : Shape k m)
    (hroots : ∀ c, Visited m (vertIndex 0 (dx c) (dy c))) : Covers k (uploadActive m es) := by
  have hlinks := sameLinks_uploadActive m es
  obtain ⟨vertexBuffer, size, indexBuffer, heq⟩ := uploadActive_eq m es
  have hactive : (uploadActive m es).activeQuads = es := by rw [heq]
  have hregion : ∀ q, region k (uploadActive m es) q = region k m q := by
    intro q
    ext x
    simp only [region, hlinks.isQuad_iff]
  have hsix : ∀ e ∈ es, e.pushes.length = 6 := by
    intro e he
    obtain ⟨l, a, b, hemitted⟩ := h.emitted e he
    exact hemitted.six hs hroots
  refine ⟨fun e he => ?_, ?_, ?_, ?_, ?_⟩
  · rw [hactive] at he
    obtain ⟨l, a, b, hemitted⟩ := h.emitted e he
    exact ⟨l, a, b, hlinks.isQuad hemitted.quad⟩
  · rw [hactive]
    simp only [hregion]
    have hdisjoint := h.tiles.disjoint
    rw [List.pairwise_map] at hdisjoint
    exact hdisjoint
  · rw [hactive]
    simp only [hregion]
    have hroot : square k 0 0 0 = Set.Icc (0 : ℝ) (2 ^ k) ×ˢ Set.Icc (0 : ℝ) (2 ^ k) := by
      simp [square]
    ext x
    rw [← hroot, h.tiles.union]
    simp
  · rw [hactive]
    exact hsix
  · have hlength : (uploadActive m es).activeVertices.length =
        (es.flatMap Emission.pushes).length := by
      rw [heq]
      exact List.length_map ..
    rw [hlength, hactive, List.length_flatMap]
    have hmap : es.map (fun e => e.pushes.length) = es.map fun _ => 6 :=
      List.map_congr_left hsix
    rw [hmap]
    simp [Nat.mul_comm]

/-- An update with levels of detail, after any run whose number of such updates stays
below `2 ^ 24`. -/
theorem update_settles_of_run [Inhabited V] (closer : V → V → V → Bool) (hk : k ≤ 12)
    {vertices : List V} (hvertices : (2 ^ k + 1) * (2 ^ k + 1) ≤ vertices.length) :
    ∃ m₀, Settles (fun fuel => build closer fuel (empty {}) vertices (2 ^ k + 1) (2 ^ k + 1))
        (.ok (true, m₀)) ∧
      ∀ as m, Run Step m₀ as m → m.lod = true → frames as + 1 < 2 ^ 24 →
        ∀ view, ∃ m' es, Settles (fun fuel => update view fuel m) (.ok (uploadActive m' es)) ∧
          Shape k m' ∧ Stamped ∅ none m' ∧ (∀ c, Visited m' (vertIndex 0 (dx c) (dy c))) ∧
          Emits k m' 0 0 0 es := by
  obtain ⟨m₀, hbuild, hfresh⟩ := build_settles closer (shipped_admits hk) hvertices
  refine ⟨m₀, hbuild, fun as m hrun hlod hlt view => ?_⟩
  have h := hfresh.between.run hrun (by omega)
  obtain ⟨m', es, hup, h', hframe, hroots, -, hemits⟩ := h.update_lod (by omega) hlod view
  have hs := h'.early (hframe ▸ hlt)
  exact ⟨m', es, hup, h'.built.toShape, hs, fun c => (hs.visited _).mp (hroots c), hemits⟩

/-- **The active mesh covers the terrain.** After any run, every update with levels of
detail whose number is below `2 ^ 24` ends without a fault, in particular without
reading the children of a leaf, and the quads it emits cover the terrain square. -/
theorem active_mesh_covers [Inhabited V] (closer : V → V → V → Bool) (hk : k ≤ 12)
    {vertices : List V} (hvertices : (2 ^ k + 1) * (2 ^ k + 1) ≤ vertices.length) :
    ∃ m₀, Settles (fun fuel => build closer fuel (empty {}) vertices (2 ^ k + 1) (2 ^ k + 1))
        (.ok (true, m₀)) ∧
      ∀ as m, Run Step m₀ as m → m.lod = true → frames as + 1 < 2 ^ 24 →
        ∀ view, ∃ m', Settles (fun fuel => update view fuel m) (.ok m') ∧ Covers k m' := by
  obtain ⟨m₀, hbuild, hruns⟩ := update_settles_of_run closer hk hvertices
  refine ⟨m₀, hbuild, fun as m hrun hlod hlt view => ?_⟩
  obtain ⟨m', es, hup, hshape, -, hroots, hemits⟩ := hruns as m hrun hlod hlt view
  exact ⟨_, hup, hemits.covers hshape hroots⟩

/-- Every other vertex is near. -/
def evenNear : FrameView Nat := ⟨fun v => v % 2 == 0, fun v _ => v.originalVertex⟩

/-- A mesh of 5 by 5 vertices is covered in its second frame too. -/
theorem active_mesh_covers_second :
    ∃ m₀ m₁ m₂, Settles (fun fuel =>
        build (fun a b c => decide (a + b ≤ c)) fuel (empty {}) (List.range 25) 5 5)
        (.ok (true, m₀)) ∧
      Settles (fun fuel => update evenNear fuel (m₀.setLod true)) (.ok m₁) ∧
      Settles (fun fuel => update evenNear fuel (m₁.setLod true)) (.ok m₂) ∧
      Covers 2 m₁ ∧ Covers 2 m₂ := by
  have hvertices : (2 ^ 2 + 1) * (2 ^ 2 + 1) ≤ (List.range 25).length := by decide
  obtain ⟨m₀, hbuild, hcover⟩ := active_mesh_covers (fun a b c => decide (a + b ≤ c))
    (by decide) hvertices
  have hrun : Run Step m₀ [.setLod true] (m₀.setLod true) := (Run.nil m₀).snoc rfl
  obtain ⟨m₁, hup₁, hm₁⟩ := hcover _ _ hrun rfl (by decide) evenNear
  have hstep : Step (m₀.setLod true) (.update evenNear) m₁ := hup₁
  have hrun₁ : Run Step m₀ [.setLod true, .update evenNear, .setLod true] (m₁.setLod true) :=
    (hrun.snoc hstep).snoc rfl
  obtain ⟨m₂, hup₂, hm₂⟩ := hcover _ _ hrun₁ rfl (by decide) evenNear
  exact ⟨m₀, m₁, m₂, hbuild, hup₁, hup₂, hm₁, hm₂⟩

/-! ### The stamps -/

/-- The stamps of the frame between `m` and `m'` are exact: in all its states the nodes
that have been marked, and no others, pass the test for the frame, no vertex is
visited twice, and something is drawn. -/
structure ExactFrame (m m' : QuadCollapseMesh V) : Prop where
  verts : ∀ s, FrameState (nextFrame m) s → FrameState s m' →
    ∀ v, v ∈ s.visits ↔ (s.verts v).activeFrame = s.updateFrame
  quads : ∀ s, FrameState (nextFrame m) s → FrameState s m' →
    ∀ q, q ∈ s.markedQuads ↔ (s.quads q).activeFrame = s.updateFrame
  once : m'.visits.Nodup
  drawn : m'.activeVertices ≠ []

/-- The two tests are exact in a state. -/
structure ExactStamps (m : QuadCollapseMesh V) : Prop where
  early : m.updateFrame < 2 ^ 24
  verts : ∀ v, v ∈ m.visits ↔ (m.verts v).activeFrame = m.updateFrame
  quads : ∀ q, q ∈ m.markedQuads ↔ (m.quads q).activeFrame = m.updateFrame

/-- Marking a node writes the number of the frame. -/
theorem ExactStamps.frameState (h : ExactStamps m) (hs : FrameState m m') : ExactStamps m' := by
  induction hs with
  | start => exact h
  | @markVert s v _ ih =>
      have hstamp : s.updateFrame % 2 ^ 24 = s.updateFrame := Nat.mod_eq_of_lt ih.early
      refine ⟨ih.early, fun x => ?_, ih.quads⟩
      show x ∈ s.visits ++ [v] ↔ _ = s.updateFrame
      by_cases hx : x = v
      · rw [hx, markVert_self]
        exact iff_of_true (by simp) hstamp
      · rw [markVert_of_ne hx, ← ih.verts x]
        simp [hx]
  | @markQuad s q state _ ih =>
      have hstamp : s.updateFrame % 2 ^ 26 = s.updateFrame :=
        Nat.mod_eq_of_lt (Nat.lt_trans ih.early (by decide))
      refine ⟨ih.early, ih.verts, fun x => ?_⟩
      show x ∈ s.markedQuads ++ [q] ↔ _ = s.updateFrame
      by_cases hx : x = q
      · rw [hx, markQuad_self]
        exact iff_of_true (by simp) hstamp
      · rw [markQuad_of_ne hx, ← ih.quads x]
        simp [hx]
  | @modifyVert s v f hstamp _ ih =>
      refine ⟨ih.early, fun x => ?_, ih.quads⟩
      show x ∈ s.visits ↔ _ = s.updateFrame
      by_cases hx : x = v
      · rw [hx, modifyVert_self, hstamp]
        exact ih.verts v
      · rw [modifyVert_of_ne hx]
        exact ih.verts x
  | @upload s es _ ih =>
      obtain ⟨vertexBuffer, size, indexBuffer, heq⟩ := uploadActive_eq s es
      rw [heq]
      exact ⟨ih.early, ih.verts, ih.quads⟩

/-- From frame `2 ^ 24` on the number of the frame does not fit into the 24 bits of the
stamp of a vertex, and no vertex that is marked passes the test. -/
theorem Between.exactFrame_iff (h : Between k n m) (hn : n + 1 < 2 ^ 32) (hlod : m.lod = true)
    (view : FrameView V) :
    ∃ m', Settles (fun fuel => update view fuel m) (.ok m') ∧
      (ExactFrame m m' ↔ n + 1 < 2 ^ 24) := by
  obtain ⟨m', es, hup, h', hframe, hroots, hstates, hemits⟩ := h.update_lod hn hlod view
  obtain ⟨vertexBuffer, size, indexBuffer, heq⟩ := uploadActive_eq m' es
  refine ⟨_, hup, fun hexact => ?_, fun hearly => ?_⟩
  · -- the first root vertex has been marked
    have hroot := (hexact.verts _ (hstates.upload es) .start (vertIndex 0 0 0)).mp
    rw [heq] at hroot
    have hstamp : (m'.verts (vertIndex 0 0 0)).activeFrame = m'.updateFrame := hroot (hroots 0)
    rw [← hframe, ← hstamp]
    exact h'.stamp_lt _
  · obtain ⟨h₁, hframe₁⟩ := h.nextFrame hn
    have hs₁ := h₁.early (hframe₁ ▸ hearly)
    have hs' := h'.early (hframe ▸ hearly)
    have hstart : ExactStamps (Terrain.nextFrame m) :=
      ⟨hframe₁ ▸ hearly, hs₁.visited, hs₁.marked⟩
    have hcovers := hemits.covers h'.built.toShape fun c => (hs'.visited _).mp (hroots c)
    refine ⟨fun s hs _ => (hstart.frameState hs).verts, fun s hs _ => (hstart.frameState hs).quads,
      ?_, fun hnone => ?_⟩
    · rw [heq]
      exact hs'.nodup
    · -- the corner of the terrain lies in an emitted quad
      have hcorner : ((0 : ℝ), (0 : ℝ)) ∈ Set.Icc (0 : ℝ) (2 ^ k) ×ˢ Set.Icc (0 : ℝ) (2 ^ k) := by
        simp
      have hlength := hcovers.vertices
      rw [hnone, List.length_nil] at hlength
      have hnil : (uploadActive m' es).activeQuads = [] :=
        List.length_eq_zero_iff.mp (by omega)
      rw [← hcovers.union, hnil] at hcorner
      simp at hcorner

/-- **The stamps are exact below frame `2 ^ 24` only.** -/
theorem stamps_exact_iff [Inhabited V] (closer : V → V → V → Bool) (hk : k ≤ 12)
    {vertices : List V} (hvertices : (2 ^ k + 1) * (2 ^ k + 1) ≤ vertices.length) :
    ∃ m₀, Settles (fun fuel => build closer fuel (empty {}) vertices (2 ^ k + 1) (2 ^ k + 1))
        (.ok (true, m₀)) ∧
      ∀ as m, Run Step m₀ as m → m.lod = true → frames as + 1 < 2 ^ 32 →
        ∀ view, ∃ m', Settles (fun fuel => update view fuel m) (.ok m') ∧
          (ExactFrame m m' ↔ frames as + 1 < 2 ^ 24) := by
  obtain ⟨m₀, hbuild, hfresh⟩ := build_settles closer (shipped_admits hk) hvertices
  refine ⟨m₀, hbuild, fun as m hrun hlod hlt view => ?_⟩
  exact (hfresh.between.run hrun (by omega)).exactFrame_iff hlt hlod view

/-- The second frame of a mesh of 5 by 5 vertices, which meets the stamps of the first. -/
theorem stamps_exact_second :
    ∃ m₀ m₁ m₂, Settles (fun fuel =>
        build (fun a b c => decide (a + b ≤ c)) fuel (empty {}) (List.range 25) 5 5)
        (.ok (true, m₀)) ∧
      Settles (fun fuel => update evenNear fuel (m₀.setLod true)) (.ok m₁) ∧
      Settles (fun fuel => update evenNear fuel (m₁.setLod true)) (.ok m₂) ∧
      ExactFrame (m₁.setLod true) m₂ := by
  have hvertices : (2 ^ 2 + 1) * (2 ^ 2 + 1) ≤ (List.range 25).length := by decide
  obtain ⟨m₀, hbuild, hexact⟩ := stamps_exact_iff (fun a b c => decide (a + b ≤ c))
    (by decide) hvertices
  have hrun : Run Step m₀ [.setLod true] (m₀.setLod true) := (Run.nil m₀).snoc rfl
  obtain ⟨m₁, hup₁, -⟩ := hexact _ _ hrun rfl (by decide) evenNear
  have hstep : Step (m₀.setLod true) (.update evenNear) m₁ := hup₁
  have hrun₁ : Run Step m₀ [.setLod true, .update evenNear, .setLod true] (m₁.setLod true) :=
    (hrun.snoc hstep).snoc rfl
  obtain ⟨m₂, hup₂, hiff⟩ := hexact _ _ hrun₁ rfl (by decide) evenNear
  exact ⟨m₀, m₁, m₂, hbuild, hup₁, hup₂, hiff.mpr (by decide)⟩

/-- Any number of updates can be made. -/
theorem Between.exists_run (h : Between k 0 m) (view : FrameView V) (hn : n < 2 ^ 32) :
    ∃ as m', Run Step m as m' ∧ m'.lod = true ∧ frames as = n := by
  induction n with
  | zero => exact ⟨[.setLod true], m.setLod true, (Run.nil m).snoc rfl, rfl, rfl⟩
  | succ n ih =>
      obtain ⟨as, m₁, hrun, hlod, hframes⟩ := ih (by omega)
      have h₁ := h.run hrun (by omega)
      rw [hframes] at h₁
      obtain ⟨m₂, es, hup, -⟩ := h₁.update_lod hn hlod view
      have hstep : Step m₁ (.update view) (uploadActive m₂ es) := hup
      have hlast : Step (uploadActive m₂ es) (.setLod true) ((uploadActive m₂ es).setLod true) :=
        rfl
      refine ⟨_, _, (hrun.snoc hstep).snoc hlast, rfl, ?_⟩
      rw [frames_append, frames_append, hframes]
      rfl

/-- In frame `2 ^ 24` of a mesh of one leaf the stamps are not exact. -/
theorem stamps_wrap :
    ∃ m₀ m m' as, Settles (fun fuel =>
        build (fun _ _ _ => true) fuel (empty {}) [0, 1, 2, 3] 2 2) (.ok (true, m₀)) ∧
      Run Step m₀ as m ∧ m.lod = true ∧ frames as + 1 = 2 ^ 24 ∧
      Settles (fun fuel => update ⟨fun _ => true, fun v _ => v.originalVertex⟩ fuel m) (.ok m') ∧
      ¬ ExactFrame m m' := by
  have hvertices : (2 ^ 0 + 1) * (2 ^ 0 + 1) ≤ [0, 1, 2, 3].length := by decide
  obtain ⟨m₀, hbuild, hfresh⟩ := build_settles (fun _ _ _ => true) (shipped_admits (Nat.zero_le 12))
    hvertices
  have hlast : 2 ^ 24 - 1 < 2 ^ 32 := by decide
  obtain ⟨as, m, hrun, hlod, hframes⟩ := hfresh.between.exists_run
    ⟨fun _ => true, fun v _ => v.originalVertex⟩ hlast
  have h := hfresh.between.run hrun (by rw [hframes]; decide)
  rw [hframes] at h
  obtain ⟨m', hup, hiff⟩ := h.exactFrame_iff (by decide) hlod
    ⟨fun _ => true, fun v _ => v.originalVertex⟩
  refine ⟨m₀, m, m', as, hbuild, hrun, hlod, by omega, hup, fun hexact => ?_⟩
  exact absurd (hiff.mp hexact) (by decide)

end Maple.Terrain
