import Mathlib.Data.Nat.Find
import Maple.Terrain.Updates

/-!
# Maple.Terrain.CrackFree

**The active mesh has no cracks.** Where finer quads meet an edge of an emitted quad,
the vertices of the finer quads on the edge have not been visited: a visited vertex
would have activated the quad. They are drawn with the source of an ancestor, and the
ancestors of vertices on the edge stay on the edge until they reach one of its ends.
Collapsing keeps the order of the vertices of a level, so the ends they reach switch
once along the edge (`crack_free`).
-/

namespace Maple.Terrain

open Lib QuadCollapseMesh

variable {V : Type} {k l : Nat} {m : QuadCollapseMesh V}

/-! ### Collapsing along a line -/

/-- Collapsing keeps the order. -/
theorem Collapses.mono {i j i' j' : Nat} (h : Collapses i i') (h' : Collapses j j') (hlt : i < j) :
    i' ≤ j' := by
  unfold Collapses at h h'
  omega

/-- Where the place `t` of level `d` ends when it is collapsed `d` times. -/
def collapseTo (p : Nat → Nat → Nat) : Nat → Nat → Nat
  | 0, t => t
  | d + 1, t => collapseTo p d (p d t)

section

variable {p : Nat → Nat → Nat} (hp : ∀ d t, Collapses t (p d t))
include hp

theorem collapseTo_le (d : Nat) {t : Nat} (ht : t ≤ 2 ^ d) : collapseTo p d t ≤ 1 := by
  induction d generalizing t with
  | zero => exact ht
  | succ d ih => exact ih ((hp d t).le ht)

theorem collapseTo_mono (d : Nat) {t u : Nat} (htu : t ≤ u) :
    collapseTo p d t ≤ collapseTo p d u := by
  induction d generalizing t u with
  | zero => exact htu
  | succ d ih =>
      rcases Nat.eq_or_lt_of_le htu with rfl | hlt
      · exact Nat.le_refl _
      · exact ih ((hp d t).mono (hp d u) hlt)

/-- A place and the same place of a later level end at the same place. -/
theorem collapseTo_same (d e t : Nat) : collapseTo p (d + e) (t * 2 ^ e) = collapseTo p d t := by
  induction e with
  | zero => simp
  | succ e ih =>
      have heven : t * 2 ^ (e + 1) = 2 * (t * 2 ^ e) := by ring
      show collapseTo p (d + e) (p (d + e) (t * 2 ^ (e + 1))) = _
      rw [heven, (hp (d + e) (2 * (t * 2 ^ e))).even, ih]

/-- **The ends switch once**: there is a first place that is collapsed to the second
end. -/
theorem exists_cut (D : Nat) :
    ∃ cut, 0 < cut ∧ cut ≤ 2 ^ D ∧
      ∀ t ≤ 2 ^ D, collapseTo p D t = if t < cut then 0 else 1 := by
  have hfirst : collapseTo p D 0 = 0 := by simpa [collapseTo] using collapseTo_same hp 0 D 0
  have hlast : collapseTo p D (2 ^ D) = 1 := by simpa [collapseTo] using collapseTo_same hp 0 D 1
  have hex : ∃ t, collapseTo p D t = 1 := ⟨2 ^ D, hlast⟩
  refine ⟨Nat.find hex, Nat.pos_of_ne_zero fun hzero => ?_, Nat.find_min' hex hlast,
    fun t ht => ?_⟩
  · have hspec := Nat.find_spec hex
    rw [hzero, hfirst] at hspec
    exact absurd hspec (by decide)
  · have hle := collapseTo_le hp D ht
    split
    · next hlt =>
        have hne := Nat.find_min hex hlt
        omega
    · next hge =>
        have hmono := collapseTo_mono hp D (Nat.not_lt.mp hge)
        rw [Nat.find_spec hex] at hmono
        omega

end

/-! ### The vertices on an inactive quad -/

/-- The quads of the levels after the first one, with their parents. -/
theorem Shape.exists_child (h : Shape k m) {a b : Nat} (hgrid : InQuads k (l + 1) a b) :
    ∃ x i, IsQuad k m x (l + 1) a b ∧ (m.quads x).parent = some i ∧
      IsQuad k m (.node i) l (a / 2) (b / 2) := by
  have hparent : InQuads k l (a / 2) (b / 2) := by
    have ha := hgrid.column
    have hb := hgrid.row
    rw [Nat.pow_succ] at ha hb
    exact ⟨Nat.le_of_succ_le hgrid.level, by omega, by omega⟩
  obtain ⟨i, hi, hchild⟩ := h.linked hparent hgrid.level
  obtain ⟨c, hcx, hcy⟩ := exists_corner (a % 2) (Nat.mod_lt _ (by decide)) (b % 2)
    (Nat.mod_lt _ (by decide))
  obtain ⟨x, -, hx, hxi⟩ := hchild c
  have ha : 2 * (a / 2) + dx c = a := by omega
  have hb : 2 * (b / 2) + dy c = b := by omega
  rw [ha, hb] at hx
  exact ⟨x, i, hx, hxi, hi⟩

/-- The quads above an active quad are active. -/
theorem Stamped.active_above (hs : Stamped ∅ none m) (h : Shape k m) {d : Nat} {x q : QuadPtr}
    {a b : Nat} (hx : IsQuad k m x (l + d) a b) (hactive : Active m x)
    (hq : IsQuad k m q l (a / 2 ^ d) (b / 2 ^ d)) : Active m q := by
  induction d generalizing x a b with
  | zero =>
      rw [Nat.pow_zero, Nat.div_one, Nat.div_one] at hq
      obtain rfl := h.unique hq hx
      exact hactive
  | succ d ih =>
      obtain ⟨x', i, hx', hparent, hi⟩ := h.exists_child hx.grid
      rw [h.unique hx' hx] at hparent
      have hactive' := (hs.upClosed x i hactive hparent).resolve_right (by simp)
      rw [Nat.pow_succ', ← Nat.div_div_eq_div_mul, ← Nat.div_div_eq_div_mul] at hq
      exact ih hi hactive' hq

/-- A place in or on an interval is an end of one of its parts. -/
theorem exists_part {a d x : Nat} (hx : a * 2 ^ d ≤ x ∧ x ≤ (a + 1) * 2 ^ d) :
    ∃ a', a' / 2 ^ d = a ∧ ∃ u < 2, a' + u = x := by
  have hpos := Nat.two_pow_pos d
  by_cases hlast : x < (a + 1) * 2 ^ d
  · exact ⟨x, Nat.div_eq_of_lt_le hx.1 hlast, 0, by decide, rfl⟩
  · obtain rfl : x = (a + 1) * 2 ^ d := by omega
    have hexpand : (a + 1) * 2 ^ d = a * 2 ^ d + 2 ^ d := Nat.succ_mul ..
    exact ⟨(a + 1) * 2 ^ d - 1, Nat.div_eq_of_lt_le (by omega) (by omega), 1, by decide, by omega⟩

/-- **The vertices of later levels in and on an inactive quad have not been visited.** -/
theorem Stamped.not_visited (hs : Stamped ∅ none m) (h : Shape k m) {q : QuadPtr} {a b d x y : Nat}
    (hq : IsQuad k m q l a b) (hinactive : ¬ Active m q) (hd : l + (d + 1) ≤ k)
    (hx : a * 2 ^ (d + 1) ≤ x ∧ x ≤ (a + 1) * 2 ^ (d + 1))
    (hy : b * 2 ^ (d + 1) ≤ y ∧ y ≤ (b + 1) * 2 ^ (d + 1)) :
    ¬ Visited m (vertIndex (l + (d + 1)) x y) := by
  intro hv
  obtain ⟨a', ha, u, hu, hxu⟩ := exists_part hx
  obtain ⟨b', hb, v, hv', hyv⟩ := exists_part hy
  have hgrid : InQuads k (l + d + 1) a' b' := by
    refine ⟨hd, ?_, ?_⟩
    · rw [Nat.add_assoc, Nat.pow_add, ← Nat.div_lt_iff_lt_mul (Nat.two_pow_pos _), ha]
      exact hq.grid.column
    · rw [Nat.add_assoc, Nat.pow_add, ← Nat.div_lt_iff_lt_mul (Nat.two_pow_pos _), hb]
      exact hq.grid.row
  obtain ⟨z, i, hz, hzi, hi⟩ := h.exists_child hgrid
  obtain ⟨c, rfl, rfl⟩ := exists_corner u hu v hv'
  have hadjcent : z ∈ (m.verts (vertIndex (l + (d + 1)) x y)).adjcentQuads :=
    h.adjcent.mpr ⟨_, _, _, c, hz, by rw [hxu, hyv, Nat.add_assoc]⟩
  have hactive := hs.forced _ hv (Set.notMem_empty _) z hadjcent i hzi
  refine hinactive (hs.active_above h hi hactive ?_)
  rw [Nat.div_div_eq_div_mul, Nat.div_div_eq_div_mul, ← Nat.pow_succ', ha, hb]
  exact hq

/-! ### The vertices on an edge -/

/-- The edges of a quad by their corners, each in the direction in which the columns or
the rows grow. -/
def edges : List (Fin 4 × Fin 4) := [(0, 1), (1, 2), (3, 2), (0, 3)]

/-- The place on an edge at the distance `t` from its first end, where a side is `n`
long. -/
def alongEdge (n a b : Nat) (s : Fin 4 × Fin 4) (t : Nat) : Nat × Nat :=
  ((a + dx s.1) * n + t * (dx s.2 - dx s.1), (b + dy s.1) * n + t * (dy s.2 - dy s.1))

/-- The vertices on an edge of a quad, `d` levels after the quad. -/
def edgeVert (l a b : Nat) (s : Fin 4 × Fin 4) (d t : Nat) : Nat :=
  vertIndex (l + d) (alongEdge (2 ^ d) a b s t).1 (alongEdge (2 ^ d) a b s t).2

variable {a b : Nat} {s : Fin 4 × Fin 4}

/-- An edge runs along a row or along a column. -/
theorem alongEdge_cases (hs : s ∈ edges) :
    (∃ v ≤ 1, ∀ n a b t, alongEdge n a b s t = (a * n + t, (b + v) * n)) ∨
      ∃ u ≤ 1, ∀ n a b t, alongEdge n a b s t = ((a + u) * n, b * n + t) := by
  simp only [edges, List.mem_cons, List.not_mem_nil, or_false] at hs
  rcases hs with rfl | rfl | rfl | rfl
  · exact Or.inl ⟨0, by decide, by simp [alongEdge]⟩
  · exact Or.inr ⟨1, by decide, by simp [alongEdge]⟩
  · exact Or.inl ⟨1, by decide, by simp [alongEdge]⟩
  · exact Or.inr ⟨0, by decide, by simp [alongEdge]⟩

theorem alongEdge_le (hs : s ∈ edges) {n t : Nat} (ht : t ≤ n) :
    (a * n ≤ (alongEdge n a b s t).1 ∧ (alongEdge n a b s t).1 ≤ (a + 1) * n) ∧
      (b * n ≤ (alongEdge n a b s t).2 ∧ (alongEdge n a b s t).2 ≤ (b + 1) * n) := by
  have hpart : ∀ x u, u ≤ 1 → x * n ≤ (x + u) * n ∧ (x + u) * n ≤ (x + 1) * n := fun x u hu =>
    ⟨Nat.mul_le_mul_right n (by omega), Nat.mul_le_mul_right n (by omega)⟩
  have hside : ∀ x, x * n ≤ x * n + t ∧ x * n + t ≤ (x + 1) * n := fun x => by
    rw [Nat.succ_mul]
    omega
  rcases alongEdge_cases hs with ⟨v, hv, heq⟩ | ⟨u, hu, heq⟩
  · rw [heq]
    exact ⟨hside a, hpart b v hv⟩
  · rw [heq]
    exact ⟨hpart a u hu, hside b⟩

theorem InQuads.alongEdge (hq : InQuads k l a b) (hs : s ∈ edges) {d t : Nat} (hd : l + d ≤ k)
    (ht : t ≤ 2 ^ d) :
    InGrid k (l + d) (alongEdge (2 ^ d) a b s t).1 (alongEdge (2 ^ d) a b s t).2 := by
  obtain ⟨⟨-, hx⟩, -, hy⟩ := alongEdge_le (a := a) (b := b) hs ht
  have ha := Nat.mul_le_mul_right (2 ^ d) (Nat.succ_le_of_lt hq.column)
  have hb := Nat.mul_le_mul_right (2 ^ d) (Nat.succ_le_of_lt hq.row)
  rw [← Nat.pow_add] at ha hb
  exact ⟨hd, Nat.le_trans hx ha, Nat.le_trans hy hb⟩

/-- Collapsing in one direction only. -/
theorem Collapses.shift {x t i : Nat} (h : Collapses (2 * x + t) i) :
    ∃ t', i = x + t' ∧ Collapses t t' := by
  unfold Collapses at *
  exact ⟨i - x, by omega, by omega, by omega⟩

/-- **The parent of a vertex on an edge lies on the edge.** -/
theorem Shape.edge_parent (h : Shape k m) (hq : InQuads k l a b) (hs : s ∈ edges) {d t : Nat}
    (hd : l + (d + 1) ≤ k) (ht : t ≤ 2 ^ (d + 1)) :
    ∃ t', Collapses t t' ∧
      (m.verts (edgeVert l a b s (d + 1) t)).parent = some (edgeVert l a b s d t') := by
  have hg := hq.alongEdge hs hd ht
  obtain ⟨v, hv⟩ := Option.isSome_iff_exists.mp (h.collapsed hg)
  obtain ⟨i', j', rfl, hi, hj⟩ := h.tree.parent_vert hg hv
  have hdouble : ∀ x, x * 2 ^ (d + 1) = 2 * (x * 2 ^ d) := fun x => by ring
  rcases alongEdge_cases hs with ⟨u, hu, heq⟩ | ⟨u, hu, heq⟩
  · simp only [heq, hdouble] at hi hj
    obtain ⟨t', rfl, ht'⟩ := hi.shift
    have hend : edgeVert l a b s d t' = vertIndex (l + d) (a * 2 ^ d + t') j' := by
      rw [edgeVert, heq, hj.even]
    exact ⟨t', ht', hend ▸ hv⟩
  · simp only [heq, hdouble] at hi hj
    obtain ⟨t', rfl, ht'⟩ := hj.shift
    have hend : edgeVert l a b s d t' = vertIndex (l + d) i' (b * 2 ^ d + t') := by
      rw [edgeVert, heq, hi.even]
    exact ⟨t', ht', hend ▸ hv⟩

/-- The vertices on an edge of an inactive quad have the sources of its ends, the first
ones that of the first end and the others that of the second. -/
theorem Stamped.edge_source (hst : Stamped ∅ none m) (h : Shape k m) {q : QuadPtr}
    (hq : IsQuad k m q l a b) (hinactive : ¬ Active m q) (hs : s ∈ edges) :
    ∃ cut, 0 < cut ∧ cut ≤ 2 ^ (k - l) ∧
      ∀ d t r, l + d ≤ k → t ≤ 2 ^ d →
        Source m (edgeVert l a b s 0 (if t * 2 ^ (k - l - d) < cut then 0 else 1)) r →
        Source m (edgeVert l a b s d t) r := by
  -- one step on the edge; where there is no next level, any choice will do
  have hstep : ∀ d t, ∃ t', Collapses t t' ∧ (l + (d + 1) ≤ k → t ≤ 2 ^ (d + 1) →
      (m.verts (edgeVert l a b s (d + 1) t)).parent = some (edgeVert l a b s d t')) := by
    intro d t
    by_cases hvalid : l + (d + 1) ≤ k ∧ t ≤ 2 ^ (d + 1)
    · obtain ⟨t', ht', hparent⟩ := h.edge_parent hq.grid hs hvalid.1 hvalid.2
      exact ⟨t', ht', fun _ _ => hparent⟩
    · refine ⟨t / 2, ⟨by omega, by omega⟩, fun hd ht => absurd ⟨hd, ht⟩ hvalid⟩
  choose p hp hparent using hstep
  have hsource : ∀ d t r, l + d ≤ k → t ≤ 2 ^ d →
      Source m (edgeVert l a b s 0 (collapseTo p d t)) r → Source m (edgeVert l a b s d t) r := by
    intro d
    induction d with
    | zero => exact fun t r _ _ hr => hr
    | succ d ih =>
        intro t r hd ht hr
        have hplace := alongEdge_le (a := a) (b := b) hs ht
        have hunvisited := hst.not_visited h hq hinactive hd hplace.1 hplace.2
        exact Source.of_parent hunvisited (hparent d t hd ht)
          (ih (p d t) r (by omega) ((hp d t).le ht) hr)
  obtain ⟨cut, hpos, hle, hcut⟩ := exists_cut hp (k - l)
  refine ⟨cut, hpos, hle, fun d t r hd ht hr => hsource d t r hd ht ?_⟩
  have hfull : d + (k - l - d) = k - l := by omega
  have hbound : t * 2 ^ (k - l - d) ≤ 2 ^ (k - l) := by
    have := Nat.mul_le_mul_right (2 ^ (k - l - d)) ht
    rwa [← Nat.pow_add, hfull] at this
  rw [← collapseTo_same hp d (k - l - d) t, hfull, hcut _ hbound]
  exact hr

/-! ### No cracks -/

/-- The place of a vertex, in units of the last level. -/
def point (k l i j : Nat) : Nat × Nat := (i * 2 ^ (k - l), j * 2 ^ (k - l))

/-- The active mesh has no cracks. On every edge of an emitted quad there is a place
before which the vertices of finer quads are copies of what the quad emits for the
first end, and from which on they are copies of what it emits for the second end.
Quads of the same level agree on the vertices they share. -/
structure CrackFree (k : Nat) (m : QuadCollapseMesh V) : Prop where
  finer : ∀ e ∈ m.activeQuads, ∀ l a b, IsQuad k m e.quad l a b → ∀ s ∈ edges,
    ∃ v w cut, (s.1, v) ∈ e.pushes ∧ (s.2, w) ∈ e.pushes ∧ 0 < cut ∧ cut ≤ 2 ^ (k - l) ∧
      ∀ e' ∈ m.activeQuads, ∀ l' a' b', IsQuad k m e'.quad l' a' b' → l < l' →
        ∀ push ∈ e'.pushes, ∀ t ≤ 2 ^ (k - l),
          point k l' (a' + dx push.1) (b' + dy push.1) = alongEdge (2 ^ (k - l)) a b s t →
          push.2 = if t < cut then v else w
  equal : ∀ e ∈ m.activeQuads, ∀ e' ∈ m.activeQuads, ∀ l a b a' b',
    IsQuad k m e.quad l a b → IsQuad k m e'.quad l a' b' →
    ∀ push ∈ e.pushes, ∀ push' ∈ e'.pushes,
      point k l (a + dx push.1) (b + dy push.1) = point k l (a' + dx push'.1) (b' + dy push'.1) →
      push.2 = push'.2
  copies : m.activeVertices = (m.activeQuads.flatMap Emission.pushes).map fun push =>
    (m.verts push.2).interpolatedVertex

/-- A corner that is emitted has been found by `addActiveVertNode`. -/
theorem Emitted.source {e : Emission} (h : Emitted k m e l a b) {push : Fin 4 × Nat}
    (hpush : push ∈ e.pushes) :
    Source m (vertIndex l (a + dx push.1) (b + dy push.1)) (some push.2) := by
  obtain ⟨src, hsrc, hpushes⟩ := h.pushes
  rw [hpushes, pushesOf, List.mem_filterMap] at hpush
  obtain ⟨c, -, hc⟩ := hpush
  obtain ⟨v, hv, rfl⟩ := Option.map_eq_some_iff.mp hc
  exact hv ▸ hsrc c

/-- All four corners are emitted. -/
theorem Emitted.exists_push {e : Emission} (h : Emitted k m e l a b) (hs : Shape k m)
    (hroots : ∀ c, Visited m (vertIndex 0 (dx c) (dy c))) (c : Fin 4) :
    ∃ v, (c, v) ∈ e.pushes := by
  obtain ⟨src, hsrc, hpushes⟩ := h.pushes
  obtain ⟨r, hr, hv⟩ := hs.exists_source (h.quad.grid.corner c)
  obtain ⟨v, rfl⟩ := hv hroots
  have hall : ∀ mode (c : Fin 4), c ∈ triangles mode := by
    intro mode
    cases mode with
    | nwSe => decide
    | swNe => decide
  refine ⟨v, ?_⟩
  rw [hpushes, pushesOf, List.mem_filterMap]
  exact ⟨c, hall _ c, by rw [(hsrc c).unique hr]; rfl⟩

/-- A vertex of a later level whose place is on an edge is a vertex on the edge. -/
theorem exists_edgeVert (hs : s ∈ edges) {l' X Y t : Nat} (hl : l ≤ l') (hl' : l' ≤ k)
    (ht : t ≤ 2 ^ (k - l)) (hpoint : point k l' X Y = alongEdge (2 ^ (k - l)) a b s t) :
    ∃ t' ≤ 2 ^ (l' - l), t = t' * 2 ^ (k - l') ∧
      vertIndex l' X Y = edgeVert l a b s (l' - l) t' := by
  have hpos := Nat.two_pow_pos (k - l')
  have hsplit : ∀ x, x * 2 ^ (k - l) = x * 2 ^ (l' - l) * 2 ^ (k - l') := by
    intro x
    rw [Nat.mul_assoc, ← Nat.pow_add]
    congr 2
    omega
  -- along the edge the places are multiples of the distance between vertices
  have halong : ∀ {x X}, X * 2 ^ (k - l') = x * 2 ^ (k - l) + t →
      ∃ t' ≤ 2 ^ (l' - l), t = t' * 2 ^ (k - l') ∧ X = x * 2 ^ (l' - l) + t' := by
    intro x X hX
    rw [hsplit] at hX
    have hle : x * 2 ^ (l' - l) ≤ X := Nat.le_of_mul_le_mul_right (by omega) hpos
    obtain ⟨t', rfl⟩ := Nat.exists_eq_add_of_le hle
    rw [Nat.add_mul] at hX
    have htt' : t = t' * 2 ^ (k - l') := by omega
    refine ⟨t', Nat.le_of_mul_le_mul_right ?_ hpos, htt', rfl⟩
    have hone := hsplit 1
    rw [Nat.one_mul, Nat.one_mul] at hone
    omega
  have hacross : ∀ {y Y}, Y * 2 ^ (k - l') = y * 2 ^ (k - l) → Y = y * 2 ^ (l' - l) := by
    intro y Y hY
    rw [hsplit] at hY
    exact Nat.eq_of_mul_eq_mul_right hpos hY
  have hlevel : l + (l' - l) = l' := by omega
  rcases alongEdge_cases hs with ⟨v, -, heq⟩ | ⟨u, -, heq⟩
  · rw [heq] at hpoint
    obtain ⟨hX, hY⟩ := Prod.mk.inj hpoint
    obtain ⟨t', ht', htt', rfl⟩ := halong hX
    exact ⟨t', ht', htt', by rw [edgeVert, heq, hlevel, hacross hY]⟩
  · rw [heq] at hpoint
    obtain ⟨hX, hY⟩ := Prod.mk.inj hpoint
    obtain ⟨t', ht', htt', rfl⟩ := halong hY
    exact ⟨t', ht', htt', by rw [edgeVert, heq, hlevel, hacross hX]⟩

/-- The ends of an edge are its corners. -/
theorem edgeVert_ends (hs : s ∈ edges) :
    edgeVert l a b s 0 0 = vertIndex l (a + dx s.1) (b + dy s.1) ∧
      edgeVert l a b s 0 1 = vertIndex l (a + dx s.2) (b + dy s.2) := by
  have hgrow : ∀ s ∈ edges, dx s.1 ≤ dx s.2 ∧ dy s.1 ≤ dy s.2 := by decide
  obtain ⟨hx, hy⟩ := hgrow s hs
  simp only [edgeVert, alongEdge, Nat.pow_zero, Nat.mul_one, Nat.zero_mul, Nat.add_zero,
    Nat.one_mul, true_and]
  congr 1 <;> omega

theorem Emits.crackFree {es : List Emission} (h : Emits k m 0 0 0 es) (hs : Shape k m)
    (hst : Stamped ∅ none m) (hroots : ∀ c, Visited m (vertIndex 0 (dx c) (dy c))) :
    CrackFree k (uploadActive m es) := by
  have hlinks := sameLinks_uploadActive m es
  obtain ⟨vertexBuffer, size, indexBuffer, heq⟩ := uploadActive_eq m es
  have hactive : (uploadActive m es).activeQuads = es := by rw [heq]
  have hemitted : ∀ e ∈ (uploadActive m es).activeQuads, ∀ {l a b},
      IsQuad k (uploadActive m es) e.quad l a b → Emitted k m e l a b := by
    intro e he l a b hq
    rw [hactive] at he
    obtain ⟨l', a', b', h'⟩ := h.emitted e he
    obtain ⟨rfl, rfl, rfl⟩ := h'.quad.inj (hlinks.isQuad_iff.mp hq)
    exact h'
  refine ⟨fun e he l a b hq s hedge => ?_, ?_, ?_⟩
  · have hq := hemitted e he hq
    obtain ⟨v, hv⟩ := hq.exists_push hs hroots s.1
    obtain ⟨w, hw⟩ := hq.exists_push hs hroots s.2
    obtain ⟨cut, hpos, hle, hsource⟩ := hst.edge_source hs hq.quad hq.inactive hedge
    obtain ⟨hfirst, hsecond⟩ := edgeVert_ends (l := l) (a := a) (b := b) hedge
    refine ⟨v, w, cut, hv, hw, hpos, hle, fun e' he' l' a' b' hq' hl push hpush t ht hpoint => ?_⟩
    have hq' := hemitted e' he' hq'
    obtain ⟨t', ht', rfl, hvert⟩ := exists_edgeVert hedge hl.le hq'.quad.grid.level ht hpoint
    have hpushed := hq'.source hpush
    rw [hvert] at hpushed
    have hdiff : k - l - (l' - l) = k - l' := by omega
    have hend := hsource (l' - l) t'
    rw [hdiff] at hend
    have hlevel : l + (l' - l) ≤ k := by
      have := hq'.quad.grid.level
      omega
    split
    · next hlt =>
        rw [if_pos hlt, hfirst] at hend
        have hcorner := hq.source hv
        exact Option.some.inj (hpushed.unique (hend _ hlevel ht' hcorner))
    · next hge =>
        rw [if_neg hge, hsecond] at hend
        have hcorner := hq.source hw
        exact Option.some.inj (hpushed.unique (hend _ hlevel ht' hcorner))
  · intro e he e' he' l a b a' b' hq hq' push hpush push' hpush' hpoint
    have hsource := (hemitted e he hq).source hpush
    have hsource' := (hemitted e' he' hq').source hpush'
    obtain ⟨hx, hy⟩ := Prod.mk.inj hpoint
    rw [Nat.eq_of_mul_eq_mul_right (Nat.two_pow_pos _) hx,
      Nat.eq_of_mul_eq_mul_right (Nat.two_pow_pos _) hy] at hsource
    exact Option.some.inj (hsource.unique hsource')
  · rw [heq]

/-- **The active mesh has no cracks.** After any run this holds of every update with
levels of detail whose number is below `2 ^ 24`. -/
theorem crack_free [Inhabited V] (closer : V → V → V → Bool) (hk : k ≤ 12)
    {vertices : List V} (hvertices : (2 ^ k + 1) * (2 ^ k + 1) ≤ vertices.length) :
    ∃ m₀, Settles (fun fuel => build closer fuel (empty {}) vertices (2 ^ k + 1) (2 ^ k + 1))
        (.ok (true, m₀)) ∧
      ∀ as m, Run Step m₀ as m → m.lod = true → frames as + 1 < 2 ^ 24 →
        ∀ view, ∃ m', Settles (fun fuel => update view fuel m) (.ok m') ∧ CrackFree k m' := by
  obtain ⟨m₀, hbuild, hruns⟩ := update_settles_of_run closer hk hvertices
  refine ⟨m₀, hbuild, fun as m hrun hlod hlt view => ?_⟩
  obtain ⟨m', es, hup, hshape, hstamped, hroots, hemits⟩ := hruns as m hrun hlod hlt view
  exact ⟨_, hup, hemits.crackFree hshape hstamped hroots⟩

/-- The first frame of a mesh with two levels. -/
theorem crack_free_nine :
    ∃ m₀ m', Settles (fun fuel => build (fun _ _ _ => true) fuel (empty {}) (List.range 9) 3 3)
        (.ok (true, m₀)) ∧
      Settles (fun fuel => update ⟨fun v => v = 0, fun v _ => v.originalVertex⟩ fuel
        (m₀.setLod true)) (.ok m') ∧ CrackFree 1 m' := by
  have hvertices : (2 ^ 1 + 1) * (2 ^ 1 + 1) ≤ (List.range 9).length := by decide
  obtain ⟨m₀, hbuild, hfree⟩ := crack_free (fun _ _ _ => true) (by decide) hvertices
  have hrun : Run Step m₀ [.setLod true] (m₀.setLod true) := (Run.nil m₀).snoc rfl
  obtain ⟨m', hup, hm'⟩ := hfree _ _ hrun rfl (by decide)
    ⟨fun v => v = 0, fun v _ => v.originalVertex⟩
  exact ⟨m₀, m', hbuild, hup, hm'⟩

end Maple.Terrain
