import Maple.Engine.QuadTreeRuns
import Maple.Engine.TextureAtlas
import Maple.Lib.Packing
import Maple.Lib.Run

/-!
# Maple.Engine.TextureAtlasSound

**The packer never hands out a cell twice.**

The cells of the texture are owned by the placed sprites, by the stored
leftovers, by the free shelf space (the rest of the current row and everything
below it), or, during a call, by *the hand*: the cells that the call has taken
and not yet given away. `Laid` says that these areas form a packing of the
texture. Every step of `update` moves cells from one owner to another, so each
has one rule below.
-/

namespace Maple

open Lib

/-! ### Machine integers in range -/

theorem int16_of_range {x : Int} (h : -32768 ≤ x) (h' : x ≤ 32767) : int16 x = x := by
  unfold int16
  rw [Int.bmod_def]
  omega

theorem uint32_of_range {x : Int} (h : 0 ≤ x) (h' : x < 2 ^ 32) : (uint32 x : Int) = x := by
  unfold uint32
  omega

/-- Inside the range of `int16_t` a leftover has the edges it was made with. -/
theorem LeftOver.make_of_range {x y w h : Int} (hx : 0 ≤ x) (hw : 0 ≤ w) (hxw : x + w ≤ 32767)
    (hy : 0 ≤ y) (hh : 0 ≤ h) (hyh : y + h ≤ 32767) :
    LeftOver.make x y w h = ⟨x, x + w, y, y + h⟩ := by
  simp only [LeftOver.make]
  rw [int16_of_range (x := x) (by omega) (by omega), int16_of_range (x := y) (by omega) (by omega),
    int16_of_range (x := w) (by omega) (by omega), int16_of_range (x := h) (by omega) (by omega),
    int16_of_range (x := x + w) (by omega) (by omega),
    int16_of_range (x := y + h) (by omega) (by omega)]

/-- The leftover that a sprite asks for. -/
theorem LeftOver.make_size {w h : Nat} (hw : w ≤ 32767) (hh : h ≤ 32767) :
    LeftOver.make 0 0 w h = ⟨0, w, 0, h⟩ := by
  rw [LeftOver.make_of_range le_rfl (by omega) (by omega) le_rfl (by omega) (by omega)]
  simp only [zero_add]

/-! ### Cells -/

/-- The cells of a leftover. -/
def LeftOver.cells (o : LeftOver) : Set (ℤ × ℤ) := rect o.l o.r o.t o.b

/-- The cells a sprite occupies. -/
def Quad2D.cells (q : Quad2D) : Set (ℤ × ℤ) := rect q.x (q.x + q.w) q.y (q.y + q.h)

namespace TextureAtlas

/-- The cells of the texture. -/
def cells (a : TextureAtlas) : Set (ℤ × ℤ) := rect 0 a.width 0 a.height

/-- The cells of the texture that the shelf may still hand out: the rest of the
current row to the right of `border.first`, and everything below
`border.second + yRange.second`. -/
def shelf (a : TextureAtlas) : Set (ℤ × ℤ) :=
  rect a.border.1 a.width a.border.2 (a.border.2 + a.yRange.2) ∪
    rect 0 a.width (a.border.2 + a.yRange.2) a.height

theorem mem_shelf {a : TextureAtlas} {c : ℤ × ℤ} :
    c ∈ a.shelf ↔
      ((a.border.1 ≤ c.1 ∧ c.1 < a.width) ∧ a.border.2 ≤ c.2 ∧
          c.2 < a.border.2 + a.yRange.2) ∨
        (0 ≤ c.1 ∧ c.1 < a.width) ∧ a.border.2 + a.yRange.2 ≤ c.2 ∧ c.2 < a.height := Iff.rfl

/-- The owners of cells. -/
inductive Owner where
  | placed (name : String)
  | leftover (key : Nat)
  | shelf
  | hand

/-- What each owner owns. -/
def area (a : TextureAtlas) (shelf hand : Set (ℤ × ℤ)) : Owner → Set (ℤ × ℤ)
  | .placed name => (a.offsets name).elim ∅ Quad2D.cells
  | .leftover key => ((a.leftovers.nodes.find key).map Node.value).elim ∅ LeftOver.cells
  | .shelf => shelf
  | .hand => hand

/-- The areas form a packing, the leftovers tree is well shaped with keys below
the counter, and no rectangle is empty. -/
structure Laid (a : TextureAtlas) (shelf hand : Set (ℤ × ℤ)) : Prop where
  packing : Packing a.cells (a.area shelf hand)
  tree : ∃ T, QuadTree.Shape a.leftovers T
  fresh : ∀ k, a.rlid ≤ k → a.leftovers.nodes.find k = none
  rlid_pos : 0 < a.rlid
  leftover_nonempty : ∀ k n, a.leftovers.nodes.find k = some n →
    n.value.l < n.value.r ∧ n.value.t < n.value.b
  placed_nonempty : ∀ name q, a.offsets name = some q → 0 < q.w ∧ 0 < q.h

/-- Owners other than the hand keep their areas when the hand drops cells. -/
theorem Laid.shrink {a : TextureAtlas} {shelf shelf' hand hand' : Set (ℤ × ℤ)}
    (h : a.Laid shelf hand) (hshelf : shelf' ⊆ shelf) (hhand : hand' ⊆ hand) :
    a.Laid shelf' hand' := by
  refine { h with packing := h.packing.shrink fun i => ?_ }
  cases i with
  | placed name => exact subset_rfl
  | leftover key => exact subset_rfl
  | shelf => exact hshelf
  | hand => exact hhand

/-- `Laid` does not depend on the cursor of the shelf or on the statistics. -/
theorem Laid.frame {a : TextureAtlas} {shelf hand : Set (ℤ × ℤ)} (h : a.Laid shelf hand)
    (border yRange : Int × Int) (wasted : Nat) :
    ({ a with border := border, yRange := yRange, wasted := wasted } : TextureAtlas).Laid
      shelf hand := by
  refine { h with packing := ?_ }
  exact h.packing.shrink fun i => by cases i <;> exact subset_rfl

/-- Cells of the shelf are taken into the empty hand. -/
theorem Laid.take {a : TextureAtlas} {shelf hand : Set (ℤ × ℤ)} (h : a.Laid shelf ∅)
    (shelf' : Set (ℤ × ℤ))
    (hshelf : shelf' ⊆ shelf) (hhand : hand ⊆ shelf) (hdisj : Disjoint hand shelf') :
    a.Laid shelf' hand := by
  refine { h with packing := h.packing.move (i := .hand) (j := .shelf) hhand hshelf hdisj ?_ }
  intro i hi hj
  cases i with
  | placed name => exact subset_rfl
  | leftover key => exact subset_rfl
  | shelf => exact absurd rfl hj
  | hand => exact absurd rfl hi

/-! ### Moving cells between owners -/

/-- One key of the leftovers has this value now, or none, and the others are as before. -/
def Changes (leftovers leftovers' : QuadTree Nat LeftOver) (key : Nat) (o : Option LeftOver) :
    Prop :=
  ∀ k, (leftovers'.nodes.find k).map Node.value =
    if k = key then o else (leftovers.nodes.find k).map Node.value

/-- The keys above the counter stay free. -/
theorem Changes.fresh {q t : QuadTree Nat LeftOver} {key : Nat} {o : Option LeftOver}
    (h : Changes q t key o) {rlid rlid' : Nat} (hfresh : ∀ k, rlid ≤ k → q.nodes.find k = none)
    (hle : rlid ≤ rlid') (hkey : rlid' ≤ key → o = none) :
    ∀ k, rlid' ≤ k → t.nodes.find k = none := by
  intro k hk
  have hvalue := h k
  rw [hfresh k (hle.trans hk)] at hvalue
  by_cases hsame : k = key
  · rw [if_pos hsame, hkey (hsame ▸ hk)] at hvalue
    exact Option.map_eq_none_iff.mp hvalue
  · rw [if_neg hsame] at hvalue
    exact Option.map_eq_none_iff.mp hvalue

/-- What holds of every leftover still does if it holds of the new one. -/
theorem Changes.forall_value {q t : QuadTree Nat LeftOver} {key : Nat} {o : Option LeftOver}
    (h : Changes q t key o) (P : LeftOver → Prop)
    (hall : ∀ k n, q.nodes.find k = some n → P n.value) (ho : ∀ o', o = some o' → P o') :
    ∀ k n, t.nodes.find k = some n → P n.value := by
  intro k n hn
  have hvalue := h k
  rw [hn, Option.map_some] at hvalue
  by_cases hsame : k = key
  · rw [if_pos hsame] at hvalue
    exact ho n.value hvalue.symm
  · rw [if_neg hsame] at hvalue
    obtain ⟨m, hm, hmn⟩ := Option.map_eq_some_iff.mp hvalue.symm
    exact hmn ▸ hall k m hm

/-- **`addLeftOver`** gives cells of the hand to a new leftover. -/
theorem Laid.addLeftOver {a : TextureAtlas} {shelf hand : Set (ℤ × ℤ)} (h : a.Laid shelf hand)
    {o : LeftOver} (hlr : o.l < o.r) (htb : o.t < o.b) (ho : o.cells ⊆ hand) :
    ∃ leftovers rlid,
      Settles (fun fuel => a.addLeftOver fuel o)
        (some { a with leftovers := leftovers, rlid := rlid }) ∧
      ({ a with leftovers := leftovers, rlid := rlid } : TextureAtlas).Laid shelf
        (hand \ o.cells) := by
  obtain ⟨T, hT⟩ := h.tree
  have hnone := h.fresh a.rlid le_rfl
  obtain ⟨t, hrun, -, hT'⟩ := QuadTree.add_settles hT h.rlid_pos.ne' hnone o
  have hchanges : Changes a.leftovers t a.rlid (some o) := hT.values_of_graft hT'
  refine ⟨t, a.rlid + 1, hrun.comp _, ?_, ⟨_, hT'⟩,
    hchanges.fresh h.fresh (Nat.le_succ _) (fun hkey => absurd hkey (Nat.not_succ_le_self _)),
    Nat.succ_pos _,
    hchanges.forall_value (fun o => o.l < o.r ∧ o.t < o.b) h.leftover_nonempty ?_,
    h.placed_nonempty⟩
  · refine h.packing.move (i := .leftover a.rlid) (j := .hand) ?_ Set.sdiff_subset ?_ ?_
    · simpa [area, hchanges a.rlid] using ho
    · simpa [area, hchanges a.rlid] using Set.disjoint_sdiff_right
    · intro i hi hj
      cases i with
      | placed name => exact subset_rfl
      | leftover key =>
          have hkey : key ≠ a.rlid := fun hkey => hi (hkey ▸ rfl)
          simp [area, hchanges key, hkey]
      | shelf => exact subset_rfl
      | hand => exact absurd rfl hj
  · intro o' ho'
    obtain rfl := Option.some.inj ho'
    exact ⟨hlr, htb⟩

/-- `addLeftOver` of a rectangle of the hand: the constructor's narrowing to
`int16_t` changes nothing, because the rectangle is inside the texture. -/
theorem Laid.addMade {a : TextureAtlas} {shelf hand : Set (ℤ × ℤ)} (hlaid : a.Laid shelf hand)
    (hW : a.width ≤ 32767) (hH : a.height ≤ 32767) {x y w h : Int} (hw : 0 < w) (hh : 0 < h)
    (ho : rect x (x + w) y (y + h) ⊆ hand) :
    ∃ leftovers rlid,
      Settles (fun fuel => a.addLeftOver fuel (.make x y w h))
        (some { a with leftovers := leftovers, rlid := rlid }) ∧
      ({ a with leftovers := leftovers, rlid := rlid } : TextureAtlas).Laid shelf
        (hand \ rect x (x + w) y (y + h)) := by
  have hinside : hand ⊆ a.cells := hlaid.packing.inside .hand
  obtain ⟨hx, hxw, hy, hyh⟩ :=
    edges_of_rect_subset (show x < x + w by omega) (show y < y + h by omega) (ho.trans hinside)
  rw [LeftOver.make_of_range hx (by omega) (by omega) hy (by omega) (by omega)]
  exact hlaid.addLeftOver (o := ⟨x, x + w, y, y + h⟩) (show x < x + w by omega)
    (show y < y + h by omega) ho

theorem Laid.addLeftOverIf {a : TextureAtlas} {shelf hand : Set (ℤ × ℤ)}
    (hlaid : a.Laid shelf hand) (hW : a.width ≤ 32767) (hH : a.height ≤ 32767) (p : Prop)
    [Decidable p] {x y w h : Int} (ho : p → 0 < w ∧ 0 < h ∧ rect x (x + w) y (y + h) ⊆ hand) :
    ∃ leftovers rlid,
      Settles (fun fuel => a.addLeftOverIf fuel p (.make x y w h))
        (some { a with leftovers := leftovers, rlid := rlid }) ∧
      ({ a with leftovers := leftovers, rlid := rlid } : TextureAtlas).Laid shelf
        (hand \ rect x (x + w) y (y + h)) := by
  by_cases hp : p
  · obtain ⟨hw, hh, ho⟩ := ho hp
    simpa only [TextureAtlas.addLeftOverIf, if_pos hp] using hlaid.addMade hW hH hw hh ho
  · refine ⟨a.leftovers, a.rlid, Settles.of_forall fun fuel => ?_,
      hlaid.shrink subset_rfl Set.sdiff_subset⟩
    simp only [TextureAtlas.addLeftOverIf, if_neg hp]

/-- Erasing a leftover takes its cells into the empty hand. -/
theorem Laid.erase {a : TextureAtlas} {shelf : Set (ℤ × ℤ)} (h : a.Laid shelf ∅) {key : Nat}
    {n : Node Nat LeftOver} (hn : a.leftovers.nodes.find key = some n) :
    ∃ leftovers,
      Settles (fun fuel => QuadTree.erase fuel a.leftovers key) (some leftovers) ∧
      ({ a with leftovers := leftovers } : TextureAtlas).Laid shelf n.value.cells := by
  obtain ⟨T, hT⟩ := h.tree
  obtain ⟨t, hrun, -, hT', hvalues⟩ := QuadTree.erase_settles hT key
  have hchanges : Changes a.leftovers t key none := hvalues
  refine ⟨t, hrun, ?_, ⟨_, hT'⟩, hchanges.fresh h.fresh (Nat.le_refl _) (fun _ => rfl), h.rlid_pos,
    hchanges.forall_value (fun o => o.l < o.r ∧ o.t < o.b) h.leftover_nonempty ?_,
    h.placed_nonempty⟩
  · refine h.packing.move (i := .hand) (j := .leftover key) ?_ ?_ ?_ ?_
    · simp [area, hn]
    · simp [area, hvalues]
    · simp [area, hvalues]
    · intro i hi hj
      cases i with
      | placed name => exact subset_rfl
      | leftover k =>
          have hk : k ≠ key := fun hk => hj (hk ▸ rfl)
          simp [area, hvalues, hk]
      | shelf => exact subset_rfl
      | hand => exact absurd rfl hi
  · intro o ho
    exact absurd ho (by simp)

/-- **`record`** gives the cells of the sprite from the hand to its name. -/
theorem Laid.record {a : TextureAtlas} {shelf hand : Set (ℤ × ℤ)} (h : a.Laid shelf hand)
    (name : String) (buffer : List UInt8) (pos : Int × Int) {w hgt : Int} (hx : 0 ≤ pos.1)
    (hy : 0 ≤ pos.2) (hw : 0 < w) (hh : 0 < hgt) (hxw : pos.1 + w < 2 ^ 32)
    (hyh : pos.2 + hgt < 2 ^ 32)
    (hsprite : rect pos.1 (pos.1 + w) pos.2 (pos.2 + hgt) ⊆ hand) :
    (a.record name buffer pos w hgt).2.Laid shelf ∅ := by
  have hw' := uint32_of_range (x := w) (by omega) (by omega)
  have hh' := uint32_of_range (x := hgt) (by omega) (by omega)
  have hcells : Quad2D.cells ⟨uint32 pos.1, uint32 pos.2, uint32 w, uint32 hgt⟩ =
      rect pos.1 (pos.1 + w) pos.2 (pos.2 + hgt) := by
    unfold Quad2D.cells
    rw [hw', hh', uint32_of_range hx (by omega), uint32_of_range hy (by omega)]
  refine ⟨?_, h.tree, h.fresh, h.rlid_pos, h.leftover_nonempty, fun other q hq => ?_⟩
  · refine h.packing.move (i := .placed name) (j := .hand) ?_ (Set.empty_subset _)
      (Set.disjoint_empty _) ?_
    · simpa [area, TextureAtlas.record, hcells] using hsprite
    · intro i hi hj
      cases i with
      | placed other =>
          have hne : other ≠ name := fun hne => hi (hne ▸ rfl)
          simp [area, TextureAtlas.record, Function.update_of_ne hne]
      | leftover key => exact subset_rfl
      | shelf => exact subset_rfl
      | hand => exact absurd rfl hj
  · by_cases hne : other = name
    · subst hne
      simp only [TextureAtlas.record, Function.update_self, Option.some.injEq] at hq
      subst hq
      show 0 < uint32 w ∧ 0 < uint32 hgt
      omega
    · simp only [TextureAtlas.record, Function.update_of_ne hne] at hq
      exact h.placed_nonempty other q hq

/-! ### Cutting a sprite from a leftover -/

/-- The bounds a call of `addSprite` has to keep. -/
structure InRange (a : TextureAtlas) (w h : Int) : Prop where
  width_le : a.width ≤ 32767
  height_le : a.height ≤ 32767
  w_pos : 0 < w
  w_le : w ≤ a.width
  h_pos : 0 < h
  h_le : h ≤ 32767

/-- The edges of a stored leftover are inside the texture. -/
theorem Laid.edges {a : TextureAtlas} {shelf hand : Set (ℤ × ℤ)} (h : a.Laid shelf hand)
    {key : Nat} {n : Node Nat LeftOver} (hn : a.leftovers.nodes.find key = some n) :
    0 ≤ n.value.l ∧ n.value.r ≤ a.width ∧ 0 ≤ n.value.t ∧ n.value.b ≤ a.height := by
  obtain ⟨hlr, htb⟩ := h.leftover_nonempty key n hn
  have hinside := h.packing.inside (.leftover key)
  rw [show a.area shelf hand (.leftover key) = n.value.cells by simp [area, hn]] at hinside
  exact edges_of_rect_subset hlr htb hinside

/-- **`putBack`**: the rests of a leftover and the sprite cut from it are
disjoint parts of the leftover. -/
theorem putBack_settles {a : TextureAtlas} {shelf : Set (ℤ × ℤ)} {w h : Int}
    (hr : a.InRange w h) {o : LeftOver} (hlaid : a.Laid shelf o.cells) (hw : w ≤ o.width)
    (hh : h ≤ o.height) :
    ∃ leftovers rlid hand,
      Settles (fun fuel => a.putBack fuel o.l o.t w h (o.width - w) (o.height - h))
        (some { a with leftovers := leftovers, rlid := rlid }) ∧
      ({ a with leftovers := leftovers, rlid := rlid } : TextureAtlas).Laid shelf hand ∧
      rect o.l (o.l + w) o.t (o.t + h) ⊆ hand := by
  obtain ⟨hW, hH, hw0, -, hh0, -⟩ := hr
  unfold LeftOver.cells at hlaid
  unfold LeftOver.width at hw ⊢
  unfold LeftOver.height at hh ⊢
  unfold putBack MINLOSIZE
  by_cases hwd : o.r - o.l - w ≥ 4
  · by_cases hhd : o.b - o.t - h ≥ 4
    · -- below right of the sprite, below it, right of it
      simp only [if_pos (And.intro hwd hhd)]
      obtain ⟨t₁, k₁, hrun₁, hlaid₁⟩ := hlaid.addMade hW hH (x := o.l + w) (y := o.t + h)
        (w := o.r - o.l - w) (h := o.b - o.t - h) (by omega) (by omega) (by
          intro c hc
          simp only [mem_rect] at hc ⊢
          omega)
      obtain ⟨t₂, k₂, hrun₂, hlaid₂⟩ := hlaid₁.addLeftOverIf hW hH (w ≥ 4) (x := o.l)
        (y := o.t + h) (w := w) (h := o.b - o.t - h) (fun _ => ⟨by omega, by omega, by
          intro c hc
          simp only [Set.mem_sdiff, mem_rect] at hc ⊢
          omega⟩)
      obtain ⟨t₃, k₃, hrun₃, hlaid₃⟩ := hlaid₂.addLeftOverIf hW hH (h ≥ 4) (x := o.l + w)
        (y := o.t) (w := o.r - o.l - w) (h := h) (fun _ => ⟨by omega, by omega, by
          intro c hc
          simp only [Set.mem_sdiff, mem_rect] at hc ⊢
          omega⟩)
      refine ⟨t₃, k₃, _, hrun₁.option_bind (hrun₂.option_bind hrun₃), hlaid₃, fun c hc => ?_⟩
      simp only [Set.mem_sdiff, mem_rect] at hc ⊢
      omega
    · -- everything right of the sprite
      simp only [if_neg (fun hboth : _ ∧ _ => hhd hboth.2), if_pos hwd]
      obtain ⟨t, k, hrun, hlaid⟩ := hlaid.addMade hW hH (x := o.l + w) (y := o.t)
        (w := o.r - o.l - w) (h := h + (o.b - o.t - h)) (by omega) (by omega) (by
          intro c hc
          simp only [mem_rect] at hc ⊢
          omega)
      refine ⟨t, k, _, hrun, hlaid, fun c hc => ?_⟩
      simp only [Set.mem_sdiff, mem_rect] at hc ⊢
      omega
  · -- everything below the sprite
    simp only [if_neg (fun hboth : _ ∧ _ => hwd hboth.1), if_neg hwd]
    obtain ⟨t, k, hrun, hlaid⟩ := hlaid.addLeftOverIf hW hH (o.b - o.t - h ≥ 4) (x := o.l)
      (y := o.t + h) (w := w + (o.r - o.l - w)) (h := o.b - o.t - h) (fun hhd =>
        ⟨by omega, by omega, by
          intro c hc
          simp only [mem_rect] at hc ⊢
          omega⟩)
    refine ⟨t, k, _, hrun, hlaid, fun c hc => ?_⟩
    simp only [Set.mem_sdiff, mem_rect] at hc ⊢
    omega

/-- **The first branch of `update`** takes the cells of the leftover, stores the
rests and keeps the cells of the sprite in the hand. -/
theorem reuse_settles {a : TextureAtlas} {shelf : Set (ℤ × ℤ)} (hlaid : a.Laid shelf ∅)
    {w h : Int} (hr : a.InRange w h) {lid : Nat} {n : Node Nat LeftOver}
    (hn : a.leftovers.nodes.find lid = some n) (hw : w ≤ n.value.width)
    (hh : h ≤ n.value.height) :
    ∃ leftovers rlid wasted hand,
      Settles (fun fuel => a.reuse fuel lid w h)
        (some ((n.value.l, n.value.t),
          { a with leftovers := leftovers, rlid := rlid, wasted := wasted })) ∧
      ({ a with leftovers := leftovers, rlid := rlid, wasted := wasted } : TextureAtlas).Laid
        shelf hand ∧
      rect n.value.l (n.value.l + w) n.value.t (n.value.t + h) ⊆ hand := by
  obtain ⟨t, herase, hlaid⟩ := hlaid.erase hn
  obtain ⟨t', rlid, hand, hput, hlaid, hsprite⟩ := putBack_settles (a := { a with
    leftovers := t, wasted := sizeT (a.wasted - w * h) }) ⟨hr.1, hr.2, hr.3, hr.4, hr.5, hr.6⟩
    (hlaid.frame _ _ _) hw hh
  refine ⟨t', rlid, _, hand, ?_, hlaid, hsprite⟩
  simp only [reuse, Nodes.subscript_of_some hn]
  exact herase.option_bind (hput.comp _)

/-! ### Placing a sprite on the shelf -/

/-- The cursor of the shelf: the current row is inside the texture, and
`yRange.first` is its lower edge unless the row is still empty. -/
structure Row (a : TextureAtlas) : Prop where
  first_nonneg : 0 ≤ a.border.1
  first_le : a.border.1 ≤ a.width
  second_nonneg : 0 ≤ a.border.2
  height_nonneg : 0 ≤ a.yRange.2
  bottom_le : a.border.2 + a.yRange.2 ≤ a.height
  bottom : (a.border.1 = 0 ∧ a.yRange.2 = 0) ∨ a.yRange.1 = a.border.2 + a.yRange.2

/-- The sprite fits into the rest of the current row, or else into a new one. -/
def ShelfRoom (a : TextureAtlas) (w h : Int) : Prop :=
  (a.border.1 + w ≤ a.width ∧ a.border.2 + h ≤ a.height) ∨
    (a.width < a.border.1 + w ∧ a.border.2 + a.yRange.2 + h ≤ a.height)

/-- **`wrapRow`** gives up, with the cursor restored, or leaves a row into which
the sprite fits; space is only taken away from the shelf. -/
theorem wrapRow_cases {a : TextureAtlas} (hrow : a.Row) {w h : Int} (hr : a.InRange w h) :
    (¬ a.ShelfRoom w h ∧ a.wrapRow w h = (false, a)) ∨
      a.ShelfRoom w h ∧ ∃ border yRange,
        a.wrapRow w h = (true, { a with border := border, yRange := yRange }) ∧
        ({ a with border := border, yRange := yRange } : TextureAtlas).Row ∧
        ({ a with border := border, yRange := yRange } : TextureAtlas).shelf ⊆ a.shelf ∧
        border.1 + w ≤ a.width ∧ border.2 + h ≤ a.height := by
  obtain ⟨hx0, hxW, hy0, hyr0, hyH, hbot⟩ := hrow
  obtain ⟨hW, hH, hw0, hwW, hh0, hh'⟩ := hr
  have hxw := uint32_of_range (x := a.border.1 + w) (by omega) (by omega)
  have hyh := uint32_of_range (x := a.border.2 + h) (by omega) (by omega)
  have hsecond : int16 (a.border.2 + a.yRange.2) = a.border.2 + a.yRange.2 :=
    int16_of_range (by omega) (by omega)
  have hsh := uint32_of_range (x := a.border.2 + a.yRange.2 + h) (by omega) (by omega)
  unfold wrapRow ShelfRoom
  simp only [hsecond]
  by_cases hwrap : uint32 (a.border.1 + w) > a.width
  · by_cases hfull : uint32 (a.border.2 + a.yRange.2 + h) > a.height
    · -- the rolled-back wrap
      refine Or.inl ⟨by omega, ?_⟩
      rw [if_pos hwrap, if_pos hfull,
        show a.border.2 + a.yRange.2 - a.yRange.2 = a.border.2 by omega,
        int16_of_range (by omega) (by omega)]
    · refine Or.inr ⟨by omega, (0, a.border.2 + a.yRange.2), (0, 0),
        by rw [if_pos hwrap, if_neg hfull], ?_, fun c hc => ?_, by simp only; omega,
        by simp only; omega⟩
      · exact ⟨le_rfl, by simp only; omega, by simp only; omega, le_rfl, by simp only; omega,
          Or.inl ⟨rfl, rfl⟩⟩
      · rw [mem_shelf] at hc ⊢
        simp only at hc
        omega
  · by_cases hfull : uint32 (a.border.2 + h) > a.height
    · exact Or.inl ⟨by omega, by rw [if_neg hwrap, if_pos hfull]⟩
    · exact Or.inr ⟨by omega, a.border, a.yRange, by rw [if_neg hwrap, if_neg hfull],
        ⟨hx0, hxW, hy0, hyr0, hyH, hbot⟩, subset_rfl, by omega, by omega⟩

/-- **The second branch of `update`**: the cells of the sprite, and those of the
leftover above or below it, come from the shelf. -/
theorem shelve_settles {a : TextureAtlas} (hlaid : a.Laid a.shelf ∅) (hrow : a.Row) {w h : Int}
    (hr : a.InRange w h) (hw : a.border.1 + w ≤ a.width) (hh : a.border.2 + h ≤ a.height) :
    ∃ a' hand,
      Settles (fun fuel => a.shelve fuel w h) (some (a.border, a')) ∧
      (a'.width = a.width ∧ a'.height = a.height) ∧
      (a'.offsets = a.offsets ∧ a'.uploads = a.uploads) ∧ a'.Row ∧ a'.Laid a'.shelf hand ∧
      rect a.border.1 (a.border.1 + w) a.border.2 (a.border.2 + h) ⊆ hand := by
  obtain ⟨hx0, hxW, hy0, hyr0, hyH, hbot⟩ := hrow
  obtain ⟨hW, hH, hw0, hwW, hh0, hh'⟩ := hr
  have hxw : int16 (a.border.1 + w) = a.border.1 + w := int16_of_range (by omega) (by omega)
  have hyh : int16 (a.border.2 + h) = a.border.2 + h := int16_of_range (by omega) (by omega)
  unfold shelve MINLOSIZE
  simp only [hxw, hyh]
  by_cases htall : h > a.yRange.2
  · -- the row grows; the leftover is below the sprites placed in it so far
    simp only [if_pos htall]
    have htake := hlaid.take (shelf { a with
        border := (a.border.1 + w, a.border.2), yRange := (a.border.2 + h, h) })
      (fun c hc => by
        rw [mem_shelf] at hc ⊢
        simp only at hc
        omega) Set.sdiff_subset Set.disjoint_sdiff_left
    obtain ⟨t, k, hrun, hlaid'⟩ := (htake.frame (a.border.1 + w, a.border.2) a.yRange
      a.wasted).addLeftOverIf hW hH (a.border.1 ≥ 4 ∧ h - a.yRange.2 ≥ 4) (x := 0)
      (y := a.yRange.1) (w := a.border.1) (h := h - a.yRange.2) (fun hp => ⟨by omega, by omega, by
        intro c hc
        simp only [Set.mem_sdiff, mem_shelf, mem_rect] at hc ⊢
        omega⟩)
    refine ⟨_, _, (hrun.comp _).comp _, ⟨rfl, rfl⟩, ⟨rfl, rfl⟩, ?_, hlaid'.frame _ _ _,
      fun c hc => ?_⟩
    · exact ⟨by simp only; omega, hw, hy0, by simp only; omega, hh, Or.inr rfl⟩
    · simp only [Set.mem_sdiff, mem_shelf, mem_rect] at hc ⊢
      omega
  · simp only [if_neg htall]
    have htake := hlaid.take (shelf { a with border := (a.border.1 + w, a.border.2) })
      (fun c hc => by
        rw [mem_shelf] at hc ⊢
        simp only at hc
        omega) Set.sdiff_subset Set.disjoint_sdiff_left
    have hrow' : ({ a with border := (a.border.1 + w, a.border.2) } : TextureAtlas).Row :=
      ⟨by simp only; omega, hw, hy0, hyr0, hyH, Or.inr (by simp only; omega)⟩
    by_cases hflat : h < a.yRange.1 - a.border.2
    · -- the leftover is below the sprite
      simp only [if_pos hflat]
      obtain ⟨t, k, hrun, hlaid'⟩ := (htake.frame (a.border.1 + w, a.border.2) a.yRange
        a.wasted).addLeftOverIf hW hH (w ≥ 4 ∧ a.yRange.1 - a.border.2 - h ≥ 4) (x := a.border.1)
        (y := a.border.2 + h) (w := w) (h := a.yRange.1 - a.border.2 - h)
        (fun hp => ⟨by omega, by omega, by
          intro c hc
          simp only [Set.mem_sdiff, mem_shelf, mem_rect] at hc ⊢
          omega⟩)
      refine ⟨_, _, (hrun.comp _).comp _, ⟨rfl, rfl⟩, ⟨rfl, rfl⟩, ?_, hlaid'.frame _ _ _,
        fun c hc => ?_⟩
      · exact ⟨hrow'.1, hrow'.2, hrow'.3, hrow'.4, hrow'.5, hrow'.6⟩
      · simp only [Set.mem_sdiff, mem_shelf, mem_rect] at hc ⊢
        omega
    · simp only [if_neg hflat]
      refine ⟨_, _, Settles.of_forall fun _ => rfl, ⟨rfl, rfl⟩, ⟨rfl, rfl⟩, hrow',
        htake.frame _ _ _, fun c hc => ?_⟩
      simp only [Set.mem_sdiff, mem_shelf, mem_rect] at hc ⊢
      omega

/-! ### Whole calls and whole runs -/

/-- The state between two calls: the hand is empty. -/
structure Settled (a : TextureAtlas) : Prop where
  laid : a.Laid a.shelf ∅
  row : a.Row
  width_le : a.width ≤ 32767
  height_le : a.height ≤ 32767

theorem settled_create {W H : Nat} (hW : W ≤ 32767) (hH : H ≤ 32767) :
    (create W H).Settled := by
  refine ⟨⟨⟨fun i => ?_, fun i j hij => ?_⟩, ⟨_, QuadTree.shape_empty _⟩, fun _ _ => rfl,
    Nat.one_pos, fun k n hn => ?_, fun name q hq => ?_⟩, ⟨le_rfl, ?_, le_rfl, le_rfl, ?_,
      Or.inl ⟨rfl, rfl⟩⟩, hW, hH⟩
  · cases i with
    | placed name => exact Set.empty_subset _
    | leftover key => exact Set.empty_subset _
    | shelf =>
        intro c hc
        have hc := mem_shelf.mp hc
        simp only [create, cells, mem_rect] at hc ⊢
        omega
    | hand => exact Set.empty_subset _
  · -- all areas but the shelf are empty
    have hempty : ∀ i, i ≠ .shelf → (create W H).area (create W H).shelf ∅ i = ∅ := by
      intro i hi
      cases i with
      | placed name => rfl
      | leftover key => rfl
      | shelf => exact absurd rfl hi
      | hand => rfl
    by_cases hi : i = .shelf
    · rw [hempty j (hi ▸ Ne.symm hij)]
      exact Set.disjoint_empty _
    · rw [hempty i hi]
      exact Set.empty_disjoint _
  · exact absurd hn (by simp [create, QuadTree.empty])
  · exact absurd hq (by simp [create])
  · exact Int.natCast_nonneg W
  · exact Int.natCast_nonneg H

/-- The atlas can place the sprite: the search of the leftovers finds one to cut
it from, or the shelf has room. -/
def HasRoom (a : TextureAtlas) (w h : Nat) : Prop :=
  (∃ lid leftovers, 0 < lid ∧
    Settles (fun fuel => QuadTree.findNode (LeftOver.make 0 0 w h) fits fuel a.leftovers)
      (some (lid, leftovers))) ∨ a.ShelfRoom w h

/-- What a call of `update` comes to: `nullptr`, with the atlas as it was, or a
quad of the requested size that has been uploaded and recorded. -/
inductive Outcome (a : TextureAtlas) (name : String) (buffer : List UInt8) (w h : Nat) :
    Option Quad2D → TextureAtlas → Prop
  | refused (hroom : ¬ a.HasRoom w h) : Outcome a name buffer w h none a
  | placed {quad : Quad2D} {a' : TextureAtlas} (hroom : a.HasRoom w h)
      (hsize : quad.w = w ∧ quad.h = h)
      (hoffsets : a'.offsets = Function.update a.offsets name (some quad))
      (huploads : a'.uploads = a.uploads ++ [(quad, buffer)]) :
      Outcome a name buffer w h (some quad) a'

/-- Once a sprite has its place in `f`, `update` uploads and records it there. -/
def Finishes (a : TextureAtlas) (name : String) (buffer : List UInt8) (width height : Nat)
    (f : Nat → Option ((Int × Int) × TextureAtlas)) : Prop :=
  ∀ pos b, Settles f (some (pos, b)) →
    Settles (fun fuel => a.update fuel name buffer width height)
      (some (some (b.record name buffer pos (int16 width) (int16 height)).1,
        (b.record name buffer pos (int16 width) (int16 height)).2))

/-- **What `update` does**: it cuts the sprite from a leftover that fits, or gives up, or
places it on the shelf. -/
theorem update_cases {a : TextureAtlas} {T : DirTree Direction Nat LeftOver}
    (hT : QuadTree.Shape a.leftovers T) (name : String) (buffer : List UInt8)
    {width height : Nat} (hpos : ¬ (width ≤ 0 ∨ height ≤ 0)) {w h : Int}
    (hw : int16 width = w) (hh : int16 height = h) :
    (∃ lid n, 0 < lid ∧ a.leftovers.nodes.find lid = some n ∧ fits (.make 0 0 w h) n.value ∧
        Settles (fun fuel => QuadTree.findNode (.make 0 0 w h) fits fuel a.leftovers)
          (some (lid, a.leftovers)) ∧
        a.Finishes name buffer width height fun fuel => a.reuse fuel lid w h) ∨
      Settles (fun fuel => QuadTree.findNode (.make 0 0 w h) fits fuel a.leftovers)
          (some (0, a.leftovers)) ∧
        ((∃ b, a.wrapRow w h = (false, b) ∧
            Settles (fun fuel => a.update fuel name buffer width height) (some (none, b))) ∨
          ∃ b, a.wrapRow w h = (true, b) ∧
            a.Finishes name buffer width height fun fuel => b.shelve fuel w h) := by
  subst hw hh
  have hfind := QuadTree.findNode_settles (LeftOver.make 0 0 (int16 width) (int16 height)) fits hT
  cases hp : (QuadTree.probe (LeftOver.make 0 0 (int16 width) (int16 height)) fits
      a.leftovers.comparator T).filter
        fun e => fits (LeftOver.make 0 0 (int16 width) (int16 height)) e.2 with
  | some e =>
      obtain ⟨he, hefit⟩ := Option.filter_eq_some_iff.mp hp
      obtain ⟨he0, n, hn, hv⟩ := hT.repr.entry (QuadTree.probe_entry he)
      have hlid : e.1 > 0 := Nat.pos_of_ne_zero he0
      rw [hp] at hfind
      refine Or.inl ⟨e.1, n, hlid, hn, hv ▸ hefit, hfind, fun pos b hrun => ?_⟩
      simp only [update, if_neg hpos]
      refine hfind.option_bind ?_
      simp only [Option.elim_some, hlid, if_true]
      exact hrun.comp _
  | none =>
      rw [hp] at hfind
      refine Or.inr ⟨hfind, ?_⟩
      cases hrow : a.wrapRow (int16 width) (int16 height) with
      | mk room b =>
          cases room with
          | false =>
              refine Or.inl ⟨b, rfl, ?_⟩
              simp only [update, if_neg hpos]
              refine hfind.option_bind (Settles.of_forall fun _ => ?_)
              simp only [Option.elim_none, gt_iff_lt, lt_irrefl, if_false, hrow]
          | true =>
              refine Or.inr ⟨b, rfl, fun pos c hrun => ?_⟩
              simp only [update, if_neg hpos]
              refine hfind.option_bind ?_
              simp only [Option.elim_none, gt_iff_lt, lt_irrefl, if_false, hrow]
              exact hrun.comp _

/-- **One call of `update`** ends and leaves the cells in order. -/
theorem update_settles {a : TextureAtlas} (ha : a.Settled) (name : String) (buffer : List UInt8)
    {w h : Nat} (hw : 0 < w) (hwW : w ≤ a.width) (hh : 0 < h) (hhM : h ≤ 32767) :
    ∃ q a', Settles (fun fuel => a.update fuel name buffer w h) (some (q, a')) ∧
      (a'.width = a.width ∧ a'.height = a.height) ∧ a'.Settled ∧
      a.Outcome name buffer w h q a' := by
  obtain ⟨hlaid, hrow, hW, hH⟩ := ha
  have hr : a.InRange w h := ⟨hW, hH, by omega, by omega, by omega, by omega⟩
  have hw16 : int16 w = w := int16_of_range (by omega) (by omega)
  have hh16 : int16 h = h := int16_of_range (by omega) (by omega)
  have hvalue := LeftOver.make_size (w := w) (h := h) (by omega) hhM
  obtain ⟨T, hT⟩ := hlaid.tree
  have hpos : ¬ (w ≤ 0 ∨ h ≤ 0) := by omega
  have hsize : uint32 w = w ∧ uint32 h = h := by
    unfold uint32
    omega
  rcases update_cases hT name buffer hpos hw16 hh16 with
    ⟨lid, n, hlid, hn, hefit, hfind, hfinish⟩ | ⟨hfind, hshelf⟩
  · -- a leftover fits
    rw [hvalue] at hefit
    obtain ⟨hnw, hnh⟩ := fits_iff.mp hefit
    have hnw : w ≤ n.value.width := by simpa [LeftOver.width] using hnw
    have hnh : h ≤ n.value.height := by simpa [LeftOver.height] using hnh
    obtain ⟨hl, hnr, ht, hnb⟩ := hlaid.edges hn
    obtain ⟨t, rlid, wasted, hand, hrun, hlaid', hsprite⟩ := reuse_settles hlaid hr hn hnw hnh
    unfold LeftOver.width at hnw
    unfold LeftOver.height at hnh
    have hlaid'' := hlaid'.record name buffer (n.value.l, n.value.t) hl ht hr.w_pos
      hr.h_pos (by simp only; omega) (by simp only; omega) hsprite
    have hstep := hfinish _ _ hrun
    rw [hw16, hh16] at hstep
    exact ⟨_, _, hstep, ⟨rfl, rfl⟩,
      ⟨hlaid'', ⟨hrow.1, hrow.2, hrow.3, hrow.4, hrow.5, hrow.6⟩, hW, hH⟩,
      .placed (.inl ⟨lid, a.leftovers, hlid, hfind⟩) hsize rfl rfl⟩
  · rcases wrapRow_cases hrow hr with
      ⟨hno, hfull⟩ | ⟨hroom, border, yRange, hwrap, hrow', hshelf', hbw, hbh⟩
    · -- no leftover fits and the texture is full
      have hroom : ¬ a.HasRoom w h := by
        rintro (⟨lid, t, hlid, hlid'⟩ | hroom)
        · obtain ⟨rfl, -⟩ := Prod.mk.inj (Option.some.inj (hlid'.unique hfind))
          exact absurd hlid (lt_irrefl 0)
        · exact hno hroom
      rcases hshelf with ⟨b, hwrap, hstep⟩ | ⟨b, hwrap, -⟩
      · obtain ⟨-, rfl⟩ := Prod.mk.inj (hwrap.symm.trans hfull)
        exact ⟨none, _, hstep, ⟨rfl, rfl⟩, ⟨hlaid, hrow, hW, hH⟩, .refused hroom⟩
      · exact absurd (hwrap.symm.trans hfull) (by simp)
    · rcases hshelf with ⟨b, hfull, -⟩ | ⟨b, hwrap', hfinish⟩
      · exact absurd (hfull.symm.trans hwrap) (by simp)
      · obtain ⟨-, rfl⟩ := Prod.mk.inj (hwrap'.symm.trans hwrap)
        have hlaid' := (hlaid.shrink hshelf' subset_rfl).frame border yRange a.wasted
        obtain ⟨a', hand, hrun, ⟨hW', hH'⟩, ⟨hoffsets, huploads⟩, hrow'', hlaid'', hsprite⟩ :=
          shelve_settles hlaid' hrow' ⟨hr.1, hr.2, hr.3, hr.4, hr.5, hr.6⟩ hbw hbh
        have hlast := hlaid''.record name buffer border hrow'.first_nonneg
          hrow'.second_nonneg hr.w_pos hr.h_pos (by omega) (by omega) hsprite
        have hstep := hfinish _ _ hrun
        rw [hw16, hh16] at hstep
        exact ⟨_, _, hstep, ⟨hW', hH'⟩,
          ⟨hlast, ⟨hrow''.1, hrow''.2, hrow''.3, hrow''.4, hrow''.5, hrow''.6⟩, hW'.trans_le hW,
            hH'.trans_le hH⟩,
          .placed (.inr hroom) hsize (by rw [← hoffsets]; rfl) (by rw [← huploads]; rfl)⟩

/-- The arguments of a call of `addSprite`. -/
structure SpriteCall where
  uniqueName : String
  buffer : List UInt8
  w : Nat
  h : Nat

/-- A call with a sprite no wider than the texture ends, returning a quad or
`nullptr`. -/
def AddSprite (a : TextureAtlas) (c : SpriteCall) (a' : TextureAtlas) : Prop :=
  (0 < c.w ∧ c.w ≤ a.width) ∧ (0 < c.h ∧ c.h ≤ 32767) ∧
    ∃ q, Settles (fun fuel => a.addSprite fuel c.uniqueName c.buffer c.w c.h) (some (q, a'))

theorem addSprite_settles {a : TextureAtlas} (ha : a.Settled) {c : SpriteCall}
    (hw : 0 < c.w ∧ c.w ≤ a.width) (hh : 0 < c.h ∧ c.h ≤ 32767) :
    ∃ q a', Settles (fun fuel => a.addSprite fuel c.uniqueName c.buffer c.w c.h) (some (q, a')) ∧
      (a'.width = a.width ∧ a'.height = a.height) ∧ a'.Settled := by
  unfold addSprite
  cases a.offsets c.uniqueName with
  | some quad => exact ⟨some quad, a, Settles.of_forall fun _ => rfl, ⟨rfl, rfl⟩, ha⟩
  | none =>
      obtain ⟨q, a', hrun, hdims, ha', -⟩ :=
        update_settles ha c.uniqueName c.buffer hw.1 hw.2 hh.1 hh.2
      exact ⟨q, a', hrun, hdims, ha'⟩

/-- What the packer guarantees about its cells between two calls. -/
structure Packed (a : TextureAtlas) : Prop where
  placed_inside : ∀ name q, a.offsets name = some q →
    0 < q.w ∧ q.x + q.w ≤ a.width ∧ 0 < q.h ∧ q.y + q.h ≤ a.height
  placed_disjoint : ∀ name name' q q', name ≠ name' → a.offsets name = some q →
    a.offsets name' = some q' → Disjoint q.cells q'.cells
  leftover_inside : ∀ k n, a.leftovers.nodes.find k = some n →
    (0 ≤ n.value.l ∧ n.value.l < n.value.r ∧ n.value.r ≤ a.width) ∧
      0 ≤ n.value.t ∧ n.value.t < n.value.b ∧ n.value.b ≤ a.height
  leftover_disjoint : ∀ k k' n n', k ≠ k' → a.leftovers.nodes.find k = some n →
    a.leftovers.nodes.find k' = some n' → Disjoint n.value.cells n'.value.cells
  leftover_placed : ∀ k n name q, a.leftovers.nodes.find k = some n →
    a.offsets name = some q → Disjoint n.value.cells q.cells
  leftover_shelf : ∀ k n, a.leftovers.nodes.find k = some n → Disjoint n.value.cells a.shelf

theorem Settled.packed {a : TextureAtlas} (ha : a.Settled) : a.Packed := by
  have hplaced : ∀ {name q}, a.offsets name = some q →
      a.area a.shelf ∅ (.placed name) = q.cells := fun hq => by simp [area, hq]
  have hleft : ∀ {k n}, a.leftovers.nodes.find k = some n →
      a.area a.shelf ∅ (.leftover k) = n.value.cells := fun hn => by simp [area, hn]
  have hdisj := ha.laid.packing.disjoint
  refine ⟨fun name q hq => ?_, fun name name' q q' hne hq hq' => ?_, fun k n hn => ?_,
    fun k k' n n' hne hn hn' => ?_, fun k n name q hn hq => ?_, fun k n hn => ?_⟩
  · obtain ⟨hqw, hqh⟩ := ha.laid.placed_nonempty name q hq
    have hinside := ha.laid.packing.inside (.placed name)
    rw [hplaced hq] at hinside
    obtain ⟨-, hx, -, hy⟩ := edges_of_rect_subset (by omega) (by omega) hinside
    omega
  · rw [← hplaced hq, ← hplaced hq']
    exact hdisj _ _ fun heq => hne (Owner.placed.inj heq)
  · obtain ⟨hlr, htb⟩ := ha.laid.leftover_nonempty k n hn
    obtain ⟨hl, hr, ht, hb⟩ := ha.laid.edges hn
    exact ⟨⟨hl, hlr, hr⟩, ht, htb, hb⟩
  · rw [← hleft hn, ← hleft hn']
    exact hdisj _ _ fun heq => hne (Owner.leftover.inj heq)
  · rw [← hleft hn, ← hplaced hq]
    exact hdisj _ _ nofun
  · rw [← hleft hn]
    exact hdisj _ .shelf nofun

/-- **Disjointness of the atlas.** After any sequence of `addSprite` calls the texture has the
size that it was created with, the placed sprites, the stored leftovers and the free shelf
space are disjoint parts of it, and every further call ends. -/
theorem atlas_disjoint {W H : Nat} (hW : 1 ≤ W ∧ W ≤ 32767) (hH : 1 ≤ H ∧ H ≤ 32767)
    {calls : List SpriteCall} {a : TextureAtlas} (hrun : Run AddSprite (create W H) calls a) :
    (a.width = W ∧ a.height = H) ∧ a.Packed ∧
      ∀ c : SpriteCall, 0 < c.w → c.w ≤ W → 0 < c.h → c.h ≤ 32767 → ∃ a', AddSprite a c a' := by
  have hinv : (a.width = W ∧ a.height = H) ∧ a.Settled := by
    refine hrun.state_invariant (I := fun a => (a.width = W ∧ a.height = H) ∧ a.Settled)
      ⟨⟨rfl, rfl⟩, settled_create hW.2 hH.2⟩ ?_
    intro a c a' ⟨⟨haW, haH⟩, ha⟩ ⟨hw, hh, q, hrun⟩
    obtain ⟨q₁, a₁, hrun₁, ⟨hW₁, hH₁⟩, ha₁⟩ := addSprite_settles ha hw hh
    obtain ⟨-, rfl⟩ := Prod.mk.inj (Option.some.inj (hrun.unique hrun₁))
    exact ⟨⟨hW₁.trans haW, hH₁.trans haH⟩, ha₁⟩
  obtain ⟨⟨haW, haH⟩, ha⟩ := hinv
  refine ⟨⟨haW, haH⟩, ha.packed, fun c hw hwW hh hhM => ?_⟩
  have hwW : c.w ≤ a.width := haW ▸ hwW
  obtain ⟨q, a', hcall, -⟩ := addSprite_settles ha ⟨hw, hwW⟩ ⟨hh, hhM⟩
  exact ⟨a', ⟨hw, hwW⟩, ⟨hh, hhM⟩, q, hcall⟩

/-- Three sprites, the last one cut from the leftover below the second one. -/
theorem atlas_disjoint_three :
    ∃ a, Run AddSprite (create 32 32)
      [⟨"tall", [], 8, 20⟩, ⟨"flat", [], 16, 6⟩, ⟨"low", [], 10, 10⟩] a ∧
      (a.width = 32 ∧ a.height = 32) ∧ a.Packed := by
  have hbound : 1 ≤ 32 ∧ 32 ≤ 32767 := by decide
  have h₀ : Run AddSprite (create 32 32) [] (create 32 32) := Run.nil _
  obtain ⟨a₁, h₁⟩ := (atlas_disjoint hbound hbound h₀).2.2 ⟨"tall", [], 8, 20⟩ (by decide)
    (by decide) (by decide) (by decide)
  obtain ⟨a₂, h₂⟩ := (atlas_disjoint hbound hbound (h₀.snoc h₁)).2.2 ⟨"flat", [], 16, 6⟩ (by decide)
    (by decide) (by decide) (by decide)
  obtain ⟨a₃, h₃⟩ := (atlas_disjoint hbound hbound ((h₀.snoc h₁).snoc h₂)).2.2 ⟨"low", [], 10, 10⟩
    (by decide) (by decide) (by decide) (by decide)
  have hrun := ((h₀.snoc h₁).snoc h₂).snoc h₃
  have hsize := atlas_disjoint hbound hbound hrun
  exact ⟨a₃, hrun, hsize.1, hsize.2.1⟩

end TextureAtlas

end Maple
