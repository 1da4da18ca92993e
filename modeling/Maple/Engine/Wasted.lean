import Mathlib.Tactic.Ring
import Maple.Engine.FailedCalls
import Maple.Lib.Tally

/-!
# Maple.Engine.Wasted

**The counter of wasted area.** `wasted` grows by the area that a row loses when it gets
higher or when a sprite is lower than the row, whether or not the rectangle is kept as a
leftover, and it shrinks by the area of a sprite that is cut from a leftover. What the cut
leaves is at most the leftover without the sprite, so the stored leftovers never hold more
than `wasted`, and the subtraction does not wrap.

Nor do the additions: what is wasted is part of the rows that are used up.
-/

namespace Maple

open Lib

/-- The number of cells of a leftover. -/
def LeftOver.area (o : LeftOver) : Int := o.width * o.height

/-- Inside the range of `int16_t` a leftover has the area it was made with. -/
theorem LeftOver.area_make {x y w h : Int} (hx : 0 ≤ x) (hw : 0 ≤ w) (hxw : x + w ≤ 32767)
    (hy : 0 ≤ y) (hh : 0 ≤ h) (hyh : y + h ≤ 32767) : (LeftOver.make x y w h).area = w * h := by
  rw [LeftOver.make_of_range hx hw hxw hy hh hyh]
  simp only [LeftOver.area, LeftOver.width, LeftOver.height, add_sub_cancel_left]

theorem sizeT_of_range {x : Int} (h : 0 ≤ x) (h' : x < 2 ^ 64) : (sizeT x : Int) = x := by
  unfold sizeT
  omega

namespace TextureAtlas

/-- The area stored at a key of the leftovers, zero where there is none. -/
def areaAt (leftovers : QuadTree Nat LeftOver) (key : Nat) : Int :=
  ((leftovers.nodes.find key).map Node.value).elim 0 LeftOver.area

/-- The area of the rows up to the cursor. -/
def consumed (a : TextureAtlas) : Int := a.width * a.border.2 + a.border.1 * a.yRange.2

/-- `wasted` covers the leftovers, and it is part of the rows. -/
structure Accounted (a : TextureAtlas) : Prop where
  stored : Tally (areaAt a.leftovers) a.wasted
  wasted_le : a.wasted ≤ a.consumed

theorem Settled.keyed {a : TextureAtlas} (ha : a.Settled) : a.Keyed := by
  have hrow := ha.row.bottom_le
  have hfirst := ha.row.height_nonneg
  have hsecond := ha.row.second_nonneg
  have hheight := ha.height_le
  exact ⟨ha.laid.tree, ha.laid.fresh, ha.laid.rlid_pos, by omega, by omega⟩

/-! ### Storing leftovers -/

theorem Changes.areaAt {q t : QuadTree Nat LeftOver} {key : Nat} {o : Option LeftOver}
    (h : Changes q t key o) : areaAt t = Function.update (areaAt q) key (o.elim 0 LeftOver.area) := by
  funext k
  rw [TextureAtlas.areaAt, h k]
  by_cases hk : k = key
  · rw [if_pos hk, hk, Function.update_self]
  · rw [if_neg hk, Function.update_of_ne hk, TextureAtlas.areaAt]

/-- A computation that ends, stores leftovers of this area at most and changes nothing
else. -/
def StoresArea (a : TextureAtlas) (area : Int) (f : Nat → Option TextureAtlas) : Prop :=
  ∃ leftovers rlid, Settles f (some { a with leftovers := leftovers, rlid := rlid }) ∧
    ({ a with leftovers := leftovers, rlid := rlid } : TextureAtlas).Keyed ∧
    ∀ B, Tally (areaAt a.leftovers) B → Tally (areaAt leftovers) (B + area)

theorem StoresArea.mono {a : TextureAtlas} {area area' : Int} {f : Nat → Option TextureAtlas}
    (h : a.StoresArea area f) (hle : area ≤ area') : a.StoresArea area' f := by
  obtain ⟨leftovers, rlid, hrun, hkeyed, htally⟩ := h
  exact ⟨leftovers, rlid, hrun, hkeyed, fun B hB => (htally B hB).mono (by omega)⟩

theorem StoresArea.bind {a : TextureAtlas} {area area' : Int} {f : Nat → Option TextureAtlas}
    {g : TextureAtlas → Nat → Option TextureAtlas} (hf : a.StoresArea area f)
    (hg : ∀ leftovers rlid, ({ a with leftovers := leftovers, rlid := rlid } :
        TextureAtlas).Keyed →
      ({ a with leftovers := leftovers, rlid := rlid } : TextureAtlas).StoresArea area'
        (g { a with leftovers := leftovers, rlid := rlid })) :
    a.StoresArea (area + area') fun fuel => (f fuel).bind fun b => g b fuel := by
  obtain ⟨leftovers, rlid, hrun, hkeyed, htally⟩ := hf
  obtain ⟨leftovers', rlid', hrun', hkeyed', htally'⟩ := hg leftovers rlid hkeyed
  refine ⟨leftovers', rlid', hrun.option_bind hrun', hkeyed', fun B hB => ?_⟩
  rw [← Int.add_assoc]
  exact htally' _ (htally B hB)

/-- **`addLeftOver`** stores a rectangle under a new key. -/
theorem Keyed.addLeftOver_area {a : TextureAtlas} (ha : a.Keyed) {o : LeftOver}
    (ho : 0 ≤ o.area) : a.StoresArea o.area fun fuel => a.addLeftOver fuel o := by
  obtain ⟨T, hT⟩ := ha.tree
  obtain ⟨t, hrun, -, hT'⟩ :=
    QuadTree.add_settles hT ha.rlid_pos.ne' (ha.fresh a.rlid (Nat.le_refl _)) o
  have hchanges : Changes a.leftovers t a.rlid (some o) := hT.values_of_graft hT'
  have hnew : areaAt a.leftovers a.rlid = 0 := by
    rw [areaAt, ha.fresh a.rlid (Nat.le_refl _)]
    rfl
  have hareas : areaAt t = Function.update (areaAt a.leftovers) a.rlid o.area := hchanges.areaAt
  refine ⟨t, a.rlid + 1, hrun.comp _, ha.change hT' hchanges (Nat.le_succ _)
    (fun hkey => absurd hkey (Nat.not_succ_le_self _)), fun B hB => ?_⟩
  have htally := hB.update a.rlid ho
  rwa [hnew, Int.sub_zero, ← hareas] at htally

/-- `addLeftOver` under a condition, for a rectangle in the range of `int16_t`. -/
theorem Keyed.addLeftOverIf_area {a : TextureAtlas} (ha : a.Keyed) (p : Prop) [Decidable p]
    {x y w h : Int} (hw : 0 ≤ w) (hh : 0 ≤ h)
    (hrange : p → 0 ≤ x ∧ x + w ≤ 32767 ∧ 0 ≤ y ∧ y + h ≤ 32767) :
    a.StoresArea (w * h) fun fuel => a.addLeftOverIf fuel p (.make x y w h) := by
  have hwh : 0 ≤ w * h := Int.mul_nonneg hw hh
  by_cases hp : p
  · obtain ⟨hx, hxw, hy, hyh⟩ := hrange hp
    have harea := LeftOver.area_make hx hw hxw hy hh hyh
    simp only [TextureAtlas.addLeftOverIf, if_pos hp]
    rw [← harea]
    exact ha.addLeftOver_area (harea ▸ hwh)
  · simp only [TextureAtlas.addLeftOverIf, if_neg hp]
    exact ⟨a.leftovers, a.rlid, Settles.of_forall fun _ => rfl, ha,
      fun B hB => hB.mono (by omega)⟩

theorem Keyed.addMade_area {a : TextureAtlas} (ha : a.Keyed) {x y w h : Int} (hw : 0 ≤ w)
    (hh : 0 ≤ h) (hx : 0 ≤ x) (hxw : x + w ≤ 32767) (hy : 0 ≤ y) (hyh : y + h ≤ 32767) :
    a.StoresArea (w * h) fun fuel => a.addLeftOver fuel (.make x y w h) := by
  simpa only [TextureAtlas.addLeftOverIf, if_true] using
    ha.addLeftOverIf_area True hw hh fun _ => ⟨hx, hxw, hy, hyh⟩

/-- **`putBack`** stores no more than the leftover without the sprite. -/
theorem Keyed.putBack_area {a : TextureAtlas} (ha : a.Keyed) {x y w h wdelta hdelta : Int}
    (hx : 0 ≤ x) (hy : 0 ≤ y) (hw : 0 ≤ w) (hh : 0 ≤ h) (hwd : 0 ≤ wdelta) (hhd : 0 ≤ hdelta)
    (hxw : x + w + wdelta ≤ 32767) (hyh : y + h + hdelta ≤ 32767) :
    a.StoresArea ((w + wdelta) * (h + hdelta) - w * h) fun fuel =>
      a.putBack fuel x y w h wdelta hdelta := by
  have hrests : (w + wdelta) * (h + hdelta) - w * h = wdelta * hdelta + (w * hdelta + wdelta * h) :=
    by ring
  have hbelow : 0 ≤ w * hdelta := Int.mul_nonneg hw hhd
  have hright : 0 ≤ wdelta * h := Int.mul_nonneg hwd hh
  unfold TextureAtlas.putBack
  by_cases hboth : wdelta ≥ MINLOSIZE ∧ hdelta ≥ MINLOSIZE
  · simp only [if_pos hboth, hrests]
    refine (ha.addMade_area hwd hhd (by omega) (by omega) (by omega) (by omega)).bind
      fun t₁ k₁ h₁ => (h₁.addLeftOverIf_area _ hw hhd fun _ => ?_).bind
        fun t₂ k₂ h₂ => h₂.addLeftOverIf_area _ hwd hh fun _ => ?_
    · exact ⟨hx, by omega, by omega, hyh⟩
    · exact ⟨by omega, hxw, hy, by omega⟩
  · simp only [if_neg hboth]
    by_cases hwide : wdelta ≥ MINLOSIZE
    · simp only [if_pos hwide]
      refine (ha.addMade_area hwd (by omega) (by omega) hxw hy (by omega)).mono ?_
      rw [hrests, Int.mul_add]
      omega
    · simp only [if_neg hwide]
      refine (ha.addLeftOverIf_area _ (by omega) hhd fun _ =>
        ⟨hx, by omega, by omega, hyh⟩).mono ?_
      rw [hrests, Int.add_mul]
      omega

/-! ### One call -/

/-- Rows inside the texture have no more cells than the texture. -/
theorem rows_le {W H x y r : Int} (hW : 0 ≤ W) (hx : x ≤ W) (hr : 0 ≤ r) (hyr : y + r ≤ H) :
    W * y + x * r ≤ W * H := by
  calc
    W * y + x * r ≤ W * y + W * r := Int.add_le_add_left (Int.mul_le_mul_of_nonneg_right hx hr) _
    _ = W * (y + r) := by ring
    _ ≤ W * H := Int.mul_le_mul_of_nonneg_left hyr hW

/-- The texture has fewer cells than a `size_t` can count. -/
theorem texture_lt {a : TextureAtlas} (hW : a.width ≤ 32767) (hH : a.height ≤ 32767) :
    (a.width : Int) * a.height < 2 ^ 64 := by
  have hle : (a.width : Int) * a.height ≤ 32767 * 32767 :=
    Int.mul_le_mul (by omega) (by omega) (by omega) (by omega)
  omega

theorem Accounted.wasted_le_texture {a : TextureAtlas} (h : a.Accounted) (hrow : a.Row) :
    (a.wasted : Int) ≤ a.width * a.height :=
  h.wasted_le.trans (rows_le (Int.natCast_nonneg _) hrow.first_le hrow.height_nonneg
    hrow.bottom_le)

/-- The sprite is part of the leftover it is cut from. -/
theorem Accounted.sprite_le {a : TextureAtlas} (hacc : a.Accounted) {w h : Int} (hw : 0 < w)
    (hh : 0 < h) {lid : Nat} {n : Node Nat LeftOver} (hn : a.leftovers.nodes.find lid = some n)
    (hnw : w ≤ n.value.width) (hnh : h ≤ n.value.height) : w * h ≤ a.wasted := by
  have harea : areaAt a.leftovers lid = n.value.area := by
    rw [areaAt, hn]
    rfl
  calc
    w * h ≤ n.value.area := Int.mul_le_mul hnw hnh (by omega) (by omega)
    _ ≤ a.wasted := harea ▸ hacc.stored.single lid

/-- **The first branch of `update`** takes the sprite from what is wasted. -/
theorem Accounted.reuse {a : TextureAtlas} (hacc : a.Accounted) (ha : a.Settled) {w h : Int}
    (hw : 0 < w) (hh : 0 < h) {lid : Nat} {n : Node Nat LeftOver}
    (hn : a.leftovers.nodes.find lid = some n) (hnw : w ≤ n.value.width)
    (hnh : h ≤ n.value.height) :
    ∃ pos b, Settles (fun fuel => a.reuse fuel lid w h) (some (pos, b)) ∧ b.Accounted := by
  obtain ⟨hl, hr, ht, hb⟩ := ha.laid.edges hn
  have hW := ha.width_le
  have hH := ha.height_le
  have hwh : 0 ≤ w * h := Int.mul_nonneg (by omega) (by omega)
  have hle := hacc.sprite_le hw hh hn hnw hnh
  have hwasted : (sizeT (a.wasted - w * h) : Int) = a.wasted - w * h := by
    have hlt := texture_lt hW hH
    have htexture := hacc.wasted_le_texture ha.row
    exact sizeT_of_range (by omega) (by omega)
  obtain ⟨T, hT⟩ := ha.laid.tree
  obtain ⟨t, herase, -, hT', hvalues⟩ := QuadTree.erase_settles hT lid
  have hchanges : Changes a.leftovers t lid none := hvalues
  have hareas : areaAt t = Function.update (areaAt a.leftovers) lid 0 := hchanges.areaAt
  have herased : ({ a with leftovers := t, wasted := sizeT (a.wasted - w * h) } :
      TextureAtlas).Keyed :=
    (ha.keyed.change hT' hchanges (Nat.le_refl _) (fun _ => rfl)).frame rfl rfl ha.keyed.border
  have hwd : 0 ≤ n.value.width - w := by omega
  have hhd : 0 ≤ n.value.height - h := by omega
  obtain ⟨t', rlid, hput, -, htally⟩ := herased.putBack_area hl ht hw.le hh.le hwd hhd
    (by unfold LeftOver.width; omega) (by unfold LeftOver.height; omega)
  refine ⟨(n.value.l, n.value.t),
    { a with leftovers := t', rlid := rlid, wasted := sizeT (a.wasted - w * h) }, ?_, ?_, ?_⟩
  · simp only [TextureAtlas.reuse, Nodes.subscript_of_some hn]
    exact herase.option_bind (hput.comp _)
  · have hstored := htally _ (hareas ▸ hacc.stored.update lid (le_refl 0))
    have harea : areaAt a.leftovers lid = n.value.width * n.value.height := by
      rw [areaAt, hn]
      rfl
    rw [harea, add_sub_cancel, add_sub_cancel] at hstored
    refine hstored.mono ?_
    simp only [hwasted]
    omega
  · simp only [hwasted]
    exact (Int.sub_le_self _ hwh).trans hacc.wasted_le

/-- A new row leaves no less behind it than the row it ends. -/
theorem Accounted.wrapRow {a b : TextureAtlas} (hacc : a.Accounted) (ha : a.Settled) {w h : Int}
    (hwrap : a.wrapRow w h = (true, b)) : b.Accounted := by
  obtain ⟨hx0, hxW, hy0, hyr0, hyH, -⟩ := ha.row
  have hH := ha.height_le
  have hsecond : int16 (a.border.2 + a.yRange.2) = a.border.2 + a.yRange.2 :=
    int16_of_range (by omega) (by omega)
  unfold TextureAtlas.wrapRow at hwrap
  simp only [hsecond] at hwrap
  split at hwrap
  · split at hwrap
    · exact absurd hwrap (by simp)
    · obtain ⟨-, rfl⟩ := Prod.mk.inj hwrap
      refine ⟨hacc.stored, hacc.wasted_le.trans ?_⟩
      have hrow : a.border.1 * a.yRange.2 ≤ a.width * a.yRange.2 :=
        Int.mul_le_mul_of_nonneg_right hxW hyr0
      unfold consumed
      simp only [Int.mul_add]
      omega
  · split at hwrap
    · exact absurd hwrap (by simp)
    · obtain ⟨-, rfl⟩ := Prod.mk.inj hwrap
      exact hacc

/-- The area of the leftover that is stored is added, and the rows are longer by it. -/
theorem accounted_of_add {b : TextureAtlas} {wasted : Nat} {area : Int}
    (hstored : Tally (areaAt b.leftovers) (wasted + area)) (harea : 0 ≤ area)
    (hsum : wasted + area ≤ b.consumed) (hlt : b.consumed < 2 ^ 64)
    (hwasted : b.wasted = sizeT (wasted + area)) : b.Accounted := by
  have hsize : (sizeT (wasted + area) : Int) = wasted + area :=
    sizeT_of_range (by omega) (by omega)
  rw [← hwasted] at hsize
  exact ⟨hsize ▸ hstored, hsize ▸ hsum⟩

/-- **The second branch of `update`** adds what the row loses to what is wasted. -/
theorem Accounted.shelve {a : TextureAtlas} (hacc : a.Accounted) (ha : a.Keyed) (hrow : a.Row)
    {w h : Int} (hr : a.InRange w h) (hw : a.border.1 + w ≤ a.width)
    (hh : a.border.2 + h ≤ a.height) :
    ∃ pos b, Settles (fun fuel => a.shelve fuel w h) (some (pos, b)) ∧ b.Accounted := by
  obtain ⟨hx0, hxW, hy0, hyr0, hyH, hbot⟩ := hrow
  obtain ⟨hW, hH, hw0, hwW, hh0, hh'⟩ := hr
  have hlt := texture_lt hW hH
  have hwasted := hacc.wasted_le
  have hxw : int16 (a.border.1 + w) = a.border.1 + w := int16_of_range (by omega) (by omega)
  have hyh : int16 (a.border.2 + h) = a.border.2 + h := int16_of_range (by omega) (by omega)
  have hmoved : ({ a with border := (a.border.1 + w, a.border.2) } : TextureAtlas).Keyed :=
    ha.frame rfl rfl ha.border
  unfold TextureAtlas.shelve
  simp only [hxw, hyh]
  by_cases htall : h > a.yRange.2
  · -- the row grows below the sprites placed in it so far
    have harea : 0 ≤ a.border.1 * (h - a.yRange.2) := Int.mul_nonneg hx0 (by omega)
    obtain ⟨t, k, hrun, -, htally⟩ := hmoved.addLeftOverIf_area
      (a.border.1 ≥ MINLOSIZE ∧ h - a.yRange.2 ≥ MINLOSIZE) (x := 0) (y := a.yRange.1) hx0
      (show 0 ≤ h - a.yRange.2 by omega) (fun hp => by
        unfold MINLOSIZE at hp
        omega)
    simp only [if_pos htall]
    refine ⟨_, _, (hrun.comp _).comp _, accounted_of_add (htally _ hacc.stored) harea ?_ ?_ rfl⟩
    · have hsprite : 0 ≤ w * h := Int.mul_nonneg (by omega) (by omega)
      unfold consumed at hwasted ⊢
      simp only [Int.mul_sub, Int.add_mul]
      omega
    · exact (rows_le (Int.natCast_nonneg _) hw (by omega) hh).trans_lt hlt
  · by_cases hflat : h < a.yRange.1 - a.border.2
    · -- the row is higher than the sprite
      have harea : 0 ≤ w * (a.yRange.1 - a.border.2 - h) := Int.mul_nonneg (by omega) (by omega)
      obtain ⟨t, k, hrun, -, htally⟩ := hmoved.addLeftOverIf_area
        (w ≥ MINLOSIZE ∧ a.yRange.1 - a.border.2 - h ≥ MINLOSIZE) (x := a.border.1)
        (y := a.border.2 + h) (show 0 ≤ w by omega)
        (show 0 ≤ a.yRange.1 - a.border.2 - h by omega) (fun _ => by omega)
      simp only [if_neg htall, if_pos hflat]
      refine ⟨_, _, (hrun.comp _).comp _, accounted_of_add (htally _ hacc.stored) harea ?_ ?_ rfl⟩
      · have hbottom : a.yRange.1 - a.border.2 - h = a.yRange.2 - h := by omega
        have hsprite : 0 ≤ w * h := Int.mul_nonneg (by omega) (by omega)
        unfold consumed at hwasted ⊢
        simp only [hbottom, Int.mul_sub, Int.add_mul]
        omega
      · exact (rows_le (Int.natCast_nonneg _) hw hyr0 hyH).trans_lt hlt
    · simp only [if_neg htall, if_neg hflat]
      refine ⟨_, _, Settles.of_forall fun _ => rfl, hacc.stored, hwasted.trans ?_⟩
      have hrow : 0 ≤ w * a.yRange.2 := Int.mul_nonneg (by omega) hyr0
      unfold consumed
      simp only [Int.add_mul]
      omega

/-- **One call of `addSprite`** keeps the account. -/
theorem Accounted.addSprite {a a' : TextureAtlas} (hacc : a.Accounted) (ha : a.Settled)
    {c : SpriteCall} (hstep : AddSprite a c a') : a'.Accounted := by
  obtain ⟨hw, hh, q, hrun⟩ := hstep
  unfold TextureAtlas.addSprite at hrun
  cases hold : a.offsets c.uniqueName with
  | some quad =>
      simp only [hold] at hrun
      obtain ⟨-, rfl⟩ := Prod.mk.inj (Option.some.inj (hrun.unique (.of_forall fun _ => rfl)))
      exact hacc
  | none =>
      simp only [hold] at hrun
      have hW := ha.width_le
      have hw16 : int16 c.w = c.w := int16_of_range (by omega) (by omega)
      have hh16 : int16 c.h = c.h := int16_of_range (by omega) (by omega)
      have hr : a.InRange c.w c.h :=
        ⟨hW, ha.height_le, by omega, by omega, by omega, by omega⟩
      obtain ⟨T, hT⟩ := ha.laid.tree
      rcases update_cases hT c.uniqueName c.buffer (by omega) hw16 hh16 with
        ⟨lid, n, -, hn, hefit, -, hfinish⟩ | ⟨-, ⟨b, hwrap, hstep⟩ | ⟨b, hwrap, hfinish⟩⟩
      · rw [LeftOver.make_size (by omega) hh.2] at hefit
        obtain ⟨hnw, hnh⟩ := fits_iff.mp hefit
        obtain ⟨pos, b, hreuse, hb⟩ := hacc.reuse ha hr.w_pos hr.h_pos hn
          (by simpa [LeftOver.width] using hnw) (by simpa [LeftOver.height] using hnh)
        obtain ⟨-, rfl⟩ := Prod.mk.inj (Option.some.inj (hrun.unique (hfinish pos b hreuse)))
        exact ⟨hb.stored, hb.wasted_le⟩
      · obtain ⟨-, rfl⟩ := Prod.mk.inj (Option.some.inj (hrun.unique hstep))
        rcases wrapRow_cases ha.row hr with ⟨-, hfull⟩ | ⟨-, _, _, hroom, -⟩
        · obtain ⟨-, rfl⟩ := Prod.mk.inj (hwrap.symm.trans hfull)
          exact hacc
        · exact absurd (hwrap.symm.trans hroom) (by simp)
      · rcases wrapRow_cases ha.row hr with
          ⟨-, hfull⟩ | ⟨-, border, yRange, hroom, hrow, -, hbw, hbh⟩
        · exact absurd (hwrap.symm.trans hfull) (by simp)
        · have haccb := hacc.wrapRow ha hwrap
          obtain ⟨-, rfl⟩ := Prod.mk.inj (hwrap.symm.trans hroom)
          have hsecond : 0 ≤ border.2 := hrow.second_nonneg
          have hH := ha.height_le
          have hkeyed : ({ a with border := border, yRange := yRange } : TextureAtlas).Keyed :=
            ha.keyed.frame rfl rfl (show -32768 ≤ border.2 ∧ border.2 ≤ 32767 by omega)
          obtain ⟨pos, b, hshelve, hb⟩ := haccb.shelve hkeyed hrow
            ⟨hr.1, hr.2, hr.3, hr.4, hr.5, hr.6⟩ hbw hbh
          obtain ⟨-, rfl⟩ := Prod.mk.inj (Option.some.inj (hrun.unique (hfinish pos b hshelve)))
          exact ⟨hb.stored, hb.wasted_le⟩

/-- What the search finds covers the sprite. -/
theorem Settled.sprite_le_of_find {a : TextureAtlas} (ha : a.Settled) (hacc : a.Accounted)
    {w h lid : Nat} {leftovers : QuadTree Nat LeftOver} (hw : 0 < w) (hwW : w ≤ a.width)
    (hh : 0 < h) (hhM : h ≤ 32767) (hlid : 0 < lid)
    (hfind : Settles
      (fun fuel => QuadTree.findNode (LeftOver.make 0 0 w h) fits fuel a.leftovers)
      (some (lid, leftovers))) : (w : Int) * h ≤ a.wasted := by
  have hW := ha.width_le
  obtain ⟨T, hT⟩ := ha.laid.tree
  have hw16 : int16 w = w := int16_of_range (by omega) (by omega)
  have hh16 : int16 h = h := int16_of_range (by omega) (by omega)
  rcases update_cases hT "" [] (by omega) hw16 hh16 with
    ⟨found, n, -, hn, hefit, hrun, -⟩ | ⟨hrun, -⟩
  · obtain ⟨rfl, -⟩ := Prod.mk.inj (Option.some.inj (hfind.unique hrun))
    rw [LeftOver.make_size (by omega) hhM] at hefit
    obtain ⟨hnw, hnh⟩ := fits_iff.mp hefit
    exact hacc.sprite_le (by omega) (by omega) hn (by simpa [LeftOver.width] using hnw)
      (by simpa [LeftOver.height] using hnh)
  · obtain ⟨rfl, -⟩ := Prod.mk.inj (Option.some.inj (hfind.unique hrun))
    exact absurd hlid (lt_irrefl 0)

/-- **The counter.** In every state that calls of `addSprite` lead to, `wasted` covers the
leftovers, and so any sprite that can be cut from one: the subtraction of its area does not
wrap. `wasted` never exceeds the texture either. -/
theorem wasted_covers {W H : Nat} (hW : W ≤ 32767) (hH : H ≤ 32767) {calls : List SpriteCall}
    {a : TextureAtlas} (hrun : Run AddSprite (create W H) calls a) :
    (∀ keys : Finset Nat, ∑ k ∈ keys, areaAt a.leftovers k ≤ a.wasted) ∧
      (∀ {w h lid : Nat} {leftovers}, 0 < w → w ≤ W → 0 < h → h ≤ 32767 → 0 < lid →
        Settles (fun fuel => QuadTree.findNode (LeftOver.make 0 0 w h) fits fuel a.leftovers)
          (some (lid, leftovers)) →
        (sizeT (a.wasted - w * h) : Int) = a.wasted - w * h) ∧
      a.wasted ≤ W * H := by
  have hinv : (a.width = W ∧ a.height = H) ∧ a.Settled ∧ a.Accounted := by
    refine hrun.state_invariant
      (I := fun a => (a.width = W ∧ a.height = H) ∧ a.Settled ∧ a.Accounted)
      ⟨⟨rfl, rfl⟩, settled_create hW hH, .zero, by simp [create, consumed]⟩ ?_
    rintro a c a' ⟨⟨haW, haH⟩, ha, hacc⟩ hstep
    have hstep' := hstep
    obtain ⟨hw, hh, q, hrun⟩ := hstep'
    obtain ⟨q₁, a₁, hrun₁, ⟨hW₁, hH₁⟩, ha₁⟩ := addSprite_settles ha hw hh
    obtain ⟨-, rfl⟩ := Prod.mk.inj (Option.some.inj (hrun.unique hrun₁))
    exact ⟨⟨hW₁.trans haW, hH₁.trans haH⟩, ha₁, hacc.addSprite ha hstep⟩
  obtain ⟨⟨rfl, rfl⟩, ha, hacc⟩ := hinv
  have htexture := hacc.wasted_le_texture ha.row
  refine ⟨hacc.stored, fun {w h lid leftovers} hw hwW hh hhM hlid hfind => ?_, ?_⟩
  · have hlt := texture_lt hW hH
    have hle := ha.sprite_le_of_find hacc hw hwW hh hhM hlid hfind
    have hwh : (0 : Int) ≤ w * h := Int.mul_nonneg (Int.natCast_nonneg w) (Int.natCast_nonneg h)
    exact sizeT_of_range (by omega) (by omega)
  · exact_mod_cast htexture

/-- The last sprite is cut from the leftover below the second one. -/
theorem wasted_covers_reused :
    ∃ a, Run AddSprite (create 32 32)
        [⟨"tall", [], 8, 20⟩, ⟨"flat", [], 16, 6⟩, ⟨"low", [], 10, 10⟩] a ∧ a.wasted = 124 ∧
      ∀ keys : Finset Nat, ∑ k ∈ keys, areaAt a.leftovers k ≤ a.wasted := by
  have h₀ : Run AddSprite (create 32 32) [] (create 32 32) := Run.nil _
  have h₁ := h₀.snoc (a := ⟨"tall", [], 8, 20⟩)
    ⟨by decide, by decide, _, Settles.of_add 6 fun _ => rfl⟩
  have h₂ := h₁.snoc (a := ⟨"flat", [], 16, 6⟩)
    ⟨⟨by decide, show 16 ≤ 32 by decide⟩, by decide, _, Settles.of_add 6 fun _ => rfl⟩
  have h₃ := h₂.snoc (a := ⟨"low", [], 10, 10⟩)
    ⟨⟨by decide, show 10 ≤ 32 by decide⟩, by decide, _, Settles.of_add 6 fun _ => rfl⟩
  exact ⟨_, h₃, rfl, (wasted_covers (by decide) (by decide) h₃).1⟩

end TextureAtlas

end Maple
