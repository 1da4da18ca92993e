import Maple.Engine.TextureAtlasSound

/-!
# Maple.Engine.AtlasBounds

**Where the packer puts a sprite.** `TextureAtlas::update` narrows the requested
size to `int16_t` before it looks at it, and a sprite that does not fit into the
rest of the current row is put at the start of a new one without comparing its
width with the texture again. `Admits` names the calls that neither of the two
touches. In a run of admitted calls each rectangle handed to the texture has the
requested size and is inside the texture.
-/

namespace Maple.TextureAtlas

open Lib

/-- The call can be answered without the narrowing and the unchecked new row: the
name is known, or a side is zero, or both sides are in the range of `int16_t`
and the sprite is no wider than the texture, unless a new row has no room for
its height anyway. -/
def Admits (a : TextureAtlas) (c : SpriteCall) : Prop :=
  (a.offsets c.uniqueName).isSome ∨ c.w = 0 ∨ c.h = 0 ∨
    (c.w ≤ 32767 ∧ c.h ≤ 32767 ∧
      (c.w ≤ a.width ∨ a.height < a.border.2 + a.yRange.2 + c.h))

/-- A call of `addSprite` ends with this answer. -/
def Answers (a : TextureAtlas) (c : SpriteCall) (r : Option Quad2D) (a' : TextureAtlas) : Prop :=
  Settles (fun fuel => a.addSprite fuel c.uniqueName c.buffer c.w c.h) (some (r, a'))

/-- An admitted call, as a step. -/
def Admitted (a : TextureAtlas) (c : SpriteCall) (a' : TextureAtlas) : Prop :=
  a.Admits c ∧ ∃ r, a.Answers c r a'

/-- The rectangle is free: inside the texture, and clear of the placed sprites. -/
def Free (a : TextureAtlas) (x y : Int) (w h : Nat) : Prop :=
  rect x (x + w) y (y + h) ⊆ a.cells ∧
    ∀ name q, a.offsets name = some q → Disjoint q.cells (rect x (x + w) y (y + h))

/-- The quad has the size of the call and lies inside a texture of size `W × H`. -/
def Within (W H : Nat) (c : SpriteCall) (q : Quad2D) : Prop :=
  (q.w = c.w ∧ q.h = c.h) ∧ q.x + c.w ≤ W ∧ q.y + c.h ≤ H

/-- A right answer. A repeated name gets the quad stored for it; otherwise a
returned quad is the one rectangle handed to the texture, of the requested size
and inside the texture, and a request that cannot be placed gets `nullptr`. -/
structure RightAnswer (a : TextureAtlas) (c : SpriteCall) (r : Option Quad2D)
    (a' : TextureAtlas) : Prop where
  repeated : ∀ q, a.offsets c.uniqueName = some q → r = some q ∧ a' = a
  placed : ∀ q, a.offsets c.uniqueName = none → r = some q →
    a'.uploads = a.uploads ++ [(q, c.buffer)] ∧ Within a.width a.height c q
  refused : r = none → a' = a
  unplaceable : a.offsets c.uniqueName = none →
    (c.w = 0 ∨ c.h = 0 ∨ ∀ x y, ¬ a.Free x y c.w c.h) → r = none

/-! ### One call -/

/-- A sprite wider than the texture is refused when no new row can take its height:
no leftover is wide enough, and the row it would open is too low. -/
theorem update_too_wide {a : TextureAtlas} (ha : a.Settled) (name : String)
    (buffer : List UInt8) {w h : Nat} (hw : a.width < w) (hwM : w ≤ 32767) (hh : 0 < h)
    (hhM : h ≤ 32767) (hfull : a.height < a.border.2 + a.yRange.2 + h) :
    Settles (fun fuel => a.update fuel name buffer w h) (some (none, a)) := by
  obtain ⟨hlaid, hrow, hW, hH⟩ := ha
  obtain ⟨hx0, hxW, hy0, hyr0, hyH, -⟩ := hrow
  have hw16 : int16 w = w := int16_of_range (by omega) (by omega)
  have hh16 : int16 h = h := int16_of_range (by omega) (by omega)
  have hvalue := LeftOver.make_size hwM hhM
  obtain ⟨T, hT⟩ := hlaid.tree
  have hpos : ¬ (w ≤ 0 ∨ h ≤ 0) := by omega
  rcases update_cases hT name buffer hpos hw16 hh16 with ⟨lid, n, -, hn, hefit, -⟩ | ⟨-, hshelf⟩
  · -- a leftover lies inside the texture, so none is wide enough
    rw [hvalue] at hefit
    obtain ⟨hnw, -⟩ := fits_iff.mp hefit
    obtain ⟨hl, hnr, -, -⟩ := hlaid.edges hn
    simp only [LeftOver.width] at hnw
    omega
  · have hxw := uint32_of_range (x := a.border.1 + w) (by omega) (by omega)
    have hsecond : int16 (a.border.2 + a.yRange.2) = a.border.2 + a.yRange.2 :=
      int16_of_range (by omega) (by omega)
    have hsh := uint32_of_range (x := a.border.2 + a.yRange.2 + h) (by omega) (by omega)
    have hwrap : a.wrapRow w h = (false, a) := by
      unfold wrapRow
      simp only [hsecond]
      rw [if_pos (by omega), if_pos (by omega), add_sub_cancel_right,
        int16_of_range (by omega) (by omega)]
    rcases hshelf with ⟨b, hfull, hstep⟩ | ⟨b, hroom, -⟩
    · obtain ⟨-, rfl⟩ := Prod.mk.inj (hfull.symm.trans hwrap)
      exact hstep
    · exact absurd (hroom.symm.trans hwrap) (by simp)

/-- A placed sprite was free before the call. -/
theorem Settled.free_of_placed {a a' : TextureAtlas} (ha' : a'.Settled)
    (hdims : a'.width = a.width ∧ a'.height = a.height) {name : String} {q : Quad2D}
    (hnew : a.offsets name = none)
    (hoffsets : a'.offsets = Function.update a.offsets name (some q)) :
    a.Free q.x q.y q.w q.h ∧ q.x + q.w ≤ a.width ∧ q.y + q.h ≤ a.height := by
  have hq : a'.offsets name = some q := by rw [hoffsets, Function.update_self]
  obtain ⟨-, hx, -, hy⟩ := ha'.packed.placed_inside name q hq
  rw [hdims.1] at hx
  rw [hdims.2] at hy
  refine ⟨⟨fun c hc => ?_, fun other q' hq' => ?_⟩, hx, hy⟩
  · simp only [cells, mem_rect] at hc ⊢
    omega
  · have hne : other ≠ name := by
      rintro rfl
      exact absurd hq' (by simp [hnew])
    refine ha'.packed.placed_disjoint other name q' q hne ?_ hq
    rw [hoffsets, Function.update_of_ne hne, hq']

/-- **An admitted call** ends, is answered right and leaves the cells in order. -/
theorem admits_answered {a : TextureAtlas} (ha : a.Settled) {c : SpriteCall}
    (hc : a.Admits c) :
    ∃ r a', a.Answers c r a' ∧ (a'.width = a.width ∧ a'.height = a.height) ∧ a'.Settled ∧
      RightAnswer a c r a' := by
  unfold Answers addSprite
  cases hold : a.offsets c.uniqueName with
  | some quad =>
      refine ⟨some quad, a, Settles.of_forall fun _ => rfl, ⟨rfl, rfl⟩, ha, ?_⟩
      exact ⟨fun q hq => ⟨(hold.symm.trans hq), rfl⟩, fun q hq => absurd (hold.symm.trans hq) nofun,
        nofun, fun hq => absurd (hold.symm.trans hq) nofun⟩
  | none =>
      -- every way of being refused leaves the atlas as it is
      have hrefused : RightAnswer a c none a :=
        ⟨fun q hq => absurd (hold.symm.trans hq) nofun, nofun, fun _ => rfl, fun _ _ => rfl⟩
      by_cases hzero : c.w = 0 ∨ c.h = 0
      · refine ⟨none, a, Settles.of_forall fun fuel => ?_, ⟨rfl, rfl⟩, ha, hrefused⟩
        exact if_pos (by omega)
      obtain hknown | hw | hh | ⟨hwM, hhM, hfit⟩ := hc
      · exact absurd hknown (by simp [hold])
      · exact absurd (Or.inl hw) hzero
      · exact absurd (Or.inr hh) hzero
      by_cases hwW : c.w ≤ a.width
      · obtain ⟨r, a', hrun, hdims, ha', hout⟩ :=
          update_settles ha c.uniqueName c.buffer (by omega) hwW (by omega) hhM
        refine ⟨r, a', hrun, hdims, ha', ?_⟩
        cases hout with
        | refused _ => exact hrefused
        | @placed quad _ _ hsize hoffsets huploads =>
            obtain ⟨hfree, hx, hy⟩ := ha'.free_of_placed hdims hold hoffsets
            rw [hsize.1, hsize.2] at hfree
            rw [hsize.1] at hx
            rw [hsize.2] at hy
            refine ⟨fun q hq => absurd (hold.symm.trans hq) nofun, fun q _ hq => ?_, nofun,
              fun _ hno => ?_⟩
            · obtain rfl := Option.some.inj hq
              exact ⟨huploads, hsize, hx, hy⟩
            · obtain hw | hh | hno := hno
              · exact absurd (Or.inl hw) hzero
              · exact absurd (Or.inr hh) hzero
              · exact absurd hfree (hno _ _)
      · obtain hfit | hfull := hfit
        · exact absurd hfit hwW
        · exact ⟨none, a, update_too_wide ha c.uniqueName c.buffer (by omega) hwM (by omega) hhM
            hfull, ⟨rfl, rfl⟩, ha, hrefused⟩

/-! ### Runs -/

/-- What holds after a run of admitted calls on a texture of size `W × H`. -/
structure Bounded (W H : Nat) (calls : List SpriteCall) (a : TextureAtlas) : Prop where
  width_eq : a.width = W
  height_eq : a.height = H
  settled : a.Settled
  uploads : ∀ u ∈ a.uploads, ∃ c ∈ calls, u.2 = c.buffer ∧ Within W H c u.1

theorem Bounded.step {W H : Nat} {calls : List SpriteCall} {a a' : TextureAtlas} {c : SpriteCall}
    (hb : Bounded W H calls a) (hstep : a.Admitted c a') : Bounded W H (calls ++ [c]) a' := by
  obtain ⟨hW, hH, ha, huploads⟩ := hb
  obtain ⟨hadmits, r₀, hrun₀⟩ := hstep
  obtain ⟨r, a₁, hrun, ⟨hW₁, hH₁⟩, ha₁, hright⟩ := admits_answered ha hadmits
  obtain ⟨-, rfl⟩ := Prod.mk.inj (Option.some.inj (hrun₀.unique hrun))
  refine ⟨hW₁.trans hW, hH₁.trans hH, ha₁, ?_⟩
  -- the earlier uploads are still those of the earlier calls
  have hkeep : ∀ u ∈ a.uploads, ∃ c' ∈ calls ++ [c], u.2 = c'.buffer ∧ Within W H c' u.1 := by
    intro u hu
    obtain ⟨c', hc', hwithin⟩ := huploads u hu
    exact ⟨c', List.mem_append_left _ hc', hwithin⟩
  cases hold : a.offsets c.uniqueName with
  | some quad =>
      obtain ⟨-, rfl⟩ := hright.repeated quad hold
      exact hkeep
  | none =>
      cases r with
      | none =>
          obtain rfl := hright.refused rfl
          exact hkeep
      | some q =>
          obtain ⟨hnew, hwithin⟩ := hright.placed q hold rfl
          rw [hW, hH] at hwithin
          intro u hu
          rw [hnew] at hu
          obtain hu | hu := List.mem_append.mp hu
          · exact hkeep u hu
          · obtain rfl := List.mem_singleton.mp hu
            exact ⟨c, List.mem_append_right _ (List.mem_singleton.mpr rfl), rfl, hwithin⟩

/-- **Every sprite lies inside the texture.** In every run of admitted calls, each
rectangle handed to the texture is inside it and has the size its call asked for;
and every further admitted call ends with a right answer. -/
theorem sprites_inside {W H : Nat} (hW : W ≤ 32767) (hH : H ≤ 32767) {calls : List SpriteCall}
    {a : TextureAtlas} (hrun : Run Admitted (create W H) calls a) :
    (∀ u ∈ a.uploads, ∃ c ∈ calls, u.2 = c.buffer ∧ Within W H c u.1) ∧
      ∀ c, a.Admits c → ∃ r a', a.Answers c r a' ∧ RightAnswer a c r a' := by
  have hb : Bounded W H calls a := by
    refine hrun.invariant (I := Bounded W H) ⟨rfl, rfl, settled_create hW hH, nofun⟩ ?_
    intro calls a c a' hb hstep
    exact hb.step hstep
  refine ⟨hb.uploads, fun c hc => ?_⟩
  obtain ⟨r, a', hrun', -, -, hright⟩ := admits_answered hb.settled hc
  exact ⟨r, a', hrun', hright⟩

/-- A sprite as large as the texture, and then one that is refused. -/
theorem sprites_inside_full :
    ∃ a, Run Admitted (create 32 32) [⟨"full", [], 32, 32⟩] a ∧ a.Admits ⟨"wide", [], 40, 8⟩ ∧
      ∃ r a', a.Answers ⟨"wide", [], 40, 8⟩ r a' ∧ RightAnswer a ⟨"wide", [], 40, 8⟩ r a' := by
  have hbound : 32 ≤ 32767 := by decide
  have hfull : (create 32 32).Answers ⟨"full", [], 32, 32⟩ (some ⟨0, 0, 32, 32⟩)
      (record { create 32 32 with border := (32, 0), yRange := (32, 32) } "full" [] (0, 0)
        32 32).2 := by
    refine Settles.of_forall fun fuel => ?_
    rfl
  have hrun : Run Admitted (create 32 32) [⟨"full", [], 32, 32⟩] _ :=
    (Run.nil _).snoc ⟨.inr (.inr (.inr ⟨by decide, by decide, .inl (by decide)⟩)), _, hfull⟩
  have hadmits : Admits (record { create 32 32 with border := (32, 0), yRange := (32, 32) }
      "full" [] (0, 0) 32 32).2 ⟨"wide", [], 40, 8⟩ :=
    .inr (.inr (.inr ⟨by decide, by decide, .inr (by decide)⟩))
  exact ⟨_, hrun, hadmits, (sprites_inside hbound hbound hrun).2 _ hadmits⟩

/-- On an empty `32 × 32` texture a sprite of width 40 is placed across the right
edge, and one of width 65541 is placed as a sprite of width 5. -/
theorem sprites_outside :
    (∃ q a', (create 32 32).Answers ⟨"wide", [], 40, 8⟩ (some q) a' ∧
      q = ⟨0, 0, 40, 8⟩ ∧ ¬ Within 32 32 ⟨"wide", [], 40, 8⟩ q) ∧
    ∃ q a', (create 32 32).Answers ⟨"narrowed", [], 65541, 8⟩ (some q) a' ∧
      q = ⟨0, 0, 5, 8⟩ ∧ ¬ Within 32 32 ⟨"narrowed", [], 65541, 8⟩ q := by
  refine ⟨⟨⟨0, 0, 40, 8⟩, _, Settles.of_forall fun fuel => rfl, rfl, ?_⟩,
    ⟨0, 0, 5, 8⟩, _, Settles.of_forall fun fuel => rfl, rfl, ?_⟩
  · unfold Within
    decide
  · unfold Within
    decide

end Maple.TextureAtlas
