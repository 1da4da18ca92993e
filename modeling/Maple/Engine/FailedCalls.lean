import Maple.Engine.AtlasBounds

/-!
# Maple.Engine.FailedCalls

**A sprite that finds no place leaves no trace.** Whatever its size, and however the
narrowing to `int16_t` has bent the leftovers and the cursor before, a call of
`addSprite` that returns `nullptr` has changed nothing (`failed_call_untouched`): the
search for a leftover meets only keys that are in the map, and the roll back of the
cursor undoes the addition exactly, also when it has wrapped around.
-/

namespace Maple

open Lib

/-! ### The cursor -/

theorem int16_bounds (x : Int) : -32768 ≤ int16 x ∧ int16 x ≤ 32767 := by
  unfold int16
  rw [Int.bmod_def]
  omega

/-- Subtracting what has been added gives back the value, also modulo `2 ^ 16`. -/
theorem int16_roll_back {x : Int} (y : Int) (h : -32768 ≤ x) (h' : x ≤ 32767) :
    int16 (int16 (x + y) - y) = x := by
  have hmod : int16 (int16 (x + y) - y) = int16 x := by
    unfold int16
    rw [Int.bmod_def (x + y), Int.bmod_def x, Int.bmod_def]
    omega
  rw [hmod, int16_of_range h h']

namespace TextureAtlas

/-- What holds of an atlas whatever has been asked of it: the tree of leftovers is well
shaped, its keys are below the counter, and the cursor has come from an `int16_t`. -/
structure Keyed (a : TextureAtlas) : Prop where
  tree : ∃ T, QuadTree.Shape a.leftovers T
  fresh : ∀ k, a.rlid ≤ k → a.leftovers.nodes.find k = none
  rlid_pos : 0 < a.rlid
  border : -32768 ≤ a.border.2 ∧ a.border.2 ≤ 32767

theorem keyed_create (W H : Nat) : (create W H).Keyed :=
  ⟨⟨_, QuadTree.shape_empty _⟩, fun _ _ => rfl, Nat.one_pos, by simp [create]⟩

/-- `Keyed` is about the leftovers and the cursor only. -/
theorem Keyed.frame {a b : TextureAtlas} (h : a.Keyed) (hleftovers : b.leftovers = a.leftovers)
    (hrlid : b.rlid = a.rlid) (hborder : -32768 ≤ b.border.2 ∧ b.border.2 ≤ 32767) : b.Keyed :=
  ⟨hleftovers ▸ h.tree, hrlid ▸ hleftovers ▸ h.fresh, hrlid ▸ h.rlid_pos, hborder⟩

/-- One leftover is stored below the counter, or erased. -/
theorem Keyed.change {a : TextureAtlas} (h : a.Keyed) {t : QuadTree Nat LeftOver}
    {T : DirTree Direction Nat LeftOver} (hT : QuadTree.Shape t T) {key rlid : Nat}
    {o : Option LeftOver} (hchanges : Changes a.leftovers t key o) (hle : a.rlid ≤ rlid)
    (hkey : rlid ≤ key → o = none) :
    ({ a with leftovers := t, rlid := rlid } : TextureAtlas).Keyed :=
  ⟨⟨T, hT⟩, hchanges.fresh h.fresh hle hkey, h.rlid_pos.trans_le hle, h.border⟩

/-- **The roll back** restores the cursor. -/
theorem Keyed.wrapRow {a : TextureAtlas} (h : a.Keyed) (w hgt : Int) :
    a.wrapRow w hgt = (false, a) ∨ ∃ b, a.wrapRow w hgt = (true, b) ∧ b.Keyed := by
  unfold TextureAtlas.wrapRow
  simp only
  split
  · split
    · left
      rw [int16_roll_back _ h.border.1 h.border.2]
    · exact Or.inr ⟨_, rfl, h.frame rfl rfl (int16_bounds _)⟩
  · split
    · exact Or.inl rfl
    · exact Or.inr ⟨_, rfl, h⟩

/-! ### Storing leftovers -/

/-- A computation that ends and changes the leftovers only, if anything. -/
def StoresMore (a : TextureAtlas) (f : Nat → Option TextureAtlas) : Prop :=
  ∃ b, Settles f (some b) ∧ b.Keyed ∧ b.border = a.border

/-- **`addLeftOver`** of any rectangle: the key is new. -/
theorem Keyed.addLeftOver {a : TextureAtlas} (h : a.Keyed) (o : LeftOver) :
    StoresMore a fun fuel => a.addLeftOver fuel o := by
  obtain ⟨T, hT⟩ := h.tree
  obtain ⟨t, hrun, -, hT'⟩ :=
    QuadTree.add_settles hT h.rlid_pos.ne' (h.fresh a.rlid (Nat.le_refl _)) o
  have hchanges : Changes a.leftovers t a.rlid (some o) := hT.values_of_graft hT'
  exact ⟨{ a with leftovers := t, rlid := a.rlid + 1 }, hrun.comp _, h.change hT' hchanges
    (Nat.le_succ _) (fun hkey => absurd hkey (Nat.not_succ_le_self _)), rfl⟩

theorem Keyed.addLeftOverIf {a : TextureAtlas} (h : a.Keyed) (p : Prop) [Decidable p]
    (o : LeftOver) : StoresMore a fun fuel => a.addLeftOverIf fuel p o := by
  by_cases hp : p
  · simpa only [TextureAtlas.addLeftOverIf, if_pos hp] using h.addLeftOver o
  · simp only [TextureAtlas.addLeftOverIf, if_neg hp]
    exact ⟨a, Settles.of_forall fun _ => rfl, h, rfl⟩

/-- One such computation after another. -/
theorem StoresMore.bind {a : TextureAtlas} {f : Nat → Option TextureAtlas}
    {g : TextureAtlas → Nat → Option TextureAtlas} (hf : StoresMore a f)
    (hg : ∀ b, b.Keyed → StoresMore b (g b)) :
    StoresMore a fun fuel => (f fuel).bind fun b => g b fuel := by
  obtain ⟨b, hrun, hb, hborder⟩ := hf
  obtain ⟨b', hrun', hb', hborder'⟩ := hg b hb
  exact ⟨b', hrun.option_bind hrun', hb', hborder'.trans hborder⟩

theorem Keyed.putBack {a : TextureAtlas} (h : a.Keyed) (x y w hgt wdelta hdelta : Int) :
    StoresMore a fun fuel => a.putBack fuel x y w hgt wdelta hdelta := by
  unfold TextureAtlas.putBack
  by_cases hboth : wdelta ≥ MINLOSIZE ∧ hdelta ≥ MINLOSIZE
  · simp only [if_pos hboth]
    exact (h.addLeftOver _).bind fun b hb => (hb.addLeftOverIf _ _).bind fun b hb =>
      hb.addLeftOverIf _ _
  · simp only [if_neg hboth]
    by_cases hwide : wdelta ≥ MINLOSIZE
    · simp only [if_pos hwide]
      exact h.addLeftOver _
    · simp only [if_neg hwide]
      exact h.addLeftOverIf _ _

/-- The first branch of `update`, for a key that is in the tree. -/
theorem Keyed.reuse {a : TextureAtlas} (h : a.Keyed) {lid : Nat} {n : Node Nat LeftOver}
    (hn : a.leftovers.nodes.find lid = some n) (w hgt : Int) :
    ∃ pos b, Settles (fun fuel => a.reuse fuel lid w hgt) (some (pos, b)) ∧ b.Keyed := by
  obtain ⟨T, hT⟩ := h.tree
  obtain ⟨t, hrun, -, hT', hvalues⟩ := QuadTree.erase_settles hT lid
  have hchanges : Changes a.leftovers t lid none := hvalues
  have herased : ({ a with leftovers := t } : TextureAtlas).Keyed :=
    h.change hT' hchanges (Nat.le_refl _) (fun _ => rfl)
  have hwasted : ({ a with leftovers := t, wasted := sizeT (a.wasted - w * hgt) } :
      TextureAtlas).Keyed := herased.frame rfl rfl herased.border
  obtain ⟨b, hback, hb, -⟩ := hwasted.putBack n.value.l n.value.t w hgt (n.value.width - w)
    (n.value.height - hgt)
  refine ⟨(n.value.l, n.value.t), b, ?_, hb⟩
  have hsub : a.leftovers.nodes.subscript lid = (n, a.leftovers.nodes) :=
    Nodes.subscript_of_some hn
  have hboth := hrun.option_bind (g := fun leftovers fuel =>
    ({ a with leftovers := leftovers, wasted := sizeT (a.wasted - w * hgt) } :
      TextureAtlas).putBack fuel n.value.l n.value.t w hgt (n.value.width - w)
        (n.value.height - hgt) |>.map fun a => ((n.value.l, n.value.t), a))
    (hback.comp (Option.map _))
  exact hboth.congr fun fuel => by simp only [TextureAtlas.reuse, hsub]

/-- The rest of the second branch of `update`. -/
theorem Keyed.shelve {a : TextureAtlas} (h : a.Keyed) (w hgt : Int) :
    ∃ pos b, Settles (fun fuel => a.shelve fuel w hgt) (some (pos, b)) ∧ b.Keyed := by
  have hmoved : ({ a with border := (int16 (a.border.1 + w), a.border.2) } : TextureAtlas).Keyed :=
    h.frame rfl rfl h.border
  unfold TextureAtlas.shelve
  simp only
  by_cases hhigh : hgt > a.yRange.2
  · obtain ⟨b, hrun, hb, -⟩ := hmoved.addLeftOverIf
      (a.border.1 ≥ MINLOSIZE ∧ hgt - a.yRange.2 ≥ MINLOSIZE)
      (.make 0 a.yRange.1 a.border.1 (hgt - a.yRange.2))
    simp only [if_pos hhigh]
    exact ⟨_, _, (hrun.comp (Option.map _)).comp (Option.map _), hb.frame rfl rfl hb.border⟩
  · simp only [if_neg hhigh]
    by_cases hlow : hgt < a.yRange.1 - a.border.2
    · obtain ⟨b, hrun, hb, -⟩ := hmoved.addLeftOverIf
        (w ≥ MINLOSIZE ∧ a.yRange.1 - a.border.2 - hgt ≥ MINLOSIZE)
        (.make a.border.1 (a.border.2 + hgt) w (a.yRange.1 - a.border.2 - hgt))
      simp only [if_pos hlow]
      exact ⟨_, _, (hrun.comp (Option.map _)).comp (Option.map _), hb.frame rfl rfl hb.border⟩
    · simp only [if_neg hlow]
      exact ⟨_, _, Settles.of_forall fun _ => rfl, hmoved⟩

/-! ### A call -/

/-- **`update`** of any size ends, and returns `nullptr` only if nothing has changed. -/
theorem Keyed.update {a : TextureAtlas} (h : a.Keyed) (name : String) (buffer : List UInt8)
    (width height : Nat) :
    ∃ r a', Settles (fun fuel => a.update fuel name buffer width height) (some (r, a')) ∧
      a'.Keyed ∧ (r = none → a' = a) := by
  by_cases hempty : width ≤ 0 ∨ height ≤ 0
  · exact ⟨none, a, Settles.of_forall fun _ => if_pos hempty, h, fun _ => rfl⟩
  obtain ⟨T, hT⟩ := h.tree
  rcases update_cases hT name buffer hempty rfl rfl with
    ⟨lid, n, -, hn, -, -, hfinish⟩ | ⟨-, ⟨b, hwrap, hstep⟩ | ⟨b, hwrap, hfinish⟩⟩
  · obtain ⟨pos, b, hrun, hb⟩ := h.reuse hn (int16 width) (int16 height)
    exact ⟨_, _, hfinish _ _ hrun, hb.frame rfl rfl hb.border, nofun⟩
  · obtain hfull | ⟨c, hrow, -⟩ := h.wrapRow (int16 width) (int16 height)
    · obtain ⟨-, rfl⟩ := Prod.mk.inj (hwrap.symm.trans hfull)
      exact ⟨none, _, hstep, h, fun _ => rfl⟩
    · exact absurd (hwrap.symm.trans hrow) (by simp)
  · obtain hfull | ⟨c, hrow, hc⟩ := h.wrapRow (int16 width) (int16 height)
    · exact absurd (hwrap.symm.trans hfull) (by simp)
    · obtain ⟨-, rfl⟩ := Prod.mk.inj (hwrap.symm.trans hrow)
      obtain ⟨pos, c, hrun, hc⟩ := hc.shelve (int16 width) (int16 height)
      exact ⟨_, _, hfinish _ _ hrun, hc.frame rfl rfl hc.border, nofun⟩

/-- **`addSprite`** ends in every atlas, and returns `nullptr` only if nothing has
changed. -/
theorem Keyed.addSprite {a : TextureAtlas} (h : a.Keyed) (c : SpriteCall) :
    ∃ r a', a.Answers c r a' ∧ a'.Keyed ∧ (r = none → a' = a) := by
  unfold Answers TextureAtlas.addSprite
  cases a.offsets c.uniqueName with
  | some quad => exact ⟨some quad, a, Settles.of_forall fun _ => rfl, h, fun _ => rfl⟩
  | none => exact h.update c.uniqueName c.buffer c.w c.h

theorem Answers.unique {a a₁ a₂ : TextureAtlas} {c : SpriteCall} {r₁ r₂ : Option Quad2D}
    (h₁ : a.Answers c r₁ a₁) (h₂ : a.Answers c r₂ a₂) : r₁ = r₂ ∧ a₁ = a₂ :=
  Prod.mk.inj (Option.some.inj (Settles.unique h₁ h₂))

/-! ### Runs -/

/-- A call with its answer, as a step. -/
def AnswerStep (a : TextureAtlas) (ca : SpriteCall × Option Quad2D) (a' : TextureAtlas) : Prop :=
  a.Answers ca.1 ca.2 a'

theorem Keyed.run {a b : TextureAtlas} {log : List (SpriteCall × Option Quad2D)} (h : a.Keyed)
    (hrun : Run AnswerStep a log b) : b.Keyed :=
  hrun.state_invariant h fun t ca u ht hstep => by
    obtain ⟨r, t', hanswer, ht', -⟩ := ht.addSprite ca.1
    obtain ⟨-, rfl⟩ := Answers.unique hstep hanswer
    exact ht'

/-- **A failed call leaves no trace.** In every state that calls of any size have led to, a
further call ends; if it returns `nullptr`, the atlas is the same as before, and what later
calls return and leave behind is what they would have without it. -/
theorem failed_call_untouched {W H : Nat} {log : List (SpriteCall × Option Quad2D)}
    {a : TextureAtlas} (hrun : Run AnswerStep (create W H) log a) (c : SpriteCall) :
    (∃ r a', a.Answers c r a') ∧
      ∀ a', a.Answers c none a' →
        a' = a ∧ ∀ later b, Run AnswerStep (create W H) (log ++ [(c, none)] ++ later) b ↔
          Run AnswerStep (create W H) (log ++ later) b := by
  obtain ⟨r, a₁, hanswer, -, hsame⟩ := ((keyed_create W H).run hrun).addSprite c
  refine ⟨⟨r, a₁, hanswer⟩, fun a' hfailed => ?_⟩
  obtain ⟨rfl, rfl⟩ := Answers.unique hanswer hfailed
  obtain rfl := hsame rfl
  refine ⟨rfl, fun later b => ?_⟩
  have hdet : ∀ (s : TextureAtlas) (ca : SpriteCall × Option Quad2D) (t t' : TextureAtlas),
      AnswerStep s ca t → AnswerStep s ca t' → t = t' :=
    fun _ _ _ _ h h' => (Answers.unique h h').2
  rw [Run.append_iff, Run.append_iff]
  constructor
  · rintro ⟨t, hfirst, hlater⟩
    obtain rfl := Run.unique hdet hfirst (hrun.snoc hfailed)
    exact ⟨_, hrun, hlater⟩
  · rintro ⟨t, hfirst, hlater⟩
    obtain rfl := Run.unique hdet hfirst hrun
    exact ⟨_, hrun.snoc hfailed, hlater⟩

/-- A sprite as large as the texture, and then one for which the cursor moves to a new row
and back again. -/
theorem failed_call_untouched_full :
    ∃ a : TextureAtlas, Run AnswerStep (create 32 32)
        [(⟨"full", [], 32, 32⟩, some ⟨0, 0, 32, 32⟩)] a ∧
      a.Answers ⟨"small", [], 8, 8⟩ none a ∧
      ∀ later b, Run AnswerStep (create 32 32) ([(⟨"full", [], 32, 32⟩, some ⟨0, 0, 32, 32⟩)] ++
          [(⟨"small", [], 8, 8⟩, none)] ++ later) b ↔
        Run AnswerStep (create 32 32)
          ([(⟨"full", [], 32, 32⟩, some ⟨0, 0, 32, 32⟩)] ++ later) b := by
  have hfull : (create 32 32).Answers ⟨"full", [], 32, 32⟩ (some ⟨0, 0, 32, 32⟩)
      (record { create 32 32 with border := (32, 0), yRange := (32, 32) } "full" [] (0, 0)
        32 32).2 :=
    Settles.of_forall fun fuel => rfl
  have hrun : Run AnswerStep (create 32 32) [(⟨"full", [], 32, 32⟩, some ⟨0, 0, 32, 32⟩)] _ :=
    (Run.nil _).snoc hfull
  have hsmall : Answers (record { create 32 32 with border := (32, 0), yRange := (32, 32) }
      "full" [] (0, 0) 32 32).2 ⟨"small", [], 8, 8⟩ none _ :=
    Settles.of_forall fun fuel => rfl
  obtain ⟨hsame, hlater⟩ := (failed_call_untouched hrun ⟨"small", [], 8, 8⟩).2 _ hsmall
  exact ⟨_, hrun, hsame ▸ hsmall, hlater⟩

end TextureAtlas

end Maple
