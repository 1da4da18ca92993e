import Mathlib.Data.List.Basic
import Maple.Engine.MaterialViews
import Maple.Lib.Laps

/-!
# Maple.Scene.Animations

`AnimatedSprite` of `Sprite.cpp`, in the scene that the application updates. A frame of an
animation is shown for the time that it asks for, up to a step, but a scene is updated once
for every `RenderManager`: in the editor, which has two, animations run twice as fast,
`animations_time`.

Arithmetic on times is exact, in an ordered field, where the engine has `float`.
-/

namespace Maple

open Lib

variable {K Q P : Type} [Field K] [LinearOrder K]

/-- An `AnimationFrame`: how long it is shown, and what is drawn. -/
structure AnimationFrame (K Q : Type) where
  delay : K
  quad : Q

structure AnimatedSprite (K Q : Type) where
  currentFrame : Nat
  frameTimer : K
  loop : Bool
  animationFrames : List (AnimationFrame K Q)

namespace AnimatedSprite

def onUpdate (dt : K) (sprite : AnimatedSprite K Q) : AnimatedSprite K Q :=
  let sprite := { sprite with frameTimer := sprite.frameTimer + dt }
  match sprite.animationFrames[sprite.currentFrame]? with
  | some frame =>
    if frame.delay ≤ sprite.frameTimer then
      { sprite with
        frameTimer := 0
        currentFrame :=
          if sprite.animationFrames.length ≤ sprite.currentFrame + 1 then
            if sprite.loop then 0 else sprite.animationFrames.length - 1
          else sprite.currentFrame + 1 }
    else sprite
  | none => sprite

def getQuad (nullQuad : Q) (sprite : AnimatedSprite K Q) : Q :=
  match sprite.animationFrames[sprite.currentFrame]? with
  | some frame => frame.quad
  | none => nullQuad

end AnimatedSprite

/-- `Scene::onUpdate`, for the animations of the scene. -/
def onUpdate (dt : K) (scene : List (AnimatedSprite K Q)) : List (AnimatedSprite K Q) :=
  scene.map (AnimatedSprite.onUpdate dt)

/-- `Application::onUpdate`: every `RenderManager` updates the scene. -/
def Application.onUpdate (managers : List (RenderManager P)) (scene : List (AnimatedSprite K Q))
    (delta : K) : List (AnimatedSprite K Q) :=
  managers.foldl (fun scene _ => Maple.onUpdate delta scene) scene

namespace AnimatedSprite

variable {sprite : AnimatedSprite K Q} {dt : K}

/-! ### Laps -/

/-- The frame after a number of laps. -/
def frameAt (sprite : AnimatedSprite K Q) (laps : Nat) : Nat :=
  if sprite.loop then laps % sprite.animationFrames.length
  else min laps (sprite.animationFrames.length - 1)

/-- The time that the frame of a lap asks for. -/
def asks (sprite : AnimatedSprite K Q) (laps : Nat) : K :=
  match sprite.animationFrames[sprite.frameAt laps]? with
  | some frame => max 0 frame.delay
  | none => 0

/-- The sprite after laps. -/
def after (sprite : AnimatedSprite K Q) (s : Laps K) : AnimatedSprite K Q :=
  { sprite with currentFrame := sprite.frameAt s.laps, frameTimer := s.timer }

omit [Field K] [LinearOrder K] in
theorem frameAt_lt (h : sprite.animationFrames ≠ []) (laps : Nat) :
    sprite.frameAt laps < sprite.animationFrames.length := by
  have hpos := List.length_pos_iff.mpr h
  unfold frameAt
  split
  next => exact Nat.mod_lt _ hpos
  next => omega

omit [Field K] [LinearOrder K] in
theorem frameAt_succ (h : sprite.animationFrames ≠ []) (laps : Nat) :
    sprite.frameAt (laps + 1) =
      if sprite.animationFrames.length ≤ sprite.frameAt laps + 1 then
        if sprite.loop then 0 else sprite.animationFrames.length - 1
      else sprite.frameAt laps + 1 := by
  have hpos := List.length_pos_iff.mpr h
  unfold frameAt
  cases sprite.loop with
  | false =>
      simp only [Bool.false_eq_true, if_false]
      split <;> omega
  | true =>
      simp only [if_true]
      have hlt := Nat.mod_lt laps hpos
      rw [← Nat.mod_add_mod]
      split
      next hle =>
        obtain heq : laps % sprite.animationFrames.length + 1 = sprite.animationFrames.length := by
          omega
        rw [heq, Nat.mod_self]
      next hlt => exact Nat.mod_eq_of_lt (Nat.not_le.mp hlt)

theorem asks_nonneg (sprite : AnimatedSprite K Q) (laps : Nat) : 0 ≤ sprite.asks laps := by
  unfold asks
  split
  next => exact le_max_left ..
  next => exact le_rfl

/-- An update is a tick. -/
theorem onUpdate_after [IsStrictOrderedRing K] (h : sprite.animationFrames ≠ []) {s : Laps K}
    (hs : 0 ≤ s.timer) (hdt : 0 ≤ dt) :
    (sprite.after s).onUpdate dt = sprite.after (s.tick sprite.asks dt) := by
  have hlt := frameAt_lt h s.laps
  have hframe := List.getElem?_eq_getElem hlt
  have hasks : sprite.asks s.laps ≤ s.timer + dt ↔
      sprite.animationFrames[sprite.frameAt s.laps].delay ≤ s.timer + dt := by
    simp [asks, hframe, add_nonneg hs hdt]
  simp only [onUpdate, after, hframe]
  by_cases hover : sprite.animationFrames[sprite.frameAt s.laps].delay ≤ s.timer + dt
  · rw [Laps.tick, if_pos (hasks.mpr hover), frameAt_succ h]
    simp only [hover, if_true]
    rfl
  · rw [Laps.tick, if_neg (mt hasks.mp hover)]
    simp only [hover, if_false]

/-- The updates of a scene are those of its sprites, once for every manager. -/
theorem onUpdate_eq_map (managers : List (RenderManager P)) (scene : List (AnimatedSprite K Q))
    (dts : List K) :
    dts.foldl (Application.onUpdate managers) scene = scene.map fun sprite =>
      (dts.flatMap fun dt => List.replicate managers.length dt).foldl
        (fun sprite dt => sprite.onUpdate dt) sprite := by
  have hmanagers : ∀ (managers : List (RenderManager P)) (scene : List (AnimatedSprite K Q))
      (dt : K), Application.onUpdate managers scene dt = scene.map fun sprite =>
        (List.replicate managers.length dt).foldl (fun sprite dt => sprite.onUpdate dt) sprite := by
    intro managers
    induction managers with
    | nil => intro scene dt; simp [Application.onUpdate]
    | cons manager managers ih =>
        intro scene dt
        rw [Application.onUpdate, List.foldl_cons, ← Application.onUpdate, ih, Maple.onUpdate,
          List.map_map]
        rfl
  induction dts generalizing scene with
  | nil => simp
  | cons dt dts ih =>
      rw [List.foldl_cons, ih, hmanagers, List.map_map]
      simp [Function.comp_def, List.foldl_append]

theorem foldl_after [IsStrictOrderedRing K] (h : sprite.animationFrames ≠ []) {dts : List K}
    {s : Laps K} (hs : 0 ≤ s.timer) (hdts : ∀ dt ∈ dts, 0 ≤ dt) :
    dts.foldl (fun sprite dt => sprite.onUpdate dt) (sprite.after s) =
      sprite.after (dts.foldl (Laps.tick sprite.asks) s) := by
  induction dts generalizing s with
  | nil => rfl
  | cons dt dts ih =>
      obtain ⟨hdt, hdts⟩ := List.forall_mem_cons.mp hdts
      have hnonneg : 0 ≤ (s.tick sprite.asks dt).timer := by
        unfold Laps.tick
        split
        next => exact le_rfl
        next => exact add_nonneg hs hdt
      rw [List.foldl_cons, onUpdate_after h hs hdt, ih hnonneg hdts]
      rfl

omit [LinearOrder K] in
theorem sum_steps (n : Nat) (dts : List K) :
    (dts.flatMap fun dt => List.replicate n dt).sum = n * dts.sum := by
  induction dts with
  | nil => simp
  | cons dt dts ih => simp [ih, mul_add]

end AnimatedSprite

/-- An animation that is updated by the managers of an application, with steps that are not
longer than `most`: the frames that it has shown asked for the time that passed, once for every
manager, up to a step for each of them and what is on the timer. So the editor shows them in
half of the time. -/
theorem animations_time [IsStrictOrderedRing K] (managers : List (RenderManager P)) {most : K}
    {dts : List K} (hdts : ∀ dt ∈ dts, 0 ≤ dt ∧ dt ≤ most) (scene : List (AnimatedSprite K Q))
    {i : Nat} {sprite : AnimatedSprite K Q} (hi : scene[i]? = some sprite)
    (hframes : sprite.animationFrames ≠ []) (hstart : sprite.currentFrame = 0)
    (htimer : sprite.frameTimer = 0) :
    ∃ s : Laps K, (dts.foldl (Application.onUpdate managers) scene)[i]? = some (sprite.after s) ∧
      Laps.OnTime sprite.asks most (managers.length * dts.sum) s := by
  have hsteps : ∀ dt ∈ dts.flatMap fun dt => List.replicate managers.length dt,
      0 ≤ dt ∧ dt ≤ most := by
    intro dt hdt
    obtain ⟨dt', hmem, hdt⟩ := List.mem_flatMap.mp hdt
    obtain rfl := List.eq_of_mem_replicate hdt
    exact hdts dt hmem
  have hsprite : sprite = sprite.after ⟨0, 0⟩ := by
    obtain ⟨currentFrame, frameTimer, loop, animationFrames⟩ := sprite
    obtain rfl : currentFrame = 0 := hstart
    obtain rfl : frameTimer = 0 := htimer
    simp [AnimatedSprite.after, AnimatedSprite.frameAt]
  have hzero : Laps.OnTime sprite.asks most 0 ⟨0, 0⟩ := .start sprite.asks_nonneg
  have htime := hzero.foldl sprite.asks_nonneg hsteps
  rw [AnimatedSprite.sum_steps, zero_add] at htime
  refine ⟨_, ?_, htime⟩
  rw [AnimatedSprite.onUpdate_eq_map, List.getElem?_map, hi, Option.map_some]
  congr 1
  calc _ = _ := congrArg (List.foldl _ · _) hsprite
    _ = _ := AnimatedSprite.foldl_after hframes le_rfl fun dt hdt => (hsteps dt hdt).1

/-- A blinking sprite in the editor, for three steps. -/
theorem animations_time_blink :
    let sprite : AnimatedSprite ℚ Bool := ⟨0, 0, true, [⟨1, true⟩, ⟨1, false⟩]⟩
    ∃ s : Laps ℚ,
      ([1 / 2, 1 / 2, 1 / 2].foldl
          (Application.onUpdate (renderManagers false true)) [sprite])[0]? =
        some (sprite.after s) ∧
      Laps.OnTime sprite.asks (1 / 2) (2 * [1 / 2, 1 / 2, 1 / 2].sum) s :=
  animations_time (renderManagers false true) (by norm_num) _ rfl (List.cons_ne_nil _ _) rfl rfl

end Maple
