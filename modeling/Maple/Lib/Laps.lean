import Mathlib.Algebra.BigOperators.Intervals
import Mathlib.Algebra.Order.Ring.Defs
import Mathlib.Tactic.Linarith

/-!
# Maple.Lib.Laps

**A timer that is set to zero when its time is over.** Every lap has a time that it asks for,
and each tick ends at most one lap; what the tick goes beyond that time is dropped. So the
laps take the time that they ask for, and at most a tick more each, `OnTime.foldl`.
-/

namespace Maple.Lib

variable {K : Type*} [Field K] [LinearOrder K] {asks : Nat → K}

structure Laps (K : Type*) where
  laps : Nat
  timer : K

namespace Laps

def tick (asks : Nat → K) (s : Laps K) (dt : K) : Laps K :=
  if asks s.laps ≤ s.timer + dt then ⟨s.laps + 1, 0⟩ else ⟨s.laps, s.timer + dt⟩

/-- The time that the laps asked for. -/
def asked (asks : Nat → K) (s : Laps K) : K := ∑ j ∈ Finset.range s.laps, asks j

/-- The laps and the timer after some time, with ticks that were not longer than `most`. -/
structure OnTime (asks : Nat → K) (most elapsed : K) (s : Laps K) : Prop where
  timer_nonneg : 0 ≤ s.timer
  timer_le : s.timer ≤ asks s.laps
  asked_le : s.asked asks + s.timer ≤ elapsed
  elapsed_le : elapsed ≤ s.asked asks + s.timer + s.laps * most

variable [IsStrictOrderedRing K] {most elapsed dt : K} {s : Laps K}

omit [IsStrictOrderedRing K] in
theorem OnTime.start (hasks : ∀ j, 0 ≤ asks j) : OnTime asks most 0 ⟨0, 0⟩ where
  timer_nonneg := le_rfl
  timer_le := hasks 0
  asked_le := by simp [asked]
  elapsed_le := by simp [asked]

theorem OnTime.tick (hasks : ∀ j, 0 ≤ asks j) (h : OnTime asks most elapsed s) (hdt : 0 ≤ dt)
    (hmost : dt ≤ most) : OnTime asks most (elapsed + dt) (s.tick asks dt) := by
  obtain ⟨hnonneg, hle, hasked, helapsed⟩ := h
  unfold Laps.tick
  split_ifs with hover
  · have hsum : asked asks ⟨s.laps + 1, 0⟩ = s.asked asks + asks s.laps := Finset.sum_range_succ ..
    refine ⟨le_rfl, hasks _, ?_, ?_⟩
    · rw [hsum]
      linarith
    · rw [hsum]
      push_cast
      linarith
  · refine ⟨add_nonneg hnonneg hdt, (not_le.mp hover).le, ?_, ?_⟩
    · change s.asked asks + (s.timer + dt) ≤ elapsed + dt
      linarith
    · change elapsed + dt ≤ s.asked asks + (s.timer + dt) + s.laps * most
      linarith

theorem OnTime.foldl (hasks : ∀ j, 0 ≤ asks j) {dts : List K} (h : OnTime asks most elapsed s)
    (hdts : ∀ dt ∈ dts, 0 ≤ dt ∧ dt ≤ most) :
    OnTime asks most (elapsed + dts.sum) (dts.foldl (Laps.tick asks) s) := by
  induction dts generalizing s elapsed with
  | nil => simpa using h
  | cons dt dts ih =>
      obtain ⟨⟨hdt, hmost⟩, hdts⟩ := List.forall_mem_cons.mp hdts
      have hrest := ih (h.tick hasks hdt hmost) hdts
      rwa [add_assoc, ← List.sum_cons] at hrest

end Laps

end Maple.Lib
