import Mathlib.Algebra.Order.Field.Basic
import Mathlib.Data.Fintype.Lattice
import Mathlib.Order.Bounds.Basic
import Mathlib.Order.Interval.Set.Basic
import Mathlib.Tactic.Linarith

/-!
# Maple.Lib.RayBox

**A ray meets a box first on a face it enters.** A point moves along a line with a
constant velocity. On one axis it `Enters` an interval at the time it reaches the end
it comes from. In a product of intervals it is first inside at the latest of these
times, so that the search for the first time in the box is a search among the faces.
-/

namespace Maple.Lib

variable {K : Type*} [Field K] [LinearOrder K] [IsStrictOrderedRing K]

/-- A point outside `[lo, hi]` at time `0` with velocity `d` reaches the end of the
interval it comes from at time `t`. -/
inductive Enters (o d lo hi t : K) : Prop
  | below (hout : o < lo) (hd : 0 < d) (ht : t = (lo - o) / d)
  | above (hout : hi < o) (hd : d < 0) (ht : t = (hi - o) / d)

namespace Enters

variable {o d lo hi t : K}

theorem pos (h : Enters o d lo hi t) : 0 < t := by
  cases h with
  | below hout hd ht => exact ht ▸ div_pos (sub_pos.mpr hout) hd
  | above hout hd ht => exact ht ▸ div_pos_of_neg_of_neg (sub_neg.mpr hout) hd

omit [IsStrictOrderedRing K] in
theorem mem (h : Enters o d lo hi t) (hle : lo ≤ hi) : o + t * d ∈ Set.Icc lo hi := by
  cases h with
  | below hout hd ht =>
      have hface : o + t * d = lo := by rw [ht, div_mul_cancel₀ _ hd.ne', add_sub_cancel]
      rw [hface]
      exact ⟨le_refl _, hle⟩
  | above hout hd ht =>
      have hface : o + t * d = hi := by rw [ht, div_mul_cancel₀ _ hd.ne, add_sub_cancel]
      rw [hface]
      exact ⟨hle, le_refl _⟩

/-- The point is not inside before. -/
theorem le_of_mem (h : Enters o d lo hi t) {s : K} (hs : o + s * d ∈ Set.Icc lo hi) : t ≤ s := by
  cases h with
  | below hout hd ht =>
      rw [ht, div_le_iff₀ hd]
      exact sub_le_iff_le_add'.mpr hs.1
  | above hout hd ht =>
      rw [ht, div_le_iff_of_neg hd]
      exact le_sub_iff_add_le'.mpr hs.2

end Enters

variable {o d lo hi : K}

/-- A point that is inside at two times is inside in between. -/
theorem mem_Icc_between {r e s : K} (hr : o + r * d ∈ Set.Icc lo hi) (hre : r ≤ e) (hes : e ≤ s)
    (hs : o + s * d ∈ Set.Icc lo hi) : o + e * d ∈ Set.Icc lo hi := by
  cases le_total 0 d with
  | inl hd =>
      have hlower : r * d ≤ e * d := mul_le_mul_of_nonneg_right hre hd
      have hupper : e * d ≤ s * d := mul_le_mul_of_nonneg_right hes hd
      exact ⟨by linarith only [hlower, hr.1], by linarith only [hupper, hs.2]⟩
  | inr hd =>
      have hlower : s * d ≤ e * d := mul_le_mul_of_nonpos_right hes hd
      have hupper : e * d ≤ r * d := mul_le_mul_of_nonpos_right hre hd
      exact ⟨by linarith only [hlower, hs.1], by linarith only [hupper, hr.2]⟩

/-- A point outside that is inside later has entered. -/
theorem exists_enters {s : K} (hout : o ∉ Set.Icc lo hi) (hs : 0 ≤ s)
    (hmem : o + s * d ∈ Set.Icc lo hi) : ∃ t, Enters o d lo hi t := by
  by_cases hlo : o < lo
  · have hd : 0 < d := by
      by_contra hd
      have hback : s * d ≤ 0 := mul_nonpos_of_nonneg_of_nonpos hs (not_lt.mp hd)
      linarith only [hmem.1, hlo, hback]
    exact ⟨_, .below hlo hd rfl⟩
  · have hhi : hi < o := by
      by_contra hhi
      exact hout ⟨not_lt.mp hlo, not_lt.mp hhi⟩
    have hd : d < 0 := by
      by_contra hd
      have hback : 0 ≤ s * d := mul_nonneg hs (not_lt.mp hd)
      linarith only [hmem.2, hhi, hback]
    exact ⟨_, .above hhi hd rfl⟩

/-! ### Boxes -/

section

variable {ι : Type*} {o d lo hi : ι → K}

/-- The point is in the box at time `t`. -/
def InBox (o d lo hi : ι → K) (t : K) : Prop :=
  ∀ i, o i + t * d i ∈ Set.Icc (lo i) (hi i)

/-- The times at which the point is in the box, from `0` on. -/
def insideTimes (o d lo hi : ι → K) : Set K :=
  {t | 0 ≤ t ∧ InBox o d lo hi t}

/-- The times at which the point is on a face that it enters. -/
def faceTimes (o d lo hi : ι → K) : Set K :=
  {t | ∃ i, Enters (o i) (d i) (lo i) (hi i) t ∧ InBox o d lo hi t}

theorem faceTimes_subset : faceTimes o d lo hi ⊆ insideTimes o d lo hi := by
  intro t ht
  obtain ⟨i, henters, hmem⟩ := ht
  exact ⟨henters.pos.le, hmem⟩

/-- The face that is entered last is on the boundary of the box, and the point is not
inside before. -/
theorem exists_faceTime [Finite ι] (hout : ¬ InBox o d lo hi 0) {s : K}
    (hs : s ∈ insideTimes o d lo hi) : ∃ t ∈ faceTimes o d lo hi, t ≤ s := by
  -- the time from which the point stays inside, on each axis
  have hfrom : ∀ i, ∃ t, Enters (o i) (d i) (lo i) (hi i) t ∨
      t = 0 ∧ o i + t * d i ∈ Set.Icc (lo i) (hi i) := by
    intro i
    by_cases hin : o i ∈ Set.Icc (lo i) (hi i)
    · exact ⟨0, .inr ⟨rfl, by rwa [zero_mul, add_zero]⟩⟩
    · obtain ⟨t, ht⟩ := exists_enters hin hs.1 (hs.2 i)
      exact ⟨t, .inl ht⟩
  choose entry hentry using hfrom
  obtain ⟨j, hj⟩ := not_forall.mp hout
  rw [zero_mul, add_zero] at hj
  have hjpos : 0 < entry j := by
    cases hentry j with
    | inl henters => exact henters.pos
    | inr hinside =>
        obtain ⟨hzero, hmem⟩ := hinside
        rw [hzero, zero_mul, add_zero] at hmem
        exact absurd hmem hj
  have : Nonempty ι := ⟨j⟩
  obtain ⟨last, hlast⟩ := Finite.exists_max entry
  have henters : Enters (o last) (d last) (lo last) (hi last) (entry last) := by
    cases hentry last with
    | inl henters => exact henters
    | inr hinside => exact absurd (hlast j) (not_le.mpr (hinside.1 ▸ hjpos))
  have hle : entry last ≤ s := henters.le_of_mem (hs.2 last)
  refine ⟨entry last, ⟨last, henters, fun i => ?_⟩, hle⟩
  have hordered : lo i ≤ hi i := (hs.2 i).1.trans (hs.2 i).2
  have hinside : o i + entry i * d i ∈ Set.Icc (lo i) (hi i) := by
    cases hentry i with
    | inl hi => exact hi.mem hordered
    | inr hinside => exact hinside.2
  exact mem_Icc_between hinside (hlast i) hle (hs.2 i)

/-- From outside, the first time in the box is the first time on an entered face. -/
theorem isLeast_insideTimes_iff [Finite ι] (hout : ¬ InBox o d lo hi 0) {t : K} :
    IsLeast (insideTimes o d lo hi) t ↔ IsLeast (faceTimes o d lo hi) t := by
  constructor
  · intro ⟨hmem, hleast⟩
    obtain ⟨face, hface, hle⟩ := exists_faceTime hout hmem
    obtain rfl : face = t := le_antisymm hle (hleast (faceTimes_subset hface))
    exact ⟨hface, fun s hs => hleast (faceTimes_subset hs)⟩
  · intro ⟨hmem, hleast⟩
    refine ⟨faceTimes_subset hmem, fun s hs => ?_⟩
    obtain ⟨face, hface, hle⟩ := exists_faceTime hout hs
    exact (hleast hface).trans hle

theorem insideTimes_eq_empty_iff [Finite ι] (hout : ¬ InBox o d lo hi 0) :
    insideTimes o d lo hi = ∅ ↔ faceTimes o d lo hi = ∅ := by
  constructor
  · exact fun hempty => Set.subset_eq_empty faceTimes_subset hempty
  · intro hempty
    by_contra hne
    obtain ⟨s, hs⟩ := Set.nonempty_iff_ne_empty.mpr hne
    obtain ⟨face, hface, -⟩ := exists_faceTime hout hs
    exact Set.notMem_empty face (hempty ▸ hface)

end

end Maple.Lib
