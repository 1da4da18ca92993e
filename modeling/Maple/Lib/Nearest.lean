import Mathlib.Data.List.MinMax
import Mathlib.Order.Bounds.Basic
import Mathlib.Order.WithBot

/-!
# Maple.Lib.Nearest

**Searches for a least distance.** `LeastOf s m` says that `m` is the least element of
`s`, or `⊤` where `s` is empty; a minimum of two such values is the least of the union.
`nearest` is the loop that keeps the first element of least distance and passes over
elements at distance `⊤`: it is Mathlib's `List.argmin` of the others.
-/

namespace Maple.Lib

/-! ### Least elements -/

section

variable {α : Type*} [LinearOrder α]

/-- The least element of a set, `⊤` if there is none. -/
inductive LeastOf (s : Set α) : WithTop α → Prop
  | top (hempty : s = ∅) : LeastOf s ⊤
  | coe {t : α} (hleast : IsLeast s t) : LeastOf s t

namespace LeastOf

variable {s s' : Set α} {m m' : WithTop α}

theorem eq_coe_iff (h : LeastOf s m) {t : α} : m = t ↔ IsLeast s t := by
  cases h with
  | top hempty =>
      constructor
      · exact fun heq => absurd heq WithTop.top_ne_coe
      · exact fun hleast => absurd (hempty ▸ hleast.1) (Set.notMem_empty t)
  | coe hleast =>
      constructor
      · exact fun heq => WithTop.coe_injective heq ▸ hleast
      · exact fun hleast' => congrArg _ (hleast.unique hleast')

theorem eq_top_iff (h : LeastOf s m) : m = ⊤ ↔ s = ∅ := by
  cases h with
  | top hempty => exact ⟨fun _ => hempty, fun _ => rfl⟩
  | coe hleast =>
      constructor
      · exact fun heq => absurd heq WithTop.coe_ne_top
      · exact fun hempty => absurd (hempty ▸ hleast.1) (Set.notMem_empty _)

theorem congr (h : LeastOf s m) (heq : s = s') : LeastOf s' m :=
  heq ▸ h

/-- A single candidate that counts under a condition. -/
theorem ite (p : Prop) [Decidable p] (x : α) :
    LeastOf {t | p ∧ t = x} (if p then (x : WithTop α) else ⊤) := by
  by_cases hp : p
  · rw [if_pos hp]
    refine .coe ⟨⟨hp, rfl⟩, fun t ht => ?_⟩
    exact ht.2.ge
  · rw [if_neg hp]
    exact .top (Set.eq_empty_of_forall_notMem fun t ht => hp ht.1)

theorem union (h : LeastOf s m) (h' : LeastOf s' m') : LeastOf (s ∪ s') (min m m') := by
  cases h with
  | top hempty => rw [hempty, Set.empty_union, top_inf_eq]; exact h'
  | coe hleast =>
      cases h' with
      | top hempty => rw [hempty, Set.union_empty, inf_top_eq]; exact .coe hleast
      | coe hleast' => rw [← WithTop.coe_min]; exact .coe (hleast.union hleast')

end LeastOf

end

/-! ### The first of the nearest elements -/

section

variable {α δ : Type*} [LinearOrder δ] [OrderTop δ]

/-- One round of the search: the element replaces the best one so far if it is nearer. -/
def nearer (dist : α → δ) (best : Option α × δ) (x : α) : Option α × δ :=
  if dist x < ⊤ ∧ dist x < best.2 then (some x, dist x) else best

/-- The search, from no element at distance `⊤`. -/
def nearest (dist : α → δ) (xs : List α) : Option α :=
  (xs.foldl (nearer dist) (none, ⊤)).1

/-- The best distance is the one of the best element. -/
theorem foldl_nearer (dist : α → δ) (xs : List α) :
    xs.foldl (nearer dist) (none, ⊤) =
      ((xs.filter (dist · < ⊤)).argmin dist,
        ((xs.filter (dist · < ⊤)).argmin dist).elim ⊤ dist) := by
  induction xs using List.reverseRecOn with
  | nil => rfl
  | append_singleton xs x ih =>
      rw [List.foldl_append, ih, List.foldl_cons, List.foldl_nil, List.filter_append]
      by_cases hx : dist x < ⊤
      · rw [List.filter_cons_of_pos (by simpa using hx), List.filter_nil, List.argmin_concat]
        cases (xs.filter (dist · < ⊤)).argmin dist with
        | none => simp [nearer, hx]
        | some c => by_cases hlt : dist x < dist c <;> simp [nearer, hx, hlt]
      · rw [List.filter_cons_of_neg (by simpa using hx), List.filter_nil, List.append_nil]
        exact if_neg fun hand => hx hand.1

theorem nearest_eq_argmin (dist : α → δ) (xs : List α) :
    nearest dist xs = (xs.filter (dist · < ⊤)).argmin dist :=
  congrArg Prod.fst (foldl_nearer dist xs)

theorem nearest_eq_none_iff {dist : α → δ} {xs : List α} :
    nearest dist xs = none ↔ ∀ x ∈ xs, dist x = ⊤ := by
  rw [nearest_eq_argmin, List.argmin_eq_none, List.filter_eq_nil_iff]
  simp only [decide_eq_true_eq, not_lt_top_iff]

/-- What the search finds is at a distance, and nothing is nearer. -/
theorem nearest_least {dist : α → δ} {xs : List α} {x : α} (h : nearest dist xs = some x) :
    x ∈ xs ∧ dist x < ⊤ ∧ ∀ y ∈ xs, dist x ≤ dist y := by
  rw [nearest_eq_argmin] at h
  obtain ⟨hx, htop⟩ := List.mem_filter.mp (List.argmin_mem h)
  refine ⟨hx, of_decide_eq_true htop, fun y hy => ?_⟩
  by_cases hfinite : dist y < ⊤
  · exact List.le_of_mem_argmin (List.mem_filter.mpr ⟨hy, decide_eq_true hfinite⟩) h
  · rw [not_lt_top_iff.mp hfinite]
    exact le_top

/-- The first of the elements at the least distance, which is not `⊤`. -/
def FirstNearest (dist : α → δ) (xs : List α) (x : α) : Prop :=
  dist x < ⊤ ∧ ∃ before after, xs = before ++ x :: after ∧ (∀ y ∈ before, dist x < dist y) ∧
    ∀ y ∈ after, dist x ≤ dist y

theorem firstNearest_of_nearest {dist : α → δ} {xs : List α} {x : α}
    (h : nearest dist xs = some x) : FirstNearest dist xs x := by
  obtain ⟨-, htop, hle⟩ := nearest_least h
  refine ⟨htop, ?_⟩
  induction xs using List.reverseRecOn with
  | nil => exact absurd h (by simp [nearest])
  | append_singleton xs z ih =>
      have hlast :
          nearest dist (xs ++ [z]) = (nearer dist (xs.foldl (nearer dist) (none, ⊤)) z).1 :=
        congrArg Prod.fst (List.foldl_append ..)
      rw [hlast, foldl_nearer, nearer] at h
      by_cases hz : dist z < ⊤ ∧ dist z < ((xs.filter (dist · < ⊤)).argmin dist).elim ⊤ dist
      · -- the last element is nearer than the best one before
        rw [if_pos hz, Option.some.injEq] at h
        subst h
        refine ⟨xs, [], rfl, fun y hy => ?_, fun y hy => absurd hy List.not_mem_nil⟩
        cases hbest : nearest dist xs with
        | none => exact (nearest_eq_none_iff.mp hbest y hy).symm ▸ htop
        | some best =>
            rw [← nearest_eq_argmin, hbest] at hz
            exact hz.2.trans_le ((nearest_least hbest).2.2 y hy)
      · rw [if_neg hz, ← nearest_eq_argmin] at h
        obtain ⟨before, after, rfl, hbefore, hafter⟩ :=
          ih h fun y hy => hle y (List.mem_append_left _ hy)
        refine ⟨before, after ++ [z], by simp, hbefore, fun y hy => ?_⟩
        cases List.mem_append.mp hy with
        | inl hy => exact hafter y hy
        | inr hy => exact hle y (List.mem_append_right _ hy)

namespace FirstNearest

variable {dist : α → δ} {xs : List α} {x : α}

theorem mem (h : FirstNearest dist xs x) : x ∈ xs := by
  obtain ⟨-, before, after, rfl, -, -⟩ := h
  exact List.mem_append_right _ List.mem_cons_self

theorem unique {y : α} (hx : FirstNearest dist xs x) (hy : FirstNearest dist xs y) : x = y := by
  obtain ⟨-, before, after, hxs, hbefore, hafter⟩ := hx
  obtain ⟨-, before', after', hxs', hbefore', hafter'⟩ := hy
  rcases List.append_eq_append_iff.mp (hxs.symm.trans hxs') with
    ⟨mid, hmid, hrest⟩ | ⟨mid, hmid, hrest⟩
  all_goals rcases List.cons_eq_append_iff.mp hrest with ⟨-, hhead⟩ | ⟨rest, rfl, rfl⟩
  · exact (List.cons.inj hhead).1.symm
  · -- `x` comes before `y`
    have hlt : dist y < dist x := hbefore' x (by simp [hmid])
    have hle : dist x ≤ dist y := hafter y (by simp)
    exact absurd hle (not_le.mpr hlt)
  · exact (List.cons.inj hhead).1
  · have hlt : dist x < dist y := hbefore y (by simp [hmid])
    have hle : dist y ≤ dist x := hafter' x (by simp)
    exact absurd hle (not_le.mpr hlt)

end FirstNearest

/-- The first of the nearest of two lists. -/
theorem firstNearest_append {dist : α → δ} {xs ys : List α} {x : α} :
    FirstNearest dist (xs ++ ys) x ↔
      FirstNearest dist xs x ∧ (∀ y ∈ ys, dist x ≤ dist y) ∨
        FirstNearest dist ys x ∧ ∀ y ∈ xs, dist x < dist y := by
  constructor
  · rintro ⟨htop, before, after, heq, hbefore, hafter⟩
    rcases List.append_eq_append_iff.mp heq with ⟨mid, rfl, hys⟩ | ⟨mid, rfl, hxs⟩
    · refine Or.inr ⟨⟨htop, mid, after, hys, ?_, hafter⟩, fun y hy => ?_⟩
      · exact fun y hy => hbefore y (List.mem_append_right _ hy)
      · exact hbefore y (List.mem_append_left _ hy)
    · rcases List.cons_eq_append_iff.mp hxs with ⟨rfl, hys⟩ | ⟨rest, rfl, rfl⟩
      · refine Or.inr ⟨⟨htop, [], after, hys, nofun, hafter⟩, fun y hy => ?_⟩
        exact hbefore y (by simpa using hy)
      · refine Or.inl ⟨⟨htop, before, rest, rfl, hbefore, ?_⟩, fun y hy => ?_⟩
        · exact fun y hy => hafter y (List.mem_append_left _ hy)
        · exact hafter y (List.mem_append_right _ hy)
  · rintro (⟨⟨htop, before, after, rfl, hbefore, hafter⟩, hys⟩ |
      ⟨⟨htop, before, after, rfl, hbefore, hafter⟩, hxs⟩)
    · refine ⟨htop, before, after ++ ys, by simp, hbefore, fun y hy => ?_⟩
      exact (List.mem_append.mp hy).elim (hafter y) (hys y)
    · refine ⟨htop, xs ++ before, after, by simp, fun y hy => ?_, hafter⟩
      exact (List.mem_append.mp hy).elim (hxs y) (hbefore y)

/-- The search finds an element if and only if it is the first of the nearest. -/
theorem nearest_eq_some_iff {dist : α → δ} {xs : List α} {x : α} :
    nearest dist xs = some x ↔ FirstNearest dist xs x := by
  refine ⟨firstNearest_of_nearest, fun h => ?_⟩
  cases hfound : nearest dist xs with
  | none => exact absurd (nearest_eq_none_iff.mp hfound x h.mem) h.1.ne
  | some y => exact congrArg some ((firstNearest_of_nearest hfound).unique h)

end

end Maple.Lib
