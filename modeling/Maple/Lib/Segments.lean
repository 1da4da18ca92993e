import Mathlib.Data.List.Induction
import Mathlib.Data.List.Infix

/-!
# Maple.Lib.Segments

**Cutting a list into as few segments as possible.** Which lists fit in a segment is a
predicate that holds of single elements and, with a list, of its sublists. The greedy
cut extends the last segment while it fits; no other cut has fewer segments
(`length_segments_le`).
-/

namespace Maple.Lib

variable {α : Type*} (fits : List α → Prop) [DecidablePred fits]

/-- The finished segments and the open one, after another element. -/
def extend (s : List (List α) × List α) (x : α) : List (List α) × List α :=
  if fits (s.2 ++ [x]) then (s.1, s.2 ++ [x]) else (s.1 ++ [s.2], [x])

/-- The greedy cut: the finished segments and the open one. -/
def greedy (xs : List α) : List (List α) × List α :=
  xs.foldl (extend fits) ([], [])

/-- The segments of the greedy cut; the open one counts unless it is empty. -/
def segments (xs : List α) : List (List α) :=
  if (greedy fits xs).2 = [] then (greedy fits xs).1
  else (greedy fits xs).1 ++ [(greedy fits xs).2]

variable {fits}

theorem greedy_concat (xs : List α) (x : α) :
    greedy fits (xs ++ [x]) = extend fits (greedy fits xs) x :=
  List.foldl_append

theorem length_le_extend (s : List (List α) × List α) (x : α) :
    s.1.length ≤ (extend fits s x).1.length := by
  rw [extend]
  split
  next => exact le_rfl
  next => exact (List.sublist_append_left ..).length_le

theorem open_ne_nil {xs : List α} (h : xs ≠ []) : (greedy fits xs).2 ≠ [] := by
  rcases List.eq_nil_or_concat' xs with rfl | ⟨xs, x, rfl⟩
  · exact absurd rfl h
  · rw [greedy_concat, extend]
    split
    · exact List.append_ne_nil_of_right_ne_nil _ (List.cons_ne_nil _ _)
    · exact List.cons_ne_nil _ _

theorem greedy_flatten (xs : List α) : (greedy fits xs).1.flatten ++ (greedy fits xs).2 = xs := by
  induction xs using List.reverseRecOn with
  | nil => rfl
  | append_singleton xs x ih =>
      rw [greedy_concat, extend]
      split
      · rw [← List.append_assoc, ih]
      · rw [List.flatten_append, List.flatten_singleton, ih]

theorem flatten_segments (xs : List α) : (segments fits xs).flatten = xs := by
  unfold segments
  split
  next hnil =>
      have hflat : (greedy fits xs).1.flatten ++ (greedy fits xs).2 = xs := greedy_flatten xs
      rwa [hnil, List.append_nil] at hflat
  next => rw [List.flatten_append, List.flatten_singleton, greedy_flatten]

/-- The open segment fits, and the finished ones do and are not empty. -/
theorem greedy_fits (hnil : fits []) (hone : ∀ x, fits [x]) (xs : List α) :
    fits (greedy fits xs).2 ∧ ∀ seg ∈ (greedy fits xs).1, seg ≠ [] ∧ fits seg := by
  induction xs using List.reverseRecOn with
  | nil => exact ⟨hnil, fun seg hseg => absurd hseg List.not_mem_nil⟩
  | append_singleton xs x ih =>
      rw [greedy_concat, extend]
      by_cases hfits : fits ((greedy fits xs).2 ++ [x])
      · rw [if_pos hfits]
        exact ⟨hfits, ih.2⟩
      · rw [if_neg hfits]
        refine ⟨hone x, fun seg hseg => ?_⟩
        cases List.mem_append.mp hseg with
        | inl hseg => exact ih.2 seg hseg
        | inr hseg =>
            rw [List.mem_singleton.mp hseg]
            have hopen : (greedy fits xs).2 ≠ [] := fun hempty => hfits (by
              rw [hempty]
              exact hone x)
            exact ⟨hopen, ih.1⟩

theorem fits_of_mem_segments (hnil : fits []) (hone : ∀ x, fits [x]) {xs seg : List α}
    (h : seg ∈ segments fits xs) : seg ≠ [] ∧ fits seg := by
  obtain ⟨hopen, hdone⟩ := greedy_fits hnil hone xs
  unfold segments at h
  split at h
  next => exact hdone seg h
  next hne =>
      cases List.mem_append.mp h with
      | inl h => exact hdone seg h
      | inr h =>
          rw [List.mem_singleton.mp h]
          exact ⟨hne, hopen⟩

/-- The open segment is the last of the segments. -/
theorem length_segments_le_iff {n : Nat} (hpos : 0 < n) (xs : List α) :
    (segments fits xs).length ≤ n ↔ (greedy fits xs).1.length < n := by
  by_cases hxs : xs = []
  · subst hxs
    exact iff_of_true (Nat.zero_le _) hpos
  · rw [segments, if_neg (open_ne_nil hxs), List.length_append]
    exact Iff.rfl

/-! ### No cut has fewer segments -/

/-- A cut is ahead of another with so many finished segments and this last one: it has
fewer finished segments, or as many and its open segment is a suffix of the other's. -/
def Ahead (s : List (List α) × List α) (finished : Nat) (last : List α) : Prop :=
  s.1.length < finished ∨ s.1.length = finished ∧ s.2 <:+ last

/-- It stays ahead where the other begins a segment. -/
theorem ahead_begin {s : List (List α) × List α} {finished : Nat} (hle : s.1.length ≤ finished)
    (x : α) : Ahead (extend fits s x) (finished + 1) [x] := by
  rw [extend]
  split
  next => exact .inl (Nat.lt_succ_of_le hle)
  next =>
      rw [Ahead, List.length_append, List.length_singleton]
      cases hle.lt_or_eq with
      | inl hlt => exact .inl (Nat.succ_lt_succ hlt)
      | inr heq => exact .inr ⟨congrArg (· + 1) heq, List.suffix_refl _⟩

/-- It stays ahead where the other extends its last segment. -/
theorem ahead_extend (hsub : ∀ xs ys : List α, xs.Sublist ys → fits ys → fits xs)
    {s : List (List α) × List α} {finished : Nat} {last : List α} (hs : Ahead s finished last)
    {x : α} (hlast : fits (last ++ [x])) : Ahead (extend fits s x) finished (last ++ [x]) := by
  cases hs with
  | inl hlt =>
      rw [extend]
      split
      next => exact .inl hlt
      next =>
          rw [Ahead, List.length_append, List.length_singleton]
          cases Nat.lt_or_eq_of_le (Nat.succ_le_of_lt hlt) with
          | inl hlt => exact .inl hlt
          | inr heq => exact .inr ⟨heq, List.suffix_append ..⟩
  | inr hequal =>
      obtain ⟨heq, rest, hrest⟩ := hequal
      have hsuffix : s.2 ++ [x] <:+ last ++ [x] := ⟨rest, by rw [← List.append_assoc, hrest]⟩
      rw [extend, if_pos (hsub _ _ hsuffix.sublist hlast)]
      exact .inr ⟨heq, hsuffix⟩

/-- The greedy cut is ahead of any other. -/
theorem greedy_ahead (hone : ∀ x, fits [x])
    (hsub : ∀ xs ys : List α, xs.Sublist ys → fits ys → fits xs) {xs : List α}
    {front : List (List α)} {last : List α} (hcut : front.flatten ++ last = xs)
    (hfits : ∀ seg ∈ front ++ [last], seg ≠ [] ∧ fits seg) :
    Ahead (greedy fits xs) front.length last := by
  induction xs using List.reverseRecOn generalizing front last with
  | nil =>
      have hlast := (hfits last (by simp)).1
      exact absurd (List.append_eq_nil_iff.mp hcut).2 hlast
  | append_singleton xs x ih =>
      obtain ⟨hlast, hlastfits⟩ := hfits last (by simp)
      obtain ⟨last, y, rfl⟩ := (List.eq_nil_or_concat' last).resolve_left hlast
      rw [← List.append_assoc] at hcut
      obtain ⟨hflat, hxy⟩ := List.append_inj' hcut rfl
      obtain rfl := List.singleton_inj.mp hxy
      rw [greedy_concat]
      by_cases hbegin : last = []
      · -- the other cut begins a segment with `y`
        subst hbegin
        rw [List.append_nil] at hflat
        rcases List.eq_nil_or_concat' front with rfl | ⟨front, before, rfl⟩
        · obtain rfl : xs = [] := hflat.symm
          exact ahead_extend hsub (.inr ⟨rfl, List.suffix_refl _⟩) (hone y)
        · rw [List.flatten_append, List.flatten_singleton] at hflat
          have hahead := ih hflat fun seg hseg => hfits seg (List.mem_append_left _ hseg)
          rw [List.length_append]
          exact ahead_begin (hahead.elim Nat.le_of_lt fun h => h.1.le) y
      · -- it extends its last segment with `y`
        have hlast' : fits last := hsub _ _ (List.sublist_append_left ..) hlastfits
        have hahead := ih hflat fun seg hseg => by
          cases List.mem_append.mp hseg with
          | inl hseg => exact hfits seg (List.mem_append_left _ hseg)
          | inr hseg => exact List.mem_singleton.mp hseg ▸ ⟨hbegin, hlast'⟩
        exact ahead_extend hsub hahead hlastfits

/-- The greedy cut has the fewest segments. -/
theorem length_segments_le (hone : ∀ x, fits [x])
    (hsub : ∀ xs ys : List α, xs.Sublist ys → fits ys → fits xs) {xs : List α}
    {cut : List (List α)} (hcut : cut.flatten = xs) (hfits : ∀ seg ∈ cut, fits seg) :
    (segments fits xs).length ≤ cut.length := by
  by_cases hxs : xs = []
  · subst hxs
    exact Nat.zero_le _
  · have hnonempty : (cut.filter (· ≠ [])).flatten = xs := by
      rw [← hcut]
      exact List.flatten_filter_ne_nil
    have hle : (cut.filter (· ≠ [])).length ≤ cut.length := List.length_filter_le ..
    refine le_trans ?_ hle
    cases List.eq_nil_or_concat' (cut.filter (· ≠ [])) with
    | inl hnone =>
        rw [hnone] at hnonempty
        exact absurd hnonempty.symm hxs
    | inr hlast =>
        obtain ⟨front, last, hsplit⟩ := hlast
        rw [hsplit] at hnonempty ⊢
        rw [List.flatten_append, List.flatten_singleton] at hnonempty
        have hahead := greedy_ahead hone hsub hnonempty fun seg hseg => by
          rw [← hsplit] at hseg
          obtain ⟨hmem, hne⟩ := List.mem_filter.mp hseg
          exact ⟨of_decide_eq_true hne, hfits seg hmem⟩
        rw [segments, if_neg (open_ne_nil hxs), List.length_append, List.length_append]
        cases hahead with
        | inl hlt => exact Nat.add_le_add_right hlt.le 1
        | inr hequal => exact Nat.add_le_add_right hequal.1.le 1

end Maple.Lib
