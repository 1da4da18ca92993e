import Mathlib.Data.List.Induction
import Mathlib.Data.List.Pairwise

/-!
# Maple.Lib.Interning

**Values kept once each, in the order in which they first occur.** This is
`List.eraseDups`, for any equality that is an equivalence; `number l a` is the place at
which the value `a` of `l` is kept. What is appended to `l` later does not change it.
-/

namespace Maple.Lib

variable {α : Type*} [BEq α] {l : List α} {a b c : α}

/-- The place of a value among those kept. -/
def number (l : List α) (a : α) : Nat := l.eraseDups.findIdx (· == a)

variable [EquivBEq α]

theorem any_filter_ne (hne : ¬ c == a) :
    (l.filter fun b => !b == a).any (· == c) = l.any (· == c) := by
  rw [List.any_filter]
  refine congrArg l.any (funext fun b => ?_)
  cases hb : b == c with
  | false => rw [Bool.and_false]
  | true =>
      have hba : (b == a) = false := by
        by_contra h
        exact hne (BEq.trans (BEq.symm hb) (Bool.of_not_eq_false h))
      rw [hba]
      rfl

/-- One more value is kept if no value before is equal to it. -/
theorem eraseDups_concat (l : List α) (c : α) :
    (l ++ [c]).eraseDups = if l.any (· == c) then l.eraseDups else l.eraseDups ++ [c] := by
  induction hlength : l.length using Nat.strongRecOn generalizing l with
  | _ n ih =>
      cases l with
      | nil => rfl
      | cons a l =>
          have hshort : (l.filter fun b => !b == a).length < n := by
            rw [← hlength]
            exact Nat.lt_succ_of_le (List.length_filter_le ..)
          rw [List.cons_append, List.eraseDups_cons, List.filter_append, List.any_cons]
          cases hc : c == a with
          | true =>
              rw [BEq.symm hc, Bool.true_or, if_pos rfl, List.eraseDups_cons]
              simp [hc]
          | false =>
              have hac : (a == c) = false := by rw [BEq.comm, hc]
              have hkept : ([c].filter fun b => !b == a) = [c] := by simp [hc]
              rw [hkept, ih _ hshort _ rfl, any_filter_ne (by simp [hc]), hac, Bool.false_or,
                List.eraseDups_cons]
              split
              next => rfl
              next => rfl

theorem eraseDups_prefix_concat (l : List α) (c : α) : l.eraseDups <+: (l ++ [c]).eraseDups := by
  rw [eraseDups_concat]
  split
  next => exact List.prefix_refl _
  next => exact List.prefix_append ..

theorem length_eraseDups_le (l : List α) : l.eraseDups.length ≤ l.length := by
  induction l using List.reverseRecOn with
  | nil => exact Nat.le_refl 0
  | append_singleton l c ih =>
      rw [eraseDups_concat, List.length_append]
      split
      next => exact Nat.le_trans ih (Nat.le_add_right ..)
      next =>
          rw [List.length_append]
          exact Nat.add_le_add_right ih 1

/-- Every value has an equal one among those kept. -/
theorem any_eraseDups (l : List α) (a : α) : l.eraseDups.any (· == a) = l.any (· == a) := by
  induction l using List.reverseRecOn with
  | nil => rfl
  | append_singleton l c ih =>
      rw [eraseDups_concat, List.any_append]
      split
      next hany =>
          rw [ih, List.any_cons, List.any_nil, Bool.or_false]
          cases hc : c == a with
          | false => rw [Bool.or_false]
          | true =>
              obtain ⟨b, hb, hbc⟩ := List.any_eq_true.mp hany
              rw [Bool.or_true, List.any_eq_true]
              exact ⟨b, hb, BEq.trans hbc hc⟩
      next => rw [List.any_append, ih]

/-- No two of the values kept are equal. -/
theorem pairwise_eraseDups (l : List α) : l.eraseDups.Pairwise fun a b => ¬ a == b := by
  induction l using List.reverseRecOn with
  | nil => exact .nil
  | append_singleton l c ih =>
      rw [eraseDups_concat]
      split
      next => exact ih
      next hany =>
          refine List.pairwise_append.mpr ⟨ih, List.pairwise_singleton .., fun b hb d hd heq => ?_⟩
          obtain rfl := List.mem_singleton.mp hd
          rw [← any_eraseDups] at hany
          exact hany (List.any_eq_true.mpr ⟨b, hb, heq⟩)

/-- Where no two values are equal, all of them are kept. -/
theorem eraseDups_eq_self (h : l.Pairwise fun a b => ¬ a == b) : l.eraseDups = l := by
  induction l with
  | nil => rfl
  | cons a l ih =>
      obtain ⟨hhead, htail⟩ := List.pairwise_cons.mp h
      have hfilter : l.filter (fun b => !b == a) = l :=
        List.filter_eq_self.mpr fun b hb => by simpa [BEq.comm] using hhead b hb
      rw [List.eraseDups_cons, hfilter, ih htail]

theorem mem_of_mem_eraseDups (h : b ∈ l.eraseDups) : b ∈ l := by
  induction l using List.reverseRecOn with
  | nil => exact h
  | append_singleton l c ih =>
      rw [eraseDups_concat] at h
      split at h
      next => exact List.mem_append_left _ (ih h)
      next =>
          cases List.mem_append.mp h with
          | inl h => exact List.mem_append_left _ (ih h)
          | inr h => exact List.mem_append_right _ h

theorem any_concat (h : l.any (· == c)) : (l ++ [c]).any (· == a) = l.any (· == a) := by
  rw [← any_eraseDups, eraseDups_concat, if_pos h, any_eraseDups]

/-! ### Places -/

theorem number_congr (h : a == b) : number l a = number l b :=
  congrArg l.eraseDups.findIdx (funext fun _ => BEq.congr_right h)

theorem number_lt (h : l.any (· == a)) : number l a < l.eraseDups.length := by
  rw [← any_eraseDups] at h
  exact List.findIdx_lt_length_of_exists (List.any_eq_true.mp h)

/-- The value at the place is equal. -/
theorem exists_getElem_number (h : l.any (· == a)) :
    ∃ b, l.eraseDups[number l a]? = some b ∧ b == a := by
  have hlt := number_lt h
  exact ⟨_, List.getElem?_eq_getElem hlt, List.findIdx_getElem (w := hlt)⟩

theorem number_concat (h : l.any (· == a)) : number (l ++ [c]) a = number l a :=
  (eraseDups_prefix_concat l c).findIdx_eq_of_findIdx_lt_length (number_lt h)

/-- A new value gets the next place. -/
theorem number_concat_self (h : ¬ l.any (· == c)) : number (l ++ [c]) c = l.eraseDups.length := by
  rw [number, eraseDups_concat, if_neg h, List.findIdx_append, if_neg, List.findIdx_singleton,
    if_pos BEq.rfl, Nat.zero_add]
  rw [← any_eraseDups] at h
  exact fun hlt => h (List.any_eq_true.mpr (List.findIdx_lt_length.mp hlt))

/-- Every place is the place of the value kept there. -/
theorem number_getElem {k : Nat} (hk : k < l.eraseDups.length) : number l l.eraseDups[k] = k := by
  refine (List.findIdx_eq hk).mpr ⟨BEq.rfl, fun j hj => Bool.eq_false_iff.mpr ?_⟩
  exact List.pairwise_iff_getElem.mp (pairwise_eraseDups l) j k (Nat.lt_trans hj hk) hk hj

end Maple.Lib
