import Maple.Lib.Fuel

/-!
# Maple.Lib.ForLoop

**`for` loops with a counter**, of any type and with any condition: the loop advances the
counter until the condition fails. A loop that counts from the image of zero to the image of
`n` takes its state from `s 0` to `s n`.
-/

namespace Maple.Lib

variable {ι σ : Type*}

/-- `for (i = start; continues(i); i = next(i)) state = body(i, state);` -/
def forLoop (next : ι → ι) (continues : ι → Bool) (body : ι → σ → Nat → Option σ) :
    Nat → ι → σ → Option σ
  | 0, _, _ => none
  | fuel + 1, i, state =>
    if continues i then
      (body i state fuel).bind (forLoop next continues body fuel (next i))
    else some state

/-- **The rule for `forLoop`.** -/
theorem forLoop_settles (next : ι → ι) (continues : ι → Bool) (body : ι → σ → Nat → Option σ)
    {n : Nat} (counter : Nat → ι) (s : Nat → σ)
    (hnext : ∀ k < n, next (counter k) = counter (k + 1))
    (hcontinues : ∀ k ≤ n, continues (counter k) = decide (k < n))
    (hbody : ∀ k < n, Settles (body (counter k) (s k)) (some (s (k + 1)))) :
    Settles (fun fuel => forLoop next continues body fuel (counter 0) (s 0)) (some (s n)) := by
  -- from any turn on, by induction on the turns to come
  have hrest : ∀ rest k, k + rest = n →
      Settles (fun fuel => forLoop next continues body fuel (counter k) (s k)) (some (s n)) := by
    intro rest
    induction rest with
    | zero =>
        intro k hk
        refine .of_add 1 fun fuel => ?_
        rw [forLoop, hcontinues k (by omega), decide_eq_false (by omega)]
        exact congrArg (fun k => some (s k)) hk
    | succ rest ih =>
        intro k hk
        have hturn := (hbody k (by omega)).option_bind
          (g := fun state fuel => forLoop next continues body fuel (counter (k + 1)) state)
          (ih (k + 1) (by omega))
        refine Settles.of_succ (hturn.congr fun fuel => ?_)
        rw [forLoop, hcontinues k (by omega), decide_eq_true (by omega), if_pos rfl,
          hnext k (by omega)]
  exact hrest n 0 (Nat.zero_add n)

end Maple.Lib
