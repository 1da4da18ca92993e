import Mathlib.Data.List.Induction

/-!
# Maple.Lib.Since

**What held of a history since something happened.** `Since P Q as` says that some action of
`as` was one that `P` asks for, given the history before it, and that `Q` holds of all
actions after it. The last action decides how it goes on, `since_snoc`.
-/

namespace Maple.Lib

variable {α : Type*} {P : List α → α → Prop} {Q : α → Prop} {as : List α} {a : α}

/-- The past operator of temporal logic. -/
def Since (P : List α → α → Prop) (Q : α → Prop) (as : List α) : Prop :=
  ∃ before a after, as = before ++ a :: after ∧ P before a ∧ ∀ b ∈ after, Q b

@[simp] theorem not_since_nil : ¬ Since P Q [] := by
  rintro ⟨before, a, after, heq, -⟩
  simp at heq

theorem since_snoc : Since P Q (as ++ [a]) ↔ P as a ∨ Q a ∧ Since P Q as := by
  constructor
  · rintro ⟨before, b, after, heq, hb, hafter⟩
    cases after using List.reverseRecOn with
    | nil =>
        obtain ⟨rfl, hlast⟩ := List.append_inj' heq rfl
        exact .inl (List.singleton_inj.mp hlast ▸ hb)
    | append_singleton after c =>
        rw [← List.cons_append, ← List.append_assoc] at heq
        obtain ⟨rfl, hlast⟩ := List.append_inj' heq rfl
        obtain rfl := List.singleton_inj.mp hlast
        exact .inr ⟨hafter a (by simp), before, b, after, rfl, hb,
          fun d hd => hafter d (by simp [hd])⟩
  · rintro (ha | ⟨ha, before, b, after, rfl, hb, hafter⟩)
    · exact ⟨as, a, [], rfl, ha, by simp⟩
    · refine ⟨before, b, after ++ [a], by simp, hb, fun d hd => ?_⟩
      rcases List.mem_append.mp hd with h | h
      · exact hafter d h
      · exact List.mem_singleton.mp h ▸ ha

end Maple.Lib
