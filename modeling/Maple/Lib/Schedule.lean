import Maple.Lib.Run

/-!
# Maple.Lib.Schedule

**When a partial machine runs.** A machine that refuses some actions is followed by an
abstract state that every action moves. If that state says which actions are refused, then
the machine runs through a list of them if and only if the abstract state allows each one
in turn, `exists_run_iff_lawful`.
-/

namespace Maple.Lib

variable {σ τ α : Type*}

/-- Every action is allowed in the state that the ones before it lead to. -/
def Lawful (Allowed : τ → α → Prop) (next : τ → α → τ) : τ → List α → Prop
  | _, [] => True
  | t, a :: as => Allowed t a ∧ Lawful Allowed next (next t a) as

variable {Allowed : τ → α → Prop} {next : τ → α → τ} {t : τ} {a : α} {as bs : List α}

@[simp] theorem lawful_nil : Lawful Allowed next t [] := trivial

@[simp] theorem lawful_cons :
    Lawful Allowed next t (a :: as) ↔ Allowed t a ∧ Lawful Allowed next (next t a) as :=
  Iff.rfl

theorem lawful_append :
    Lawful Allowed next t (as ++ bs) ↔
      Lawful Allowed next t as ∧ Lawful Allowed next (as.foldl next t) bs := by
  induction as generalizing t with
  | nil => simp
  | cons a as ih => simp [ih, and_assoc]

section Simulation

variable {step : σ → α → σ → Prop} {R : σ → τ → Prop} {s u : σ}

theorem Run.sim (hsim : ∀ s t a u, R s t → step s a u → R u (next t a)) (h : R s t)
    (hrun : Run step s as u) : R u (as.foldl next t) := by
  induction hrun with
  | nil => exact h
  | snoc _ hlast ih => simpa using hsim _ _ _ _ ih hlast

theorem exists_run_iff_lawful (hstep : ∀ s t a, R s t → ((∃ u, step s a u) ↔ Allowed t a))
    (hsim : ∀ s t a u, R s t → step s a u → R u (next t a)) (h : R s t) :
    (∃ u, Run step s as u) ↔ Lawful Allowed next t as := by
  induction as using List.reverseRecOn with
  | nil => simp [Run.nil_iff]
  | append_singleton as a ih =>
      rw [lawful_append, lawful_cons, ← ih]
      simp only [lawful_nil, and_true, Run.snoc_iff]
      constructor
      · rintro ⟨v, u, hrun, hlast⟩
        exact ⟨⟨u, hrun⟩, (hstep _ _ _ (hrun.sim hsim h)).mp ⟨v, hlast⟩⟩
      · rintro ⟨⟨u, hrun⟩, hallowed⟩
        obtain ⟨v, hlast⟩ := (hstep _ _ _ (hrun.sim hsim h)).mpr hallowed
        exact ⟨v, u, hrun, hlast⟩

end Simulation

end Maple.Lib
