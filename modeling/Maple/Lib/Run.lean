import Mathlib.Data.List.Basic
import Mathlib.Data.List.Induction

/-!
# Maple.Lib.Run

**Finite runs of a labelled transition relation.** `Run step s as t` says that
the actions `as`, in this order, lead from `s` to `t`. The history is part of
the judgement, so an invariant may speak about it (`Run.invariant`).
-/

namespace Maple.Lib

variable {σ α : Type*}

/-- The run of a list of actions. -/
inductive Run (step : σ → α → σ → Prop) : σ → List α → σ → Prop
  | nil (s : σ) : Run step s [] s
  | snoc {s t u : σ} {as : List α} {a : α} :
      Run step s as t → step t a u → Run step s (as ++ [a]) u

namespace Run

variable {step : σ → α → σ → Prop}

/-- A property of history and state that holds at the start and that every step
keeps holds at the end of every run. -/
theorem invariant {I : List α → σ → Prop} {s t : σ} {as : List α} (hrun : Run step s as t)
    (hinit : I [] s) (hstep : ∀ as t a u, I as t → step t a u → I (as ++ [a]) u) : I as t := by
  induction hrun with
  | nil => exact hinit
  | snoc _ hlast ih => exact hstep _ _ _ _ ih hlast

/-- The history-free form of `Run.invariant`. -/
theorem state_invariant {I : σ → Prop} {s t : σ} {as : List α} (hrun : Run step s as t)
    (hinit : I s) (hstep : ∀ t a u, I t → step t a u → I u) : I t :=
  hrun.invariant (I := fun _ => I) hinit fun _ t a u => hstep t a u

theorem nil_iff {s t : σ} : Run step s [] t ↔ s = t := by
  refine ⟨fun h => ?_, fun heq => heq ▸ .nil s⟩
  generalize hnil : ([] : List α) = as at h
  cases h with
  | nil => rfl
  | snoc _ _ => exact absurd hnil (by simp)

theorem snoc_iff {s u : σ} {as : List α} {a : α} :
    Run step s (as ++ [a]) u ↔ ∃ t, Run step s as t ∧ step t a u := by
  refine ⟨fun h => ?_, fun ⟨_, hrest, hlast⟩ => hrest.snoc hlast⟩
  generalize hsnoc : as ++ [a] = bs at h
  cases h with
  | nil => exact absurd hsnoc (by simp)
  | snoc hrest hlast =>
      obtain ⟨rfl, heq⟩ := List.append_inj' hsnoc rfl
      obtain rfl := List.singleton_inj.mp heq
      exact ⟨_, hrest, hlast⟩

/-- A run of a concatenation passes through a state in between. -/
theorem append_iff {s u : σ} {as bs : List α} :
    Run step s (as ++ bs) u ↔ ∃ t, Run step s as t ∧ Run step t bs u := by
  induction bs using List.reverseRecOn generalizing u with
  | nil => simp [nil_iff]
  | append_singleton bs b ih =>
      rw [← List.append_assoc, snoc_iff]
      simp only [ih, snoc_iff]
      exact ⟨fun ⟨t, ⟨t', h₁, h₂⟩, h₃⟩ => ⟨t', h₁, t, h₂, h₃⟩,
        fun ⟨t', h₁, t, h₂, h₃⟩ => ⟨t, ⟨t', h₁, h₂⟩, h₃⟩⟩

/-- If steps are deterministic, so are runs. -/
theorem unique (hdet : ∀ s a t t', step s a t → step s a t' → t = t') {s t t' : σ}
    {as : List α} (h : Run step s as t) (h' : Run step s as t') : t = t' := by
  induction h generalizing t' with
  | nil => exact nil_iff.mp h'
  | snoc _ hlast ih =>
      obtain ⟨t₁, hrest', hlast'⟩ := snoc_iff.mp h'
      obtain rfl := ih hrest'
      exact hdet _ _ _ _ hlast hlast'

/-- The runs of a partial function are its iterations. -/
theorem partial_iff {f : σ → α → Option σ} {s t : σ} {as : List α} :
    Run (fun s a t => f s a = some t) s as t ↔ as.foldlM f s = some t := by
  induction as using List.reverseRecOn generalizing t with
  | nil => simp [nil_iff]
  | append_singleton as a ih => simp [snoc_iff, ih, Option.bind_eq_some_iff]

/-- A run of a relation is a run of every larger one. -/
theorem mono {step' : σ → α → σ → Prop} (hsub : ∀ s a t, step s a t → step' s a t) {s t : σ}
    {as : List α} (hrun : Run step s as t) : Run step' s as t := by
  induction hrun with
  | nil => exact Run.nil _
  | snoc _ hlast ih => exact Run.snoc ih (hsub _ _ _ hlast)

/-- Where every state that is not done has a step, and every step makes the state
smaller, a run can be continued until it is done. -/
theorem reaches {I done : σ → Prop} (size : σ → Nat)
    (hprogress : ∀ t, I t → ¬ done t → ∃ a u, step t a u)
    (hsmaller : ∀ t a u, I t → step t a u → I u ∧ size u < size t) {s t : σ} {as : List α}
    (hrun : Run step s as t) (ht : I t) : ∃ bs u, Run step s bs u ∧ I u ∧ done u := by
  induction hsize : size t using Nat.strongRecOn generalizing t as with
  | ind n ih =>
    by_cases hdone : done t
    · exact ⟨as, t, hrun, ht, hdone⟩
    · obtain ⟨a, u, hstep⟩ := hprogress t ht hdone
      obtain ⟨hu, hlt⟩ := hsmaller t a u ht hstep
      exact ih (size u) (hsize ▸ hlt) (hrun.snoc hstep) hu rfl

end Run

end Maple.Lib
