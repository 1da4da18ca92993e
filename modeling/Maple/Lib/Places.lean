import Mathlib.Data.List.Induction
import Mathlib.Logic.Function.Basic
import Mathlib.Tactic.Choose
import Maple.Lib.Run

/-!
# Maple.Lib.Places

**A transition system of independent places.** Every place has a state of its own, and an
event moves all of them at once, or is refused by one. A run exists if and only if every
place on its own can follow the events, `exists_run_iff`.
-/

namespace Maple.Lib

variable {ι ε σ : Type*}

/-- An event moves every place. -/
def Each (move : ε → ι → σ → Option σ) (s : ι → σ) (e : ε) (t : ι → σ) : Prop :=
  ∀ i, move e i (s i) = some (t i)

/-- What a place does with a list of events. -/
def follow (move : ε → ι → σ → Option σ) (i : ι) (es : List ε) (x : σ) : Option σ :=
  es.foldlM (fun y e => move e i y) x

variable {move : ε → ι → σ → Option σ} {i : ι} {e : ε} {es : List ε} {x : σ}

@[simp] theorem follow_nil : follow move i [] x = some x := rfl

@[simp] theorem follow_cons :
    follow move i (e :: es) x = (move e i x).bind (follow move i es) :=
  List.foldlM_cons

theorem follow_snoc : follow move i (es ++ [e]) x = (follow move i es x).bind (move e i) := by
  simp [follow, List.foldlM_append]

theorem run_each_iff {s t : ι → σ} :
    Run (Each move) s es t ↔ ∀ i, follow move i es (s i) = some (t i) := by
  induction es using List.reverseRecOn generalizing t with
  | nil => simp [Run.nil_iff, funext_iff]
  | append_singleton es e ih =>
      simp only [Run.snoc_iff, ih, follow_snoc, Option.bind_eq_some_iff]
      constructor
      · rintro ⟨u, hrest, hlast⟩ i
        exact ⟨u i, hrest i, hlast i⟩
      · intro h
        choose u hrest hlast using h
        exact ⟨u, hrest, hlast⟩

theorem exists_run_iff {s : ι → σ} :
    (∃ t, Run (Each move) s es t) ↔ ∀ i, (follow move i es (s i)).isSome := by
  simp only [run_each_iff, Option.isSome_iff_exists]
  exact ⟨fun ⟨t, ht⟩ i => ⟨t i, ht i⟩, fun h => ⟨_, fun i => (h i).choose_spec⟩⟩

end Maple.Lib
