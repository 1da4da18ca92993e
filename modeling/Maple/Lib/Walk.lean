import Mathlib.Data.List.Count
import Maple.Lib.Kids

/-!
# Maple.Lib.Walk

**Walks down a forest with a work stack.** A turn takes a node off the stack, lists its
children, and puts them on the stack, the last one on top. The walk ends, and the nodes it
starts from and those it lists are together the nodes below them, each one as often as
there are nodes on the stack that it is below.
-/

namespace Maple.Lib

variable {α : Type*} {kids : α → List α}

/-- What is listed from a stack on. -/
inductive Walk (kids : α → List α) : List α → List α → Prop
  | done : Walk kids [] []
  | turn {t : α} {stack listed : List α} :
      Walk kids ((kids t).reverse ++ stack) listed → Walk kids (t :: stack) (kids t ++ listed)

/-- What is deeper in the stack waits. -/
theorem Walk.append {stack listed stack' listed' : List α} (h : Walk kids stack listed)
    (h' : Walk kids stack' listed') : Walk kids (stack ++ stack') (listed ++ listed') := by
  induction h with
  | done => exact h'
  | turn _ ih =>
      rw [List.append_assoc]
      refine .turn ?_
      rwa [List.append_assoc] at ih

/-- A walk down a forest ends. -/
theorem Kids.exists_walk (h : Kids kids) (stack : List α) : ∃ listed, Walk kids stack listed := by
  have hstack : ∀ stack : List α, (∀ t ∈ stack, ∃ listed, Walk kids [t] listed) →
      ∃ listed, Walk kids stack listed := by
    intro stack hstack
    induction stack with
    | nil => exact ⟨[], .done⟩
    | cons t stack ih =>
        obtain ⟨first, hfirst⟩ := hstack t (List.mem_cons_self ..)
        obtain ⟨rest, hrest⟩ := ih fun t' ht' => hstack t' (List.mem_cons_of_mem t ht')
        exact ⟨_, hfirst.append hrest⟩
  refine hstack stack fun t _ => h.induction (motive := fun t => ∃ listed, Walk kids [t] listed)
    (fun e he => ?_) t
  obtain ⟨listed, hlisted⟩ := hstack (kids e).reverse fun c hc => he c (List.mem_reverse.mp hc)
  exact ⟨_, .turn (by rwa [List.append_nil])⟩

variable [DecidableEq α]

open Classical in
/-- A node is below one child at most, and not below its own children. -/
theorem Kids.count_below (h : Kids kids) (t x : α) :
    [t].count x + (kids t).countP (fun c => Below kids c x) =
      [t].countP fun c => Below kids c x := by
  by_cases hself : t = x
  · subst hself
    have hnone : (kids t).countP (fun c => Below kids c t) = 0 :=
      List.countP_eq_zero.mpr fun c hc => by simpa using h.not_below_parent hc
    have hrefl : Below kids t t := Relation.ReflTransGen.refl
    simp [hnone, hrefl]
  · have hcount : [t].count x = 0 := List.count_eq_zero.mpr (by simpa using Ne.symm hself)
    rw [hcount, Nat.zero_add]
    by_cases hbelow : Below kids t x
    · obtain ⟨c, hc, hcx⟩ := (below_iff_child.mp hbelow).resolve_left (Ne.symm hself)
      have hone : (kids t).countP (fun d => Below kids d x) = (kids t).count c := by
        refine List.countP_congr fun d hd => ?_
        simp only [decide_eq_true_eq, beq_iff_eq]
        constructor
        · intro hdx
          by_contra hne
          exact h.siblings_disjoint hd hc hne hdx hcx
        · exact fun heq => heq ▸ hcx
      rw [hone, List.count_eq_one_of_mem (h.nodup t) hc]
      simp [hbelow]
    · have hnone : (kids t).countP (fun c => Below kids c x) = 0 :=
        List.countP_eq_zero.mpr fun c hc hcx =>
          hbelow (below_iff_child.mpr (.inr ⟨c, hc, of_decide_eq_true hcx⟩))
      simp [hnone, hbelow]

open Classical in
/-- **The nodes of a walk.** -/
theorem Walk.count (h : Kids kids) {stack listed : List α} (hwalk : Walk kids stack listed)
    (x : α) : (stack ++ listed).count x = stack.countP fun t => Below kids t x := by
  induction hwalk with
  | done => rfl
  | @turn t stack listed _ ih =>
      rw [List.count_append, List.count_append, List.countP_append, List.count_reverse,
        List.countP_reverse] at ih
      have ht := h.count_below t x
      rw [List.count_append, ← List.singleton_append, List.count_append, List.count_append,
        List.countP_append]
      omega

end Maple.Lib
