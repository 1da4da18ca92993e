import Mathlib.Data.List.Forall2
import Mathlib.Order.Defs.LinearOrder

/-!
# Maple.Lib.Fuel

**Loops as fuel-indexed computations.** A `while` loop or an unbounded recursion
is modelled by a function of a fuel argument. Its result is the value it
*settles* at: the value it has for every sufficiently large fuel. A loop that
does not terminate settles at the out-of-fuel outcome for no amount of fuel, so
`Settles f (some a)` says at once that the loop ends and what it ends with.

The rules below compose settled computations; none of them needs to know that
the computation is monotone in its fuel.
-/

namespace Maple.Lib

variable {α β ε : Type*}

/-- `f` has the value `b` for every sufficiently large fuel. -/
def Settles (f : Nat → β) (b : β) : Prop := ∃ N, ∀ n, N ≤ n → f n = b

/-- A fallible sequence that succeeds has succeeded in both parts. -/
theorem bind_eq_ok {o : Except ε α} {f : α → Except ε β} {b : β} (h : o.bind f = .ok b) :
    ∃ a, o = .ok a ∧ f a = .ok b := by
  cases o with
  | error e => exact absurd h nofun
  | ok a => exact ⟨a, rfl, h⟩

theorem map_eq_ok {o : Except ε α} {f : α → β} {b : β} (h : o.map f = .ok b) :
    ∃ a, o = .ok a ∧ f a = b := by
  cases o with
  | error e => exact absurd h nofun
  | ok a => exact ⟨a, rfl, Except.ok.inj h⟩

theorem mapError_eq_ok {ε' : Type*} {o : Except ε α} {f : ε → ε'} {a : α} :
    o.mapError f = .ok a ↔ o = .ok a := by
  cases o with
  | error e => exact iff_of_false nofun nofun
  | ok b => exact ⟨fun h => congrArg _ (Except.ok.inj h), fun h => congrArg _ (Except.ok.inj h)⟩

/-- The same for sequences that pass a state on. -/
theorem stateT_bind_eq_ok {σ α β : Type _} {x : StateT σ (Except ε) α}
    {f : α → StateT σ (Except ε) β} {s : σ} {r : β × σ} (h : (x >>= f) s = .ok r) :
    ∃ a s₁, x s = .ok (a, s₁) ∧ f a s₁ = .ok r := by
  obtain ⟨⟨a, s₁⟩, hx, hf⟩ := bind_eq_ok (h : Except.bind (x s) (fun p => f p.1 p.2) = _)
  exact ⟨a, s₁, hx, hf⟩

/-- A fallible sequence succeeds if both parts do. -/
theorem exists_bind_ok {α β : Type _} {o : Except ε α} {f : α → Except ε β} :
    (∃ b, o >>= f = .ok b) ↔ ∃ a, o = .ok a ∧ ∃ b, f a = .ok b := by
  constructor
  · intro h
    obtain ⟨b, hb⟩ := h
    obtain ⟨a, ha, hfa⟩ := bind_eq_ok (hb : Except.bind _ _ = _)
    exact ⟨a, ha, b, hfa⟩
  · intro h
    obtain ⟨a, rfl, b, hb⟩ := h
    exact ⟨b, hb⟩

theorem exists_pure_ok (a : α) : ∃ b, (pure a : Except ε α) = .ok b := ⟨a, rfl⟩

/-- A fallible map succeeds if no step fails. -/
theorem exists_mapM_ok {f : α → Except ε β} {l : List α} :
    (∃ bs, l.mapM f = .ok bs) ↔ ∀ a ∈ l, ∃ b, f a = .ok b := by
  induction l with
  | nil => exact iff_of_true ⟨[], rfl⟩ nofun
  | cons a as ih =>
      rw [List.mapM_cons, exists_bind_ok, List.forall_mem_cons, ← ih]
      constructor
      · intro h
        obtain ⟨b, hb, hrest⟩ := h
        obtain ⟨bs, hbs, -⟩ := exists_bind_ok.mp hrest
        exact ⟨⟨b, hb⟩, bs, hbs⟩
      · intro h
        obtain ⟨⟨b, hb⟩, bs, hbs⟩ := h
        exact ⟨b, hb, exists_bind_ok.mpr ⟨bs, hbs, _, rfl⟩⟩

theorem forall₂_of_mapM {α β : Type _} {f : α → Except ε β} {l : List α} {bs : List β}
    (h : l.mapM f = .ok bs) : List.Forall₂ (fun a b => f a = .ok b) l bs := by
  induction l generalizing bs with
  | nil => exact Except.ok.inj h ▸ .nil
  | cons a as ih =>
      rw [List.mapM_cons] at h
      obtain ⟨b, hb, h⟩ := bind_eq_ok (h : Except.bind _ _ = _)
      obtain ⟨rest, hrest, h⟩ := bind_eq_ok (h : Except.bind _ _ = _)
      exact Except.ok.inj h ▸ .cons hb (ih hrest)

/-- A fallible map none of whose steps fails. -/
theorem mapM_eq_ok {f : α → Except ε β} {g : α → β} {l : List α}
    (h : ∀ a ∈ l, f a = .ok (g a)) : l.mapM f = .ok (l.map g) := by
  induction l with
  | nil => rfl
  | cons a as ih =>
      rw [List.mapM_cons, h a (List.mem_cons_self ..),
        ih fun a' ha' => h a' (List.mem_cons_of_mem a ha')]
      rfl

/-- The first turn of a loop. -/
theorem foldlM_cons_ok {σ : Type*} {f : σ → α → Except ε σ} {a : α} {as : List α} {s s' : σ}
    (h : f s a = .ok s') : (a :: as).foldlM f s = as.foldlM f s' := by
  rw [List.foldlM_cons, h]
  rfl

theorem foldlM_cons_error {σ : Type*} {f : σ → α → Except ε σ} {a : α} {as : List α} {s : σ}
    {e : ε} (h : f s a = .error e) : (a :: as).foldlM f s = .error e := by
  rw [List.foldlM_cons, h]
  rfl

/-- A loop whose turns keep a value has kept it when it succeeds. -/
theorem foldlM_keeps {σ γ : Type*} {f : σ → α → Except ε σ} {g : σ → γ}
    (hf : ∀ {s a s'}, f s a = .ok s' → g s' = g s) {l : List α} {s s' : σ}
    (h : l.foldlM f s = .ok s') : g s' = g s := by
  induction l generalizing s with
  | nil =>
      obtain rfl := Except.ok.inj h
      rfl
  | cons a as ih =>
      obtain ⟨s₁, hfirst, hrest⟩ := bind_eq_ok (h : Except.bind _ _ = _)
      exact (ih hrest).trans (hf hfirst)

/-- `o'` succeeds wherever `o` does, and with the same result. -/
def SucceedsAs (o' o : Except ε α) : Prop := ∀ a, o = .ok a → o' = .ok a

namespace SucceedsAs

theorem refl (o : Except ε α) : SucceedsAs o o := fun _ h => h

theorem bind {o o' : Except ε α} {f f' : α → Except ε β} (h : SucceedsAs o' o)
    (hf : ∀ a, SucceedsAs (f' a) (f a)) : SucceedsAs (o'.bind f') (o.bind f) := by
  intro b hb
  obtain ⟨a, ha, hfa⟩ := bind_eq_ok hb
  rw [h a ha]
  exact hf a b hfa

theorem map {o o' : Except ε α} (h : SucceedsAs o' o) (f : α → β) :
    SucceedsAs (o'.map f) (o.map f) := by
  intro b hb
  obtain ⟨a, ha, rfl⟩ := map_eq_ok hb
  rw [h a ha]
  rfl

theorem foldlM {σ : Type*} {f f' : σ → α → Except ε σ} (hf : ∀ s a, SucceedsAs (f' s a) (f s a))
    (l : List α) (s : σ) : SucceedsAs (l.foldlM f' s) (l.foldlM f s) := by
  induction l generalizing s with
  | nil => exact refl _
  | cons a as ih => exact bind (hf s a) ih

end SucceedsAs

namespace Settles

theorem of_forall {f : Nat → β} {b : β} (h : ∀ n, f n = b) : Settles f b := ⟨0, fun n _ => h n⟩

/-- A computation settles at no more than one value. -/
theorem unique {f : Nat → β} {b c : β} (hb : Settles f b) (hc : Settles f c) : b = c := by
  obtain ⟨N, hN⟩ := hb
  obtain ⟨M, hM⟩ := hc
  rw [← hN (N + M) (by omega), hM (N + M) (by omega)]

theorem congr {f g : Nat → β} {b : β} (hf : Settles f b) (hfg : ∀ n, g n = f n) :
    Settles g b := by
  obtain ⟨N, hN⟩ := hf
  exact ⟨N, fun n hn => (hfg n).trans (hN n hn)⟩

/-- One unit of fuel spent on unfolding a recursion does not change the result. -/
theorem of_succ {f : Nat → β} {b : β} (h : Settles (fun n => f (n + 1)) b) : Settles f b := by
  obtain ⟨N, hN⟩ := h
  refine ⟨N + 1, fun n hn => ?_⟩
  obtain ⟨m, rfl⟩ : ∃ m, n = m + 1 := ⟨n - 1, by omega⟩
  exact hN m (by omega)

/-- A computation that has finished with `k` units of fuel to spare, whatever the
rest. -/
theorem of_add {f : Nat → β} {b : β} (k : Nat) (h : ∀ n, f (n + k) = b) : Settles f b := by
  refine ⟨k, fun n hn => ?_⟩
  obtain ⟨m, rfl⟩ : ∃ m, n = m + k := ⟨n - k, by omega⟩
  exact h m

theorem comp {γ : Type*} {f : Nat → β} {b : β} (h : Settles f b) (g : β → γ) :
    Settles (fun n => g (f n)) (g b) := by
  obtain ⟨N, hN⟩ := h
  exact ⟨N, fun n hn => congrArg g (hN n hn)⟩

/-- Use the settled value of `f` inside a computation that goes on with it. -/
theorem bind {γ : Type*} {f : Nat → β} {b : β} {g : β → Nat → γ} {c : γ} (hf : Settles f b)
    (hg : Settles (g b) c) : Settles (fun n => g (f n) n) c := by
  obtain ⟨N, hN⟩ := hf
  obtain ⟨M, hM⟩ := hg
  refine ⟨N + M, fun n hn => ?_⟩
  show g (f n) n = c
  rw [hN n (by omega), hM n (by omega)]

/-- `bind` for computations that may run out of fuel. -/
theorem option_bind {f : Nat → Option α} {a : α} {g : α → Nat → Option β} {b : Option β}
    (hf : Settles f (some a)) (hg : Settles (g a) b) :
    Settles (fun n => (f n).bind fun x => g x n) b :=
  bind (g := fun o n => o.bind fun x => g x n) hf hg

/-- `bind` for computations that may fail in other ways as well. -/
theorem except_bind {f : Nat → Except ε α} {a : α} {g : α → Nat → Except ε β} {b : Except ε β}
    (hf : Settles f (.ok a)) (hg : Settles (g a) b) :
    Settles (fun n => (f n).bind fun x => g x n) b :=
  bind (g := fun o n => o.bind fun x => g x n) hf hg

/-- A computation that succeeds wherever another one does settles at its result. -/
theorem succeedsAs {f f' : Nat → Except ε α} {a : α} (hf : Settles f (.ok a))
    (h : ∀ n, SucceedsAs (f' n) (f n)) : Settles f' (.ok a) := by
  obtain ⟨N, hN⟩ := hf
  exact ⟨N, fun n hn => h n a (hN n hn)⟩

/-- **The rule for `foldlM`**: `I` relates the elements still to come to the
state. -/
theorem foldlM {σ : Type*} {f : Nat → σ → α → Except ε σ} {I : List α → σ → Prop}
    (hstep : ∀ a as s, I (a :: as) s → ∃ s', Settles (fun n => f n s a) (.ok s') ∧ I as s')
    {l : List α} {s : σ} (h : I l s) :
    ∃ s', Settles (fun n => l.foldlM (f n) s) (.ok s') ∧ I [] s' := by
  induction l generalizing s with
  | nil => exact ⟨s, of_forall fun _ => rfl, h⟩
  | cons a as ih =>
      obtain ⟨s₁, hrun, h₁⟩ := hstep a as s h
      obtain ⟨s', hrest, h'⟩ := ih h₁
      exact ⟨s', hrun.except_bind (g := fun s n => as.foldlM (f n) s) hrest, h'⟩

end Settles

end Maple.Lib
