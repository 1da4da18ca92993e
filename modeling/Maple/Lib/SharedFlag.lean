import Mathlib.Data.List.Induction
import Mathlib.Logic.Function.Basic

/-!
# Maple.Lib.SharedFlag

**One flag for several readers.** Each reader keeps a copy of a value. A change of the value
raises a flag, and a reader copies the value again when the flag is up, or if it has no copy
yet; then it lowers the flag, for all of them.

When one reader is the first in every round, its copy is the value of the last round that
it was in, `seen_first`, and the copy of another reader is the value of the first round that
that one was in, `seen_other`.
-/

namespace Maple.Lib

variable {V P : Type*}

structure Shared (V P : Type*) where
  value : V
  changed : Bool
  seen : P → Option V

/-- The changes of a round, and then its readers. -/
structure Round (V P : Type*) where
  changes : List (V → V)
  readers : List P

/-- A round without readers, or one of which a reader is the first. -/
def Round.Led (first : P) (r : Round V P) : Prop :=
  r.readers = [] ∨ ∃ others, r.readers = first :: others

namespace Shared

def fresh (value : V) : Shared V P := ⟨value, false, fun _ => none⟩

def change (s : Shared V P) (f : V → V) : Shared V P :=
  { s with value := f s.value, changed := true }

section Change

variable {s : Shared V P}

@[simp] theorem foldl_change_value (changes : List (V → V)) (s : Shared V P) :
    (changes.foldl change s).value = changes.foldl (fun value f => f value) s.value := by
  induction changes generalizing s with
  | nil => rfl
  | cons f changes ih => exact ih (s.change f)

@[simp] theorem foldl_change_seen (changes : List (V → V)) (s : Shared V P) :
    (changes.foldl change s).seen = s.seen := by
  induction changes generalizing s with
  | nil => rfl
  | cons f changes ih => exact ih (s.change f)

/-- A reader has a copy of the value, unless the flag is up. -/
def Watched (first : P) (s : Shared V P) : Prop :=
  s.seen first = none ∨ s.changed = true ∨ s.seen first = some s.value

theorem Watched.foldl_change {first : P} (hs : s.Watched first) (changes : List (V → V)) :
    (changes.foldl change s).Watched first := by
  cases changes using List.reverseRecOn with
  | nil => exact hs
  | append_singleton changes f => exact .inr (.inl (by simp [change]))

end Change

variable [DecidableEq P]

def read (s : Shared V P) (p : P) : Shared V P :=
  if (s.seen p).isNone || s.changed then
    { s with seen := Function.update s.seen p (some s.value), changed := false }
  else s

def round (s : Shared V P) (r : Round V P) : Shared V P :=
  r.readers.foldl read (r.changes.foldl change s)

variable {s : Shared V P} {first p q : P} {readers : List P} {r : Round V P}
  {before after rs : List (Round V P)}

/-! ### Reading -/

@[simp] theorem read_value (s : Shared V P) (p : P) : (s.read p).value = s.value := by
  unfold read
  split <;> rfl

@[simp] theorem read_changed (s : Shared V P) (p : P) : (s.read p).changed = false := by
  unfold read
  split
  next => rfl
  next h =>
    rw [Bool.or_eq_true, not_or] at h
    exact Bool.eq_false_iff.mpr h.2

theorem read_seen_of_ne (h : q ≠ p) : (s.read p).seen q = s.seen q := by
  unfold read
  split
  next => exact Function.update_of_ne h ..
  next => rfl

theorem read_seen_of_none (h : s.seen p = none) : (s.read p).seen p = some s.value := by
  simp [read, h]

theorem read_seen_of_changed (h : s.changed = true) : (s.read p).seen p = some s.value := by
  simp [read, h]

theorem read_of_not_changed (hseen : s.seen p ≠ none) (h : s.changed = false) : s.read p = s := by
  have hsome : (s.seen p).isNone = false := by
    rw [Option.isNone_eq_false_iff, Option.isSome_iff_ne_none]
    exact hseen
  simp [read, hsome, h]

/-- Who has read has nothing more to read. -/
@[simp] theorem read_read (s : Shared V P) (p : P) : (s.read p).read p = s.read p := by
  refine read_of_not_changed (fun hnone => ?_) (read_changed s p)
  by_cases hseen : s.seen p = none
  · simp [read_seen_of_none hseen] at hnone
  · by_cases hchanged : s.changed = true
    · simp [read_seen_of_changed hchanged] at hnone
    · rw [read_of_not_changed hseen (by simpa using hchanged)] at hnone
      exact hseen hnone

theorem Watched.read (hs : s.Watched first) : (s.read first).seen first = some s.value := by
  by_cases hnone : s.seen first = none
  · exact read_seen_of_none hnone
  · by_cases hchanged : s.changed = true
    · exact read_seen_of_changed hchanged
    · rw [read_of_not_changed hnone (by simpa using hchanged)]
      exact (hs.resolve_left hnone).resolve_left hchanged

@[simp] theorem foldl_read_value (readers : List P) (s : Shared V P) :
    (readers.foldl read s).value = s.value := by
  induction readers generalizing s with
  | nil => rfl
  | cons p readers ih => rw [List.foldl_cons, ih, read_value]

theorem foldl_read_seen_of_not_mem (h : q ∉ readers) :
    (readers.foldl read s).seen q = s.seen q := by
  induction readers generalizing s with
  | nil => rfl
  | cons p readers ih =>
      rw [List.mem_cons, not_or] at h
      rw [List.foldl_cons, ih h.2, read_seen_of_ne h.1]

/-- Once the flag is down, a reader copies the value if it has no copy. -/
theorem foldl_read_seen (hmem : q ∈ readers) (hs : s.changed = false) :
    (readers.foldl read s).seen q = some ((s.seen q).getD s.value) := by
  induction readers generalizing s with
  | nil => exact absurd hmem List.not_mem_nil
  | cons p readers ih =>
      have hread : (s.read p).seen q = s.seen q ∨ (s.read p).seen q = some s.value ∧
          s.seen q = none := by
        by_cases hq : q = p
        · subst hq
          by_cases hnone : s.seen q = none
          · exact .inr ⟨read_seen_of_none hnone, hnone⟩
          · exact .inl (by rw [read_of_not_changed hnone hs])
        · exact .inl (read_seen_of_ne hq)
      rw [List.foldl_cons]
      by_cases hq : q ∈ readers
      · rw [ih hq (read_changed s p), read_value]
        rcases hread with h | ⟨h, hnone⟩
        · rw [h]
        · rw [h, hnone, Option.getD_some, Option.getD_none]
      · obtain rfl : q = p := (List.mem_cons.mp hmem).resolve_right hq
        rw [foldl_read_seen_of_not_mem hq]
        cases hseen : s.seen q with
        | none => exact read_seen_of_none hseen
        | some v => rw [read_of_not_changed (by simp [hseen]) hs, hseen, Option.getD_some]

/-! ### Rounds -/

theorem round_value (s : Shared V P) (r : Round V P) :
    (s.round r).value = r.changes.foldl (fun value f => f value) s.value := by
  rw [round, foldl_read_value, foldl_change_value]

theorem round_seen_of_not_mem (h : q ∉ r.readers) : (s.round r).seen q = s.seen q := by
  rw [round, foldl_read_seen_of_not_mem h, foldl_change_seen]

theorem rounds_seen_of_not_mem (h : ∀ r ∈ rs, q ∉ r.readers) :
    (rs.foldl round s).seen q = s.seen q := by
  induction rs generalizing s with
  | nil => rfl
  | cons r rs ih =>
      obtain ⟨hr, hrs⟩ := List.forall_mem_cons.mp h
      rw [List.foldl_cons, ih hrs, round_seen_of_not_mem hr]

/-- A round that is read ends with the copy of the first reader at its value. -/
theorem Watched.round_seen (hs : s.Watched first) (hled : r.Led first) (hr : r.readers ≠ []) :
    (s.round r).seen first = some (s.round r).value := by
  obtain ⟨others, hothers⟩ := hled.resolve_left hr
  have hread := (hs.foldl_change r.changes).read
  rw [round, hothers, List.foldl_cons]
  by_cases hfirst : first ∈ others
  · rw [foldl_read_seen hfirst (read_changed _ _), hread, foldl_read_value, read_value,
      Option.getD_some]
  · rw [foldl_read_seen_of_not_mem hfirst, hread, foldl_read_value, read_value]

theorem Watched.round (hs : s.Watched first) (hled : r.Led first) : (s.round r).Watched first := by
  by_cases hr : r.readers = []
  · rw [Shared.round, hr]
    exact hs.foldl_change r.changes
  · exact .inr (.inr (hs.round_seen hled hr))

theorem Watched.rounds (hs : s.Watched first) (hled : ∀ r ∈ rs, r.Led first) :
    (rs.foldl Shared.round s).Watched first := by
  induction rs generalizing s with
  | nil => exact hs
  | cons r rs ih =>
      obtain ⟨hr, hrs⟩ := List.forall_mem_cons.mp hled
      exact ih (hs.round hr) hrs

/-- The copy of the first reader is the value of the last round that was read. -/
theorem seen_first (value : V) (hled : ∀ r' ∈ before ++ [r], r'.Led first) (hr : r.readers ≠ [])
    (hafter : ∀ r' ∈ after, first ∉ r'.readers) :
    ((before ++ r :: after).foldl round (fresh value)).seen first =
      some ((before ++ [r]).foldl round (fresh value)).value := by
  have hwatched : (before.foldl round (fresh value)).Watched first :=
    Watched.rounds (.inl rfl) fun r hr => hled r (List.mem_append_left _ hr)
  rw [List.foldl_append, List.foldl_cons, rounds_seen_of_not_mem hafter, List.foldl_append]
  exact hwatched.round_seen (hled r (by simp)) hr

/-- What a reader that is not the first one has after a round. -/
theorem round_seen_other (hled : r.Led first) (hne : q ≠ first) (hq : q ∈ r.readers) :
    (s.round r).seen q = some ((s.seen q).getD (s.round r).value) := by
  obtain ⟨others, hothers⟩ := hled.resolve_left (List.ne_nil_of_mem hq)
  rw [hothers] at hq
  rw [round_value, round, hothers, List.foldl_cons,
    foldl_read_seen ((List.mem_cons.mp hq).resolve_left hne) (read_changed _ _),
    read_seen_of_ne hne, read_value, foldl_change_seen, foldl_change_value]

theorem rounds_seen_other (hled : ∀ r ∈ rs, r.Led first) (hne : q ≠ first) {v : V}
    (hseen : s.seen q = some v) : (rs.foldl round s).seen q = some v := by
  induction rs generalizing s with
  | nil => exact hseen
  | cons r rs ih =>
      obtain ⟨hr, hrs⟩ := List.forall_mem_cons.mp hled
      refine ih hrs ?_
      by_cases hq : q ∈ r.readers
      · rw [round_seen_other hr hne hq, hseen, Option.getD_some]
      · rw [round_seen_of_not_mem hq, hseen]

/-- The copy of another reader is the value of the first round that it was in. -/
theorem seen_other (value : V) (hled : ∀ r' ∈ before ++ r :: after, r'.Led first) (hne : q ≠ first)
    (hr : q ∈ r.readers) (hbefore : ∀ r' ∈ before, q ∉ r'.readers) :
    ((before ++ r :: after).foldl round (fresh value)).seen q =
      some ((before ++ [r]).foldl round (fresh value)).value := by
  have hnone : (before.foldl round (fresh value)).seen q = none :=
    rounds_seen_of_not_mem hbefore
  rw [List.foldl_append, List.foldl_cons, List.foldl_append, List.foldl_cons, List.foldl_nil]
  refine rounds_seen_other (fun r hr => hled r (by simp [hr])) hne ?_
  rw [round_seen_other (hled r (by simp)) hne hr, hnone, Option.getD_none]

end Shared

end Maple.Lib
