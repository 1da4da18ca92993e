import Mathlib.Data.List.Infix
import Maple.Lib.Fuel
import Maple.Others.StringUtils

/-!
# Maple.Others.Splitting

**The overloads of `StringUtils::split`.** All of them run the same loop: as long as the
delimiter is found, what stands before its first occurrence is a piece, and the input is
erased up to the end of that occurrence. A delimiter may have any length, and a string is
the list of its code units of whatever type (`char` or `char16_t`).

A delimiter that is not empty makes the input shorter in every turn, so the loop ends;
the first occurrence leaves none in the piece before it.
-/

namespace Maple.Splitting

variable {α β : Type} [DecidableEq α] [DecidableEq β]

/-- `find` of the standard strings: the position of the first occurrence. -/
def find (delimiter : List α) : List α → Option Nat
  | [] => if delimiter = [] then some 0 else none
  | c :: input =>
    if delimiter <+: c :: input then some 0 else (find delimiter input).map (· + 1)

/-- The loop of `split`; `outs` is the vector it appends to. -/
def splitLoop (delimiter : List α) : Nat → List α → List (List α) → Option (List (List α))
  | 0, _, _ => none
  | fuel + 1, input, outs =>
    match find delimiter input with
    | some pos =>
      splitLoop delimiter fuel (input.drop (pos + delimiter.length)) (outs ++ [input.take pos])
    | none => some (outs ++ [input])

/-- `split(input, delimiter)`. -/
def split (input delimiter : List α) (fuel : Nat) : Option (List (List α)) :=
  splitLoop delimiter fuel input []

/-- `split(input, delimiter, outs)`, the overloads for `std::string` and `std::u16string`. -/
def splitInto (input delimiter : List α) (outs : List (List α)) (fuel : Nat) :
    Option (List (List α)) :=
  splitLoop delimiter fuel input outs

/-! ### The first occurrence -/

theorem find_eq_none_iff {delimiter input : List α} :
    find delimiter input = none ↔ ¬ delimiter <:+: input := by
  induction input with
  | nil => simp [find]
  | cons c input ih =>
      rw [find, List.infix_cons_iff, not_or]
      split
      next hstarts => exact iff_of_false (by simp) fun h => h.1 hstarts
      next hstarts => rw [Option.map_eq_none_iff, ih, and_iff_right hstarts]

theorem find_eq_some {delimiter input : List α} {pos : Nat} (h : find delimiter input = some pos) :
    delimiter <+: input.drop pos ∧ ∀ q < pos, ¬ delimiter <+: input.drop q := by
  induction input generalizing pos with
  | nil =>
      rw [find] at h
      split at h
      next hnil =>
          obtain rfl := Option.some.inj h
          exact ⟨hnil ▸ List.nil_prefix, fun q hq => absurd hq (Nat.not_lt_zero q)⟩
      next => exact absurd h nofun
  | cons c input ih =>
      rw [find] at h
      split at h
      next hstarts =>
          obtain rfl := Option.some.inj h
          exact ⟨hstarts, fun q hq => absurd hq (Nat.not_lt_zero q)⟩
      next hstarts =>
          obtain ⟨pos, hpos, rfl⟩ := Option.map_eq_some_iff.mp h
          obtain ⟨hfound, hfirst⟩ := ih hpos
          refine ⟨hfound, fun q hq => ?_⟩
          cases q with
          | zero => exact hstarts
          | succ q => exact hfirst q (Nat.lt_of_succ_lt_succ hq)

theorem le_length_of_find {delimiter input : List α} {pos : Nat}
    (h : find delimiter input = some pos) : pos ≤ input.length := by
  induction input generalizing pos with
  | nil =>
      rw [find] at h
      split at h
      next => exact (Option.some.inj h) ▸ Nat.le_refl _
      next => exact absurd h nofun
  | cons c input ih =>
      rw [find] at h
      split at h
      next => exact (Option.some.inj h) ▸ Nat.zero_le _
      next =>
          obtain ⟨pos, hpos, rfl⟩ := Option.map_eq_some_iff.mp h
          exact Nat.succ_le_succ (ih hpos)

/-- The input is the piece before the first occurrence, the delimiter and the rest. -/
theorem take_append_drop_of_find {delimiter input : List α} {pos : Nat}
    (h : find delimiter input = some pos) :
    input.take pos ++ (delimiter ++ input.drop (pos + delimiter.length)) = input := by
  obtain ⟨rest, hrest⟩ := (find_eq_some h).1
  have hdrop : input.drop (pos + delimiter.length) = rest := by
    rw [← List.drop_drop, ← hrest, List.drop_left]
  rw [hdrop, hrest, List.take_append_drop]

/-- The piece before the first occurrence has none. -/
theorem not_infix_take_of_find {delimiter input : List α} {pos : Nat} (hne : delimiter ≠ [])
    (h : find delimiter input = some pos) : ¬ delimiter <:+: input.take pos := by
  intro hinfix
  obtain ⟨before, after, heq⟩ := hinfix
  have hlength : before.length < pos := by
    have hle : (input.take pos).length ≤ pos := List.length_take_le ..
    have hpos := List.length_pos_iff.mpr hne
    rw [← heq, List.length_append, List.length_append] at hle
    omega
  refine (find_eq_some h).2 before.length hlength ?_
  have hinput : input = before ++ (delimiter ++ (after ++ input.drop pos)) := by
    rw [← List.append_assoc, ← List.append_assoc, heq, List.take_append_drop]
  rw [hinput, List.drop_left]
  exact List.prefix_append ..

theorem find_map {widen : α → β} (hwiden : widen.Injective) (delimiter input : List α) :
    find (delimiter.map widen) (input.map widen) = find delimiter input := by
  induction input with
  | nil =>
      rw [List.map_nil, find, find]
      simp only [List.map_eq_nil_iff]
  | cons c input ih =>
      have hstarts : delimiter.map widen <+: widen c :: input.map widen ↔
          delimiter <+: c :: input := by
        rw [← List.map_cons]
        exact List.prefix_map_iff_of_injective hwiden
      rw [List.map_cons, find, find, ih]
      simp only [hstarts]

/-! ### The pieces -/

/-- The pieces of an input, turn by turn. -/
inductive Cut (delimiter : List α) : List α → List (List α) → Prop where
  | last {input : List α} : find delimiter input = none → Cut delimiter input [input]
  | piece {input : List α} {pos : Nat} {pieces : List (List α)} :
      find delimiter input = some pos →
      Cut delimiter (input.drop (pos + delimiter.length)) pieces →
      Cut delimiter input (input.take pos :: pieces)

namespace Cut

variable {delimiter input : List α} {pieces : List (List α)}

/-- Every turn erases the delimiter at least, so the loop ends. -/
theorem exists_cut (hne : delimiter ≠ []) (input : List α) :
    ∃ pieces, Cut delimiter input pieces := by
  induction hlength : input.length using Nat.strong_induction_on generalizing input with
  | _ n ih =>
      cases hfind : find delimiter input with
      | none => exact ⟨[input], .last hfind⟩
      | some pos =>
          have hshort : (input.drop (pos + delimiter.length)).length < n := by
            have hinput := congrArg List.length (take_append_drop_of_find hfind)
            have hpos := List.length_pos_iff.mpr hne
            rw [List.length_append, List.length_append] at hinput
            omega
          obtain ⟨pieces, hpieces⟩ := ih _ hshort _ rfl
          exact ⟨input.take pos :: pieces, .piece hfind hpieces⟩

/-- The loop appends the pieces. -/
theorem settles (h : Cut delimiter input pieces) (outs : List (List α)) :
    Lib.Settles (splitInto input delimiter outs) (some (outs ++ pieces)) := by
  induction h generalizing outs with
  | last hfind =>
      refine .of_add 1 fun fuel => ?_
      rw [splitInto, splitLoop, hfind]
  | @piece input pos pieces hfind _ ih =>
      have hrest := ih (outs ++ [input.take pos])
      rw [List.append_assoc] at hrest
      refine Lib.Settles.of_succ (hrest.congr fun fuel => ?_)
      rw [splitInto, splitLoop, hfind]
      rfl

theorem ne_nil (h : Cut delimiter input pieces) : pieces ≠ [] := by
  cases h with
  | last => exact List.cons_ne_nil _ _
  | piece => exact List.cons_ne_nil _ _

theorem not_infix (h : Cut delimiter input pieces) (hne : delimiter ≠ []) :
    ∀ piece ∈ pieces, ¬ delimiter <:+: piece := by
  induction h with
  | last hfind => exact fun piece hpiece => List.mem_singleton.mp hpiece ▸ find_eq_none_iff.mp hfind
  | piece hfind _ ih =>
      intro piece hpiece
      cases List.mem_cons.mp hpiece with
      | inl heq => exact heq ▸ not_infix_take_of_find hne hfind
      | inr hmem => exact ih piece hmem

theorem intercalate (h : Cut delimiter input pieces) : delimiter.intercalate pieces = input := by
  induction h with
  | last => exact List.intercalate_singleton
  | piece hfind hrest ih =>
      rw [List.intercalate_cons_of_ne_nil hrest.ne_nil, ih, List.append_assoc]
      exact take_append_drop_of_find hfind

/-- Strings that differ in the type of their code units alone are cut alike. -/
theorem map {widen : α → β} (hwiden : widen.Injective) (h : Cut delimiter input pieces) :
    Cut (delimiter.map widen) (input.map widen) (pieces.map (List.map widen)) := by
  induction h with
  | last hfind => exact .last ((find_map hwiden ..).trans hfind)
  | @piece input pos pieces hfind _ ih =>
      have hcut : Cut (delimiter.map widen) (input.map widen) (_ :: pieces.map (List.map widen)) :=
        .piece ((find_map hwiden ..).trans hfind) (by
          rw [List.length_map, ← List.map_drop]
          exact ih)
      rwa [← List.map_take] at hcut

end Cut

/-- **`split`.** For a delimiter that is not empty every overload ends, and with the same
pieces: there is one at least, none has the delimiter in it, and joined by the delimiter
they are the input. -/
theorem split_pieces (input delimiter : List α) (hne : delimiter ≠ []) :
    ∃ pieces, Lib.Settles (split input delimiter) (some pieces) ∧ pieces ≠ [] ∧
      (∀ piece ∈ pieces, ¬ delimiter <:+: piece) ∧ delimiter.intercalate pieces = input ∧
      (∀ outs, Lib.Settles (splitInto input delimiter outs) (some (outs ++ pieces))) ∧
      ∀ widen : α → β, widen.Injective → ∀ outs,
        Lib.Settles (splitInto (input.map widen) (delimiter.map widen) outs)
          (some (outs ++ pieces.map (List.map widen))) := by
  obtain ⟨pieces, hpieces⟩ := Cut.exists_cut hne input
  exact ⟨pieces, hpieces.settles [], hpieces.ne_nil, hpieces.not_infix hne, hpieces.intercalate,
    hpieces.settles, fun widen hwiden => (hpieces.map hwiden).settles⟩

/-- A delimiter that overlaps itself. -/
theorem split_pieces_overlap :
    ∃ pieces, Lib.Settles (split "baaab".toList "aa".toList) (some pieces) ∧ pieces ≠ [] ∧
      (∀ piece ∈ pieces, ¬ "aa".toList <:+: piece) ∧
      "aa".toList.intercalate pieces = "baaab".toList ∧
      (∀ outs, Lib.Settles (splitInto "baaab".toList "aa".toList outs) (some (outs ++ pieces))) ∧
      ∀ widen : Char → Nat, widen.Injective → ∀ outs,
        Lib.Settles (splitInto ("baaab".toList.map widen) ("aa".toList.map widen) outs)
          (some (outs ++ pieces.map (List.map widen))) :=
  split_pieces _ _ (by decide)

/-- For a delimiter of one character the loop ends with `StringUtils.split`. -/
theorem split_char (input : String) (delimiter : Char) :
    Lib.Settles (split input.toList [delimiter])
      (some ((StringUtils.split input delimiter).map String.toList)) := by
  obtain ⟨pieces, hpieces⟩ := Cut.exists_cut (List.cons_ne_nil delimiter []) input.toList
  obtain ⟨hjoin, hfree⟩ := StringUtils.split_spec delimiter [] input.toList List.not_mem_nil
  have htokens : input.toList.splitOn delimiter =
      (StringUtils.split input delimiter).map String.toList := by
    have hne : (StringUtils.split input delimiter).map String.toList ≠ [] :=
      fun h => StringUtils.splitFrom_ne_nil _ _ _ (List.map_eq_nil_iff.mp h)
    have hsplit := List.splitOn_intercalate delimiter (List.forall_mem_map.mpr hfree) hne
    rwa [show [delimiter].intercalate _ = _ from hjoin] at hsplit
  have hpiece : ∀ piece ∈ pieces, delimiter ∉ piece := fun piece hpiece hmem =>
    hpieces.not_infix (List.cons_ne_nil _ _) piece hpiece ((List.singleton_infix_iff ..).mpr hmem)
  have hsplit := List.splitOn_intercalate delimiter hpiece hpieces.ne_nil
  rw [hpieces.intercalate, htokens] at hsplit
  exact hsplit ▸ hpieces.settles []

end Maple.Splitting
