import Maple.Others.Splitting

/-!
# Maple.Others.Replacing

**The overloads of `StringUtils::replace`.** Both look for `old` from a position on,
overwrite it there and go on behind what they have written, so the text that they put in is
not looked at again. For an `old` that is not empty they therefore end with the pieces of
`split`, joined by the replacement.

An empty `old` is found at every position up to the end of the string, also behind the text
just put in: then the loop never ends.
-/

namespace Maple.Replacing

open Splitting (find split Cut)

variable {α : Type} [DecidableEq α]

/-- `str.find(old, pos)`: the first occurrence at `pos` or behind it. -/
def findFrom (old str : List α) (pos : Nat) : Option Nat :=
  if pos ≤ str.length then (find old (str.drop pos)).map (pos + ·) else none

/-- `str.replace(pos, len, newStr)` of the standard strings. -/
def overwrite (str : List α) (pos len : Nat) (newStr : List α) : List α :=
  str.take pos ++ newStr ++ str.drop (pos + len)

/-- The loop of `replace`, which searches in its condition. -/
def replaceLoop (old newStr : List α) : Nat → List α → Nat → Option (List α)
  | 0, _, _ => none
  | fuel + 1, str, pos =>
    match findFrom old str pos with
    | some pos =>
      replaceLoop old newStr fuel (overwrite str pos old.length newStr) (pos + newStr.length)
    | none => some str

/-- `replace(str, old, newStr)`, the overload for `std::string`. -/
def replace (str old newStr : List α) (fuel : Nat) : Option (List α) :=
  replaceLoop old newStr fuel str 0

/-- The loop of the overload for `std::u16string`, which searches before the loop and at the
end of its body; `none` is `npos`. -/
def replaceU16Loop (origin des : List α) : Nat → List α → Option Nat → Option (List α)
  | 0, _, _ => none
  | _ + 1, src, none => some src
  | fuel + 1, src, some pos =>
    let src := overwrite src pos origin.length des
    replaceU16Loop origin des fuel src (findFrom origin src (pos + des.length))

/-- `replace(src, origin, des)`, the overload for `std::u16string`. -/
def replaceU16 (src origin des : List α) (fuel : Nat) : Option (List α) :=
  replaceU16Loop origin des fuel src (findFrom origin src 0)

/-- A replacement of `old` by `newStr` as it should be: it ends, and the result is the pieces
of `split` joined by `newStr`; where there is nothing to look for, the string stays. -/
def Replaces (run : Nat → Option (List α)) (str old newStr : List α) : Prop :=
  ∃ result, Lib.Settles run (some result) ∧
    (old ≠ [] →
      ∃ pieces, Lib.Settles (split str old) (some pieces) ∧
        result = newStr.intercalate pieces) ∧
    (old = [] → result = str)

/-! ### One loop -/

/-- The two loops differ in the place of the search alone. -/
theorem replaceU16Loop_findFrom (origin des : List α) (fuel : Nat) (src : List α) (pos : Nat) :
    replaceU16Loop origin des fuel src (findFrom origin src pos) =
      replaceLoop origin des fuel src pos := by
  induction fuel generalizing src pos with
  | zero => rw [replaceU16Loop, replaceLoop]
  | succ fuel ih =>
      rw [replaceLoop]
      cases hfind : findFrom origin src pos with
      | none => rw [replaceU16Loop]
      | some pos => exact ih _ _

theorem replaceU16_eq_replace (src origin des : List α) :
    replaceU16 src origin des = replace src origin des :=
  funext fun fuel => replaceU16Loop_findFrom origin des fuel src 0

/-! ### An `old` that is not empty -/

/-- Behind what is done the search sees the rest of the input alone. -/
theorem findFrom_append (old done input : List α) :
    findFrom old (done ++ input) done.length = (find old input).map (done.length + ·) := by
  have hle : done.length ≤ (done ++ input).length := by simp
  rw [findFrom, if_pos hle, List.drop_left]

omit [DecidableEq α] in
/-- One turn: the piece before the occurrence and the replacement are done. -/
theorem overwrite_append (done input newStr : List α) (pos len : Nat) :
    overwrite (done ++ input) (done.length + pos) len newStr =
      (done ++ input.take pos ++ newStr) ++ input.drop (pos + len) := by
  rw [overwrite, List.take_length_add_append, Nat.add_assoc, List.drop_length_add_append]

/-- The loop joins the pieces still to come by the replacement. -/
theorem replaceLoop_settles {old input : List α} {pieces : List (List α)}
    (h : Cut old input pieces) (newStr done : List α) :
    Lib.Settles (fun fuel => replaceLoop old newStr fuel (done ++ input) done.length)
      (some (done ++ newStr.intercalate pieces)) := by
  induction h generalizing done with
  | @last input hfind =>
      refine .of_add 1 fun fuel => ?_
      rw [replaceLoop, findFrom_append, hfind, List.intercalate_singleton]
      rfl
  | @piece input pos pieces hfind hrest ih =>
      have hlength : done.length + pos + newStr.length =
          (done ++ input.take pos ++ newStr).length := by
        have hpos := Splitting.le_length_of_find hfind
        simp only [List.length_append, List.length_take, Nat.min_eq_left hpos]
      have hjoin : done ++ newStr.intercalate (input.take pos :: pieces) =
          (done ++ input.take pos ++ newStr) ++ newStr.intercalate pieces := by
        rw [List.intercalate_cons_of_ne_nil hrest.ne_nil]
        simp only [List.append_assoc]
      have hnext := ih (done ++ input.take pos ++ newStr)
      rw [← hlength, ← hjoin] at hnext
      refine Lib.Settles.of_succ (hnext.congr fun fuel => ?_)
      rw [replaceLoop, findFrom_append, hfind]
      show replaceLoop _ _ _ (overwrite _ (done.length + pos) _ _) _ = _
      rw [overwrite_append]

theorem replace_settles {old str : List α} {pieces : List (List α)} (h : Cut old str pieces)
    (newStr : List α) :
    Lib.Settles (replace str old newStr) (some (newStr.intercalate pieces)) :=
  replaceLoop_settles h newStr []

/-! ### An empty `old` -/

theorem findFrom_nil {str : List α} {pos : Nat} (hpos : pos ≤ str.length) :
    findFrom [] str pos = some pos := by
  rw [findFrom, if_pos hpos]
  cases str.drop pos with
  | nil => rfl
  | cons => rfl

/-- The loop finds an empty `old` at every position it comes to. -/
theorem replaceLoop_nil (newStr : List α) (fuel : Nat) {str : List α} {pos : Nat}
    (hpos : pos ≤ str.length) : replaceLoop [] newStr fuel str pos = none := by
  induction fuel generalizing str pos with
  | zero => rfl
  | succ fuel ih =>
      rw [replaceLoop, findFrom_nil hpos]
      exact ih (by simp [overwrite, hpos])

theorem replace_nil (str newStr : List α) (fuel : Nat) : replace str [] newStr fuel = none :=
  replaceLoop_nil newStr fuel (Nat.zero_le _)

/-- **`replace`.** Both overloads do what they should exactly if there is something to look
for. -/
theorem replaces_iff (str old newStr : List α) :
    (Replaces (replace str old newStr) str old newStr ∧
      Replaces (replaceU16 str old newStr) str old newStr) ↔ old ≠ [] := by
  rw [replaceU16_eq_replace, and_self_iff]
  constructor
  · intro h hnil
    obtain ⟨result, hsettles, -⟩ := h
    have hnone : Lib.Settles (replace str old newStr) none :=
      .of_forall fun fuel => hnil ▸ replace_nil str newStr fuel
    exact absurd (hsettles.unique hnone) nofun
  · intro hne
    obtain ⟨pieces, hpieces⟩ := Cut.exists_cut hne str
    exact ⟨newStr.intercalate pieces, replace_settles hpieces newStr,
      fun _ => ⟨pieces, hpieces.settles [], rfl⟩, fun hnil => absurd hnil hne⟩

/-- An empty `old` in a string of one character. -/
theorem not_replaces_empty :
    ¬ (Replaces (replace ['a'] [] ['b']) ['a'] [] ['b'] ∧
      Replaces (replaceU16 ['a'] [] ['b']) ['a'] [] ['b']) := by
  intro h
  obtain ⟨⟨result, hsettles, -⟩, -⟩ := h
  exact absurd (hsettles.unique (.of_forall (replace_nil _ _))) nofun

example : replace "a-b-c".toList "-".toList "--".toList 3 = some "a--b--c".toList := by decide

end Maple.Replacing
