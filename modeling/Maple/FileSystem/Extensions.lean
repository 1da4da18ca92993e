import Mathlib.Algebra.Group.Nat.Defs
import Maple.Lib.Stores
import Maple.Others.StringUtils

/-!
# Maple.FileSystem.Extensions

**The two functions that remove an extension.** `StringUtils::removeExtension` returns a path
without a dot as it is; `File::removeExtension` hands the `npos` that it gets for one to
`erase`, which throws, and has a case for the empty path alone. Neither looks at the path
separators, so a dot in the name of a directory is cut at if the file has none.
-/

namespace Maple

open Lib (OutOfRange)
open StringUtils (getExtension getFileName removeExtension)

/-- `find_last_of` for one character; `none` is `npos`. -/
def findLastOf (c : Char) : List Char → Option Nat
  | [] => none
  | d :: text =>
    match findLastOf c text with
    | some pos => some (pos + 1)
    | none => if d = c then some 0 else none

/-- `erase(pos)`, which throws for a position behind the end, so for `npos` in any case. -/
def eraseFrom (text : List Char) : Option Nat → Except OutOfRange (List Char)
  | some pos => if pos ≤ text.length then .ok (text.take pos) else .error (.at pos)
  | none => .error (.at (2 ^ 64 - 1))

/-- `File::removeExtension`. -/
def File.removeExtension (file : String) : Except OutOfRange String :=
  if file = "" then .ok ""
  else (eraseFrom file.toList (findLastOf '.' file.toList)).map String.ofList

/-- What the two functions should do with a path: the same, and cut the last component, which
is what follows the last separator, at its last dot. -/
structure RemoveExtension (delimiter : Char) (path : String) : Prop where
  agree : File.removeExtension path = .ok (removeExtension path)
  whole : '.' ∉ (getFileName delimiter path).toList → removeExtension path = path
  cut : ∀ name extension, (getFileName delimiter path).toList = name ++ '.' :: extension →
    '.' ∉ extension →
    ∃ directory, path.toList = directory ++ (getFileName delimiter path).toList ∧
      (removeExtension path).toList = directory ++ name
  rejoin : '.' ∈ (getFileName delimiter path).toList →
    removeExtension path ++ "." ++ getExtension path = path

/-! ### The last occurrence of a character -/

theorem exists_last {c : Char} {text : List Char} (h : c ∈ text) :
    ∃ before after, text = before ++ c :: after ∧ c ∉ after := by
  obtain ⟨as, bs, hreverse, hfree⟩ :=
    List.eq_append_cons_of_mem (List.mem_reverse.mpr h)
  refine ⟨bs.reverse, as.reverse, ?_, mt List.mem_reverse.mp hfree⟩
  rw [← List.reverse_reverse text, hreverse]
  simp

theorem findLastOf_eq_none {c : Char} {text : List Char} (h : c ∉ text) :
    findLastOf c text = none := by
  induction text with
  | nil => rfl
  | cons d text ih =>
      obtain ⟨hd, htext⟩ := not_or.mp (mt List.mem_cons.mpr h)
      rw [findLastOf, ih htext]
      exact if_neg (Ne.symm hd)

theorem findLastOf_append {c : Char} (before : List Char) {after : List Char} (h : c ∉ after) :
    findLastOf c (before ++ c :: after) = some before.length := by
  induction before with
  | nil =>
      rw [List.nil_append, findLastOf, findLastOf_eq_none h]
      exact if_pos rfl
  | cons d before ih =>
      rw [List.cons_append, findLastOf, ih]
      rfl

/-- What stands behind the last occurrence. -/
theorem takeWhile_reverse_append {c : Char} (before : List Char) {after : List Char}
    (h : c ∉ after) :
    ((before ++ c :: after).reverse.takeWhile (· ≠ c)).reverse = after := by
  have hne : ∀ d ∈ after.reverse, d ≠ c := fun d hd heq => h (heq ▸ List.mem_reverse.mp hd)
  rw [List.reverse_append, List.reverse_cons, List.append_assoc,
    List.takeWhile_append_of_pos (by simpa using hne)]
  simp

theorem dropWhile_reverse_append {c : Char} (before : List Char) {after : List Char}
    (h : c ∉ after) :
    ((before ++ c :: after).reverse.dropWhile (· ≠ c)).tail.reverse = before := by
  have hne : ∀ d ∈ after.reverse, d ≠ c := fun d hd heq => h (heq ▸ List.mem_reverse.mp hd)
  rw [List.reverse_append, List.reverse_cons, List.append_assoc,
    List.dropWhile_append_of_pos (by simpa using hne)]
  simp

/-! ### A path with a dot -/

section Dot

variable {path : String} {before after : List Char}

theorem removeExtension_of_last (h : path.toList = before ++ '.' :: after) (hfree : '.' ∉ after) :
    removeExtension path = String.ofList before := by
  have hdot : '.' ∈ path.toList := by simp [h]
  rw [removeExtension, if_pos hdot, h, dropWhile_reverse_append _ hfree]

theorem getExtension_of_last (h : path.toList = before ++ '.' :: after) (hfree : '.' ∉ after) :
    getExtension path = String.ofList after := by
  have hdot : '.' ∈ path.toList := by simp [h]
  rw [getExtension, if_pos hdot, h, takeWhile_reverse_append _ hfree]

theorem File.removeExtension_of_last (h : path.toList = before ++ '.' :: after)
    (hfree : '.' ∉ after) : File.removeExtension path = .ok (String.ofList before) := by
  have hne : path ≠ "" := by
    rintro rfl
    simp at h
  have hle : before.length ≤ (before ++ '.' :: after).length := by simp
  rw [File.removeExtension, if_neg hne, h, findLastOf_append _ hfree, eraseFrom, if_pos hle,
    List.take_left]
  rfl

example : File.removeExtension "levels.old/first" = .ok "levels" := by decide

end Dot

/-! ### The last component -/

/-- A path ends with its last component. -/
theorem exists_directory (delimiter : Char) (path : String) :
    ∃ directory, path.toList = directory ++ (getFileName delimiter path).toList := by
  by_cases h : delimiter ∈ path.toList
  · obtain ⟨before, after, heq, hfree⟩ := exists_last h
    refine ⟨before ++ [delimiter], ?_⟩
    rw [getFileName, if_pos h, String.toList_ofList, heq, takeWhile_reverse_append _ hfree]
    simp
  · exact ⟨[], by rw [getFileName, if_neg h, List.nil_append]⟩

/-- Without a dot at all there is nothing to erase. -/
theorem File.removeExtension_error {path : String} (hne : path ≠ "") (h : '.' ∉ path.toList) :
    File.removeExtension path = .error (.at (2 ^ 64 - 1)) := by
  rw [File.removeExtension, if_neg hne, findLastOf_eq_none h]
  rfl

/-- **The two functions.** They do what they should exactly for the empty path and the paths
whose last component has a dot. -/
theorem removeExtension_iff (delimiter : Char) (path : String) :
    RemoveExtension delimiter path ↔
      path = "" ∨ '.' ∈ (getFileName delimiter path).toList := by
  obtain ⟨directory, hpath⟩ := exists_directory delimiter path
  constructor
  · intro h
    by_contra hcase
    obtain ⟨hne, hlast⟩ := not_or.mp hcase
    by_cases hdot : '.' ∈ path.toList
    · -- the dot is in a directory, and the path is cut there
      obtain ⟨before, after, heq, hfree⟩ := exists_last hdot
      have hwhole := h.whole hlast
      rw [removeExtension_of_last heq hfree] at hwhole
      have hlength := congrArg (fun path => path.toList.length) hwhole
      simp [heq] at hlength
    · exact absurd ((File.removeExtension_error hne hdot).symm.trans h.agree) nofun
  · intro h
    cases h with
    | inl hempty =>
        subst hempty
        have hlast : (getFileName delimiter "").toList = [] := by simp [getFileName]
        refine ⟨rfl, fun _ => rfl, fun name extension hname => ?_, fun hdot => ?_⟩
        · rw [hlast] at hname
          exact absurd hname (by simp)
        · rw [hlast] at hdot
          exact absurd hdot List.not_mem_nil
    | inr hlast =>
        have hsplit : ∀ name extension,
            (getFileName delimiter path).toList = name ++ '.' :: extension →
            path.toList = (directory ++ name) ++ '.' :: extension := fun name extension hname => by
          rw [hpath, hname, List.append_assoc]
        obtain ⟨name, extension, hname, hfree⟩ := exists_last hlast
        have hdot := hsplit name extension hname
        have hremove := removeExtension_of_last hdot hfree
        refine ⟨?_, fun hnot => absurd hlast hnot, ?_, fun _ => ?_⟩
        · rw [File.removeExtension_of_last hdot hfree, hremove]
        · intro name extension hname hfree
          refine ⟨directory, hpath, ?_⟩
          rw [removeExtension_of_last (hsplit name extension hname) hfree, String.toList_ofList]
        · rw [hremove, getExtension_of_last hdot hfree]
          refine String.toList_inj.mp ?_
          simp [hdot]

/-- A file without an extension. -/
theorem not_removeExtension_readme : ¬ RemoveExtension '/' "README" :=
  fun h => absurd h.agree (by decide)

end Maple
