import Mathlib.Data.List.Basic
import Mathlib.Data.List.Infix

/-!
# Maple.Others.StringUtils

`Others/StringUtils.cpp`, as far as the other modules use it. The delimiter of
paths (`StringUtils::delimiter`) depends on the platform and is a parameter.
-/

namespace Maple.StringUtils

/-- `StringUtils::getExtension`: everything after the last dot. -/
def getExtension (fileName : String) : String :=
  if '.' ∈ fileName.toList then
    String.ofList (fileName.toList.reverse.takeWhile (· ≠ '.')).reverse
  else ""

/-- `StringUtils::removeExtension`: everything before the last dot. -/
def removeExtension (fileName : String) : String :=
  if '.' ∈ fileName.toList then
    String.ofList (fileName.toList.reverse.dropWhile (· ≠ '.')).tail.reverse
  else fileName

/-- `StringUtils::getFileName`: everything after the last delimiter. -/
def getFileName (delimiter : Char) (filePath : String) : String :=
  if delimiter ∈ filePath.toList then
    String.ofList (filePath.toList.reverse.takeWhile (· ≠ delimiter)).reverse
  else filePath

example : removeExtension (getFileName '/' "levels/first.one.scene") = "first.one" := by decide

/-- `StringUtils::startWith`. -/
def startWith (str start : String) : Bool := decide (start.toList <+: str.toList)

/-- `StringUtils::contains`. -/
def contains (str start : String) : Bool := decide (start.toList <:+: str.toList)

/-- `StringUtils::trim`: the characters of `trimStr` are erased from the front, then from
the back. -/
def trim (str trimStr : String) : String :=
  String.ofList ((str.toList.dropWhile (· ∈ trimStr.toList)).reverse.dropWhile
    (· ∈ trimStr.toList)).reverse

example : trim "\r../arm\r\r" "\r" = "../arm" := by decide

/-- The loop of `split` from one delimiter to the next: `token` is what was read
since the last one, backwards. -/
def splitFrom (delimiter : Char) (token : List Char) : List Char → List String
  | [] => [String.ofList token.reverse]
  | c :: input =>
    if c = delimiter then String.ofList token.reverse :: splitFrom delimiter [] input
    else splitFrom delimiter (c :: token) input

/-- `StringUtils::split`, for a delimiter of one character: what is left after the
last delimiter is always a token, so there is at least one. -/
def split (input : String) (delimiter : Char) : List String :=
  splitFrom delimiter [] input.toList

theorem splitFrom_ne_nil (delimiter : Char) (token input : List Char) :
    splitFrom delimiter token input ≠ [] := by
  induction input generalizing token with
  | nil => simp [splitFrom]
  | cons c input ih =>
      rw [splitFrom]
      split
      · simp
      · exact ih _

/-- **`split`** cuts the input at the delimiters: joined by them again, the tokens
are the input, and no token has one in it. -/
theorem split_spec (delimiter : Char) (token input : List Char) (htoken : delimiter ∉ token) :
    List.intercalate [delimiter] ((splitFrom delimiter token input).map String.toList) =
        token.reverse ++ input ∧
      ∀ t ∈ splitFrom delimiter token input, delimiter ∉ t.toList := by
  induction input generalizing token with
  | nil =>
      simp only [splitFrom, List.map_cons, String.toList_ofList, List.map_nil, List.mem_singleton,
        forall_eq]
      exact ⟨by simp, by simpa using htoken⟩
  | cons c input ih =>
      rw [splitFrom]
      split
      · next hc =>
          obtain ⟨hjoin, hfree⟩ := ih [] (by simp)
          refine ⟨?_, fun t ht => ?_⟩
          · have hne := splitFrom_ne_nil delimiter [] input
            cases hrest : splitFrom delimiter [] input with
            | nil => exact absurd hrest hne
            | cons t ts =>
                rw [hrest] at hjoin
                rw [List.map_cons, List.map_cons, List.intercalate_cons_cons, ← List.map_cons,
                  hjoin]
                simp [hc]
          · rcases List.mem_cons.mp ht with heq | ht
            · rw [heq]
              simpa using htoken
            · exact hfree t ht
      · next hc =>
          obtain ⟨hjoin, hfree⟩ := ih (c :: token) (by simpa [Ne.symm hc] using htoken)
          exact ⟨by rw [hjoin]; simp, hfree⟩

theorem splitFrom_of_not_mem {delimiter : Char} {input : List Char} (hfree : delimiter ∉ input)
    (token : List Char) :
    splitFrom delimiter token input = [String.ofList (token.reverse ++ input)] := by
  induction input generalizing token with
  | nil => rw [splitFrom, List.append_nil]
  | cons c input ih =>
      obtain ⟨hc, hinput⟩ := not_or.mp (mt List.mem_cons.mpr hfree)
      rw [splitFrom, if_neg (Ne.symm hc), ih hinput, List.reverse_cons, List.append_assoc,
        List.singleton_append]

/-- An input without the delimiter is its only token. -/
theorem split_eq_singleton_iff {input token : String} {delimiter : Char} :
    split input delimiter = [token] ↔ delimiter ∉ input.toList ∧ input = token := by
  constructor
  · intro h
    obtain ⟨hjoin, hfree⟩ := split_spec delimiter [] input.toList List.not_mem_nil
    rw [show splitFrom delimiter [] input.toList = [token] from h] at hjoin hfree
    have heq : input = token := String.toList_inj.mp (by simpa using hjoin.symm)
    exact ⟨heq ▸ hfree token (List.mem_singleton_self _), heq⟩
  · intro h
    obtain ⟨hfree, rfl⟩ := h
    rw [split, splitFrom_of_not_mem hfree, List.reverse_nil, List.nil_append, String.ofList_toList]

example : split "../arm//hand" '/' = ["..", "arm", "", "hand"] := by decide

end Maple.StringUtils
