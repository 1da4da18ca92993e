import Mathlib.Algebra.Group.Nat.Defs
import Mathlib.Data.List.Infix
import Maple.Lib.Stores
import Maple.Others.StringUtils

/-!
# Maple.Others.Affixes

**`StringUtils::startWith` and `StringUtils::endWith`.** Both compare a part of the string
with the affix: the first one the part at position zero, the second one the part at the
difference of the two lengths. Lengths are of type `size_t`, so for a suffix that is longer
than the string the difference wraps to a position behind its end, where
`std::string::compare` throws.
-/

namespace Maple

open Lib (OutOfRange)

/-- A standard string over code units of any type; its length is a `size_t`. -/
structure StdString (α : Type) where
  units : List α
  length_lt : units.length < 2 ^ 64

namespace StdString

variable {α : Type}

/-- `size()` and `length()`. -/
def size (str : StdString α) : UInt64 := UInt64.ofNat str.units.length

@[simp] theorem toNat_size (str : StdString α) : str.size.toNat = str.units.length :=
  UInt64.toNat_ofNat_of_lt' str.length_lt

/-- `str.compare(pos, len, other)`; the result is the sign of the returned number. -/
def compare [Ord α] (str : StdString α) (pos len : UInt64) (other : StdString α) :
    Except OutOfRange Ordering :=
  if pos ≤ str.size then
    .ok (Ord.compare ((str.units.drop pos.toNat).take len.toNat) other.units)
  else .error (.at pos.toNat)

/-- `StringUtils::startWith`. -/
def startWith [Ord α] (str start : StdString α) : Except OutOfRange Bool :=
  (str.compare 0 start.size start).map (· == .eq)

/-- `StringUtils::endWith`. -/
def endWith [Ord α] (str start : StdString α) : Except OutOfRange Bool :=
  (str.compare (str.size - start.size) start.size start).map (· == .eq)

/-- A literal of ASCII characters. -/
def literal (text : String) (h : text.toList.length < 2 ^ 64) : StdString UInt8 :=
  ⟨text.toList.map fun c => UInt8.ofNat c.toNat, (List.length_map ..).trans_lt h⟩

/-- The test of `VulkanTexture2D::VulkanTexture2D`. -/
def isKtx (fileName : StdString UInt8) : Except OutOfRange Bool :=
  endWith fileName (literal "ktx" (by decide))

/-- The test of `AssetsWindow::drawFile`. -/
def isObj (fileName : StdString UInt8) : Except OutOfRange Bool :=
  endWith fileName (literal "obj" (by decide))

/-! ### The comparison -/

theorem compare_of_le [Ord α] [Std.LawfulEqOrd α] [DecidableEq α] {str : StdString α}
    {pos : UInt64} (len : UInt64) (other : StdString α) (hpos : pos.toNat ≤ str.units.length) :
    (str.compare pos len other).map (· == .eq) =
      .ok (decide ((str.units.drop pos.toNat).take len.toNat = other.units)) := by
  have hle : pos ≤ str.size := by rwa [UInt64.le_iff_toNat_le, toNat_size]
  rw [compare, if_pos hle]
  refine congrArg Except.ok ?_
  rw [Bool.eq_iff_iff, beq_iff_eq, Std.compare_eq_iff_eq, decide_eq_true_iff]

theorem compare_of_lt [Ord α] {str : StdString α} {pos : UInt64} (len : UInt64)
    (other : StdString α) (hpos : str.units.length < pos.toNat) :
    str.compare pos len other = .error (.at pos.toNat) := by
  have hlt : ¬ pos ≤ str.size := by
    rw [UInt64.le_iff_toNat_le, toNat_size]
    omega
  rw [compare, if_neg hlt]

/-! ### The affixes -/

theorem startWith_eq [Ord α] [Std.LawfulEqOrd α] [DecidableEq α] (str start : StdString α) :
    startWith str start = .ok (decide (start.units <+: str.units)) := by
  rw [startWith, compare_of_le _ _ (Nat.zero_le _)]
  simp only [UInt64.toNat_zero, List.drop_zero, toNat_size, List.prefix_iff_eq_take,
    eq_comm (a := start.units)]

/-- A suffix that is not longer than the string. -/
theorem endWith_of_le [Ord α] [Std.LawfulEqOrd α] [DecidableEq α] {str start : StdString α}
    (h : start.units.length ≤ str.units.length) :
    endWith str start = .ok (decide (start.units <:+ str.units)) := by
  have hle : start.size ≤ str.size := by
    rwa [UInt64.le_iff_toNat_le, toNat_size, toNat_size]
  have hpos : (str.size - start.size).toNat = str.units.length - start.units.length := by
    rw [UInt64.toNat_sub_of_le _ _ hle, toNat_size, toNat_size]
  have htake : (str.units.drop (str.units.length - start.units.length)).take
      start.units.length = str.units.drop (str.units.length - start.units.length) :=
    List.take_of_length_le (by rw [List.length_drop]; omega)
  rw [endWith, compare_of_le _ _ (by omega), hpos, toNat_size, htake]
  simp only [List.suffix_iff_eq_drop, eq_comm (a := start.units)]

/-- A suffix that is longer: the difference of the lengths wraps. -/
theorem endWith_of_lt [Ord α] {str start : StdString α}
    (h : str.units.length < start.units.length) :
    endWith str start =
      .error (.at (2 ^ 64 - (start.units.length - str.units.length))) := by
  have hpos : (str.size - start.size).toNat =
      2 ^ 64 - (start.units.length - str.units.length) := by
    have hstart := start.length_lt
    rw [UInt64.toNat_sub, toNat_size, toNat_size]
    omega
  have hlt : str.units.length < (str.size - start.size).toNat := by
    have hstart := start.length_lt
    omega
  rw [endWith, compare_of_lt _ _ hlt, hpos]
  rfl

theorem endWith_ok_iff {str start : StdString UInt8} :
    (∃ b, endWith str start = .ok b) ↔ start.units.length ≤ str.units.length := by
  constructor
  · intro h
    obtain ⟨b, hb⟩ := h
    by_contra hlt
    exact absurd (hb.symm.trans (endWith_of_lt (Nat.lt_of_not_le hlt))) nofun
  · exact fun h => ⟨_, endWith_of_le h⟩

/-- **The two tests.** They answer, and rightly, exactly if the affix is not longer than the
string. -/
theorem affix_iff (str start : StdString UInt8) :
    (startWith str start = .ok (decide (start.units <+: str.units)) ∧
      endWith str start = .ok (decide (start.units <:+ str.units))) ↔
      start.units.length ≤ str.units.length := by
  constructor
  · exact fun h => endWith_ok_iff.mp ⟨_, h.2⟩
  · exact fun h => ⟨startWith_eq str start, endWith_of_le h⟩

/-- A file whose name is one letter. -/
theorem not_affix_short :
    ¬ (startWith (literal "a" (by decide)) (literal "ktx" (by decide)) =
          .ok (decide ((literal "ktx" (by decide)).units <+: (literal "a" (by decide)).units)) ∧
      endWith (literal "a" (by decide)) (literal "ktx" (by decide)) =
        .ok (decide ((literal "ktx" (by decide)).units <:+ (literal "a" (by decide)).units))) := by
  intro h
  exact absurd (h.2.symm.trans (endWith_of_lt (by decide))) nofun

/-- The loader and the window accept the file names of three bytes and more. -/
theorem isKtx_isObj_ok_iff (fileName : StdString UInt8) :
    ((∃ b, isKtx fileName = .ok b) ∧ ∃ b, isObj fileName = .ok b) ↔
      3 ≤ fileName.units.length := by
  rw [isKtx, isObj, endWith_ok_iff, endWith_ok_iff]
  exact and_self_iff

end StdString

/-- On strings that fit in memory the test of the other modules is the one of the source. -/
theorem StringUtils.startWith_eq (str start : String) (hstr : str.toList.length < 2 ^ 64)
    (hstart : start.toList.length < 2 ^ 64) :
    StdString.startWith ⟨str.toList, hstr⟩ ⟨start.toList, hstart⟩ =
      .ok (StringUtils.startWith str start) :=
  StdString.startWith_eq _ _

end Maple
