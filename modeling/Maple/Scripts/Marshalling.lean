import Mathlib.Algebra.GroupWithZero.Nat
import Maple.Lib.Utf16

/-!
# Maple.Scripts.Marshalling

`monoToString` and `stringToMono` of `Scripts/Mono/MonoHelper.cpp`. The second one makes
a UTF-16 string and then passes the bytes of the UTF-8 one: Mono reads two of them for a
code unit, up to a unit that is zero, which is behind the string in memory. **A string
comes back exactly if it has one byte at most and what is behind it is zero.**

A script string is the list of its code units, and memory is read in little-endian order.
-/

namespace Maple.MonoHelper

open Lib

/-- `MonoString`. -/
abbrev MonoString := List UInt16

/-- The code units in memory. -/
def units : List UInt8 → List UInt16
  | low :: high :: bytes => UInt16.ofNat (low.toNat + 0x100 * high.toNat) :: units bytes
  | _ => []

/-- `mono_string_from_utf16`, from the readable memory at the pointer: the units up to the
first zero. -/
def mono_string_from_utf16 (memory : List UInt8) : Option MonoString :=
  if 0 ∈ units memory then some ((units memory).takeWhile (· ≠ 0)) else none

/-- `mono_string_to_utf8`. -/
def mono_string_to_utf8 (str : MonoString) : Option (List UInt8) :=
  (utf16Decode str).map utf8Encode

/-- `StringUtils::UTF8ToUTF16` of a string that is valid. -/
def UTF8ToUTF16 (str : String) : List UInt16 := utf16Encode str.toList

/-- The bytes at `str.c_str()`, with what is behind the string. -/
def c_str (str : String) (behind : List UInt8) : List UInt8 := utf8Encode str.toList ++ 0 :: behind

/-- `monoToString`. -/
def monoToString (str : Option MonoString) : Option (List UInt8) :=
  match str with
  | none => some []
  | some chars => mono_string_to_utf8 chars

/-- `stringToMono`; the string in `utf16` is not used. -/
def stringToMono (str : String) (behind : List UInt8) : Option MonoString :=
  let _utf16 := UTF8ToUTF16 str
  mono_string_from_utf16 (c_str str behind)

/-! ### What the bytes are read as -/

theorem toNat_bytePair (low high : UInt8) :
    (UInt16.ofNat (low.toNat + 0x100 * high.toNat)).toNat = low.toNat + 0x100 * high.toNat := by
  have hlow := low.toNat_lt
  have hhigh := high.toNat_lt
  exact toNat_unit (by omega)

theorem byte_pos {b : UInt8} (hb : b ≠ 0) : 0 < b.toNat :=
  Nat.pos_of_ne_zero (fun h => hb (UInt8.toNat_inj.mp h))

theorem takeWhile_bytePair {low : UInt8} (hlow : low ≠ 0) (high : UInt8) (memory : List UInt8) :
    (units (low :: high :: memory)).takeWhile (· ≠ 0) =
      UInt16.ofNat (low.toNat + 0x100 * high.toNat) :: (units memory).takeWhile (· ≠ 0) := by
  have hne : UInt16.ofNat (low.toNat + 0x100 * high.toNat) ≠ 0 := by
    intro h
    have hnat := congrArg UInt16.toNat h
    rw [toNat_bytePair] at hnat
    have hpos := byte_pos hlow
    exact absurd hnat (by change low.toNat + 0x100 * high.toNat ≠ 0; omega)
  rw [units]
  exact List.takeWhile_cons_of_pos (decide_eq_true hne)

/-- The units read are as wide as the string is long. -/
theorem length_le_sum_unitWidth (bytes behind : List UInt8) (hbytes : 0 ∉ bytes) :
    bytes.length ≤ (((units (bytes ++ 0 :: behind)).takeWhile (· ≠ 0)).map unitWidth).sum := by
  induction bytes using units.induct with
  | case1 low high bytes ih =>
      have hlow : low ≠ 0 := fun h => hbytes (h ▸ List.mem_cons_self)
      have hhigh : high ≠ 0 := fun h => hbytes (h ▸ List.mem_cons_of_mem _ List.mem_cons_self)
      have hrest : 0 ∉ bytes :=
        fun h => hbytes (List.mem_cons_of_mem _ (List.mem_cons_of_mem _ h))
      have hwidth : unitWidth (UInt16.ofNat (low.toNat + 0x100 * high.toNat)) = 2 := by
        have hpos := byte_pos hhigh
        rw [unitWidth, toNat_bytePair, if_neg (by omega)]
      rw [List.cons_append, List.cons_append, takeWhile_bytePair hlow, List.map_cons,
        List.sum_cons, hwidth, List.length_cons, List.length_cons]
      have := ih hrest
      omega
  | case2 bytes hshort =>
      rcases bytes with _ | ⟨b, _ | ⟨high, bytes⟩⟩
      · exact Nat.zero_le _
      · have hb : b ≠ 0 := fun h => hbytes (h ▸ List.mem_cons_self)
        have hwidth : 1 ≤ unitWidth (UInt16.ofNat (b.toNat + 0x100 * (0 : UInt8).toNat)) := by
          rw [unitWidth]
          split
          next => exact Nat.le_refl _
          next => decide
        rw [List.singleton_append, takeWhile_bytePair hb, List.map_cons, List.sum_cons]
        exact Nat.le_trans hwidth (Nat.le_add_right _ _)
      · exact absurd rfl (hshort b high bytes)

/-- The string in UTF-16 is never what two bytes and more are read as. -/
theorem utf16Encode_ne_units {cs : List Char} (hcs : '\x00' ∉ cs)
    (hlength : 2 ≤ (utf8Encode cs).length) (behind : List UInt8) :
    utf16Encode cs ≠ (units (utf8Encode cs ++ 0 :: behind)).takeWhile (· ≠ 0) := by
  intro h
  have hbytes := mt zero_mem_utf8Encode_iff.mp hcs
  have hwidth := length_le_sum_unitWidth (utf8Encode cs) behind hbytes
  rw [← h] at hwidth
  cases cs with
  | nil => exact absurd hlength (by decide)
  | cons c cs =>
    obtain ⟨u, rest, hu, hsingle, hhigh⟩ := utf16EncodeChar_first c
    -- the first unit of the string is the pair of its first two bytes
    have hpair {first second : UInt8} {bytes : List UInt8}
        (hfirst : utf8Encode (c :: cs) = first :: second :: bytes) :
        u.toNat = first.toNat + 0x100 * second.toNat ∧ 0 < second.toNat := by
      rw [hfirst] at hbytes h
      have hnonzero : first ≠ 0 := fun h => hbytes (h ▸ List.mem_cons_self)
      have hsecond : second ≠ 0 :=
        fun h => hbytes (h ▸ List.mem_cons_of_mem _ List.mem_cons_self)
      rw [utf16Encode, List.flatMap_cons, hu, List.cons_append, List.cons_append,
        List.cons_append, takeWhile_bytePair hnonzero] at h
      exact ⟨(List.cons.inj h).1 ▸ toNat_bytePair first second, byte_pos hsecond⟩
    by_cases hascii : c.toNat < 0x80
    · obtain ⟨first, others, hfirst⟩ := List.exists_cons_of_length_pos (Nat.lt_of_succ_lt hlength)
      rw [hfirst] at hlength
      obtain ⟨second, bytes, rfl⟩ :=
        List.exists_cons_of_length_pos (Nat.lt_of_succ_lt_succ hlength)
      obtain ⟨hnat, hpos⟩ := hpair hfirst
      have := hsingle (by omega)
      omega
    · obtain ⟨first, second, bytes, hchar, hlow, hlt⟩ :=
        utf8EncodeChar_wide (Nat.le_of_not_lt hascii)
      have hfirst : utf8Encode (c :: cs) = first :: second :: (bytes ++ utf8Encode cs) := by
        rw [utf8Encode, List.flatMap_cons, hchar]
        rfl
      obtain ⟨hnat, -⟩ := hpair hfirst
      have hbyte := first.toNat_lt
      by_cases hthree : 0x800 ≤ c.toNat ∧ c.toNat < 0x10000
      · exact absurd (sum_unitWidth_lt hthree cs) (Nat.not_lt.mpr hwidth)
      · by_cases htwo : c.toNat < 0x800
        · have := hsingle (by omega)
          omega
        · have := hhigh (by omega)
          omega

/-- The first unit is the terminator. -/
theorem units_zero_iff (memory : List UInt8) :
    0 ∈ units memory ∧ (units memory).takeWhile (· ≠ 0) = [] ↔ [0, 0] <+: memory := by
  match memory with
  | [] => exact ⟨fun h => absurd h.1 List.not_mem_nil, fun h => nomatch List.prefix_nil.mp h⟩
  | [_] => exact ⟨fun h => absurd h.1 List.not_mem_nil,
      fun h => absurd h.length_le (by decide : ¬ 2 ≤ 1)⟩
  | low :: high :: memory =>
    rw [List.cons_prefix_cons, List.cons_prefix_cons, and_iff_left (List.nil_prefix)]
    constructor
    · intro h
      by_cases hzero : UInt16.ofNat (low.toNat + 0x100 * high.toNat) = 0
      · have hnat := congrArg UInt16.toNat hzero
        rw [toNat_bytePair] at hnat
        change low.toNat + 0x100 * high.toNat = 0 at hnat
        exact ⟨UInt8.toNat_inj.mp (by change 0 = low.toNat; omega),
          UInt8.toNat_inj.mp (by change 0 = high.toNat; omega)⟩
      · have hcons := h.2
        rw [units, List.takeWhile_cons, decide_eq_true hzero] at hcons
        exact absurd hcons (List.cons_ne_nil _ _)
    · intro h
      obtain ⟨rfl, rfl⟩ := h
      exact ⟨List.mem_cons_self, rfl⟩

/-! ### The round trip -/

/-- The string comes back. -/
def RoundTrips (str : String) (behind : List UInt8) : Prop :=
  (stringToMono str behind).bind (fun chars => monoToString (some chars)) =
    some (utf8Encode str.toList)

instance (str : String) (behind : List UInt8) : Decidable (RoundTrips str behind) :=
  inferInstanceAs (Decidable (_ = _))

theorem roundTrips_iff_exists {str : String} {behind : List UInt8} :
    RoundTrips str behind ↔ 0 ∈ units (c_str str behind) ∧ ∃ cs,
      utf16Encode cs = (units (c_str str behind)).takeWhile (· ≠ 0) ∧
        utf8Encode cs = utf8Encode str.toList := by
  unfold RoundTrips stringToMono mono_string_from_utf16
  by_cases hzero : 0 ∈ units (c_str str behind)
  · rw [if_pos hzero, and_iff_right hzero]
    change (utf16Decode _).map utf8Encode = _ ↔ _
    rw [Option.map_eq_some_iff]
    exact exists_congr (fun cs => and_congr_left' utf16Decode_eq_some_iff)
  · rw [if_neg hzero]
    exact ⟨fun h => absurd h (by simp), fun h => absurd h.1 hzero⟩

theorem roundTrips_empty {str : String} {behind : List UInt8} (hstr : utf8Encode str.toList = []) :
    RoundTrips str behind ↔ [0] <+: behind := by
  have hmemory : c_str str behind = 0 :: behind := congrArg (· ++ 0 :: behind) hstr
  have hterminator := units_zero_iff (0 :: behind)
  rw [List.cons_prefix_cons, and_iff_right rfl] at hterminator
  rw [roundTrips_iff_exists, hmemory, hstr, ← hterminator]
  refine and_congr_right (fun _ => ⟨?_, ?_⟩)
  · intro h
    obtain ⟨cs, hcs, hbytes⟩ := h
    rw [← hcs, eq_nil_of_utf8Encode hbytes]
    rfl
  · intro h
    exact ⟨[], h.symm, rfl⟩

theorem roundTrips_ascii {str : String} {behind : List UInt8} {c : Char} (hstr : str.toList = [c])
    (hc : c.toNat < 0x80) (hnul : c ≠ '\x00') :
    RoundTrips str behind ↔ [0, 0] <+: behind := by
  have hbyte : (UInt8.ofNat c.toNat).toNat = c.toNat :=
    UInt8.toNat_ofNat_of_lt' (show c.toNat < 256 by omega)
  have hmemory : c_str str behind = UInt8.ofNat c.toNat :: 0 :: behind := by
    rw [c_str, hstr, utf8Encode_ascii hc]
    rfl
  have hunits : units (UInt8.ofNat c.toNat :: 0 :: behind) =
      UInt16.ofNat c.toNat :: units behind := by
    rw [units, hbyte]
    rfl
  have hunit : UInt16.ofNat c.toNat ≠ 0 := by
    intro h
    have hnat := congrArg UInt16.toNat h
    rw [toNat_unit (by omega)] at hnat
    exact hnul (Char.toNat_inj.mp hnat)
  rw [roundTrips_iff_exists, hmemory, hunits, hstr, ← units_zero_iff, List.mem_cons,
    or_iff_right hunit.symm, List.takeWhile_cons, decide_eq_true hunit]
  refine and_congr_right (fun _ => ⟨?_, ?_⟩)
  · intro h
    obtain ⟨cs, hcs, hbytes⟩ := h
    rw [utf8Encode_ascii hc] at hbytes
    obtain ⟨d, rfl, hd⟩ := ascii_of_length_eq_one (congrArg List.length hbytes)
    rw [utf16Encode_ascii hd] at hcs
    exact (List.cons.inj hcs).2.symm
  · intro h
    refine ⟨[c], ?_, rfl⟩
    rw [utf16Encode_ascii hc, h]
    rfl

/-- When a string comes back from its marshalling. -/
theorem stringToMono_roundTrips_iff (str : String) (hstr : '\x00' ∉ str.toList)
    (behind : List UInt8) : RoundTrips str behind ↔ (utf8Encode str.toList).length ≤ 1 ∧
      List.replicate ((utf8Encode str.toList).length + 1) 0 <+: behind := by
  by_cases hlong : 2 ≤ (utf8Encode str.toList).length
  · constructor
    · intro h
      obtain ⟨-, cs, hcs, hbytes⟩ := roundTrips_iff_exists.mp h
      have hnul : '\x00' ∉ cs := by
        rw [← zero_mem_utf8Encode_iff, hbytes, zero_mem_utf8Encode_iff]
        exact hstr
      rw [c_str, ← hbytes] at hcs
      exact absurd hcs (utf16Encode_ne_units hnul (hbytes ▸ hlong) behind)
    · intro h
      exact absurd h.1 (Nat.not_le.mpr hlong)
  · rw [and_iff_right (Nat.le_of_lt_succ (Nat.lt_of_not_le hlong))]
    by_cases hempty : utf8Encode str.toList = []
    · rw [roundTrips_empty hempty, hempty]
      rfl
    · have hlength : (utf8Encode str.toList).length = 1 := by
        have := List.length_pos_of_ne_nil hempty
        omega
      obtain ⟨c, hc, hascii⟩ := ascii_of_length_eq_one hlength
      have hnul : c ≠ '\x00' := fun h => hstr (by rw [hc, h]; exact List.mem_cons_self)
      rw [roundTrips_ascii hc hascii hnul, hlength]
      rfl

/-- A letter in cleared memory. -/
theorem stringToMono_roundTrips_letter : RoundTrips "a" [0, 0, 0] :=
  (stringToMono_roundTrips_iff "a" (by decide) [0, 0, 0]).mpr (by decide)

/-- Two letters are read as one code unit, a Chinese character. -/
theorem stringToMono_two_letters : ¬ ∀ (str : String) (behind : List UInt8),
    '\x00' ∉ str.toList → RoundTrips str behind := by
  intro h
  exact absurd (h "ab" [0, 0, 0] (by decide)) (by decide)

/-! ### The string in UTF-16 -/

/-- The memory that holds the units. -/
def memory (chars : List UInt16) : List UInt8 :=
  chars.flatMap (fun u => [UInt8.ofNat (u.toNat % 0x100), UInt8.ofNat (u.toNat / 0x100)])

theorem units_memory (chars : List UInt16) (behind : List UInt8) :
    units (memory chars ++ behind) = chars ++ units behind := by
  induction chars with
  | nil => rfl
  | cons u chars ih =>
      have hlt := u.toNat_lt
      have hlow : (UInt8.ofNat (u.toNat % 0x100)).toNat = u.toNat % 0x100 :=
        UInt8.toNat_ofNat_of_lt' (show _ < 256 by omega)
      have hhigh : (UInt8.ofNat (u.toNat / 0x100)).toNat = u.toNat / 0x100 :=
        UInt8.toNat_ofNat_of_lt' (show _ < 256 by omega)
      rw [memory, List.flatMap_cons, ← memory, List.append_assoc]
      change units (_ :: _ :: (memory chars ++ behind)) = _
      rw [units, ih, hlow, hhigh, Nat.mod_add_div, UInt16.ofNat_toNat]
      rfl

/-- What `utf16` is made for: from it every string comes back. -/
theorem utf16_roundTrips (str : String) (hstr : '\x00' ∉ str.toList) (behind : List UInt8) :
    (mono_string_from_utf16 (memory (UTF8ToUTF16 str ++ [0]) ++ behind)).bind
      (fun chars => monoToString (some chars)) = some (utf8Encode str.toList) := by
  have hchars : ∀ u ∈ UTF8ToUTF16 str, decide (u ≠ 0) = true :=
    fun u hu => decide_eq_true (fun h => zero_notMem_utf16Encode hstr (h ▸ hu))
  have hzero : 0 ∈ UTF8ToUTF16 str ++ ([0] ++ units behind) :=
    List.mem_append_right _ List.mem_cons_self
  rw [mono_string_from_utf16, units_memory, List.append_assoc, if_pos hzero,
    List.takeWhile_append_of_pos hchars]
  change (utf16Decode (UTF8ToUTF16 str ++ [])).map utf8Encode = _
  rw [List.append_nil, UTF8ToUTF16, utf16Decode_encode]
  rfl

end Maple.MonoHelper
