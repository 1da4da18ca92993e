import Mathlib.Algebra.BigOperators.Group.List.Basic
import Mathlib.Algebra.GroupWithZero.Nat
import Mathlib.Tactic.SplitIfs

/-!
# Maple.Lib.Utf16

**UTF-16 by its code units.** A scalar value below `0x10000` is one unit, any other a pair
of surrogates. Decoding is partial: a surrogate that is not part of a pair has no meaning
(`utf16Decode_eq_some_iff`).

`unitWidth` bounds how long the same text is in UTF-8.
-/

namespace Maple.Lib

def utf16EncodeChar (c : Char) : List UInt16 :=
  if c.toNat < 0x10000 then [UInt16.ofNat c.toNat]
  else [UInt16.ofNat (0xd800 + (c.toNat - 0x10000) / 0x400),
    UInt16.ofNat (0xdc00 + (c.toNat - 0x10000) % 0x400)]

def utf16Encode (cs : List Char) : List UInt16 := cs.flatMap utf16EncodeChar

/-- The unit is half of a pair. -/
def IsSurrogate (u : UInt16) : Prop := 0xd800 ≤ u.toNat ∧ u.toNat < 0xe000

instance (u : UInt16) : Decidable (IsSurrogate u) := inferInstanceAs (Decidable (_ ∧ _))

def utf16Decode : List UInt16 → Option (List Char)
  | [] => some []
  | u :: units =>
    if IsSurrogate u then
      match units with
      | low :: units =>
        if u.toNat < 0xdc00 ∧ 0xdc00 ≤ low.toNat ∧ low.toNat < 0xe000 then
          (utf16Decode units).map
            (Char.ofNat (0x10000 + (u.toNat - 0xd800) * 0x400 + (low.toNat - 0xdc00)) :: ·)
        else none
      | [] => none
    else (utf16Decode units).map (Char.ofNat u.toNat :: ·)

theorem utf16Decode_single {u : UInt16} (hu : ¬ IsSurrogate u) (units : List UInt16) :
    utf16Decode (u :: units) = (utf16Decode units).map (Char.ofNat u.toNat :: ·) := by
  rw [utf16Decode.eq_def]
  exact if_neg hu

theorem utf16Decode_pair {u low : UInt16} (hu : 0xd800 ≤ u.toNat ∧ u.toNat < 0xdc00)
    (hlow : 0xdc00 ≤ low.toNat ∧ low.toNat < 0xe000) (units : List UInt16) :
    utf16Decode (u :: low :: units) = (utf16Decode units).map
      (Char.ofNat (0x10000 + (u.toNat - 0xd800) * 0x400 + (low.toNat - 0xdc00)) :: ·) := by
  have hsurrogate : IsSurrogate u := ⟨hu.1, by omega⟩
  rw [utf16Decode.eq_def]
  exact (if_pos hsurrogate).trans (if_pos ⟨hu.2, hlow⟩)

theorem toNat_charOfNat {n : Nat} (h : n.isValidChar) : (Char.ofNat n).toNat = n := by
  rw [Char.ofNat, dif_pos h]
  rfl

theorem char_valid (c : Char) : c.toNat < 0xd800 ∨ 0xdfff < c.toNat ∧ c.toNat < 0x110000 := c.valid

theorem toNat_unit {n : Nat} (h : n < 0x10000) : (UInt16.ofNat n).toNat = n :=
  UInt16.toNat_ofNat_of_lt' h

theorem utf16Encode_ascii {c : Char} (hc : c.toNat < 0x80) :
    utf16Encode [c] = [UInt16.ofNat c.toNat] := by
  rw [utf16Encode, List.flatMap_singleton, utf16EncodeChar, if_pos (by omega)]

/-- The first unit: the character itself, or the high surrogate. -/
theorem utf16EncodeChar_first (c : Char) : ∃ u rest, utf16EncodeChar c = u :: rest ∧
    (c.toNat < 0x10000 → u.toNat = c.toNat) ∧ (0x10000 ≤ c.toNat → 0xd800 ≤ u.toNat) := by
  have hvalid := char_valid c
  unfold utf16EncodeChar
  split
  next hc => exact ⟨_, _, rfl, fun _ => toNat_unit hc, fun h => absurd hc (Nat.not_lt.mpr h)⟩
  next hc =>
      refine ⟨_, _, rfl, fun h => absurd h hc, fun _ => ?_⟩
      rw [toNat_unit (by omega)]
      exact Nat.le_add_right _ _

theorem zero_notMem_utf16Encode {cs : List Char} (hcs : '\x00' ∉ cs) : 0 ∉ utf16Encode cs := by
  intro h
  obtain ⟨c, hc, hzero⟩ := List.mem_flatMap.mp h
  have hnul : c ≠ '\x00' := fun h => hcs (h ▸ hc)
  have hpos : c.toNat ≠ 0 := fun h => hnul (Char.toNat_inj.mp h)
  have hvalid := char_valid c
  have hunit {n : Nat} (h : n ≠ 0) (hlt : n < 0x10000) : 0 ≠ UInt16.ofNat n :=
    fun heq => h ((congrArg UInt16.toNat heq).trans (toNat_unit hlt)).symm
  unfold utf16EncodeChar at hzero
  split at hzero
  next hlt => exact hunit hpos hlt (List.mem_singleton.mp hzero)
  next hlt =>
      rw [List.mem_cons, List.mem_singleton] at hzero
      cases hzero with
      | inl hhigh => exact hunit (by omega) (by omega) hhigh
      | inr hlow => exact hunit (by omega) (by omega) hlow

/-- Decoding undoes encoding. -/
theorem utf16Decode_encode (cs : List Char) : utf16Decode (utf16Encode cs) = some cs := by
  induction cs with
  | nil => rfl
  | cons c cs ih =>
      have hvalid := char_valid c
      rw [utf16Encode, List.flatMap_cons, utf16EncodeChar, ← utf16Encode]
      split
      next hc =>
          have hunit := toNat_unit hc
          have hsingle : ¬ IsSurrogate (UInt16.ofNat c.toNat) := by
            rw [IsSurrogate, hunit]
            omega
          rw [List.singleton_append, utf16Decode_single hsingle, ih, hunit, Char.ofNat_toNat]
          rfl
      next hc =>
          have hhigh : (UInt16.ofNat (0xd800 + (c.toNat - 0x10000) / 0x400)).toNat =
              0xd800 + (c.toNat - 0x10000) / 0x400 := toNat_unit (by omega)
          have hlow : (UInt16.ofNat (0xdc00 + (c.toNat - 0x10000) % 0x400)).toNat =
              0xdc00 + (c.toNat - 0x10000) % 0x400 := toNat_unit (by omega)
          rw [List.cons_append, List.singleton_append,
            utf16Decode_pair (by rw [hhigh]; omega) (by rw [hlow]; omega), ih, hhigh, hlow,
            Option.map_some, Option.some.injEq, List.cons.injEq, and_iff_left rfl,
            ← Char.toNat_inj, toNat_charOfNat]
          · omega
          · exact .inr (by omega)

/-- Only what encoding gives is decoded. -/
theorem utf16Encode_of_decode {units : List UInt16} {cs : List Char}
    (h : utf16Decode units = some cs) : utf16Encode cs = units := by
  induction units using utf16Decode.induct generalizing cs with
  | case1 =>
      obtain rfl := Option.some.inj h
      rfl
  | case2 u hu low units hpair ih =>
      rw [utf16Decode_pair ⟨hu.1, hpair.1⟩ hpair.2] at h
      obtain ⟨cs, hcs, rfl⟩ := Option.map_eq_some_iff.mp h
      have hc : (Char.ofNat (0x10000 + (u.toNat - 0xd800) * 0x400 + (low.toNat - 0xdc00))).toNat =
          0x10000 + (u.toNat - 0xd800) * 0x400 + (low.toNat - 0xdc00) :=
        toNat_charOfNat (.inr (by omega))
      rw [utf16Encode, List.flatMap_cons, utf16EncodeChar, hc, if_neg (by omega), ← utf16Encode,
        ih hcs]
      obtain ⟨hhigh, -⟩ := hu
      have hu : 0xd800 + (0x10000 + (u.toNat - 0xd800) * 0x400 + (low.toNat - 0xdc00) - 0x10000)
          / 0x400 = u.toNat := by omega
      have hlow : 0xdc00 + (0x10000 + (u.toNat - 0xd800) * 0x400 + (low.toNat - 0xdc00) - 0x10000)
          % 0x400 = low.toNat := by omega
      rw [hu, hlow, UInt16.ofNat_toNat, UInt16.ofNat_toNat]
      rfl
  | case3 u hu low units hpair =>
      rw [utf16Decode.eq_def] at h
      exact nomatch ((if_pos hu).trans (if_neg hpair)).symm.trans h
  | case4 u hu =>
      rw [utf16Decode.eq_def] at h
      exact nomatch (if_pos hu).symm.trans h
  | case5 u units hu ih =>
      rw [utf16Decode_single hu] at h
      obtain ⟨cs, hcs, rfl⟩ := Option.map_eq_some_iff.mp h
      have hlt : u.toNat < 0x10000 := u.toNat_lt
      have hc : (Char.ofNat u.toNat).toNat = u.toNat := by
        refine toNat_charOfNat ?_
        rw [IsSurrogate] at hu
        exact (by omega : u.toNat < 0xd800 ∨ 0xdfff < u.toNat ∧ u.toNat < 0x110000)
      rw [utf16Encode, List.flatMap_cons, utf16EncodeChar, hc, if_pos hlt, ← utf16Encode, ih hcs,
        UInt16.ofNat_toNat]
      rfl

theorem utf16Decode_eq_some_iff {units : List UInt16} {cs : List Char} :
    utf16Decode units = some cs ↔ utf16Encode cs = units :=
  ⟨utf16Encode_of_decode, fun h => h ▸ utf16Decode_encode cs⟩

/-! ### The same text in UTF-8 -/

def utf8Encode (cs : List Char) : List UInt8 := cs.flatMap String.utf8EncodeChar

/-- A unit stands for as many bytes at least. -/
def unitWidth (u : UInt16) : Nat := if u.toNat < 0x80 then 1 else 2

theorem unitWidth_le_two (u : UInt16) : unitWidth u ≤ 2 := by
  unfold unitWidth
  split
  next => decide
  next => exact Nat.le_refl _

theorem length_utf8EncodeChar (c : Char) : (String.utf8EncodeChar c).length =
    if c.toNat < 0x80 then 1 else if c.toNat < 0x800 then 2 else if c.toNat < 0x10000 then 3
    else 4 := by
  have hval : c.val.toNat = c.toNat := rfl
  unfold String.utf8EncodeChar
  simp only [hval]
  split_ifs <;> first | rfl | omega

theorem utf8EncodeChar_ascii {c : Char} (hc : c.toNat < 0x80) :
    String.utf8EncodeChar c = [UInt8.ofNat c.toNat] :=
  if_pos (Nat.le_of_lt_succ hc)

/-- Bytes behind the first one are continuation bytes. -/
theorem utf8EncodeChar_wide {c : Char} (hc : 0x80 ≤ c.toNat) : ∃ first second rest,
    String.utf8EncodeChar c = first :: second :: rest ∧
      0x80 ≤ second.toNat ∧ second.toNat < 0xc0 := by
  have hcontinuation (n : Nat) : (UInt8.ofNat (n % 0x40 + 0x80)).toNat = n % 0x40 + 0x80 :=
    UInt8.toNat_ofNat_of_lt' (show _ < 256 by omega)
  have hval : c.val.toNat = c.toNat := rfl
  unfold String.utf8EncodeChar
  simp only [hval]
  rw [if_neg (by omega)]
  split_ifs <;> refine ⟨_, _, _, rfl, ?_⟩ <;> rw [hcontinuation] <;> omega

theorem utf8Encode_ascii {c : Char} (hc : c.toNat < 0x80) :
    utf8Encode [c] = [UInt8.ofNat c.toNat] := by
  rw [utf8Encode, List.flatMap_singleton, utf8EncodeChar_ascii hc]

theorem zero_notMem_utf8EncodeChar {c : Char} (hc : c ≠ '\x00') :
    0 ∉ String.utf8EncodeChar c := by
  have hbyte {n : Nat} (hpos : 0 < n) (hlt : n < 256) : (0 : UInt8) ≠ UInt8.ofNat n := by
    intro h
    have hn := congrArg UInt8.toNat h
    rw [UInt8.toNat_ofNat_of_lt' (show n < 256 from hlt)] at hn
    exact absurd hn (Nat.ne_of_lt hpos)
  have hpos : 0 < c.toNat := Nat.pos_of_ne_zero (fun h => hc (Char.toNat_inj.mp h))
  have hval : c.val.toNat = c.toNat := rfl
  unfold String.utf8EncodeChar
  simp only [hval]
  split_ifs <;> simp only [List.mem_cons, List.not_mem_nil, or_false, not_or]
  next => exact hbyte hpos (by omega)
  next => exact ⟨hbyte (by omega) (by omega), hbyte (by omega) (by omega)⟩
  next =>
      exact ⟨hbyte (by omega) (by omega), hbyte (by omega) (by omega), hbyte (by omega) (by omega)⟩
  next =>
      exact ⟨hbyte (by omega) (by omega), hbyte (by omega) (by omega), hbyte (by omega) (by omega),
        hbyte (by omega) (by omega)⟩

theorem zero_mem_utf8Encode_iff {cs : List Char} : 0 ∈ utf8Encode cs ↔ '\x00' ∈ cs := by
  constructor
  · intro h
    obtain ⟨c, hc, hzero⟩ := List.mem_flatMap.mp h
    by_cases hnul : c = '\x00'
    · exact hnul ▸ hc
    · exact absurd hzero (zero_notMem_utf8EncodeChar hnul)
  · intro h
    exact List.mem_flatMap.mpr ⟨_, h, List.mem_singleton.mpr rfl⟩

theorem utf8EncodeChar_length_pos (c : Char) : 0 < (String.utf8EncodeChar c).length :=
  List.length_pos_of_ne_nil String.utf8EncodeChar_ne_nil

theorem eq_nil_of_utf8Encode {cs : List Char} (h : utf8Encode cs = []) : cs = [] := by
  cases cs with
  | nil => rfl
  | cons c cs => exact absurd (List.append_eq_nil_iff.mp h).1 String.utf8EncodeChar_ne_nil

/-- One byte is one ASCII character. -/
theorem ascii_of_length_eq_one {cs : List Char} (h : (utf8Encode cs).length = 1) :
    ∃ c, cs = [c] ∧ c.toNat < 0x80 := by
  match cs with
  | [] => exact absurd h (by decide)
  | c :: rest =>
    have hc := utf8EncodeChar_length_pos c
    have hlength := length_utf8EncodeChar c
    rw [utf8Encode, List.flatMap_cons, List.length_append] at h
    have hrest : utf8Encode rest = [] := List.length_eq_zero_iff.mp (by
      change (List.flatMap String.utf8EncodeChar rest).length = 0
      omega)
    refine ⟨c, congrArg (c :: ·) (eq_nil_of_utf8Encode hrest), ?_⟩
    split_ifs at hlength <;> omega

theorem sum_unitWidth_char (c : Char) :
    ((utf16EncodeChar c).map unitWidth).sum ≤ (String.utf8EncodeChar c).length := by
  rw [length_utf8EncodeChar]
  unfold utf16EncodeChar
  split
  next hc =>
      have hunit := toNat_unit hc
      rw [List.map_singleton, List.sum_singleton, unitWidth, hunit]
      split_ifs <;> omega
  next hc =>
      rw [List.map_cons, List.map_singleton, List.sum_cons, List.sum_singleton,
        if_neg (by omega), if_neg (by omega)]
      exact Nat.add_le_add (unitWidth_le_two _) (unitWidth_le_two _)

theorem sum_unitWidth_le (cs : List Char) :
    ((utf16Encode cs).map unitWidth).sum ≤ (utf8Encode cs).length := by
  induction cs with
  | nil => exact Nat.le_refl _
  | cons c cs ih =>
      rw [utf16Encode, utf8Encode, List.flatMap_cons, List.flatMap_cons, List.map_append,
        List.sum_append, List.length_append]
      exact Nat.add_le_add (sum_unitWidth_char c) ih

/-- A first character of three bytes is one unit only. -/
theorem sum_unitWidth_lt {c : Char} (hc : 0x800 ≤ c.toNat ∧ c.toNat < 0x10000) (cs : List Char) :
    ((utf16Encode (c :: cs)).map unitWidth).sum < (utf8Encode (c :: cs)).length := by
  have hchar : ((utf16EncodeChar c).map unitWidth).sum < (String.utf8EncodeChar c).length := by
    rw [length_utf8EncodeChar, if_neg (by omega), if_neg (by omega), if_pos hc.2, utf16EncodeChar,
      if_pos hc.2, List.map_singleton, List.sum_singleton]
    exact Nat.lt_succ_of_le (unitWidth_le_two _)
  rw [utf16Encode, utf8Encode, List.flatMap_cons, List.flatMap_cons, List.map_append,
    List.sum_append, List.length_append]
  exact Nat.add_lt_add_of_lt_of_le hchar (sum_unitWidth_le cs)

end Maple.Lib
