import Maple.Lib.Fuel
import Maple.Lib.Walk
import Maple.Scripts.MonoAssembly

/-!
# Maple.Scripts.Metadata

**The classes of an image and their nesting.** `Metadata` is what Mono says about a well
formed image: the typedef table lists every class once, a nested class behind the one that
encloses it. Nesting makes the classes a forest (`Metadata.kids`), and
`MonoHelper::getClassName` names a class by the path to it.
-/

namespace Maple

namespace MonoHelper

variable {Raw : Type} (nestingType : Raw → Option Raw) (nameSpace className : Raw → String)

/-- The `do` loop of `getClassName`. -/
def climb : Nat → Raw → String → Option ClassId
  | 0, _, _ => none
  | fuel + 1, nestingClass, typeName =>
    match nestingType nestingClass with
    | some nextNestingClass =>
      climb fuel nextNestingClass ("+" ++ className nestingClass ++ typeName)
    | none => some ⟨nameSpace nestingClass, className nestingClass ++ typeName⟩

/-- `MonoHelper::getClassName`. -/
def getClassName (fuel : Nat) (monoClass : Raw) : Option ClassId :=
  match nestingType monoClass with
  | none => some ⟨nameSpace monoClass, className monoClass⟩
  | some nestingClass => climb nestingType nameSpace className fuel nestingClass
      ("+" ++ className monoClass)

end MonoHelper

variable {Raw : Type} [DecidableEq Raw]

/-- What Mono says about the classes of an image. -/
structure Metadata (image : MonoImage Raw) where
  /-- `mono_class_get_nesting_type` -/
  nestingType : Raw → Option Raw
  /-- `mono_class_get_namespace` -/
  nameSpace : Raw → String
  /-- the class of the first row, which `getAllClasses` skips -/
  module : Raw
  module_nesting : nestingType module = none
  nodup : (module :: image.typeDefs).Nodup
  nesting : ∀ before raw after outer, image.typeDefs = before ++ raw :: after →
    nestingType raw = some outer → outer ∈ before
  nested_nodup : ∀ raw ∈ image.typeDefs, (image.nestedTypes raw).Nodup
  mem_nested : ∀ raw ∈ image.typeDefs, ∀ nested, nested ∈ image.nestedTypes raw ↔
    nested ∈ image.typeDefs ∧ nestingType nested = some raw
  getClassName : ∀ raw ∈ module :: image.typeDefs, Lib.Settles
    (MonoHelper.getClassName nestingType nameSpace image.className · raw)
    (some (image.getClassName raw))
  /-- A class is found by name if no class encloses it. -/
  classFromName : ∀ id raw, image.Plain id → (image.classFromName id = some raw ↔
    raw ∈ module :: image.typeDefs ∧ nestingType raw = none ∧ image.getClassName raw = id)
  distinct : ∀ raw ∈ module :: image.typeDefs, ∀ raw' ∈ module :: image.typeDefs,
    image.getClassName raw = image.getClassName raw' → raw = raw'

namespace Metadata

variable {image : MonoImage Raw} (M : Metadata image) {raw outer : Raw}

/-! ### Names -/

omit [DecidableEq Raw] in
/-- What is behind the name of a class is appended last. -/
theorem climb_append {nestingType : Raw → Option Raw} {nameSpace className : Raw → String}
    {fuel : Nat} {typeName : String} {id : ClassId} (behind : String)
    (h : MonoHelper.climb nestingType nameSpace className fuel raw typeName = some id) :
    MonoHelper.climb nestingType nameSpace className fuel raw (typeName ++ behind) =
      some ⟨id.namespaceName, id.name ++ behind⟩ := by
  induction fuel generalizing raw typeName with
  | zero => exact nomatch h
  | succ fuel ih =>
      rw [MonoHelper.climb] at h ⊢
      cases hnesting : nestingType raw with
      | some next =>
          rw [hnesting] at h
          simp only [← String.append_assoc]
          exact ih h
      | none =>
          rw [hnesting] at h
          obtain rfl := Option.some.inj h
          simp only [String.append_assoc]

omit [DecidableEq Raw] in
/-- A turn of the loop at a class is the naming of that class. -/
theorem climb_of_getClassName {nestingType : Raw → Option Raw} {nameSpace className : Raw → String}
    {fuel : Nat} {id : ClassId}
    (h : MonoHelper.getClassName nestingType nameSpace className fuel raw = some id)
    (typeName : String) :
    MonoHelper.climb nestingType nameSpace className (fuel + 1) raw typeName =
      some ⟨id.namespaceName, id.name ++ typeName⟩ := by
  rw [MonoHelper.climb]
  rw [MonoHelper.getClassName] at h
  cases hnesting : nestingType raw with
  | some next =>
      rw [hnesting] at h
      exact climb_append typeName h
  | none =>
      rw [hnesting] at h
      obtain rfl := Option.some.inj h
      rfl

omit [DecidableEq Raw] in
/-- A nested class has the name of the class around it, and its own behind a plus. -/
theorem settles_nested {nestingType : Raw → Option Raw} {nameSpace className : Raw → String}
    {id : ClassId}
    (h : Lib.Settles (MonoHelper.getClassName nestingType nameSpace className · outer) (some id))
    (hnested : nestingType raw = some outer) :
    Lib.Settles (MonoHelper.getClassName nestingType nameSpace className · raw)
      (some ⟨id.namespaceName, id.name ++ "+" ++ className raw⟩) := by
  obtain ⟨N, hN⟩ := h
  refine .of_succ ⟨N, fun fuel hfuel => ?_⟩
  simp only [MonoHelper.getClassName, hnested, climb_of_getClassName (hN fuel hfuel),
    String.append_assoc]

omit [DecidableEq Raw] in
theorem getClassName_nested (hraw : raw ∈ image.typeDefs) (houter : outer ∈ image.typeDefs)
    (hnested : M.nestingType raw = some outer) :
    image.getClassName raw = ⟨(image.getClassName outer).namespaceName,
      (image.getClassName outer).name ++ "+" ++ image.className raw⟩ := by
  have hname := M.getClassName raw (List.mem_cons_of_mem _ hraw)
  have houter := M.getClassName outer (List.mem_cons_of_mem _ houter)
  exact Option.some.inj (hname.unique (settles_nested houter hnested))

/-! ### Nesting -/

/-- The class itself or one that encloses it. -/
def Encloses (a x : Raw) : Prop :=
  Relation.ReflTransGen (fun outer nested => M.nestingType nested = some outer) a x

variable (attrib : Option Raw)

/-- Neither the class nor one that encloses it is compiler generated. -/
def Counted (x : Raw) : Prop := ∀ a, M.Encloses a x → image.hasAttribute a attrib = false

/-- The nested types that are not compiler generated. -/
def kids (image : MonoImage Raw) (attrib : Option Raw) (p : Raw) : List Raw :=
  if p ∈ image.typeDefs then (image.nestedTypes p).filter fun c => !image.hasAttribute c attrib
  else []

variable {attrib} {p c x : Raw}

theorem kids_eq (hp : p ∈ image.typeDefs) :
    kids image attrib p = (image.nestedTypes p).filter fun c => !image.hasAttribute c attrib :=
  if_pos hp

theorem mem_kids : c ∈ kids image attrib p ↔ p ∈ image.typeDefs ∧ c ∈ image.typeDefs ∧
    M.nestingType c = some p ∧ image.hasAttribute c attrib = false := by
  by_cases hp : p ∈ image.typeDefs
  · rw [kids_eq hp, List.mem_filter, M.mem_nested p hp, Bool.not_eq_true', and_assoc,
      and_iff_right hp]
  · rw [kids, if_neg hp]
    exact iff_of_false List.not_mem_nil fun h => hp h.1

theorem idxOf_lt (hraw : raw ∈ image.typeDefs) (hnested : M.nestingType raw = some outer) :
    outer ∈ image.typeDefs ∧ image.typeDefs.idxOf outer < image.typeDefs.idxOf raw := by
  obtain ⟨before, after, heq⟩ := List.append_of_mem hraw
  have houter := M.nesting before raw after outer heq hnested
  have hnodup := (List.nodup_cons.mp M.nodup).2
  rw [heq] at hnodup ⊢
  have hfresh : raw ∉ before := fun hmem =>
    (List.nodup_append.mp hnodup).2.2 raw hmem raw (List.mem_cons_self ..) rfl
  refine ⟨List.mem_append_left _ houter, ?_⟩
  rw [List.idxOf_append_of_mem houter, List.idxOf_append_of_notMem hfresh, List.idxOf_cons_self]
  exact List.idxOf_lt_length_of_mem houter

/-- Nesting makes the classes a forest. -/
theorem kids_forest (M : Metadata image) : Lib.Kids (kids image attrib) := by
  refine ⟨fun p => ?_, fun p q c hp hq => ?_, image.typeDefs.idxOf, image.typeDefs.length,
    fun p c hc => ?_⟩
  · by_cases hp : p ∈ image.typeDefs
    · rw [kids_eq hp]
      exact (M.nested_nodup p hp).filter _
    · rw [kids, if_neg hp]
      exact List.nodup_nil
  · have hp := (M.mem_kids.mp hp).2.2.1
    exact Option.some.inj (hp.symm.trans (M.mem_kids.mp hq).2.2.1)
  · obtain ⟨-, hc, hnested, -⟩ := M.mem_kids.mp hc
    exact ⟨(M.idxOf_lt hc hnested).2, Nat.le_of_lt (List.idxOf_lt_length_of_mem hc)⟩

omit [DecidableEq Raw] in
theorem Counted.of_encloses {M : Metadata image} {a : Raw} (hx : M.Counted attrib x)
    (ha : M.Encloses a x) :
    M.Counted attrib a :=
  fun b hb => hx b (hb.trans ha)

omit [DecidableEq Raw] in
theorem counted_nested (hnested : M.nestingType c = some p) :
    M.Counted attrib c ↔ M.Counted attrib p ∧ image.hasAttribute c attrib = false := by
  constructor
  · intro hc
    exact ⟨hc.of_encloses (Relation.ReflTransGen.single hnested), hc c .refl⟩
  · intro h a ha
    rcases Relation.ReflTransGen.cases_tail ha with heq | ⟨q, hq, hcq⟩
    · exact heq ▸ h.2
    · obtain rfl := Option.some.inj (hnested.symm.trans hcq)
      exact h.1 a hq

omit [DecidableEq Raw] in
theorem eq_of_encloses_top {a : Raw} (htop : M.nestingType x = none) (ha : M.Encloses a x) :
    x = a := by
  rcases Relation.ReflTransGen.cases_tail ha with heq | ⟨outer, -, houter⟩
  · exact heq
  · exact nomatch htop.symm.trans houter

omit [DecidableEq Raw] in
theorem counted_top (htop : M.nestingType x = none) (hx : image.hasAttribute x attrib = false) :
    M.Counted attrib x :=
  fun _ ha => M.eq_of_encloses_top htop ha ▸ hx

omit [DecidableEq Raw] in
/-- The classes around a class come before it. -/
theorem mem_of_encloses {before after : List Raw} (htable : image.typeDefs = before ++ after)
    {a : Raw} (ha : M.Encloses a x) (hx : x ∈ before) : a ∈ before := by
  induction ha with
  | refl => exact hx
  | @tail outer x _ houter ih =>
      obtain ⟨first, last, rfl⟩ := List.append_of_mem hx
      refine ih (List.mem_append_left _ ?_)
      exact M.nesting first x (last ++ after) outer (by simpa using htable) houter

/-- A counted class is reached from every class that encloses it. -/
theorem below_of_encloses {a : Raw} (hx : M.Counted attrib x) (hmem : x ∈ image.typeDefs)
    (ha : M.Encloses a x) : Lib.Below (kids image attrib) a x := by
  induction ha with
  | refl => exact .refl
  | tail hq hc ih =>
      obtain ⟨hq', hattrib⟩ := (M.counted_nested hc).mp hx
      have houter := (M.idxOf_lt hmem hc).1
      exact (ih hq' houter).tail (M.mem_kids.mpr ⟨houter, hmem, hc, hattrib⟩)

theorem encloses_of_below {a : Raw} (h : Lib.Below (kids image attrib) a x) : M.Encloses a x := by
  induction h with
  | refl => exact .refl
  | tail _ hc ih => exact ih.tail (M.mem_kids.mp hc).2.2.1

/-- Every class is in one that no class encloses. -/
theorem exists_top (hx : x ∈ image.typeDefs) :
    ∃ r ∈ image.typeDefs, M.nestingType r = none ∧ M.Encloses r x := by
  induction hindex : image.typeDefs.idxOf x using Nat.strongRecOn generalizing x with
  | ind n ih =>
      cases hnesting : M.nestingType x with
      | none => exact ⟨x, hx, hnesting, .refl⟩
      | some outer =>
          obtain ⟨houter, hlt⟩ := M.idxOf_lt hx hnesting
          obtain ⟨r, hr, htop, hencloses⟩ := ih _ (hindex ▸ hlt) houter rfl
          exact ⟨r, hr, htop, hencloses.tail hnesting⟩

end Metadata

end Maple
