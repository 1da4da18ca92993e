import Mathlib.Algebra.GroupWithZero.Nat
import Maple.Scripts.ClassWrappers
import Maple.Scripts.Metadata

/-!
# Maple.Scripts.AllClasses

**The list of all classes.** `getAllClasses` asks for every row by its name, and from the
class that it gets it walks down the nested types. Mono finds no nested class by name, but
the walk has put one into `classes` by the time its row comes, unless its name is generic:
a nested class is then walked down and listed once more. So the list has no duplicates
exactly if all nested classes are generic.
-/

namespace Maple

open Lib

variable {Raw : Type} [DecidableEq Raw] {image : MonoImage Raw}

namespace MapleMonoAssembly

/-- What the tables of an assembly hold while the list is made. -/
structure Tidy (M : Metadata image) (attrib : Option Raw) (a : MapleMonoAssembly Raw) : Prop where
  by_raw : ∀ raw w, a.classesByRaw raw = some w →
    w.clazz = raw ∧ raw ∈ M.module :: image.typeDefs ∧ w.classId = image.getClassName raw
  by_name : ∀ id w, a.classes id = some w →
    w.classId = id ∧ w.clazz ∈ M.module :: image.typeDefs ∧ image.getClassName w.clazz = id
  named : ∀ raw, a.classesByRaw raw ≠ none →
    isGenericClass (image.getClassName raw).name = false →
    a.classes (image.getClassName raw) ≠ none
  reached : ∀ id w outer, a.classes id = some w → M.nestingType w.clazz = some outer →
    M.Counted attrib outer ∧ isGenericClass id.name = false

/-- A class with a wrapper keeps one. -/
def Grows (a a' : MapleMonoAssembly Raw) : Prop :=
  ∀ raw, a.classesByRaw raw ≠ none → a'.classesByRaw raw ≠ none

variable {M : Metadata image} {attrib : Option Raw} {a : MapleMonoAssembly Raw} {raw : Raw}
variable {named : Bool}

theorem Grows.wrap (id : ClassId) (raw : Raw) (named : Bool) : Grows a (a.wrap id raw named) := by
  intro raw' h
  by_cases hraw : raw' = raw
  · rw [hraw, wrap_classesByRaw_self]
    exact nofun
  · rwa [wrap_classesByRaw_of_ne id named hraw]

theorem wrap_classes_ne_none {id id' : ClassId} (h : a.classes id' ≠ none) :
    (a.wrap id raw named).classes id' ≠ none := by
  cases named with
  | false => exact h
  | true =>
      rw [wrap_named_classes]
      by_cases hid : id' = id
      · rw [hid, Function.update_self]
        exact nofun
      · rwa [Function.update_of_ne hid]

/-- A class of the image is wrapped under its own name. -/
theorem Tidy.wrap (ha : Tidy M attrib a) (hraw : raw ∈ M.module :: image.typeDefs)
    (hnamed : isGenericClass (image.getClassName raw).name = false → named = true)
    (hreached : ∀ outer, M.nestingType raw = some outer → named = true →
      M.Counted attrib outer ∧ isGenericClass (image.getClassName raw).name = false) :
    Tidy M attrib (a.wrap (image.getClassName raw) raw named) := by
  constructor
  · intro raw' w hw
    rcases wrap_classesByRaw_cases hw with ⟨rfl, rfl⟩ | ⟨-, hw⟩
    · exact ⟨rfl, hraw, rfl⟩
    · exact ha.by_raw raw' w hw
  · intro id w hw
    rcases wrap_classes_cases hw with ⟨rfl, rfl, -⟩ | hw
    · exact ⟨rfl, hraw, rfl⟩
    · exact ha.by_name id w hw
  · intro raw' hheld hgeneric
    by_cases hraw' : raw' = raw
    · rw [hraw'] at hgeneric ⊢
      rw [hnamed hgeneric, wrap_named_classes, Function.update_self]
      exact nofun
    · rw [wrap_classesByRaw_of_ne _ _ hraw'] at hheld
      exact wrap_classes_ne_none (ha.named raw' hheld hgeneric)
  · intro id w outer hw houter
    rcases wrap_classes_cases hw with ⟨rfl, rfl, hnew⟩ | hw
    · exact hreached outer houter hnew
    · exact ha.reached id w outer hw houter

/-- The wrapper is one of this class. -/
def Wraps (image : MonoImage Raw) (w : MapleMonoClass Raw) (raw : Raw) : Prop :=
  w.clazz = raw ∧ w.classId = image.getClassName raw

/-- The tables stay tidy, no class loses its wrapper, and the list is not touched. -/
structure Follows (M : Metadata image) (attrib : Option Raw) (a a' : MapleMonoAssembly Raw) :
    Prop where
  tidy : Tidy M attrib a'
  grows : Grows a a'
  list : a'.cachedClassList = a.cachedClassList

/-- By name Mono finds a class that no class encloses. -/
theorem Tidy.getClassByName (ha : Tidy M attrib a) {id : ClassId} (hid : image.Plain id) :
    Follows M attrib a (a.getClassByName image id).2 := by
  unfold MapleMonoAssembly.getClassByName
  split
  next => exact ⟨ha, fun _ h => h, rfl⟩
  next hmiss =>
      split
      next => exact ⟨ha, fun _ h => h, rfl⟩
      next raw hfound =>
          obtain ⟨hraw, htop, rfl⟩ := (M.classFromName id raw hid).mp hfound
          refine ⟨ha.wrap hraw (fun _ => rfl) fun outer houter => ?_, Grows.wrap _ _ _, rfl⟩
          exact nomatch htop.symm.trans houter

/-- The name of a class gives a wrapper of it; for a nested class there has to be one in the
table, which the walk has put there. -/
theorem Tidy.getClassByName_answer (ha : Tidy M attrib a)
    (hraw : raw ∈ M.module :: image.typeDefs) {w : MapleMonoClass Raw}
    (h : (a.getClassByName image (image.getClassName raw)).1 = some w) :
    Wraps image w raw ∧ ∀ outer, M.nestingType raw = some outer →
      M.Counted attrib outer ∧ isGenericClass (image.getClassName raw).name = false := by
  unfold MapleMonoAssembly.getClassByName at h
  split at h
  next found hfound =>
      obtain rfl := Option.some.inj h
      obtain ⟨hid, hmem, hname⟩ := ha.by_name _ _ hfound
      obtain rfl := M.distinct _ hmem _ hraw hname
      exact ⟨⟨rfl, hid⟩, fun outer houter => ha.reached _ _ outer hfound houter⟩
  next hmiss =>
      split at h
      next => exact nomatch h
      next raw' hfound =>
          obtain rfl := Option.some.inj h
          obtain ⟨hmem, htop, hname⟩ := (M.classFromName _ raw' (.inr ⟨raw, rfl⟩)).mp hfound
          obtain rfl := M.distinct _ hmem _ hraw hname
          exact ⟨⟨rfl, rfl⟩, fun outer houter => nomatch htop.symm.trans houter⟩

theorem Tidy.getClassByName_none (hraw : raw ∈ M.module :: image.typeDefs)
    (h : (a.getClassByName image (image.getClassName raw)).1 = none) :
    M.nestingType raw ≠ none ∧ a.classes (image.getClassName raw) = none := by
  unfold MapleMonoAssembly.getClassByName at h
  split at h
  next => exact nomatch h
  next hmiss =>
      refine ⟨fun htop => ?_, hmiss⟩
      rw [(M.classFromName _ raw (.inr ⟨raw, rfl⟩)).mpr ⟨hraw, htop, rfl⟩] at h
      exact nomatch h

/-- A nested class comes with its raw class, and gets a wrapper. -/
theorem Tidy.getClassByAll (ha : Tidy M attrib a) (hraw : raw ∈ image.typeDefs) {outer : Raw}
    (houter : M.nestingType raw = some outer) (hcounted : M.Counted attrib outer) :
    ∃ w, (a.getClassByAll (image.getClassName raw) (some raw)).1 = some w ∧ Wraps image w raw ∧
      Follows M attrib a (a.getClassByAll (image.getClassName raw) (some raw)).2 ∧
      (a.getClassByAll (image.getClassName raw) (some raw)).2.classesByRaw raw ≠ none := by
  cases hheld : a.classesByRaw raw with
  | some found =>
      obtain ⟨hclazz, -, hid⟩ := ha.by_raw _ _ hheld
      simp only [MapleMonoAssembly.getClassByAll, hheld]
      exact ⟨found, rfl, ⟨hclazz, hid⟩, ⟨ha, fun _ h => h, rfl⟩, Option.some_ne_none _⟩
  | none =>
      simp only [MapleMonoAssembly.getClassByAll, hheld]
      refine ⟨_, rfl, ⟨rfl, rfl⟩, ⟨?_, Grows.wrap _ _ _, rfl⟩, ?_⟩
      · refine ha.wrap (List.mem_cons_of_mem _ hraw) (fun h => by rw [h]; rfl) ?_
        intro outer' houter' hnamed
        obtain rfl := Option.some.inj (houter.symm.trans houter')
        exact ⟨hcounted, by simpa using hnamed⟩
      · rw [wrap_classesByRaw_self]
        exact Option.some_ne_none _

end MapleMonoAssembly

namespace Session

open MapleMonoAssembly

variable {M : Metadata image} {attrib : Option Raw} {s s₁ s₂ : Session Raw}

/-! ### The walk -/

/-- A part of `getAllClasses` lists these wrappers, and the visited classes have one then. -/
structure Lists (M : Metadata image) (attrib : Option Raw) (s s' : Session Raw)
    (ws : List (MapleMonoClass Raw)) (visited : Raw → Prop) : Prop where
  tidy : Tidy M attrib s'.assembly
  grows : Grows s.assembly s'.assembly
  list : s'.assembly.cachedClassList = s.assembly.cachedClassList ++ ws
  wraps : ∀ w ∈ ws, Wraps image w w.clazz
  held : ∀ raw, visited raw → s'.assembly.classesByRaw raw ≠ none

namespace Lists

omit [DecidableEq Raw]

variable {ws ws' : List (MapleMonoClass Raw)} {visited visited' : Raw → Prop}

theorem refl (hs : Tidy M attrib s.assembly) : Lists M attrib s s [] fun _ => False :=
  ⟨hs, fun _ h => h, (List.append_nil _).symm, nofun, nofun⟩

theorem trans (h : Lists M attrib s s₁ ws visited) (h' : Lists M attrib s₁ s₂ ws' visited') :
    Lists M attrib s s₂ (ws ++ ws') fun raw => visited raw ∨ visited' raw where
  tidy := h'.tidy
  grows := fun raw hraw => h'.grows raw (h.grows raw hraw)
  list := by rw [h'.list, h.list, List.append_assoc]
  wraps := fun w hw => (List.mem_append.mp hw).elim (h.wraps w) (h'.wraps w)
  held := fun raw hraw => hraw.elim (fun hraw => h'.grows raw (h.held raw hraw)) (h'.held raw)

theorem mono (h : Lists M attrib s s₁ ws visited) (hsub : ∀ raw, visited' raw → visited raw) :
    Lists M attrib s s₁ ws visited' :=
  { h with held := fun raw hraw => h.held raw (hsub raw hraw) }

/-- `cachedClassList.push_back`. -/
theorem push (h : Lists M attrib s s₁ ws visited) {w : MapleMonoClass Raw}
    (hw : Wraps image w w.clazz) : Lists M attrib s (s₁.pushClass w) (ws ++ [w]) visited where
  tidy := ⟨h.tidy.by_raw, h.tidy.by_name, h.tidy.named, h.tidy.reached⟩
  grows := h.grows
  list := by
    rw [← List.append_assoc, ← h.list]
    rfl
  wraps := fun w' hw' => (List.mem_append.mp hw').elim (h.wraps w')
    fun heq => List.mem_singleton.mp heq ▸ hw
  held := h.held

end Lists

/-- A nested class of a counted one is given a wrapper. -/
theorem getClass_nested (hs : Tidy M attrib s.assembly) {raw outer : Raw}
    (hraw : raw ∈ image.typeDefs) (houter : M.nestingType raw = some outer)
    (hcounted : M.Counted attrib outer) :
    ∃ w s', s.getClass image (.byAll (image.getClassName raw).namespaceName
        (image.getClassName raw).name (some raw)) = (some w, s') ∧
      Wraps image w raw ∧ Lists M attrib s s' [] (· = raw) := by
  obtain ⟨w, hanswer, hw, hfollows, hheld⟩ := hs.getClassByAll hraw houter hcounted
  refine ⟨w, _, Prod.ext hanswer rfl, hw, hfollows.tidy, hfollows.grows, ?_, nofun, ?_⟩
  · exact hfollows.list.trans (List.append_nil _).symm
  · exact fun raw' hraw' => hraw' ▸ hheld

/-- The nested types of a class: those that are not compiler generated are listed, and go on
the stack. -/
theorem visitNested_lists (hs : Tidy M attrib s.assembly) {p : Raw} {cur : MapleMonoClass Raw}
    (hcur : Wraps image cur p) (hp : p ∈ image.typeDefs) (hcounted : M.Counted attrib p)
    {raws : List Raw} (hraws : ∀ raw ∈ raws, raw ∈ image.typeDefs ∧ M.nestingType raw = some p)
    (todo : List (MapleMonoClass Raw)) :
    ∃ s' ws, visitNested image attrib (image.getClassName p).namespaceName cur raws s todo =
        (s', ws.reverse ++ todo) ∧ Lists M attrib s s' ws (· ∈ raws) ∧
      ws.map MapleMonoClass.clazz = raws.filter fun c => !image.hasAttribute c attrib := by
  induction raws generalizing s todo with
  | nil => exact ⟨s, [], rfl, (Lists.refl hs).mono nofun, rfl⟩
  | cons raw raws ih =>
      obtain ⟨⟨hraw, hnested⟩, hraws⟩ := List.forall_mem_cons.mp hraws
      obtain ⟨w, s₁, hget, hw, hfirst⟩ := getClass_nested hs hraw hnested hcounted
      -- `cur` has the full name of its class, so this is the name of the nested one
      have hname : image.getClassName raw = ⟨(image.getClassName p).namespaceName,
          cur.typeName ++ "+" ++ image.className raw⟩ := by
        rw [M.getClassName_nested hraw hp hnested, ← hcur.2]
        rfl
      rw [hname] at hget
      rw [visitNested, hget]
      cases hattrib : image.hasAttribute raw attrib with
      | true =>
          obtain ⟨s₂, ws, hrest, hlists, hmap⟩ := ih hfirst.tidy hraws todo
          refine ⟨s₂, ws, ?_, (hfirst.trans hlists).mono fun raw' h => List.mem_cons.mp h, ?_⟩
          · simp only [hw.1, hattrib, if_true, hrest]
          · rw [hmap, List.filter_cons_of_neg (by simp [hattrib])]
      | false =>
          have hpush := hfirst.push (hw.1.symm ▸ hw)
          obtain ⟨s₂, ws, hrest, hlists, hmap⟩ := ih hpush.tidy hraws (w :: todo)
          refine ⟨s₂, w :: ws, ?_, (hpush.trans hlists).mono fun raw' h => List.mem_cons.mp h, ?_⟩
          · simp only [hw.1, hattrib, Bool.false_eq_true, if_false, hrest, List.reverse_cons,
              List.append_assoc, List.singleton_append]
          · rw [List.map_cons, hw.1, hmap, List.filter_cons_of_pos (by simp [hattrib])]

/-- The loop over the stack is a walk down the nested types. -/
theorem nestedLoop_lists {stack listed : List Raw} {ns : String}
    (hwalk : Walk (Metadata.kids image attrib) stack listed) (hs : Tidy M attrib s.assembly)
    {todo : List (MapleMonoClass Raw)} (htodo : todo.map MapleMonoClass.clazz = stack)
    (hwraps : ∀ w ∈ todo, Wraps image w w.clazz)
    (hstack : ∀ t ∈ stack, t ∈ image.typeDefs ∧ M.Counted attrib t ∧
      (image.getClassName t).namespaceName = ns) :
    ∃ s' ws, Settles (fun fuel => nestedLoop image attrib ns fuel todo s) (some s') ∧
      Lists M attrib s s' ws (fun raw => ∃ t ∈ stack, ∃ p,
        Below (Metadata.kids image attrib) t p ∧ raw ∈ image.nestedTypes p) ∧
      ws.map MapleMonoClass.clazz = listed := by
  induction hwalk generalizing s todo with
  | done =>
      obtain rfl := List.map_eq_nil_iff.mp htodo
      refine ⟨s, [], .of_forall fun fuel => by rw [nestedLoop], (Lists.refl hs).mono ?_, rfl⟩
      intro raw h
      obtain ⟨t, ht, -⟩ := h
      exact absurd ht List.not_mem_nil
  | @turn t stack listed _ ih =>
      obtain ⟨cur, todo, rfl, rfl, rfl⟩ := List.map_eq_cons_iff.mp htodo
      obtain ⟨hcur, hwraps⟩ := List.forall_mem_cons.mp hwraps
      obtain ⟨⟨ht, hcounted, rfl⟩, hstack⟩ := List.forall_mem_cons.mp hstack
      obtain ⟨s₁, ws₁, hvisit, hfirst, hmap⟩ := visitNested_lists hs hcur ht hcounted
        (fun raw hraw => (M.mem_nested _ ht raw).mp hraw) todo
      rw [← Metadata.kids_eq ht] at hmap
      have hkids : ∀ c ∈ Metadata.kids image attrib cur.clazz, c ∈ image.typeDefs ∧
          M.Counted attrib c ∧
          (image.getClassName c).namespaceName = (image.getClassName cur.clazz).namespaceName := by
        intro c hc
        obtain ⟨-, hc, hnested, hattrib⟩ := M.mem_kids.mp hc
        refine ⟨hc, (M.counted_nested hnested).mpr ⟨hcounted, hattrib⟩, ?_⟩
        rw [M.getClassName_nested hc ht hnested]
      have htodo : (ws₁.reverse ++ todo).map MapleMonoClass.clazz =
          (Metadata.kids image attrib cur.clazz).reverse ++ todo.map MapleMonoClass.clazz := by
        rw [List.map_append, List.map_reverse, hmap]
      obtain ⟨s₂, ws₂, hloop, hrest, rfl⟩ := ih hfirst.tidy htodo
        (fun w hw => (List.mem_append.mp hw).elim
          (fun hw => hfirst.wraps w (List.mem_reverse.mp hw)) (hwraps w))
        (fun t ht => (List.mem_append.mp ht).elim
          (fun ht => hkids t (List.mem_reverse.mp ht)) (hstack t))
      refine ⟨s₂, ws₁ ++ ws₂, .of_succ (hloop.congr fun fuel => ?_), ?_, ?_⟩
      · rw [nestedLoop, hvisit]
      · refine (hfirst.trans hrest).mono fun raw h => ?_
        obtain ⟨t, htop, p, hp, hraw⟩ := h
        cases List.mem_cons.mp htop with
        | inl heq =>
            rcases below_iff_child.mp (heq ▸ hp) with rfl | ⟨c, hc, hcp⟩
            · exact .inl hraw
            · exact .inr ⟨c, List.mem_append_left _ (List.mem_reverse.mpr hc), p, hcp, hraw⟩
        | inr hmem => exact .inr ⟨t, List.mem_append_right _ hmem, p, hp, hraw⟩
      · rw [List.map_append, hmap]

/-! ### The rows -/

/-- The classes from which the rows walk down. -/
def Opened (M : Metadata image) (attrib : Option Raw) (a : Raw) : Prop :=
  M.Counted attrib a ∧
    (M.nestingType a = none ∨ isGenericClass (image.getClassName a).name = false)

/-- The row of a class opens it, unless the class is not counted or no walk has put it into
`classes`. -/
theorem row_cases (hs : Tidy M attrib s.assembly) {a : Raw} (ha : a ∈ image.typeDefs)
    (hheld : ∀ outer, M.nestingType a = some outer → M.Counted attrib outer →
      s.assembly.classesByRaw a ≠ none) :
    ∃ answer s', s.getClass image (.byName (image.getClassName a).namespaceName
        (image.getClassName a).name) = (answer, s') ∧
      Lists M attrib s s' [] (fun _ => False) ∧
      (answer = none ∧ ¬ Opened M attrib a ∨ ∃ w, answer = some w ∧ Wraps image w a ∧
        (image.hasAttribute a attrib = false ↔ Opened M attrib a)) := by
  have hmem := List.mem_cons_of_mem M.module ha
  have hfollows := hs.getClassByName (.inr ⟨a, rfl⟩)
  refine ⟨_, _, rfl, ⟨hfollows.tidy, hfollows.grows, ?_, nofun, nofun⟩, ?_⟩
  · exact hfollows.list.trans (List.append_nil _).symm
  · cases hanswer : (s.assembly.getClassByName image (image.getClassName a)).1 with
    | none =>
        refine .inl ⟨hanswer, fun hopened => ?_⟩
        obtain ⟨hnesting, hmiss⟩ := Tidy.getClassByName_none (M := M) hmem hanswer
        obtain ⟨outer, houter⟩ := Option.ne_none_iff_exists'.mp hnesting
        obtain ⟨hcounted, hopen⟩ := hopened
        have hclass := hheld outer houter ((M.counted_nested houter).mp hcounted).1
        exact hs.named a hclass (hopen.resolve_left hnesting) hmiss
    | some w =>
        obtain ⟨hw, hnested⟩ := hs.getClassByName_answer hmem hanswer
        refine .inr ⟨w, hanswer, hw, fun hattrib => ?_, fun hopened => hopened.1 a .refl⟩
        cases hnesting : M.nestingType a with
        | none => exact ⟨M.counted_top hnesting hattrib, .inl hnesting⟩
        | some outer =>
            obtain ⟨hcounted, hgeneric⟩ := hnested outer hnesting
            exact ⟨(M.counted_nested hnesting).mpr ⟨hcounted, hattrib⟩, .inr hgeneric⟩

/-- What the rows before have walked down. -/
def Walked (M : Metadata image) (attrib : Option Raw) (before : List Raw)
    (a : MapleMonoAssembly Raw) : Prop :=
  ∀ r ∈ before, Opened M attrib r → ∀ p, Below (Metadata.kids image attrib) r p →
    ∀ raw ∈ image.nestedTypes p, a.classesByRaw raw ≠ none

/-- A class nested in a counted one has been reached from the class around both. -/
theorem Walked.held {before rows : List Raw} {a : MapleMonoAssembly Raw}
    (hwalked : Walked M attrib before a) {raw outer : Raw}
    (htable : image.typeDefs = before ++ raw :: rows) (houter : M.nestingType raw = some outer)
    (hcounted : M.Counted attrib outer) : a.classesByRaw raw ≠ none := by
  have hbefore := M.nesting before raw rows outer htable houter
  have hmem : outer ∈ image.typeDefs := htable ▸ List.mem_append_left _ hbefore
  have hraw : raw ∈ image.typeDefs := htable ▸ List.mem_append_right _ (List.mem_cons_self ..)
  obtain ⟨r, -, htop, hencloses⟩ := M.exists_top hmem
  refine hwalked r (M.mem_of_encloses htable hencloses hbefore)
    ⟨hcounted.of_encloses hencloses, .inl htop⟩ outer ?_ raw ?_
  · exact M.below_of_encloses hcounted hmem hencloses
  · exact (M.mem_nested outer hmem raw).mpr ⟨hraw, houter⟩

open Classical in
/-- The loop over the rows ends, and has listed a class once for every row that opens a class
it is below. -/
theorem rowLoop_lists {before rows : List Raw} (htable : image.typeDefs = before ++ rows)
    (hs : Tidy M attrib s.assembly) (hwalked : Walked M attrib before s.assembly) :
    ∃ s' ws, Settles (fun fuel => rowLoop image attrib fuel rows s) (some s') ∧
      Lists M attrib s s' ws (fun _ => False) ∧
      ∀ x, (ws.map MapleMonoClass.clazz).count x = rows.countP fun a =>
        Opened M attrib a ∧ Below (Metadata.kids image attrib) a x := by
  induction rows generalizing before s with
  | nil => exact ⟨s, [], .of_forall fun fuel => by rw [rowLoop], .refl hs, fun x => rfl⟩
  | cons a rows ih =>
      have ha : a ∈ image.typeDefs := htable ▸ List.mem_append_right _ (List.mem_cons_self ..)
      have htable' : image.typeDefs = (before ++ [a]) ++ rows := by
        rw [htable, List.append_assoc, List.singleton_append]
      obtain ⟨answer, s₁, hget, hfirst, hanswer⟩ := row_cases hs ha
        fun outer houter hcounted => hwalked.held htable houter hcounted
      by_cases hopened : Opened M attrib a
      · obtain ⟨w, rfl, hw, hopen⟩ := hanswer.resolve_left fun h => h.2 hopened
        have hforest : Kids (Metadata.kids image attrib) := M.kids_forest
        obtain ⟨listed, hwalk⟩ := hforest.exists_walk [a]
        have hw' : Wraps image w w.clazz := hw.1.symm ▸ hw
        have htodo : [w].map MapleMonoClass.clazz = [a] := by rw [List.map_singleton, hw.1]
        have hstack : ∀ t ∈ [a], t ∈ image.typeDefs ∧ M.Counted attrib t ∧
            (image.getClassName t).namespaceName = (image.getClassName a).namespaceName := by
          intro t ht
          obtain rfl := List.mem_singleton.mp ht
          exact ⟨ha, hopened.1, rfl⟩
        obtain ⟨s₂, ws₁, hnested, hlists, rfl⟩ := nestedLoop_lists hwalk hfirst.tidy htodo
          (fun w' hmem => List.mem_singleton.mp hmem ▸ hw') hstack
        have hpush := (hfirst.trans hlists).push hw'
        have hwalked₂ : Walked M attrib (before ++ [a]) (s₂.pushClass w).assembly := by
          intro r hr hr' p hp raw hraw
          cases List.mem_append.mp hr with
          | inl hr => exact hpush.grows raw (hwalked r hr hr' p hp raw hraw)
          | inr hr => exact hpush.held raw (.inr ⟨r, hr, p, hp, hraw⟩)
        obtain ⟨s₃, ws₂, hloop, hrest, hcount⟩ := ih htable' hpush.tidy hwalked₂
        have hrow := hnested.option_bind
          (g := fun s fuel => rowLoop image attrib fuel rows (s.pushClass w)) hloop
        refine ⟨s₃, _, hrow.congr fun fuel => ?_, (hpush.trans hrest).mono fun _ h => h.elim,
          fun x => ?_⟩
        · have hattrib : image.hasAttribute w.clazz attrib = false := hw.1 ▸ hopen.mpr hopened
          rw [rowLoop, hget]
          simp only [hattrib, Bool.false_eq_true, if_false]
        · have hwalked := hwalk.count hforest x
          rw [List.count_append] at hwalked
          rw [List.nil_append, List.map_append, List.map_append, List.count_append, hcount,
            List.count_append, List.map_singleton, hw.1, Nat.add_comm (List.count x _), hwalked,
            List.countP_cons, List.countP_cons, List.countP_nil, Nat.zero_add, Nat.add_comm]
          simp only [decide_eq_true_eq, hopened, true_and]
      · have hwalked₁ : Walked M attrib (before ++ [a]) s₁.assembly := by
          intro r hr hr' p hp raw hraw
          cases List.mem_append.mp hr with
          | inl hr => exact hfirst.grows raw (hwalked r hr hr' p hp raw hraw)
          | inr hr => exact absurd (List.mem_singleton.mp hr ▸ hr') hopened
        obtain ⟨s₂, ws, hloop, hrest, hcount⟩ := ih htable' hfirst.tidy hwalked₁
        refine ⟨s₂, ws, hloop.congr fun fuel => ?_, (hfirst.trans hrest).mono fun _ h => .inl h,
          fun x => ?_⟩
        · rcases hanswer with ⟨rfl, -⟩ | ⟨w, rfl, hw, hopen⟩
          · rw [rowLoop, hget]
          · have hattrib : image.hasAttribute w.clazz attrib = true := by
              rw [hw.1]
              exact Bool.not_eq_false _ ▸ mt hopen.mp hopened
            rw [rowLoop, hget]
            simp only [hattrib, if_true]
        · rw [List.countP_cons_of_neg (by simp [hopened]), hcount]

/-! ### The list -/

omit [DecidableEq Raw] in
theorem load_tidy : Tidy M attrib (load : Session Raw).assembly :=
  ⟨nofun, nofun, fun _ h => absurd rfl h, nofun⟩

open Classical in
/-- **The list of all classes**: a class is on it once for every opened class it is below. -/
theorem getAllClasses_counts (M : Metadata image)
    (hattrib : attrib = (load.compilerGeneratedAttrib image).1) :
    ∃ list s', Settles (fun fuel => load.getAllClasses image fuel) (some (list, s')) ∧
      ∀ x, (list.map MapleMonoClass.clazz).count x = image.typeDefs.countP fun a =>
        Opened M attrib a ∧ Below (Metadata.kids image attrib) a x := by
  have hstart : Follows M attrib (load : Session Raw).assembly
      (load.compilerGeneratedAttrib image).2.assembly := by
    rw [compilerGeneratedAttrib]
    cases image.corlib with
    | other => exact ⟨load_tidy, fun _ h => h, rfl⟩
    | itself => exact load_tidy.getClassByName (.inl (by decide))
  have htable : image.typeDefs = [] ++ image.typeDefs := rfl
  obtain ⟨s', ws, hloop, hlists, hcount⟩ :=
    rowLoop_lists htable hstart.tidy fun _ hr => absurd hr List.not_mem_nil
  have hlist : s'.assembly.cachedClassList = ws := by
    rw [hlists.list, hstart.list]
    rfl
  have hall := hloop.comp (Option.map fun s : Session Raw => (s.assembly.cachedClassList,
    ({ s with assembly := { s.assembly with haveCachedClassList := true } } : Session Raw)))
  refine ⟨s'.assembly.cachedClassList, _, hall.congr fun fuel => ?_, hlist ▸ hcount⟩
  have hfresh : (load : Session Raw).assembly.haveCachedClassList = false := rfl
  rw [getAllClasses, hfresh, if_neg Bool.false_ne_true, hattrib]
  rfl

/-- The row of a class and that of the class around it count twice. -/
theorem generic_of_once (M : Metadata image)
    (hattrib : attrib = (load.compilerGeneratedAttrib image).1)
    (h : ∃ list s', Settles (fun fuel => load.getAllClasses image fuel) (some (list, s')) ∧
      ∀ x ∈ image.typeDefs, M.Counted attrib x → (list.map MapleMonoClass.clazz).count x = 1)
    {x : Raw} (hx : x ∈ image.typeDefs) (hcounted : M.Counted attrib x)
    (hnested : M.nestingType x ≠ none) : isGenericClass (image.getClassName x).name = true := by
  classical
  obtain ⟨list, s', hsettles, honce⟩ := h
  obtain ⟨list', s'', hsettles', hcount⟩ := getAllClasses_counts M hattrib
  obtain ⟨rfl, -⟩ := Prod.mk.inj (Option.some.inj (hsettles.unique hsettles'))
  by_contra hgeneric
  obtain ⟨r, hr, htop, hencloses⟩ := M.exists_top hx
  have hone := (hcount x).symm.trans (honce x hx hcounted)
  rw [List.countP_eq_length_filter, List.length_eq_one_iff] at hone
  obtain ⟨a, ha⟩ := hone
  have hmem : ∀ b ∈ image.typeDefs, Opened M attrib b → M.Encloses b x → b = a := by
    intro b hb hopened hb'
    refine List.mem_singleton.mp (ha ▸ List.mem_filter.mpr ⟨hb, decide_eq_true ⟨hopened, ?_⟩⟩)
    exact M.below_of_encloses hcounted hx hb'
  have hroot := hmem r hr ⟨hcounted.of_encloses hencloses, .inl htop⟩ hencloses
  have hself := hmem x hx ⟨hcounted, .inr (Bool.eq_false_iff.mpr hgeneric)⟩ .refl
  exact hnested (hself ▸ hroot ▸ htop)

/-- **Class enumeration has no duplicates.** On a freshly loaded assembly `getAllClasses`
ends with a list in which every class that is not compiler generated, nor in a class that
is, occurs exactly once, if and only if all of these classes that are nested have generic
names. -/
theorem getAllClasses_once_iff (M : Metadata image) :
    (∃ list s', Settles (fun fuel => load.getAllClasses image fuel) (some (list, s')) ∧
      ∀ x ∈ image.typeDefs, M.Counted (load.compilerGeneratedAttrib image).1 x →
        (list.map MapleMonoClass.clazz).count x = 1) ↔
    ∀ x ∈ image.typeDefs, M.Counted (load.compilerGeneratedAttrib image).1 x →
      M.nestingType x ≠ none → isGenericClass (image.getClassName x).name = true := by
  classical
  constructor
  · exact fun h x hx hcounted hnested => generic_of_once M rfl h hx hcounted hnested
  · intro hgeneric
    obtain ⟨list, s', hsettles, hcount⟩ := getAllClasses_counts M rfl
    refine ⟨list, s', hsettles, fun x hx hcounted => ?_⟩
    obtain ⟨r, hr, htop, hencloses⟩ := M.exists_top hx
    rw [hcount, ← List.count_eq_one_of_mem (List.nodup_cons.mp M.nodup).2 hr]
    refine List.countP_congr fun a ha => ?_
    simp only [decide_eq_true_eq, beq_iff_eq]
    constructor
    · intro h
      obtain ⟨⟨hcounted', hopen⟩, hbelow⟩ := h
      have hatop : M.nestingType a = none := by
        by_contra hnested
        exact nomatch (hgeneric a ha hcounted' hnested).symm.trans (hopen.resolve_left hnested)
      have hrx := M.below_of_encloses hcounted hx hencloses
      cases M.kids_forest.below_or_below hbelow hrx with
      | inl har => exact (M.eq_of_encloses_top htop (M.encloses_of_below har)).symm
      | inr hra => exact M.eq_of_encloses_top hatop (M.encloses_of_below hra)
    · intro heq
      obtain rfl := heq
      exact ⟨⟨hcounted.of_encloses hencloses, .inl htop⟩, M.below_of_encloses hcounted hx hencloses⟩

/-! ### A nested class -/

/-- The rows are numbered by `Fin 3`. -/
local instance neZero_rows : NeZero 3 := ⟨by decide⟩

/-- `Outer` with a class `Inner` in it; the first row is `0`. -/
def nestedImage : MonoImage (Fin 3) where
  classFromName := fun id =>
    if id = ⟨"Game", "Outer"⟩ then some 1 else if id = ⟨"", "<Module>"⟩ then some 0 else none
  getClassName := fun
    | 0 => ⟨"", "<Module>"⟩
    | 1 => ⟨"Game", "Outer"⟩
    | 2 => ⟨"Game", "Outer+Inner"⟩
  inImage := fun _ => true
  typeDefs := [1, 2]
  nestedTypes := fun
    | 1 => [2]
    | _ => []
  className := fun
    | 0 => "<Module>"
    | 1 => "Outer"
    | 2 => "Inner"
  hasAttribute := fun _ _ => false
  corlib := .other none

def nestedMetadata : Metadata nestedImage where
  nestingType := fun
    | 2 => some 1
    | _ => none
  nameSpace := fun
    | 1 => "Game"
    | _ => ""
  module := 0
  module_nesting := rfl
  nodup := by decide
  nesting := by
    intro before raw after outer htable houter
    cases before with
    | nil =>
        obtain rfl := (List.cons.inj htable).1
        exact nomatch houter
    | cons first before =>
        obtain ⟨rfl, htail⟩ := List.cons.inj htable
        cases before with
        | nil =>
            obtain rfl := (List.cons.inj htail).1
            obtain rfl := Option.some.inj houter
            exact List.mem_cons_self ..
        | cons second before => exact absurd (List.cons.inj htail).2 (by simp)
  nested_nodup := by decide
  mem_nested := by decide
  getClassName := by
    intro raw hraw
    match raw with
    | 0 => exact .of_forall fun _ => rfl
    | 1 => exact .of_forall fun _ => rfl
    | 2 => exact .of_add 1 fun _ => rfl
  classFromName := by
    intro id raw _
    constructor
    · intro h
      simp only [nestedImage] at h
      split at h
      next hid =>
          obtain rfl := Option.some.inj h
          exact ⟨by decide, rfl, hid.symm⟩
      next =>
          split at h
          next hid =>
              obtain rfl := Option.some.inj h
              exact ⟨by decide, rfl, hid.symm⟩
          next => exact nomatch h
    · intro h
      obtain ⟨-, htop, rfl⟩ := h
      match raw with
      | 0 => rfl
      | 1 => rfl
      | 2 => exact nomatch htop
  distinct := by decide

theorem getAllClasses_once_iff_nested :
    (∃ list s', Settles (fun fuel => load.getAllClasses nestedImage fuel) (some (list, s')) ∧
      ∀ x ∈ nestedImage.typeDefs,
        nestedMetadata.Counted (load.compilerGeneratedAttrib nestedImage).1 x →
        (list.map MapleMonoClass.clazz).count x = 1) ↔
    ∀ x ∈ nestedImage.typeDefs,
      nestedMetadata.Counted (load.compilerGeneratedAttrib nestedImage).1 x →
      nestedMetadata.nestingType x ≠ none →
      isGenericClass (nestedImage.getClassName x).name = true :=
  getAllClasses_once_iff nestedMetadata

/-- `Inner` is on the list twice. -/
theorem getAllClasses_twice :
    ¬ ∃ list s', Settles (fun fuel => load.getAllClasses nestedImage fuel) (some (list, s')) ∧
      ∀ x ∈ nestedImage.typeDefs,
        nestedMetadata.Counted (load.compilerGeneratedAttrib nestedImage).1 x →
        (list.map MapleMonoClass.clazz).count x = 1 := by
  intro h
  have hinner : (2 : Fin 3) ∈ nestedImage.typeDefs := by decide
  have hgeneric := generic_of_once nestedMetadata rfl h hinner (fun _ _ => rfl) nofun
  exact absurd hgeneric (by decide)

end Session

end Maple
