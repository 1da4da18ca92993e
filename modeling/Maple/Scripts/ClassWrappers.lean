import Maple.Scripts.MonoAssembly

/-!
# Maple.Scripts.ClassWrappers

**One wrapper per class.** A call of `getClass` either finds its answer in one of
the two tables and changes nothing, or makes a wrapper and stores it
(`getClass_cases`). Two of the overloads make one only for a class that has none;
`getClass(namespaceName, name)` looks into `classes` alone and can wrap a class a
second time (`Rewraps`). Where it does not, every call is answered with the one
wrapper of the class (`one_wrapper_per_class`).
-/

namespace Maple

open Lib

variable {Raw : Type} [DecidableEq Raw] {image : MonoImage Raw}

/-! ### What a call does -/

/-- The call finds nothing in the table it looks into and wraps `raw` under `id`;
`named` says whether the wrapper goes into `classes`. -/
inductive Builds (image : MonoImage Raw) (a : MapleMonoAssembly Raw) :
    GetClass Raw → ClassId → Raw → Bool → Prop
  | byName {ns name : String} {raw : Raw} : a.classes ⟨ns, name⟩ = none →
      image.classFromName ⟨ns, name⟩ = some raw →
      Builds image a (.byName ns name) ⟨ns, name⟩ raw true
  | byRaw {raw : Raw} : a.classesByRaw raw = none → image.inImage raw = true →
      Builds image a (.byRaw (some raw)) (image.getClassName raw) raw true
  | byAll {ns name : String} {raw : Raw} : a.classesByRaw raw = none →
      Builds image a (.byAll ns name (some raw)) ⟨ns, name⟩ raw (!isGenericClass name)

namespace MapleMonoAssembly

variable {a a' : MapleMonoAssembly Raw}

omit [DecidableEq Raw] in
@[simp] theorem newClass_clazz (id : ClassId) (raw : Raw) : (a.newClass id raw).clazz = raw := rfl

omit [DecidableEq Raw] in
@[simp] theorem newClass_classId (id : ClassId) (raw : Raw) :
    (a.newClass id raw).classId = id := rfl

theorem wrap_classesByRaw (id : ClassId) (raw : Raw) (named : Bool) :
    (a.wrap id raw named).classesByRaw =
      Function.update a.classesByRaw raw (some (a.newClass id raw)) := rfl

@[simp] theorem wrap_classesByRaw_self (id : ClassId) (raw : Raw) (named : Bool) :
    (a.wrap id raw named).classesByRaw raw = some (a.newClass id raw) := by
  simp [wrap_classesByRaw]

@[simp] theorem wrap_classesByRaw_of_ne {raw raw' : Raw} (id : ClassId) (named : Bool)
    (hne : raw' ≠ raw) : (a.wrap id raw named).classesByRaw raw' = a.classesByRaw raw' := by
  simp [wrap_classesByRaw, hne]

@[simp] theorem wrap_named_classes (id : ClassId) (raw : Raw) :
    (a.wrap id raw true).classes =
      Function.update a.classes id (some (a.newClass id raw)) := rfl

/-- Every call of `getClass` finds its answer or makes it. -/
theorem getClass_cases {call : GetClass Raw} {answer : Option (MapleMonoClass Raw)}
    (h : a.getClass image call = (answer, a')) :
    (a' = a ∧ ∀ w, answer = some w →
      (∃ id, a.classes id = some w) ∨ ∃ raw, a.classesByRaw raw = some w) ∨
    ∃ id raw named, Builds image a call id raw named ∧ answer = some (a.newClass id raw) ∧
      a' = a.wrap id raw named := by
  cases call with
  | byName ns name =>
      simp only [getClass, getClassByName] at h
      split at h
      next found hfound =>
        obtain ⟨rfl, rfl⟩ := Prod.mk.inj h
        exact .inl ⟨rfl, fun w hw => .inl ⟨_, Option.some.inj hw ▸ hfound⟩⟩
      next hmiss =>
        split at h
        next =>
          obtain ⟨rfl, rfl⟩ := Prod.mk.inj h
          exact .inl ⟨rfl, nofun⟩
        next raw hraw =>
          obtain ⟨rfl, rfl⟩ := Prod.mk.inj h
          exact .inr ⟨_, raw, true, .byName hmiss hraw, rfl, rfl⟩
  | byRaw raw =>
      cases raw with
      | none =>
          obtain ⟨rfl, rfl⟩ := Prod.mk.inj h
          exact .inl ⟨rfl, nofun⟩
      | some raw =>
          simp only [getClass, getClassByRaw] at h
          split at h
          next found hfound =>
            obtain ⟨rfl, rfl⟩ := Prod.mk.inj h
            exact .inl ⟨rfl, fun w hw => .inr ⟨_, Option.some.inj hw ▸ hfound⟩⟩
          next hmiss =>
            split at h
            next himage =>
              obtain ⟨rfl, rfl⟩ := Prod.mk.inj h
              exact .inr ⟨_, raw, true, .byRaw hmiss himage, rfl, rfl⟩
            next =>
              obtain ⟨rfl, rfl⟩ := Prod.mk.inj h
              exact .inl ⟨rfl, nofun⟩
  | byAll ns name raw =>
      cases raw with
      | none =>
          obtain ⟨rfl, rfl⟩ := Prod.mk.inj h
          exact .inl ⟨rfl, nofun⟩
      | some raw =>
          simp only [getClass, getClassByAll] at h
          split at h
          next found hfound =>
            obtain ⟨rfl, rfl⟩ := Prod.mk.inj h
            exact .inl ⟨rfl, fun w hw => .inr ⟨_, Option.some.inj hw ▸ hfound⟩⟩
          next hmiss =>
            obtain ⟨rfl, rfl⟩ := Prod.mk.inj h
            exact .inr ⟨_, raw, _, .byAll hmiss, rfl, rfl⟩

end MapleMonoAssembly

/-! ### The two tables -/

namespace MapleMonoAssembly

variable {a : MapleMonoAssembly Raw} {id : ClassId} {raw : Raw} {named : Bool}

/-- An entry of `classes` is the new wrapper or an old one. -/
theorem wrap_classes_cases {id' : ClassId} {w : MapleMonoClass Raw}
    (h : (a.wrap id raw named).classes id' = some w) :
    (id' = id ∧ w = a.newClass id raw ∧ named = true) ∨ a.classes id' = some w := by
  cases named with
  | false => exact .inr h
  | true =>
      rw [wrap_named_classes] at h
      by_cases hid : id' = id
      · subst hid
        rw [Function.update_self] at h
        exact .inl ⟨rfl, (Option.some.inj h).symm, rfl⟩
      · rw [Function.update_of_ne hid] at h
        exact .inr h

/-- An entry of `classesByRaw` is the new wrapper or that of another class. -/
theorem wrap_classesByRaw_cases {raw' : Raw} {w : MapleMonoClass Raw}
    (h : (a.wrap id raw named).classesByRaw raw' = some w) :
    (raw' = raw ∧ w = a.newClass id raw) ∨ (raw' ≠ raw ∧ a.classesByRaw raw' = some w) := by
  by_cases hraw : raw' = raw
  · subst hraw
    rw [wrap_classesByRaw_self] at h
    exact .inl ⟨rfl, (Option.some.inj h).symm⟩
  · rw [wrap_classesByRaw_of_ne id named hraw] at h
    exact .inr ⟨hraw, h⟩

/-- Every wrapper is stored under what it wraps, and every wrapped class is in
`classesByRaw`. -/
structure Keyed (a : MapleMonoAssembly Raw) : Prop where
  by_raw : ∀ raw w, a.classesByRaw raw = some w → w.clazz = raw
  by_name : ∀ id w, a.classes id = some w → w.classId = id
  held : ∀ id w, a.classes id = some w → a.classesByRaw w.clazz ≠ none

theorem Keyed.wrap (ha : Keyed a) : Keyed (a.wrap id raw named) := by
  refine ⟨fun raw' w hw => ?_, fun id' w hw => ?_, fun id' w hw => ?_⟩
  · rcases wrap_classesByRaw_cases hw with ⟨rfl, rfl⟩ | ⟨-, hw⟩
    · exact newClass_clazz id raw'
    · exact ha.by_raw raw' w hw
  · rcases wrap_classes_cases hw with ⟨rfl, rfl, -⟩ | hw
    · exact newClass_classId id' raw
    · exact ha.by_name id' w hw
  · rw [wrap_classesByRaw]
    rcases eq_or_ne w.clazz raw with hraw | hraw
    · rw [hraw, Function.update_self]
      exact nofun
    · rw [Function.update_of_ne hraw]
      rcases wrap_classes_cases hw with ⟨-, rfl, -⟩ | hw
      · exact absurd (newClass_clazz id raw) hraw
      · exact ha.held id' w hw

end MapleMonoAssembly

/-! ### What a run keeps -/

/-- `getClass(namespaceName, name)` misses in `classes` and wraps a class that
already has a wrapper in `classesByRaw`. -/
def Visit.Rewraps (image : MonoImage Raw) (v : Visit Raw) (raw : Raw) : Prop :=
  ∃ ns name, v.asked = .byName ns name ∧ v.before.classes ⟨ns, name⟩ = none ∧
    image.classFromName ⟨ns, name⟩ = some raw ∧ v.before.classesByRaw raw ≠ none

/-- The call stores a new wrapper over the entry of `w` in `classes`. -/
def Visit.Overwrites (image : MonoImage Raw) (v : Visit Raw) (w : MapleMonoClass Raw) : Prop :=
  v.before.classes w.classId = some w ∧ ∃ raw, Builds image v.before v.asked w.classId raw true

/-- The call is given the raw class and a generic name for it, and makes `w`. -/
def Visit.KeepsOut (v : Visit Raw) (w : MapleMonoClass Raw) : Prop :=
  v.asked = .byAll w.nameSpace w.typeName (some w.clazz) ∧ isGenericClass w.typeName = true ∧
    v.before.classesByRaw w.clazz = none ∧ v.answer = some w

instance (v : Visit Raw) (raw : Raw) : Decidable (v.Rewraps image raw) :=
  match hasked : v.asked with
  | .byName ns name =>
      decidable_of_iff (v.before.classes ⟨ns, name⟩ = none ∧
        image.classFromName ⟨ns, name⟩ = some raw ∧ v.before.classesByRaw raw ≠ none)
        (by simp [Visit.Rewraps, hasked])
  | .byRaw _ => isFalse (by simp [Visit.Rewraps, hasked])
  | .byAll _ _ _ => isFalse (by simp [Visit.Rewraps, hasked])

omit [DecidableEq Raw] in
/-- Only `getClass(namespaceName, name)` wraps a class that has a wrapper. -/
theorem Builds.unheld {v : Visit Raw} {id : ClassId} {raw : Raw} {named : Bool}
    (h : Builds image v.before v.asked id raw named) (honce : ¬ v.Rewraps image raw) :
    v.before.classesByRaw raw = none := by
  by_contra hheld
  obtain ⟨call, a, answer⟩ := v
  cases h with
  | byName hmiss hraw => exact honce ⟨_, _, rfl, hmiss, hraw, hheld⟩
  | byRaw hmiss _ => exact hheld hmiss
  | byAll hmiss => exact hheld hmiss

omit [DecidableEq Raw] in
/-- Only a generic name that comes with its raw class is kept out of `classes`. -/
theorem Builds.keepsOut {v : Visit Raw} {id : ClassId} {raw : Raw}
    (h : Builds image v.before v.asked id raw false)
    (hanswer : v.answer = some (v.before.newClass id raw)) :
    v.KeepsOut (v.before.newClass id raw) := by
  obtain ⟨call, a, answer⟩ := v
  generalize hnamed : false = named at h
  cases h with
  | byName _ _ => exact absurd hnamed nofun
  | byRaw _ _ => exact absurd hnamed nofun
  | @byAll ns name _ hmiss =>
      have hgeneric : isGenericClass name = true := by simpa using hnamed.symm
      exact ⟨rfl, hgeneric, hmiss, hanswer⟩

namespace Session

/-- A call of `getClass` returned `w`. -/
def Answered (s : Session Raw) (w : MapleMonoClass Raw) : Prop :=
  ∃ v ∈ s.visits, v.answer = some w

/-- What a run keeps for a class that no call has wrapped twice. -/
structure Single (image : MonoImage Raw) (raw : Raw) (s : Session Raw) : Prop where
  keyed : s.assembly.Keyed
  named : ∀ id w, s.assembly.classes id = some w → w.clazz = raw →
    s.assembly.classesByRaw raw = some w
  answered : ∀ w, s.Answered w → w.clazz = raw → s.assembly.classesByRaw raw = some w
  found : ∀ w, s.assembly.classesByRaw raw = some w →
    s.assembly.classes w.classId = some w ∨
    (∃ v ∈ s.visits, v.KeepsOut w) ∨ ∃ v ∈ s.visits, v.Overwrites image w

/-! ### From calls of `getClass` to whole calls -/

variable {s s' : Session Raw}

theorem getClass_eq {call : GetClass Raw} {answer : Option (MapleMonoClass Raw)}
    (h : s.getClass image call = (answer, s')) :
    s.assembly.getClass image call = (answer, s'.assembly) ∧
      s'.visits = s.visits ++ [⟨call, s.assembly, answer⟩] := by
  obtain ⟨rfl, rfl⟩ := Prod.mk.inj h
  exact ⟨rfl, rfl⟩

/-- A property of sessions that each step of `getAllClasses` keeps. -/
structure Kept (image : MonoImage Raw) (I : Session Raw → Prop) : Prop where
  getClass : ∀ s call answer s', I s → s.getClass image call = (answer, s') → I s'
  pushClass : ∀ s c, I s → s.Answered c → I (s.pushClass c)
  clear : ∀ s : Session Raw, I s →
    I { s with assembly := { s.assembly with cachedClassList := [] } }
  cache : ∀ s : Session Raw, I s →
    I { s with assembly := { s.assembly with haveCachedClassList := true } }

theorem answered_of_getClass {call : GetClass Raw} {w : MapleMonoClass Raw}
    (h : s.getClass image call = (some w, s')) : s'.Answered w := by
  rw [Answered, (getClass_eq h).2]
  exact ⟨_, List.mem_append_right _ (List.mem_singleton_self _), rfl⟩

/-- An answer is never taken back. -/
theorem answered_kept (image : MonoImage Raw) (w : MapleMonoClass Raw) :
    Kept image fun s => s.Answered w where
  getClass := fun _ _ _ _ ⟨v, hv, hw⟩ h =>
    ⟨v, (getClass_eq h).2 ▸ List.mem_append_left _ hv, hw⟩
  pushClass := fun _ _ h _ => h
  clear := fun _ h => h
  cache := fun _ h => h

namespace Kept

variable {I : Session Raw → Prop} {attrib : Option Raw} {ns : String}

theorem visitNested (hI : Kept image I) {cur : MapleMonoClass Raw} (raws : List Raw) :
    ∀ (s : Session Raw) (todo : List (MapleMonoClass Raw)), I s →
      I (Session.visitNested image attrib ns cur raws s todo).1 := by
  induction raws with
  | nil => exact fun _ _ hs => hs
  | cons raw rest ih =>
      intro s todo hs
      rw [Session.visitNested]
      rcases hget : s.getClass image (.byAll ns (cur.typeName ++ "+" ++ image.className raw)
        (some raw)) with ⟨_ | c, s₁⟩
      · exact ih _ _ (hI.getClass _ _ _ _ hs hget)
      · have hs₁ := hI.getClass _ _ _ _ hs hget
        dsimp only
        split
        · exact ih _ _ hs₁
        · exact ih _ _ (hI.pushClass _ _ hs₁ (answered_of_getClass hget))

theorem nestedLoop (hI : Kept image I) (fuel : Nat) :
    ∀ (todo : List (MapleMonoClass Raw)) (s s' : Session Raw), I s →
      Session.nestedLoop image attrib ns fuel todo s = some s' → I s' := by
  induction fuel with
  | zero =>
      intro todo s s' hs h
      cases todo with
      | nil => exact Option.some.inj h ▸ hs
      | cons _ _ => exact absurd h nofun
  | succ fuel ih =>
      intro todo s s' hs h
      cases todo with
      | nil => exact Option.some.inj h ▸ hs
      | cons cur todo => exact ih _ _ _ (hI.visitNested _ _ _ hs) h

theorem rowLoop (hI : Kept image I) {fuel : Nat} (rows : List Raw) :
    ∀ (s s' : Session Raw), I s → Session.rowLoop image attrib fuel rows s = some s' → I s' := by
  induction rows with
  | nil => exact fun s s' hs h => Option.some.inj h ▸ hs
  | cons monoClass rows ih =>
      intro s s' hs h
      rw [Session.rowLoop] at h
      rcases hget : s.getClass image (.byName (image.getClassName monoClass).namespaceName
        (image.getClassName monoClass).name) with ⟨_ | c, s₁⟩
      · rw [hget] at h
        exact ih _ _ (hI.getClass _ _ _ _ hs hget) h
      · have hs₁ := hI.getClass _ _ _ _ hs hget
        rw [hget] at h
        dsimp only at h
        split at h
        · exact ih _ _ hs₁ h
        · obtain ⟨s₂, hloop, hrest⟩ := Option.bind_eq_some_iff.mp h
          -- The class was answered before the loop over its nested types.
          have hc : s₂.Answered c :=
            (answered_kept image c).nestedLoop _ _ _ _ (answered_of_getClass hget) hloop
          exact ih _ _ (hI.pushClass _ _ (hI.nestedLoop _ _ _ _ hs₁ hloop) hc) hrest

theorem compilerGeneratedAttrib (hI : Kept image I) (hs : I s) :
    I (s.compilerGeneratedAttrib image).2 := by
  rw [Session.compilerGeneratedAttrib]
  cases image.corlib with
  | other attrib => exact hs
  | itself =>
      exact hI.getClass s (.byName "System.Runtime.CompilerServices" "CompilerGeneratedAttribute")
        _ _ hs rfl

theorem getAllClasses (hI : Kept image I) {fuel : Nat} {answer : List (MapleMonoClass Raw)}
    (hs : I s) (h : s.getAllClasses image fuel = some (answer, s')) : I s' := by
  rw [Session.getAllClasses] at h
  split at h
  · exact (Prod.mk.inj (Option.some.inj h)).2 ▸ hs
  · obtain ⟨s₁, hloop, heq⟩ := Option.map_eq_some_iff.mp h
    obtain ⟨-, rfl⟩ := Prod.mk.inj heq
    exact hI.cache _ (hI.rowLoop _ _ _ (hI.compilerGeneratedAttrib (hI.clear _ hs)) hloop)

theorem step (hI : Kept image I) {call : AssemblyCall Raw} (hs : I s)
    (h : Session.Step image s call s') : I s' := by
  cases h with
  | getClass hget => exact hI.getClass _ _ _ _ hs hget
  | getAllClasses fuel hall => exact hI.getAllClasses hs hall

end Kept

theorem getAllClasses_answer {fuel : Nat} {answer : List (MapleMonoClass Raw)}
    (h : s.getAllClasses image fuel = some (answer, s')) :
    answer = s'.assembly.cachedClassList := by
  rw [getAllClasses] at h
  split at h
  · obtain ⟨rfl, rfl⟩ := Prod.mk.inj (Option.some.inj h)
    rfl
  · obtain ⟨s₁, -, heq⟩ := Option.map_eq_some_iff.mp h
    obtain ⟨rfl, rfl⟩ := Prod.mk.inj heq
    rfl

/-- Every class on the list was returned by a call of `getClass`. -/
theorem listed_kept (image : MonoImage Raw) :
    Kept image fun s => ∀ w ∈ s.assembly.cachedClassList, s.Answered w where
  getClass := fun s call answer s' hs h w hw => by
    refine (answered_kept image w).getClass _ _ _ _ (hs w ?_) h
    rcases MapleMonoAssembly.getClass_cases (getClass_eq h).1 with
      ⟨heq, -⟩ | ⟨id, raw, named, -, -, heq⟩
    · exact heq ▸ hw
    · rw [heq] at hw
      exact hw
  pushClass := fun s c hs hc w hw => by
    rcases List.mem_append.mp hw with hw | hw
    · exact hs w hw
    · exact List.mem_singleton.mp hw ▸ hc
  clear := fun _ _ _ hw => absurd hw List.not_mem_nil
  cache := fun _ h => h

/-- What the calls of a run returned, calls of `getClass` returned. -/
theorem returned_answered {as : List (AssemblyCall Raw)} (hrun : Run (Step image) load as s) :
    ∀ a ∈ as, ∀ w ∈ a.returned, s.Answered w := by
  suffices h : (∀ a ∈ as, ∀ w ∈ a.returned, s.Answered w) ∧
      ∀ w ∈ s.assembly.cachedClassList, s.Answered w from h.1
  refine hrun.invariant (I := fun as s => (∀ a ∈ as, ∀ w ∈ a.returned, s.Answered w) ∧
    ∀ w ∈ s.assembly.cachedClassList, s.Answered w)
    ⟨fun _ ha => absurd ha List.not_mem_nil, fun _ hw => absurd hw List.not_mem_nil⟩ ?_
  rintro as t a u ⟨hreturned, hlisted⟩ hstep
  have hlisted' := (listed_kept image).step hlisted hstep
  refine ⟨fun b hb w hw => ?_, hlisted'⟩
  rcases List.mem_append.mp hb with hb | hb
  · exact (answered_kept image w).step (hreturned b hb w hw) hstep
  · obtain rfl := List.mem_singleton.mp hb
    cases hstep with
    | getClass hget =>
        obtain rfl : _ = some w := Option.mem_toList.mp hw
        exact answered_of_getClass hget
    | getAllClasses fuel hall => exact hlisted' w (getAllClasses_answer hall ▸ hw)

/-! ### One wrapper -/

omit [DecidableEq Raw] in
/-- The class list has no part in it. -/
theorem Single.of_tables {raw : Raw} (hs : Single image raw s)
    (hclasses : s'.assembly.classes = s.assembly.classes)
    (hbyRaw : s'.assembly.classesByRaw = s.assembly.classesByRaw) (hvisits : s'.visits = s.visits) :
    Single image raw s' where
  keyed := ⟨hbyRaw ▸ hs.keyed.by_raw, hclasses ▸ hs.keyed.by_name,
    hclasses ▸ hbyRaw ▸ hs.keyed.held⟩
  named := hclasses ▸ hbyRaw ▸ hs.named
  answered := by
    rintro w ⟨v, hv, hw⟩ hclazz
    rw [hbyRaw]
    exact hs.answered w ⟨v, hvisits ▸ hv, hw⟩ hclazz
  found := hclasses ▸ hbyRaw ▸ hvisits ▸ hs.found

omit [DecidableEq Raw] in
theorem Single.hit {raw : Raw} {call : GetClass Raw} {answer : Option (MapleMonoClass Raw)}
    (hs : Single image raw s) (heq : s'.assembly = s.assembly)
    (hvisits : s'.visits = s.visits ++ [⟨call, s.assembly, answer⟩])
    (hfound : ∀ w, answer = some w → (∃ id, s.assembly.classes id = some w) ∨
      ∃ raw, s.assembly.classesByRaw raw = some w) : Single image raw s' := by
  have hmono : s.visits ⊆ s'.visits := hvisits ▸ List.subset_append_left _ _
  refine ⟨heq ▸ hs.keyed, heq ▸ hs.named, ?_, ?_⟩
  · rintro w ⟨v, hv, hw⟩ hclazz
    rw [heq]
    rw [hvisits] at hv
    rcases List.mem_append.mp hv with hv | hv
    · exact hs.answered w ⟨v, hv, hw⟩ hclazz
    · obtain rfl := List.mem_singleton.mp hv
      rcases hfound w hw with ⟨id, hid⟩ | ⟨raw', hraw'⟩
      · exact hs.named id w hid hclazz
      · obtain rfl := hs.keyed.by_raw raw' w hraw'
        exact hclazz ▸ hraw'
  · intro w hw
    rw [heq] at hw ⊢
    rcases hs.found w hw with hclasses | ⟨v, hv, hout⟩ | ⟨v, hv, hover⟩
    · exact .inl hclasses
    · exact .inr (.inl ⟨v, hmono hv, hout⟩)
    · exact .inr (.inr ⟨v, hmono hv, hover⟩)

theorem Single.build {raw raw' : Raw} {call : GetClass Raw} {id : ClassId} {named : Bool}
    {answer : Option (MapleMonoClass Raw)} (hs : Single image raw s)
    (hbuilds : Builds image s.assembly call id raw' named)
    (hanswer : answer = some (s.assembly.newClass id raw'))
    (heq : s'.assembly = s.assembly.wrap id raw' named)
    (hvisits : s'.visits = s.visits ++ [⟨call, s.assembly, answer⟩])
    (honce : ¬ Visit.Rewraps image ⟨call, s.assembly, answer⟩ raw) : Single image raw s' := by
  have hmono : s.visits ⊆ s'.visits := hvisits ▸ List.subset_append_left _ _
  have hlast : (⟨call, s.assembly, answer⟩ : Visit Raw) ∈ s'.visits := by simp [hvisits]
  -- A class that is wrapped here had no wrapper, so the wrapper of `raw` stays.
  have hstays : ∀ w, s.assembly.classesByRaw raw = some w →
      (s.assembly.wrap id raw' named).classesByRaw raw = some w := by
    intro w hw
    rw [MapleMonoAssembly.wrap_classesByRaw_of_ne]
    · exact hw
    · rintro rfl
      have hunheld := Builds.unheld (v := ⟨call, s.assembly, answer⟩) hbuilds honce
      exact absurd hunheld (hw ▸ nofun)
  refine ⟨heq ▸ hs.keyed.wrap, fun id' w hw hclazz => ?_, ?_, fun w hw => ?_⟩
  · rw [heq] at hw ⊢
    rcases MapleMonoAssembly.wrap_classes_cases hw with ⟨rfl, rfl, -⟩ | hw
    · obtain rfl : raw' = raw := hclazz
      exact MapleMonoAssembly.wrap_classesByRaw_self _ _ _
    · exact hstays w (hs.named id' w hw hclazz)
  · rintro w ⟨v, hv, hw⟩ hclazz
    rw [heq]
    rw [hvisits] at hv
    rcases List.mem_append.mp hv with hv | hv
    · exact hstays w (hs.answered w ⟨v, hv, hw⟩ hclazz)
    · obtain rfl := List.mem_singleton.mp hv
      obtain rfl : s.assembly.newClass id raw' = w := Option.some.inj (hanswer.symm.trans hw)
      obtain rfl : raw' = raw := hclazz
      exact MapleMonoAssembly.wrap_classesByRaw_self _ _ _
  · rw [heq] at hw ⊢
    rcases MapleMonoAssembly.wrap_classesByRaw_cases hw with ⟨rfl, rfl⟩ | ⟨-, hw⟩
    · cases named with
      | true => exact .inl (Function.update_self _ _ _)
      | false =>
          have hout := hbuilds.keepsOut (v := ⟨call, s.assembly, answer⟩) hanswer
          exact .inr (.inl ⟨_, hlast, hout⟩)
    · rcases hs.found w hw with hclasses | ⟨v, hv, hout⟩ | ⟨v, hv, hover⟩
      · cases named with
        | false => exact .inl hclasses
        | true =>
            by_cases hid : w.classId = id
            · subst hid
              exact .inr (.inr ⟨_, hlast, hclasses, raw', hbuilds⟩)
            · exact .inl ((Function.update_of_ne hid _ _).trans hclasses)
      · exact .inr (.inl ⟨v, hmono hv, hout⟩)
      · exact .inr (.inr ⟨v, hmono hv, hover⟩)

/-- What holds of a class until a call wraps it a second time. -/
theorem single_kept (image : MonoImage Raw) (raw : Raw) :
    Kept image fun s => (∀ v ∈ s.visits, ¬ v.Rewraps image raw) → Single image raw s where
  getClass := fun s call answer s' hs h honce => by
    obtain ⟨hget, hvisits⟩ := getClass_eq h
    rw [hvisits] at honce
    have hbefore := hs fun v hv => honce v (List.mem_append_left _ hv)
    rcases MapleMonoAssembly.getClass_cases hget with
      ⟨heq, hfound⟩ | ⟨id, raw', named, hbuilds, hanswer, heq⟩
    · exact hbefore.hit heq hvisits hfound
    · exact hbefore.build hbuilds hanswer heq hvisits
        (honce _ (List.mem_append_right _ (List.mem_singleton_self _)))
  pushClass := fun _ _ hs _ honce => (hs honce).of_tables rfl rfl rfl
  clear := fun _ hs honce => (hs honce).of_tables rfl rfl rfl
  cache := fun _ hs honce => (hs honce).of_tables rfl rfl rfl

omit [DecidableEq Raw] in
theorem single_load (image : MonoImage Raw) (raw : Raw) : Single image raw load where
  keyed := ⟨nofun, nofun, nofun⟩
  named := nofun
  answered := fun _ ⟨_, hv, _⟩ => absurd hv List.not_mem_nil
  found := nofun

/-- **Every class has one wrapper**, for as long as `getClass(namespaceName, name)`
does not wrap it again: all calls of a run that return a wrapper of the class, those
inside `getAllClasses` included, return the same one, and it is the one
`classesByRaw` holds. It is the one in `classes` as well, unless it was kept out for
its generic name or its entry was taken by a wrapper made later. -/
theorem one_wrapper_per_class {as : List (AssemblyCall Raw)}
    (hrun : Run (Step image) load as s) {raw : Raw}
    (honce : ∀ v ∈ s.visits, ¬ v.Rewraps image raw) :
    (∀ a ∈ as, ∀ w ∈ a.returned, s.Answered w) ∧
    ∀ w, s.Answered w → w.clazz = raw →
      (∀ w', s.Answered w' → w'.clazz = raw → w' = w) ∧
      s.assembly.classesByRaw raw = some w ∧
      (s.assembly.classes w.classId = some w ∨
        (∃ v ∈ s.visits, v.KeepsOut w) ∨ ∃ v ∈ s.visits, v.Overwrites image w) := by
  have hsingle : Single image raw s :=
    hrun.state_invariant (I := fun s => (∀ v ∈ s.visits, ¬ v.Rewraps image raw) →
      Single image raw s) (fun _ => single_load image raw)
      (fun _ _ _ hs hstep => (single_kept image raw).step hs hstep) honce
  refine ⟨returned_answered hrun, fun w hw hclazz => ?_⟩
  have hheld := hsingle.answered w hw hclazz
  refine ⟨fun w' hw' hclazz' => ?_, hheld, hsingle.found w hheld⟩
  exact Option.some.inj ((hsingle.answered w' hw' hclazz').symm.trans hheld)

/-! ### Where the wrapper is not the only one, or not in both tables -/

/-- An image with a generic class nested in `Outer`, which Mono also resolves by
name, and two instances of a generic class, which have one name. -/
def genericImage : MonoImage Nat where
  classFromName id :=
    if id = ⟨"", "Outer"⟩ then some 0 else if id = ⟨"", "Outer/Inner`1"⟩ then some 1 else none
  getClassName raw :=
    if raw = 0 then ⟨"", "Outer"⟩ else if raw = 1 then ⟨"", "Outer+Inner`1"⟩ else ⟨"", "List`1"⟩
  inImage _ := true
  typeDefs := [0, 1]
  nestedTypes raw := if raw = 0 then [1] else []
  className raw := if raw = 0 then "Outer" else if raw = 1 then "Inner`1" else "List`1"
  hasAttribute _ _ := false
  corlib := .other none

/-- The answer of `getAllClasses`, and the session after it. -/
def genericListed : List (MapleMonoClass Nat) × Session Nat :=
  (getAllClasses genericImage 2 load).get (by decide)

theorem genericListed_run :
    Run (Step genericImage) load [.getAllClasses genericListed.1] genericListed.2 :=
  (Run.nil load).snoc (.getAllClasses 2 (Option.some_get (by decide :
    (getAllClasses genericImage 2 load).isSome)).symm)

instance (s : Session Nat) (w : MapleMonoClass Nat) : Decidable (s.Answered w) :=
  inferInstanceAs (Decidable (∃ v ∈ s.visits, v.answer = some w))

/-- The nested class is wrapped by `getAllClasses` and not found by its name; asked
for by the name Mono knows it by, it is wrapped again; and of two classes of one name,
the first is not found by it. -/
theorem one_wrapper_fails :
    (∃ as s, Run (Step genericImage) load as s ∧
      ∃ w, s.Answered w ∧ s.assembly.classes w.classId = none) ∧
    (∃ as s, Run (Step genericImage) load as s ∧
      ∃ w w', s.Answered w ∧ s.Answered w' ∧ w.clazz = w'.clazz ∧ w ≠ w') ∧
    ∃ as s, Run (Step genericImage) load as s ∧
      ∃ w w', s.Answered w ∧ s.assembly.classes w.classId = some w' ∧ w.clazz ≠ w'.clazz := by
  have hagain : Step genericImage genericListed.2
      (.getClass (.byName "" "Outer/Inner`1") (some ⟨2, "", "Outer/Inner`1", 1⟩)) _ :=
    .getClass rfl
  have hfirst : Step genericImage load
      (.getClass (.byRaw (some 2)) (some ⟨0, "", "List`1", 2⟩)) _ := .getClass rfl
  have hsecond : Step genericImage (load.getClass genericImage (.byRaw (some 2))).2
      (.getClass (.byRaw (some 3)) (some ⟨1, "", "List`1", 3⟩)) _ := .getClass rfl
  refine ⟨⟨_, _, genericListed_run, ⟨1, "", "Outer+Inner`1", 1⟩, by decide, by decide⟩,
    ⟨_, _, genericListed_run.snoc hagain, ⟨1, "", "Outer+Inner`1", 1⟩,
      ⟨2, "", "Outer/Inner`1", 1⟩, by decide, by decide, rfl, by decide⟩,
    ⟨_, _, ((Run.nil load).snoc hfirst).snoc hsecond, ⟨0, "", "List`1", 2⟩,
      ⟨1, "", "List`1", 3⟩, by decide, by decide, by decide⟩⟩

/-- The run of `getAllClasses`, in which no class is wrapped twice. -/
theorem one_wrapper_per_class_outer :
    (∀ v ∈ genericListed.2.visits, ¬ v.Rewraps genericImage 0) ∧
    genericListed.2.Answered ⟨0, "", "Outer", 0⟩ ∧
    genericListed.2.assembly.classesByRaw 0 = some ⟨0, "", "Outer", 0⟩ := by
  have honce : ∀ v ∈ genericListed.2.visits, ¬ v.Rewraps genericImage 0 := by
    decide
  have hanswered : genericListed.2.Answered ⟨0, "", "Outer", 0⟩ := by decide
  exact ⟨honce, hanswered,
    ((one_wrapper_per_class genericListed_run honce).2 _ hanswered rfl).2.1⟩

end Session

end Maple
