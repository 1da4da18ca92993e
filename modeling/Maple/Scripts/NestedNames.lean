import Maple.Scripts.AllClasses

/-!
# Maple.Scripts.NestedNames

**The names of nested classes.** `MonoHelper::getClassName` climbs from a class to the
outermost one and prepends, `getAllClasses` walks down from a class and appends. Both give
the class its path, and the namespace of the outermost class. The walk starts at a name that
`getClassName` has built and takes the names of the wrappers it meets, so what it needs is
that every wrapper in the tables has the name of its class (`Agrees`). A wrapper that was
asked for as `Outer/Inner` has not, and the classes below it get other names.
-/

namespace Maple

open Lib

variable {Raw : Type}

/-- In the list every class is nested in the one before it, and the first one in `outer`. -/
inductive Nests (nestingType : Raw → Option Raw) : Raw → List Raw → Prop
  | nil (outer : Raw) : Nests nestingType outer []
  | cons {outer raw : Raw} {rest : List Raw} : nestingType raw = some outer →
      Nests nestingType raw rest → Nests nestingType outer (raw :: rest)

/-- What Mono says about the names in an image. -/
structure Describes (image : MonoImage Raw) (nestingType : Raw → Option Raw)
    (nameSpace : Raw → String) : Prop where
  getClassName : ∀ raw, Settles
    (MonoHelper.getClassName nestingType nameSpace image.className · raw)
    (some (image.getClassName raw))
  nested : ∀ outer, ∀ raw ∈ image.nestedTypes outer, nestingType raw = some outer
  /-- A class is found by the name that it has. -/
  classFromName : ∀ id raw, image.Plain id → image.classFromName id = some raw →
    image.getClassName raw = id

/-- A call that comes with a raw class and a name comes with the name of that class, and one
that comes with a name alone does not ask for `Outer/Inner`. -/
structure GetClass.Named (image : MonoImage Raw) (call : GetClass Raw) : Prop where
  plain : ∀ ns name, call = .byName ns name → image.Plain ⟨ns, name⟩
  raw : ∀ ns name raw, call = .byAll ns name (some raw) → image.getClassName raw = ⟨ns, name⟩

/-- What is asked for from outside; the overload with a raw class and a name is private. -/
def AssemblyCall.Named (image : MonoImage Raw) : AssemblyCall Raw → Prop
  | .getClass call _ => call.Named image
  | .getAllClasses _ => True

variable {image : MonoImage Raw} {nestingType : Raw → Option Raw} {nameSpace : Raw → String}

/-! ### Along a chain -/

/-- What the classes of a chain append to a name. -/
def qualify (className : Raw → String) (typeName : String) (rest : List Raw) : String :=
  rest.foldl (fun typeName raw => typeName ++ "+" ++ className raw) typeName

/-- **Climbing and walking down** give the same name. -/
theorem settles_of_nests {className : Raw → String} {outer : Raw} {id : ClassId}
    (h : Settles (MonoHelper.getClassName nestingType nameSpace className · outer) (some id))
    {rest : List Raw} (hnests : Nests nestingType outer rest) :
    Settles (MonoHelper.getClassName nestingType nameSpace className · (rest.getLastD outer))
      (some ⟨id.namespaceName, qualify className id.name rest⟩) := by
  induction hnests generalizing id with
  | nil => exact h
  | cons hnested _ ih =>
      rw [List.getLastD_cons]
      exact ih (Metadata.settles_nested h hnested)

/-- The name of a class that no class encloses. -/
theorem settles_outermost {className : Raw → String} {outermost : Raw}
    (htop : nestingType outermost = none) :
    Settles (MonoHelper.getClassName nestingType nameSpace className · outermost)
      (some ⟨nameSpace outermost, className outermost⟩) :=
  .of_forall fun fuel => by rw [MonoHelper.getClassName, htop]

theorem Describes.getClassName_nested (h : Describes image nestingType nameSpace)
    {outer raw : Raw} (hraw : raw ∈ image.nestedTypes outer) :
    image.getClassName raw = ⟨(image.getClassName outer).namespaceName,
      (image.getClassName outer).name ++ "+" ++ image.className raw⟩ :=
  Option.some.inj ((h.getClassName raw).unique
    (Metadata.settles_nested (h.getClassName outer) (h.nested outer raw hraw)))

variable [DecidableEq Raw]

namespace MapleMonoAssembly

/-! ### The wrappers -/

/-- Every wrapper has the name of the class it wraps. -/
structure Agrees (image : MonoImage Raw) (a : MapleMonoAssembly Raw) : Prop where
  by_raw : ∀ raw w, a.classesByRaw raw = some w → Wraps image w raw
  by_name : ∀ id w, a.classes id = some w → w.classId = id ∧ Wraps image w w.clazz

variable {a a' : MapleMonoAssembly Raw} {raw : Raw} {id : ClassId} {named : Bool}

theorem Agrees.wrap (ha : Agrees image a) (hid : image.getClassName raw = id) :
    Agrees image (a.wrap id raw named) where
  by_raw raw' w hw := by
    rcases wrap_classesByRaw_cases hw with ⟨rfl, rfl⟩ | ⟨-, hw⟩
    · exact ⟨rfl, hid.symm⟩
    · exact ha.by_raw raw' w hw
  by_name id' w hw := by
    rcases wrap_classes_cases hw with ⟨rfl, rfl, -⟩ | hw
    · exact ⟨rfl, rfl, hid.symm⟩
    · exact ha.by_name id' w hw

omit [DecidableEq Raw] in
/-- A call that makes a wrapper makes it under the name of the class. -/
theorem Builds.getClassName_eq (h : Describes image nestingType nameSpace) {call : GetClass Raw}
    (hbuilds : Builds image a call id raw named) (hcall : call.Named image) :
    image.getClassName raw = id := by
  cases hbuilds with
  | byName _ hraw => exact h.classFromName _ raw (hcall.plain _ _ rfl) hraw
  | byRaw _ _ => rfl
  | byAll _ => exact hcall.raw _ _ raw rfl

theorem Agrees.getClass (h : Describes image nestingType nameSpace) (ha : Agrees image a)
    {call : GetClass Raw} (hcall : call.Named image) {answer : Option (MapleMonoClass Raw)}
    (hget : a.getClass image call = (answer, a')) : Agrees image a' := by
  rcases getClass_cases hget with ⟨rfl, -⟩ | ⟨id, raw, named, hbuilds, -, rfl⟩
  · exact ha
  · exact ha.wrap (Builds.getClassName_eq h hbuilds hcall)

/-- A class that is asked for by its name. -/
theorem Agrees.getClassByName (h : Describes image nestingType nameSpace) (ha : Agrees image a)
    (hid : image.Plain id) {w : MapleMonoClass Raw}
    (hget : (a.getClassByName image id).1 = some w) :
    w.classId = id ∧ Wraps image w w.clazz := by
  unfold MapleMonoAssembly.getClassByName at hget
  split at hget
  next found hfound =>
      obtain rfl := Option.some.inj hget
      exact ha.by_name id found hfound
  next hmiss =>
      split at hget
      next => exact nomatch hget
      next raw hraw =>
          obtain rfl := Option.some.inj hget
          exact ⟨rfl, rfl, (h.classFromName id raw hid hraw).symm⟩

/-- A class that is asked for with its name. -/
theorem Agrees.getClassByAll (ha : Agrees image a) (hid : image.getClassName raw = id)
    {w : MapleMonoClass Raw} (hget : (a.getClassByAll id (some raw)).1 = some w) :
    Wraps image w raw := by
  simp only [MapleMonoAssembly.getClassByAll] at hget
  split at hget
  next found hfound =>
      obtain rfl := Option.some.inj hget
      exact ha.by_raw raw found hfound
  next hmiss =>
      obtain rfl := Option.some.inj hget
      exact ⟨rfl, hid.symm⟩

end MapleMonoAssembly

namespace Session

open MapleMonoAssembly

variable {s s' : Session Raw} {attrib : Option Raw} {ns : String}

/-! ### The walk -/

/-- All wrappers have the names of their classes, and so had all raw classes that were asked
for with a name. -/
structure Agrees (image : MonoImage Raw) (s : Session Raw) : Prop where
  assembly : s.assembly.Agrees image
  visits : ∀ v ∈ s.visits, v.asked.Named image

omit [DecidableEq Raw] in
/-- The class list has no part in it. -/
theorem Agrees.of_tables (hs : Agrees image s)
    (hclasses : s'.assembly.classes = s.assembly.classes)
    (hbyRaw : s'.assembly.classesByRaw = s.assembly.classesByRaw)
    (hvisits : s'.visits = s.visits) : Agrees image s' where
  assembly := ⟨hbyRaw ▸ hs.assembly.by_raw, hclasses ▸ hs.assembly.by_name⟩
  visits := hvisits ▸ hs.visits

theorem Agrees.getClass (h : Describes image nestingType nameSpace) (hs : Agrees image s)
    {call : GetClass Raw} (hcall : call.Named image) {answer : Option (MapleMonoClass Raw)}
    (hget : s.getClass image call = (answer, s')) : Agrees image s' := by
  obtain ⟨hassembly, hvisits⟩ := getClass_eq hget
  refine ⟨hs.assembly.getClass h hcall hassembly, fun v hv => ?_⟩
  rw [hvisits] at hv
  cases List.mem_append.mp hv with
  | inl hv => exact hs.visits v hv
  | inr hv => exact List.mem_singleton.mp hv ▸ hcall

/-- What is on the stack `todo`, a wrapper of a class with this namespace. -/
def Pending (image : MonoImage Raw) (ns : String) (w : MapleMonoClass Raw) : Prop :=
  Wraps image w w.clazz ∧ w.nameSpace = ns

/-- The nested types of a class are asked for with their names. -/
theorem Agrees.visitNested (h : Describes image nestingType nameSpace)
    {cur : MapleMonoClass Raw} (hcur : Pending image ns cur) {raws : List Raw}
    (hraws : ∀ raw ∈ raws, raw ∈ image.nestedTypes cur.clazz) (hs : Agrees image s)
    {todo : List (MapleMonoClass Raw)} (htodo : ∀ w ∈ todo, Pending image ns w) :
    Agrees image (Session.visitNested image attrib ns cur raws s todo).1 ∧
      ∀ w ∈ (Session.visitNested image attrib ns cur raws s todo).2, Pending image ns w := by
  induction raws generalizing s todo with
  | nil => exact ⟨hs, htodo⟩
  | cons raw raws ih =>
      obtain ⟨hraw, hraws⟩ := List.forall_mem_cons.mp hraws
      -- the wrapper has the name of its class, so the appended name is that of the nested one
      have hname : image.getClassName raw = ⟨ns, cur.typeName ++ "+" ++ image.className raw⟩ := by
        rw [h.getClassName_nested hraw, ← hcur.1.2, ← hcur.2]
        rfl
      have hcall : GetClass.Named image
          (.byAll ns (cur.typeName ++ "+" ++ image.className raw) (some raw)) := by
        refine ⟨nofun, fun ns' name' raw' heq => ?_⟩
        obtain ⟨rfl, rfl, hraw'⟩ := GetClass.byAll.inj heq
        exact Option.some.inj hraw' ▸ hname
      rw [Session.visitNested]
      rcases hget : s.getClass image
        (.byAll ns (cur.typeName ++ "+" ++ image.className raw) (some raw)) with ⟨_ | w, s₁⟩
      · exact ih hraws (hs.getClass h hcall hget) htodo
      · have hs₁ := hs.getClass h hcall hget
        have hanswer := congrArg Prod.fst (getClass_eq hget).1
        have hw := hs.assembly.getClassByAll hname hanswer
        dsimp only
        split
        · exact ih hraws hs₁ htodo
        · have hpush : Agrees image (s₁.pushClass w) := hs₁.of_tables rfl rfl rfl
          refine ih hraws hpush (List.forall_mem_cons.mpr ⟨⟨hw.1.symm ▸ hw, ?_⟩, htodo⟩)
          exact congrArg ClassId.namespaceName (hw.2.trans hname)

theorem Agrees.nestedLoop (h : Describes image nestingType nameSpace) {fuel : Nat}
    {todo : List (MapleMonoClass Raw)} (htodo : ∀ w ∈ todo, Pending image ns w)
    (hs : Agrees image s) (hloop : Session.nestedLoop image attrib ns fuel todo s = some s') :
    Agrees image s' := by
  induction fuel generalizing todo s with
  | zero =>
      cases todo with
      | nil => exact Option.some.inj hloop ▸ hs
      | cons _ _ => exact nomatch hloop
  | succ fuel ih =>
      cases todo with
      | nil => exact Option.some.inj hloop ▸ hs
      | cons cur todo =>
          obtain ⟨hcur, htodo⟩ := List.forall_mem_cons.mp htodo
          obtain ⟨hs₁, htodo₁⟩ := hs.visitNested h hcur (fun _ hraw => hraw) htodo
          exact ih htodo₁ hs₁ hloop

omit [DecidableEq Raw] in
theorem named_byName {name : String} (hid : image.Plain ⟨ns, name⟩) :
    GetClass.Named image (.byName ns name) := by
  refine ⟨fun ns name heq => ?_, nofun⟩
  obtain ⟨rfl, rfl⟩ := GetClass.byName.inj heq
  exact hid

theorem Agrees.rowLoop (h : Describes image nestingType nameSpace) {fuel : Nat} {rows : List Raw}
    (hs : Agrees image s) (hloop : Session.rowLoop image attrib fuel rows s = some s') :
    Agrees image s' := by
  induction rows generalizing s with
  | nil => exact Option.some.inj hloop ▸ hs
  | cons monoClass rows ih =>
      rw [Session.rowLoop] at hloop
      have hplain : image.Plain (image.getClassName monoClass) := .inr ⟨monoClass, rfl⟩
      rcases hget : s.getClass image (.byName (image.getClassName monoClass).namespaceName
        (image.getClassName monoClass).name) with ⟨_ | w, s₁⟩
      · rw [hget] at hloop
        exact ih (hs.getClass h (named_byName hplain) hget) hloop
      · rw [hget] at hloop
        have hs₁ := hs.getClass h (named_byName hplain) hget
        have hanswer := congrArg Prod.fst (getClass_eq hget).1
        obtain ⟨hid, hw⟩ := hs.assembly.getClassByName h hplain hanswer
        dsimp only at hloop
        split at hloop
        · exact ih hs₁ hloop
        · obtain ⟨s₂, hnested, hrest⟩ := Option.bind_eq_some_iff.mp hloop
          have hpending : Pending image (image.getClassName monoClass).namespaceName w :=
            ⟨hw, congrArg ClassId.namespaceName hid⟩
          have hs₂ := hs₁.nestedLoop h (List.forall_mem_singleton.mpr hpending) hnested
          have hpush : Agrees image (s₂.pushClass w) := hs₂.of_tables rfl rfl rfl
          exact ih hpush hrest

theorem Agrees.compilerGeneratedAttrib (h : Describes image nestingType nameSpace)
    (hs : Agrees image s) : Agrees image (s.compilerGeneratedAttrib image).2 := by
  unfold Session.compilerGeneratedAttrib
  split
  · exact hs
  · exact hs.getClass h (named_byName (.inl (by decide))) rfl

theorem Agrees.getAllClasses (h : Describes image nestingType nameSpace) (hs : Agrees image s)
    {fuel : Nat} {answer : List (MapleMonoClass Raw)}
    (hall : s.getAllClasses image fuel = some (answer, s')) : Agrees image s' := by
  rw [Session.getAllClasses] at hall
  split at hall
  · exact (Prod.mk.inj (Option.some.inj hall)).2 ▸ hs
  · obtain ⟨s₁, hloop, heq⟩ := Option.map_eq_some_iff.mp hall
    obtain ⟨-, rfl⟩ := Prod.mk.inj heq
    have hclear : Agrees image
        { s with assembly := { s.assembly with cachedClassList := [] } } :=
      hs.of_tables rfl rfl rfl
    have hs₁ := (hclear.compilerGeneratedAttrib h).rowLoop h hloop
    exact hs₁.of_tables rfl rfl rfl

/-- In a run every wrapper gets the name of its class. -/
theorem agrees_of_run (h : Describes image nestingType nameSpace) {as : List (AssemblyCall Raw)}
    (hrun : Run (Step image) load as s) (has : ∀ a ∈ as, a.Named image) : Agrees image s := by
  refine hrun.invariant (I := fun as s => (∀ a ∈ as, a.Named image) → Agrees image s)
    (fun _ => ⟨⟨nofun, nofun⟩, nofun⟩) ?_ has
  intro as s call s' ih hstep has
  obtain ⟨has, hcall⟩ := List.forall_mem_append.mp has
  have hs := ih has
  cases hstep with
  | getClass hget => exact hs.getClass h (hcall _ (List.mem_singleton_self _)) hget
  | getAllClasses fuel hall => exact hs.getAllClasses h hall

/-- **The names of nested classes.** `getClassName` gives a class at the end of a chain of any
length the namespace of the outermost class, and its own name behind those of the classes
around it; and whenever `getAllClasses` asks for a nested class with the namespace and the
name that it has built on its way down, these are what `getClassName` gives, if no class has
been asked for as `Outer/Inner`. -/
theorem nested_names_agree (image : MonoImage Raw) (nestingType : Raw → Option Raw)
    (nameSpace : Raw → String) :
    (∀ outermost rest, nestingType outermost = none → Nests nestingType outermost rest →
      Settles (MonoHelper.getClassName nestingType nameSpace image.className ·
          (rest.getLastD outermost))
        (some ⟨nameSpace outermost, qualify image.className (image.className outermost) rest⟩)) ∧
    (Describes image nestingType nameSpace →
      ∀ as s, Run (Step image) load as s → (∀ a ∈ as, a.Named image) →
      ∀ v ∈ s.visits, ∀ ns name raw, v.asked = .byAll ns name (some raw) →
        Settles (MonoHelper.getClassName nestingType nameSpace image.className · raw)
          (some ⟨ns, name⟩)) := by
  constructor
  · intro outermost rest htop hnests
    exact settles_of_nests (settles_outermost htop) hnests
  · intro h as s hrun has v hv ns name raw hasked
    have hname := ((agrees_of_run h hrun has).visits v hv).raw ns name raw hasked
    exact hname ▸ h.getClassName raw

/-- `Deep` in `Inner` in `Outer`. -/
inductive DeepClass where
  | outer
  | inner
  | deep
  deriving DecidableEq

def deepImage : MonoImage DeepClass where
  classFromName := fun id =>
    if id = ⟨"Game", "Outer"⟩ then some .outer
    else if id = ⟨"Game", "Outer/Inner"⟩ then some .inner
    else if id = ⟨"Game", "Outer/Inner/Deep"⟩ then some .deep else none
  getClassName := fun
    | .outer => ⟨"Game", "Outer"⟩
    | .inner => ⟨"Game", "Outer+Inner"⟩
    | .deep => ⟨"Game", "Outer+Inner+Deep"⟩
  inImage := fun _ => true
  typeDefs := [.outer, .inner, .deep]
  nestedTypes := fun
    | .outer => [.inner]
    | .inner => [.deep]
    | .deep => []
  className := fun
    | .outer => "Outer"
    | .inner => "Inner"
    | .deep => "Deep"
  hasAttribute := fun _ _ => false
  corlib := .other none

/-- `mono_class_get_nesting_type` -/
def deepNesting : DeepClass → Option DeepClass
  | .outer => none
  | .inner => some .outer
  | .deep => some .inner

/-- `mono_class_get_namespace` -/
def deepNameSpace : DeepClass → String
  | .outer => "Game"
  | _ => ""

theorem deepImage_describes : Describes deepImage deepNesting deepNameSpace where
  getClassName raw := by
    cases raw with
    | outer => exact .of_forall fun _ => rfl
    | inner => exact .of_add 1 fun _ => rfl
    | deep => exact .of_add 2 fun _ => rfl
  nested raw nested h := by cases raw <;> cases nested <;> simp_all [deepImage, deepNesting]
  classFromName id raw hplain h := by
    have hslash : ∀ other : ClassId, '/' ∈ other.name.toList →
        (∀ raw, deepImage.getClassName raw ≠ other) → id ≠ other := by
      intro other hslash hother heq
      obtain rfl := heq
      exact hplain.elim (fun hno => hno hslash) fun ⟨raw, hraw⟩ => hother raw hraw
    have hinner := hslash ⟨"Game", "Outer/Inner"⟩ (by decide)
      fun raw => by cases raw <;> decide
    have hdeep := hslash ⟨"Game", "Outer/Inner/Deep"⟩ (by decide)
      fun raw => by cases raw <;> decide
    simp only [deepImage, if_neg hinner, if_neg hdeep] at h
    split at h
    next hid =>
        obtain rfl := Option.some.inj h
        exact hid.symm
    next => exact nomatch h

/-- `getAllClasses`, in a session. -/
def deepListed (s : Session DeepClass) (h : (getAllClasses deepImage 4 s).isSome) :
    List (MapleMonoClass DeepClass) × Session DeepClass :=
  (getAllClasses deepImage 4 s).get h

theorem deepListed_step (s : Session DeepClass) (h : (getAllClasses deepImage 4 s).isSome) :
    Step deepImage s (.getAllClasses (deepListed s h).1) (deepListed s h).2 :=
  .getAllClasses 4 (Option.some_get h).symm

/-- The session after `getClass("Game", "Outer/Inner")`. -/
def innerAsked : Session DeepClass := (load.getClass deepImage (.byName "Game" "Outer/Inner")).2

theorem innerAsked_isSome : (getAllClasses deepImage 4 innerAsked).isSome := by decide

/-- `Outer/Inner` is asked for first, and in a class of this name `getAllClasses` takes `Deep`
for another one. -/
theorem nested_names_differ :
    Describes deepImage deepNesting deepNameSpace ∧ ∃ as s, Run (Step deepImage) load as s ∧
      ∃ v ∈ s.visits, ∃ name, v.asked = .byAll "Game" name (some .deep) ∧
        ¬ Settles (MonoHelper.getClassName deepNesting deepNameSpace deepImage.className · .deep)
          (some ⟨"Game", name⟩) := by
  have hfirst : Step deepImage load (.getClass (.byName "Game" "Outer/Inner")
      (some ⟨0, "Game", "Outer/Inner", .inner⟩)) innerAsked := .getClass rfl
  refine ⟨deepImage_describes, _, _,
    ((Run.nil load).snoc hfirst).snoc (deepListed_step _ innerAsked_isSome), ?_⟩
  obtain ⟨v, hv, hasked⟩ : ∃ v ∈ (deepListed _ innerAsked_isSome).2.visits,
      v.asked = .byAll "Game" "Outer/Inner+Deep" (some .deep) := by decide
  refine ⟨v, hv, _, hasked, fun hsettles => ?_⟩
  exact absurd ((deepImage_describes.getClassName .deep).unique hsettles) (by decide)

/-- The name of `Deep`, with which `getAllClasses` asks for it in a fresh assembly. -/
theorem nested_names_agree_deep :
    Settles (MonoHelper.getClassName deepNesting deepNameSpace deepImage.className · .deep)
      (some ⟨"Game", "Outer" ++ "+" ++ "Inner" ++ "+" ++ "Deep"⟩) ∧
    ∃ v ∈ (deepListed load (by decide)).2.visits, ∃ name,
      v.asked = .byAll "Game" name (some .deep) ∧
      Settles (MonoHelper.getClassName deepNesting deepNameSpace deepImage.className · .deep)
        (some ⟨"Game", name⟩) := by
  obtain ⟨hchain, hwalk⟩ := nested_names_agree deepImage deepNesting deepNameSpace
  have hnamed : ∀ a ∈ [AssemblyCall.getAllClasses (deepListed load (by decide)).1],
      a.Named deepImage := List.forall_mem_singleton.mpr trivial
  obtain ⟨v, hv, hasked⟩ : ∃ v ∈ (deepListed load (by decide)).2.visits,
      v.asked = .byAll "Game" "Outer+Inner+Deep" (some .deep) := by decide
  refine ⟨hchain .outer [.inner, .deep] rfl (.cons rfl (.cons rfl (.nil _))), v, hv, _, hasked, ?_⟩
  exact hwalk deepImage_describes _ _ ((Run.nil load).snoc (deepListed_step load (by decide)))
    hnamed v hv _ _ _ hasked

end Session

end Maple
