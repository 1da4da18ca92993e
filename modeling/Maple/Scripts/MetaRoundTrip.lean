import Maple.Scripts.MetaFile

/-!
# Maple.Scripts.MetaRoundTrip

The fields of a script component, saved and loaded again. **They come back exactly if
`__cname` and `__index` hold tables or there is no field to save, and no two fields are one
object that is to hold two values.** Which fields are saved is said by their names and kinds.
-/

namespace Maple.MetaFile

variable {F : Type}

/-- Fields that are saved: all but the bookkeeping of the class, nested tables, and the entity
that the component is on. -/
def IsSaved (name : String) (kind : Kind) : Prop :=
  ¬ Skipped name ∧ kind ≠ .table ∧ ¬ (kind = .entity ∧ name = "entity")

instance (name : String) (kind : Kind) : Decidable (IsSaved name kind) :=
  inferInstanceAs (Decidable (_ ∧ _ ∧ _))

/-- What a field is to hold: what was saved, or what it held. -/
def wanted (saved target : LuaComponent F) (scene : Nat) (name : String) : Option (Content F) :=
  match saved.content name with
  | some content =>
    if IsSaved name content.kind then some (content.inScene scene) else target.content name
  | none => target.content name

/-- No field is to be saved. -/
def NoneSaved (c : LuaComponent F) : Prop :=
  ∀ pair ∈ c.table.entries, ¬ IsSaved pair.1 (c.contentOf pair.2).kind

instance (c : LuaComponent F) : Decidable (NoneSaved c) :=
  inferInstanceAs (Decidable (∀ pair ∈ _, _))

/-- Nothing is thrown and every field holds what it is to hold. -/
def RoundTrips (saved target : LuaComponent F) (scene : Nat) : Prop :=
  ∃ after, load target (save saved) scene = (after, none) ∧
    ∀ name, after.content name = wanted saved target scene name

/-- `__cname` and `__index` hold tables, if they are there. -/
def Bookkept (c : LuaComponent F) : Prop :=
  ∀ pair ∈ c.table.entries, Skipped pair.1 → (c.contentOf pair.2).kind = .table

instance (c : LuaComponent F) : Decidable (Bookkept c) :=
  inferInstanceAs (Decidable (∀ pair ∈ _, _))

def Field.place : Field F → Option Nat
  | .scalar _ => none
  | .userdata object => some object

/-- Two fields that are one object are to hold the same. -/
def Agree (saved target : LuaComponent F) (scene : Nat) : Prop :=
  ∀ pair ∈ target.table.entries, ∀ pair' ∈ target.table.entries,
    pair.2.place ≠ none → pair.2.place = pair'.2.place →
      wanted saved target scene pair.1 = wanted saved target scene pair'.1

instance [DecidableEq F] (saved target : LuaComponent F) (scene : Nat) :
    Decidable (Agree saved target scene) :=
  inferInstanceAs (Decidable (∀ pair ∈ _, ∀ pair' ∈ _, _))

/-! ### The fields that are saved -/

theorem saveContent_ne_none_iff {name : String} (hname : ¬ Skipped name) (content : Content F) :
    saveContent name content ≠ none ↔ IsSaved name content.kind := by
  rw [ne_eq, saveContent_eq_none_iff, not_or, IsSaved, and_iff_right hname]

theorem lookup_save_of_isSaved {saved : LuaComponent F} {name : String} {content : Content F}
    (hcontent : saved.content name = some content) (h : IsSaved name content.kind) :
    ∃ json, saveContent name content = some json ∧ (save saved).lookup name = some json := by
  obtain ⟨json, hjson⟩ :=
    Option.ne_none_iff_exists'.mp ((saveContent_ne_none_iff h.1 content).mpr h)
  refine ⟨json, hjson, ?_⟩
  rw [lookup_save, if_neg h.1, hcontent]
  exact hjson

theorem save_eq_nil_iff {saved : LuaComponent F} : save saved = [] ↔ NoneSaved saved := by
  rw [save, List.filterMap_eq_nil_iff]
  refine forall₂_congr fun pair hpair => ?_
  rw [Option.map_eq_none_iff, saveField]
  by_cases hname : Skipped pair.1
  · exact iff_of_true (if_pos hname) fun h => h.1 hname
  · rw [if_neg hname, ← saveContent_ne_none_iff hname, not_not]

/-! ### The field that is stored -/

theorem content_store_scalar (c : LuaComponent F) (name : String) (old value : Scalar F)
    (other : String) : (store c name (.scalar old) (.scalar value)).content other =
      if other = name then some (.scalar value) else c.content other := by
  change ((c.table.insert name (.scalar value)).lookup other).map _ = _
  split
  next h =>
      rw [h, AList.lookup_insert]
      rfl
  next h =>
      rw [AList.lookup_insert_ne h]
      rfl

theorem content_store_object {c : LuaComponent F} {other : String} {place : Nat}
    (hother : c.table.lookup other = some (.userdata place)) (name : String)
    (object : Object F) :
    (store c name (.userdata place) (.object object)).content other = some (.object object) := by
  have hobject : Function.update c.objects place object place = object := Function.update_self ..
  change (c.table.lookup other).map _ = _
  rw [hother]
  exact congrArg (some <| Content.object ·) hobject

theorem content_store_object_ne {c : LuaComponent F} {other : String} {place : Nat}
    (hother : c.table.lookup other ≠ some (.userdata place)) (name : String)
    (object : Object F) :
    (store c name (.userdata place) (.object object)).content other = c.content other := by
  change (c.table.lookup other).map _ = (c.table.lookup other).map _
  cases hfield : c.table.lookup other with
  | none => rfl
  | some field =>
      cases field with
      | scalar value => rfl
      | userdata place' =>
          have hplace : place' ≠ place := fun h => hother (h ▸ hfield)
          have hobject : Function.update c.objects place object place' = c.objects place' :=
            Function.update_of_ne hplace ..
          exact congrArg (some <| Content.object ·) hobject

/-- No field is made to point elsewhere. -/
def SamePlaces (c d : LuaComponent F) : Prop := ∀ name place,
  c.table.lookup name = some (.userdata place) ↔ d.table.lookup name = some (.userdata place)

theorem samePlaces_store {c target : LuaComponent F} {name : String} {field : Field F}
    (h : SamePlaces c target) (hfield : target.table.lookup name = some field)
    (content : Content F) : SamePlaces (store c name field content) target := by
  intro other place
  match field, content with
  | .userdata _, .object _ | .userdata _, .scalar _ | .scalar _, .object _ => exact h other place
  | .scalar old, .scalar value =>
    change (c.table.insert name (.scalar value)).lookup other = _ ↔ _
    by_cases hname : other = name
    · rw [hname, AList.lookup_insert, hfield]
      exact iff_of_false (by simp) (by simp)
    · rw [AList.lookup_insert_ne hname]
      exact h other place

theorem samePlaces_loadFields (archive : Archive F) (scene : Nat) {target : LuaComponent F}
    (pairs : List (Sigma fun _ : String => Field F))
    (hpairs : ∀ pair ∈ pairs, target.table.lookup pair.1 = some pair.2) (c : LuaComponent F)
    (h : SamePlaces c target) : SamePlaces (loadFields archive scene pairs c).1 target := by
  induction pairs generalizing c with
  | nil => exact h
  | cons pair pairs ih =>
      have hrest := fun other hother => hpairs other (List.mem_cons_of_mem _ hother)
      rw [loadFields, loadField]
      match loadContent archive scene pair.1 (c.contentOf pair.2) with
      | .error _ => exact h
      | .ok none => exact ih hrest c h
      | .ok (some content) =>
        exact ih hrest _ (samePlaces_store h (hpairs pair List.mem_cons_self) content)

/-- The loop throws for a field that was not saved. -/
theorem loadFields_missing {archive : Archive F} (scene : Nat) {name : String} {field : Field F}
    (hmissing : archive.lookup name = none)
    (hsave : ∀ c : LuaComponent F, saveContent name (c.contentOf field) ≠ none)
    (pairs : List (Sigma fun _ : String => Field F)) (hpair : ⟨name, field⟩ ∈ pairs)
    (c : LuaComponent F) : (loadFields archive scene pairs c).2 ≠ none := by
  induction pairs generalizing c with
  | nil => exact absurd hpair List.not_mem_nil
  | cons pair pairs ih =>
      rw [loadFields]
      cases List.mem_cons.mp hpair with
      | inl heq =>
          rw [← heq, loadField, loadContent_missing (hsave c) hmissing]
          exact Option.some_ne_none _
      | inr hpair =>
          match loadField archive scene c pair.1 pair.2 with
          | .error _ => exact Option.some_ne_none _
          | .ok c => exact ih hpair c

/-! ### Components of the same kinds -/

theorem mem_kinds_iff {c : LuaComponent F} {name : String} {kind : Kind} :
    (name, kind) ∈ c.kinds ↔ ∃ content, c.content name = some content ∧ content.kind = kind := by
  constructor
  · intro h
    obtain ⟨pair, hpair, heq⟩ := List.mem_map.mp h
    obtain ⟨rfl, rfl⟩ := Prod.mk.inj heq
    exact ⟨_, LuaComponent.content_of_lookup (AList.mem_lookup_iff.mpr hpair), rfl⟩
  · intro h
    obtain ⟨content, hcontent, rfl⟩ := h
    obtain ⟨field, hfield, rfl⟩ := Option.map_eq_some_iff.mp hcontent
    exact List.mem_map.mpr ⟨⟨name, field⟩, AList.mem_lookup_iff.mp hfield, rfl⟩

section Loop

variable {saved target : LuaComponent F} (hkinds : target.SameKinds saved) (scene : Nat)

include hkinds in
theorem exists_saved {name : String} {content : Content F}
    (hcontent : target.content name = some content) :
    ∃ content', saved.content name = some content' ∧ content'.kind = content.kind :=
  mem_kinds_iff.mp (hkinds.mem_iff.mp (mem_kinds_iff.mpr ⟨content, hcontent, rfl⟩))

include hkinds in
theorem exists_wanted {name : String} {content : Content F}
    (hcontent : target.content name = some content) : ∃ content',
      wanted saved target scene name = some content' ∧ content'.kind = content.kind := by
  obtain ⟨content', hsaved, hkind⟩ := exists_saved hkinds hcontent
  simp only [wanted, hsaved]
  split
  next => exact ⟨content'.inScene scene, rfl, (kind_inScene scene content').trans hkind⟩
  next => exact ⟨content, hcontent, rfl⟩

/-- In the loop: what is still to load holds what it held, or already what it is to hold. -/
structure Loading (saved target : LuaComponent F) (scene : Nat) (names : List String)
    (c : LuaComponent F) : Prop where
  places : SamePlaces c target
  held : ∀ name, c.content name = wanted saved target scene name ∨
    c.content name = target.content name ∧ name ∈ names

include hkinds in
theorem Loading.kind_contentOf {names : List String} {c : LuaComponent F}
    (h : Loading saved target scene names c) {name : String} {field : Field F}
    (hfield : target.table.lookup name = some field) :
    (c.contentOf field).kind = (target.contentOf field).kind := by
  have htarget := LuaComponent.content_of_lookup hfield
  cases field with
  | scalar value => rfl
  | userdata place =>
      have hc := LuaComponent.content_of_lookup ((h.places name place).mpr hfield)
      obtain ⟨content, hwanted, hkind⟩ := exists_wanted hkinds scene htarget
      cases h.held name with
      | inl hheld =>
          rw [hc, hwanted] at hheld
          rw [Option.some.inj hheld, hkind]
      | inr hheld =>
          rw [hc, htarget] at hheld
          rw [Option.some.inj hheld.1]

theorem agree_iff : Agree saved target scene ↔ ∀ name name' place,
    target.table.lookup name = some (.userdata place) →
    target.table.lookup name' = some (.userdata place) →
      wanted saved target scene name = wanted saved target scene name' := by
  constructor
  · intro h name name' place hname hname'
    exact h ⟨name, _⟩ (AList.mem_lookup_iff.mp hname) ⟨name', _⟩ (AList.mem_lookup_iff.mp hname')
      (Option.some_ne_none place) rfl
  · intro h pair hpair pair' hpair' hplace heq
    match pair, pair' with
    | ⟨name, .userdata place⟩, ⟨name', .userdata place'⟩ =>
      obtain rfl := Option.some.inj heq
      exact h name name' place (AList.mem_lookup_iff.mpr hpair) (AList.mem_lookup_iff.mpr hpair')
    | ⟨_, .scalar _⟩, _ => exact absurd rfl hplace
    | ⟨_, .userdata _⟩, ⟨_, .scalar _⟩ => exact nomatch heq

/-- A field other than the one at hand. -/
theorem Loading.held_other {name : String} {names : List String} {c : LuaComponent F}
    (h : Loading saved target scene (name :: names) c) {other : String} (hne : other ≠ name) :
    c.content other = wanted saved target scene other ∨
      c.content other = target.content other ∧ other ∈ names :=
  (h.held other).imp_right (And.imp_right fun hmem => (List.mem_cons.mp hmem).resolve_left hne)

/-- A field is loaded. -/
theorem Loading.store (hagree : Agree saved target scene) {name : String} {names : List String}
    {c : LuaComponent F} (h : Loading saved target scene (name :: names) c) {field : Field F}
    (hfield : target.table.lookup name = some field) {content : Content F}
    (hwanted : wanted saved target scene name = some content)
    (hkind : content.kind = (target.contentOf field).kind) :
    Loading saved target scene names (MetaFile.store c name field content) := by
  refine ⟨samePlaces_store h.places hfield content, fun other => ?_⟩
  cases field with
  | scalar old =>
      obtain ⟨value, rfl⟩ := exists_scalar hkind
      rw [content_store_scalar]
      by_cases hname : other = name
      · rw [if_pos hname, hname, hwanted]
        exact .inl rfl
      · rw [if_neg hname]
        exact h.held_other scene hname
  | userdata place =>
      obtain ⟨object, rfl⟩ := exists_object hkind
      by_cases hplace : c.table.lookup other = some (.userdata place)
      · rw [content_store_object hplace, ← hwanted]
        exact .inl ((agree_iff scene).mp hagree _ _ place hfield ((h.places other place).mp hplace))
      · rw [content_store_object_ne hplace]
        exact h.held_other scene fun hname => hplace (hname ▸ (h.places name place).mpr hfield)

include hkinds in
theorem Loading.step (hbook : Bookkept target) (hagree : Agree saved target scene)
    {name : String} {names : List String} {c : LuaComponent F}
    (h : Loading saved target scene (name :: names) c) {field : Field F}
    (hfield : target.table.lookup name = some field) :
    ∃ after, loadField (save saved) scene c name field = .ok after ∧
      Loading saved target scene names after := by
  have htarget := LuaComponent.content_of_lookup hfield
  obtain ⟨content, hsaved, hkind⟩ := exists_saved hkinds htarget
  have hc := h.kind_contentOf hkinds scene hfield
  unfold loadField
  by_cases his : IsSaved name content.kind
  · obtain ⟨json, hsave, hlookup⟩ := lookup_save_of_isSaved hsaved his
    have hwanted : wanted saved target scene name = some (content.inScene scene) := by
      simp only [wanted, hsaved, if_pos his]
    rw [loadContent_saved hsave hlookup (hc.trans hkind.symm)]
    exact ⟨_, rfl, h.store scene hagree hfield hwanted ((kind_inScene scene content).trans hkind)⟩
  · have hnone : saveContent name (c.contentOf field) = none := by
      rw [saveContent_eq_none_iff, hc, ← hkind]
      by_contra hsome
      have htable : content.kind ≠ .table := fun htable => hsome (.inl htable)
      have hskipped : Skipped name := by
        by_contra hskipped
        exact his ⟨hskipped, htable, fun hentity => hsome (.inr hentity)⟩
      exact htable (hkind.trans (hbook ⟨name, field⟩ (AList.mem_lookup_iff.mp hfield) hskipped))
    have hwanted : wanted saved target scene name = target.content name := by
      simp only [wanted, hsaved, if_neg his]
    rw [loadContent_none hnone]
    refine ⟨c, rfl, h.places, fun other => ?_⟩
    by_cases hname : other = name
    · rw [hname]
      exact .inl ((h.held name).elim id fun hheld => hheld.1.trans hwanted.symm)
    · exact h.held_other scene hname

include hkinds in
theorem Loading.run (hbook : Bookkept target) (hagree : Agree saved target scene)
    (pairs : List (Sigma fun _ : String => Field F))
    (hpairs : ∀ pair ∈ pairs, target.table.lookup pair.1 = some pair.2) {c : LuaComponent F}
    (h : Loading saved target scene pairs.keys c) :
    ∃ after, loadFields (save saved) scene pairs c = (after, none) ∧
      Loading saved target scene [] after := by
  induction pairs generalizing c with
  | nil => exact ⟨c, rfl, h⟩
  | cons pair pairs ih =>
      obtain ⟨next, hnext, hloading⟩ :=
        h.step hkinds scene hbook hagree (hpairs pair List.mem_cons_self)
      rw [loadFields, hnext]
      exact ih (fun other hother => hpairs other (List.mem_cons_of_mem _ hother)) hloading

include hkinds in
theorem wanted_absent {name : String} (htarget : target.content name = none) :
    wanted saved target scene name = none := by
  cases hsaved : saved.content name with
  | none => simp only [wanted, hsaved, htarget]
  | some content =>
      obtain ⟨content', hcontent', -⟩ :=
        mem_kinds_iff.mp (hkinds.mem_iff.mpr (mem_kinds_iff.mpr ⟨content, hsaved, rfl⟩))
      exact nomatch htarget.symm.trans hcontent'

include hkinds in
theorem Loading.init : Loading saved target scene target.table.keys target := by
  refine ⟨fun _ _ => Iff.rfl, fun name => ?_⟩
  cases hfield : target.table.lookup name with
  | none =>
      have htarget : target.content name = none := by rw [LuaComponent.content, hfield]; rfl
      exact .inl (htarget.trans (wanted_absent hkinds scene htarget).symm)
  | some field =>
      have hmem : name ∈ target.table := AList.lookup_isSome.mp (by rw [hfield]; rfl)
      exact .inr ⟨rfl, AList.mem_keys.mp hmem⟩

end Loop

/-! ### When the fields come back -/

theorem samePlaces_load (target : LuaComponent F) (archive : Archive F) (scene : Nat) :
    SamePlaces (load target archive scene).1 target := by
  unfold load
  split
  next => exact fun _ _ => Iff.rfl
  next =>
      exact samePlaces_loadFields archive scene target.table.entries
        (fun pair hpair => AList.mem_lookup_iff.mpr hpair) target (fun _ _ => Iff.rfl)

theorem kind_table {c : LuaComponent F} {field : Field F} (d : LuaComponent F)
    (h : (c.contentOf field).kind = .table) : (d.contentOf field).kind = .table := by
  cases field with
  | scalar value => exact h
  | userdata place =>
      rw [LuaComponent.contentOf] at h
      cases hobject : c.objects place <;> rw [hobject] at h <;> cases h

/-- A field that `save` skips and `load` asks for is not found. -/
theorem bookkept_of_load {saved target after : LuaComponent F} {scene : Nat}
    (hsome : save saved ≠ []) (h : load target (save saved) scene = (after, none)) :
    Bookkept target := by
  intro pair hpair hskipped
  by_contra hkind
  have hlookup : (save saved).lookup pair.1 = none := by rw [lookup_save, if_pos hskipped]
  have hsave (c : LuaComponent F) : saveContent pair.1 (c.contentOf pair.2) ≠ none := by
    rw [ne_eq, saveContent_eq_none_iff]
    intro hnone
    cases hnone with
    | inl htable => exact hkind (kind_table target htable)
    | inr hentity => exact absurd (hentity.2 ▸ hskipped) (by decide)
  rw [load, if_neg (by simpa using hsome)] at h
  exact loadFields_missing scene hlookup hsave _ hpair target (congrArg Prod.snd h)

/-- The fields of one component, loaded into another one of the same kinds. -/
theorem load_save_iff (saved target : LuaComponent F) (hkinds : target.SameKinds saved)
    (scene : Nat) : RoundTrips saved target scene ↔
      (NoneSaved saved ∨ Bookkept target) ∧ Agree saved target scene := by
  rw [← save_eq_nil_iff]
  constructor
  · intro h
    obtain ⟨after, hload, hheld⟩ := h
    constructor
    · by_cases hempty : save saved = []
      · exact .inl hempty
      · exact .inr (bookkept_of_load hempty hload)
    · rw [agree_iff]
      intro name name' place hname hname'
      have hplaces := samePlaces_load target (save saved) scene
      rw [hload] at hplaces
      rw [← hheld, ← hheld, LuaComponent.content_of_lookup ((hplaces name place).mpr hname),
        LuaComponent.content_of_lookup ((hplaces name' place).mpr hname')]
  · intro h
    obtain ⟨hbook, hagree⟩ := h
    unfold RoundTrips load
    by_cases hempty : save saved = []
    · refine ⟨target, by rw [hempty]; rfl, fun name => ?_⟩
      cases hsaved : saved.content name with
      | none => simp only [wanted, hsaved]
      | some content =>
          have hnot : ¬ IsSaved name content.kind := by
            intro his
            obtain ⟨json, -, hlookup⟩ := lookup_save_of_isSaved hsaved his
            rw [hempty] at hlookup
            exact nomatch hlookup
          simp only [wanted, hsaved, if_neg hnot]
    · obtain ⟨after, hafter, hloading⟩ := (Loading.init hkinds scene).run hkinds scene
        (hbook.resolve_left hempty) hagree target.table.entries
        (fun pair hpair => AList.mem_lookup_iff.mpr hpair)
      rw [if_neg (by simpa using hempty)]
      exact ⟨after, hafter, fun name => (hloading.held name).resolve_right
        (fun h => List.not_mem_nil h.2)⟩

/-- A component with a number, a vector and its entity. -/
def walker (speed x y : Int) (fields : List (Sigma fun _ : String => Field Int)) :
    LuaComponent Int where
  table := List.toAList (fields ++ [⟨"speed", .scalar (.number speed)⟩, ⟨"goal", .userdata 0⟩,
    ⟨"entity", .userdata 1⟩])
  objects := fun place => if place = 0 then .vec2 x y else .entity 7 0

theorem load_save_walker : RoundTrips (walker 3 1 2 [⟨"__index", .scalar (.table 5)⟩])
    (walker 0 0 0 [⟨"__index", .scalar (.table 6)⟩]) 4 :=
  (load_save_iff (walker 3 1 2 [⟨"__index", .scalar (.table 5)⟩])
    (walker 0 0 0 [⟨"__index", .scalar (.table 6)⟩]) (by decide) 4).mpr
    ⟨.inr (by decide), by decide⟩

/-- The name of the class is not in the archive. -/
theorem load_save_cname : ¬ ∀ saved target : LuaComponent Int, target.SameKinds saved →
    ∀ scene, RoundTrips saved target scene := by
  intro h
  let c := walker 3 1 2 [⟨"__cname", .scalar (.string "Walker")⟩]
  obtain ⟨after, hload, -⟩ := h c c (List.Perm.refl _) 0
  have hthrown : (load c (save c) 0).2 = some (.notFound "__cname") := by decide
  rw [hload] at hthrown
  exact nomatch hthrown

end Maple.MetaFile
