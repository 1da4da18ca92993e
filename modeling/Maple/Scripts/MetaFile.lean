import Mathlib.Data.List.AList
import Mathlib.Logic.Function.Basic

/-!
# Maple.Scripts.MetaFile

`Scripts/Lua/MetaFile.cpp`: the fields of a script component are saved in a JSON archive
and loaded into the fields of the same kinds. **What `save` writes of a field `load` reads
into a field of the same kind** (`loadContent_saved`), but `save` skips `__cname` and
`__index`, and `load` asks the archive for them.

A vector or an entity is an object outside of the table, which a field points at, and `load`
writes into it. `F` stands for `float`; every number is one.
-/

namespace Maple.MetaFile

inductive Object (F : Type) where
  | vec2 (x y : F)
  | vec3 (x y z : F)
  | vec4 (x y z w : F)
  /-- `Entity` -/
  | entity (handle : UInt32) (scene : Nat)
  deriving DecidableEq, Repr

inductive Scalar (F : Type) where
  | number (value : F)
  | string (value : String)
  | bool (value : Bool)
  /-- a nested table, by its address -/
  | table (ref : Nat)
  deriving DecidableEq, Repr

inductive Field (F : Type) where
  | scalar (value : Scalar F)
  | userdata (object : Nat)
  deriving DecidableEq, Repr

/-- A field, with the object that it points at. -/
inductive Content (F : Type) where
  | scalar (value : Scalar F)
  | object (object : Object F)
  deriving DecidableEq, Repr

structure LuaComponent (F : Type) where
  /-- in the order of `luabridge::pairs` -/
  table : AList (fun _ : String => Field F)
  objects : Nat → Object F

/-- A value of the archive. -/
inductive Json (F : Type) where
  | number (value : F)
  | string (value : String)
  | bool (value : Bool)
  | object (values : List F)
  | handle (value : UInt32)
  deriving DecidableEq, Repr

abbrev Archive (F : Type) := List (String × Json F)

inductive Error where
  /-- `JSON Parsing failed - provided NVP (name) not found` -/
  | notFound (name : String)
  /-- the value is of another kind -/
  | assertion
  deriving DecidableEq, Repr

variable {F : Type}

namespace LuaComponent

def contentOf (c : LuaComponent F) : Field F → Content F
  | .scalar value => .scalar value
  | .userdata object => .object (c.objects object)

def content (c : LuaComponent F) (name : String) : Option (Content F) :=
  (c.table.lookup name).map c.contentOf

theorem content_of_lookup {c : LuaComponent F} {name : String} {field : Field F}
    (h : c.table.lookup name = some field) : c.content name = some (c.contentOf field) :=
  congrArg (Option.map c.contentOf) h

end LuaComponent

/-! ### save -/

/-- What `save` writes for a field that it does not skip. -/
def saveContent (name : String) : Content F → Option (Json F)
  | .scalar (.number value) => some (.number value)
  | .scalar (.string value) => some (.string value)
  | .scalar (.bool value) => some (.bool value)
  | .scalar (.table _) => none
  | .object (.vec2 x y) => some (.object [x, y])
  | .object (.vec3 x y z) => some (.object [x, y, z])
  | .object (.vec4 x y z w) => some (.object [x, y, z, w])
  | .object (.entity handle _) => if name ≠ "entity" then some (.handle handle) else none

/-- The names that `save` passes over. -/
def Skipped (name : String) : Prop := name = "__cname" ∨ name = "__index"

instance (name : String) : Decidable (Skipped name) := inferInstanceAs (Decidable (_ ∨ _))

def saveField (c : LuaComponent F) (name : String) (field : Field F) : Option (Json F) :=
  if Skipped name then none else saveContent name (c.contentOf field)

def save (c : LuaComponent F) : Archive F :=
  c.table.entries.filterMap (fun pair => (saveField c pair.1 pair.2).map (pair.1, ·))

/-! ### load -/

def Json.toNumber : Json F → Option F
  | .number value => some value
  | _ => none

def Json.toString : Json F → Option String
  | .string value => some value
  | _ => none

def Json.toBool : Json F → Option Bool
  | .bool value => some value
  | _ => none

def Json.toVec2 : Json F → Option (Object F)
  | .object (x :: y :: _) => some (.vec2 x y)
  | _ => none

def Json.toVec3 : Json F → Option (Object F)
  | .object (x :: y :: z :: _) => some (.vec3 x y z)
  | _ => none

def Json.toVec4 : Json F → Option (Object F)
  | .object (x :: y :: z :: w :: _) => some (.vec4 x y z w)
  | _ => none

def Json.toHandle : Json F → Option UInt32
  | .handle value => some value
  | _ => none

/-- The archive reads the value of the name. -/
def nvp {α : Type} (read : Json F → Option α) (archive : Archive F) (name : String) :
    Except Error α :=
  match archive.lookup name with
  | none => .error (.notFound name)
  | some json =>
    match read json with
    | none => .error .assertion
    | some value => .ok value

/-- What `load` reads for a field, if it reads. -/
def loadContent (archive : Archive F) (scene : Nat) (name : String) :
    Content F → Except Error (Option (Content F))
  | .scalar (.number _) => (nvp Json.toNumber archive name).map (some <| .scalar <| .number ·)
  | .scalar (.string _) => (nvp Json.toString archive name).map (some <| .scalar <| .string ·)
  | .scalar (.bool _) => (nvp Json.toBool archive name).map (some <| .scalar <| .bool ·)
  | .scalar (.table _) => .ok none
  | .object (.vec2 ..) => (nvp Json.toVec2 archive name).map (some <| .object ·)
  | .object (.vec3 ..) => (nvp Json.toVec3 archive name).map (some <| .object ·)
  | .object (.vec4 ..) => (nvp Json.toVec4 archive name).map (some <| .object ·)
  | .object (.entity ..) =>
    if name ≠ "entity" then
      (nvp Json.toHandle archive name).map (some <| .object <| .entity · scene)
    else .ok none

/-- A scalar goes into the table, an object into its place. -/
def store (c : LuaComponent F) (name : String) : Field F → Content F → LuaComponent F
  | .scalar _, .scalar value => { c with table := c.table.insert name (.scalar value) }
  | .userdata place, .object object =>
    { c with objects := Function.update c.objects place object }
  | _, _ => c

def loadField (archive : Archive F) (scene : Nat) (c : LuaComponent F) (name : String)
    (field : Field F) : Except Error (LuaComponent F) :=
  match loadContent archive scene name (c.contentOf field) with
  | .error e => .error e
  | .ok none => .ok c
  | .ok (some content) => .ok (store c name field content)

/-- The loop over the pairs; an error ends it. -/
def loadFields (archive : Archive F) (scene : Nat) :
    List (Sigma fun _ : String => Field F) → LuaComponent F → LuaComponent F × Option Error
  | [], c => (c, none)
  | pair :: pairs, c =>
    match loadField archive scene c pair.1 pair.2 with
    | .error e => (c, some e)
    | .ok c => loadFields archive scene pairs c

/-- An archive without values is an empty file. -/
def load (c : LuaComponent F) (archive : Archive F) (scene : Nat) :
    LuaComponent F × Option Error :=
  if archive.isEmpty then (c, none) else loadFields archive scene c.table.entries c

/-! ### Kinds of values -/

inductive Kind where
  | number | string | bool | table | vec2 | vec3 | vec4 | entity
  deriving DecidableEq, Repr

def Content.kind : Content F → Kind
  | .scalar (.number _) => .number
  | .scalar (.string _) => .string
  | .scalar (.bool _) => .bool
  | .scalar (.table _) => .table
  | .object (.vec2 ..) => .vec2
  | .object (.vec3 ..) => .vec3
  | .object (.vec4 ..) => .vec4
  | .object (.entity ..) => .entity

namespace LuaComponent

def kinds (c : LuaComponent F) : List (String × Kind) :=
  c.table.entries.map (fun pair => (pair.1, (c.contentOf pair.2).kind))

/-- The tables have the same keys and kinds of values. -/
def SameKinds (c d : LuaComponent F) : Prop := c.kinds.Perm d.kinds

instance (c d : LuaComponent F) : Decidable (SameKinds c d) :=
  inferInstanceAs (Decidable (List.Perm _ _))

end LuaComponent

/-- What is loaded of an entity is its handle, in the scene of the component. -/
def Content.inScene (scene : Nat) : Content F → Content F
  | .object (.entity handle _) => .object (.entity handle scene)
  | content => content

/-! ### What is saved -/

theorem lookup_filterMap (read : String → Field F → Option (Json F)) (name : String)
    (entries : List (Sigma fun _ : String => Field F)) (hnodup : entries.NodupKeys) :
    (entries.filterMap (fun pair => (read pair.1 pair.2).map (pair.1, ·))).lookup name =
      (entries.dlookup name).bind (read name) := by
  induction entries with
  | nil => rfl
  | cons pair entries ih =>
      obtain ⟨key, field⟩ := pair
      obtain ⟨hkey, hnodup⟩ := List.nodupKeys_cons.mp hnodup
      have ih := ih hnodup
      by_cases hname : name = key
      · subst hname
        rw [List.dlookup_cons_eq, Option.bind_some]
        cases hread : read name field with
        | none =>
            rw [List.filterMap_cons_none (by rw [hread]; rfl), ih,
              List.dlookup_eq_none.mpr hkey]
            rfl
        | some json =>
            rw [List.filterMap_cons_some (by rw [hread]; rfl), List.lookup_cons_self]
      · rw [List.dlookup_cons_ne _ _ hname, ← ih]
        cases hread : read key field with
        | none => rw [List.filterMap_cons_none (by rw [hread]; rfl)]
        | some json =>
            rw [List.filterMap_cons_some (by rw [hread]; rfl), List.lookup_cons,
              beq_eq_false_iff_ne.mpr hname]

theorem lookup_save (c : LuaComponent F) (name : String) : (save c).lookup name =
    if Skipped name then none else (c.content name).bind (saveContent name) := by
  rw [save, lookup_filterMap _ _ _ c.table.nodupKeys, LuaComponent.content]
  change (c.table.lookup name).bind (saveField c name) = _
  cases c.table.lookup name with
  | none => exact (ite_self _).symm
  | some field => rfl

theorem saveContent_eq_none_iff (name : String) (content : Content F) :
    saveContent name content = none ↔
      content.kind = .table ∨ content.kind = .entity ∧ name = "entity" := by
  match content with
  | .scalar (.number _) | .scalar (.string _) | .scalar (.bool _) | .scalar (.table _)
  | .object (.vec2 ..) | .object (.vec3 ..) | .object (.vec4 ..) =>
    simp [saveContent, Content.kind]
  | .object (.entity handle _) =>
    rw [saveContent]
    by_cases hname : name = "entity"
    · simp [Content.kind, hname]
    · simp [Content.kind, hname]

/-! ### What is loaded -/

theorem nvp_missing {α : Type} (read : Json F → Option α) {archive : Archive F} {name : String}
    (h : archive.lookup name = none) : nvp read archive name = .error (.notFound name) := by
  unfold nvp
  rw [h]

theorem nvp_found {α : Type} (read : Json F → Option α) {archive : Archive F} {name : String}
    {json : Json F} (h : archive.lookup name = some json) :
    nvp read archive name = match read json with
      | none => .error .assertion
      | some value => .ok value := by
  unfold nvp
  rw [h]

theorem loadContent_missing {archive : Archive F} {name : String} {content : Content F}
    (hsave : saveContent name content ≠ none) (h : archive.lookup name = none) (scene : Nat) :
    loadContent archive scene name content = .error (.notFound name) := by
  match content with
  | .scalar (.number _) | .scalar (.string _) | .scalar (.bool _)
  | .object (.vec2 ..) | .object (.vec3 ..) | .object (.vec4 ..) =>
    rw [loadContent, nvp_missing _ h]
    rfl
  | .scalar (.table _) => exact absurd rfl hsave
  | .object (.entity handle _) =>
    have hname : name ≠ "entity" := fun hname => hsave (if_neg (not_not.mpr hname))
    rw [loadContent, if_pos hname, nvp_missing _ h]
    rfl

theorem loadContent_none {name : String} {content : Content F}
    (hsave : saveContent name content = none) (archive : Archive F) (scene : Nat) :
    loadContent archive scene name content = .ok none := by
  match content with
  | .scalar (.number _) | .scalar (.string _) | .scalar (.bool _)
  | .object (.vec2 ..) | .object (.vec3 ..) | .object (.vec4 ..) => exact nomatch hsave
  | .scalar (.table _) => rfl
  | .object (.entity handle _) =>
    have hname : ¬ name ≠ "entity" := fun hname => nomatch (if_pos hname).symm.trans hsave
    rw [loadContent, if_neg hname]

/-- What was saved of a field is loaded into a field of the same kind. -/
theorem loadContent_saved {archive : Archive F} {name : String} {content content' : Content F}
    {json : Json F} (hsave : saveContent name content = some json)
    (h : archive.lookup name = some json) (hkind : content'.kind = content.kind) (scene : Nat) :
    loadContent archive scene name content' = .ok (some (content.inScene scene)) := by
  match content, content', hkind with
  | .scalar (.number _), .scalar (.number _), _ | .scalar (.string _), .scalar (.string _), _
  | .scalar (.bool _), .scalar (.bool _), _ | .object (.vec2 ..), .object (.vec2 ..), _
  | .object (.vec3 ..), .object (.vec3 ..), _ | .object (.vec4 ..), .object (.vec4 ..), _ =>
    obtain rfl := Option.some.inj hsave
    rw [loadContent, nvp_found _ h]
    rfl
  | .scalar (.table _), .scalar (.table _), _ => exact nomatch hsave
  | .object (.entity handle _), .object (.entity ..), _ =>
    rw [saveContent] at hsave
    split at hsave
    next hname =>
        obtain rfl := Option.some.inj hsave
        rw [loadContent, if_pos hname, nvp_found _ h]
        rfl
    next => exact nomatch hsave

theorem kind_inScene (scene : Nat) (content : Content F) :
    (content.inScene scene).kind = content.kind := by
  match content with
  | .scalar _ => rfl
  | .object (.vec2 ..) | .object (.vec3 ..) | .object (.vec4 ..) | .object (.entity ..) => rfl

theorem exists_scalar {content : Content F} {value : Scalar F}
    (h : content.kind = (Content.scalar value).kind) : ∃ value, content = .scalar value := by
  cases content with
  | scalar value => exact ⟨value, rfl⟩
  | object object => cases object <;> cases value <;> cases h

theorem exists_object {content : Content F} {object : Object F}
    (h : content.kind = (Content.object object).kind) : ∃ object, content = .object object := by
  cases content with
  | scalar value => cases object <;> cases value <;> cases h
  | object object => exact ⟨object, rfl⟩

end Maple.MetaFile
