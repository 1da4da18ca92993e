import Mathlib.Logic.Function.Basic
import Maple.Lib.Run

/-!
# Maple.Scripts.MonoAssembly

`Scripts/Mono/MapleMonoAssembly.cpp`: the wrappers an assembly keeps for the
classes of its image, found by name in `classes` and by raw pointer in
`classesByRaw`, and the list of all classes.

Mono itself is a parameter (`MonoImage`), and so is `MonoHelper::getClassName`. A
raw `MonoClass*` is a value of `Raw`, with `none` for a null pointer.
-/

namespace Maple

open Lib

/-- `MapleMonoAssembly::ClassId`. Its third field is null in every key that is
built. -/
structure ClassId where
  namespaceName : String
  name : String
  deriving DecidableEq, Repr

/-- A `MapleMonoClass` object: `object` tells two of them apart. -/
structure MapleMonoClass (Raw : Type) where
  object : Nat
  nameSpace : String
  typeName : String
  clazz : Raw
  deriving DecidableEq, Repr

/-- The key a wrapper is stored under. -/
def MapleMonoClass.classId {Raw : Type} (c : MapleMonoClass Raw) : ClassId :=
  ⟨c.nameSpace, c.typeName⟩

/-- What `MonoVirtualMachine::getAssembly("corlib")` is to an assembly: itself, or
another one that answers with this attribute class. -/
inductive Corlib (Raw : Type) where
  | itself
  | other (compilerGeneratedAttrib : Option Raw)

/-- An image as Mono shows it. -/
structure MonoImage (Raw : Type) where
  /-- `mono_class_from_name` -/
  classFromName : ClassId → Option Raw
  /-- `MonoHelper::getClassName` -/
  getClassName : Raw → ClassId
  /-- `mono_class_get_image(raw) == monoImage` -/
  inImage : Raw → Bool
  /-- `mono_class_get` on the rows of the typedef table after the first -/
  typeDefs : List Raw
  /-- `mono_class_get_nested_types` -/
  nestedTypes : Raw → List Raw
  /-- `mono_class_get_name` -/
  className : Raw → String
  /-- `mono_custom_attrs_has_attr` -/
  hasAttribute : Raw → Option Raw → Bool
  corlib : Corlib Raw

/-- A class is asked for by a name that is not of the form `Outer/Inner`, by which Mono also
finds a nested class, or by the name that it has. -/
def MonoImage.Plain {Raw : Type} (image : MonoImage Raw) (id : ClassId) : Prop :=
  '/' ∉ id.name.toList ∨ ∃ raw, image.getClassName raw = id

/-- `MapleMonoAssembly`: its tables and lists, and the number of wrappers made. -/
structure MapleMonoAssembly (Raw : Type) where
  classes : ClassId → Option (MapleMonoClass Raw)
  classesByRaw : Raw → Option (MapleMonoClass Raw)
  haveCachedClassList : Bool
  cachedClassList : List (MapleMonoClass Raw)
  made : Nat

/-- A call of one of the three overloads of `getClass`. -/
inductive GetClass (Raw : Type) where
  | byName (namespaceName name : String)
  | byRaw (rawMonoClass : Option Raw)
  | byAll (namespaceName name : String) (rawMonoClass : Option Raw)
  deriving DecidableEq, Repr

variable {Raw : Type} [DecidableEq Raw]

/-- `isGenericClass`: the name has a backtick. -/
def isGenericClass (name : String) : Bool := name.toList.contains (Char.ofNat 96)

namespace MapleMonoAssembly

/-- An assembly after `load`. -/
def load : MapleMonoAssembly Raw where
  classes := fun _ => none
  classesByRaw := fun _ => none
  haveCachedClassList := false
  cachedClassList := []
  made := 0

/-- The object of the next `std::make_shared<MapleMonoClass>`. -/
def newClass (a : MapleMonoAssembly Raw) (id : ClassId) (raw : Raw) : MapleMonoClass Raw :=
  ⟨a.made, id.namespaceName, id.name, raw⟩

/-- `std::make_shared<MapleMonoClass>` and `classesByRaw[raw] = newClass`, and where
`named`, `classes[id] = newClass`. -/
def wrap (a : MapleMonoAssembly Raw) (id : ClassId) (raw : Raw) (named : Bool) :
    MapleMonoAssembly Raw :=
  { a with
    classes := if named then Function.update a.classes id (some (a.newClass id raw))
      else a.classes
    classesByRaw := Function.update a.classesByRaw raw (some (a.newClass id raw))
    made := a.made + 1 }

/-- `getClass(namespaceName, name)`. A miss in `classes` does not look into
`classesByRaw`. -/
def getClassByName (image : MonoImage Raw) (a : MapleMonoAssembly Raw) (id : ClassId) :
    Option (MapleMonoClass Raw) × MapleMonoAssembly Raw :=
  match a.classes id with
  | some found => (some found, a)
  | none =>
      match image.classFromName id with
      | none => (none, a)
      | some raw => (some (a.newClass id raw), a.wrap id raw true)

/-- `getClass(rawMonoClass)`. -/
def getClassByRaw (image : MonoImage Raw) (a : MapleMonoAssembly Raw) (raw : Option Raw) :
    Option (MapleMonoClass Raw) × MapleMonoAssembly Raw :=
  match raw with
  | none => (none, a)
  | some raw =>
      match a.classesByRaw raw with
      | some found => (some found, a)
      | none =>
          if image.inImage raw then
            let id := image.getClassName raw
            (some (a.newClass id raw), a.wrap id raw true)
          else (none, a)

/-- `getClass(namespaceName, name, rawMonoClass)`. A generic name is kept out of
`classes`. -/
def getClassByAll (a : MapleMonoAssembly Raw) (id : ClassId) (raw : Option Raw) :
    Option (MapleMonoClass Raw) × MapleMonoAssembly Raw :=
  match raw with
  | none => (none, a)
  | some raw =>
      match a.classesByRaw raw with
      | some found => (some found, a)
      | none => (some (a.newClass id raw), a.wrap id raw (!isGenericClass id.name))

/-- The overload a call is a call of. -/
def getClass (image : MonoImage Raw) (a : MapleMonoAssembly Raw) :
    GetClass Raw → Option (MapleMonoClass Raw) × MapleMonoAssembly Raw
  | .byName ns name => a.getClassByName image ⟨ns, name⟩
  | .byRaw raw => a.getClassByRaw image raw
  | .byAll ns name raw => a.getClassByAll ⟨ns, name⟩ raw

/-- `cachedClassList.push_back`. -/
def pushClass (a : MapleMonoAssembly Raw) (c : MapleMonoClass Raw) : MapleMonoAssembly Raw :=
  { a with cachedClassList := a.cachedClassList ++ [c] }

end MapleMonoAssembly

/-! ### Sessions -/

/-- A call of `getClass` that has been made: on which assembly, and its answer. -/
structure Visit (Raw : Type) where
  asked : GetClass Raw
  before : MapleMonoAssembly Raw
  answer : Option (MapleMonoClass Raw)

/-- An assembly and the calls of `getClass` made on it so far, those of
`getAllClasses` among them. -/
structure Session (Raw : Type) where
  assembly : MapleMonoAssembly Raw
  visits : List (Visit Raw)

namespace Session

/-- The session of an assembly that has just been loaded. -/
def load : Session Raw := ⟨MapleMonoAssembly.load, []⟩

/-- A call of `getClass`. -/
def getClass (image : MonoImage Raw) (s : Session Raw) (call : GetClass Raw) :
    Option (MapleMonoClass Raw) × Session Raw :=
  let (answer, a) := s.assembly.getClass image call
  (answer, ⟨a, s.visits ++ [⟨call, s.assembly, answer⟩]⟩)

/-- `cachedClassList.push_back`. -/
def pushClass (s : Session Raw) (c : MapleMonoClass Raw) : Session Raw :=
  { s with assembly := s.assembly.pushClass c }

/-- The `do` loop over the nested types of a class; it pushes those that are not
compiler generated on the list and on the stack `todo`. -/
def visitNested (image : MonoImage Raw) (attrib : Option Raw) (ns : String)
    (curNestedClass : MapleMonoClass Raw) :
    List Raw → Session Raw → List (MapleMonoClass Raw) → Session Raw × List (MapleMonoClass Raw)
  | [], s, todo => (s, todo)
  | raw :: rest, s, todo =>
      let nestedType := curNestedClass.typeName ++ "+" ++ image.className raw
      match s.getClass image (.byAll ns nestedType (some raw)) with
      | (none, s) => visitNested image attrib ns curNestedClass rest s todo
      | (some nestedClass, s) =>
          if image.hasAttribute nestedClass.clazz attrib then
            visitNested image attrib ns curNestedClass rest s todo
          else
            visitNested image attrib ns curNestedClass rest (s.pushClass nestedClass)
              (nestedClass :: todo)

/-- `while (!todo.empty())`. -/
def nestedLoop (image : MonoImage Raw) (attrib : Option Raw) (ns : String) :
    Nat → List (MapleMonoClass Raw) → Session Raw → Option (Session Raw)
  | _, [], s => some s
  | 0, _ :: _, _ => none
  | fuel + 1, cur :: todo, s =>
      let (s, todo) := visitNested image attrib ns cur (image.nestedTypes cur.clazz) s todo
      nestedLoop image attrib ns fuel todo s

/-- The `for` loop over the rows of the typedef table. -/
def rowLoop (image : MonoImage Raw) (attrib : Option Raw) (fuel : Nat) :
    List Raw → Session Raw → Option (Session Raw)
  | [], s => some s
  | monoClass :: rows, s =>
      let id := image.getClassName monoClass
      match s.getClass image (.byName id.namespaceName id.name) with
      | (none, s) => rowLoop image attrib fuel rows s
      | (some curClass, s) =>
          if image.hasAttribute curClass.clazz attrib then rowLoop image attrib fuel rows s
          else
            (nestedLoop image attrib id.namespaceName fuel [curClass] s).bind fun s =>
            rowLoop image attrib fuel rows (s.pushClass curClass)

/-- `corlib->getClass("System.Runtime.CompilerServices", "CompilerGeneratedAttribute")`. -/
def compilerGeneratedAttrib (image : MonoImage Raw) (s : Session Raw) :
    Option Raw × Session Raw :=
  match image.corlib with
  | .other attrib => (attrib, s)
  | .itself =>
      let (answer, s) := s.getClass image
        (.byName "System.Runtime.CompilerServices" "CompilerGeneratedAttribute")
      (answer.map MapleMonoClass.clazz, s)

/-- `getAllClasses`; `none` where the loops have not ended. -/
def getAllClasses (image : MonoImage Raw) (fuel : Nat) (s : Session Raw) :
    Option (List (MapleMonoClass Raw) × Session Raw) :=
  if s.assembly.haveCachedClassList then some (s.assembly.cachedClassList, s)
  else
    let s : Session Raw := { s with assembly := { s.assembly with cachedClassList := [] } }
    let (attrib, s) := s.compilerGeneratedAttrib image
    (rowLoop image attrib fuel image.typeDefs s).map fun s =>
    (s.assembly.cachedClassList,
      { s with assembly := { s.assembly with haveCachedClassList := true } })

end Session

/-- A call of the assembly's interface, with what it returned: `none` is a null
pointer. -/
inductive AssemblyCall (Raw : Type) where
  | getClass (call : GetClass Raw) (answer : Option (MapleMonoClass Raw))
  | getAllClasses (answer : List (MapleMonoClass Raw))

/-- The wrappers a call returned. -/
def AssemblyCall.returned : AssemblyCall Raw → List (MapleMonoClass Raw)
  | .getClass _ answer => answer.toList
  | .getAllClasses answer => answer

/-- A call takes one session to another. -/
inductive Session.Step (image : MonoImage Raw) : Session Raw → AssemblyCall Raw → Session Raw → Prop
  | getClass {s s' : Session Raw} {call : GetClass Raw} {answer : Option (MapleMonoClass Raw)} :
      s.getClass image call = (answer, s') → Step image s (.getClass call answer) s'
  | getAllClasses {s s' : Session Raw} {answer : List (MapleMonoClass Raw)} (fuel : Nat) :
      s.getAllClasses image fuel = some (answer, s') → Step image s (.getAllClasses answer) s'

end Maple
