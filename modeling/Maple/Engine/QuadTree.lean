import Mathlib.Logic.Function.Basic
import Mathlib.Algebra.Notation.Defs

/-!
# Maple.Engine.QuadTree

`Engine/QuadTree.h`: the map-backed four-way search tree that holds the free
rectangles of a texture atlas.

Nodes live in an `unordered_map` from keys to nodes and name each other by key;
the key `0` is the null link. Reading a missing key with `nodes[k]` *inserts a
default node*, so every read here threads the map (`Nodes.subscript`), and the
map counts the default nodes it was made to insert.

The `while` loops of `add` and `readd` and the recursion of `findFrom` take
fuel; `none` means the fuel ran out.
-/

namespace Maple

/-- `QuadTree::Direction`. -/
inductive Direction where
  | left
  | right
  | up
  | down
  deriving DecidableEq, Repr

namespace Direction

/-- The directions in the order of the enumeration, `LEFT` to `DOWN`. -/
def all : List Direction := [left, right, up, down]

theorem mem_all (d : Direction) : d ∈ all := by
  cases d <;> simp [all]

theorem nodup_all : all.Nodup := by decide

end Direction

/-- `QuadTree::Node`. -/
structure Node (K V : Type) where
  value : V
  parent : K
  left : K
  right : K
  top : K
  bottom : K
  deriving DecidableEq, Repr

namespace Node

variable {K V : Type}

/-- The child key in a direction. -/
def leaf (n : Node K V) : Direction → K
  | .left => n.left
  | .right => n.right
  | .up => n.top
  | .down => n.bottom

/-- The assignment made by the `switch` of `addOrNext`. -/
def setLeaf (n : Node K V) (key : K) : Direction → Node K V
  | .left => { n with left := key }
  | .right => { n with right := key }
  | .up => { n with top := key }
  | .down => { n with bottom := key }

variable [Zero K] [DecidableEq K]

/-- Clear the first child slot that holds `key`. -/
def erase (n : Node K V) (key : K) : Node K V :=
  if n.left = key then { n with left := 0 }
  else if n.right = key then { n with right := 0 }
  else if n.top = key then { n with top := 0 }
  else if n.bottom = key then { n with bottom := 0 }
  else n

/-- Put `key` into the slot of its direction if that slot is empty; the second
component is what the slot held. -/
def addOrNext (n : Node K V) (key : K) (val : V) (comparator : V → V → Direction) :
    Node K V × K :=
  let dir := comparator val n.value
  let dirkey := n.leaf dir
  (if dirkey = 0 then n.setLeaf key dir else n, dirkey)

end Node

/-- The `nodes` map. `defaulted` counts the default nodes that `nodes[k]` was
made to insert. -/
structure Nodes (K V : Type) where
  find : K → Option (Node K V)
  defaulted : Nat := 0

namespace Nodes

variable {K V : Type} [DecidableEq K]

/-- Assign to a node through the reference `nodes[k]` returned. -/
def set (m : Nodes K V) (k : K) (n : Node K V) : Nodes K V :=
  { m with find := Function.update m.find k (some n) }

/-- `nodes.emplace(k, n)`: no effect on a key that is present. -/
def emplace (m : Nodes K V) (k : K) (n : Node K V) : Nodes K V :=
  match m.find k with
  | some _ => m
  | none => m.set k n

/-- `nodes.erase(k)`. -/
def remove (m : Nodes K V) (k : K) : Nodes K V :=
  { m with find := Function.update m.find k none }

variable [Zero K] [Inhabited V]

/-- `nodes[k]`: a missing key is inserted with `Node()`. -/
def subscript (m : Nodes K V) (k : K) : Node K V × Nodes K V :=
  match m.find k with
  | some n => (n, m)
  | none =>
    let n : Node K V := ⟨default, 0, 0, 0, 0, 0⟩
    (n, { find := Function.update m.find k (some n), defaulted := m.defaulted + 1 })

end Nodes

/-- `QuadTree<K, V>`. -/
structure QuadTree (K V : Type) where
  comparator : V → V → Direction
  nodes : Nodes K V
  root : K

namespace QuadTree

variable {K V : Type} [Zero K] [DecidableEq K]

/-- `QuadTree(c)`: the empty tree. -/
def empty (c : V → V → Direction) : QuadTree K V := ⟨c, { find := fun _ => none }, 0⟩

variable [Inhabited V]

/-- The loop shared by `add` and `readd`: go down from `current` until a node
takes `key` into a free slot, and return that node. `read` is how the loop body
reads the value that is being placed. -/
def descend (comparator : V → V → Direction) (key : K)
    (read : Nodes K V → V × Nodes K V) :
    Nat → Nodes K V → K → K → Option (K × Nodes K V)
  | 0, _, _, _ => none
  | fuel + 1, m, parent, current =>
    if current = 0 then some (parent, m)
    else
      let (val, m) := read m
      let (n, m) := m.subscript current
      let (n, next) := n.addOrNext key val comparator
      descend comparator key read fuel (m.set current n) current next

/-- `QuadTree::add`. -/
def add (fuel : Nat) (t : QuadTree K V) (key : K) (value : V) : Option (QuadTree K V) :=
  if t.root ≠ 0 then
    (descend t.comparator key (fun m => (value, m)) fuel t.nodes 0 t.root).map fun (parent, m) =>
      { t with nodes := m.emplace key ⟨value, parent, 0, 0, 0, 0⟩ }
  else
    some { t with root := key, nodes := t.nodes.emplace key ⟨value, 0, 0, 0, 0, 0⟩ }

/-- The first branch of `readd`: walk down from a start node and hang `key`
where the walk ends. The body reads `nodes[key].value` anew at every step. -/
def readdFrom (fuel : Nat) (t : QuadTree K V) (start key : K) : Option (QuadTree K V) :=
  (descend t.comparator key (fun m => let (n, m) := m.subscript key; (n.value, m))
      fuel t.nodes 0 start).map fun (parent, m) =>
    let (n, m) := m.subscript key
    { t with nodes := m.set key { n with parent := parent } }

/-- `QuadTree::readd`. -/
def readd (fuel : Nat) (t : QuadTree K V) (start key : K) : Option (QuadTree K V) :=
  if start ≠ 0 then t.readdFrom fuel start key
  else if start = t.root then
    let (n, m) := t.nodes.subscript key
    some { t with root := key, nodes := m.set key { n with parent := 0 } }
  else t.readdFrom fuel t.root key

/-- The part of `QuadTree::erase` before the loop over the leaves: the node is
unlinked from its parent (or from `root`) and taken out of the map. -/
def detach (t : QuadTree K V) (key parent : K) : QuadTree K V :=
  let t :=
    if t.root = key then { t with root := 0 }
    else
      match t.nodes.find parent with
      | some n => { t with nodes := t.nodes.set parent (n.erase key) }
      | none => t
  { t with nodes := t.nodes.remove key }

/-- `QuadTree::erase`. -/
def erase (fuel : Nat) (t : QuadTree K V) (key : K) : Option (QuadTree K V) :=
  match t.nodes.find key with
  | none => some t
  | some toerase =>
    ((Direction.all.map toerase.leaf).filter (· ≠ 0)).foldlM
      (fun t leaf => t.readd fuel toerase.parent leaf) (t.detach key toerase.parent)

section Find

variable (value : V) (predicate : V → V → Bool)

/-- One alternative of `findFrom`: search below `start` in direction `d`, return
the key found if it satisfies the predicate, go on with `otherwise` if not. -/
def attempt (findFrom : Nodes K V → K → Option (K × Nodes K V)) (m : Nodes K V) (start : K)
    (d : Direction) (otherwise : Nodes K V → Option (K × Nodes K V)) :
    Option (K × Nodes K V) :=
  let (n, m) := m.subscript start
  (findFrom m (n.leaf d)).bind fun (key, m) =>
    if key = 0 then otherwise m
    else
      let (n, m) := m.subscript key
      if predicate value n.value then some (key, m) else otherwise m

/-- `QuadTree::findFrom`. -/
def findFrom (comparator : V → V → Direction) : Nat → Nodes K V → K → Option (K × Nodes K V)
  | 0, _, _ => none
  | fuel + 1, m, start =>
    if start = 0 then some (0, m)
    else
      let (n, m) := m.subscript start
      let fulfilled := predicate value n.value
      let attempt := attempt value predicate (findFrom comparator fuel)
      match comparator value n.value with
      | .right => attempt m start .right fun m => some (start, m)
      | .down =>
        attempt m start .down fun m =>
        if fulfilled then some (start, m) else
        attempt m start .right fun m => some (start, m)
      | .up =>
        attempt m start .up fun m =>
        if fulfilled then some (start, m) else
        attempt m start .right fun m => some (start, m)
      | .left =>
        attempt m start .left fun m =>
        if fulfilled then some (start, m) else
        attempt m start .down fun m =>
        if fulfilled then some (start, m) else
        attempt m start .up fun m =>
        if fulfilled then some (start, m) else
        attempt m start .right fun m => some (start, m)

/-- `QuadTree::findNode`. -/
def findNode (fuel : Nat) (t : QuadTree K V) : Option (K × QuadTree K V) :=
  if t.root ≠ 0 then
    (findFrom value predicate t.comparator fuel t.nodes t.root).map fun (key, m) =>
      let (n, m) := m.subscript key
      (if predicate value n.value then key else 0, { t with nodes := m })
  else some (0, t)

end Find

end QuadTree

end Maple
