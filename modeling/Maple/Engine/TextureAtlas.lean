import Mathlib.Algebra.Group.Int.Defs
import Mathlib.Algebra.Group.Nat.Defs
import Mathlib.Algebra.GroupWithZero.Nat
import Mathlib.Data.Rat.Defs
import Maple.Engine.QuadTree

/-!
# Maple.Engine.TextureAtlas

`Engine/TextureAtlas.cpp`: packing sprites into one texture.

The packer fills the texture row by row (`border` is the top left corner of the
free rest of the current row, `yRange` the lower edge and the height of the row)
and keeps the rectangles it cannot use that way in a `QuadTree` of *leftovers*,
which later sprites are cut from.

Machine integers are `Int` or `Nat` with the narrowing of the source written
out: `int16`, `uint32` and `sizeT` are the conversions to `int16_t`, `uint32_t`
and `size_t`. The leftover counter `rlid` is a plain `Nat`.
-/

namespace Maple

/-- Conversion to `int16_t`. -/
def int16 (x : Int) : Int := Int.bmod x (2 ^ 16)

/-- Conversion to `uint32_t`. -/
def uint32 (x : Int) : Nat := (x % 2 ^ 32).toNat

/-- Conversion to `size_t`. -/
def sizeT (x : Int) : Nat := (x % 2 ^ 64).toNat

/-- `LeftOver`: a free rectangle, by its four edges. -/
structure LeftOver where
  /-- left -/
  l : Int
  /-- right -/
  r : Int
  /-- top -/
  t : Int
  /-- bottom -/
  b : Int
  deriving DecidableEq, Repr

namespace LeftOver

/-- `LeftOver()`. -/
instance : Inhabited LeftOver := ⟨⟨0, 0, 0, 0⟩⟩

/-- `LeftOver(x, y, width, height)`; all four parameters are `int16_t`. -/
def make (x y width height : Int) : LeftOver :=
  let x := int16 x
  let y := int16 y
  ⟨x, int16 (x + int16 width), y, int16 (y + int16 height)⟩

def width (o : LeftOver) : Int := o.r - o.l

def height (o : LeftOver) : Int := o.b - o.t

end LeftOver

/-- A sprite's quad, by the arguments of `Quad2D::setTexCoords`. -/
structure Quad2D where
  x : Nat
  y : Nat
  w : Nat
  h : Nat
  deriving DecidableEq, Repr

/-- `TextureAtlas`, with the size of its texture and the sequence of
`Texture2D::update` calls made on it. -/
structure TextureAtlas where
  width : Nat
  height : Nat
  rlid : Nat
  wasted : Nat
  usage : ℚ
  offsets : String → Option Quad2D
  leftovers : QuadTree Nat LeftOver
  border : Int × Int
  yRange : Int × Int
  uploads : List (Quad2D × List UInt8)

namespace TextureAtlas

/-- `MINLOSIZE`: thinner leftovers are not kept. -/
def MINLOSIZE : Int := 4

/-- The comparator the constructor gives to the leftovers tree. -/
def comparator (first second : LeftOver) : Direction :=
  let wcomp := decide (first.width ≥ second.width)
  let hcomp := decide (first.height ≥ second.height)
  if wcomp && hcomp then .right
  else if wcomp then .down
  else if hcomp then .up
  else .left

/-- The predicate `update` searches the leftovers with. -/
def fits (val leaf : LeftOver) : Bool :=
  decide (val.width ≤ leaf.width) && decide (val.height ≤ leaf.height)

theorem fits_iff {val leaf : LeftOver} :
    fits val leaf = true ↔ val.width ≤ leaf.width ∧ val.height ≤ leaf.height := by
  simp only [fits, Bool.and_eq_true, decide_eq_true_eq]

/-- `TextureAtlas(w, h)`. -/
def create (w h : Nat) : TextureAtlas where
  width := w
  height := h
  rlid := 1
  wasted := 0
  usage := 0
  offsets := fun _ => none
  leftovers := QuadTree.empty comparator
  border := (0, 0)
  yRange := (0, 0)
  uploads := []

/-- `leftovers.add(rlid, o); rlid++;` -/
def addLeftOver (fuel : Nat) (a : TextureAtlas) (o : LeftOver) : Option TextureAtlas :=
  (a.leftovers.add fuel a.rlid o).map fun leftovers =>
    { a with leftovers := leftovers, rlid := a.rlid + 1 }

/-- `addLeftOver` under a condition. -/
def addLeftOverIf (fuel : Nat) (a : TextureAtlas) (p : Prop) [Decidable p] (o : LeftOver) :
    Option TextureAtlas :=
  if p then a.addLeftOver fuel o else some a

/-- The end of the first branch of `update`: store what remains of a leftover at
`(x, y)` once a sprite has been cut from its corner, as up to three leftovers. -/
def putBack (fuel : Nat) (a : TextureAtlas) (x y w h wdelta hdelta : Int) : Option TextureAtlas :=
  if wdelta ≥ MINLOSIZE ∧ hdelta ≥ MINLOSIZE then
    (a.addLeftOver fuel (.make (x + w) (y + h) wdelta hdelta)).bind fun a =>
    (a.addLeftOverIf fuel (w ≥ MINLOSIZE) (.make x (y + h) w hdelta)).bind fun a =>
    a.addLeftOverIf fuel (h ≥ MINLOSIZE) (.make (x + w) y wdelta h)
  else if wdelta ≥ MINLOSIZE then a.addLeftOver fuel (.make (x + w) y wdelta (h + hdelta))
  else a.addLeftOverIf fuel (hdelta ≥ MINLOSIZE) (.make x (y + h) (w + wdelta) hdelta)

/-- The first branch of `update`: cut the sprite from the leftover `lid` and put
back what remains of it. Returns the position of the sprite. -/
def reuse (fuel : Nat) (a : TextureAtlas) (lid : Nat) (w h : Int) :
    Option ((Int × Int) × TextureAtlas) :=
  let (n, nodes) := a.leftovers.nodes.subscript lid
  let leftover := n.value
  let x := leftover.l
  let y := leftover.t
  let wdelta := leftover.width - w
  let hdelta := leftover.height - h
  (QuadTree.erase fuel { a.leftovers with nodes := nodes } lid).bind fun leftovers =>
    let a := { a with leftovers := leftovers, wasted := sizeT (a.wasted - w * h) }
    (a.putBack fuel x y w h wdelta hdelta).map fun a => ((x, y), a)

/-- The start of the second branch of `update`: move on to a new row if the
sprite does not fit into the rest of the current one. `false` is the `nullptr`
return; the atlas it comes with has its border restored. -/
def wrapRow (a : TextureAtlas) (w h : Int) : Bool × TextureAtlas :=
  if uint32 (a.border.1 + w) > a.width then
    let second := int16 (a.border.2 + a.yRange.2)
    if uint32 (second + h) > a.height then
      (false, { a with border := (a.border.1, int16 (second - a.yRange.2)) })
    else (true, { a with border := (0, second), yRange := (0, 0) })
  else if uint32 (a.border.2 + h) > a.height then (false, a)
  else (true, a)

/-- The rest of the second branch of `update`: place the sprite at the border. -/
def shelve (fuel : Nat) (a : TextureAtlas) (w h : Int) : Option ((Int × Int) × TextureAtlas) :=
  let x := a.border.1
  let y := a.border.2
  let a := { a with border := (int16 (x + w), y) }
  (if h > a.yRange.2 then
      (a.addLeftOverIf fuel (x ≥ MINLOSIZE ∧ h - a.yRange.2 ≥ MINLOSIZE)
        (.make 0 a.yRange.1 x (h - a.yRange.2))).map fun b =>
      { b with
        wasted := sizeT (b.wasted + x * (h - a.yRange.2)), yRange := (int16 (y + h), h) }
    else if h < a.yRange.1 - y then
      (a.addLeftOverIf fuel (w ≥ MINLOSIZE ∧ a.yRange.1 - y - h ≥ MINLOSIZE)
        (.make x (y + h) w (a.yRange.1 - y - h))).map fun b =>
      { b with wasted := sizeT (b.wasted + w * (a.yRange.1 - y - h)) }
    else some a).map fun a => ((x, y), a)

/-- The end of `update`: upload the pixels, record the quad, refresh `usage`. -/
def record (a : TextureAtlas) (uniqueName : String) (buffer : List UInt8) (pos : Int × Int)
    (w h : Int) : Quad2D × TextureAtlas :=
  let quad : Quad2D := ⟨uint32 pos.1, uint32 pos.2, uint32 w, uint32 h⟩
  let used := uint32 (a.width * a.border.2 + a.border.1 * a.yRange.2)
  (quad, { a with
    uploads := a.uploads ++ [(quad, buffer)]
    offsets := Function.update a.offsets uniqueName (some quad)
    usage := used / uint32 (a.width * a.height) })

/-- `TextureAtlas::update`. The quad is `none` for `nullptr`. -/
def update (fuel : Nat) (a : TextureAtlas) (uniqueName : String) (buffer : List UInt8)
    (width height : Nat) : Option (Option Quad2D × TextureAtlas) :=
  if width ≤ 0 ∨ height ≤ 0 then some (none, a)
  else
    let w := int16 width
    let h := int16 height
    let value := LeftOver.make 0 0 w h
    (QuadTree.findNode value fits fuel a.leftovers).bind fun (lid, leftovers) =>
      let a := { a with leftovers := leftovers }
      let finish := fun (pos, a) =>
        let (quad, a) := record a uniqueName buffer pos w h
        (some quad, a)
      if lid > 0 then (a.reuse fuel lid w h).map finish
      else
        match a.wrapRow w h with
        | (false, a) => some (none, a)
        | (true, a) => (a.shelve fuel w h).map finish

/-- `TextureAtlas::addSprite` of a buffer. -/
def addSprite (fuel : Nat) (a : TextureAtlas) (uniqueName : String) (buffer : List UInt8)
    (w h : Nat) : Option (Option Quad2D × TextureAtlas) :=
  match a.offsets uniqueName with
  | some quad => some (some quad, a)
  | none => a.update fuel uniqueName buffer w h

end TextureAtlas

end Maple
