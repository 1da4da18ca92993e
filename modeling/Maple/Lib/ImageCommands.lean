import Mathlib.Logic.Function.Basic
import Mathlib.Data.List.Basic
import Mathlib.Data.List.Induction
import Mathlib.Tactic.SplitIfs

/-!
# Maple.Lib.ImageCommands

**Transfer commands on images with levels and layers.** Every layer of every level (a
`ImagePart`) is in a layout, and a command names the layouts it expects. `LayeredImage.exec`
is partial: it refuses a command that names a part the image does not have, a layout its
parts are not in, a layout the usage of the image does not allow, or an area outside the
level.

A barrier out of the undefined layout is always accepted and forgets the texels of its
range. **An upload** (such a barrier, a copy from a buffer, a barrier into the layout for
reading) therefore ends the same whatever the image was before, `run_upload_iff`.
-/

namespace Maple.Lib

variable {ι L U T : Type*}

/-- One layer of one level of an image. -/
structure ImagePart where
  level : Nat
  layer : Nat
  deriving DecidableEq, Repr

structure PartRange where
  baseLevel : Nat
  levelCount : Nat
  baseLayer : Nat
  layerCount : Nat
  deriving DecidableEq, Repr

namespace PartRange

def parts (r : PartRange) : List ImagePart :=
  (List.range' r.baseLevel r.levelCount).flatMap fun level =>
    (List.range' r.baseLayer r.layerCount).map fun layer => ⟨level, layer⟩

theorem mem_parts {r : PartRange} {p : ImagePart} :
    p ∈ r.parts ↔ (r.baseLevel ≤ p.level ∧ p.level < r.baseLevel + r.levelCount) ∧
      r.baseLayer ≤ p.layer ∧ p.layer < r.baseLayer + r.layerCount := by
  simp only [parts, List.mem_flatMap, List.mem_map, List.mem_range'_1]
  constructor
  · rintro ⟨level, hlevel, layer, hlayer, rfl⟩
    exact ⟨hlevel, hlayer⟩
  · rintro ⟨hlevel, hlayer⟩
    exact ⟨p.level, hlevel, p.layer, hlayer, rfl⟩

end PartRange

/-- What the commands depend on: the layouts they treat specially, the layouts an image
of a usage may be in, and the filter that scales an area to another size. -/
structure ImageRules (L U T : Type*) where
  undefined : L
  transferSrc : L
  transferDst : L
  allows : U → L → Bool
  filter : Nat × Nat → Nat × Nat → (Nat × Nat → Option T) → Nat × Nat → Option T

/-- An image. A texel is `none` as long as nothing was written to it. -/
structure LayeredImage (L U T : Type*) where
  levels : Nat
  layers : Nat
  width : Nat
  height : Nat
  usage : U
  layout : ImagePart → L
  texel : ImagePart → Nat × Nat → Option T

/-- An area of a part and the texels for it, by their distance from its corner. -/
structure ImageRegion (T : Type*) where
  part : ImagePart
  offset : Nat × Nat
  extent : Nat × Nat
  data : Nat × Nat → T

/-- A scaled copy between two parts of one image, from corner to corner. -/
structure Blit (L : Type*) where
  src : ImagePart
  srcLayout : L
  srcExtent : Nat × Nat
  dst : ImagePart
  dstLayout : L
  dstExtent : Nat × Nat
  deriving DecidableEq, Repr

/-- A copy of an area at the corner between parts of two images. -/
structure ImageCopy (ι L : Type*) where
  src : ι
  srcPart : ImagePart
  srcLayout : L
  dst : ι
  dstPart : ImagePart
  dstLayout : L
  extent : Nat × Nat
  deriving DecidableEq, Repr

inductive ImageCommand (L T : Type*) where
  | barrier (range : PartRange) (old new : L)
  | copyBuffer (layout : L) (regions : List (ImageRegion T))
  | blit (blit : Blit L)

inductive DeviceCommand (ι L T : Type*) where
  | on (image : ι) (command : ImageCommand L T)
  | copyImage (copy : ImageCopy ι L)

namespace ImageRegion

/-- The texel belongs to the area. -/
def Covers (r : ImageRegion T) (p : ImagePart) (xy : Nat × Nat) : Prop :=
  p = r.part ∧ (r.offset.1 ≤ xy.1 ∧ xy.1 < r.offset.1 + r.extent.1) ∧
    r.offset.2 ≤ xy.2 ∧ xy.2 < r.offset.2 + r.extent.2

instance (r : ImageRegion T) (p : ImagePart) (xy : Nat × Nat) : Decidable (r.Covers p xy) :=
  inferInstanceAs (Decidable (_ ∧ _))

def texel (r : ImageRegion T) (xy : Nat × Nat) : T := r.data (xy.1 - r.offset.1, xy.2 - r.offset.2)

end ImageRegion

namespace LayeredImage

/-- The size of a level. -/
def extent (i : LayeredImage L U T) (level : Nat) : Nat × Nat :=
  (max 1 (i.width >>> level), max 1 (i.height >>> level))

def Has (i : LayeredImage L U T) (p : ImagePart) : Prop := p.level < i.levels ∧ p.layer < i.layers

instance (i : LayeredImage L U T) (p : ImagePart) : Decidable (i.Has p) :=
  inferInstanceAs (Decidable (_ ∧ _))

/-- The image has every part of a range, which has one. -/
def HasRange (i : LayeredImage L U T) (r : PartRange) : Prop :=
  (0 < r.levelCount ∧ r.baseLevel + r.levelCount ≤ i.levels) ∧
    0 < r.layerCount ∧ r.baseLayer + r.layerCount ≤ i.layers

instance (i : LayeredImage L U T) (r : PartRange) : Decidable (i.HasRange r) :=
  inferInstanceAs (Decidable (_ ∧ _))

/-- The area is not empty and lies in its part. -/
def Fits (i : LayeredImage L U T) (p : ImagePart) (offset extent : Nat × Nat) : Prop :=
  i.Has p ∧ (0 < extent.1 ∧ offset.1 + extent.1 ≤ (i.extent p.level).1) ∧
    0 < extent.2 ∧ offset.2 + extent.2 ≤ (i.extent p.level).2

instance (i : LayeredImage L U T) (p : ImagePart) (offset extent : Nat × Nat) :
    Decidable (i.Fits p offset extent) :=
  inferInstanceAs (Decidable (_ ∧ _))

/-- The texels of a range are forgotten. -/
def discard (i : LayeredImage L U T) (r : PartRange) : LayeredImage L U T :=
  { i with texel := fun p => if p ∈ r.parts then fun _ => none else i.texel p }

def relayout (i : LayeredImage L U T) (r : PartRange) (new : L) : LayeredImage L U T :=
  { i with layout := fun p => if p ∈ r.parts then new else i.layout p }

def put (i : LayeredImage L U T) (r : ImageRegion T) : LayeredImage L U T :=
  { i with texel := fun p xy => if r.Covers p xy then some (r.texel xy) else i.texel p xy }

def puts (i : LayeredImage L U T) (regions : List (ImageRegion T)) : LayeredImage L U T :=
  regions.foldl put i

variable {i : LayeredImage L U T}

@[simp] theorem puts_nil : i.puts ([] : List (ImageRegion T)) = i := rfl

@[simp] theorem puts_cons {region : ImageRegion T} {regions : List (ImageRegion T)} :
    i.puts (region :: regions) = (i.put region).puts regions := rfl

/-- Copying changes texels only. -/
theorem puts_eq (regions : List (ImageRegion T)) :
    i.puts regions = { i with texel := (i.puts regions).texel } := by
  induction regions generalizing i with
  | nil => rfl
  | cons region regions ih =>
      rw [puts_cons, ih]
      rfl

@[simp] theorem layout_puts {regions : List (ImageRegion T)} :
    (i.puts regions).layout = i.layout := by
  rw [puts_eq]

/-- The texel of the last region that covers it is left. -/
theorem texel_puts (regions : List (ImageRegion T)) (p : ImagePart) (xy : Nat × Nat) :
    (i.puts regions).texel p xy =
      (regions.reverse.find? fun region => decide (region.Covers p xy)).elim (i.texel p xy)
        fun region => some (region.texel xy) := by
  induction regions using List.reverseRecOn with
  | nil => rfl
  | append_singleton regions region ih =>
      rw [puts, List.foldl_append, List.foldl_cons, List.foldl_nil, ← puts, List.reverse_append,
        List.reverse_singleton, List.singleton_append]
      by_cases hcovers : region.Covers p xy
      · simp [put, hcovers]
      · simp [put, hcovers, ih]

/-- The image after an upload, see `run_upload_iff`. -/
def uploaded (i : LayeredImage L U T) (r : PartRange) (readable : L)
    (regions : List (ImageRegion T)) : LayeredImage L U T :=
  ((i.discard r).puts regions).relayout r readable

theorem layout_relayout {r : PartRange} {new : L} (p : ImagePart) :
    (i.relayout r new).layout p = if p ∈ r.parts then new else i.layout p := rfl

theorem puts_relayout {r : PartRange} {new : L} (regions : List (ImageRegion T)) :
    (i.relayout r new).puts regions = (i.puts regions).relayout r new := by
  induction regions generalizing i with
  | nil => rfl
  | cons region regions ih => exact ih (i := i.put region)

theorem relayout_relayout {r : PartRange} {new newer : L} :
    (i.relayout r new).relayout r newer = i.relayout r newer := by
  simp only [relayout, LayeredImage.mk.injEq, and_true, true_and]
  funext p
  split_ifs <;> rfl

variable [DecidableEq L]

/-- The range exists, and the image may be brought into the layout. -/
def Admits (rules : ImageRules L U T) (i : LayeredImage L U T) (r : PartRange) (new : L) : Prop :=
  i.HasRange r ∧ new ≠ rules.undefined ∧ rules.allows i.usage new

instance (rules : ImageRules L U T) (i : LayeredImage L U T) (r : PartRange) (new : L) :
    Decidable (i.Admits rules r new) :=
  inferInstanceAs (Decidable (_ ∧ _))

def barrier (rules : ImageRules L U T) (r : PartRange) (old new : L) (i : LayeredImage L U T) :
    Option (LayeredImage L U T) :=
  if i.Admits rules r new then
    if old = rules.undefined then some ((i.discard r).relayout r new)
    else if rules.allows i.usage old ∧ ∀ p ∈ r.parts, i.layout p = old then
      some (i.relayout r new)
    else none
  else none

def write (layout : L) (i : LayeredImage L U T) (r : ImageRegion T) : Option (LayeredImage L U T) :=
  if i.Fits r.part r.offset r.extent ∧ i.layout r.part = layout then some (i.put r) else none

def copyBuffer (rules : ImageRules L U T) (layout : L) (regions : List (ImageRegion T))
    (i : LayeredImage L U T) : Option (LayeredImage L U T) :=
  if layout = rules.transferDst ∧ rules.allows i.usage layout ∧ regions ≠ [] then
    regions.foldlM (write layout) i
  else none

def blit (rules : ImageRules L U T) (b : Blit L) (i : LayeredImage L U T) :
    Option (LayeredImage L U T) :=
  if (b.srcLayout = rules.transferSrc ∧ b.dstLayout = rules.transferDst ∧ b.src ≠ b.dst) ∧
      (rules.allows i.usage b.srcLayout ∧ i.layout b.src = b.srcLayout ∧
        i.Fits b.src (0, 0) b.srcExtent) ∧
      rules.allows i.usage b.dstLayout ∧ i.layout b.dst = b.dstLayout ∧
        i.Fits b.dst (0, 0) b.dstExtent then
    some { i with
      texel := fun p xy =>
        if p = b.dst ∧ xy.1 < b.dstExtent.1 ∧ xy.2 < b.dstExtent.2 then
          rules.filter b.srcExtent b.dstExtent (i.texel b.src) xy
        else i.texel p xy }
  else none

/-- A command and its effect, if it is accepted. -/
def exec (rules : ImageRules L U T) (i : LayeredImage L U T) :
    ImageCommand L T → Option (LayeredImage L U T)
  | .barrier range old new => i.barrier rules range old new
  | .copyBuffer layout regions => i.copyBuffer rules layout regions
  | .blit blit => i.blit rules blit

def run (rules : ImageRules L U T) (commands : List (ImageCommand L T))
    (i : LayeredImage L U T) : Option (LayeredImage L U T) :=
  commands.foldlM (exec rules) i

/-- The effect of a command on one of several images. -/
def execOn [DecidableEq ι] (rules : ImageRules L U T) (images : ι → LayeredImage L U T) :
    DeviceCommand ι L T → Option (ι → LayeredImage L U T)
  | .on image command => ((images image).exec rules command).map (Function.update images image)
  | .copyImage c =>
    if (c.srcLayout = rules.transferSrc ∧ c.dstLayout = rules.transferDst) ∧
        (rules.allows (images c.src).usage c.srcLayout ∧
          (images c.src).layout c.srcPart = c.srcLayout ∧
          (images c.src).Fits c.srcPart (0, 0) c.extent) ∧
        rules.allows (images c.dst).usage c.dstLayout ∧
          (images c.dst).layout c.dstPart = c.dstLayout ∧
          (images c.dst).Fits c.dstPart (0, 0) c.extent then
      some (Function.update images c.dst { images c.dst with
        texel := fun p xy =>
          if p = c.dstPart ∧ xy.1 < c.extent.1 ∧ xy.2 < c.extent.2 then
            (images c.src).texel c.srcPart xy
          else (images c.dst).texel p xy })
    else none

/-! ### What a command does -/

variable {rules : ImageRules L U T} {j : LayeredImage L U T} {r : PartRange} {old new : L}

theorem run_cons {command : ImageCommand L T} {commands : List (ImageCommand L T)} :
    i.run rules (command :: commands) = (i.exec rules command).bind (run rules commands) :=
  List.foldlM_cons

theorem run_append {commands rest : List (ImageCommand L T)} :
    i.run rules (commands ++ rest) = (i.run rules commands).bind (run rules rest) :=
  List.foldlM_append

theorem barrier_undefined_iff : i.barrier rules r rules.undefined new = some j ↔
    i.Admits rules r new ∧ j = (i.discard r).relayout r new := by
  by_cases h : i.Admits rules r new <;> simp [barrier, h, eq_comm]

theorem barrier_iff (hold : old ≠ rules.undefined) : i.barrier rules r old new = some j ↔
    i.Admits rules r new ∧ (rules.allows i.usage old ∧ ∀ p ∈ r.parts, i.layout p = old) ∧
      j = i.relayout r new := by
  rw [barrier, if_neg hold]
  split_ifs with h hlayout
  · rw [and_iff_right h, and_iff_right hlayout, Option.some.injEq, eq_comm]
  · exact iff_of_false nofun fun hcontra => hlayout hcontra.2.1
  · exact iff_of_false nofun fun hcontra => h hcontra.1

/-- A barrier is refused if one part of its range is in another layout. -/
theorem barrier_eq_none (hold : old ≠ rules.undefined) {p : ImagePart} (hp : p ∈ r.parts)
    (hlayout : i.layout p ≠ old) : i.barrier rules r old new = none := by
  rw [Option.eq_none_iff_forall_not_mem]
  intro j hj
  exact hlayout (((barrier_iff hold).mp hj).2.1.2 p hp)

theorem write_iff {layout : L} {region : ImageRegion T} : i.write layout region = some j ↔
    (i.Fits region.part region.offset region.extent ∧ i.layout region.part = layout) ∧
      j = i.put region := by
  unfold write
  split_ifs with h
  · simp [h, eq_comm]
  · simp [h]

theorem copies_iff {layout : L} {regions : List (ImageRegion T)} :
    regions.foldlM (write layout) i = some j ↔
      (∀ region ∈ regions, i.Fits region.part region.offset region.extent ∧
        i.layout region.part = layout) ∧ j = i.puts regions := by
  induction regions generalizing i with
  | nil => simp [eq_comm]
  | cons region regions ih =>
      rw [List.foldlM_cons, Option.bind_eq_bind, Option.bind_eq_some_iff, List.forall_mem_cons]
      constructor
      · rintro ⟨k, hfirst, hrest⟩
        obtain ⟨hfits, rfl⟩ := write_iff.mp hfirst
        obtain ⟨hall, rfl⟩ := ih.mp hrest
        exact ⟨⟨hfits, hall⟩, rfl⟩
      · rintro ⟨⟨hfits, hall⟩, rfl⟩
        exact ⟨_, write_iff.mpr ⟨hfits, rfl⟩, ih.mpr ⟨hall, rfl⟩⟩

theorem copyBuffer_iff {layout : L} {regions : List (ImageRegion T)} :
    i.copyBuffer rules layout regions = some j ↔
      (layout = rules.transferDst ∧ rules.allows i.usage layout ∧ regions ≠ []) ∧
        (∀ region ∈ regions, i.Fits region.part region.offset region.extent ∧
          i.layout region.part = layout) ∧ j = i.puts regions := by
  unfold copyBuffer
  split_ifs with h
  · rw [copies_iff]
    exact (and_iff_right h).symm
  · simp [h]

/-- Commands change layouts and texels only. -/
structure SameShape (i j : LayeredImage L U T) : Prop where
  levels : j.levels = i.levels
  layers : j.layers = i.layers
  size : j.width = i.width ∧ j.height = i.height
  usage : j.usage = i.usage

omit [DecidableEq L] in
theorem SameShape.refl (i : LayeredImage L U T) : i.SameShape i := ⟨rfl, rfl, ⟨rfl, rfl⟩, rfl⟩

omit [DecidableEq L] in
theorem SameShape.trans {k : LayeredImage L U T} (h : i.SameShape j) (h' : j.SameShape k) :
    i.SameShape k :=
  ⟨h'.levels.trans h.levels, h'.layers.trans h.layers,
    ⟨h'.size.1.trans h.size.1, h'.size.2.trans h.size.2⟩, h'.usage.trans h.usage⟩

theorem exec_sameShape {command : ImageCommand L T} (h : i.exec rules command = some j) :
    i.SameShape j := by
  cases command with
  | barrier range old new =>
      simp only [exec, barrier] at h
      split_ifs at h <;> obtain rfl := Option.some.inj h <;> exact ⟨rfl, rfl, ⟨rfl, rfl⟩, rfl⟩
  | copyBuffer layout regions =>
      obtain ⟨-, -, rfl⟩ := copyBuffer_iff.mp h
      rw [puts_eq]
      exact ⟨rfl, rfl, ⟨rfl, rfl⟩, rfl⟩
  | blit b =>
      simp only [exec, blit] at h
      split_ifs at h
      obtain rfl := Option.some.inj h
      exact ⟨rfl, rfl, ⟨rfl, rfl⟩, rfl⟩

theorem run_sameShape {commands : List (ImageCommand L T)} (h : i.run rules commands = some j) :
    i.SameShape j := by
  induction commands generalizing i with
  | nil =>
      obtain rfl := Option.some.inj h
      exact .refl i
  | cons command commands ih =>
      rw [run_cons, Option.bind_eq_some_iff] at h
      obtain ⟨k, hfirst, hrest⟩ := h
      exact (exec_sameShape hfirst).trans (ih hrest)

/-! ### Uploads -/

/-- Out of the undefined layout, a copy from a buffer, and into the layout for reading. -/
def upload (rules : ImageRules L U T) (r : PartRange) (readable : L)
    (regions : List (ImageRegion T)) : List (ImageCommand L T) :=
  [.barrier r rules.undefined rules.transferDst, .copyBuffer rules.transferDst regions,
    .barrier r rules.transferDst readable]

omit [DecidableEq L] in
theorem layout_uploaded {readable : L} {regions : List (ImageRegion T)} (p : ImagePart) :
    (i.uploaded r readable regions).layout p = if p ∈ r.parts then readable else i.layout p := by
  simp [uploaded, relayout, discard]

omit [DecidableEq L] in
theorem texel_uploaded {readable : L} {regions : List (ImageRegion T)} {p : ImagePart}
    (hp : p ∈ r.parts) (xy : Nat × Nat) :
    (i.uploaded r readable regions).texel p xy =
      (regions.reverse.find? fun region => decide (region.Covers p xy)).map
        fun region => region.texel xy := by
  have hfresh : (i.discard r).texel p xy = none := by simp [discard, hp]
  have hputs := texel_puts (i := i.discard r) regions p xy
  rw [hfresh] at hputs
  rw [uploaded, relayout, hputs]
  cases regions.reverse.find? _ <;> rfl

omit [DecidableEq L] in
/-- Where the regions that cover a texel agree on it, it does not matter which is last. -/
theorem texel_uploaded_of_agree {readable : L} {regions : List (ImageRegion T)} {p : ImagePart}
    {xy : Nat × Nat} {region : ImageRegion T} (hp : p ∈ r.parts) (hregion : region ∈ regions)
    (hcovers : region.Covers p xy)
    (hagree : ∀ other ∈ regions, other.Covers p xy → other.texel xy = region.texel xy) :
    (i.uploaded r readable regions).texel p xy = some (region.texel xy) := by
  rw [texel_uploaded hp]
  cases hfind : regions.reverse.find? fun region => decide (region.Covers p xy) with
  | none =>
      rw [List.find?_eq_none] at hfind
      exact absurd (decide_eq_true hcovers) (hfind region (List.mem_reverse.mpr hregion))
  | some other =>
      have hcovers' : other.Covers p xy := by simpa using List.find?_some hfind
      have hmem := List.mem_reverse.mp (List.mem_of_find?_eq_some hfind)
      exact congrArg some (hagree other hmem hcovers')

/-- An upload is accepted if and only if the usage of the image allows it and every
region lies in the range, or in a part that expects copies already. -/
theorem run_upload_iff {readable : L} {regions : List (ImageRegion T)}
    (hdst : rules.transferDst ≠ rules.undefined) :
    i.run rules (upload rules r readable regions) = some j ↔
      (i.Admits rules r rules.transferDst ∧ i.Admits rules r readable ∧ regions ≠ []) ∧
        (∀ region ∈ regions, i.Fits region.part region.offset region.extent ∧
          (region.part ∈ r.parts ∨ i.layout region.part = rules.transferDst)) ∧
        j = i.uploaded r readable regions := by
  have hpart : ∀ p, ((i.discard r).relayout r rules.transferDst).layout p = rules.transferDst ↔
      p ∈ r.parts ∨ i.layout p = rules.transferDst := by
    intro p
    by_cases hp : p ∈ r.parts <;> simp [relayout, discard, hp]
  have hend : (((i.discard r).relayout r rules.transferDst).puts regions).relayout r readable =
      i.uploaded r readable regions := by
    rw [puts_relayout, relayout_relayout, uploaded]
  simp only [upload, run_cons, exec, Option.bind_eq_some_iff, barrier_undefined_iff,
    copyBuffer_iff, barrier_iff hdst]
  constructor
  · rintro ⟨_, ⟨hfirst, rfl⟩, _, ⟨⟨-, -, hsome⟩, hregions, rfl⟩, _, ⟨hlast, -, rfl⟩, hj⟩
    obtain rfl := Option.some.inj hj
    rw [puts_eq] at hlast
    exact ⟨⟨hfirst, hlast, hsome⟩,
      fun region hregion => ⟨(hregions region hregion).1, (hpart _).mp (hregions region hregion).2⟩,
      hend⟩
  · rintro ⟨⟨hfirst, hlast, hsome⟩, hregions, rfl⟩
    refine ⟨_, ⟨hfirst, rfl⟩, _, ⟨⟨trivial, hfirst.2.2, hsome⟩, fun region hregion =>
      ⟨(hregions region hregion).1, (hpart _).mpr (hregions region hregion).2⟩, rfl⟩, _,
      ⟨?_, ⟨?_, ?_⟩, rfl⟩, congrArg some hend⟩
    · rw [puts_eq]
      exact hlast
    · rw [puts_eq]
      exact hfirst.2.2
    · intro p hp
      rw [layout_puts]
      exact (hpart p).mpr (Or.inl hp)

/-- After several uploads to one range, only the last one is left. -/
theorem texel_run_uploads {readable : L} {uploads : List (List (ImageRegion T))}
    {last : List (ImageRegion T)} (hdst : rules.transferDst ≠ rules.undefined)
    (h : i.run rules ((uploads ++ [last]).flatMap (upload rules r readable)) = some j)
    {p : ImagePart} (hp : p ∈ r.parts) (xy : Nat × Nat) :
    j.texel p xy = (last.reverse.find? fun region => decide (region.Covers p xy)).map
      fun region => region.texel xy := by
  rw [List.flatMap_append, List.flatMap_singleton, run_append, Option.bind_eq_some_iff] at h
  obtain ⟨k, -, hlast⟩ := h
  obtain ⟨-, -, rfl⟩ := (run_upload_iff hdst).mp hlast
  exact texel_uploaded hp xy

/-- What `run_upload_iff` demands of an image before an upload. -/
def Accepts (rules : ImageRules L U T) (i : LayeredImage L U T) (r : PartRange) (readable : L)
    (regions : List (ImageRegion T)) : Prop :=
  (i.Admits rules r rules.transferDst ∧ i.Admits rules r readable ∧ regions ≠ []) ∧
    ∀ region ∈ regions, i.Fits region.part region.offset region.extent ∧
      (region.part ∈ r.parts ∨ i.layout region.part = rules.transferDst)

omit [DecidableEq L] in
/-- An upload does not change what is demanded of the next one. -/
theorem accepts_uploaded {readable : L} {regions others : List (ImageRegion T)} :
    (i.uploaded r readable regions).Accepts rules r readable others ↔
      i.Accepts rules r readable others := by
  have hlayout : ∀ p, (p ∈ r.parts ∨
      (i.uploaded r readable regions).layout p = rules.transferDst) ↔
      (p ∈ r.parts ∨ i.layout p = rules.transferDst) := by
    intro p
    by_cases hp : p ∈ r.parts <;> simp [layout_uploaded, hp]
  simp only [Accepts, hlayout]
  rw [uploaded, puts_eq]
  rfl

/-- Uploads to one range are accepted if and only if the image accepts each of them. -/
theorem run_uploads_isSome_iff {readable : L} {uploads : List (List (ImageRegion T))}
    (hdst : rules.transferDst ≠ rules.undefined) :
    (i.run rules (uploads.flatMap (upload rules r readable))).isSome ↔
      ∀ regions ∈ uploads, i.Accepts rules r readable regions := by
  induction uploads generalizing i with
  | nil => simp [run]
  | cons regions uploads ih =>
      rw [List.flatMap_cons, run_append, List.forall_mem_cons]
      constructor
      · intro h
        obtain ⟨j, hj⟩ := Option.isSome_iff_exists.mp h
        obtain ⟨k, hfirst, hrest⟩ := Option.bind_eq_some_iff.mp hj
        obtain ⟨haccepts, hregions, rfl⟩ := (run_upload_iff hdst).mp hfirst
        exact ⟨⟨haccepts, hregions⟩, fun others hothers =>
          accepts_uploaded.mp (ih.mp (Option.isSome_iff_exists.mpr ⟨j, hrest⟩) others hothers)⟩
      · rintro ⟨⟨haccepts, hregions⟩, hrest⟩
        rw [(run_upload_iff hdst).mpr ⟨haccepts, hregions, rfl⟩, Option.bind_some]
        exact ih.mpr fun others hothers => accepts_uploaded.mpr (hrest others hothers)

/-! ### Several images -/

variable [DecidableEq ι]

def runOn (rules : ImageRules L U T) (commands : List (DeviceCommand ι L T))
    (images : ι → LayeredImage L U T) : Option (ι → LayeredImage L U T) :=
  commands.foldlM (execOn rules) images

variable {images images' : ι → LayeredImage L U T}

theorem runOn_cons {command : DeviceCommand ι L T} {commands : List (DeviceCommand ι L T)} :
    runOn rules (command :: commands) images =
      (execOn rules images command).bind (runOn rules commands) :=
  List.foldlM_cons

theorem runOn_append {commands rest : List (DeviceCommand ι L T)} :
    runOn rules (commands ++ rest) images = (runOn rules commands images).bind (runOn rules rest) :=
  List.foldlM_append

theorem execOn_on_iff {image : ι} {command : ImageCommand L T} :
    execOn rules images (.on image command) = some images' ↔
      ∃ j, (images image).exec rules command = some j ∧ Function.update images image j = images' :=
  Option.map_eq_some_iff

/-- A copy between images changes texels only. -/
theorem execOn_copyImage {copy : ImageCopy ι L}
    (h : execOn rules images (.copyImage copy) = some images') (image : ι) :
    (images image).SameShape (images' image) ∧ (images' image).layout = (images image).layout := by
  simp only [execOn] at h
  split_ifs at h
  obtain rfl := Option.some.inj h
  by_cases heq : image = copy.dst
  · subst heq
    rw [Function.update_self]
    exact ⟨⟨rfl, rfl, ⟨rfl, rfl⟩, rfl⟩, rfl⟩
  · rw [Function.update_of_ne heq]
    exact ⟨.refl _, rfl⟩

theorem runOn_sameShape {commands : List (DeviceCommand ι L T)}
    (h : runOn rules commands images = some images') (image : ι) :
    (images image).SameShape (images' image) := by
  induction commands generalizing images with
  | nil =>
      obtain rfl := Option.some.inj h
      exact .refl _
  | cons command commands ih =>
      rw [runOn_cons, Option.bind_eq_some_iff] at h
      obtain ⟨between, hfirst, hrest⟩ := h
      refine SameShape.trans ?_ (ih hrest)
      cases command with
      | on target command =>
          obtain ⟨j, hexec, rfl⟩ := execOn_on_iff.mp hfirst
          by_cases heq : image = target
          · subst heq
            rw [Function.update_self]
            exact exec_sameShape hexec
          · rw [Function.update_of_ne heq]
            exact .refl _
      | copyImage copy => exact (execOn_copyImage hfirst image).1

end LayeredImage

end Maple.Lib
