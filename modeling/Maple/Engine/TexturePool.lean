import Maple.Engine.AtlasBounds

/-!
# Maple.Engine.TexturePool

`Engine/TexturePool.cpp`: a growing list of atlases, and for each name the atlas
its sprite is in.

`mapping` holds pointers into `std::vector<TextureAtlas> atlas`. When the vector
grows it moves to a new buffer and the pointers to the old one dangle, so a
pointer is the number of the buffer it was taken from and an index. The growth
policy of the vector (`grow`) and the image decoder (`loadAsset`) are
parameters.
-/

namespace Maple

open Lib

/-- `Image`, by what `TextureAtlas::addSprite` reads of it. -/
structure Image where
  width : Nat
  height : Nat
  data : List UInt8
  deriving DecidableEq, Repr

/-- A `TextureAtlas*` into the vector. -/
structure AtlasPtr where
  buffer : Nat
  index : Nat
  deriving DecidableEq, Repr

/-- `TexturePool`, with the `ImageCache` and the names given to
`ImageLoader::loadAsset` so far. -/
structure TexturePool where
  atlas : List TextureAtlas
  capacity : Nat
  buffer : Nat
  mapping : String → Option AtlasPtr
  cache : String → Option Image
  loads : List String

/-- How a call can fail: it has not ended yet, it follows a dangling pointer, or
the loader's assertion on a file's data fails. -/
inductive PoolFault where
  | outOfFuel
  | dangling
  | assertion (file : String)
  deriving DecidableEq, Repr

namespace TexturePool

/-- `TexturePool()`. -/
def empty : TexturePool where
  atlas := []
  capacity := 0
  buffer := 0
  mapping := fun _ => none
  cache := fun _ => none
  loads := []

/-- A quad and the index of the atlas whose texture it shows. -/
abbrev PoolQuad := Nat × Quad2D

/-- A computation of the atlas inside the pool. -/
def ofFuel {α : Type} (o : Option α) : Except PoolFault α := o.elim (.error .outOfFuel) .ok

/-- Following a pointer into the vector. -/
def deref (p : TexturePool) (ptr : AtlasPtr) : Except PoolFault Nat :=
  if ptr.buffer = p.buffer ∧ ptr.index < p.atlas.length then .ok ptr.index else .error .dangling

/-- `ImageCache::get`: a file that is not in the cache is loaded. -/
def getImage (loadAsset : String → Option Image) (p : TexturePool) (file : String) :
    Except PoolFault (Image × TexturePool) :=
  match p.cache file with
  | some image => .ok (image, p)
  | none =>
      match loadAsset file with
      | none => .error (.assertion file)
      | some image => .ok (image, { p with
          cache := Function.update p.cache file (some image), loads := p.loads ++ [file] })

/-- `TextureAtlas::addSprite(file)` on the atlas at index `i`. -/
def addFile (loadAsset : String → Option Image) (fuel : Nat) (p : TexturePool) (i : Nat)
    (file : String) : Except PoolFault (Option PoolQuad × TexturePool) :=
  match p.atlas[i]? with
  | none => .error .dangling
  | some a =>
      match a.offsets file with
      | some quad => .ok (some (i, quad), p)
      | none =>
          (p.getImage loadAsset file).bind fun (image, p) =>
          if image.width ≤ 0 ∨ image.height ≤ 0 then .ok (none, p)
          else
            (ofFuel (a.update fuel file image.data image.width image.height)).map fun (quad, a) =>
            (quad.map (Prod.mk i), { p with atlas := p.atlas.set i a })

/-- `TextureAtlas::addSprite(uniqueName, buffer, w, h)` on the atlas at index `i`. -/
def addBuffer (fuel : Nat) (p : TexturePool) (i : Nat) (uniqueName : String)
    (data : List UInt8) (w h : Nat) : Except PoolFault (Option PoolQuad × TexturePool) :=
  match p.atlas[i]? with
  | none => .error .dangling
  | some a =>
      (ofFuel (a.addSprite fuel uniqueName data w h)).map fun (quad, a) =>
      (quad.map (Prod.mk i), { p with atlas := p.atlas.set i a })

/-- `createTextureAtlas`: `emplace_back` of an atlas of the default size. -/
def createTextureAtlas (grow : Nat → Nat) (p : TexturePool) : TexturePool :=
  let p := if p.atlas.length = p.capacity then
    { p with capacity := grow p.capacity, buffer := p.buffer + 1 } else p
  { p with atlas := p.atlas ++ [TextureAtlas.create 4096 4096] }

/-- `mapping[uniqueName] = &atlas.back();` -/
def setMapping (p : TexturePool) (uniqueName : String) : TexturePool :=
  { p with mapping :=
    Function.update p.mapping uniqueName (some ⟨p.buffer, p.atlas.length - 1⟩) }

/-- `TexturePool::addSprite(uniqueName, data, w, h)`. Both the repeated name and the
full atlas call the overload of the atlas that takes a file. -/
def addSprite (loadAsset : String → Option Image) (grow : Nat → Nat) (fuel : Nat)
    (p : TexturePool) (uniqueName : String) (data : List UInt8) (w h : Nat) :
    Except PoolFault (Option PoolQuad × TexturePool) :=
  match p.mapping uniqueName with
  | some ptr => (p.deref ptr).bind fun i => p.addFile loadAsset fuel i uniqueName
  | none =>
      let p := if p.atlas.isEmpty then p.createTextureAtlas grow else p
      (p.addBuffer fuel (p.atlas.length - 1) uniqueName data w h).bind fun (quad, p) =>
      match quad with
      | some quad => .ok (some quad, p.setMapping uniqueName)
      | none =>
          let p := p.createTextureAtlas grow
          (p.addFile loadAsset fuel (p.atlas.length - 1) uniqueName).map fun (quad, p) =>
          (quad, p.setMapping uniqueName)

/-! ### Calls that the current atlas can take -/

section

variable (loadAsset : String → Option Image) (grow : Nat → Nat)

/-- One entry of the history: a call and the quad it returned. -/
structure Entry where
  call : TextureAtlas.SpriteCall
  answer : Option PoolQuad

/-- A call of `addSprite` ends without a fault. -/
def Answers (p : TexturePool) (e : Entry) (p' : TexturePool) : Prop :=
  Settles (fun fuel => p.addSprite loadAsset grow fuel e.call.uniqueName e.call.buffer e.call.w
    e.call.h) (.ok (e.answer, p'))

/-- The sizes of the calls under consideration. -/
def InSize (c : TextureAtlas.SpriteCall) : Prop := (0 < c.w ∧ c.w ≤ 4096) ∧ 0 < c.h ∧ c.h ≤ 4096

/-- The name is known, or there is no atlas yet, or the last atlas has room. -/
def Takes (p : TexturePool) (c : TextureAtlas.SpriteCall) : Prop :=
  (p.mapping c.uniqueName).isSome ∨ p.atlas = [] ∨
    ∃ a ∈ p.atlas.getLast?, a.HasRoom c.w c.h

/-- A call that the current atlas can take, as a step. -/
def Taken (p : TexturePool) (e : Entry) (p' : TexturePool) : Prop :=
  InSize e.call ∧ p.Takes e.call ∧ p.Answers loadAsset grow e p'

/-- The first call of the history with this name. -/
def firstCall (log : List Entry) (name : String) : Option TextureAtlas.SpriteCall :=
  (log.find? fun e => e.call.uniqueName = name).map Entry.call

/-- The quad is in some atlas of the pool, has the size the name's first call asked
for and was filled from that call's data. -/
def Holds (p : TexturePool) (log : List Entry) (name : String) (quad : PoolQuad) : Prop :=
  ∃ a ∈ p.atlas[quad.1]?, ∃ c ∈ firstCall log name, a.offsets name = some quad.2 ∧
    (quad.2.w = c.w ∧ quad.2.h = c.h) ∧ (quad.2, c.buffer) ∈ a.uploads

/-- What holds in every state of a run of calls that the current atlas can take:
one atlas holds all the sprites, and no file has been loaded. -/
structure Pooled (log : List Entry) (p : TexturePool) (a : TextureAtlas) : Prop where
  atlas_eq : p.atlas = [a]
  size : a.width = 4096 ∧ a.height = 4096
  settled : a.Settled
  mapping : ∀ name, p.mapping name = (a.offsets name).map fun _ => ⟨p.buffer, 0⟩
  loads : p.loads = []
  first : ∀ name quad, a.offsets name = some quad →
    ∃ c ∈ firstCall log name, (quad.w = c.w ∧ quad.h = c.h) ∧ (quad, c.buffer) ∈ a.uploads
  answers : ∀ e ∈ log, ∃ quad, a.offsets e.call.uniqueName = some quad ∧ e.answer = some (0, quad)

variable {loadAsset grow}

theorem firstCall_append_of_some {log : List Entry} {name : String}
    {c : TextureAtlas.SpriteCall} (h : firstCall log name = some c) (e : Entry) :
    firstCall (log ++ [e]) name = some c := by
  unfold firstCall at h ⊢
  obtain ⟨e', he', hc⟩ := Option.map_eq_some_iff.mp h
  rw [List.find?_append, he']
  exact congrArg some hc

/-- A name that no call of the history has is first used by the next call. -/
theorem firstCall_append_of_forall {log : List Entry} {e : Entry}
    (h : ∀ e' ∈ log, e'.call.uniqueName ≠ e.call.uniqueName) :
    firstCall (log ++ [e]) e.call.uniqueName = some e.call := by
  have hnone : log.find? (fun e' => e'.call.uniqueName = e.call.uniqueName) = none := by
    rw [List.find?_eq_none]
    intro e' he'
    simpa using h e' he'
  unfold firstCall
  rw [List.find?_append, hnone]
  simp

/-- **A repeated name** gets the quad stored for it; nothing changes. -/
theorem Pooled.repeated {log : List Entry} {p : TexturePool} {a : TextureAtlas}
    (hp : Pooled log p a) {c : TextureAtlas.SpriteCall} {quad : Quad2D}
    (hquad : a.offsets c.uniqueName = some quad) :
    p.Answers loadAsset grow ⟨c, some (0, quad)⟩ p := by
  refine Settles.of_forall fun fuel => ?_
  have hmapping : p.mapping c.uniqueName = some ⟨p.buffer, 0⟩ := by
    rw [hp.mapping, hquad, Option.map_some]
  simp only [addSprite, hmapping, deref, hp.atlas_eq, List.length_singleton, Nat.lt_one_iff,
    and_self, if_true, Except.bind, addFile, List.getElem?_cons_zero, hquad]

/-- The history after a repeated name. -/
theorem Pooled.snoc_repeated {log : List Entry} {p : TexturePool} {a : TextureAtlas}
    (hp : Pooled log p a) {c : TextureAtlas.SpriteCall} {quad : Quad2D}
    (hquad : a.offsets c.uniqueName = some quad) :
    Pooled (log ++ [⟨c, some (0, quad)⟩]) p a := by
  refine { hp with first := fun name q hq => ?_, answers := fun e he => ?_ }
  · obtain ⟨c', hc', hrest⟩ := hp.first name q hq
    exact ⟨c', firstCall_append_of_some hc' _, hrest⟩
  · obtain he | he := List.mem_append.mp he
    · exact hp.answers e he
    · obtain rfl := List.mem_singleton.mp he
      exact ⟨quad, hquad, rfl⟩

/-- **A new name that the atlas has room for** is placed in it. -/
theorem Pooled.fresh (loadAsset : String → Option Image) (grow : Nat → Nat) {log : List Entry}
    {p : TexturePool} {a : TextureAtlas}
    (hp : Pooled log p a) {c : TextureAtlas.SpriteCall} (hc : InSize c)
    (hnew : a.offsets c.uniqueName = none) (hroom : a.HasRoom c.w c.h) :
    ∃ quad p' a', p.Answers loadAsset grow ⟨c, some (0, quad)⟩ p' ∧
      Pooled (log ++ [⟨c, some (0, quad)⟩]) p' a' := by
  obtain ⟨⟨hw0, hw⟩, hh0, hh⟩ := hc
  obtain ⟨q, a', hrun, hdims, ha', hout⟩ := TextureAtlas.update_settles hp.settled c.uniqueName
    c.buffer hw0 (by rw [hp.size.1]; exact hw) hh0 (by omega)
  cases hout with
  | refused hno => exact absurd hroom hno
  | @placed quad _ _ hsize hoffsets huploads =>
      have hrun' : Settles (fun fuel => ofFuel (a.addSprite fuel c.uniqueName c.buffer c.w c.h))
          (.ok (some quad, a')) := by
        unfold TextureAtlas.addSprite
        rw [hnew]
        exact hrun.comp ofFuel
      have hmapping : p.mapping c.uniqueName = none := by rw [hp.mapping, hnew, Option.map_none]
      have hlog : ∀ e ∈ log, e.call.uniqueName ≠ c.uniqueName := by
        intro e he heq
        obtain ⟨quad', hquad', -⟩ := hp.answers e he
        rw [heq, hnew] at hquad'
        exact absurd hquad' nofun
      -- an upload stays when another one follows
      have hkeep : ∀ u ∈ a.uploads, u ∈ a'.uploads := by
        intro u hu
        rw [huploads]
        exact List.mem_append_left _ hu
      refine ⟨quad, setMapping { p with atlas := [a'] } c.uniqueName, a', ?_, rfl,
        ⟨hdims.1.trans hp.size.1, hdims.2.trans hp.size.2⟩, ha', fun name => ?_, hp.loads,
        fun name q hq => ?_, fun e he => ?_⟩
      · show Settles (fun fuel => p.addSprite loadAsset grow fuel c.uniqueName c.buffer c.w c.h) _
        simp only [addSprite, hmapping, hp.atlas_eq, List.isEmpty_cons, Bool.false_eq_true,
          if_false, List.length_singleton, Nat.sub_self, addBuffer, List.getElem?_cons_zero]
        refine Settles.except_bind (a := (some (0, quad), { p with atlas := [a'] }))
          (hrun'.comp _) ?_
        exact Settles.of_forall fun _ => rfl
      · by_cases hname : name = c.uniqueName
        · subst hname
          simp [setMapping, hoffsets]
        · simp only [setMapping, hoffsets, Function.update_of_ne hname, hp.mapping]
      · by_cases hname : name = c.uniqueName
        · subst hname
          rw [hoffsets, Function.update_self] at hq
          obtain rfl := Option.some.inj hq
          refine ⟨c, firstCall_append_of_forall hlog, hsize, ?_⟩
          rw [huploads]
          exact List.mem_append_right _ (List.mem_singleton.mpr rfl)
        · rw [hoffsets, Function.update_of_ne hname] at hq
          obtain ⟨c', hc', hsize', hup⟩ := hp.first name q hq
          exact ⟨c', firstCall_append_of_some hc' _, hsize', hkeep _ hup⟩
      · obtain he | he := List.mem_append.mp he
        · obtain ⟨quad', hquad', hanswer⟩ := hp.answers e he
          refine ⟨quad', ?_, hanswer⟩
          rw [hoffsets, Function.update_of_ne (hlog e he), hquad']
        · obtain rfl := List.mem_singleton.mp he
          exact ⟨quad, by rw [hoffsets, Function.update_self], rfl⟩

/-! ### Runs -/

/-- The first call creates the first atlas. -/
theorem pooled_create (grow : Nat → Nat) :
    Pooled [] (empty.createTextureAtlas grow) (TextureAtlas.create 4096 4096) := by
  have hatlas : (empty.createTextureAtlas grow).atlas = [TextureAtlas.create 4096 4096] := by
    unfold createTextureAtlas
    split <;> rfl
  have hmapping : (empty.createTextureAtlas grow).mapping = fun _ => none := by
    unfold createTextureAtlas
    split <;> rfl
  have hloads : (empty.createTextureAtlas grow).loads = [] := by
    unfold createTextureAtlas
    split <;> rfl
  exact ⟨hatlas, ⟨rfl, rfl⟩, TextureAtlas.settled_create (by decide) (by decide),
    fun name => by rw [hmapping]; rfl, hloads, nofun, nofun⟩

theorem answers_create {e : Entry} {p' : TexturePool} :
    (empty.createTextureAtlas grow).Answers loadAsset grow e p' ↔
      empty.Answers loadAsset grow e p' := by
  have hatlas := (pooled_create grow).atlas_eq
  have hmapping : (empty.createTextureAtlas grow).mapping e.call.uniqueName = none :=
    (pooled_create grow).mapping _
  have hempty : empty.mapping e.call.uniqueName = none := rfl
  unfold Answers addSprite
  simp only [hmapping, hempty, hatlas, List.isEmpty_cons, Bool.false_eq_true, if_false]
  exact Iff.rfl

/-- The state of a run: untouched, or with all sprites in one atlas. -/
def Good (log : List Entry) (p : TexturePool) : Prop :=
  (p = empty ∧ log = []) ∨ ∃ a, Pooled log p a

/-- **A call that the current atlas can take** ends, with a good history. -/
theorem Pooled.answered (loadAsset : String → Option Image) (grow : Nat → Nat) {log : List Entry}
    {p : TexturePool} {a : TextureAtlas}
    (hp : Pooled log p a) {c : TextureAtlas.SpriteCall} (hc : InSize c) (htakes : p.Takes c) :
    ∃ quad p' a', p.Answers loadAsset grow ⟨c, some quad⟩ p' ∧
      Pooled (log ++ [⟨c, some quad⟩]) p' a' := by
  cases hquad : a.offsets c.uniqueName with
  | some quad => exact ⟨(0, quad), p, a, hp.repeated hquad, hp.snoc_repeated hquad⟩
  | none =>
      have hroom : a.HasRoom c.w c.h := by
        obtain hsome | hnil | ⟨b, hb, hroom⟩ := htakes
        · rw [hp.mapping, hquad] at hsome
          exact absurd hsome (by simp)
        · rw [hp.atlas_eq] at hnil
          exact absurd hnil (by simp)
        · rw [hp.atlas_eq] at hb
          obtain rfl := Option.some.inj hb
          exact hroom
      obtain ⟨quad, p', a', hrun, hp'⟩ := hp.fresh loadAsset grow hc hquad hroom
      exact ⟨(0, quad), p', a', hrun, hp'⟩

theorem Good.answered (loadAsset : String → Option Image) (grow : Nat → Nat) {log : List Entry}
    {p : TexturePool} (hgood : Good log p) {c : TextureAtlas.SpriteCall} (hc : InSize c)
    (htakes : p.Takes c) :
    ∃ quad p' a', p.Answers loadAsset grow ⟨c, some quad⟩ p' ∧
      Pooled (log ++ [⟨c, some quad⟩]) p' a' := by
  obtain ⟨rfl, rfl⟩ | ⟨a, hp⟩ := hgood
  · -- a new atlas has room for every sprite of the allowed size
    have hroom : (TextureAtlas.create 4096 4096).HasRoom c.w c.h := by
      obtain ⟨⟨-, hw⟩, -, hh⟩ := hc
      refine Or.inr (Or.inl ?_)
      simp only [TextureAtlas.create]
      omega
    obtain ⟨quad, p', a', hrun, hp'⟩ := (pooled_create grow).fresh loadAsset grow hc rfl
      hroom
    exact ⟨(0, quad), p', a', answers_create.mp hrun, hp'⟩
  · exact hp.answered loadAsset grow hc htakes

theorem Good.step {log : List Entry} {p p' : TexturePool} {e : Entry} (hgood : Good log p)
    (hstep : p.Taken loadAsset grow e p') : Good (log ++ [e]) p' := by
  obtain ⟨hc, htakes, hrun⟩ := hstep
  obtain ⟨quad, p₁, a', hrun₁, hp'⟩ := hgood.answered loadAsset grow hc htakes
  obtain ⟨hanswer, rfl⟩ := Prod.mk.inj (Except.ok.inj (hrun.unique hrun₁))
  refine Or.inr ⟨a', ?_⟩
  obtain ⟨c, answer⟩ := e
  obtain rfl : answer = some quad := hanswer
  exact hp'

/-- **The pool places the caller's pixels**, as long as the current atlas can take
each call: every call returns a quad, which has the size of the name's first call
and was filled from its data; a repeated name gets the same quad; no file is
loaded; and every further such call ends. -/
theorem pool_places (loadAsset : String → Option Image) (grow : Nat → Nat) {log : List Entry}
    {p : TexturePool} (hrun : Run (Taken loadAsset grow) empty log p) :
    p.loads = [] ∧ (∀ e ∈ log, ∃ quad, e.answer = some quad ∧ p.Holds log e.call.uniqueName quad) ∧
      (∀ e ∈ log, ∀ e' ∈ log, e.call.uniqueName = e'.call.uniqueName → e.answer = e'.answer) ∧
      ∀ c, InSize c → p.Takes c → ∃ quad p', p.Answers loadAsset grow ⟨c, some quad⟩ p' := by
  have hgood : Good log p := by
    refine hrun.invariant (I := Good) (Or.inl ⟨rfl, rfl⟩) ?_
    intro log p e p' hgood hstep
    exact hgood.step hstep
  have hnext : ∀ c, InSize c → p.Takes c →
      ∃ quad p', p.Answers loadAsset grow ⟨c, some quad⟩ p' := by
    intro c hc htakes
    obtain ⟨quad, p', -, hrun', -⟩ := hgood.answered loadAsset grow hc htakes
    exact ⟨quad, p', hrun'⟩
  obtain ⟨rfl, rfl⟩ | ⟨a, hp⟩ := hgood
  · exact ⟨rfl, nofun, nofun, hnext⟩
  refine ⟨hp.loads, fun e he => ?_, fun e he e' he' hname => ?_, hnext⟩
  · obtain ⟨quad, hquad, hanswer⟩ := hp.answers e he
    obtain ⟨c, hc, hsize, hup⟩ := hp.first _ _ hquad
    refine ⟨(0, quad), hanswer, a, ?_, c, hc, hquad, hsize, hup⟩
    rw [hp.atlas_eq]
    rfl
  · obtain ⟨quad, hquad, hanswer⟩ := hp.answers e he
    obtain ⟨quad', hquad', hanswer'⟩ := hp.answers e' he'
    rw [hname, hquad'] at hquad
    rw [hanswer, hanswer', Option.some.inj hquad]

/-- Two sprites next to each other, the first one asked for again. -/
theorem pool_places_three :
    ∃ p, Run (Taken (fun _ => none) fun n => 2 * n + 1) empty
        [⟨⟨"left", [1], 8, 8⟩, some (0, ⟨0, 0, 8, 8⟩)⟩,
          ⟨⟨"right", [2], 8, 8⟩, some (0, ⟨8, 0, 8, 8⟩)⟩,
          ⟨⟨"left", [3], 6, 6⟩, some (0, ⟨0, 0, 8, 8⟩)⟩] p ∧ p.loads = [] := by
  have hsteps : ∃ p₁ p₂ p₃ : TexturePool,
      Taken (fun _ => none) (fun n => 2 * n + 1) empty
        ⟨⟨"left", [1], 8, 8⟩, some (0, ⟨0, 0, 8, 8⟩)⟩ p₁ ∧
      p₁.Taken (fun _ => none) (fun n => 2 * n + 1)
        ⟨⟨"right", [2], 8, 8⟩, some (0, ⟨8, 0, 8, 8⟩)⟩ p₂ ∧
      p₂.Taken (fun _ => none) (fun n => 2 * n + 1)
        ⟨⟨"left", [3], 6, 6⟩, some (0, ⟨0, 0, 8, 8⟩)⟩ p₃ :=
    ⟨_, _, _,
      ⟨⟨by decide, by decide⟩, Or.inr (Or.inl rfl), Settles.of_forall fun fuel => rfl⟩,
      ⟨⟨by decide, by decide⟩, Or.inr (Or.inr ⟨_, rfl, Or.inr (Or.inl (by decide))⟩),
        Settles.of_forall fun fuel => rfl⟩,
      ⟨⟨by decide, by decide⟩, Or.inl rfl, Settles.of_forall fun fuel => rfl⟩⟩
  obtain ⟨p₁, p₂, p₃, h₁, h₂, h₃⟩ := hsteps
  have hrun := (((Run.nil empty).snoc h₁).snoc h₂).snoc h₃
  exact ⟨p₃, hrun, (pool_places _ _ hrun).1⟩

/-- Once a sprite fills the first atlas, the next name is taken for a file: its
pixels, not those of the caller, are placed in a second atlas, and the pointer to
the first one dangles. If there is no such file, the loader's assertion fails. -/
theorem pool_loads_file :
    (∃ p p' : TexturePool, Answers (fun _ => some ⟨2, 2, [7]⟩) (fun n => 2 * n + 1) empty
        ⟨⟨"full", [1], 4096, 4096⟩, some (0, ⟨0, 0, 4096, 4096⟩)⟩ p ∧
      p.Answers (fun _ => some ⟨2, 2, [7]⟩) (fun n => 2 * n + 1)
        ⟨⟨"next", [2], 1, 1⟩, some (1, ⟨0, 0, 2, 2⟩)⟩ p' ∧
      p'.loads = ["next"] ∧ (p'.atlas.map TextureAtlas.uploads)[1]? = some [(⟨0, 0, 2, 2⟩, [7])] ∧
      ∀ fuel, p'.addSprite (fun _ => some ⟨2, 2, [7]⟩) (fun n => 2 * n + 1) fuel "full" [1]
        4096 4096 = .error .dangling) ∧
    ∃ p : TexturePool, Answers (fun _ => none) (fun n => 2 * n + 1) empty
        ⟨⟨"full", [1], 4096, 4096⟩, some (0, ⟨0, 0, 4096, 4096⟩)⟩ p ∧
      ∀ fuel, p.addSprite (fun _ => none) (fun n => 2 * n + 1) fuel "next" [2] 1 1 =
        .error (.assertion "next") := by
  constructor
  · exact ⟨_, _, Settles.of_forall fun fuel => rfl, Settles.of_forall fun fuel => rfl, rfl, rfl,
      fun fuel => rfl⟩
  · exact ⟨_, Settles.of_forall fun fuel => rfl, fun fuel => rfl⟩

end

end TexturePool

end Maple
