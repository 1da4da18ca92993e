import Mathlib.Data.List.Nodup
import Maple.Lib.Places
import Maple.Vulkan.Images

/-!
# Maple.Vulkan.RenderPass

`VulkanRenderPass.cpp` and the passes of the renderers. A pass brings each of its
attachments from an initial into a final layout, so a sequence of passes, over any number
of frames, is accepted if and only if every image on its own is in the layouts that its
passes expect (`passes_iff`).

A pass that does not clear expects the layout for reading by shaders from all its
attachments, but passes leave a depth buffer in a layout of its own.
-/

namespace Maple.Vulkan

open Maple.Lib

inductive TextureType where
  | color
  | depth
  | depthArray
  | cube
  | other
  deriving DecidableEq, Repr

/-- A texture of the type is made for the depth. -/
def TextureType.IsDepth (textureType : TextureType) : Prop :=
  textureType = .depth ∨ textureType = .depthArray

instance (textureType : TextureType) : Decidable textureType.IsDepth :=
  inferInstanceAs (Decidable (_ ∨ _))

/-- What is set of `VkAttachmentDescription`, of its operations and layouts; `clear` is
`VK_ATTACHMENT_LOAD_OP_CLEAR`. -/
structure AttachmentDescription where
  clear : Bool
  initialLayout : VkImageLayout
  finalLayout : VkImageLayout
  deriving DecidableEq, Repr

def getAttachmentDescription (textureType : TextureType) (clear : Bool) :
    AttachmentDescription :=
  let initialLayout : VkImageLayout := if clear then .undefined else .shaderReadOnly
  match textureType with
  | .color => ⟨clear, initialLayout, .shaderReadOnly⟩
  | .depth | .depthArray => ⟨clear, initialLayout, .depthStencilReadOnly⟩
  | .cube => ⟨clear, .colorAttachment, .colorAttachment⟩
  -- the description of an unsupported type is all zero
  | .other => ⟨false, .undefined, .undefined⟩

/-! ### Layouts -/

/-- A pass over a frame buffer: its attachments and the `clear` of its `RenderPassInfo`. -/
structure Pass (ι : Type) where
  attachments : List ι
  clear : Bool
  nodup : attachments.Nodup

variable {ι : Type} [DecidableEq ι]

/-- What a pass does with the layout of an attachment, if it is in the initial one; the
final layout may not be the undefined one. -/
def attach (textureType : TextureType) (clear : Bool) (layout : VkImageLayout) :
    Option VkImageLayout :=
  let description := getAttachmentDescription textureType clear
  if description.finalLayout ≠ .undefined ∧
      (description.initialLayout = .undefined ∨ description.initialLayout = layout) then
    some description.finalLayout
  else none

/-- What a pass does with the layout of an image. -/
def Pass.move (kind : ι → TextureType) (pass : Pass ι) (image : ι) (layout : VkImageLayout) :
    Option VkImageLayout :=
  if image ∈ pass.attachments then attach (kind image) pass.clear layout else some layout

/-- Passes, one after the other. -/
abbrev Passes (kind : ι → TextureType) : (ι → VkImageLayout) → List (Pass ι) →
    (ι → VkImageLayout) → Prop :=
  Run (Each (Pass.move kind))

/-- The `clear` of the passes that an image is attached to. -/
def uses (passes : List (Pass ι)) (image : ι) : List Bool :=
  (passes.filter fun pass => decide (image ∈ pass.attachments)).map Pass.clear

theorem uses_cons (pass : Pass ι) (passes : List (Pass ι)) (image : ι) :
    uses (pass :: passes) image =
      if image ∈ pass.attachments then pass.clear :: uses passes image else uses passes image := by
  unfold uses
  by_cases h : image ∈ pass.attachments <;> simp [h]

/-- What uses with these `clear` do with the layout of an attachment. -/
def attaches (textureType : TextureType) (layout : VkImageLayout) (clears : List Bool) :
    Option VkImageLayout :=
  clears.foldlM (fun layout clear => attach textureType clear layout) layout

@[simp] theorem attaches_nil (textureType : TextureType) (layout : VkImageLayout) :
    attaches textureType layout [] = some layout := rfl

@[simp] theorem attaches_cons (textureType : TextureType) (layout : VkImageLayout) (clear : Bool)
    (clears : List Bool) :
    attaches textureType layout (clear :: clears) =
      (attach textureType clear layout).bind fun layout => attaches textureType layout clears :=
  List.foldlM_cons

theorem follow_move (kind : ι → TextureType) (passes : List (Pass ι)) (image : ι)
    (layout : VkImageLayout) :
    follow (Pass.move kind) image passes layout =
      attaches (kind image) layout (uses passes image) := by
  induction passes generalizing layout with
  | nil => rfl
  | cons pass passes ih =>
      rw [follow_cons, uses_cons, Pass.move]
      split_ifs with h
      · rw [attaches_cons]
        exact congrArg _ (funext ih)
      · exact ih layout

/-- The uses of an image in a layout are accepted. -/
def Accepted (textureType : TextureType) (layout : VkImageLayout) (clears : List Bool) : Prop :=
  match textureType with
  | .color => clears.head? = some false → layout = .shaderReadOnly
  | .depth | .depthArray =>
    (clears.head? = some false → layout = .shaderReadOnly) ∧ ∀ clear ∈ clears.tail, clear = true
  | .cube => clears ≠ [] → layout = .colorAttachment
  | .other => clears = []

@[simp] theorem attach_color (clear : Bool) (layout : VkImageLayout) :
    attach .color clear layout =
      if clear = true ∨ layout = .shaderReadOnly then some .shaderReadOnly else none := by
  cases clear <;> simp [attach, getAttachmentDescription, eq_comm]

theorem attach_depth {textureType : TextureType} (hdepth : textureType.IsDepth) (clear : Bool)
    (layout : VkImageLayout) :
    attach textureType clear layout =
      if clear = true ∨ layout = .shaderReadOnly then some .depthStencilReadOnly else none := by
  rcases hdepth with rfl | rfl <;> cases clear <;>
    simp [attach, getAttachmentDescription, eq_comm]

@[simp] theorem attach_cube (clear : Bool) (layout : VkImageLayout) :
    attach .cube clear layout =
      if layout = .colorAttachment then some .colorAttachment else none := by
  simp [attach, getAttachmentDescription, eq_comm]

@[simp] theorem attach_other (clear : Bool) (layout : VkImageLayout) :
    attach .other clear layout = none := rfl

/-- After a use of a colour attachment every other use is accepted. -/
@[simp] theorem color_uses (clears : List Bool) :
    attaches .color .shaderReadOnly clears = some .shaderReadOnly := by
  induction clears with
  | nil => rfl
  | cons clear clears ih => simp [ih]

/-- After a use of a depth attachment every other use has to clear. -/
theorem depth_uses {textureType : TextureType} (hdepth : textureType.IsDepth)
    (clears : List Bool) :
    (attaches textureType .depthStencilReadOnly clears).isSome ↔
      ∀ clear ∈ clears, clear = true := by
  induction clears with
  | nil => simp
  | cons clear clears ih =>
      rw [attaches_cons, attach_depth hdepth]
      cases clear with
      | false => simp
      | true => simpa using ih

@[simp] theorem cube_uses (clears : List Bool) :
    attaches .cube .colorAttachment clears = some .colorAttachment := by
  induction clears with
  | nil => rfl
  | cons clear clears ih => simp [ih]

theorem accepted_depth_iff {textureType : TextureType} (hdepth : textureType.IsDepth)
    (layout : VkImageLayout) (clear : Bool) (clears : List Bool) :
    (attaches textureType layout (clear :: clears)).isSome ↔
      (clear = false → layout = .shaderReadOnly) ∧ ∀ clear ∈ clears, clear = true := by
  rw [attaches_cons, attach_depth hdepth]
  by_cases h : clear = true ∨ layout = .shaderReadOnly
  · have hfirst : clear = false → layout = .shaderReadOnly := fun hclear =>
      h.resolve_left (by simp [hclear])
    rw [if_pos h, Option.bind_some, depth_uses hdepth, and_iff_right hfirst]
  · obtain ⟨hclear, hlayout⟩ := not_or.mp h
    simp [hclear, hlayout]

theorem accepted_iff (textureType : TextureType) (layout : VkImageLayout) (clears : List Bool) :
    (attaches textureType layout clears).isSome ↔ Accepted textureType layout clears := by
  cases clears with
  | nil => cases textureType <;> simp [Accepted]
  | cons clear clears =>
      cases textureType with
      | color => by_cases h : layout = .shaderReadOnly <;> cases clear <;> simp [Accepted, h]
      | depth => simpa [Accepted] using accepted_depth_iff (.inl rfl) layout clear clears
      | depthArray => simpa [Accepted] using accepted_depth_iff (.inr rfl) layout clear clears
      | cube => by_cases h : layout = .colorAttachment <;> simp [Accepted, h]
      | other => simp [Accepted]

/-- A sequence of passes is accepted if and only if every image accepts its own uses. -/
theorem passes_iff (kind : ι → TextureType) (layout : ι → VkImageLayout)
    (passes : List (Pass ι)) :
    (∃ layout', Passes kind layout passes layout') ↔
      ∀ image, Accepted (kind image) (layout image) (uses passes image) := by
  rw [exists_run_iff]
  simp only [follow_move, accepted_iff]

/-! ### The renderers -/

/-- `RenderPassInfo`, with the types of its attachments. -/
structure RenderPassInfo where
  textureType : List TextureType
  clear : Bool := true
  deriving DecidableEq, Repr

inductive Renderer where
  | preProcess
  | shadow
  | omniShadow
  | deferredOffScreen
  | deferred
  | forward
  | skybox
  | grid
  | renderer2D (enableDepth : Bool)
  | line
  | imGui (clearScreen : Bool)
  deriving DecidableEq, Repr

/-- The render pass of a renderer. -/
def Renderer.renderPassInfo : Renderer → RenderPassInfo
  | .preProcess => ⟨[.color], true⟩
  | .shadow => ⟨[.depthArray], true⟩
  | .omniShadow => ⟨[.color, .depth], true⟩
  | .deferredOffScreen => ⟨[.color, .color, .color, .color, .depth], true⟩
  | .deferred => ⟨[.color], true⟩
  | .forward => ⟨[.color, .depth], true⟩
  | .skybox => ⟨[.color, .depth], false⟩
  | .grid => ⟨[.color, .depth], false⟩
  | .renderer2D enableDepth => ⟨if enableDepth then [.color, .depth] else [.color], false⟩
  | .line => ⟨[.color], false⟩
  | .imGui clearScreen => ⟨[.color], clearScreen⟩

/-- A renderer draws over what is there, and tests the depth. -/
def Renderer.TestsDepth : Renderer → Prop
  | .skybox | .grid | .renderer2D true => True
  | _ => False

instance : DecidablePred Renderer.TestsDepth := fun renderer => by
  unfold Renderer.TestsDepth
  split <;> infer_instance

/-- A pass of a renderer over a frame buffer with the attachments of its render pass. -/
structure Rendering (kind : ι → TextureType) where
  renderer : Renderer
  attachments : List ι
  nodup : attachments.Nodup
  types : attachments.map kind = renderer.renderPassInfo.textureType

variable {kind : ι → TextureType}

def Rendering.pass (rendering : Rendering kind) : Pass ι where
  attachments := rendering.attachments
  clear := rendering.renderer.renderPassInfo.clear
  nodup := rendering.nodup

/-- The first rendering to an image is by a renderer that clears. -/
def FirstClears (renderings : List (Rendering kind)) (image : ι) : Prop :=
  ∀ rendering, (renderings.find? fun rendering => decide (image ∈ rendering.attachments)) =
    some rendering → rendering.renderer.renderPassInfo.clear = true

/-- The layouts that images are made in: `VulkanTexture2D::buildTexture` leaves them
undefined, and the depth textures are brought into the layout of an attachment, an array with
its first layer only. -/
structure Made (kind : ι → TextureType) (layout : ι → VkImageLayout) : Prop where
  color : ∀ image, kind image = .color → layout image = .undefined
  depth : ∀ image, kind image = .depth → layout image = .depthStencilAttachment
  depthArray : ∀ image, kind image = .depthArray →
    layout image = .depthStencilAttachment ∨ layout image = .undefined

theorem testsDepth_iff (renderer : Renderer) :
    renderer.TestsDepth ↔ renderer.renderPassInfo.clear = false ∧
      ∃ textureType ∈ renderer.renderPassInfo.textureType, textureType.IsDepth := by
  cases renderer with
  | renderer2D enableDepth => cases enableDepth <;> decide
  | imGui clearScreen => cases clearScreen <;> decide
  | _ => decide

/-- No renderer has attachments other than colours and depths. -/
theorem renderer_types (renderer : Renderer) :
    ∀ textureType ∈ renderer.renderPassInfo.textureType,
      textureType = .color ∨ textureType.IsDepth := by
  cases renderer with
  | renderer2D enableDepth => cases enableDepth <;> decide
  | imGui clearScreen => cases clearScreen <;> decide
  | _ => decide

omit [DecidableEq ι] in
theorem Made.ne_shaderReadOnly {layout : ι → VkImageLayout} (hmade : Made kind layout) {image : ι}
    (himage : kind image = .color ∨ (kind image).IsDepth) : layout image ≠ .shaderReadOnly := by
  rcases himage with hcolor | hdepth | harray
  · simp [hmade.color image hcolor]
  · simp [hmade.depth image hdepth]
  · rcases hmade.depthArray image harray with h | h <;> simp [h]

omit [DecidableEq ι] in
theorem Rendering.kind_cases (rendering : Rendering kind) {image : ι}
    (himage : image ∈ rendering.attachments) : kind image = .color ∨ (kind image).IsDepth :=
  renderer_types _ _ (rendering.types ▸ List.mem_map_of_mem himage)

@[simp] theorem mem_uses {passes : List (Pass ι)} {image : ι} {clear : Bool} :
    clear ∈ uses passes image ↔
      ∃ pass ∈ passes, image ∈ pass.attachments ∧ pass.clear = clear := by
  simp [uses, and_assoc]

/-- A colour image accepts its uses if and only if the first of them clears it. -/
theorem accepted_color_iff {layout : ι → VkImageLayout} (hmade : Made kind layout) {image : ι}
    (hcolor : kind image = .color) (renderings : List (Rendering kind)) :
    Accepted (kind image) (layout image) (uses (renderings.map Rendering.pass) image) ↔
      FirstClears renderings image := by
  have hhead : (uses (renderings.map Rendering.pass) image).head? =
      (renderings.find? fun rendering => decide (image ∈ rendering.attachments)).map
        fun rendering => rendering.renderer.renderPassInfo.clear := by
    rw [uses, List.head?_map, List.head?_filter, List.find?_map, Option.map_map]
    rfl
  have hlayout := hmade.ne_shaderReadOnly (.inl hcolor)
  simp only [Accepted, hcolor, hhead, hlayout, FirstClears, imp_false]
  cases (renderings.find? fun rendering => decide (image ∈ rendering.attachments)) <;> simp

theorem accepted_depth {layout : ι → VkImageLayout} (hmade : Made kind layout) {image : ι}
    (hdepth : (kind image).IsDepth) (renderings : List (Rendering kind)) :
    Accepted (kind image) (layout image) (uses (renderings.map Rendering.pass) image) ↔
      ∀ clear ∈ uses (renderings.map Rendering.pass) image, clear = true := by
  have hlayout := hmade.ne_shaderReadOnly (.inr hdepth)
  generalize uses (renderings.map Rendering.pass) image = clears
  cases clears with
  | nil => rcases hdepth with h | h <;> simp [Accepted, h]
  | cons clear clears => rcases hdepth with h | h <;> simp [Accepted, h, hlayout]

theorem exists_passes_iff {layout : ι → VkImageLayout} (hmade : Made kind layout)
    (renderings : List (Rendering kind)) :
    (∃ layout', Passes kind layout (renderings.map Rendering.pass) layout') ↔
      (∀ rendering ∈ renderings, ¬ rendering.renderer.TestsDepth) ∧
        ∀ image, kind image = .color → FirstClears renderings image := by
  rw [passes_iff]
  constructor
  · intro haccepted
    refine ⟨fun rendering hmem htests => ?_, fun image hcolor =>
      (accepted_color_iff hmade hcolor _).mp (haccepted image)⟩
    obtain ⟨hclear, textureType, htype, hdepth⟩ := (testsDepth_iff _).mp htests
    rw [← rendering.types] at htype
    obtain ⟨image, himage, rfl⟩ := List.mem_map.mp htype
    have huse : false ∈ uses (renderings.map Rendering.pass) image :=
      mem_uses.mpr ⟨rendering.pass, List.mem_map_of_mem hmem, himage, hclear⟩
    simpa using (accepted_depth hmade hdepth _).mp (haccepted image) false huse
  · rintro ⟨htests, hfirst⟩ image
    by_cases hcolor : kind image = .color
    · exact (accepted_color_iff hmade hcolor _).mpr (hfirst image hcolor)
    by_cases hdepth : (kind image).IsDepth
    · refine (accepted_depth hmade hdepth _).mpr fun clear huse => ?_
      obtain ⟨pass, hpass, himage, rfl⟩ := mem_uses.mp huse
      obtain ⟨rendering, hmem, rfl⟩ := List.mem_map.mp hpass
      by_contra hclear
      exact htests rendering hmem ((testsDepth_iff _).mpr ⟨eq_false_of_ne_true hclear,
        kind image, rendering.types ▸ List.mem_map_of_mem himage, hdepth⟩)
    · -- no renderer draws to an image of another kind
      have hunused : uses (renderings.map Rendering.pass) image = [] := by
        refine List.eq_nil_iff_forall_not_mem.mpr fun clear huse => ?_
        obtain ⟨pass, hpass, himage, rfl⟩ := mem_uses.mp huse
        obtain ⟨rendering, -, rfl⟩ := List.mem_map.mp hpass
        rcases rendering.kind_cases himage with h | h <;> contradiction
      rw [hunused, ← accepted_iff]
      rfl

/-- A render pass never brings an image into the layout for presentation, or into the
general one. -/
theorem attach_cases {textureType : TextureType} {clear : Bool} {layout layout' : VkImageLayout}
    (hattach : attach textureType clear layout = some layout') :
    layout' ≠ .presentSrc ∧ layout' ≠ .general := by
  have hfinal : layout' = (getAttachmentDescription textureType clear).finalLayout := by
    simp only [attach] at hattach
    split_ifs at hattach
    exact (Option.some.inj hattach).symm
  cases textureType <;> simp [hfinal, getAttachmentDescription]

theorem passes_layout {layout layout' : ι → VkImageLayout} {passes : List (Pass ι)}
    (hpasses : Passes kind layout passes layout') {image : ι}
    (himage : layout image ≠ .presentSrc ∧ layout image ≠ .general) :
    layout' image ≠ .presentSrc ∧ layout' image ≠ .general := by
  refine hpasses.state_invariant
    (I := fun layout => layout image ≠ .presentSrc ∧ layout image ≠ .general) himage
    fun layout pass layout' hkept hmove => ?_
  have hstep := hmove image
  rw [Pass.move] at hstep
  split_ifs at hstep
  · exact attach_cases hstep
  · rwa [← Option.some.inj hstep]

/-- Frames of the renderers are accepted if and only if none of them draws over depth without
clearing it, and every image is cleared by the first one that draws to it. Never is an
image in the layout for presentation, or in the general one, which the descriptors of
colour and depth textures name. -/
theorem renderings_iff {layout : ι → VkImageLayout} (hmade : Made kind layout)
    (renderings : List (Rendering kind)) :
    ((∃ layout', Passes kind layout (renderings.map Rendering.pass) layout') ↔
      (∀ rendering ∈ renderings, ¬ rendering.renderer.TestsDepth) ∧
        ∀ image, kind image = .color → FirstClears renderings image) ∧
    ∀ layout', Passes kind layout (renderings.map Rendering.pass) layout' →
      ∀ image, kind image = .color ∨ (kind image).IsDepth →
        layout' image ≠ .presentSrc ∧ layout' image ≠ .general := by
  refine ⟨exists_passes_iff hmade renderings, fun layout' hpasses image himage =>
    passes_layout hpasses ?_⟩
  rcases himage with hcolor | hdepth | harray
  · simp [hmade.color image hcolor]
  · simp [hmade.depth image hdepth]
  · rcases hmade.depthArray image harray with h | h <;> simp [h]

/-- A swap chain image and a depth buffer. -/
private def screen : Bool → TextureType
  | false => .color
  | true => .depth

private def screenLayout : Bool → VkImageLayout
  | false => .undefined
  | true => .depthStencilAttachment

/-- The sky over what was drawn. -/
private def skyFrame : List (Rendering screen) :=
  [⟨.deferred, [false], by decide, rfl⟩, ⟨.skybox, [false, true], by decide, rfl⟩]

private theorem screen_made : Made screen screenLayout where
  color image h := by cases image <;> simp_all [screen, screenLayout]
  depth image h := by cases image <;> simp_all [screen, screenLayout]
  depthArray image h := by cases image <;> simp_all [screen]

theorem renderings_iff_sky :
    ¬ ∃ layout', Passes screen screenLayout (skyFrame.map Rendering.pass) layout' := by
  rw [(renderings_iff screen_made skyFrame).1]
  intro h
  exact h.1 ⟨.skybox, [false, true], by decide, rfl⟩ (by simp [skyFrame]) trivial

end Maple.Vulkan
