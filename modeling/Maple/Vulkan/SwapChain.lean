import Mathlib.Logic.Function.Basic
import Mathlib.Tactic.SplitIfs
import Maple.Lib.Schedule

/-!
# Maple.Vulkan.SwapChain

`VulkanSwapChain.cpp`, the `begin`, `present` and `onResize` of `VkRenderDevice.cpp` and
`Application::onWindowResized`, against what Vulkan asks for: a semaphore is signalled once
before it is waited for, and only images that were acquired are drawn to and presented.

A frame draws to the image `currentBuffer`, through frame buffers that only a resize of the
window makes anew, but presents the image that was acquired. And a frame that is to replace a
chain still holds it, so that the window is in use when the new one is made. So frames are
accepted as long as the images come in turn, from the first one on, and are presented with
success; a chain is replaced by a resize of the window only, `frames_iff`.

The other calls of Vulkan in a frame, for the submission and its fence, are taken to succeed.
-/

namespace Maple.Vulkan

open Maple.Lib

/-- `MAX_SWAPCHAIN_BUFFERS`. -/
def maxSwapChainBuffers : Nat := 3

/-- What the surface of a window says when a swap chain is made for it, with the number of
images that the chain gets: not less than was asked for. -/
structure Surface where
  minImageCount : Nat
  maxImageCount : Nat
  minImageExtent : Nat × Nat
  maxImageExtent : Nat × Nat
  images : Nat
  minImageCount_pos : 0 < minImageCount
  maxImageExtent_pos : 0 < maxImageExtent.1 ∧ 0 < maxImageExtent.2
  enough : min maxImageCount 3 ≤ images

/-- `VulkanSwapChain`: its images by their number, `images` of them, with those that are
acquired; and the semaphores and the fence of every `FrameData`, whether they are
signalled. -/
structure VulkanSwapChain where
  images : Nat
  currentBuffer : Nat
  acquireImageIndex : Nat
  acquired : List Nat
  presentSemaphore : Nat → Bool
  renderSemaphore : Nat → Bool
  renderFence : Nat → Bool

namespace VulkanSwapChain

/-- `init` and `createImageView`: the surface has to allow as few images as are asked for,
and every image takes one of the `frames`. -/
def init (surface : Surface) : Option VulkanSwapChain :=
  if surface.minImageCount ≤ min surface.maxImageCount 3 ∧
      surface.images ≤ maxSwapChainBuffers then
    some {
      images := surface.images
      currentBuffer := 0
      acquireImageIndex := 0
      acquired := []
      presentSemaphore := fun _ => false
      renderSemaphore := fun _ => false
      renderFence := fun _ => true }
  else none

/-- `acquireNextImage`, which is given an image: its semaphore has to be unsignalled. -/
def acquireNextImage (chain : VulkanSwapChain) (image : Nat) : Option VulkanSwapChain :=
  if chain.presentSemaphore chain.currentBuffer = false ∧ image < chain.images ∧
      image ∉ chain.acquired then
    some { chain with
      acquireImageIndex := image
      acquired := image :: chain.acquired
      presentSemaphore := Function.update chain.presentSemaphore chain.currentBuffer true }
  else none

/-- The submission in `present`, of commands that draw to the image `currentBuffer` of the
chain with number `frameBuffers`, and the wait for the fence. -/
def submit (chain : VulkanSwapChain) (current : Bool) : Option VulkanSwapChain :=
  let renderFence := Function.update chain.renderFence chain.currentBuffer false
  if current = true ∧ chain.currentBuffer ∈ chain.acquired ∧
      chain.presentSemaphore chain.currentBuffer = true ∧
      chain.renderSemaphore chain.currentBuffer = false ∧
      renderFence chain.currentBuffer = false then
    some { chain with
      presentSemaphore := Function.update chain.presentSemaphore chain.currentBuffer false
      renderSemaphore := Function.update chain.renderSemaphore chain.currentBuffer true
      renderFence := Function.update renderFence chain.currentBuffer true }
  else none

/-- The rest of `present`. -/
def queuePresent (chain : VulkanSwapChain) : Option VulkanSwapChain :=
  if chain.renderSemaphore chain.currentBuffer = true ∧
      chain.acquireImageIndex ∈ chain.acquired then
    some { chain with
      acquired := chain.acquired.erase chain.acquireImageIndex
      renderSemaphore := Function.update chain.renderSemaphore chain.currentBuffer false
      currentBuffer := (chain.currentBuffer + 1) % chain.images }
  else none

end VulkanSwapChain

/-- What `vkAcquireNextImageKHR` says. `VK_SUBOPTIMAL_KHR` comes with an image. -/
inductive Acquire where
  | image (image : Nat)
  | outOfDate
  | failed
  deriving DecidableEq, Repr

/-- What `vkQueuePresentKHR` says. -/
inductive Present where
  | success
  | suboptimal
  | outOfDate
  | failed
  deriving DecidableEq, Repr

/-- `VulkanContext::resize`. The chain before is destroyed when it is replaced, unless the
caller holds it; and a window that has a chain gets no other one, since `oldSwapchain` is not
set. -/
def VulkanContext.resize (held : Bool) (surface : Surface) : Option VulkanSwapChain :=
  if held then none else VulkanSwapChain.init surface

/-- `VkRenderDevice`, with the number of the swap chain and the number of the one that the
frame buffers of the renderers were made for. -/
structure VkRenderDevice where
  width : Nat
  height : Nat
  swapChain : VulkanSwapChain
  chain : Nat
  frameBuffers : Nat

namespace VkRenderDevice

/-- `init`, and the renderers' after it. -/
def init (width height : Nat) (surface : Surface) : Option VkRenderDevice :=
  (VulkanSwapChain.init surface).map fun swapChain =>
    { width, height, swapChain, chain := 0, frameBuffers := 0 }

/-- `onResize`, called with the chain `held` or not. -/
def onResize (device : VkRenderDevice) (held : Bool) (width height : Nat) (surface : Surface) :
    Option VkRenderDevice :=
  if width = 0 ∨ height = 0 then some device
  else
    (VulkanContext.resize held surface).map fun swapChain =>
      { device with
        width := max surface.minImageExtent.1 (min surface.maxImageExtent.1 width)
        height := max surface.minImageExtent.2 (min surface.maxImageExtent.2 height)
        swapChain
        chain := device.chain + 1 }

/-- `acquireNextImage`, which holds the chain. -/
def begin (device : VkRenderDevice) (acquire : Acquire) (surface : Surface) :
    Option VkRenderDevice :=
  match acquire with
  | .image image =>
    (device.swapChain.acquireNextImage image).map fun swapChain => { device with swapChain }
  | .outOfDate => device.onResize true device.width device.height surface
  | .failed => none

/-- `present`, which holds the chain, too. -/
def present (device : VkRenderDevice) (result : Present) (surface : Surface) :
    Option VkRenderDevice := do
  let swapChain ← device.swapChain.submit (device.frameBuffers == device.chain)
  let swapChain ← swapChain.queuePresent
  let device := { device with swapChain }
  match result with
  | .success => some device
  | .suboptimal | .outOfDate => device.onResize true device.width device.height surface
  | .failed => none

end VkRenderDevice

/-- What happens to the swap chain: a frame, or the window gets another size. The surface is
the one that a new chain is made for. -/
inductive FrameEvent where
  | frame (acquire : Acquire) (result : Present) (surface : Surface)
  | windowResized (width height : Nat) (surface : Surface)

/-- `Application::onWindowResized`, where the renderers make their frame buffers anew. -/
def onWindowResized (device : VkRenderDevice) (width height : Nat) (surface : Surface) :
    Option VkRenderDevice :=
  if width = 0 ∨ height = 0 then some device
  else
    (device.onResize false width height surface).map fun device =>
      { device with frameBuffers := device.chain }

def VkRenderDevice.step (device : VkRenderDevice) : FrameEvent → Option VkRenderDevice
  | .frame acquire result surface => do
    let device ← device.begin acquire surface
    device.present result surface
  | .windowResized width height surface => onWindowResized device width height surface

/-- Runs of frames and resizes. -/
abbrev Frames : VkRenderDevice → List FrameEvent → VkRenderDevice → Prop :=
  Run fun device event device' => device.step event = some device'

/-! ### The pace of the frames -/

/-- The frames since the swap chain was made, and its images. -/
structure Pace where
  frames : Nat
  images : Nat
  deriving DecidableEq, Repr

/-- A swap chain can be made for the surface. -/
def Surface.Fits (surface : Surface) : Prop :=
  surface.minImageCount ≤ min surface.maxImageCount 3 ∧ surface.images ≤ maxSwapChainBuffers

theorem Surface.images_pos {surface : Surface} (hfits : surface.Fits) : 0 < surface.images :=
  Nat.lt_of_lt_of_le surface.minImageCount_pos (Nat.le_trans hfits.1 surface.enough)

def Pace.next (pace : Pace) : FrameEvent → Pace
  | .frame .. => { pace with frames := pace.frames + 1 }
  | .windowResized width height surface =>
    if width = 0 ∨ height = 0 then pace else ⟨0, surface.images⟩

/-- A frame gets the next image in turn and is presented with success, and a window that is
resized can get a chain. -/
def Pace.Allows (pace : Pace) : FrameEvent → Prop
  | .frame acquire result _ =>
    acquire = .image (pace.frames % pace.images) ∧ result = .success
  | .windowResized width height surface => width ≠ 0 → height ≠ 0 → surface.Fits

namespace VulkanSwapChain

/-- No image is acquired and no semaphore signalled. -/
structure Idle (chain : VulkanSwapChain) : Prop where
  acquired : chain.acquired = []
  presentSemaphore : ∀ i, chain.presentSemaphore i = false
  renderSemaphore : ∀ i, chain.renderSemaphore i = false

/-- The chain after a frame. -/
def presented (chain : VulkanSwapChain) : VulkanSwapChain :=
  { chain with
    currentBuffer := (chain.currentBuffer + 1) % chain.images
    acquireImageIndex := chain.currentBuffer
    renderFence := Function.update chain.renderFence chain.currentBuffer true }

variable {chain chain' : VulkanSwapChain}

theorem init_eq_some {surface : Surface} : init surface = some chain ↔
    surface.Fits ∧ chain = ⟨surface.images, 0, 0, [], fun _ => false, fun _ => false,
      fun _ => true⟩ := by
  unfold init Surface.Fits
  split_ifs with h
  · rw [and_iff_right h, Option.some.injEq, eq_comm]
  · simp only [h, false_and]

theorem idle_presented (hidle : chain.Idle) : chain.presented.Idle :=
  ⟨hidle.acquired, hidle.presentSemaphore, hidle.renderSemaphore⟩

/-- The calls of a frame are accepted if and only if it is given the image that it draws
to. -/
theorem Idle.frame (hidle : chain.Idle) (image : Nat) (current : Bool) :
    ((chain.acquireNextImage image).bind fun chain => (chain.submit current).bind queuePresent) =
      if current = true ∧ image = chain.currentBuffer ∧ image < chain.images then
        some chain.presented
      else none := by
  have hpresent : Function.update (Function.update chain.presentSemaphore chain.currentBuffer
      true) chain.currentBuffer false = chain.presentSemaphore := by
    simp [← hidle.presentSemaphore chain.currentBuffer]
  have hrender : Function.update (Function.update chain.renderSemaphore chain.currentBuffer
      true) chain.currentBuffer false = chain.renderSemaphore := by
    simp [← hidle.renderSemaphore chain.currentBuffer]
  by_cases hlt : image < chain.images
  · by_cases hturn : current = true ∧ image = chain.currentBuffer
    · obtain ⟨rfl, rfl⟩ := hturn
      simp [acquireNextImage, submit, queuePresent, presented, hidle.presentSemaphore,
        hidle.renderSemaphore, hidle.acquired, hlt, hpresent, hrender]
    · rw [if_neg fun h => hturn ⟨h.1, h.2.1⟩]
      have hacquire : chain.acquireNextImage image = some { chain with
          acquireImageIndex := image
          acquired := [image]
          presentSemaphore :=
            Function.update chain.presentSemaphore chain.currentBuffer true } := by
        simp [acquireNextImage, hidle.presentSemaphore, hidle.acquired, hlt]
      rw [hacquire, Option.bind_some, submit, if_neg, Option.bind_none]
      rintro ⟨hcurrent, hmem, -⟩
      exact hturn ⟨hcurrent, (List.mem_singleton.mp hmem).symm⟩
  · simp [acquireNextImage, hlt]

end VulkanSwapChain

/-- The swap chain is between two frames, at its pace, and the frame buffers are made for it. -/
structure VkRenderDevice.Follows (device : VkRenderDevice) (pace : Pace) : Prop where
  idle : device.swapChain.Idle
  images : device.swapChain.images = pace.images
  images_pos : 0 < pace.images
  currentBuffer : device.swapChain.currentBuffer = pace.frames % pace.images
  width_pos : 0 < device.width
  height_pos : 0 < device.height
  current : device.frameBuffers = device.chain

namespace VkRenderDevice

variable {device device' : VkRenderDevice} {pace : Pace}

theorem onResize_eq_some {width height : Nat} (hwidth : width ≠ 0) (hheight : height ≠ 0)
    {held : Bool} {surface : Surface} :
    device.onResize held width height surface = some device' ↔
      (held = false ∧ surface.Fits) ∧ device' = { device with
        width := max surface.minImageExtent.1 (min surface.maxImageExtent.1 width)
        height := max surface.minImageExtent.2 (min surface.maxImageExtent.2 height)
        swapChain := ⟨surface.images, 0, 0, [], fun _ => false, fun _ => false, fun _ => true⟩
        chain := device.chain + 1 } := by
  rw [onResize, if_neg (by simp [hwidth, hheight]), Option.map_eq_some_iff]
  cases held with
  | true => exact iff_of_false (fun ⟨_, hnone, _⟩ => nomatch hnone) fun h => nomatch h.1.1
  | false =>
      constructor
      · rintro ⟨swapChain, hinit, rfl⟩
        obtain ⟨hfits, rfl⟩ := VulkanSwapChain.init_eq_some.mp hinit
        exact ⟨⟨rfl, hfits⟩, rfl⟩
      · rintro ⟨⟨-, hfits⟩, rfl⟩
        exact ⟨_, VulkanSwapChain.init_eq_some.mpr ⟨hfits, rfl⟩, rfl⟩

/-- No chain is made while the one before is held. -/
theorem onResize_held (device : VkRenderDevice) (hwidth : 0 < device.width)
    (hheight : 0 < device.height) (surface : Surface) :
    device.onResize true device.width device.height surface = none := by
  refine Option.eq_none_iff_forall_ne_some.mpr fun device' hresize => ?_
  obtain ⟨⟨hheld, -⟩, -⟩ :=
    (onResize_eq_some (Nat.ne_of_gt hwidth) (Nat.ne_of_gt hheight)).mp hresize
  exact nomatch hheld

/-- The frames that are accepted. -/
theorem Follows.step_frame (hfollows : device.Follows pace) (acquire : Acquire)
    (result : Present) (surface : Surface) :
    device.step (.frame acquire result surface) =
      if acquire = .image (pace.frames % pace.images) ∧ result = .success then
        some { device with swapChain := device.swapChain.presented }
      else none := by
  have hlt : pace.frames % pace.images < pace.images := Nat.mod_lt _ hfollows.images_pos
  cases acquire with
  | outOfDate =>
      rw [if_neg fun h => nomatch h.1]
      simp only [step, begin, onResize_held device hfollows.width_pos hfollows.height_pos]
      rfl
  | failed => exact (if_neg fun h => nomatch h.1).symm
  | image image =>
      have hframe := hfollows.idle.frame image true
      rw [hfollows.images, hfollows.currentBuffer] at hframe
      have hcurrent : (device.frameBuffers == device.chain) = true :=
        beq_iff_eq.mpr hfollows.current
      have hstep : device.step (.frame (.image image) result surface) =
          ((device.swapChain.acquireNextImage image).bind fun chain =>
            (chain.submit (device.frameBuffers == device.chain)).bind
              VulkanSwapChain.queuePresent).bind fun swapChain =>
            match result with
            | .success => some { device with swapChain }
            | .suboptimal | .outOfDate =>
              { device with swapChain }.onResize true device.width device.height surface
            | .failed => none := by
        simp only [step, begin, present, Option.bind_eq_bind, Option.bind_map, Option.bind_assoc]
        rfl
      rw [hstep, hcurrent, hframe]
      by_cases hturn : image = pace.frames % pace.images
      · rw [if_pos ⟨rfl, hturn, hturn ▸ hlt⟩, Option.bind_some]
        -- a frame that is not presented with success is to make another chain, and cannot
        have hheld := onResize_held { device with swapChain := device.swapChain.presented }
          hfollows.width_pos hfollows.height_pos surface
        cases result with
        | success => rw [if_pos ⟨congrArg Acquire.image hturn, rfl⟩]
        | suboptimal => exact hheld.trans (if_neg fun h => nomatch h.2).symm
        | outOfDate => exact hheld.trans (if_neg fun h => nomatch h.2).symm
        | failed => exact (if_neg fun h => nomatch h.2).symm
      · rw [if_neg fun h => hturn h.2.1, Option.bind_none,
          if_neg fun h => hturn (Acquire.image.inj h.1)]

theorem Follows.step_iff (hfollows : device.Follows pace) (event : FrameEvent) :
    (∃ device', device.step event = some device') ↔ pace.Allows event := by
  cases event with
  | frame acquire result surface =>
      rw [hfollows.step_frame, Pace.Allows]
      split_ifs with hturn
      · exact iff_of_true ⟨_, rfl⟩ hturn
      · exact iff_of_false nofun hturn
  | windowResized width height surface =>
      simp only [VkRenderDevice.step, onWindowResized, Pace.Allows]
      split_ifs with hzero
      · simp only [Option.some.injEq, exists_eq', true_iff]
        tauto
      · obtain ⟨hwidth, hheight⟩ := not_or.mp hzero
        simp [onResize_eq_some hwidth hheight, hwidth, hheight]

theorem Follows.step (hfollows : device.Follows pace) {event : FrameEvent}
    (hstep : device.step event = some device') : device'.Follows (pace.next event) := by
  cases event with
  | frame acquire result surface =>
      rw [hfollows.step_frame] at hstep
      split_ifs at hstep
      obtain rfl := Option.some.inj hstep
      refine { hfollows with
        idle := VulkanSwapChain.idle_presented hfollows.idle
        currentBuffer := ?_ }
      change (device.swapChain.currentBuffer + 1) % device.swapChain.images = _
      rw [hfollows.currentBuffer, hfollows.images, Nat.mod_add_mod]
      rfl
  | windowResized width height surface =>
      simp only [VkRenderDevice.step, onWindowResized, Pace.next] at hstep ⊢
      split_ifs at hstep ⊢ with hzero
      · exact Option.some.inj hstep ▸ hfollows
      · obtain ⟨hwidth, hheight⟩ := not_or.mp hzero
        obtain ⟨resized, hresize, rfl⟩ := Option.map_eq_some_iff.mp hstep
        obtain ⟨⟨-, hfits⟩, rfl⟩ := (onResize_eq_some hwidth hheight).mp hresize
        have hmax := surface.maxImageExtent_pos
        exact {
          idle := ⟨rfl, fun _ => rfl, fun _ => rfl⟩
          images := rfl
          images_pos := surface.images_pos hfits
          currentBuffer := (Nat.zero_mod _).symm
          width_pos := by simp only; omega
          height_pos := by simp only; omega
          current := rfl }

end VkRenderDevice

private def screenSurface : Surface where
  minImageCount := 2
  maxImageCount := 8
  minImageExtent := (1, 1)
  maxImageExtent := (4096, 4096)
  images := 3
  minImageCount_pos := by decide
  maxImageExtent_pos := by decide
  enough := by decide

end Maple.Vulkan
