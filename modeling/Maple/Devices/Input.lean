import Mathlib.Algebra.Group.Int.Defs
import Mathlib.Logic.Function.Basic
import Mathlib.Tactic.SplitIfs
import Maple.Lib.Run

/-!
# Maple.Devices.Input

`Input` of `Devices/Input.cpp`, the callbacks of `WindowWin::registerNativeEvent` that post
its events, and the loop of `Application::start` that delivers them: `resetPressed`, then the
windows of the editor and the systems with the scripts, `dispatchEvents`, and then cameras
and renderers.

What `isKeyPressed`, `isMouseClicked` and `getScrollOffset` say lasts from `dispatchEvents`
to the next `resetPressed`, so that scripts and windows never read it, `frames_read`. The
arrays are written at codes that are not checked, `frames_safe_iff`.
-/

namespace Maple.Devices

/-- `MAX_KEYS`. -/
def maxKeys : Nat := 1024

/-- `MAX_BUTTONS`. -/
def maxButtons : Nat := 32

/-- The events that `Input` handles. A code of a key is 16 bits wide, the one of a button is
an `int32_t`. -/
inductive InputEvent (P R : Type) where
  | keyPressed (keyCode : UInt16) (repeatCount : Int)
  | keyReleased (keyCode : UInt16)
  | mouseClicked (buttonId : Int) (position : P)
  | mouseReleased (buttonId : Int) (position : P)
  | mouseScrolled (xOffset yOffset : R) (position : P)
  | mouseMove (position : P)
  deriving DecidableEq, Repr

structure Input (P R : Type) where
  keyPressed : Fin maxKeys → Bool
  keyHeld : Fin maxKeys → Bool
  mouseHeld : Fin maxButtons → Bool
  mouseClicked : Fin maxButtons → Bool
  scrollOffset : R
  mouseOnScreen : Bool
  windowFocus : Bool
  mousePosition : P

/-- A write to an array, if the index is one of it. -/
def write {n : Nat} (array : Fin n → Bool) (index : Int) (value : Bool) : Option (Fin n → Bool) :=
  if h : 0 ≤ index ∧ index.toNat < n then
    some (Function.update array ⟨index.toNat, h.2⟩ value)
  else none

theorem write_apply {n : Nat} {array array' : Fin n → Bool} {index : Int} {value : Bool}
    (hwrite : write array index value = some array') (i : Fin n) :
    array' i = if index = i then value else array i := by
  unfold write at hwrite
  split_ifs at hwrite with h
  obtain rfl := Option.some.inj hwrite
  have hindex : i = ⟨index.toNat, h.2⟩ ↔ index = i := by
    rw [Fin.ext_iff]
    simp only
    omega
  simp [Function.update_apply, hindex]

namespace Input

variable {P R : Type}

def setKeyPressed (input : Input P R) (key : UInt16) (a : Bool) : Option (Input P R) :=
  (write input.keyPressed key.toNat a).map fun keyPressed => { input with keyPressed }

def setKeyHeld (input : Input P R) (key : UInt16) (a : Bool) : Option (Input P R) :=
  (write input.keyHeld key.toNat a).map fun keyHeld => { input with keyHeld }

def setMouseClicked (input : Input P R) (key : Int) (a : Bool) : Option (Input P R) :=
  (write input.mouseClicked key a).map fun mouseClicked => { input with mouseClicked }

def setMouseHeld (input : Input P R) (key : Int) (a : Bool) : Option (Input P R) :=
  (write input.mouseHeld key a).map fun mouseHeld => { input with mouseHeld }

/-- `onKeyPressed`, `onKeyReleased`, `onMousePressed`, `onMouseReleased`, `onMouseScrolled` and
`onMouseMoved`, which all leave the event to the next handler. -/
def on (input : Input P R) : InputEvent P R → Option (Input P R)
  | .keyPressed keyCode repeatCount => do
    let input ← input.setKeyPressed keyCode (decide (repeatCount < 1))
    input.setKeyHeld keyCode true
  | .keyReleased keyCode => do
    let input ← input.setKeyPressed keyCode false
    input.setKeyHeld keyCode false
  | .mouseClicked buttonId _ => do
    let input ← input.setMouseClicked buttonId true
    input.setMouseHeld buttonId true
  | .mouseReleased buttonId _ => do
    let input ← input.setMouseClicked buttonId false
    input.setMouseHeld buttonId false
  | .mouseScrolled _ yOffset _ => some { input with scrollOffset := yOffset }
  | .mouseMove position => some { input with mousePosition := position }

/-- What an event of a key does: both arrays are written. -/
theorem setKey_eq_some {input input' : Input P R} {key : UInt16} {pressed held : Bool} :
    (input.setKeyPressed key pressed).bind (fun input => input.setKeyHeld key held) =
        some input' ↔
      ∃ keyPressed keyHeld, write input.keyPressed key.toNat pressed = some keyPressed ∧
        write input.keyHeld key.toNat held = some keyHeld ∧
        { input with keyPressed, keyHeld } = input' := by
  simp [setKeyPressed, setKeyHeld, Option.bind_eq_some_iff]

theorem setMouse_eq_some {input input' : Input P R} {key : Int} {clicked held : Bool} :
    (input.setMouseClicked key clicked).bind (fun input => input.setMouseHeld key held) =
        some input' ↔
      ∃ mouseClicked mouseHeld, write input.mouseClicked key clicked = some mouseClicked ∧
        write input.mouseHeld key held = some mouseHeld ∧
        { input with mouseClicked, mouseHeld } = input' := by
  simp [setMouseClicked, setMouseHeld, Option.bind_eq_some_iff]

variable [Zero R]

def reset (input : Input P R) : Input P R where
  keyHeld _ := false
  keyPressed _ := false
  mouseClicked _ := false
  mouseHeld _ := false
  mouseOnScreen := true
  windowFocus := true
  scrollOffset := 0
  mousePosition := input.mousePosition

def resetPressed (input : Input P R) : Input P R :=
  { input with keyPressed := fun _ => false, mouseClicked := fun _ => false, scrollOffset := 0 }

end Input

/-! ### The window -/

/-- The actions of a key or button. -/
inductive NativeAction where
  | press
  | release
  | repeated
  deriving DecidableEq, Repr

/-- A button, as `switch (btnId)` of the mouse button callback tells them apart. -/
inductive NativeButton where
  | left
  | middle
  | right
  | other
  deriving DecidableEq, Repr

/-- What the window reports to a callback. -/
inductive NativeEvent (P R : Type) where
  | key (key : Int) (action : NativeAction)
  | mouseButton (btnId : NativeButton) (state : NativeAction) (position : P)
  | cursorPos (position : P)
  | scroll (xOffset yOffset : R) (position : P)
  deriving DecidableEq, Repr

def NativeButton.btn : NativeButton → Int
  | .left => 0
  | .middle => 1
  | .right => 2
  | .other => -1

/-- The event that a callback posts. -/
def NativeEvent.posted {P R : Type} : NativeEvent P R → InputEvent P R
  | .key code .press => .keyPressed (UInt16.ofInt code) 0
  | .key code .release => .keyReleased (UInt16.ofInt code)
  | .key code .repeated => .keyPressed (UInt16.ofInt code) 1
  | .mouseButton btnId .release position => .mouseReleased btnId.btn position
  | .mouseButton btnId _ position => .mouseClicked btnId.btn position
  | .cursorPos position => .mouseMove position
  | .scroll xOffset yOffset position => .mouseScrolled xOffset yOffset position

/-! ### The loop -/

/-- What happened to the input. -/
inductive Moment (P R : Type) where
  | resetPressed
  | delivered (e : InputEvent P R)
  deriving DecidableEq, Repr

/-- The last moment that says something about a value decides it. -/
def latest {P R V : Type} (tells : Moment P R → Option V) (value : V)
    (history : List (Moment P R)) : V :=
  (history.findSome? tells).getD value

@[simp] theorem latest_nil {P R V : Type} (tells : Moment P R → Option V) (value : V) :
    latest tells value [] = value := rfl

@[simp] theorem latest_cons {P R V : Type} (tells : Moment P R → Option V) (value : V)
    (moment : Moment P R) (history : List (Moment P R)) :
    latest tells value (moment :: history) = (tells moment).getD (latest tells value history) := by
  unfold latest
  cases h : tells moment <;> simp [h]

/-- Where a round of the loop is. -/
inductive Phase where
  /-- Before `resetPressed`. -/
  | start
  /-- In `ImGui_ImplGlfw_NewFrame`, `apply`, `executeAll` or one of `onImGui`, the systems and
  `window->onUpdate` of `onUpdate`. -/
  | update
  /-- In `dispatchEvents`. -/
  | dispatch
  /-- In `onUpdate` of the render managers and the editor, or in `onRender`. -/
  | render
  deriving DecidableEq, Repr

/-- The loop, with a history of what happened to the input, newest first. -/
structure Loop (P R : Type) where
  phase : Phase
  input : Input P R
  eventQueue : List (InputEvent P R)
  history : List (Moment P R)

inductive Tick (P R : Type) where
  | native (e : NativeEvent P R)
  | resetPressed
  | dispatchEvents
  | deliver
  | drained
  | present
  deriving DecidableEq, Repr

variable {P R : Type} [Zero R]

/-- One step of the loop. Events are posted at any time. -/
def Loop.step (loop : Loop P R) : Tick P R → Option (Loop P R)
  | .native e => some { loop with eventQueue := loop.eventQueue ++ [e.posted] }
  | .resetPressed =>
    if loop.phase = .start then
      some { loop with
        phase := .update
        input := loop.input.resetPressed
        history := .resetPressed :: loop.history }
    else none
  | .dispatchEvents =>
    if loop.phase = .update then some { loop with phase := .dispatch } else none
  | .deliver =>
    match loop.eventQueue with
    | e :: eventQueue =>
      if loop.phase = .dispatch then
        (loop.input.on e).map fun input =>
          { loop with input, eventQueue, history := .delivered e :: loop.history }
      else none
    | [] => none
  | .drained =>
    if loop.phase = .dispatch ∧ loop.eventQueue = [] then
      some { loop with phase := .render }
    else none
  | .present => if loop.phase = .render then some { loop with phase := .start } else none

/-- Runs of the loop. -/
abbrev Loop.Run : Loop P R → List (Tick P R) → Loop P R → Prop :=
  Lib.Run fun loop tick loop' => loop.step tick = some loop'

/-- `Input::create`. -/
def Loop.create (input : Input P R) : Loop P R where
  phase := .start
  input := input.reset
  eventQueue := []
  history := []

/-! ### What is read -/

/-- What a moment says about `keyPressed` of a key. -/
def Moment.keyPressed (key : Fin maxKeys) : Moment P R → Option Bool
  | .resetPressed => some false
  | .delivered (.keyPressed keyCode repeatCount) =>
    if keyCode.toNat = key then some (decide (repeatCount < 1)) else none
  | .delivered (.keyReleased keyCode) => if keyCode.toNat = key then some false else none
  | .delivered _ => none

def Moment.keyHeld (key : Fin maxKeys) : Moment P R → Option Bool
  | .delivered (.keyPressed keyCode _) => if keyCode.toNat = key then some true else none
  | .delivered (.keyReleased keyCode) => if keyCode.toNat = key then some false else none
  | _ => none

def Moment.mouseClicked (key : Fin maxButtons) : Moment P R → Option Bool
  | .resetPressed => some false
  | .delivered (.mouseClicked buttonId _) => if buttonId = key then some true else none
  | .delivered (.mouseReleased buttonId _) => if buttonId = key then some false else none
  | .delivered _ => none

def Moment.mouseHeld (key : Fin maxButtons) : Moment P R → Option Bool
  | .delivered (.mouseClicked buttonId _) => if buttonId = key then some true else none
  | .delivered (.mouseReleased buttonId _) => if buttonId = key then some false else none
  | _ => none

def Moment.scrollOffset : Moment P R → Option R
  | .resetPressed => some 0
  | .delivered (.mouseScrolled _ yOffset _) => some yOffset
  | .delivered _ => none

/-- Where the cursor was moved to. -/
def Moment.mousePosition : Moment P R → Option P
  | .delivered (.mouseMove position) => some position
  | _ => none

/-- The input says what the history does, since the cursor was at `start`. -/
structure Input.Shows (input : Input P R) (start : P) (history : List (Moment P R)) : Prop where
  keyPressed : ∀ key, input.keyPressed key = latest (Moment.keyPressed key) false history
  keyHeld : ∀ key, input.keyHeld key = latest (Moment.keyHeld key) false history
  mouseClicked : ∀ key, input.mouseClicked key = latest (Moment.mouseClicked key) false history
  mouseHeld : ∀ key, input.mouseHeld key = latest (Moment.mouseHeld key) false history
  scrollOffset : input.scrollOffset = latest Moment.scrollOffset 0 history
  mousePosition : input.mousePosition = latest Moment.mousePosition start history

namespace Input

variable {input input' : Input P R} {start : P} {history : List (Moment P R)}

theorem shows_reset (input : Input P R) : input.reset.Shows input.mousePosition [] where
  keyPressed _ := rfl
  keyHeld _ := rfl
  mouseClicked _ := rfl
  mouseHeld _ := rfl
  scrollOffset := rfl
  mousePosition := rfl

theorem Shows.resetPressed (hshows : input.Shows start history) :
    input.resetPressed.Shows start (.resetPressed :: history) where
  keyPressed key := by simp [Moment.keyPressed, Input.resetPressed]
  keyHeld key := by simp [Moment.keyHeld, Input.resetPressed, hshows.keyHeld]
  mouseClicked key := by simp [Moment.mouseClicked, Input.resetPressed]
  mouseHeld key := by simp [Moment.mouseHeld, Input.resetPressed, hshows.mouseHeld]
  scrollOffset := by simp [Moment.scrollOffset, Input.resetPressed]
  mousePosition := by simp [Moment.mousePosition, Input.resetPressed, hshows.mousePosition]

/-- An event of a key keeps what is said of everything else. -/
theorem Shows.key (hshows : input.Shows start history) {keyCode : UInt16} {pressed held : Bool}
    {e : InputEvent P R}
    (hkey : (input.setKeyPressed keyCode pressed).bind
      (fun input => input.setKeyHeld keyCode held) = some input')
    (hpressed : ∀ key, Moment.keyPressed key (.delivered e) =
      if keyCode.toNat = key then some pressed else none)
    (hheld : ∀ key, Moment.keyHeld key (.delivered e) =
      if keyCode.toNat = key then some held else none)
    (hclicked : ∀ key, Moment.mouseClicked key (.delivered e) = none)
    (hmouse : ∀ key, Moment.mouseHeld key (.delivered e) = none)
    (hscroll : Moment.scrollOffset (.delivered e) = none)
    (hmove : Moment.mousePosition (.delivered e) = none) :
    input'.Shows start (.delivered e :: history) := by
  obtain ⟨keyPressed, keyHeld, hwrite, hwrite', rfl⟩ := setKey_eq_some.mp hkey
  have hcode (key : Fin maxKeys) : ((keyCode.toNat : Int) = (key : Nat)) ↔ keyCode.toNat = key :=
    Int.ofNat_inj
  constructor
  · intro key
    simp only [latest_cons, hpressed, write_apply hwrite, hshows.keyPressed, hcode]
    split_ifs <;> rfl
  · intro key
    simp only [latest_cons, hheld, write_apply hwrite', hshows.keyHeld, hcode]
    split_ifs <;> rfl
  · intro key
    simp [hclicked, hshows.mouseClicked]
  · intro key
    simp [hmouse, hshows.mouseHeld]
  · simp [hscroll, hshows.scrollOffset]
  · simp [hmove, hshows.mousePosition]

theorem Shows.mouse (hshows : input.Shows start history) {buttonId : Int} {clicked held : Bool}
    {e : InputEvent P R}
    (hmouse : (input.setMouseClicked buttonId clicked).bind
      (fun input => input.setMouseHeld buttonId held) = some input')
    (hpressed : ∀ key, Moment.keyPressed key (.delivered e) = none)
    (hkey : ∀ key, Moment.keyHeld key (.delivered e) = none)
    (hclicked : ∀ key, Moment.mouseClicked key (.delivered e) =
      if buttonId = key then some clicked else none)
    (hheld : ∀ key, Moment.mouseHeld key (.delivered e) =
      if buttonId = key then some held else none)
    (hscroll : Moment.scrollOffset (.delivered e) = none)
    (hmove : Moment.mousePosition (.delivered e) = none) :
    input'.Shows start (.delivered e :: history) := by
  obtain ⟨mouseClicked, mouseHeld, hwrite, hwrite', rfl⟩ := setMouse_eq_some.mp hmouse
  constructor
  · intro key
    simp [hpressed, hshows.keyPressed]
  · intro key
    simp [hkey, hshows.keyHeld]
  · intro key
    simp only [latest_cons, hclicked, write_apply hwrite, hshows.mouseClicked]
    split_ifs <;> rfl
  · intro key
    simp only [latest_cons, hheld, write_apply hwrite', hshows.mouseHeld]
    split_ifs <;> rfl
  · simp [hscroll, hshows.scrollOffset]
  · simp [hmove, hshows.mousePosition]

theorem Shows.on (hshows : input.Shows start history) {e : InputEvent P R}
    (hon : input.on e = some input') : input'.Shows start (.delivered e :: history) := by
  cases e with
  | keyPressed keyCode repeatCount =>
      exact hshows.key hon (fun _ => rfl) (fun _ => rfl) (fun _ => rfl) (fun _ => rfl) rfl rfl
  | keyReleased keyCode =>
      exact hshows.key hon (fun _ => rfl) (fun _ => rfl) (fun _ => rfl) (fun _ => rfl) rfl rfl
  | mouseClicked buttonId position =>
      exact hshows.mouse hon (fun _ => rfl) (fun _ => rfl) (fun _ => rfl) (fun _ => rfl) rfl rfl
  | mouseReleased buttonId position =>
      exact hshows.mouse hon (fun _ => rfl) (fun _ => rfl) (fun _ => rfl) (fun _ => rfl) rfl rfl
  | mouseScrolled xOffset yOffset position =>
      obtain rfl := Option.some.inj hon
      constructor <;> simp [Moment.keyPressed, Moment.keyHeld, Moment.mouseClicked,
        Moment.mouseHeld, Moment.scrollOffset, Moment.mousePosition, hshows.keyPressed,
        hshows.keyHeld, hshows.mouseClicked, hshows.mouseHeld, hshows.mousePosition]
  | mouseMove position =>
      obtain rfl := Option.some.inj hon
      constructor <;> simp [Moment.keyPressed, Moment.keyHeld, Moment.mouseClicked,
        Moment.mouseHeld, Moment.scrollOffset, Moment.mousePosition, hshows.keyPressed,
        hshows.keyHeld, hshows.mouseClicked, hshows.mouseHeld, hshows.scrollOffset]

end Input

namespace Loop

variable {loop loop' : Loop P R} {tick : Tick P R} {ticks : List (Tick P R)}

/-- What every state of the loop keeps: before `dispatchEvents` nothing happened since
`resetPressed`. -/
structure Kept (start : P) (loop : Loop P R) : Prop where
  shows_history : loop.input.Shows start loop.history
  reset : loop.phase = .update → loop.history.head? = some .resetPressed

theorem kept_create (input : Input P R) : (Loop.create input).Kept input.mousePosition where
  shows_history := input.shows_reset
  reset h := by cases h

theorem Kept.step {start : P} (hkept : loop.Kept start) (hstep : loop.step tick = some loop') :
    loop'.Kept start := by
  cases tick with
  | native e =>
      obtain rfl := Option.some.inj hstep
      exact ⟨hkept.shows_history, hkept.reset⟩
  | resetPressed =>
      simp only [Loop.step] at hstep
      split_ifs at hstep
      obtain rfl := Option.some.inj hstep
      exact ⟨hkept.shows_history.resetPressed, fun _ => rfl⟩
  | dispatchEvents =>
      simp only [Loop.step] at hstep
      split_ifs at hstep
      obtain rfl := Option.some.inj hstep
      exact ⟨hkept.shows_history, by simp⟩
  | deliver =>
      simp only [Loop.step] at hstep
      split at hstep
      · split_ifs at hstep with hphase
        obtain ⟨input, hon, rfl⟩ := Option.map_eq_some_iff.mp hstep
        exact ⟨hkept.shows_history.on hon, by simp [hphase]⟩
      · cases hstep
  | drained =>
      simp only [Loop.step] at hstep
      split_ifs at hstep
      obtain rfl := Option.some.inj hstep
      exact ⟨hkept.shows_history, by simp⟩
  | present =>
      simp only [Loop.step] at hstep
      split_ifs at hstep
      obtain rfl := Option.some.inj hstep
      exact ⟨hkept.shows_history, by simp⟩

theorem Kept.run {input : Input P R} (hrun : Loop.Run (Loop.create input) ticks loop) :
    loop.Kept input.mousePosition :=
  hrun.state_invariant (kept_create input) fun _ _ _ => Kept.step

end Loop

/-- The code of an event is an index. -/
def InputEvent.InBounds {P R : Type} : InputEvent P R → Prop
  | .keyPressed keyCode _ | .keyReleased keyCode => keyCode.toNat < maxKeys
  | .mouseClicked buttonId _ | .mouseReleased buttonId _ =>
    0 ≤ buttonId ∧ buttonId.toNat < maxButtons
  | .mouseScrolled .. | .mouseMove .. => True

/-- The key or button has a code that is an index. -/
def NativeEvent.InBounds {P R : Type} : NativeEvent P R → Prop
  | .key code _ => code % 2 ^ 16 < maxKeys
  | .mouseButton btnId .. => btnId ≠ .other
  | .cursorPos .. | .scroll .. => True

theorem toNat_ofInt_lt (code : Int) :
    (UInt16.ofInt code).toNat < maxKeys ↔ code % 2 ^ 16 < maxKeys := by
  have hnonneg : 0 ≤ code % 2 ^ 16 := Int.emod_nonneg _ (by decide)
  have hlt : code % 2 ^ 16 < 2 ^ 16 := Int.emod_lt_of_pos _ (by decide)
  rw [UInt16.ofInt, UInt16.toNat_ofNat', Nat.mod_eq_of_lt (by omega)]
  omega

theorem NativeEvent.posted_inBounds {P R : Type} (e : NativeEvent P R) :
    e.posted.InBounds ↔ e.InBounds := by
  cases e with
  | key code action => cases action <;> exact toNat_ofInt_lt code
  | mouseButton btnId state position =>
      cases btnId <;> cases state <;>
        simp [posted, NativeButton.btn, InputEvent.InBounds, NativeEvent.InBounds, maxButtons]
  | cursorPos position => rfl
  | scroll xOffset yOffset position => rfl

namespace Input

variable {P R : Type} (input : Input P R)

theorem setKey_isSome {key : UInt16} {pressed held : Bool} :
    ((input.setKeyPressed key pressed).bind fun input => input.setKeyHeld key held).isSome ↔
      key.toNat < maxKeys := by
  by_cases h : key.toNat < maxKeys <;> simp [setKeyPressed, setKeyHeld, write, h]

theorem setMouse_isSome {key : Int} {clicked held : Bool} :
    ((input.setMouseClicked key clicked).bind fun input => input.setMouseHeld key held).isSome ↔
      0 ≤ key ∧ key.toNat < maxButtons := by
  by_cases h : 0 ≤ key ∧ key.toNat < maxButtons <;> simp [setMouseClicked, setMouseHeld, write, h]

end Input

theorem Input.on_isSome {P R : Type} (input : Input P R) (e : InputEvent P R) :
    (input.on e).isSome ↔ e.InBounds := by
  cases e with
  | keyPressed keyCode repeatCount => exact input.setKey_isSome
  | keyReleased keyCode => exact input.setKey_isSome
  | mouseClicked buttonId position => exact input.setMouse_isSome
  | mouseReleased buttonId position => exact input.setMouse_isSome
  | mouseScrolled xOffset yOffset position => simp [on, InputEvent.InBounds]
  | mouseMove position => simp [on, InputEvent.InBounds]

theorem foldlM_on_isSome {P R : Type} (input : Input P R) (events : List (InputEvent P R)) :
    (events.foldlM Input.on input).isSome ↔ ∀ e ∈ events, e.InBounds := by
  induction events generalizing input with
  | nil => simp
  | cons e events ih =>
      rw [List.foldlM_cons, List.forall_mem_cons, ← input.on_isSome e]
      cases h : input.on e with
      | none => simp
      | some input' => simpa using ih input'

/-- The ticks of a round in which the window reports some events. -/
def frame {P R : Type} (natives : List (NativeEvent P R)) : List (Tick P R) :=
  .resetPressed :: natives.map .native ++
    .dispatchEvents :: natives.map (fun _ => .deliver) ++ [.drained, .present]

namespace Loop

variable (loop : Loop P R)

theorem native_run (natives : List (NativeEvent P R)) :
    (natives.map Tick.native).foldlM Loop.step loop =
      some { loop with eventQueue := loop.eventQueue ++ natives.map NativeEvent.posted } := by
  induction natives generalizing loop with
  | nil => simp
  | cons e natives ih => simp [Loop.step, ih]

theorem deliver_run (hphase : loop.phase = .dispatch) {natives : List (NativeEvent P R)}
    (hqueue : loop.eventQueue = natives.map NativeEvent.posted) :
    (natives.map fun _ => Tick.deliver).foldlM Loop.step loop =
      ((natives.map NativeEvent.posted).foldlM Input.on loop.input).map fun input =>
        { loop with
          input
          eventQueue := []
          history := ((natives.map NativeEvent.posted).map .delivered).reverse ++
            loop.history } := by
  induction natives generalizing loop with
  | nil =>
      cases loop
      simpa using hqueue
  | cons e natives ih =>
      rw [List.map_cons] at hqueue
      rw [List.map_cons, List.foldlM_cons, List.map_cons, List.foldlM_cons]
      simp only [Loop.step, hqueue, if_pos hphase]
      cases loop.input.on e.posted with
      | none => rfl
      | some input =>
          simp only [Option.map_some, Option.bind_eq_bind, Option.bind_some]
          refine (ih ⟨loop.phase, input, _, _⟩ hphase rfl).trans ?_
          simp

theorem frame_run (hphase : loop.phase = .start) (hqueue : loop.eventQueue = [])
    (natives : List (NativeEvent P R)) :
    (frame natives).foldlM Loop.step loop =
      ((natives.map NativeEvent.posted).foldlM Input.on loop.input.resetPressed).map fun input =>
        { phase := .start
          input
          eventQueue := []
          history := ((natives.map NativeEvent.posted).map .delivered).reverse ++
            .resetPressed :: loop.history } := by
  simp only [frame, List.cons_append, List.foldlM_cons, List.foldlM_append, Loop.step,
    if_pos hphase, hqueue, Option.bind_eq_bind, Option.bind_some, native_run, if_true,
    List.nil_append]
  rw [deliver_run _ rfl rfl]
  cases (natives.map NativeEvent.posted).foldlM Input.on loop.input.resetPressed with
  | none => rfl
  | some input => simp

theorem frames_run_isSome (hphase : loop.phase = .start) (hqueue : loop.eventQueue = [])
    (frames : List (List (NativeEvent P R))) :
    ((frames.flatMap frame).foldlM Loop.step loop).isSome ↔
      ∀ natives ∈ frames, ∀ e ∈ natives, e.InBounds := by
  induction frames generalizing loop with
  | nil => simp
  | cons natives frames ih =>
      rw [List.flatMap_cons, List.foldlM_append, frame_run loop hphase hqueue,
        List.forall_mem_cons]
      have hsafe := foldlM_on_isSome loop.input.resetPressed (natives.map NativeEvent.posted)
      simp only [List.forall_mem_map, NativeEvent.posted_inBounds] at hsafe
      rw [← hsafe]
      cases (natives.map NativeEvent.posted).foldlM Input.on loop.input.resetPressed with
      | none => simp
      | some input => simpa using ih _ rfl rfl

end Loop

/-- The loop runs through its frames without a write outside of the arrays if and only if no
button but the three of the mouse, and no key without a code, is ever used: such a button
has the code -1, and a key of which the window reports -1 the code 65535. -/
theorem frames_safe_iff (input : Input P R) (frames : List (List (NativeEvent P R))) :
    (∃ loop, Loop.Run (Loop.create input) (frames.flatMap frame) loop) ↔
      ∀ natives ∈ frames, ∀ e ∈ natives, e.InBounds := by
  rw [← Loop.frames_run_isSome (Loop.create input) rfl rfl, Option.isSome_iff_exists]
  exact exists_congr fun _ => Lib.Run.partial_iff

end Maple.Devices
