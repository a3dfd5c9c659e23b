import LgxRuntime.Input.EventDelivery
import LgxRuntime.Input.Gamepads
import LgxRuntime.Lib.History
import LgxRuntime.Lib.Reports
import Mathlib.Algebra.Order.Group.Unbundled.Int

/-!
# The controls and the events that tell of them

A game can ask for the state of the keys, the mouse and the gamepads, and it can take the events from the queue.  The
events tell of all that it can ask for, poll by poll, but for the directional pads and the position of the mouse; they
arrive as long as they fit into the queue.

When an event happened is left out, as are the names of the devices.  The sums of the motions are not bounded here; in
the source, a sum that does not fit into 32 bits is not defined.
-/

namespace LgxRuntime.Input

open Function (comp_update update update_eq_self)
open Reports (andThen forEach Told)

/-! ## Keys and the mouse -/

/-- `lgx_in_key_t`. -/
inductive LgxKey
  | a | b | c | d | e | f | g | h | i | j | k | l | m | n | o | p | q | r | s | t | u | v | w | x | y | z
  | digit0 | digit1 | digit2 | digit3 | digit4 | digit5 | digit6 | digit7 | digit8 | digit9
  | f1 | f2 | f3 | f4 | f5 | f6 | f7 | f8 | f9 | f10 | f11 | f12
  | lshift | rshift | lctrl | rctrl | lalt | ralt | lsuper | rsuper
  | up | down | left | right | home | end | pageup | pagedown | insert | delete
  | escape | enter | tab | backspace | space | capslock | numlock | scrolllock | printscreen | pause
  | minus | equals | lbracket | rbracket | backslash | semicolon | apostrophe | grave | comma | period | slash
  deriving DecidableEq

/-- The codes of the keys. -/
def evdevKeys : List (UInt16 × LgxKey) :=
  [(30, .a), (48, .b), (46, .c), (32, .d), (18, .e), (33, .f), (34, .g), (35, .h), (23, .i), (36, .j), (37, .k),
    (38, .l), (50, .m), (49, .n), (24, .o), (25, .p), (16, .q), (19, .r), (31, .s), (20, .t), (22, .u), (47, .v),
    (17, .w), (45, .x), (21, .y), (44, .z), (11, .digit0), (2, .digit1), (3, .digit2), (4, .digit3), (5, .digit4),
    (6, .digit5), (7, .digit6), (8, .digit7), (9, .digit8), (10, .digit9), (59, .f1), (60, .f2), (61, .f3),
    (62, .f4), (63, .f5), (64, .f6), (65, .f7), (66, .f8), (67, .f9), (68, .f10), (87, .f11), (88, .f12),
    (42, .lshift), (54, .rshift), (29, .lctrl), (97, .rctrl), (56, .lalt), (100, .ralt), (125, .lsuper),
    (126, .rsuper), (103, .up), (108, .down), (105, .left), (106, .right), (102, .home), (107, .end), (104, .pageup),
    (109, .pagedown), (110, .insert), (111, .delete), (1, .escape), (28, .enter), (15, .tab), (14, .backspace),
    (57, .space), (58, .capslock), (69, .numlock), (70, .scrolllock), (99, .printscreen), (119, .pause), (12, .minus),
    (13, .equals), (26, .lbracket), (27, .rbracket), (43, .backslash), (39, .semicolon), (40, .apostrophe),
    (41, .grave), (51, .comma), (52, .period), (53, .slash)]

/-- `evdev_to_lgx_key`, with nothing for `LGX_KEY_COUNT`. -/
def evdevToLgxKey (code : UInt16) : Option LgxKey :=
  evdevKeys.lookup code

/-- The buttons for the codes from `BTN_LEFT` to `BTN_EXTRA`. -/
def mouseButton (code : UInt16) : Option UInt32 :=
  if code = 0x110 then some 0x01
  else if code = 0x111 then some 0x02
  else if code = 0x112 then some 0x04
  else if code = 0x113 then some 0x08
  else if code = 0x114 then some 0x10
  else none

/-- `EV_REL`. -/
def evRel : UInt16 := 2

/-- `REL_X`. -/
def relX : UInt16 := 0

/-- `REL_Y`. -/
def relY : UInt16 := 1

/-- `REL_WHEEL`. -/
def relWheel : UInt16 := 8

/-- `lgx_in_mouse_state_t`. -/
structure MouseState where
  x : ℤ
  y : ℤ
  deltaX : ℤ
  deltaY : ℤ
  scroll : ℤ
  buttons : UInt32

/-- `lgx_in_event_t`. -/
inductive InEvent
  | none
  | keyPress (key : LgxKey)
  | keyRelease (key : LgxKey)
  | mouseButtonDown (button : UInt32)
  | mouseButtonUp (button : UInt32)
  | mouseScroll (delta : ℤ)
  | gamepad (event : PadEvent)

instance : Inhabited InEvent := ⟨.none⟩

/-- What an `lgx_in_system` knows of the controls: all of it but the queue. -/
structure Controls where
  pads : InSystem
  keyCurrent : LgxKey → Bool
  keyPrevious : LgxKey → Bool
  mouse : MouseState
  mouseRelative : Bool

/-- `process_keyboard_event`, with the event that is pushed. -/
def processKeyboardEvent (ev : InputEvent) (c : Controls) : Controls × List InEvent :=
  if ev.type ≠ evKey then (c, [])
  else
    match evdevToLgxKey ev.code with
    | none => (c, [])
    | some key =>
        if ev.value = 1 then ({ c with keyCurrent := update c.keyCurrent key true }, [.keyPress key])
        else if ev.value = 0 then ({ c with keyCurrent := update c.keyCurrent key false }, [.keyRelease key])
        else (c, [])

/-- The mouse moves. -/
def MouseState.moveX (mouse : MouseState) (value : ℤ) (relative : Bool) : MouseState :=
  { mouse with deltaX := mouse.deltaX + value, x := if relative then mouse.x else mouse.x + value }

/-- The mouse moves. -/
def MouseState.moveY (mouse : MouseState) (value : ℤ) (relative : Bool) : MouseState :=
  { mouse with deltaY := mouse.deltaY + value, y := if relative then mouse.y else mouse.y + value }

/-- `process_mouse_event`, with the event that is pushed. -/
def processMouseEvent (ev : InputEvent) (c : Controls) : Controls × List InEvent :=
  if ev.type = evRel then
    if ev.code = relX then ({ c with mouse := c.mouse.moveX ev.value c.mouseRelative }, [])
    else if ev.code = relY then ({ c with mouse := c.mouse.moveY ev.value c.mouseRelative }, [])
    else if ev.code = relWheel then
      ({ c with mouse := { c.mouse with scroll := c.mouse.scroll + ev.value } }, [.mouseScroll ev.value])
    else (c, [])
  else if ev.type = evKey then
    match mouseButton ev.code with
    | none => (c, [])
    | some button =>
        if ev.value ≠ 0 then
          ({ c with mouse := { c.mouse with buttons := c.mouse.buttons ||| button } }, [.mouseButtonDown button])
        else
          ({ c with mouse := { c.mouse with buttons := c.mouse.buttons &&& ~~~button } }, [.mouseButtonUp button])
  else (c, [])

/-! ## Polling -/

namespace Controls

/-- What happens to the gamepads, with the events that are pushed, the earliest first. -/
def onPads (handle : InSystem → InSystem) (c : Controls) : Controls × List InEvent :=
  let pads := handle c.pads
  ({ c with pads }, (pads.events.take (pads.events.length - c.pads.events.length)).reverse.map .gamepad)

/-- What `lgx_in_poll` does with an event of a device. -/
def processEvent (dev : InputDevice) (ev : InputEvent) (c : Controls) : Controls × List InEvent :=
  if ev.type = evSyn then (c, [])
  else
    match dev.type with
    | .keyboard => processKeyboardEvent ev c
    | .mouse => processMouseEvent ev c
    | .gamepad => c.onPads fun s => processGamepadEvent dev s ev
    | .none => (c, [])

/-- What is done once an entry has been read. -/
def endReads (i : ℕ) (dev : InputDevice) (failure : Option ℕ) (s : InSystem) : InSystem :=
  let s := { s with errno := failure.getD s.errno }
  if s.errno = enodev && dev.type = .gamepad then disconnectGamepad s i dev else s

/-- The body of the loop of `lgx_in_poll` over the entries. -/
def readDevice (reads : ℕ → DeviceReads) (i : ℕ) (c : Controls) : Controls × List InEvent :=
  match c.pads.devices[i]? with
  | none => (c, [])
  | some dev =>
      if dev.fd = none then (c, [])
      else andThen (forEach (processEvent dev) (reads i).events) (onPads (endReads i dev (reads i).failure)) c

/-- The body of the loop of `check_hotplug`. -/
def hotplug (notice : Notice) (c : Controls) : Controls × List InEvent :=
  if notice.name.take 5 = eventPrefix && notice.created then
    c.onPads fun s => openDevice s (inputDir ++ notice.name) notice.opened
  else (c, [])

/-- `enumerate_devices`, with what opening each entry of the directory answers. -/
def enumerateDevices (entries : List (List UInt8 × Opened)) : Controls → Controls × List InEvent :=
  forEach (fun entry => hotplug ⟨entry.1, true, entry.2⟩) entries

/-- What `lgx_in_poll` does before it reads anything. -/
def beginPoll (c : Controls) : Controls :=
  { c with keyPrevious := c.keyCurrent, mouse := { c.mouse with deltaX := 0, deltaY := 0, scroll := 0 } }

/-- `lgx_in_poll`, with the events that are pushed. -/
def poll (notices : List Notice) (reads : ℕ → DeviceReads) (c : Controls) : Controls × List InEvent :=
  andThen (forEach hotplug notices)
    (fun c => forEach (readDevice reads) (List.range c.pads.devices.length) c) c.beginPoll

/-- `lgx_in_mouse_set_relative`. -/
def mouseSetRelative (enable : Bool) (c : Controls) : Controls :=
  { c with
    mouseRelative := enable
    mouse := if enable then { c.mouse with x := 0, y := 0 } else c.mouse }

/-- `lgx_in_gamepad_set_deadzone`. -/
def gamepadSetDeadzone (padId : ℕ) (deadzone : Float32) (c : Controls) : Controls :=
  if c.pads.gamepadCount ≤ padId then c
  else if deadzone < 0 || deadzone > 1 then c
  else
    { c with
      pads := { c.pads with gamepads := update c.pads.gamepads padId { c.pads.gamepads padId with deadzone } } }

end Controls

/-! ## A game -/

/-- `lgx_in_config_t`. -/
structure InConfig where
  enableGamepad : Bool
  enableKeyboard : Bool
  enableMouse : Bool
  eventQueueSize : UInt32

/-- What is used if there is no configuration. -/
def defaultConfig : InConfig :=
  ⟨true, true, true, 0⟩

/-- The controls before any device has been opened. -/
def Controls.new (config : InConfig) : Controls where
  pads := .new config.enableGamepad config.enableKeyboard config.enableMouse
  keyCurrent := fun _ => false
  keyPrevious := fun _ => false
  mouse := ⟨0, 0, 0, 0, 0, 0⟩
  mouseRelative := false

/-- An `lgx_in_system`, with the events of each poll that have been pushed, and those that the game has been given. -/
structure Game where
  controls : Controls
  queue : EventQueue InEvent
  told : List (List InEvent)
  given : List InEvent

/-- The events of a step go into the queue. -/
def Game.push (g : Game) (r : Controls × List InEvent) : Game :=
  { g with
    controls := r.1
    queue := r.2.foldl EventQueue.eventPush g.queue
    told := g.told ++ [r.2] }

/-- The game before any device has been opened. -/
def Game.new (config : InConfig) : Game :=
  ⟨.new config, .create config.eventQueueSize, [], []⟩

/-- `lgx_in_create`, when there is enough memory. -/
def inCreate (config : Option InConfig) (entries : List (List UInt8 × Opened)) : Game :=
  (Game.new (config.getD defaultConfig)).push (Controls.enumerateDevices entries (.new (config.getD defaultConfig)))

/-- What a game calls. -/
inductive GameCall
  | poll (notices : List Notice) (reads : ℕ → DeviceReads)
  | nextEvent
  | mouseSetRelative (enable : Bool)
  | gamepadSetDeadzone (padId : ℕ) (deadzone : Float32)

/-- A call of a game. -/
def Game.call (g : Game) : GameCall → Game
  | .poll notices reads => g.push (g.controls.poll notices reads)
  | .nextEvent => { g with queue := g.queue.nextEvent.2, given := g.given ++ g.queue.nextEvent.1.toList }
  | .mouseSetRelative enable => { g with controls := g.controls.mouseSetRelative enable }
  | .gamepadSetDeadzone padId deadzone => { g with controls := g.controls.gamepadSetDeadzone padId deadzone }

/-- A game that has made some calls. -/
def play (config : Option InConfig) (entries : List (List UInt8 × Opened)) (calls : List GameCall) : Game :=
  calls.foldl Game.call (inCreate config entries)

/-! ## What a game can make of the events -/

/-- What the events tell of a gamepad. -/
structure PadIdea where
  connected : Bool
  axes : List Float32
  buttons : UInt32

/-- What the events tell of the controls. -/
structure Idea where
  keys : LgxKey → Bool
  previous : LgxKey → Bool
  buttons : UInt32
  scroll : ℤ
  pads : ℕ → PadIdea

/-- The buttons of the directional pad. -/
def dpadButtons : UInt32 :=
  dpadUp ||| dpadDown ||| dpadLeft ||| dpadRight

/-- What can be known of a gamepad. -/
def Gamepad.idea (gp : Gamepad) : PadIdea :=
  ⟨gp.connected, gp.axes, gp.buttons &&& ~~~dpadButtons⟩

/-- What can be known of the gamepads. -/
def InSystem.idea (s : InSystem) : ℕ → PadIdea :=
  Gamepad.idea ∘ s.gamepads

/-- What can be known of the controls. -/
def Controls.idea (c : Controls) : Idea :=
  ⟨c.keyCurrent, c.keyPrevious, c.mouse.buttons, c.mouse.scroll, c.pads.idea⟩

/-- An event of a gamepad is seen. -/
def seePad (pads : ℕ → PadIdea) : PadEvent → ℕ → PadIdea
  | .connect padId => update pads padId ⟨true, List.replicate 6 0, 0⟩
  | .disconnect padId => update pads padId { pads padId with connected := false }
  | .buttonDown padId button => update pads padId { pads padId with buttons := (pads padId).buttons ||| button }
  | .buttonUp padId button => update pads padId { pads padId with buttons := (pads padId).buttons &&& ~~~button }
  | .axis padId axis value => update pads padId { pads padId with axes := (pads padId).axes.set axis value }

/-- An event is seen. -/
def Idea.see (idea : Idea) : InEvent → Idea
  | .none => idea
  | .keyPress key => { idea with keys := update idea.keys key true }
  | .keyRelease key => { idea with keys := update idea.keys key false }
  | .mouseButtonDown button => { idea with buttons := idea.buttons ||| button }
  | .mouseButtonUp button => { idea with buttons := idea.buttons &&& ~~~button }
  | .mouseScroll delta => { idea with scroll := idea.scroll + delta }
  | .gamepad event => { idea with pads := seePad idea.pads event }

/-- The events of a poll are seen. -/
def Idea.seePoll (idea : Idea) (events : List InEvent) : Idea :=
  events.foldl Idea.see { idea with previous := idea.keys, scroll := 0 }

/-- Nothing has been seen. -/
def Idea.atRest : Idea :=
  ⟨fun _ => false, fun _ => false, 0, 0, fun _ => ⟨false, List.replicate 6 0, 0⟩⟩

/-! ## Each event is told -/

variable {dev : InputDevice} {ev : InputEvent} {handle : InSystem → InSystem}

theorem told_processKeyboardEvent (ev : InputEvent) : Told Controls.idea Idea.see (processKeyboardEvent ev) := by
  intro c
  unfold processKeyboardEvent
  cases evdevToLgxKey ev.code with
  | none => split_ifs <;> rfl
  | some key => split_ifs <;> rfl

theorem told_processMouseEvent (ev : InputEvent) : Told Controls.idea Idea.see (processMouseEvent ev) := by
  intro c
  unfold processMouseEvent
  cases mouseButton ev.code with
  | none => split_ifs <;> rfl
  | some button => split_ifs <;> rfl

/-- What happens to the gamepads is told by the events that are listed. -/
def PadsTold (handle : InSystem → InSystem) : Prop :=
  ∀ s, ∃ events : List PadEvent, (handle s).events = events.reverse ++ s.events ∧
    events.foldl seePad s.idea = (handle s).idea

theorem foldl_see_gamepad (idea : Idea) (events : List PadEvent) :
    (events.map InEvent.gamepad).foldl Idea.see idea = { idea with pads := events.foldl seePad idea.pads } := by
  induction events generalizing idea with
  | nil => rfl
  | cons event events ih =>
      rw [List.map_cons, List.foldl_cons, ih]
      rfl

theorem told_onPads (h : PadsTold handle) : Told Controls.idea Idea.see (Controls.onPads handle) := by
  intro c
  obtain ⟨events, hevents, hidea⟩ := h c.pads
  have hpushed : (c.onPads handle).2 = events.map InEvent.gamepad := by
    change (List.take ((handle c.pads).events.length - c.pads.events.length) _).reverse.map _ = _
    rw [hevents, List.length_append, Nat.add_sub_cancel, List.take_left, List.reverse_reverse]
  rw [hpushed, foldl_see_gamepad]
  change Idea.mk _ _ _ _ (events.foldl seePad c.pads.idea) = Idea.mk _ _ _ _ _
  rw [hidea]
  rfl

/-- A bit that is among those of the mask can be set before or after the mask. -/
theorem or_and_of_and_eq {x y mask : UInt32} (h : y &&& mask = y) : (x ||| y) &&& mask = (x &&& mask) ||| y := by
  apply UInt32.toBitVec_inj.mp
  ext i hi
  have hbit := congrArg (fun word : UInt32 => word.toBitVec[i]) h
  simp only [UInt32.toBitVec_and, UInt32.toBitVec_or, BitVec.getElem_and, BitVec.getElem_or] at hbit ⊢
  rw [Bool.and_or_distrib_right, hbit]

theorem evdevToGamepadBtn_and (code : UInt16) :
    evdevToGamepadBtn code &&& ~~~dpadButtons = evdevToGamepadBtn code := by
  unfold evdevToGamepadBtn
  split_ifs <;> decide

/-- What the directional pad does to the buttons is not told. -/
theorem dpad_and {negative positive mask : UInt32} (hnegative : negative &&& mask = 0) (hpositive : positive &&& mask = 0)
    (buttons : UInt32) (value : ℤ) : dpad buttons value negative positive &&& mask = buttons &&& mask := by
  unfold dpad
  apply UInt32.toBitVec_inj.mp
  ext i hi
  have hneg := congrArg (fun word : UInt32 => word.toBitVec[i]) hnegative
  have hpos := congrArg (fun word : UInt32 => word.toBitVec[i]) hpositive
  split_ifs <;>
    simp only [UInt32.toBitVec_and, UInt32.toBitVec_or, UInt32.toBitVec_not, BitVec.getElem_and, BitVec.getElem_or,
      BitVec.getElem_not, UInt32.toBitVec_zero, BitVec.getElem_zero, Bool.and_eq_false_imp] at hneg hpos ⊢ <;>
    grind

/-- What an event does to a gamepad is told by the event that is pushed. -/
theorem foldl_seePad_process (gp : Gamepad) (ev : InputEvent) {pads : ℕ → PadIdea} {g : ℕ} (h : pads g = gp.idea) :
    (gp.process g ev).2.toList.foldl seePad pads = update pads g (gp.process g ev).1.idea := by
  have hsame : ∀ gp' : Gamepad, gp'.idea = gp.idea → pads = update pads g gp'.idea := by
    intro gp' hidea
    rw [hidea, ← h, update_eq_self]
  have hdpad : ∀ buttons, buttons &&& ~~~dpadButtons = gp.buttons &&& ~~~dpadButtons →
      pads = update pads g { gp with buttons }.idea := by
    intro buttons hbuttons
    exact hsame _ (congrArg (PadIdea.mk gp.connected gp.axes) hbuttons)
  unfold Gamepad.process
  dsimp only
  split_ifs with hkey hbtn hvalue habs hx hy
  · exact hsame gp rfl
  · change update pads g { pads g with buttons := (pads g).buttons ||| evdevToGamepadBtn ev.code } = _
    rw [h, Gamepad.idea, ← or_and_of_and_eq (evdevToGamepadBtn_and ev.code)]
    rfl
  · change update pads g { pads g with buttons := (pads g).buttons &&& ~~~evdevToGamepadBtn ev.code } = _
    rw [h, Gamepad.idea, UInt32.and_assoc, UInt32.and_comm (~~~dpadButtons), ← UInt32.and_assoc]
    rfl
  · exact hdpad _ (dpad_and (by decide) (by decide) _ _)
  · exact hdpad _ (dpad_and (by decide) (by decide) _ _)
  · cases gamepadAxis ev.code with
    | none => exact hsame gp rfl
    | some axis =>
        rw [Option.toList_some, List.foldl_cons, List.foldl_nil, seePad, h]
        rfl
  · exact hsame gp rfl

theorem padsTold_processGamepadEvent (dev : InputDevice) (ev : InputEvent) :
    PadsTold fun s => processGamepadEvent dev s ev := by
  intro s
  dsimp only
  unfold processGamepadEvent
  split_ifs with hid
  · exact ⟨[], rfl, rfl⟩
  · refine ⟨((s.gamepads dev.gamepadId).process dev.gamepadId ev).2.toList, ?_, ?_⟩
    · cases hpushed : ((s.gamepads dev.gamepadId).process dev.gamepadId ev).2 with
      | none => simp [hpushed]
      | some event => simp [hpushed]
    · rw [foldl_seePad_process _ ev rfl]
      exact (comp_update Gamepad.idea s.gamepads dev.gamepadId _).symm

theorem padsTold_endReads (i : ℕ) (dev : InputDevice) (failure : Option ℕ) :
    PadsTold (Controls.endReads i dev failure) := by
  intro s
  unfold Controls.endReads disconnectGamepad
  dsimp only
  split_ifs
  · refine ⟨[.disconnect dev.gamepadId], rfl, ?_⟩
    have hslot := comp_update Gamepad.idea s.gamepads dev.gamepadId { s.gamepads dev.gamepadId with connected := false }
    exact hslot.symm
  · exact ⟨[], rfl, rfl⟩
  · exact ⟨[], rfl, rfl⟩

theorem openedGamepad_idea (opened : Opened) (entry : ℕ) :
    (openedGamepad opened entry).idea = ⟨true, List.replicate 6 0, 0⟩ := by
  have hbuttons : (0 : UInt32) &&& ~~~dpadButtons = 0 := by decide
  exact congrArg (PadIdea.mk true (List.replicate 6 0)) hbuttons

theorem padsTold_openDevice (path : List UInt8) (opened : Opened) : PadsTold fun s => openDevice s path opened := by
  intro s
  dsimp only
  unfold openDevice
  split_ifs
  any_goals exact ⟨[], rfl, rfl⟩
  refine ⟨[.connect s.gamepadCount], rfl, ?_⟩
  have hslot := comp_update Gamepad.idea s.gamepads s.gamepadCount (openedGamepad opened s.devices.length)
  rw [openedGamepad_idea] at hslot
  exact hslot.symm

/-! ## Each poll is told -/

theorem told_processEvent (dev : InputDevice) (ev : InputEvent) :
    Told Controls.idea Idea.see (Controls.processEvent dev ev) := by
  intro c
  unfold Controls.processEvent
  split_ifs
  · rfl
  · cases dev.type with
    | none => rfl
    | keyboard => exact told_processKeyboardEvent ev c
    | mouse => exact told_processMouseEvent ev c
    | gamepad => exact told_onPads (padsTold_processGamepadEvent dev ev) c

theorem told_readDevice (reads : ℕ → DeviceReads) (i : ℕ) :
    Told Controls.idea Idea.see (Controls.readDevice reads i) := by
  intro c
  unfold Controls.readDevice
  cases c.pads.devices[i]? with
  | none => rfl
  | some dev =>
      dsimp only
      split_ifs
      · rfl
      · have hread : Told Controls.idea Idea.see (forEach (Controls.processEvent dev) (reads i).events) :=
          .forEach (told_processEvent dev) _
        exact hread.andThen (told_onPads (padsTold_endReads i dev _)) c

theorem told_hotplug (notice : Notice) : Told Controls.idea Idea.see (Controls.hotplug notice) := by
  intro c
  unfold Controls.hotplug
  split_ifs
  · exact told_onPads (padsTold_openDevice _ _) c
  · rfl

/-- The events of a poll tell what has become of the controls. -/
theorem seePoll_poll (notices : List Notice) (reads : ℕ → DeviceReads) (c : Controls) :
    c.idea.seePoll (c.poll notices reads).2 = (c.poll notices reads).1.idea := by
  have hread : Told Controls.idea Idea.see
      fun c => forEach (Controls.readDevice reads) (List.range c.pads.devices.length) c :=
    fun c => Told.forEach (told_readDevice reads) (List.range c.pads.devices.length) c
  have hpoll := (Told.forEach told_hotplug notices).andThen hread
  exact hpoll c.beginPoll

/-! ## The gamepads by themselves -/

theorem pads_processKeyboardEvent (ev : InputEvent) (c : Controls) : (processKeyboardEvent ev c).1.pads = c.pads := by
  unfold processKeyboardEvent
  cases evdevToLgxKey ev.code with
  | none => split_ifs <;> rfl
  | some key => split_ifs <;> rfl

theorem pads_processMouseEvent (ev : InputEvent) (c : Controls) : (processMouseEvent ev c).1.pads = c.pads := by
  unfold processMouseEvent
  cases mouseButton ev.code with
  | none => split_ifs <;> rfl
  | some button => split_ifs <;> rfl

theorem pads_processEvent (dev : InputDevice) (ev : InputEvent) (c : Controls) :
    (c.processEvent dev ev).1.pads = processEvent dev c.pads ev := by
  unfold Controls.processEvent processEvent
  by_cases hsyn : ev.type = evSyn
  · rw [if_pos hsyn, if_pos hsyn]
  · rw [if_neg hsyn, if_neg hsyn]
    cases dev.type with
    | none => rfl
    | keyboard => exact pads_processKeyboardEvent ev c
    | mouse => exact pads_processMouseEvent ev c
    | gamepad => rfl

theorem pads_readDevice (reads : ℕ → DeviceReads) (i : ℕ) (c : Controls) :
    (c.readDevice reads i).1.pads = readDevice c.pads i (reads i) := by
  unfold Controls.readDevice readDevice
  cases c.pads.devices[i]? with
  | none => rfl
  | some dev =>
      dsimp only
      by_cases hfd : dev.fd = none
      · rw [if_pos hfd, if_pos hfd]
      · rw [if_neg hfd, if_neg hfd, ← Reports.forEach_fst Controls.pads _ (pads_processEvent dev)]
        rfl

/-- A poll does to the devices and gamepads what it does where nothing but them is modelled. -/
theorem pads_poll (notices : List Notice) (reads : ℕ → DeviceReads) (c : Controls) :
    (c.poll notices reads).1.pads = inPoll c.pads notices reads := by
  have hhotplug : ∀ notice (c : Controls), (c.hotplug notice).1.pads =
      if notice.name.take 5 = eventPrefix && notice.created then
        openDevice c.pads (inputDir ++ notice.name) notice.opened
      else c.pads := by
    intro notice c
    unfold Controls.hotplug
    split_ifs <;> rfl
  have hnotices : (forEach Controls.hotplug notices c.beginPoll).1.pads = checkHotplug c.pads notices :=
    Reports.forEach_fst Controls.pads
      (fun s notice => if notice.name.take 5 = eventPrefix && notice.created then
        openDevice s (inputDir ++ notice.name) notice.opened else s) hhotplug notices c.beginPoll
  unfold inPoll
  rw [← hnotices]
  exact Reports.forEach_fst Controls.pads (fun s i => readDevice s i (reads i)) (fun i c => pads_readDevice reads i c) _ _

/-! ## The queue -/

theorem Rings.pushAll {Event : Type} {capacity : ℕ} {q : EventQueue Event} {queue : List Event}
    (h : Rings capacity q queue) (events : List Event) :
    Rings capacity (events.foldl EventQueue.eventPush q) (queue ++ events.take (capacity - queue.length)) := by
  rw [← BoundedQueue.foldl_dropNewest_eq h.length_le]
  induction events generalizing q queue with
  | nil => exact h
  | cons event events ih => exact ih (h.eventPush event)

/-- What holds of a game: what it can make of the polls is what it could ask for, and the queue brings it the events
in order, all of them if and only if they `fit`. -/
structure Follows (capacity : ℕ) (fit : Prop) (g : Game) : Prop where
  idea : g.told.foldl Idea.seePoll .atRest = g.controls.idea
  rings : Rings capacity g.queue g.queue.contents
  sublist : (g.given ++ g.queue.contents).Sublist g.told.flatten
  complete : g.given ++ g.queue.contents = g.told.flatten ↔ fit

variable {capacity : ℕ} {fit : Prop} {g : Game} {r : Controls × List InEvent}

theorem follows_new (config : InConfig) :
    Follows (queueCapacity config.eventQueueSize).toNat True (.new config) := by
  have hrings : Rings (queueCapacity config.eventQueueSize).toNat (Game.new config).queue [] :=
    rings_create config.eventQueueSize
  have hidea : Idea.atRest = (Controls.new config).idea := by
    have hbuttons : (0 : UInt32) = 0 &&& ~~~dpadButtons := by decide
    exact congrArg (fun buttons => Idea.mk _ _ 0 0 fun _ => PadIdea.mk false (List.replicate 6 0) buttons) hbuttons
  refine ⟨hidea, ?_, ?_, ?_⟩
  · rw [hrings.contents_eq]
    exact hrings
  · rw [hrings.contents_eq]
    exact List.nil_sublist _
  · rw [hrings.contents_eq]
    exact iff_of_true rfl trivial

theorem Follows.push (h : Follows capacity fit g) (hr : g.controls.idea.seePoll r.2 = r.1.idea) :
    Follows capacity (fit ∧ g.queue.contents.length + r.2.length ≤ capacity) (g.push r) := by
  have hrings := h.rings.pushAll r.2
  have hcontents : (g.push r).queue.contents =
      g.queue.contents ++ r.2.take (capacity - g.queue.contents.length) := hrings.contents_eq
  have htold : (g.push r).told.flatten = g.told.flatten ++ r.2 := by
    change (g.told ++ [r.2]).flatten = _
    rw [List.flatten_append, List.flatten_singleton]
  have hle := h.rings.length_le
  refine ⟨?_, ?_, ?_, ?_⟩
  · change (g.told ++ [r.2]).foldl Idea.seePoll .atRest = r.1.idea
    rw [List.foldl_append, h.idea]
    exact hr
  · rw [hcontents]
    exact hrings
  · rw [hcontents, htold, ← List.append_assoc]
    exact h.sublist.append (List.take_sublist _ _)
  · rw [hcontents, htold, ← List.append_assoc, ← h.complete]
    change (g.given ++ g.queue.contents) ++ _ = _ ↔ _
    constructor
    · intro hall
      have hlength : (g.given ++ g.queue.contents).length + min (capacity - g.queue.contents.length) r.2.length =
          g.told.flatten.length + r.2.length := by
        rw [← List.length_take, ← List.length_append, ← List.length_append, hall]
      have hbefore := h.sublist.length_le
      exact ⟨h.sublist.eq_of_length (by omega), by omega⟩
    · rintro ⟨hbefore, hfits⟩
      rw [hbefore, List.take_of_length_le (by omega)]

theorem Follows.nextEvent (h : Follows capacity fit g) : Follows capacity fit (g.call .nextEvent) := by
  obtain ⟨hhead, hrings⟩ := h.rings.nextEvent
  have hsame : (g.given ++ g.queue.nextEvent.1.toList) ++ g.queue.nextEvent.2.contents =
      g.given ++ g.queue.contents := by
    rw [hrings.contents_eq, hhead, List.append_assoc]
    cases g.queue.contents <;> rfl
  have hsub := h.sublist
  have hcomplete := h.complete
  rw [← hsame] at hsub hcomplete
  refine ⟨h.idea, ?_, hsub, hcomplete⟩
  change Rings capacity g.queue.nextEvent.2 g.queue.nextEvent.2.contents
  rw [hrings.contents_eq]
  exact hrings

/-- What changes nothing that is told changes nothing that the game can know. -/
theorem Follows.adjust {c : Controls} (h : Follows capacity fit g) (hidea : c.idea = g.controls.idea) :
    Follows capacity fit { g with controls := c } :=
  ⟨h.idea.trans hidea.symm, h.rings, h.sublist, h.complete⟩

theorem idea_gamepadSetDeadzone (padId : ℕ) (deadzone : Float32) (c : Controls) :
    (c.gamepadSetDeadzone padId deadzone).idea = c.idea := by
  unfold Controls.gamepadSetDeadzone
  split_ifs
  · rfl
  · rfl
  · have hpads : Gamepad.idea ∘ update c.pads.gamepads padId { c.pads.gamepads padId with deadzone } = c.pads.idea := by
      rw [comp_update]
      exact update_eq_self padId c.pads.idea
    exact congrArg (Idea.mk c.keyCurrent c.keyPrevious c.mouse.buttons c.mouse.scroll) hpads

/-! ## Whole games -/

/-- The events that are pushed in the call fit into the queue. -/
def GameCall.Fits (g : Game) : GameCall → Prop
  | .poll notices reads =>
      g.queue.contents.length + (g.controls.poll notices reads).2.length ≤ g.queue.eventCapacity.toNat
  | .nextEvent | .mouseSetRelative _ | .gamepadSetDeadzone _ _ => True

/-- No event is pushed into a full queue. -/
def NeverFull (config : Option InConfig) (entries : List (List UInt8 × Opened)) (calls : List GameCall) : Prop :=
  (inCreate config entries).told.flatten.length ≤ (inCreate config entries).queue.eventCapacity.toNat ∧
    History.Always (fun before call => call.Fits (play config entries before)) calls

theorem play_concat (config : Option InConfig) (entries : List (List UInt8 × Opened)) (calls : List GameCall)
    (call : GameCall) : play config entries (calls ++ [call]) = (play config entries calls).call call := by
  rw [play, List.foldl_append]
  rfl

theorem neverFull_concat (config : Option InConfig) (entries : List (List UInt8 × Opened)) (calls : List GameCall)
    (call : GameCall) : NeverFull config entries (calls ++ [call]) ↔
      NeverFull config entries calls ∧ call.Fits (play config entries calls) := by
  rw [NeverFull, History.always_concat, ← and_assoc]
  rfl

theorem Follows.congr {fit' : Prop} (h : Follows capacity fit g) (hfit : fit ↔ fit') : Follows capacity fit' g :=
  ⟨h.idea, h.rings, h.sublist, h.complete.trans hfit⟩

/-- The devices that are there from the beginning are told. -/
theorem follows_inCreate (config : Option InConfig) (entries : List (List UInt8 × Opened)) :
    Follows (queueCapacity (config.getD defaultConfig).eventQueueSize).toNat (NeverFull config entries [])
      (inCreate config entries) := by
  have hnew := follows_new (config.getD defaultConfig)
  have hempty : (Game.new (config.getD defaultConfig)).queue.contents = [] :=
    (rings_create (config.getD defaultConfig).eventQueueSize).contents_eq
  have htold : Told Controls.idea Idea.see (Controls.enumerateDevices entries) := by
    unfold Controls.enumerateDevices
    exact .forEach (fun entry => told_hotplug _) entries
  have hstart := hnew.push (htold (Controls.new (config.getD defaultConfig)))
  refine hstart.congr ?_
  have hcapacity : (inCreate config entries).queue.eventCapacity.toNat =
      (queueCapacity (config.getD defaultConfig).eventQueueSize).toNat := hstart.rings.slots
  rw [NeverFull, hcapacity, hempty, true_and, List.length_nil, Nat.zero_add]
  change _ ↔ ([] ++ [_] : List (List InEvent)).flatten.length ≤ _ ∧ _
  rw [List.nil_append, List.flatten_singleton]
  exact (and_iff_left History.always_nil).symm

/-- What holds of a game that has made some calls. -/
theorem follows_play (config : Option InConfig) (entries : List (List UInt8 × Opened)) (calls : List GameCall) :
    Follows (queueCapacity (config.getD defaultConfig).eventQueueSize).toNat (NeverFull config entries calls)
      (play config entries calls) := by
  induction calls using List.reverseRecOn with
  | nil => exact follows_inCreate config entries
  | append_singleton calls call ih =>
      rw [play_concat]
      refine Follows.congr ?_ (neverFull_concat config entries calls call).symm
      cases call with
      | poll notices reads =>
          rw [GameCall.Fits, ih.rings.slots]
          exact ih.push (seePoll_poll notices reads _)
      | nextEvent => exact ih.nextEvent.congr (and_iff_left trivial).symm
      | mouseSetRelative enable =>
          refine (ih.adjust ?_).congr (and_iff_left trivial).symm
          cases enable <;> rfl
      | gamepadSetDeadzone padId deadzone =>
          exact (ih.adjust (idea_gamepadSetDeadzone padId deadzone _)).congr (and_iff_left trivial).symm

/-- In every game: the events that are pushed tell, poll by poll, which keys and mouse buttons are down, which keys
were down before, how far the wheel has turned, and of each gamepad whether it is there, its axes and its buttons,
but for the directional pad.  The game is given events in the order in which they are pushed, and it misses none if
and only if none is pushed into a full queue. -/
theorem play_spec (config : Option InConfig) (entries : List (List UInt8 × Opened)) (calls : List GameCall) :
    (play config entries calls).told.foldl Idea.seePoll .atRest = (play config entries calls).controls.idea ∧
      ((play config entries calls).given ++ (play config entries calls).queue.contents).Sublist
        (play config entries calls).told.flatten ∧
      ((play config entries calls).given ++ (play config entries calls).queue.contents =
        (play config entries calls).told.flatten ↔ NeverFull config entries calls) :=
  ⟨(follows_play config entries calls).idea, (follows_play config entries calls).sublist,
    (follows_play config entries calls).complete⟩

end LgxRuntime.Input
