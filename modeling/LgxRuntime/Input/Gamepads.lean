import Mathlib.Algebra.Order.Ring.Int
import Mathlib.Data.List.Basic
import Mathlib.Logic.Function.Basic
import Mathlib.Tactic.Common

/-!
# Input devices and gamepads

Devices that appear get an entry in the table of devices, and gamepads a slot besides, while there are slots.  An
entry stays when its device is gone, with its path.  What `open`, the `ioctl`s and `read` answer is given with
each call.  What keyboards and mice do with their events is left out: they change no gamepad.
-/

namespace LgxRuntime.Input

open Function (update)

/-- `MAX_DEVICES`. -/
def maxDevices : ℕ := 32

/-- `LGX_IN_MAX_GAMEPADS`. -/
def maxGamepads : ℕ := 8

/-- `ENODEV`. -/
def enodev : ℕ := 19

/-- `device_type_t`. -/
inductive DeviceType
  | none
  | keyboard
  | mouse
  | gamepad
  deriving DecidableEq

/-- `input_device_t`; `fd` is `none` for -1. -/
structure InputDevice where
  fd : Option ℕ
  type : DeviceType
  path : List UInt8
  gamepadId : ℕ
  deriving DecidableEq

/-- `gamepad_internal_t`; `device` is the index of an entry. -/
structure Gamepad where
  connected : Bool
  axes : List Float32
  buttons : UInt32
  deadzone : Float32
  absMin : UInt16 → ℤ
  absMax : UInt16 → ℤ
  device : Option ℕ

/-- What `memset` leaves. -/
def Gamepad.zero : Gamepad where
  connected := false
  axes := List.replicate 6 0
  buttons := 0
  deadzone := 0
  absMin := fun _ => 0
  absMax := fun _ => 0
  device := none

/-- The events that are pushed for gamepads, with their `pad_id`. -/
inductive PadEvent
  | connect (padId : ℕ)
  | disconnect (padId : ℕ)
  | buttonDown (padId : ℕ) (button : UInt32)
  | buttonUp (padId : ℕ) (button : UInt32)
  | axis (padId axis : ℕ) (value : Float32)

/-- `lgx_in_system`.  There are as many devices as `device_count` says; of the gamepads, the array has the first
`LGX_IN_MAX_GAMEPADS`.  The events for gamepads are listed as they are pushed, the latest first.  `errno` belongs
to the thread. -/
structure InSystem where
  devices : List InputDevice
  gamepads : ℕ → Gamepad
  gamepadCount : ℕ
  events : List PadEvent
  enableGamepad : Bool
  enableKeyboard : Bool
  enableMouse : Bool
  errno : ℕ

/-- What `lgx_in_create` starts with. -/
def InSystem.new (enableGamepad enableKeyboard enableMouse : Bool) : InSystem where
  devices := []
  gamepads := fun _ => .zero
  gamepadCount := 0
  events := []
  enableGamepad := enableGamepad
  enableKeyboard := enableKeyboard
  enableMouse := enableMouse
  errno := 0

/-! ## Opening a device -/

/-- What the calls answer that open a device: a descriptor, if it can be opened; what `classify_device` makes of
it; the ranges of its axes; and `errno` after that. -/
structure Opened where
  fd : Option ℕ
  type : DeviceType
  absInfo : UInt16 → Option (ℤ × ℤ)
  errno : ℕ

/-- The type is one that the system takes. -/
def InSystem.enabled (s : InSystem) : DeviceType → Bool
  | .none => false
  | .keyboard => s.enableKeyboard
  | .mouse => s.enableMouse
  | .gamepad => s.enableGamepad

/-- The axes whose ranges are asked for. -/
def rangedAxes : List UInt16 :=
  [0x00, 0x01, 0x03, 0x04, 0x02, 0x05, 0x10, 0x11]

/-- The slot of a gamepad that has been opened, whose entry is given. -/
def openedGamepad (opened : Opened) (entry : ℕ) : Gamepad where
  connected := true
  axes := List.replicate 6 0
  buttons := 0
  deadzone := 0.15
  absMin := fun axis => if axis ∈ rangedAxes then ((opened.absInfo axis).map Prod.fst).getD 0 else 0
  absMax := fun axis => if axis ∈ rangedAxes then ((opened.absInfo axis).map Prod.snd).getD 0 else 0
  device := some entry

/-- The path as it is stored, in 64 bytes with the terminator. -/
def storedPath (path : List UInt8) : List UInt8 :=
  path.take 63

/-- The entry of a device that has been opened. -/
def openedDevice (path : List UInt8) (opened : Opened) (gamepadId : ℕ) : InputDevice where
  fd := opened.fd
  type := opened.type
  path := storedPath path
  gamepadId := gamepadId

/-- There is room for the device, its path is not that of an entry, and it can be opened and is taken. -/
def InSystem.accepts (s : InSystem) (path : List UInt8) (opened : Opened) : Bool :=
  decide (s.devices.length < maxDevices) && !(s.devices.any fun dev => dev.path = path) && opened.fd.isSome &&
    s.enabled opened.type

/-- `open_device`. -/
def openDevice (s : InSystem) (path : List UInt8) (opened : Opened) : InSystem :=
  if maxDevices ≤ s.devices.length then s
  else if s.devices.any fun dev => dev.path = path then s
  else if opened.fd = none then { s with errno := opened.errno }
  else if !s.enabled opened.type then { s with errno := opened.errno }
  else if opened.type = .gamepad && s.gamepadCount < maxGamepads then
    { s with
      devices := s.devices ++ [openedDevice path opened s.gamepadCount]
      gamepads := update s.gamepads s.gamepadCount (openedGamepad opened s.devices.length)
      gamepadCount := s.gamepadCount + 1
      events := .connect s.gamepadCount :: s.events
      errno := opened.errno }
  else { s with devices := s.devices ++ [openedDevice path opened 0], errno := opened.errno }

/-! ## Events -/

/-- `struct input_event`. -/
structure InputEvent where
  type : UInt16
  code : UInt16
  value : ℤ

/-- `EV_SYN`. -/
def evSyn : UInt16 := 0

/-- `EV_KEY`. -/
def evKey : UInt16 := 1

/-- `EV_ABS`. -/
def evAbs : UInt16 := 3

/-- `ABS_HAT0X`. -/
def absHat0X : UInt16 := 0x10

/-- `ABS_HAT0Y`. -/
def absHat0Y : UInt16 := 0x11

/-- `LGX_PAD_DPAD_UP`. -/
def dpadUp : UInt32 := 0x0800

/-- `LGX_PAD_DPAD_DOWN`. -/
def dpadDown : UInt32 := 0x1000

/-- `LGX_PAD_DPAD_LEFT`. -/
def dpadLeft : UInt32 := 0x2000

/-- `LGX_PAD_DPAD_RIGHT`. -/
def dpadRight : UInt32 := 0x4000

/-- `evdev_to_gamepad_btn`, on the codes from `BTN_SOUTH` to `BTN_THUMBR`. -/
def evdevToGamepadBtn (code : UInt16) : UInt32 :=
  if code = 0x130 then 0x0001
  else if code = 0x131 then 0x0002
  else if code = 0x133 then 0x0008
  else if code = 0x134 then 0x0004
  else if code = 0x136 then 0x0010
  else if code = 0x137 then 0x0020
  else if code = 0x13D then 0x0040
  else if code = 0x13E then 0x0080
  else if code = 0x13B then 0x0100
  else if code = 0x13A then 0x0200
  else if code = 0x13C then 0x0400
  else 0

/-- The axis for the codes `ABS_X`, `ABS_Y`, `ABS_RX`, `ABS_RY`, `ABS_Z` and `ABS_RZ`; the last two are the
triggers. -/
def gamepadAxis (code : UInt16) : Option ℕ :=
  if code = 0x00 then some 0
  else if code = 0x01 then some 1
  else if code = 0x03 then some 2
  else if code = 0x04 then some 3
  else if code = 0x02 then some 4
  else if code = 0x05 then some 5
  else none

/-- `normalize_axis`. -/
def normalizeAxis (value min max : ℤ) : Float32 :=
  if max = min then 0 else 2 * Float32.ofInt (value - min) / Float32.ofInt (max - min) - 1

/-- `apply_deadzone`. -/
def applyDeadzone (value deadzone : Float32) : Float32 :=
  if value > -deadzone && value < deadzone then 0
  else
    let sign : Float32 := if value > 0 then 1 else -1
    let adj := (value - sign * deadzone) / (1 - deadzone)
    if adj > 1 then 1 else if adj < -1 then -1 else adj

/-- A pair of directions of the directional pad: the one for negative values, and the one for positive ones. -/
def dpad (buttons : UInt32) (value : ℤ) (negative positive : UInt32) : UInt32 :=
  if value < 0 then (buttons ||| negative) &&& ~~~positive
  else if 0 < value then (buttons ||| positive) &&& ~~~negative
  else buttons &&& ~~~(negative ||| positive)

/-- What an event does to the slot of a gamepad, and the event that is pushed. -/
def Gamepad.process (gp : Gamepad) (padId : ℕ) (ev : InputEvent) : Gamepad × Option PadEvent :=
  if ev.type = evKey then
    let btn := evdevToGamepadBtn ev.code
    if btn = 0 then (gp, none)
    else if ev.value ≠ 0 then ({ gp with buttons := gp.buttons ||| btn }, some (.buttonDown padId btn))
    else ({ gp with buttons := gp.buttons &&& ~~~btn }, some (.buttonUp padId btn))
  else if ev.type = evAbs then
    if ev.code = absHat0X then ({ gp with buttons := dpad gp.buttons ev.value dpadLeft dpadRight }, none)
    else if ev.code = absHat0Y then ({ gp with buttons := dpad gp.buttons ev.value dpadUp dpadDown }, none)
    else
      match gamepadAxis ev.code with
      | none => (gp, none)
      | some axis =>
          let normalized := normalizeAxis ev.value (gp.absMin ev.code) (gp.absMax ev.code)
          let value :=
            if axis = 4 || axis = 5 then (normalized + 1) * 0.5 else applyDeadzone normalized gp.deadzone
          ({ gp with axes := gp.axes.set axis value }, some (.axis padId axis value))
  else (gp, none)

/-- `process_gamepad_event`. -/
def processGamepadEvent (dev : InputDevice) (s : InSystem) (ev : InputEvent) : InSystem :=
  if maxGamepads ≤ dev.gamepadId then s
  else
    let processed := (s.gamepads dev.gamepadId).process dev.gamepadId ev
    { s with
      gamepads := update s.gamepads dev.gamepadId processed.1
      events := processed.2.toList ++ s.events }

/-! ## Polling -/

/-- What the reads of one device in one poll return: the events, and how the last one failed, if it did not
return zero bytes. -/
structure DeviceReads where
  events : List InputEvent
  failure : Option ℕ

/-- What `lgx_in_poll` does with an event of a device. -/
def processEvent (dev : InputDevice) (s : InSystem) (ev : InputEvent) : InSystem :=
  if ev.type = evSyn then s
  else if dev.type = .gamepad then processGamepadEvent dev s ev
  else s

/-- The gamepad of entry `i` is gone. -/
def disconnectGamepad (s : InSystem) (i : ℕ) (dev : InputDevice) : InSystem :=
  let s :=
    if dev.gamepadId < maxGamepads then
      { s with
        gamepads := update s.gamepads dev.gamepadId { s.gamepads dev.gamepadId with connected := false }
        events := .disconnect dev.gamepadId :: s.events }
    else s
  { s with devices := s.devices.set i { dev with fd := none } }

/-- The body of the loop of `lgx_in_poll` over the entries. -/
def readDevice (s : InSystem) (i : ℕ) (reads : DeviceReads) : InSystem :=
  match s.devices[i]? with
  | none => s
  | some dev =>
      if dev.fd = none then s
      else
        let s := reads.events.foldl (processEvent dev) s
        let s := { s with errno := reads.failure.getD s.errno }
        if s.errno = enodev && dev.type = .gamepad then disconnectGamepad s i dev else s

/-- An event of the watch on the directory, with what opening the device answers. -/
structure Notice where
  name : List UInt8
  created : Bool
  opened : Opened

/-- `"/dev/input/"`. -/
def inputDir : List UInt8 :=
  [0x2F, 0x64, 0x65, 0x76, 0x2F, 0x69, 0x6E, 0x70, 0x75, 0x74, 0x2F]

/-- `"event"`. -/
def eventPrefix : List UInt8 :=
  [0x65, 0x76, 0x65, 0x6E, 0x74]

/-- `check_hotplug`, with the events that are read from the watch. -/
def checkHotplug (s : InSystem) (notices : List Notice) : InSystem :=
  notices.foldl
    (fun s notice =>
      if notice.name.take 5 = eventPrefix && notice.created then openDevice s (inputDir ++ notice.name) notice.opened
      else s) s

/-- `lgx_in_poll`. -/
def inPoll (s : InSystem) (notices : List Notice) (reads : ℕ → DeviceReads) : InSystem :=
  let s := checkHotplug s notices
  (List.range s.devices.length).foldl (fun s i => readDevice s i (reads i)) s

end LgxRuntime.Input
