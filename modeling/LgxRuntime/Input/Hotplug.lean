import LgxRuntime.Input.Gamepads
import LgxRuntime.Lib.Ring
import Mathlib.Data.List.Induction
import Mathlib.Data.List.Infix

/-!
# Gamepads that come and go

A gamepad has a slot of its own as long as it is opened while there are slots; one that is opened after that
has slot zero, which belongs to another.  A device that appears again is not opened if its path is still that
of an entry, which keeps it when its device is gone.
-/

namespace LgxRuntime.Input

open Function (update)

/-- What happens to the devices: one appears, or that of an entry is read. -/
inductive InputCall
  | appear (path : List UInt8) (opened : Opened)
  | read (i : ℕ) (reads : DeviceReads)

/-- The system after a call. -/
def InputCall.run : InputCall → InSystem → InSystem
  | .appear path opened, s => openDevice s path opened
  | .read i reads, s => readDevice s i reads

/-- The system after some calls. -/
def InSystem.runAll (s : InSystem) (calls : List InputCall) : InSystem :=
  calls.foldl (fun s call => call.run s) s

/-! ## Polls -/

/-- The devices that the notices of the watch tell of. -/
def appearances (notices : List Notice) : List InputCall :=
  (notices.filter fun notice => notice.name.take 5 = eventPrefix && notice.created).map fun notice =>
    .appear (inputDir ++ notice.name) notice.opened

theorem checkHotplug_eq (s : InSystem) (notices : List Notice) :
    checkHotplug s notices = s.runAll (appearances notices) := by
  induction notices generalizing s with
  | nil => rfl
  | cons notice notices ih =>
      rw [appearances, List.filter_cons]
      split_ifs with hnotice
      · exact (congrArg (fun s => checkHotplug s notices) (if_pos hnotice)).trans (ih _)
      · exact (congrArg (fun s => checkHotplug s notices) (if_neg hnotice)).trans (ih _)

/-- A poll consists of appearances and reads. -/
theorem inPoll_eq (s : InSystem) (notices : List Notice) (reads : ℕ → DeviceReads) :
    inPoll s notices reads =
      s.runAll (appearances notices ++
        (List.range (checkHotplug s notices).devices.length).map fun i => .read i (reads i)) := by
  rw [InSystem.runAll, List.foldl_append, List.foldl_map, inPoll]
  exact congrArg (fun s => List.foldl _ s _) (checkHotplug_eq s notices)

/-! ## What should hold -/

/-- The events of an open gamepad go to the slot. -/
def InSystem.Drives (s : InSystem) (i g : ℕ) : Prop :=
  ∃ dev, s.devices[i]? = some dev ∧ dev.fd ≠ none ∧ dev.type = .gamepad ∧ dev.gamepadId = g

/-- No two devices drive one slot. -/
def InSystem.DrivenOnce (s : InSystem) : Prop :=
  ∀ g < maxGamepads, ∀ i j, s.Drives i g → s.Drives j g → i = j

/-- Reading a device changes at most the slot that the device drives and was given, and the slot is disconnected
only if the device is gone. -/
def InSystem.ChangesOwnSlot (s : InSystem) (i : ℕ) (reads : DeviceReads) : Prop :=
  ∀ g, (readDevice s i reads).gamepads g ≠ s.gamepads g →
    s.Drives i g ∧ (s.gamepads g).device = some i ∧
      ((s.gamepads g).connected = true → ((readDevice s i reads).gamepads g).connected = false →
        reads.failure = some enodev)

/-- A gamepad that appears at a path where no device is open is opened and connected, while there is room. -/
def InSystem.Connects (s : InSystem) (path : List UInt8) (opened : Opened) : Prop :=
  opened.fd ≠ none → opened.type = .gamepad → s.enableGamepad = true → s.devices.length < maxDevices →
    s.gamepadCount < maxGamepads → (∀ dev ∈ s.devices, dev.fd ≠ none → dev.path ≠ path) →
      ∃ i g, (openDevice s path opened).Drives i g ∧ ((openDevice s path opened).gamepads g).device = some i ∧
        ((openDevice s path opened).gamepads g).connected = true

/-- The call does what it should. -/
def InputCall.Sound (s : InSystem) : InputCall → Prop
  | .appear path opened => s.Connects path opened
  | .read i reads => s.ChangesOwnSlot i reads

/-- In every state no two devices drive one slot, and every call does what it should. -/
structure HotplugSound (s : InSystem) (calls : List InputCall) : Prop where
  drivenOnce : ∀ before, before <+: calls → (s.runAll before).DrivenOnce
  sound : ∀ before call, before ++ [call] <+: calls → call.Sound (s.runAll before)

/-- A gamepad is opened only while there is a slot for it, no device appears at the path of an entry whose device
is gone, and no read of an open gamepad returns zero bytes while `errno` is still `ENODEV`. -/
def InputCall.Allowed (s : InSystem) : InputCall → Prop
  | .appear path opened =>
      (s.accepts path opened = true → opened.type = .gamepad → s.gamepadCount < maxGamepads) ∧
        ∀ dev ∈ s.devices, dev.fd = none → dev.path ≠ path
  | .read i reads =>
      ∀ dev, s.devices[i]? = some dev → dev.fd ≠ none → dev.type = .gamepad → reads.failure = none →
        s.errno ≠ enodev

/-! ## Slots and entries -/

/-- The slot of every gamepad points back to its entry. -/
structure InSystem.Slotted (s : InSystem) : Prop where
  gamepadCount_le : s.gamepadCount ≤ maxGamepads
  slot : ∀ i dev, s.devices[i]? = some dev → dev.type = .gamepad →
    dev.gamepadId < s.gamepadCount ∧ (s.gamepads dev.gamepadId).device = some i

variable {s s' s'' : InSystem} {dev : InputDevice} {i g : ℕ} {reads : DeviceReads} {path : List UInt8}
  {opened : Opened} {calls : List InputCall} {call : InputCall}

theorem slotted_new (enableGamepad enableKeyboard enableMouse : Bool) :
    (InSystem.new enableGamepad enableKeyboard enableMouse).Slotted :=
  ⟨Nat.zero_le _, fun i dev h => absurd h (by simp [InSystem.new])⟩

theorem InSystem.Slotted.device_eq (h : s.Slotted) (hdrives : s.Drives i g) : (s.gamepads g).device = some i := by
  obtain ⟨dev, hdev, -, htype, rfl⟩ := hdrives
  exact (h.slot i dev hdev htype).2

theorem InSystem.Slotted.drivenOnce (h : s.Slotted) : s.DrivenOnce := by
  intro g _ i j hi hj
  exact Option.some.inj ((h.device_eq hi).symm.trans (h.device_eq hj))

/-! ## Events -/

/-- Events of a device change at most the slot that it drives, and neither whose slot it is nor whether it is
connected. -/
structure Handles (dev : InputDevice) (s s' : InSystem) : Prop where
  devices : s'.devices = s.devices
  gamepadCount : s'.gamepadCount = s.gamepadCount
  errno : s'.errno = s.errno
  changed : ∀ g, s'.gamepads g ≠ s.gamepads g → dev.type = .gamepad ∧ dev.gamepadId = g
  device : ∀ g, (s'.gamepads g).device = (s.gamepads g).device
  connected : ∀ g, (s'.gamepads g).connected = (s.gamepads g).connected

theorem Handles.refl (dev : InputDevice) (s : InSystem) : Handles dev s s :=
  ⟨rfl, rfl, rfl, fun _ h => absurd rfl h, fun _ => rfl, fun _ => rfl⟩

theorem Handles.trans (h : Handles dev s s') (h' : Handles dev s' s'') : Handles dev s s'' where
  devices := h'.devices.trans h.devices
  gamepadCount := h'.gamepadCount.trans h.gamepadCount
  errno := h'.errno.trans h.errno
  changed := by
    intro g hg
    by_cases hsame : s''.gamepads g = s'.gamepads g
    · rw [hsame] at hg
      exact h.changed g hg
    · exact h'.changed g hsame
  device := fun g => (h'.device g).trans (h.device g)
  connected := fun g => (h'.connected g).trans (h.connected g)

/-- An event moves buttons and axes. -/
theorem process_fst (gp : Gamepad) (padId : ℕ) (ev : InputEvent) :
    (gp.process padId ev).1.device = gp.device ∧ (gp.process padId ev).1.connected = gp.connected := by
  unfold Gamepad.process
  dsimp only
  split_ifs
  all_goals try exact ⟨rfl, rfl⟩
  cases gamepadAxis ev.code <;> exact ⟨rfl, rfl⟩

theorem handles_processEvent (dev : InputDevice) (s : InSystem) (ev : InputEvent) :
    Handles dev s (processEvent dev s ev) := by
  unfold processEvent processGamepadEvent
  split_ifs with hsyn htype hid
  · exact Handles.refl dev s
  · exact Handles.refl dev s
  · obtain ⟨hdevice, hconnected⟩ := process_fst (s.gamepads dev.gamepadId) dev.gamepadId ev
    refine ⟨rfl, rfl, rfl, ?_, ?_, ?_⟩
    · intro g hg
      by_contra hother
      have hne : g ≠ dev.gamepadId := fun heq => hother ⟨htype, heq.symm⟩
      exact hg (Function.update_of_ne hne _ _)
    · intro g
      by_cases heq : g = dev.gamepadId
      · rw [heq]
        dsimp only
        rw [Function.update_self]
        exact hdevice
      · exact congrArg Gamepad.device (Function.update_of_ne heq _ _)
    · intro g
      by_cases heq : g = dev.gamepadId
      · rw [heq]
        dsimp only
        rw [Function.update_self]
        exact hconnected
      · exact congrArg Gamepad.connected (Function.update_of_ne heq _ _)
  · exact Handles.refl dev s

theorem handles_foldl (dev : InputDevice) (s : InSystem) (events : List InputEvent) :
    Handles dev s (events.foldl (processEvent dev) s) := by
  induction events generalizing s with
  | nil => exact Handles.refl dev s
  | cons ev events ih => exact (handles_processEvent dev s ev).trans (ih _)

/-! ## Reading a device -/

/-- A read does nothing, or handles events, or handles events and finds that the device is gone. -/
theorem readDevice_cases (s : InSystem) (i : ℕ) (reads : DeviceReads) :
    readDevice s i reads = s ∨
      ∃ dev s', s.devices[i]? = some dev ∧ dev.fd ≠ none ∧ Handles dev s s' ∧
        (readDevice s i reads = { s' with errno := reads.failure.getD s.errno } ∨
          (dev.type = .gamepad ∧ reads.failure.getD s.errno = enodev ∧
            readDevice s i reads =
              disconnectGamepad { s' with errno := reads.failure.getD s.errno } i dev)) := by
  cases hdev : s.devices[i]? with
  | none =>
      refine Or.inl ?_
      rw [readDevice, hdev]
  | some dev =>
      by_cases hopen : dev.fd = none
      · refine Or.inl ?_
        rw [readDevice, hdev]
        exact if_pos hopen
      · have hhandles := handles_foldl dev s reads.events
        refine Or.inr ⟨dev, reads.events.foldl (processEvent dev) s, rfl, hopen, hhandles, ?_⟩
        have hread : readDevice s i reads =
            if reads.failure.getD s.errno = enodev && dev.type = .gamepad then
              disconnectGamepad { reads.events.foldl (processEvent dev) s with
                errno := reads.failure.getD s.errno } i dev
            else { reads.events.foldl (processEvent dev) s with errno := reads.failure.getD s.errno } := by
          rw [readDevice, hdev, ← hhandles.errno]
          exact if_neg hopen
        rw [hread]
        split_ifs with hgone
        · rw [Bool.and_eq_true, decide_eq_true_eq, decide_eq_true_eq] at hgone
          exact Or.inr ⟨hgone.2, hgone.1, rfl⟩
        · exact Or.inl rfl

theorem InSystem.Slotted.handles (h : s.Slotted) (hhandles : Handles dev s s') : s'.Slotted := by
  refine ⟨hhandles.gamepadCount.trans_le h.gamepadCount_le, ?_⟩
  intro i dev' hdev htype
  rw [hhandles.devices] at hdev
  obtain ⟨hlt, hslot⟩ := h.slot i dev' hdev htype
  exact ⟨hlt.trans_eq hhandles.gamepadCount.symm, (hhandles.device _).trans hslot⟩

theorem InSystem.Slotted.setErrno (h : s.Slotted) (errno : ℕ) : InSystem.Slotted { s with errno := errno } :=
  ⟨h.gamepadCount_le, h.slot⟩

theorem disconnectGamepad_devices (s : InSystem) (i : ℕ) (dev : InputDevice) :
    (disconnectGamepad s i dev).devices = s.devices.set i { dev with fd := none } := by
  unfold disconnectGamepad
  split_ifs <;> rfl

theorem disconnectGamepad_gamepadCount (s : InSystem) (i : ℕ) (dev : InputDevice) :
    (disconnectGamepad s i dev).gamepadCount = s.gamepadCount := by
  unfold disconnectGamepad
  split_ifs <;> rfl

theorem disconnectGamepad_of_ne (s : InSystem) (i : ℕ) (hne : g ≠ dev.gamepadId) :
    (disconnectGamepad s i dev).gamepads g = s.gamepads g := by
  unfold disconnectGamepad
  split_ifs
  · exact Function.update_of_ne hne _ _
  · rfl

theorem disconnectGamepad_device (s : InSystem) (i : ℕ) (dev : InputDevice) (g : ℕ) :
    ((disconnectGamepad s i dev).gamepads g).device = (s.gamepads g).device := by
  by_cases hne : g = dev.gamepadId
  · rw [hne]
    unfold disconnectGamepad
    split_ifs
    · dsimp only
      rw [Function.update_self]
    · rfl
  · rw [disconnectGamepad_of_ne s i hne]

theorem slotted_disconnectGamepad (h : s.Slotted) (hdev : s.devices[i]? = some dev) :
    (disconnectGamepad s i dev).Slotted := by
  refine ⟨(disconnectGamepad_gamepadCount s i dev).trans_le h.gamepadCount_le, ?_⟩
  intro j dev' hdev' htype
  rw [disconnectGamepad_gamepadCount, disconnectGamepad_device]
  rw [disconnectGamepad_devices] at hdev'
  by_cases hsame : i = j
  · rw [← hsame, List.getElem?_set_self', hdev] at hdev'
    obtain rfl := Option.some.inj hdev'
    rw [← hsame]
    exact h.slot i dev hdev htype
  · rw [List.getElem?_set_ne hsame] at hdev'
    exact h.slot j dev' hdev' htype

theorem slotted_readDevice (h : s.Slotted) (i : ℕ) (reads : DeviceReads) :
    (readDevice s i reads).Slotted := by
  obtain hsame | ⟨dev, s', hdev, -, hhandles, hread | ⟨-, -, hread⟩⟩ := readDevice_cases s i reads
  · rw [hsame]
    exact h
  · rw [hread]
    exact (h.handles hhandles).setErrno _
  · rw [hread]
    have hdev' : s'.devices[i]? = some dev := by rw [hhandles.devices, hdev]
    exact slotted_disconnectGamepad ((h.handles hhandles).setErrno _) hdev'

/-- By the slot of the device, which points back to its entry. -/
theorem InSystem.Slotted.changesOwnSlot (h : s.Slotted) (hallowed : (InputCall.read i reads).Allowed s) :
    s.ChangesOwnSlot i reads := by
  intro g hchanged
  obtain hsame | ⟨dev, s', hdev, hopen, hhandles, hread | ⟨htype, hgone, hread⟩⟩ := readDevice_cases s i reads
  · rw [hsame] at hchanged
    exact absurd rfl hchanged
  · rw [hread] at hchanged ⊢
    obtain ⟨htype, rfl⟩ := hhandles.changed g hchanged
    have hdrives : s.Drives i dev.gamepadId := ⟨dev, hdev, hopen, htype, rfl⟩
    refine ⟨hdrives, h.device_eq hdrives, fun hbefore hafter => ?_⟩
    rw [← hhandles.connected] at hbefore
    exact absurd (hbefore.symm.trans hafter) (by decide)
  · have hg : dev.gamepadId = g := by
      by_contra hne
      apply hchanged
      rw [hread, disconnectGamepad_of_ne _ i (Ne.symm hne)]
      by_contra hother
      exact hne (hhandles.changed g hother).2
    have hdrives : s.Drives i g := ⟨dev, hdev, hopen, htype, hg⟩
    refine ⟨hdrives, h.device_eq hdrives, fun _ _ => ?_⟩
    cases hfailure : reads.failure with
    | none =>
        rw [hfailure] at hgone
        exact absurd hgone (hallowed dev hdev hopen htype hfailure)
    | some errno =>
        rw [hfailure] at hgone
        exact congrArg some hgone

/-! ## Opening a device -/

theorem accepts_iff : s.accepts path opened = true ↔
    s.devices.length < maxDevices ∧ (∀ dev ∈ s.devices, dev.path ≠ path) ∧ opened.fd ≠ none ∧
      s.enabled opened.type = true := by
  rw [InSystem.accepts, Bool.and_eq_true, Bool.and_eq_true, Bool.and_eq_true, decide_eq_true_eq,
    Bool.not_eq_true', List.any_eq_false, Option.isSome_iff_ne_none, and_assoc, and_assoc]
  simp only [decide_eq_true_eq, ne_eq]

theorem accepts_of_not (hfull : ¬ maxDevices ≤ s.devices.length)
    (hpath : ¬ (s.devices.any fun dev => dev.path = path) = true) (hfd : ¬ opened.fd = none)
    (henabled : ¬ (!s.enabled opened.type) = true) : s.accepts path opened = true := by
  rw [Bool.not_eq_true', Bool.not_eq_false] at henabled
  refine accepts_iff.mpr ⟨Nat.not_le.mp hfull, fun dev hdev hsame => ?_, hfd, henabled⟩
  exact hpath (List.any_eq_true.mpr ⟨dev, hdev, decide_eq_true hsame⟩)

/-- A device gets no entry, or one and perhaps a slot. -/
theorem openDevice_cases (s : InSystem) (path : List UInt8) (opened : Opened) :
    (s.accepts path opened = false ∧ (openDevice s path opened).devices = s.devices ∧
        (openDevice s path opened).gamepads = s.gamepads ∧
        (openDevice s path opened).gamepadCount = s.gamepadCount) ∨
      (s.accepts path opened = true ∧ (opened.type = .gamepad → maxGamepads ≤ s.gamepadCount) ∧
        (openDevice s path opened).devices = s.devices ++ [openedDevice path opened 0] ∧
        (openDevice s path opened).gamepads = s.gamepads ∧
        (openDevice s path opened).gamepadCount = s.gamepadCount) ∨
      (s.accepts path opened = true ∧ opened.type = .gamepad ∧ s.gamepadCount < maxGamepads ∧
        (openDevice s path opened).devices = s.devices ++ [openedDevice path opened s.gamepadCount] ∧
        (openDevice s path opened).gamepads =
          update s.gamepads s.gamepadCount (openedGamepad opened s.devices.length) ∧
        (openDevice s path opened).gamepadCount = s.gamepadCount + 1) := by
  unfold openDevice
  split_ifs with hfull hpath hfd henabled hslot
  · refine Or.inl ⟨Bool.eq_false_iff.mpr fun haccepts => ?_, rfl, rfl, rfl⟩
    exact absurd (accepts_iff.mp haccepts).1 (Nat.not_lt.mpr hfull)
  · refine Or.inl ⟨Bool.eq_false_iff.mpr fun haccepts => ?_, rfl, rfl, rfl⟩
    obtain ⟨dev, hdev, hsame⟩ := List.any_eq_true.mp hpath
    exact (accepts_iff.mp haccepts).2.1 dev hdev (of_decide_eq_true hsame)
  · refine Or.inl ⟨Bool.eq_false_iff.mpr fun haccepts => ?_, rfl, rfl, rfl⟩
    exact (accepts_iff.mp haccepts).2.2.1 hfd
  · refine Or.inl ⟨Bool.eq_false_iff.mpr fun haccepts => ?_, rfl, rfl, rfl⟩
    rw [(accepts_iff.mp haccepts).2.2.2] at henabled
    exact absurd henabled (by decide)
  · have haccepts := accepts_of_not hfull hpath hfd henabled
    rw [Bool.and_eq_true, decide_eq_true_eq, decide_eq_true_eq] at hslot
    exact Or.inr (Or.inr ⟨haccepts, hslot.1, hslot.2, rfl, rfl, rfl⟩)
  · have haccepts := accepts_of_not hfull hpath hfd henabled
    rw [Bool.and_eq_true, decide_eq_true_eq, decide_eq_true_eq, not_and, Nat.not_lt] at hslot
    exact Or.inr (Or.inl ⟨haccepts, hslot, rfl, rfl, rfl⟩)

theorem slotted_openDevice (h : s.Slotted) (hallowed : (InputCall.appear path opened).Allowed s) :
    (openDevice s path opened).Slotted := by
  obtain ⟨-, hdevices, hgamepads, hcount⟩ | ⟨haccepts, hfull, hdevices, hgamepads, hcount⟩ |
    ⟨-, -, hlt, hdevices, hgamepads, hcount⟩ := openDevice_cases s path opened
  · refine ⟨hcount.trans_le h.gamepadCount_le, ?_⟩
    rw [hdevices, hgamepads, hcount]
    exact h.slot
  · refine ⟨hcount.trans_le h.gamepadCount_le, ?_⟩
    rw [hdevices, hgamepads, hcount]
    intro i dev hdev htype
    obtain hold | ⟨-, rfl⟩ := Ring.getElem?_concat_cases hdev
    · exact h.slot i dev hold htype
    · exact absurd (hallowed.1 haccepts htype) (Nat.not_lt.mpr (hfull htype))
  · refine ⟨hcount.trans_le hlt, ?_⟩
    rw [hdevices, hgamepads, hcount]
    intro i dev hdev htype
    obtain hold | ⟨rfl, rfl⟩ := Ring.getElem?_concat_cases hdev
    · obtain ⟨hid, hslot⟩ := h.slot i dev hold htype
      rw [Function.update_of_ne hid.ne]
      exact ⟨hid.trans (Nat.lt_succ_self _), hslot⟩
    · refine ⟨Nat.lt_succ_self _, ?_⟩
      change (update s.gamepads s.gamepadCount (openedGamepad opened s.devices.length) s.gamepadCount).device = _
      rw [Function.update_self]
      rfl

/-- A gamepad that has no entry under its path yet is opened while there is room. -/
theorem connects_of_allowed (hallowed : (InputCall.appear path opened).Allowed s) : s.Connects path opened := by
  intro hfd htype henable hroom hslots hnotOpen
  have haccepts : s.accepts path opened = true := by
    refine accepts_iff.mpr ⟨hroom, ?_, hfd, ?_⟩
    · intro dev hdev
      by_cases hclosed : dev.fd = none
      · exact hallowed.2 dev hdev hclosed
      · exact hnotOpen dev hdev hclosed
    · rw [htype]
      exact henable
  obtain ⟨hrejected, -⟩ | ⟨-, hfull, -⟩ | ⟨-, -, -, hdevices, hgamepads, -⟩ := openDevice_cases s path opened
  · exact absurd (haccepts.symm.trans hrejected) (by decide)
  · exact absurd hslots (Nat.not_lt.mpr (hfull htype))
  · refine ⟨s.devices.length, s.gamepadCount, ⟨openedDevice path opened s.gamepadCount, ?_, hfd, htype, rfl⟩, ?_, ?_⟩
    · rw [hdevices, List.getElem?_concat_length]
    · rw [hgamepads, Function.update_self]
      rfl
    · rw [hgamepads, Function.update_self]
      rfl

/-! ## Runs -/

theorem slotted_run (h : s.Slotted) (hallowed : call.Allowed s) : (call.run s).Slotted := by
  cases call with
  | appear path opened => exact slotted_openDevice h hallowed
  | read i reads => exact slotted_readDevice h i reads

theorem InSystem.Slotted.sound (h : s.Slotted) (hallowed : call.Allowed s) : call.Sound s := by
  cases call with
  | appear path opened => exact connects_of_allowed hallowed
  | read i reads => exact h.changesOwnSlot hallowed

theorem slotted_runAll (h : s.Slotted)
    (hallowed : ∀ before call, before ++ [call] <+: calls → call.Allowed (s.runAll before)) :
    (s.runAll calls).Slotted := by
  induction calls using List.reverseRecOn with
  | nil => exact h
  | append_singleton calls call ih =>
      rw [InSystem.runAll, List.foldl_append]
      apply slotted_run
      · apply ih
        intro before call' hbefore
        exact hallowed before call' (hbefore.trans (List.prefix_append ..))
      · exact hallowed calls call (List.prefix_refl _)

/-- A gamepad that can be opened. -/
def openedPad : Opened :=
  ⟨some 3, .gamepad, fun _ => some (-32768, 32767), 0⟩

/-- `"/dev/input/event"` with a digit. -/
def eventPath (digit : ℕ) : List UInt8 :=
  inputDir ++ eventPrefix ++ [UInt8.ofNat (0x30 + digit)]

/-- A gamepad appears, presses a button, and is gone. -/
def onePad : List InputCall :=
  [.appear (eventPath 0) openedPad, .read 0 ⟨[⟨evKey, 0x130, 1⟩], some 11⟩, .read 0 ⟨[], some enodev⟩]

/-- Nine gamepads appear. -/
def ninePads : List InputCall :=
  (List.range 9).map fun digit => .appear (eventPath digit) openedPad

/-- A gamepad appears, is gone, and appears again. -/
def replugged : List InputCall :=
  [.appear (eventPath 0) openedPad, .read 0 ⟨[], some enodev⟩, .appear (eventPath 0) openedPad]

end LgxRuntime.Input
